import Mathlib.Data.List.Dedup

/-!
# Paths and file trees

A path keeps the text between its separators as it stands, the empty parts and
the dots included; a place is a path from the top with all of that resolved. The
calls on a tree of files walk a path part by part, as the system does, and write
down which object they reach for what.

There are no symbolic links, so the place a walk ends in is the path's
normalisation.
-/

namespace Rinfra.Lib.FileTree

abbrev Name := List Char

/-- An object's names from the top of the tree down to it. -/
abbrev Place := List Name

def dot : Name := ['.']
def dotdot : Name := ['.', '.']

structure Path where
  absolute : Bool
  parts : List Name
  deriving DecidableEq

namespace Path

def parse (s : String) : Path := ⟨s.toList.head? = some '/', s.toList.splitOn '/'⟩

def text (p : Path) : String := String.ofList (['/'].intercalate p.parts)

/-- `Path::join`: an absolute path replaces the one it is joined to. -/
def join (p q : Path) : Path :=
  if q.absolute then q
  else ⟨p.absolute, (if p.parts.getLast? = some [] then p.parts.dropLast else p.parts) ++ q.parts⟩

def named (p : Path) : List Name := p.parts.filter (· ≠ [])

/-- `Path::components` without the root: a dot counts only where a relative path
starts with it. -/
def components (p : Path) : List Name :=
  if p.absolute then p.named.filter (· ≠ dot)
  else match p.named with
    | [] => []
    | c :: cs => c :: cs.filter (· ≠ dot)

def parent (p : Path) : Option Path :=
  match p.components with
  | [] => none
  | c :: cs => some ⟨p.absolute, (c :: cs).dropLast⟩

def isBlank (p : Path) : Bool := p.named = []

def endsWithSlash (p : Path) : Bool := p.parts.getLast? = some []

/-- A path with a NUL cannot be handed to the system. -/
def hasNul (p : Path) : Bool := p.parts.any fun c => c.contains (Char.ofNat 0)

/-- What is left of the parts of a path once the components of another are
taken off its front. -/
def afterPrefix (first : Bool) : List Name → List Name → Option (List Name)
  | parts, [] => some (if first then parts else parts.dropWhile fun c => c = [] ∨ c = dot)
  | [], _ :: _ => none
  | c :: cs, b :: bs =>
    if c = [] ∨ c = dot ∧ ¬first then afterPrefix first cs (b :: bs)
    else if c = b then afterPrefix false cs bs
    else none

/-- `Path::strip_prefix` of a path that ends in a name; at the end of any other,
separators and dots are trimmed too. -/
def stripPrefix (p base : Path) : Option Path :=
  if base.absolute then
    if p.absolute then (afterPrefix false p.parts base.components).map (⟨false, ·⟩) else none
  else if base.components = [] then some p
  else if p.absolute then none
  else (afterPrefix true p.parts base.components).map (⟨false, ·⟩)

end Path

-- ---------------------------------------------------------------------------
-- Normalisation
-- ---------------------------------------------------------------------------

def move (p : Place) (c : Name) : Place :=
  if c = [] ∨ c = dot then p else if c = dotdot then p.dropLast else p ++ [c]

def norm (p : Place) (cs : List Name) : Place := cs.foldl move p

def visited (p : Place) : List Name → List Place
  | [] => [p]
  | c :: cs => p :: visited (move p c) cs

-- ---------------------------------------------------------------------------
-- Trees
-- ---------------------------------------------------------------------------

inductive Node
  | dir (size : Nat) (modified : Option Nat)
  | file (content : List UInt8) (modified : Option Nat)
  deriving DecidableEq, Repr

def Node.isDir : Node → Bool
  | .dir .. => true
  | .file .. => false

def Node.size : Node → Nat
  | .dir size _ => size
  | .file content _ => content.length

def Node.modified : Node → Option Nat
  | .dir _ modified | .file _ modified => modified

def nodeAt (entries : List (Place × Node)) (p : Place) : Option Node := entries.lookup p

def dirAt (entries : List (Place × Node)) (p : Place) : Bool :=
  (nodeAt entries p).any Node.isDir

theorem nodeAt_cons {e : Place × Node} :
    nodeAt (e :: entries) p = if p = e.1 then some e.2 else nodeAt entries p := by
  obtain ⟨q, n⟩ := e
  by_cases h : p = q
  · simp [nodeAt, h]
  · simp [nodeAt, List.lookup_cons, h, beq_false_of_ne h]

theorem nodeAt_filter_ne (h : p ≠ q) :
    nodeAt (entries.filter fun e : Place × Node => e.1 ≠ q) p = nodeAt entries p := by
  induction entries with
  | nil => rfl
  | cons e es ih =>
    by_cases he : e.1 = q
    · have hne : p ≠ e.1 := fun hp => h (hp.trans he)
      rw [List.filter_cons_of_neg (by simpa using he), ih, nodeAt_cons, if_neg hne]
    · rw [List.filter_cons_of_pos (by simpa using he), nodeAt_cons, nodeAt_cons, ih]

/-- Whatever is in a tree is in one of its directories. -/
structure Tree where
  entries : List (Place × Node)
  top : dirAt entries []
  inside : ∀ e ∈ entries, e.1 ≠ [] → dirAt entries e.1.dropLast

namespace Tree

def node (t : Tree) (p : Place) : Option Node := nodeAt t.entries p

def isDir (t : Tree) (p : Place) : Bool := dirAt t.entries p

def names (t : Tree) (p : Place) : List Name :=
  (t.entries.filterMap fun e => if e.1.dropLast = p then e.1.getLast? else none).dedup

/-- An object put into the directory `p`, where a directory stays one. -/
def put (t : Tree) (p : Place) (c : Name) (n : Node) (hdir : t.isDir p)
    (hn : t.isDir (p ++ [c]) → n.isDir) : Tree where
  entries := (p ++ [c], n) :: t.entries
  top := by simpa [dirAt, nodeAt_cons] using t.top
  inside := by
    have keeps : ∀ q, dirAt t.entries q → dirAt ((p ++ [c], n) :: t.entries) q := by
      intro q hq
      rw [dirAt, nodeAt_cons]
      split
      · rename_i h
        subst h
        exact hn hq
      · exact hq
    rintro e he hne
    rcases List.mem_cons.mp he with rfl | he
    · simpa using keeps p hdir
    · exact keeps _ (t.inside e he hne)

def remove (t : Tree) (p : Place) (hfile : ¬t.isDir p) : Tree where
  entries := t.entries.filter fun e => e.1 ≠ p
  top := by
    have hne : [] ≠ p := by
      rintro rfl
      exact hfile t.top
    rw [dirAt, nodeAt_filter_ne hne]
    exact t.top
  inside := by
    intro e he hne
    have hdir := t.inside e (List.mem_filter.mp he).1 hne
    have hp : e.1.dropLast ≠ p := by
      rintro rfl
      exact hfile hdir
    rw [dirAt, nodeAt_filter_ne hp]
    exact hdir

theorem isDir_eq (t : Tree) (p : Place) : t.isDir p = (t.node p).any Node.isDir := rfl

theorem isDir_iff {t : Tree} : t.isDir p ↔ ∃ n, t.node p = some n ∧ n.isDir := by
  simp [isDir_eq, Option.any_eq_true]

theorem isSome_of_isDir {t : Tree} (h : t.isDir p) : (t.node p).isSome := by
  obtain ⟨n, hn, -⟩ := isDir_iff.mp h
  simp [hn]

theorem node_put : (put t p c n hdir hn).node q = if q = p ++ [c] then some n else t.node q :=
  nodeAt_cons

theorem isDir_put (hdir : t.isDir p) (h : n.isDir) :
    (put t p c n hdir fun _ => h).isDir (p ++ [c]) := by
  rw [isDir_eq, node_put, if_pos rfl]
  exact h

theorem isDir_put_of_isDir (hdir : t.isDir p) (hn : t.isDir (p ++ [c]) → n.isDir)
    (h : t.isDir q) : (put t p c n hdir hn).isDir q := by
  rw [isDir_eq, node_put]
  split
  · rename_i hq
    exact hn (hq ▸ h)
  · exact h

end Tree

-- ---------------------------------------------------------------------------
-- The system's calls
-- ---------------------------------------------------------------------------

inductive Errno
  | notFound | notADirectory | isADirectory | alreadyExists | invalidInput
  deriving DecidableEq, Repr

def Errno.display : Errno → String
  | .notFound => "No such file or directory (os error 2)"
  | .alreadyExists => "File exists (os error 17)"
  | .notADirectory => "Not a directory (os error 20)"
  | .isADirectory => "Is a directory (os error 21)"
  | .invalidInput => "file name contained an unexpected NUL byte"

inductive Access
  | read | stat | create | modify | remove
  deriving DecidableEq, Repr

/-- An object that was reached, and for what. -/
structure Touch where
  access : Access
  place : Place
  deriving DecidableEq, Repr

/-- A process: its working directory, the time, and the size its file system
gives to a new directory. -/
structure Os where
  cwd : Place
  now : Option Nat
  dirSize : Nat

structure Session where
  tree : Tree
  touched : List Touch

def Session.touch (s : Session) (access : Access) (p : Place) : Session :=
  { s with touched := s.touched ++ [⟨access, p⟩] }

abbrev Result (α : Type) := Except Errno α × Session

def Os.steps (os : Os) (p : Path) : List Name :=
  if p.absolute then p.parts else os.cwd ++ p.parts

def walk (t : Tree) (p : Place) : List Name → Except Errno Place
  | [] => .ok p
  | c :: cs =>
    if t.isDir p then
      if (t.node (move p c)).isSome then walk t (move p c) cs else .error .notFound
    else .error .notADirectory

variable (os : Os)

def resolve (t : Tree) (p : Path) : Except Errno Place :=
  if p.hasNul then .error .invalidInput
  else if !p.absolute && p.isBlank then .error .notFound
  else walk t [] (os.steps p)

/-- The place a path's last part is looked up in, and its name there; the dots
and the top have none. -/
def locate (t : Tree) (p : Path) : Except Errno (Place × Option Name) :=
  if p.hasNul then .error .invalidInput
  else match p.named.reverse with
    | [] => if p.absolute then .ok ([], none) else .error .notFound
    | c :: up =>
      match walk t [] (os.steps ⟨p.absolute, up.reverse⟩) with
      | .error e => .error e
      | .ok d => .ok (d, if c = dot ∨ c = dotdot then none else some c)

def metadata (p : Path) (s : Session) : Result Node :=
  match resolve os s.tree p with
  | .error e => (.error e, s)
  | .ok q => match s.tree.node q with
    | none => (.error .notFound, s)
    | some n => (.ok n, s.touch .stat q)

def exists_ (p : Path) (s : Session) : Bool × Session :=
  match metadata os p s with
  | (.ok _, s) => (true, s)
  | (.error _, s) => (false, s)

def isDir (p : Path) (s : Session) : Bool × Session :=
  match metadata os p s with
  | (.ok n, s) => (n.isDir, s)
  | (.error _, s) => (false, s)

/-- A directory can be opened, but what it holds cannot be read. -/
def read (p : Path) (s : Session) : Result (List UInt8) :=
  match resolve os s.tree p with
  | .error e => (.error e, s)
  | .ok q => match s.tree.node q with
    | none => (.error .notFound, s)
    | some (.dir ..) => (.error .isADirectory, s.touch .read q)
    | some (.file content _) => (.ok content, s.touch .read q)

def removeFile (p : Path) (s : Session) : Result Unit :=
  match resolve os s.tree p with
  | .error e => (.error e, s)
  | .ok q =>
    if hdir : s.tree.isDir q then (.error .isADirectory, s)
    else match s.tree.node q with
      | none => (.error .notFound, s)
      | some _ => (.ok (), { s with tree := s.tree.remove q hdir }.touch .remove q)

def readDir (p : Path) (s : Session) : Result (Place × List Name) :=
  match resolve os s.tree p with
  | .error e => (.error e, s)
  | .ok q =>
    if s.tree.isDir q then (.ok (q, s.tree.names q), s.touch .read q)
    else (.error .notADirectory, s)

/-- The metadata of a directory's entry. -/
def entryMetadata (d : Place) (c : Name) (s : Session) : Result Node :=
  match s.tree.node (d ++ [c]) with
  | none => (.error .notFound, s)
  | some n => (.ok n, s.touch .stat (d ++ [c]))

def mkdir (p : Path) (s : Session) : Result Unit :=
  match locate os s.tree p with
  | .error e => (.error e, s)
  | .ok (d, name) =>
    if hdir : s.tree.isDir d then
      match name with
      | none => (.error .alreadyExists, s)
      | some c =>
        if (s.tree.node (d ++ [c])).isSome then (.error .alreadyExists, s)
        else
          let tree := s.tree.put d c (.dir os.dirSize os.now) hdir fun _ => rfl
          (.ok (), { s with tree }.touch .create (d ++ [c]))
    else (.error .notADirectory, s)

/-- A file is created where there is none, else emptied and written anew. -/
def write (p : Path) (data : List UInt8) (s : Session) : Result Unit :=
  match locate os s.tree p with
  | .error e => (.error e, s)
  | .ok (d, name) =>
    if hdir : s.tree.isDir d then
      match name with
      | none => (.error .isADirectory, s)
      | some c =>
        if p.endsWithSlash then (.error .isADirectory, s)
        else if hc : s.tree.isDir (d ++ [c]) then (.error .isADirectory, s)
        else
          let tree := s.tree.put d c (.file data os.now) hdir fun h => absurd h hc
          let access := if (s.tree.node (d ++ [c])).isSome then Access.modify else .create
          (.ok (), { s with tree }.touch access (d ++ [c]))
    else (.error .notADirectory, s)

/-- An error stands unless the directory is there. -/
def unlessDir (e : Errno) (p : Path) (s : Session) : Result Unit :=
  match isDir os p s with
  | (true, s) => (.ok (), s)
  | (false, s) => (.error e, s)

/-- `create_dir_all` on the components of a path, the last one first: where a
directory is missing above, the ones above are created first. -/
def createDirAll (absolute : Bool) : List Name → Session → Result Unit
  | [], s => if absolute then unlessDir os .alreadyExists ⟨true, []⟩ s else (.ok (), s)
  | c :: up, s =>
    let path : Path := ⟨absolute, (c :: up).reverse⟩
    match mkdir os path s with
    | (.ok (), s) => (.ok (), s)
    | (.error .notFound, s) => match createDirAll absolute up s with
      | (.error e, s) => (.error e, s)
      | (.ok (), s) => match mkdir os path s with
        | (.ok (), s) => (.ok (), s)
        | (.error e, s) => unlessDir os e path s
    | (.error e, s) => unlessDir os e path s

end Rinfra.Lib.FileTree

import Mathlib.Logic.Function.Basic

/-!
# The admin token store

`AdminTokenStore` keeps its records in a vector and writes them to one file
after each change. A call is modelled by its steps: it changes the vector under
the write lock, and then `persist` takes a snapshot under the read lock, makes
the directory, writes the temporary file and renames it.

The JSON encoding and the password hash come from outside; so do ids, times
and the outcomes of the file operations.
-/

namespace Rinfra.Admin

inductive AdminRole
  | root | admin
  deriving DecidableEq, Repr

structure AdminTokenRecord where
  id : String
  role : AdminRole
  tokenHash : String
  label : String
  createdAt : Nat
  lastUsedAt : Option Nat
  expiresAt : Option Nat
  deriving DecidableEq, Repr

structure AdminTokenInfo where
  id : String
  role : AdminRole
  label : String
  createdAt : Nat
  lastUsedAt : Option Nat
  expiresAt : Option Nat
  deriving DecidableEq, Repr

def AdminTokenRecord.info (r : AdminTokenRecord) : AdminTokenInfo :=
  ⟨r.id, r.role, r.label, r.createdAt, r.lastUsedAt, r.expiresAt⟩

/-- The path of a file, taken apart as `file_stem` and `extension` do. -/
structure PathBuf where
  parent : Option String
  stem : String
  extension : Option String
  deriving DecidableEq, Repr

def PathBuf.withExtension (path : PathBuf) (extension : String) : PathBuf :=
  { path with extension := some extension }

def PathBuf.display (path : PathBuf) : String :=
  let name := match path.extension with
    | some extension => path.stem ++ "." ++ extension
    | none => path.stem
  match path.parent with
  | some parent => parent ++ "/" ++ name
  | none => name

/-- `serde_json` at the records: what it writes it reads back. -/
structure Serde (Data : Type) where
  toStringPretty : List AdminTokenRecord → Except String Data
  fromStr : Data → Except String (List AdminTokenRecord)

structure Serde.Lawful (serde : Serde Data) : Prop where
  roundTrip : ∀ tokens, ∃ data, serde.toStringPretty tokens = .ok data ∧
    serde.fromStr data = .ok tokens

structure AdminTokenStore where
  path : PathBuf
  tokens : List AdminTokenRecord
  deriving DecidableEq, Repr

/-- `read` is what the file gives when it is there. -/
def AdminTokenStore.load (serde : Serde Data) (path : PathBuf)
    (read : Option (Except String Data)) : Except String AdminTokenStore :=
  match read with
  | some (.ok data) =>
    match serde.fromStr data with
    | .ok tokens => .ok ⟨path, tokens⟩
    | .error e => .error s!"failed to parse token file: {e}"
  | some (.error e) => .error s!"failed to read token file {path.display}: {e}"
  | none => .ok ⟨path, []⟩

def AdminTokenRecord.expired (r : AdminTokenRecord) (now : Nat) : Bool :=
  match r.expiresAt with
  | some exp => exp < now
  | none => false

/-- The first record that has not expired and whose hash fits is stamped. -/
def verify (verifyToken : String → String → Bool) (plaintext : String) (now : Nat) :
    List AdminTokenRecord → Option AdminTokenInfo × List AdminTokenRecord
  | [] => (none, [])
  | record :: records =>
    if !record.expired now && verifyToken plaintext record.tokenHash then
      let record := { record with lastUsedAt := some now }
      (some record.info, record :: records)
    else
      let (info, records) := verify verifyToken plaintext now records
      (info, record :: records)

inductive Reply
  | created (info : AdminTokenInfo)
  | deleted (removed : Bool)
  | rootDeleted
  deriving DecidableEq, Repr

/-- Where a call stands. The snapshot is kept beside the text made from it only
to speak of it; the code has dropped it. -/
inductive CallState (Data : Type)
  | idle
  | persisting (reply : Reply)
  | serialized (data : Data) (snapshot : List AdminTokenRecord) (reply : Reply)
  | dirReady (data : Data) (snapshot : List AdminTokenRecord) (reply : Reply)
  | written (reply : Reply)
  | done (result : Except String Reply)

structure World (Data : Type) where
  store : AdminTokenStore
  files : PathBuf → Option Data
  calls : Nat → CallState Data

/-- `failure` is the error of a file operation that fails; a failed write
leaves anything at all behind. -/
inductive Event (Data : Type)
  | create (c : Nat) (role : AdminRole) (label : String) (expiresAt : Option Nat)
      (hash : Except String String) (id : String) (now : Nat)
  | delete (c : Nat) (id : String)
  | deleteRoot (c : Nat)
  | verify (plaintext : String) (now : Nat)
  | snapshot (c : Nat)
  | makeDir (c : Nat) (failure : Option String)
  | write (c : Nat) (failure : Option (String × Option Data))
  | rename (c : Nat) (failure : Option String)

def World.goto (w : World Data) (c : Nat) (p : CallState Data) : World Data :=
  { w with calls := Function.update w.calls c p }

def World.setTokens (w : World Data) (tokens : List AdminTokenRecord) : World Data :=
  { w with store := { w.store with tokens } }

def World.tmp (w : World Data) : PathBuf := w.store.path.withExtension "tmp"

/-- A rename onto itself does nothing. -/
def renameFile (files : PathBuf → Option Data) (from_ to_ : PathBuf) : PathBuf → Option Data :=
  if from_ = to_ then files
  else Function.update (Function.update files from_ none) to_ (files from_)

def step (serde : Serde Data) (verifyToken : String → String → Bool) (w : World Data) :
    Event Data → Option (World Data)
  | .create c role label expiresAt hash id now => do
    let .idle := w.calls c | none
    match hash with
    | .ok tokenHash =>
      let record := ⟨id, role, tokenHash, label, now, none, expiresAt⟩
      pure ((w.setTokens (w.store.tokens ++ [record])).goto c (.persisting (.created record.info)))
    | .error e => pure (w.goto c (.done (.error s!"hash failed: {e}")))
  | .delete c id => do
    let .idle := w.calls c | none
    let tokens := w.store.tokens.filter fun t => t.id ≠ id
    if tokens.length < w.store.tokens.length then
      pure ((w.setTokens tokens).goto c (.persisting (.deleted true)))
    else pure ((w.setTokens tokens).goto c (.done (.ok (.deleted false))))
  | .deleteRoot c => do
    let .idle := w.calls c | none
    let tokens := w.store.tokens.filter fun t => t.role ≠ .root
    pure ((w.setTokens tokens).goto c (.persisting .rootDeleted))
  | .verify plaintext now => some (w.setTokens (verify verifyToken plaintext now w.store.tokens).2)
  | .snapshot c => do
    let .persisting reply := w.calls c | none
    match serde.toStringPretty w.store.tokens with
    | .ok data => pure (w.goto c (.serialized data w.store.tokens reply))
    | .error e => pure (w.goto c (.done (.error s!"serialize failed: {e}")))
  | .makeDir c failure => do
    let .serialized data snapshot reply := w.calls c | none
    match failure with
    | none => pure (w.goto c (.dirReady data snapshot reply))
    | some e => pure (w.goto c (.done (.error s!"mkdir failed: {e}")))
  | .write c failure => do
    let .dirReady data _ reply := w.calls c | none
    match failure with
    | none =>
      pure ({ w with files := Function.update w.files w.tmp (some data) }.goto c (.written reply))
    | some (e, leftover) =>
      pure ({ w with files := Function.update w.files w.tmp leftover }.goto c
        (.done (.error s!"write tmp failed: {e}")))
  | .rename c failure => do
    let .written reply := w.calls c | none
    match failure with
    | none =>
      -- without a temporary file the rename cannot succeed
      if (w.files w.tmp).isSome then
        pure ({ w with files := renameFile w.files w.tmp w.store.path }.goto c (.done (.ok reply)))
      else none
    | some e => pure (w.goto c (.done (.error s!"rename failed: {e}")))

end Rinfra.Admin

import Rinfra.Core.Error
import Rinfra.Lib.FileTree

/-!
# The local file store

A path that a caller gives is joined to the root directory and handed to the
system as it is.
-/

namespace Rinfra.FileStore

open Lib Lib.FileTree

structure FileInfo where
  path : String
  size : Nat
  lastModified : Option Nat
  contentType : Option String
  isDir : Bool
  deriving DecidableEq, Repr

structure LocalFileStore where
  root : Path

abbrev Reply (α : Type) := Except AppError α × Session

/-- `full` is the path of an entry and ends in its name. -/
def makeRelative (root full : Path) : String :=
  ((full.stripPrefix root).getD full).text.map fun c => if c = '\\' then '/' else c

def fileInfo (path : String) (n : Node) : FileInfo :=
  ⟨path, n.size, n.modified, none, n.isDir⟩

namespace LocalFileStore

variable (store : LocalFileStore) (os : Os)

def resolve (path : String) : Path := store.root.join (.parse path)

/-- `tokio::fs::write`, its error with the path -/
def writeFile (path : String) (data : List UInt8) (s : Session) : Reply Unit :=
  match FileTree.write os (store.resolve path) data s with
  | (.ok (), s) => (.ok (), s)
  | (.error e, s) => (.error ⟨.fileWriteFailed, s!"failed to write '{path}': {e.display}"⟩, s)

def put (path : String) (data : List UInt8) (s : Session) : Reply Unit :=
  match (store.resolve path).parent with
  | none => store.writeFile os path data s
  | some parent => match createDirAll os parent.absolute parent.parts.reverse s with
    | (.ok (), s) => store.writeFile os path data s
    | (.error e, s) =>
      (.error ⟨.fileWriteFailed, s!"failed to create directory: {e.display}"⟩, s)

def get (path : String) (s : Session) : Reply (List UInt8) :=
  match FileTree.read os (store.resolve path) s with
  | (.ok content, s) => (.ok content, s)
  | (.error .notFound, s) => (.error ⟨.fileNotFound, s!"file not found: '{path}'"⟩, s)
  | (.error e, s) => (.error ⟨.fileReadFailed, s!"failed to read '{path}': {e.display}"⟩, s)

def delete (path : String) (s : Session) : Reply Bool :=
  match removeFile os (store.resolve path) s with
  | (.ok (), s) => (.ok true, s)
  | (.error .notFound, s) => (.ok false, s)
  | (.error e, s) => (.error ⟨.fileDeleteFailed, s!"failed to delete '{path}': {e.display}"⟩, s)

def exists_ (path : String) (s : Session) : Reply Bool :=
  match FileTree.exists_ os (store.resolve path) s with
  | (found, s) => (.ok found, s)

/-- The loop over the entries of the directory at `d`, which `dir` names. -/
def listEntries (dir : Path) (d : Place) : List Name → Session → Reply (List FileInfo)
  | [], s => (.ok [], s)
  | c :: cs, s => match entryMetadata d c s with
    | (.error e, s) => (.error ⟨.fileReadFailed, s!"failed to read metadata: {e.display}"⟩, s)
    | (.ok n, s) =>
      let relative := makeRelative store.root (dir.join ⟨false, [c]⟩)
      match listEntries dir d cs s with
      | (.ok infos, s) => (.ok (fileInfo relative n :: infos), s)
      | (.error e, s) => (.error e, s)

def list (pre : String) (s : Session) : Reply (List FileInfo) :=
  let dir := store.resolve pre
  match FileTree.exists_ os dir s with
  | (false, s) => (.ok [], s)
  | (true, s) => match readDir os dir s with
    | (.error e, s) => (.error ⟨.fileReadFailed, s!"failed to list '{pre}': {e.display}"⟩, s)
    | (.ok (d, names), s) => match store.listEntries dir d names s with
      | (.error e, s) => (.error e, s)
      | (.ok infos, s) => (.ok (infos.mergeSort fun a b => a.path ≤ b.path), s)

def metadata (path : String) (s : Session) : Reply FileInfo :=
  match FileTree.metadata os (store.resolve path) s with
  | (.ok n, s) => (.ok (fileInfo path n), s)
  | (.error .notFound, s) => (.error ⟨.fileNotFound, s!"file not found: '{path}'"⟩, s)
  | (.error e, s) =>
    (.error ⟨.fileReadFailed, s!"failed to read metadata for '{path}': {e.display}"⟩, s)

end LocalFileStore

inductive Request
  | put (path : String) (data : List UInt8)
  | get (path : String)
  | delete (path : String)
  | exists_ (path : String)
  | list (pre : String)
  | metadata (path : String)
  deriving DecidableEq, Repr

def Request.path : Request → String
  | .put path _ | .get path | .delete path | .exists_ path | .list path | .metadata path => path

inductive Answer
  | done
  | content (data : List UInt8)
  | found (b : Bool)
  | infos (infos : List FileInfo)
  | info (info : FileInfo)
  deriving DecidableEq, Repr

def Reply.map {α : Type} (r : Reply α) (f : α → Answer) : Reply Answer := (r.1.map f, r.2)

def LocalFileStore.handle (store : LocalFileStore) (os : Os) (s : Session) :
    Request → Reply Answer
  | .put path data => Reply.map (store.put os path data s) fun _ => .done
  | .get path => Reply.map (store.get os path s) .content
  | .delete path => Reply.map (store.delete os path s) .found
  | .exists_ path => Reply.map (store.exists_ os path s) .found
  | .list pre => Reply.map (store.list os pre s) .infos
  | .metadata path => Reply.map (store.metadata os path s) .info

end Rinfra.FileStore

import Rinfra.Core.Error
import Rinfra.Core.Str
import Rinfra.Core.Utf8
import Rinfra.Lib.Json.Text

/-!
# The audit logger that appends to a file

Each event is one line of JSON at the end of the file, and a query reads the whole
file. The file is tokio's: `write_all` may take bytes before they are in the
file, and `flush` tells what became of them.

How much of each write reaches the file is free, and so is whether the file can
be opened or read. `logged` and `acknowledged` are the events of the calls so far and
those of them that returned `Ok`.
-/

namespace Rinfra.Audit

open Lib.Json

inductive AuditOutcome
  | success | failure | denied
  deriving DecidableEq, Repr

structure AuditEvent where
  id : String
  timestampMs : Nat
  actor : String
  action : String
  resource : String
  resourceId : Option String
  outcome : AuditOutcome
  ip : Option String
  details : Value

structure AuditFilter where
  actor : Option String
  action : Option String
  resource : Option String
  fromTimestampMs : Option Nat
  toTimestampMs : Option Nat
  limit : Nat

def AuditFilter.new : AuditFilter := ⟨none, none, none, none, none, 100⟩

def AuditFilter.matches (filter : AuditFilter) (event : AuditEvent) : Bool :=
  filter.actor.all (event.actor = ·) &&
    filter.action.all (event.action = ·) &&
    filter.resource.all (event.resource = ·) &&
    filter.fromTimestampMs.all (· ≤ event.timestampMs) &&
    filter.toTimestampMs.all (event.timestampMs ≤ ·)

def AuditOutcome.name : AuditOutcome → String
  | .success => "Success"
  | .failure => "Failure"
  | .denied => "Denied"

/-- An event as it is serialized: the fields in their order, without those that are
`None`. -/
def AuditEvent.json (event : AuditEvent) : Value :=
  .object <|
    [("id", .string event.id), ("timestamp_ms", .number (.posInt event.timestampMs)),
      ("actor", .string event.actor), ("action", .string event.action),
      ("resource", .string event.resource)] ++
    (event.resourceId.map fun id => ("resource_id", Value.string id)).toList ++
    [("outcome", .string event.outcome.name)] ++
    (event.ip.map fun ip => ("ip", Value.string ip)).toList ++
    [("details", event.details)]

/-- The JSON library: the lines it reads as an event, and how it writes numbers. An
event can always be written. -/
structure EventJson where
  fromStr : List Char → Option AuditEvent
  floats : FloatText

inductive Opening
  | ok
  | noDirectory (error : String)
  | failed (error : String)
  deriving DecidableEq

/-- `write_all`: how many of the bytes at hand are in the file when it returns. -/
inductive WriteAll
  | ok (reached : Nat)
  | error (reached : Nat) (error : String)

/-- `flush`: all of the bytes still at hand are in the file, or so many of them. -/
inductive Flush
  | ok
  | error (reached : Nat)

structure File where
  content : List UInt8
  /-- Taken, but not yet in the file. -/
  buffer : List UInt8

def File.writeAll (file : File) (bytes : List UInt8) : WriteAll → File × Except String Unit
  | .ok n =>
    let buffer := file.buffer ++ bytes
    (⟨file.content ++ buffer.take n, buffer.drop n⟩, .ok ())
  | .error n e => (⟨file.content ++ (file.buffer ++ bytes).take n, []⟩, .error e)

/-- The result is `.ok()`, that is, dropped. -/
def File.flush (file : File) : Flush → File
  | .ok => ⟨file.content ++ file.buffer, []⟩
  | .error n => ⟨file.content ++ file.buffer.take n, []⟩

structure Logger where
  opened : Bool
  file : File
  logged : List AuditEvent
  acknowledged : List AuditEvent

inductive Call
  | log (event : AuditEvent) (opening : Opening) (write : WriteAll) (flush : Flush)
  | query (filter : AuditFilter) (readable : Bool)

namespace Logger

/-- A logger on what earlier runs have left in the file. -/
def new (content : List UInt8) : Logger := ⟨false, ⟨content, []⟩, [], []⟩

def ensureWriter (s : Logger) (opening : Opening) : Except AppError Logger :=
  if s.opened then .ok s
  else match opening with
    | .ok => .ok { s with opened := true }
    | .noDirectory e => .error ⟨.auditLogFailed, s!"failed to create audit log directory: {e}"⟩
    | .failed e => .error ⟨.auditLogFailed, s!"failed to open audit log file: {e}"⟩

end Logger

section
variable (json : EventJson)

def record (event : AuditEvent) : List Char := text json.floats event.json

def recordLine (event : AuditEvent) : List UInt8 :=
  utf8Bytes (String.ofList (record json event ++ ['\n']))

def collect (filter : AuditFilter) : List (List Char) → List AuditEvent → List AuditEvent
  | [], results => results
  | line :: rest, results =>
    if trim line = [] then collect filter rest results
    else match json.fromStr line with
      | some event =>
        if filter.matches event then
          let results := results ++ [event]
          if filter.limit ≤ results.length then results else collect filter rest results
        else collect filter rest results
      | none => collect filter rest results

namespace Logger

def log (s : Logger) (event : AuditEvent) (opening : Opening) (write : WriteAll) (flush : Flush) :
    Logger × Except AppError Unit :=
  match s.ensureWriter opening with
  | .error e => (s, .error e)
  | .ok s =>
    match s.file.writeAll (recordLine json event) write with
    | (file, .error e) =>
      ({ s with file }, .error ⟨.auditLogFailed, s!"failed to write audit event: {e}"⟩)
    | (file, .ok ()) => ({ s with file := file.flush flush }, .ok ())

/-- A file that cannot be read, or is not UTF-8, reads as empty. -/
def query (s : Logger) (filter : AuditFilter) (readable : Bool) : List AuditEvent :=
  let content := if readable then (fromUtf8 s.file.content).getD "" else ""
  collect json filter (lines content.toList) []

def step (s : Logger) : Call → Option Logger
  | .log event opening write flush =>
    match s.log json event opening write flush with
    | (s', .ok ()) => some { s' with
        logged := s.logged ++ [event], acknowledged := s.acknowledged ++ [event] }
    | (s', .error _) => some { s' with logged := s.logged ++ [event] }
  | .query _ _ => some s

end Logger

end

-- ---------------------------------------------------------------------------
-- What a call does
-- ---------------------------------------------------------------------------

section
variable {json : EventJson} {s : Logger}

def Logger.put (s : Logger) (event : AuditEvent) (bytes : List UInt8) : Logger :=
  ⟨true, ⟨s.file.content ++ bytes, []⟩, s.logged ++ [event], s.acknowledged⟩

inductive Logger.Moves (json : EventJson) (s : Logger) : Call → Logger → Prop
  | unopened (hclosed : s.opened = false) (hopening : opening ≠ .ok) :
      Moves json s (.log event opening write flush) { s with logged := s.logged ++ [event] }
  | failed (hopen : s.opened = true ∨ opening = .ok) :
      Moves json s (.log event opening (.error n e) flush)
        (s.put event ((recordLine json event).take n))
  | flushed (hopen : s.opened = true ∨ opening = .ok) :
      Moves json s (.log event opening (.ok n) .ok)
        { s.put event (recordLine json event) with acknowledged := s.acknowledged ++ [event] }
  | unflushed (hopen : s.opened = true ∨ opening = .ok) :
      Moves json s (.log event opening (.ok n) (.error m))
        { s.put event ((recordLine json event).take (n + m)) with
          acknowledged := s.acknowledged ++ [event] }
  | query : Moves json s (.query filter readable) s

theorem ensureWriter_ok (h : s.opened = true ∨ opening = .ok) :
    s.ensureWriter opening = .ok { s with opened := true } := by
  unfold Logger.ensureWriter
  split
  · rename_i hopen
    rw [← hopen]
  · rename_i hopen
    rw [h.resolve_left hopen]

theorem Logger.moves {s' : Logger} (hbuffer : s.file.buffer = []) (h : s.step json call = some s') :
    Moves json s call s' := by
  cases call with
  | query => cases h; exact .query
  | log event opening write flush =>
    by_cases hopen : s.opened = true ∨ opening = .ok
    · simp only [step, log, ensureWriter_ok hopen] at h
      cases write with
      | error n e =>
        simp only [File.writeAll, hbuffer, List.nil_append] at h
        cases h
        exact .failed hopen
      | ok n => cases flush with
        | ok =>
          simp only [File.writeAll, File.flush, hbuffer, List.nil_append, List.append_assoc,
            List.take_append_drop] at h
          cases h
          exact .flushed hopen
        | error m =>
          simp only [File.writeAll, File.flush, hbuffer, List.nil_append, List.append_assoc,
            ← List.take_add] at h
          cases h
          exact .unflushed hopen
    · simp only [not_or, Bool.not_eq_true] at hopen
      simp only [step, log, ensureWriter, hopen.1] at h
      cases opening with
      | ok => exact absurd rfl hopen.2
      | noDirectory e => cases h; exact .unopened hopen.1 hopen.2
      | failed e => cases h; exact .unopened hopen.1 hopen.2

end

end Rinfra.Audit

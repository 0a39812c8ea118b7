import Rinfra.Core.Error
import Rinfra.Core.Utf8
import Rinfra.Lib.Json
import Rinfra.Lib.Lines

/-!
# Script engines over one worker process

`PythonEngine` and `JsEngine` keep one worker behind a lock. A call writes its
request line, flushes it and reads one response line; nothing in a line says
which call it belongs to. An event is what a call does between two awaits, what
the pipes let through, or what the worker process does; the worker writes a
response line at a time. A dropped call leaves its bytes where they are.

The JSON parser and the Base64 decoder are parameters. A request is made of
strings only, so that its serialization does not fail.
-/

namespace Rinfra.Script

open Rinfra.Lib Rinfra.Lib.Json

abbrev Bytes := List UInt8

def newline : UInt8 := 10

structure ScriptOutput where
  stdout : String
  result : Bytes
  exitCode : Int
  deriving DecidableEq, Repr

/-- What the response is parsed with. -/
structure Parsers where
  fromStr : String → Except String Value
  base64Decode : String → Except String Bytes

-- ---------------------------------------------------------------------------
-- The line protocol
-- ---------------------------------------------------------------------------

def base64Symbol (n : Nat) : UInt8 :=
  if n < 26 then UInt8.ofNat (65 + n)
  else if n < 52 then UInt8.ofNat (71 + n)
  else if n < 62 then UInt8.ofNat (n - 4)
  else if n = 62 then 43
  else 47

def base64Encode : Bytes → Bytes
  | [] => []
  | [a] => [base64Symbol (a.toNat / 4), base64Symbol (a.toNat % 4 * 16), 61, 61]
  | [a, b] =>
    [base64Symbol (a.toNat / 4), base64Symbol (a.toNat % 4 * 16 + b.toNat / 16),
      base64Symbol (b.toNat % 16 * 4), 61]
  | a :: b :: c :: rest =>
    base64Symbol (a.toNat / 4) :: base64Symbol (a.toNat % 4 * 16 + b.toNat / 16) ::
      base64Symbol (b.toNat % 16 * 4 + c.toNat / 64) :: base64Symbol (c.toNat % 64) ::
      base64Encode rest

example : base64Encode [72, 105, 33, 33] = utf8Bytes "SGkhIQ==" := by decide

structure Request where
  script : Bytes
  input : Bytes
  deriving DecidableEq

/-- The request without its newline, the keys in order. -/
def Request.line (r : Request) : Bytes :=
  utf8Bytes "\x7b\"i\":\"" ++ base64Encode r.input ++ utf8Bytes "\",\"s\":\"" ++
    base64Encode r.script ++ utf8Bytes "\"\x7d"

def asI64 : Value → Option Int
  | .number (.posInt n) => if n < 0x8000000000000000 then some n else none
  | .number (.negInt n) => some n
  | _ => none

def failed (message : String) : AppError := ⟨.scriptExecFailed, message⟩

def Parsers.parseWorkerResponse (p : Parsers) (line : String) : Except AppError ScriptOutput :=
  match p.fromStr line with
  | .error e => .error (failed s!"parse worker response: {e}")
  | .ok resp =>
    let resultB64 := ((resp.get? "r").bind Value.asStr).getD ""
    let stderrText := ((resp.get? "o").bind Value.asStr).getD ""
    -- `as i32`
    let exitCode := (((resp.get? "c").bind asI64).getD (-1)).bmod 0x100000000
    match p.base64Decode resultB64 with
    | .error e => .error (failed s!"decode result payload: {e}")
    | .ok result => .ok ⟨stderrText, result, exitCode⟩

def Parsers.response (p : Parsers) (line : Bytes) : Except AppError ScriptOutput :=
  match fromUtf8 line with
  | none => .error (failed "read from worker stdout: stream did not contain valid UTF-8")
  | some text => p.parseWorkerResponse text

-- ---------------------------------------------------------------------------
-- The engines
-- ---------------------------------------------------------------------------

structure PythonScriptConfig where
  enabled : Bool
  timeoutSecs : Nat
  venvPath : String

structure JsScriptConfig where
  enabled : Bool
  timeoutSecs : Nat

/-- What the two engines differ in. -/
structure Language where
  name : String
  command : String
  enabled : Bool
  timeoutSecs : Nat

def resolveCommand (config : PythonScriptConfig) : String :=
  if config.venvPath ≠ "" then s!"{config.venvPath}/bin/python" else "python3"

def pythonEngine (config : PythonScriptConfig) : Language where
  name := "Python"
  command := resolveCommand config
  enabled := config.enabled
  timeoutSecs := config.timeoutSecs

def jsEngine (config : JsScriptConfig) : Language where
  name := "JavaScript"
  command := "node"
  enabled := config.enabled
  timeoutSecs := config.timeoutSecs

inductive Process
  | running
  /-- It has been sent its kill signal and is still there. -/
  | killed
  | exited
  deriving DecidableEq

/-- The worker with its pipes: the bytes in `writer`, those on their way to the
process, and those it has written and nobody has read. `answered` is every line
the process has taken for a request, with its response. -/
structure ScriptWorker where
  buffered : Bytes
  stdin : Bytes
  stdout : Bytes
  answered : List (Bytes × Bytes)
  process : Process
  deriving DecidableEq

namespace ScriptWorker

def spawn : ScriptWorker where
  buffered := []
  stdin := []
  stdout := []
  answered := []
  process := .running

def isAlive (w : ScriptWorker) : Bool := w.process ≠ .exited

/-- The number that the next line written will have. -/
def nextLine (w : ScriptWorker) : Nat :=
  w.answered.length + (w.stdin ++ w.buffered).count newline

def kill (w : ScriptWorker) : ScriptWorker :=
  if w.process = .running then { w with process := .killed } else w

end ScriptWorker

inductive SpawnError
  | tempFile (e : String)
  | start (e : String)

def SpawnError.toAppError (command : String) : SpawnError → AppError
  | .tempFile e => ⟨.scriptLoadFailed, s!"failed to write temp file: {e}"⟩
  | .start e => failed s!"failed to start '{command}': {e} — is it installed and in PATH?"

inductive Stage
  | spawning
  | writing (rest : Bytes)
  | flushing
  /-- `read_line` with what it has read so far. -/
  | reading (line : Bytes)
  | killing
  deriving DecidableEq

/-- The call that holds the lock. `nth` is the number of its line. -/
structure Call where
  request : Request
  nth : Nat
  stage : Stage
  deriving DecidableEq

/-- A call that has returned, and what its worker had answered by then. -/
structure Execution where
  request : Request
  nth : Nat
  answered : List (Bytes × Bytes)
  result : Except AppError ScriptOutput
  deriving DecidableEq

structure Engine where
  worker : Option ScriptWorker
  /-- Those that wait for the lock, in order. -/
  waiting : List Request
  call : Option Call
  returned : List Execution

inductive Event
  | execute (request : Request)
  /-- The `i`-th that waits for the lock is dropped. -/
  | leave (i : Nat)
  | lock
  | spawned
  | spawnError (e : SpawnError)
  /-- `writer` takes the next bytes. -/
  | write (n : Nat)
  /-- The pipe takes bytes from `writer`. -/
  | pipe (n : Nat)
  | writeError (e : String)
  | flushed
  | flushError (e : String)
  | read (n : Nat)
  | readError (e : String)
  | eof
  | timeout
  | killed
  /-- The call that holds the lock is dropped. -/
  | drop
  | answer (response : Bytes)
  | exit

namespace Engine

def init : Engine := { worker := none, waiting := [], call := none, returned := [] }

/-- A call returns before it waits for the lock. -/
def refuse (s : Engine) (request : Request) (e : AppError) : Engine :=
  { s with returned := s.returned ++ [⟨request, 0, [], .error e⟩] }

def send (s : Engine) (request : Request) (w : ScriptWorker) : Engine :=
  { s with
    worker := some w
    call := some ⟨request, w.nextLine, .writing (request.line ++ [newline])⟩ }

/-- The call gives the lock back and returns. The worker stays after an `Ok`. -/
def finish (s : Engine) (c : Call) (w : ScriptWorker) (result : Except AppError ScriptOutput) :
    Engine :=
  { s with
    worker := match result with
      | .ok _ => some w
      | .error _ => none
    call := none
    returned := s.returned ++ [⟨c.request, c.nth, w.answered, result⟩] }

def setStage (s : Engine) (c : Call) (stage : Stage) (w : ScriptWorker) : Engine :=
  { s with call := some { c with stage }, worker := some w }

def advance (p : Parsers) (lang : Language) (s : Engine) (c : Call) (w : ScriptWorker) :
    Event → Option Engine
  | .write n =>
    match c.stage with
    | .writing rest =>
      let w := { w with buffered := w.buffered ++ rest.take n }
      some (s.setStage c (if rest.drop n = [] then .flushing else .writing (rest.drop n)) w)
    | _ => none
  | .pipe n =>
    match c.stage with
    | .writing _ | .flushing =>
      some (s.setStage c c.stage
        { w with stdin := w.stdin ++ w.buffered.take n, buffered := w.buffered.drop n })
    | _ => none
  | .writeError e =>
    match c.stage with
    | .writing _ => some (s.finish c w (.error (failed s!"write to worker stdin: {e}")))
    | _ => none
  | .flushed =>
    if c.stage = .flushing ∧ w.buffered = [] then some (s.setStage c (.reading []) w) else none
  | .flushError e =>
    if c.stage = .flushing then
      some (s.finish c w (.error (failed s!"flush worker stdin: {e}")))
    else none
  | .read n =>
    match c.stage with
    | .reading line =>
      match takeLine newline (w.stdout.take n) with
      | none =>
        some (s.setStage c (.reading (line ++ w.stdout.take n))
          { w with stdout := w.stdout.drop n })
      | some (rest, _) =>
        some (s.finish c { w with stdout := w.stdout.drop (rest.length + 1) }
          (p.response (line ++ rest ++ [newline])))
    | _ => none
  | .readError e =>
    match c.stage with
    | .reading _ => some (s.finish c w (.error (failed s!"read from worker stdout: {e}")))
    | _ => none
  | .eof =>
    match c.stage with
    | .reading line =>
      if w.process = .exited ∧ w.stdout = [] then
        some (s.finish c w
          (if line = [] then .error (failed "worker process terminated unexpectedly")
          else p.response line))
      else none
    | _ => none
  | .timeout =>
    match c.stage with
    | .reading _ => some (s.setStage c .killing w.kill)
    | _ => none
  | .killed =>
    if c.stage = .killing ∧ w.process = .exited then
      some (s.finish c w (.error (failed s!"script timed out after {lang.timeoutSecs}s")))
    else none
  | _ => none

def step (p : Parsers) (lang : Language) (s : Engine) : Event → Option Engine
  | .execute request =>
    if !lang.enabled then
      some (s.refuse request (failed s!"{lang.name} script engine is disabled"))
    else if request.script = [] then
      some (s.refuse request ⟨.scriptLoadFailed, s!"empty {lang.name} script"⟩)
    else some { s with waiting := s.waiting ++ [request] }
  | .leave i => some { s with waiting := s.waiting.eraseIdx i }
  | .lock =>
    match s.call, s.waiting with
    | none, request :: waiting =>
      let s := { s with waiting }
      let spawning := { s with call := some ⟨request, 0, .spawning⟩ }
      match s.worker with
      | none => some spawning
      | some w => some (if w.isAlive then s.send request w else spawning)
    | _, _ => none
  | .spawned =>
    match s.call with
    | some ⟨request, _, .spawning⟩ => some (s.send request .spawn)
    | _ => none
  | .spawnError e =>
    match s.call with
    | some ⟨request, _, .spawning⟩ =>
      some ({ s with call := none }.refuse request (e.toAppError lang.command))
    | _ => none
  | .drop => if s.call.isSome then some { s with call := none } else none
  | .answer response =>
    match s.worker with
    | some w =>
      match takeLine newline w.stdin with
      | some (line, rest) =>
        if w.process = .running ∧ newline ∉ response then
          some { s with worker := some { w with
            stdin := rest
            stdout := w.stdout ++ response ++ [newline]
            answered := w.answered ++ [(line, response)] } }
        else none
      | none => none
    | none => none
  | .exit => s.worker.map fun w => { s with worker := some { w with process := .exited } }
  | e =>
    match s.call, s.worker with
    | some c, some w => s.advance p lang c w e
    | _, _ => none

end Engine

end Rinfra.Script

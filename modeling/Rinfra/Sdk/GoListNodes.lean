import Mathlib.Logic.Function.Basic
import Rinfra.Lib.Transition

/-!
# The replies to `ListNodes` in Go

The `readLoop` of each connection passes what it reads through one channel with
room for one value, which outlives connections and calls. A value that is there
already is taken out first. Whoever waits receives what comes out, and a reply
carries nothing to tell whose it is.

A step of a `readLoop` is one operation on the channel, and a call of `ListNodes`
looks for the connection in one step and writes to it in another. Which
connection is current is left to chance, and so is what the server sends.
-/

namespace Rinfra.Sdk.GoNodes

open Rinfra.Lib

/-- A frame by what `readLoop` can read it as. -/
inductive Frame
  /-- A string, or `null`, which reads as the empty one. -/
  | text (text : String)
  | nodeList (nodes : List String)
  /-- Any other object that reads as a `nodeListMessage`, mostly without nodes. -/
  | object (nodes : List String)
  | unreadable
  deriving DecidableEq, Repr

/-- The nodes of the `nodeListMessage`; their number is never below zero. -/
def Frame.nodes? : Frame → Option (List String)
  | .nodeList nodes | .object nodes => some nodes
  | .text _ | .unreadable => none

def Frame.isNodeList : Frame → Bool
  | .nodeList _ => true
  | _ => false

/-- A frame as the server sent it, after it had received so many requests on the
connection. -/
structure Message where
  conn : Nat
  frame : Frame
  after : Nat
  deriving DecidableEq, Repr

/-- A `readLoop` at the head of its loop, or on its way through the `select`:
`taking` and `putting` are the two lines of its `default`. -/
inductive Reader
  | reading
  | offering (m : Message)
  | taking (m : Message)
  | putting (m : Message)
  deriving DecidableEq, Repr

def Reader.holds : Reader → Option Message
  | .reading => none
  | .offering m | .taking m | .putting m => some m

/-- A call that waits, with the place of its request among those written to the
connection. -/
structure Call where
  number : Nat
  conn : Nat
  request : Nat
  deriving DecidableEq, Repr

structure Result where
  call : Call
  nodes : List String
  message : Message
  deriving DecidableEq, Repr

structure Client where
  /-- The connection of a `CONNECTED` client. -/
  conn : Option Nat
  opened : Nat
  lost : List Nat
  readers : Nat → Reader
  /-- What the server has sent, and what of it is not read yet. -/
  sent : List Message
  wire : Nat → List Message
  /-- Requests written to each connection, and those the server has received. -/
  written : Nat → Nat
  received : Nat → Nat
  nodeListCh : Option Message
  called : Nat
  /-- Calls that have found the connection and are about to write. -/
  calling : List (Nat × Nat)
  waiting : List Call
  results : List Result

def Client.new : Client where
  conn := none
  opened := 0
  lost := []
  readers := fun _ => .reading
  sent := []
  wire := fun _ => []
  written := fun _ => 0
  received := fun _ => 0
  nodeListCh := none
  called := 0
  calling := []
  waiting := []
  results := []

namespace Client

def connect (s : Client) : Client := { s with conn := some s.opened, opened := s.opened + 1 }

/-- The connection is closed, or its other end is. -/
def lose (c : Nat) (s : Client) : Client :=
  { s with lost := c :: s.lost, conn := if s.conn = some c then none else s.conn }

-- ---------------------------------------------------------------------------
-- `ListNodes`
-- ---------------------------------------------------------------------------

def listNodes (s : Client) : Client :=
  match s.conn with
  | none => s
  | some c => { s with called := s.called + 1, calling := (s.called, c) :: s.calling }

def write (call : Nat × Nat) (ok : Bool) (s : Client) : Client :=
  let rest := s.calling.filter (· ≠ call)
  if ok then
    { s with
      calling := rest
      waiting := ⟨call.1, call.2, s.written call.2⟩ :: s.waiting
      written := Function.update s.written call.2 (s.written call.2 + 1) }
  else { s with calling := rest }

def cancel (call : Call) (s : Client) : Client :=
  { s with waiting := s.waiting.filter (· ≠ call) }

def receive (call : Call) (s : Client) : Client :=
  match s.nodeListCh with
  | none => s
  | some m =>
    { s with
      nodeListCh := none
      waiting := s.waiting.filter (· ≠ call)
      results := ⟨call, m.frame.nodes?.getD [], m⟩ :: s.results }

-- ---------------------------------------------------------------------------
-- The server
-- ---------------------------------------------------------------------------

def serve (c : Nat) (s : Client) : Client :=
  { s with received := Function.update s.received c (s.received c + 1) }

def send (c : Nat) (frame : Frame) (s : Client) : Client :=
  let m : Message := ⟨c, frame, s.received c⟩
  { s with sent := m :: s.sent, wire := Function.update s.wire c (s.wire c ++ [m]) }

-- ---------------------------------------------------------------------------
-- `readLoop`
-- ---------------------------------------------------------------------------

def setReader (c : Nat) (r : Reader) (s : Client) : Client :=
  { s with readers := Function.update s.readers c r }

/-- Strings are answered or counted, and what cannot be read is passed over. -/
def read (c : Nat) (s : Client) : Client :=
  match s.wire c with
  | [] => s
  | m :: rest =>
    setReader c (if m.frame.nodes?.isSome then .offering m else .reading)
      { s with wire := Function.update s.wire c rest }

/-- What the `readLoop` does next with the channel, if it can. -/
def pass (c : Nat) (s : Client) : Client :=
  match s.readers c, s.nodeListCh with
  | .offering m, none | .putting m, none => setReader c .reading { s with nodeListCh := some m }
  | .offering m, some _ => s.setReader c (.taking m)
  | .taking m, some _ => setReader c (.putting m) { s with nodeListCh := none }
  | .reading, _ | .taking _, none | .putting _, some _ => s

end Client

inductive Event
  | connect
  | lose (conn : Nat)
  | listNodes
  | write (call : Nat × Nat) (ok : Bool)
  | cancel (call : Call)
  | receive (call : Call)
  | serve (conn : Nat)
  | send (conn : Nat) (frame : Frame)
  | read (conn : Nat)
  | pass (conn : Nat)
  deriving DecidableEq

open Client

def Enabled (s : Client) : Event → Prop
  | .connect | .listNodes | .pass _ => True
  | .lose c | .send c _ => c < s.opened
  | .write call ok => call ∈ s.calling ∧ (ok → call.2 ∉ s.lost)
  | .cancel call => call ∈ s.waiting
  | .receive call => call ∈ s.waiting ∧ s.nodeListCh.isSome
  | .serve c => s.received c < s.written c
  | .read c => c < s.opened ∧ s.readers c = .reading ∧ c ∉ s.lost

def after (s : Client) : Event → Client
  | .connect => s.connect
  | .lose c => s.lose c
  | .listNodes => s.listNodes
  | .write call ok => s.write call ok
  | .cancel call => s.cancel call
  | .receive call => s.receive call
  | .serve c => s.serve c
  | .send c frame => s.send c frame
  | .read c => s.read c
  | .pass c => s.pass c

instance (s : Client) : DecidablePred (Enabled s) := fun e =>
  match e with
  | .connect | .listNodes | .pass _ => .isTrue trivial
  | .lose c | .send c _ => inferInstanceAs (Decidable (c < s.opened))
  | .write call ok => inferInstanceAs (Decidable (call ∈ s.calling ∧ (ok → call.2 ∉ s.lost)))
  | .cancel call => inferInstanceAs (Decidable (call ∈ s.waiting))
  | .receive call => inferInstanceAs (Decidable (call ∈ s.waiting ∧ s.nodeListCh.isSome))
  | .serve c => inferInstanceAs (Decidable (s.received c < s.written c))
  | .read c => inferInstanceAs (Decidable (c < s.opened ∧ s.readers c = .reading ∧ c ∉ s.lost))

def step : Client → Event → Option Client := actions Enabled after

-- ---------------------------------------------------------------------------
-- Results
-- ---------------------------------------------------------------------------

/-- The nodes of a `NodeList` that the server sent on the connection of the call,
after it had received the request. -/
def Result.Fresh (r : Result) : Prop :=
  r.message.frame = .nodeList r.nodes ∧ r.message.conn = r.call.conn ∧
    r.call.request < r.message.after

instance : DecidablePred Result.Fresh := fun r =>
  inferInstanceAs (Decidable (r.message.frame = .nodeList r.nodes ∧
    r.message.conn = r.call.conn ∧ r.call.request < r.message.after))

/-- Every result is one of the messages the server sent, and a fresh one. -/
def AllFresh (s : Client) : Prop := ∀ r ∈ s.results, r.message ∈ s.sent ∧ r.Fresh

instance : DecidablePred AllFresh := fun s =>
  inferInstanceAs (Decidable (∀ r ∈ s.results, r.message ∈ s.sent ∧ r.Fresh))

/-- A reply the call may take. -/
def Message.Answers (m : Message) (call : Call) : Prop :=
  m.frame.isNodeList ∧ m.conn = call.conn ∧ call.request < m.after

instance (m : Message) (call : Call) : Decidable (m.Answers call) :=
  inferInstanceAs (Decidable (m.frame.isNodeList ∧ m.conn = call.conn ∧ call.request < m.after))

/-- A request is written while nothing is in the channel or on its way to it. While
calls wait, no object is read but a `NodeList` that was sent on the connection of
each of them after its request was received. -/
def Timely (s : Client) : Event → Prop
  | .write _ true => s.nodeListCh = none ∧ ∀ c < s.opened, (s.readers c).holds = none
  | .read c => ∀ m ∈ (s.wire c).head?, m.frame.nodes?.isSome →
      ∀ call ∈ s.waiting, m.Answers call
  | _ => True

instance (s : Client) (e : Event) : Decidable (Timely s e) :=
  match e with
  | .write _ true =>
    inferInstanceAs (Decidable
      (s.nodeListCh = none ∧ ∀ c < s.opened, (s.readers c).holds = none))
  | .read c =>
    inferInstanceAs (Decidable (∀ m ∈ (s.wire c).head?, m.frame.nodes?.isSome →
      ∀ call ∈ s.waiting, m.Answers call))
  | .write _ false | .connect | .lose _ | .listNodes | .cancel _ | .receive _ | .serve _
  | .send .. | .pass _ => .isTrue trivial

def Client.Ready (s : Client) (m : Message) : Prop :=
  m ∈ s.sent ∧ ∀ call ∈ s.waiting, m.Answers call

structure Pending (s : Client) : Prop where
  slot : ∀ m ∈ s.nodeListCh, s.Ready m
  held : ∀ c, ∀ m ∈ (s.readers c).holds, s.Ready m
  wire : ∀ c, ∀ m ∈ s.wire c, m ∈ s.sent
  results : AllFresh s
  unopened : ∀ c, s.opened ≤ c → s.readers c = .reading

section
variable {s s' : Client} {c : Nat} {m : Message} {call : Call} {r : Reader}

theorem Client.Ready.mono (h : s.Ready m) (hsent : ∀ m ∈ s.sent, m ∈ s'.sent)
    (hwaiting : ∀ call ∈ s'.waiting, call ∈ s.waiting) : s'.Ready m :=
  ⟨hsent m h.1, fun call hcall => h.2 call (hwaiting call hcall)⟩

/-- What is in the channel and on its way to it may be taken by whoever waits. -/
theorem Pending.of_ready (hslot : ∀ m ∈ s'.nodeListCh, s.Ready m)
    (hheld : ∀ c, ∀ m ∈ (s'.readers c).holds, s.Ready m)
    (hsent : ∀ m ∈ s.sent, m ∈ s'.sent) (hwaiting : ∀ call ∈ s'.waiting, call ∈ s.waiting)
    (hwire : ∀ c, ∀ m ∈ s'.wire c, m ∈ s'.sent) (hresults : AllFresh s')
    (hunopened : ∀ c, s'.opened ≤ c → s'.readers c = .reading) : Pending s' where
  slot := fun m hm => (hslot m hm).mono hsent hwaiting
  held := fun c m hm => (hheld c m hm).mono hsent hwaiting
  wire := hwire
  results := hresults
  unopened := hunopened

theorem Pending.not_waiting (h : Pending s) {calls : List Call}
    (hcalls : ∀ call ∈ calls, call ∈ s.waiting) : Pending { s with waiting := calls } :=
  .of_ready h.slot h.held (fun _ => id) hcalls h.wire h.results h.unopened

theorem Pending.lt_opened (h : Pending s) (hr : s.readers c ≠ .reading) : c < s.opened :=
  Nat.lt_of_not_le fun hle => hr (h.unopened c hle)

theorem held_update (h : ∀ c, ∀ m ∈ (s.readers c).holds, s.Ready m)
    (hr : ∀ m ∈ r.holds, s.Ready m) :
    ∀ d, ∀ m ∈ (Function.update s.readers c r d).holds, s.Ready m := by
  intro d m hm
  by_cases hd : d = c
  · rw [hd, Function.update_self] at hm
    exact hr m hm
  · rw [Function.update_of_ne hd] at hm
    exact h d m hm

theorem mem_update {w : Nat → List Message} {l : List Message} {d : Nat}
    (h : m ∈ Function.update w c l d) : m ∈ l ∨ m ∈ w d := by
  rw [Function.update_apply] at h
  split at h
  · exact .inl h
  · exact .inr h

theorem Pending.setReader {slot : Option Message} (h : Pending s) (hc : c < s.opened)
    (hslot : ∀ m ∈ slot, s.Ready m) (hr : ∀ m ∈ r.holds, s.Ready m) :
    Pending (setReader c r { s with nodeListCh := slot }) := by
  refine .of_ready hslot (held_update h.held hr) (fun _ => id) (fun _ => id) h.wire h.results ?_
  exact fun d hd => (Function.update_of_ne (Nat.ne_of_gt (Nat.lt_of_lt_of_le hc hd)) _ _).trans
    (h.unopened d hd)

theorem Pending.pass (h : Pending s) : Pending (s.pass c) := by
  have hheld := h.held c
  have hopened := h.lt_opened (c := c)
  unfold Client.pass
  split
  · rename_i m hr _
    rw [hr] at hheld hopened
    refine h.setReader (hopened nofun) (fun x hx => ?_) nofun
    cases hx
    exact hheld m rfl
  · rename_i m hr _
    rw [hr] at hheld hopened
    refine h.setReader (hopened nofun) (fun x hx => ?_) nofun
    cases hx
    exact hheld m rfl
  · rename_i m _ hr _
    rw [hr] at hheld hopened
    exact h.setReader (hopened nofun) h.slot hheld
  · rename_i m _ hr _
    rw [hr] at hheld hopened
    exact h.setReader (hopened nofun) nofun hheld
  · exact h
  · exact h
  · exact h

theorem Pending.read (h : Pending s) (hc : c < s.opened) (htimely : Timely s (.read c)) :
    Pending (s.read c) := by
  unfold Client.read
  split
  · exact h
  · rename_i m rest hwire
    have hsent : ∀ x ∈ m :: rest, x ∈ s.sent := fun x hx => h.wire c x (hwire ▸ hx)
    have h' : Pending { s with wire := Function.update s.wire c rest } := { h with
      wire := fun d x hx => by
        rcases mem_update hx with hrest | hold
        · exact hsent x (List.mem_cons_of_mem m hrest)
        · exact h.wire d x hold }
    refine h'.setReader hc h.slot fun x hx => ?_
    split at hx
    · rename_i hnodes
      cases hx
      exact ⟨hsent m List.mem_cons_self, htimely m (by rw [hwire]; rfl) hnodes⟩
    · cases hx

/-- The request finds nothing that another call has left. -/
theorem Pending.write {number : Nat × Nat} {ok : Bool} (h : Pending s)
    (htimely : Timely s (.write number ok)) : Pending (s.write number ok) := by
  cases ok with
  | true =>
    obtain ⟨hslot, hheld⟩ := htimely
    exact { h with
      slot := fun m hm => by
        rw [Client.write, if_pos rfl, hslot] at hm
        cases hm
      held := fun d m hm => by
        rcases Nat.lt_or_ge d s.opened with hd | hd
        · rw [Client.write, if_pos rfl, hheld d hd] at hm
          cases hm
        · rw [Client.write, if_pos rfl, h.unopened d hd] at hm
          cases hm }
  | false => exact { h with }

theorem Pending.receive (h : Pending s) (hcall : call ∈ s.waiting) : Pending (s.receive call) := by
  unfold Client.receive
  split
  · exact h
  · rename_i m hm
    obtain ⟨hsent, hanswers⟩ := h.slot m hm
    obtain ⟨hnodes, hconn, hafter⟩ := hanswers call hcall
    have hframe : m.frame = .nodeList (m.frame.nodes?.getD []) := by
      cases hf : m.frame with
      | nodeList nodes => rfl
      | text | object | unreadable =>
        rw [hf] at hnodes
        cases hnodes
    refine .of_ready nofun h.held (fun _ => id) (fun _ hx => (List.mem_filter.mp hx).1) h.wire
      (fun r hr => ?_) h.unopened
    rcases List.mem_cons.mp hr with rfl | hr
    · exact ⟨hsent, hframe, hconn, hafter⟩
    · exact h.results r hr

theorem Pending.send {frame : Frame} (h : Pending s) : Pending (s.send c frame) := by
  have hsent : ∀ m ∈ s.sent, m ∈ (s.send c frame).sent := fun _ => List.mem_cons_of_mem _
  refine .of_ready h.slot h.held hsent (fun _ => id) (fun d m hm => ?_)
    (fun r hr => ⟨hsent _ (h.results r hr).1, (h.results r hr).2⟩) h.unopened
  rcases mem_update hm with hwire | hold
  · rcases List.mem_append.mp hwire with hold | hnew
    · exact hsent m (h.wire c m hold)
    · exact List.mem_singleton.mp hnew ▸ List.mem_cons_self
  · exact hsent m (h.wire d m hold)

theorem Pending.after {e : Event} (h : Pending s) (hen : Enabled s e) (htimely : Timely s e) :
    Pending (after s e) := by
  cases e with
  | connect => exact { h with unopened := fun d hd => h.unopened d (Nat.le_of_succ_le hd) }
  | lose c => exact { h with }
  | listNodes =>
    rw [GoNodes.after, Client.listNodes]
    split
    · exact h
    · exact { h with }
  | write call ok => exact h.write htimely
  | cancel call => exact h.not_waiting fun _ hx => (List.mem_filter.mp hx).1
  | receive call => exact h.receive hen.1
  | serve c => exact { h with }
  | send c frame => exact h.send
  | read c => exact h.read hen.1 htimely
  | pass c => exact h.pass

theorem Pending.new : Pending Client.new where
  slot := nofun
  held := fun _ _ hm => nomatch hm
  wire := fun _ _ hm => nomatch hm
  results := fun _ hr => nomatch hr
  unopened := fun _ _ => rfl

end

theorem fresh_of_timely (es : List Event) (h : Guarded step Timely Client.new es) :
    Always step AllFresh Client.new es := by
  refine (h.invariant Pending.new fun s e s' hs he hstep => ?_).mono fun s hs => hs.results
  obtain ⟨hen, rfl⟩ := actions_eq_some.mp hstep
  exact hs.after hen he

/-- A call is answered, another is cancelled, and a third is answered on the next
connection. -/
def listed : List Event :=
  [.connect, .listNodes, .write (0, 0) true, .serve 0, .send 0 (.text "Ping"),
    .send 0 (.nodeList ["a"]), .read 0, .read 0, .pass 0, .receive ⟨0, 0, 0⟩, .listNodes,
    .write (1, 0) true, .cancel ⟨1, 0, 1⟩, .lose 0, .connect, .listNodes, .write (2, 1) true,
    .serve 1, .send 1 (.nodeList ["b"]), .read 1, .pass 1, .receive ⟨2, 1, 0⟩]

theorem fresh_of_timely_listed :
    (run step Client.new listed).isSome ∧ Always step AllFresh Client.new listed :=
  ⟨by decide +kernel, fresh_of_timely listed (by decide +kernel)⟩

/-- The reply to a cancelled call is left in the channel for the next call. And an
object of any kind is passed on. -/
theorem cancelled_reply_returned :
    let cancelled := [.connect, .listNodes, .write (0, 0) true, .cancel ⟨0, 0, 0⟩, .serve 0,
      .send 0 (.nodeList ["a"]), .read 0, .pass 0, .listNodes, .write (1, 0) true,
      .receive ⟨1, 0, 1⟩]
    let other := [.connect, .listNodes, .write (0, 0) true, .serve 0, .send 0 (.object []),
      .read 0, .pass 0, .receive ⟨0, 0, 0⟩]
    (run step Client.new cancelled).isSome ∧ ¬ Always step AllFresh Client.new cancelled ∧
      (run step Client.new other).isSome ∧ ¬ Always step AllFresh Client.new other := by
  decide +kernel

end Rinfra.Sdk.GoNodes

import Rinfra.Lib.Transition

/-!
# The Java registry client

`RegistryClient` has one event loop of Netty with one thread, a scheduler with
one thread, and the threads of its callers. A connect listener awaits the ack of
its registration on the event loop, so the loop runs nothing else until the
listener is through; the other threads go on.

A start after a stop has a new loop, but `stop` has shut the scheduler down for
good. An event is what a thread does up to its next wait. The delays and the
pings that a schedule sends are left out.
-/

namespace Rinfra.Sdk.Java

open Rinfra.Lib

inductive ConnectionState
  | disconnected | connecting | registering | connected | reconnecting | stopping
  deriving DecidableEq, Repr

/-- A channel and the event loop it is on. -/
structure Channel where
  number : Nat
  loop : Nat
  deriving DecidableEq, Repr

/-- What `channelRead0` tells apart; `other` is any text that is left to the inbox. -/
inductive Inbound
  | ping | pong
  | registerAck (success : Bool)
  | nodeList
  | other
  deriving DecidableEq, Repr

/-- How a listener of an accepted connection has ended; `registered` says whether
its `Register` was written. -/
structure Ended where
  channel : Channel
  registered : Bool
  state : ConnectionState
  scheduled : Bool
  deriving DecidableEq, Repr

structure Client where
  state : ConnectionState
  channel : Option Channel
  running : Bool
  authFailed : Bool
  inbox : List (Channel × Inbound)
  /-- Between the first and the last part of `stop`. -/
  halting : Bool
  schedulerDown : Bool
  /-- Reconnects that the scheduler has still to run. -/
  reconnects : Nat
  /-- Periodic schedules of a ping. -/
  pings : Nat
  loop : Nat
  /-- Channels opened so far. -/
  opened : Nat
  connecting : List Channel
  /-- `channelInactive` is still to come. -/
  active : List Channel
  /-- Connected, with the listener still to run. -/
  ready : List Channel
  /-- The listeners in `awaitMessage`, each of which blocks its loop. -/
  awaiting : List Channel
  /-- Calls of `listNodes` in `awaitMessage`. -/
  listing : Nat
  unread : List (Channel × Inbound)
  registered : List Channel
  answered : List Channel
  /-- Where the ack that led to `connected` was received. -/
  ackFrom : Option Channel
  ended : List Ended
  /-- The closing of a channel other than the stored one has changed the state
  or has scheduled a reconnect. -/
  strayed : Bool

def Client.init : Client where
  state := .disconnected
  channel := none
  running := false
  authFailed := false
  inbox := []
  halting := false
  schedulerDown := false
  reconnects := 0
  pings := 0
  loop := 0
  opened := 0
  connecting := []
  active := []
  ready := []
  awaiting := []
  listing := 0
  unread := []
  registered := []
  answered := []
  ackFrom := none
  ended := []
  strayed := false

def without (c : Channel) (l : List Channel) : List Channel := l.filter (· ≠ c)

namespace Client

/-- The `schedule` of a scheduler that is shut down throws. -/
def scheduleReconnect (s : Client) : Client :=
  if ¬ s.running ∨ s.authFailed then s
  else
    { s with
      state := .reconnecting
      reconnects := if s.schedulerDown then s.reconnects else s.reconnects + 1 }

def connectAndRegister (initial : Bool) (s : Client) : Client :=
  if ¬ s.running ∨ s.authFailed then s
  else
    { s with
      state := if initial then .connecting else .reconnecting
      connecting := ⟨s.opened, s.loop⟩ :: s.connecting
      opened := s.opened + 1 }

def start (s : Client) : Client :=
  if s.running then s
  else connectAndRegister true { s with running := true, authFailed := false, loop := s.loop + 1 }

/-- The listener of an accepted connection, up to its wait. -/
def register (c : Channel) (s : Client) : Client :=
  { s with
    ready := without c s.ready
    channel := some c
    state := .registering
    registered := if c ∈ s.active then c :: s.registered else s.registered
    awaiting := c :: s.awaiting }

def close (c : Channel) (before s : Client) : Client :=
  { s with
    awaiting := without c s.awaiting
    ended := ⟨c, c ∈ s.registered, s.state, before.reconnects < s.reconnects⟩ :: s.ended }

/-- `schedulePing` throws when the scheduler is shut down. -/
def accepted (c source : Channel) (s : Client) : Client :=
  let connected := { s with state := .connected, ackFrom := some source }
  close c s (if s.schedulerDown then connected.scheduleReconnect
    else { connected with pings := s.pings + 1 })

/-- The loop tells of the channel that is closed here when it is free again. -/
def rejected (c : Channel) (s : Client) : Client :=
  close c s { s with authFailed := true, running := false, channel := none }

def timedOut (c : Channel) (s : Client) : Client := close c s s.scheduleReconnect

/-- One turn of the loop in `awaitMessage`: what is not awaited is dropped. -/
def pollAck (c : Channel) (s : Client) : Client :=
  match s.inbox with
  | [] => s
  | (source, .registerAck success) :: rest =>
    if success then accepted c source { s with inbox := rest }
    else rejected c { s with inbox := rest }
  | _ :: rest => { s with inbox := rest }

def pollNodes (s : Client) : Client :=
  match s.inbox with
  | [] => s
  | (_, .nodeList) :: rest => { s with inbox := rest, listing := s.listing - 1 }
  | _ :: rest => { s with inbox := rest }

def receive (c : Channel) (msg : Inbound) (s : Client) : Client :=
  let taken := { s with unread := s.unread.erase (c, msg) }
  match msg with
  | .ping | .pong => taken
  | msg => { taken with inbox := s.inbox ++ [(c, msg)] }

def inactive (c : Channel) (s : Client) : Client :=
  let closed := { s with active := without c s.active }
  let after :=
    if s.running ∧ ¬ s.authFailed ∧ s.state ≠ .stopping then closed.scheduleReconnect else closed
  { after with
    strayed := s.strayed ||
      (s.channel ≠ some c && (after.state ≠ s.state || after.reconnects ≠ s.reconnects)) }

def Free (s : Client) (c : Channel) : Prop := ∀ d ∈ s.awaiting, d.loop ≠ c.loop

end Client

inductive Event
  | start
  | stop
  | stopped
  | reconnectTimer
  | connected (c : Channel)
  | connectFailed (c : Channel)
  | listener (c : Channel)
  | pollAck (c : Channel)
  | ackTimeout (c : Channel)
  | arrive (c : Channel) (msg : Inbound)
  | read (c : Channel) (msg : Inbound)
  | inactive (c : Channel)
  | listNodes
  | pollNodes
  | nodesTimeout
  deriving DecidableEq

open Client

def Enabled (s : Client) : Event → Prop
  | .start | .stop => ¬ s.halting
  | .stopped => s.halting
  | .reconnectTimer => 0 < s.reconnects
  | .connected c | .connectFailed c => c ∈ s.connecting ∧ s.Free c
  | .listener c => c ∈ s.ready ∧ s.Free c
  | .pollAck c | .ackTimeout c => c ∈ s.awaiting
  | .arrive c _ => c ∈ s.active
  | .read c msg => (s.unread.find? fun entry => entry.1 = c) = some (c, msg) ∧ s.Free c
  | .inactive c => c ∈ s.active ∧ s.Free c
  | .listNodes => s.state = .connected ∧ ∃ c ∈ s.active, s.channel = some c
  | .pollNodes | .nodesTimeout => 0 < s.listing

def after (s : Client) : Event → Client
  | .start => s.start
  | .stop => { s with running := false, state := .stopping, halting := true }
  | .stopped =>
    { s with
      halting := false
      channel := none
      schedulerDown := true
      reconnects := 0
      pings := 0
      state := .disconnected }
  | .reconnectTimer => connectAndRegister false { s with reconnects := s.reconnects - 1 }
  | .connected c =>
    { s with
      connecting := without c s.connecting
      active := c :: s.active
      ready := c :: s.ready }
  | .connectFailed c => scheduleReconnect { s with connecting := without c s.connecting }
  | .listener c => s.register c
  | .pollAck c => s.pollAck c
  | .ackTimeout c => s.timedOut c
  | .arrive c msg =>
    { s with
      unread := s.unread ++ [(c, msg)]
      answered := if msg = .registerAck true then c :: s.answered else s.answered }
  | .read c msg => s.receive c msg
  | .inactive c => s.inactive c
  | .listNodes => { s with listing := s.listing + 1 }
  | .pollNodes => s.pollNodes
  | .nodesTimeout => { s with listing := s.listing - 1 }

instance (s : Client) (c : Channel) : Decidable (s.Free c) :=
  inferInstanceAs (Decidable (∀ d ∈ s.awaiting, d.loop ≠ c.loop))

instance (s : Client) : DecidablePred (Enabled s) := fun e =>
  match e with
  | .start | .stop => inferInstanceAs (Decidable (¬ s.halting))
  | .stopped => inferInstanceAs (Decidable (s.halting = true))
  | .reconnectTimer => inferInstanceAs (Decidable (0 < s.reconnects))
  | .connected c | .connectFailed c =>
    inferInstanceAs (Decidable (c ∈ s.connecting ∧ s.Free c))
  | .listener c => inferInstanceAs (Decidable (c ∈ s.ready ∧ s.Free c))
  | .pollAck c | .ackTimeout c => inferInstanceAs (Decidable (c ∈ s.awaiting))
  | .arrive c _ => inferInstanceAs (Decidable (c ∈ s.active))
  | .read c msg =>
    inferInstanceAs (Decidable
      ((s.unread.find? fun entry => entry.1 = c) = some (c, msg) ∧ s.Free c))
  | .inactive c => inferInstanceAs (Decidable (c ∈ s.active ∧ s.Free c))
  | .listNodes =>
    inferInstanceAs (Decidable (s.state = .connected ∧ ∃ c ∈ s.active, s.channel = some c))
  | .pollNodes | .nodesTimeout => inferInstanceAs (Decidable (0 < s.listing))

def step : Client → Event → Option Client := actions Enabled after

-- ---------------------------------------------------------------------------
-- Registration
-- ---------------------------------------------------------------------------

/-- A server that answers each `Register`, and nothing else, with a
`RegisterAck` of success, within the timeout of the registration. -/
def Conforming (s : Client) : Event → Prop
  | .arrive c (.registerAck success) => c ∈ s.registered ∧ success
  | .ackTimeout c => c ∈ s.registered → c ∈ s.answered
  | _ => True

instance (s : Client) (e : Event) : Decidable (Conforming s e) :=
  match e with
  | .arrive c (.registerAck success) =>
    inferInstanceAs (Decidable (c ∈ s.registered ∧ success))
  | .ackTimeout c => inferInstanceAs (Decidable (c ∈ s.registered → c ∈ s.answered))
  | .arrive _ .ping | .arrive _ .pong | .arrive _ .nodeList | .arrive _ .other | .start | .stop
  | .stopped | .reconnectTimer | .connected _ | .connectFailed _ | .listener _ | .pollAck _
  | .read .. | .inactive _ | .listNodes | .pollNodes | .nodesTimeout => .isTrue trivial

/-- The ack that the client is connected by was received on its channel. -/
def AckOnChannel (s : Client) : Prop :=
  s.state = .connected → s.ackFrom.isSome ∧ s.ackFrom = s.channel

/-- Besides, an attempt that has registered ends connected, with no reconnect. -/
def Registers (s : Client) : Prop :=
  (∀ r ∈ s.ended, r.registered → r.state = .connected ∧ r.scheduled = false) ∧ AckOnChannel s

instance : DecidablePred Registers := fun s =>
  inferInstanceAs (Decidable
    ((∀ r ∈ s.ended, r.registered → r.state = .connected ∧ r.scheduled = false) ∧
      (s.state = .connected → s.ackFrom.isSome ∧ s.ackFrom = s.channel)))

/-- An ack that is taken from the inbox was received on the stored channel, or
`schedulePing` throws and the client is not connected after all; a refusal is not
taken while the client is connected. -/
def OwnAck (s : Client) : Event → Prop
  | .pollAck _ => ∀ source success rest, s.inbox = (source, .registerAck success) :: rest →
    if success then s.channel = some source ∨ s.schedulerDown ∧ s.running ∧ ¬ s.authFailed
    else s.state ≠ .connected
  | _ => True

def Ends (s : Client) (c : Channel) : Event → Prop
  | .ackTimeout d => c = d
  | .pollAck d => c = d ∧ ∃ source success rest, s.inbox = (source, .registerAck success) :: rest
  | _ => False

/-- As long as no attempt that has registered has ended: its ack is still to be
read. -/
structure Waiting (s : Client) : Prop where
  inbox : ∀ c success, (c, Inbound.registerAck success) ∉ s.inbox
  unread : ∀ c success, (c, Inbound.registerAck success) ∈ s.unread → c ∈ s.registered
  awaiting : ∀ c ∈ s.registered, c ∈ s.awaiting
  ended : ∀ r ∈ s.ended, r.registered = false
  state : s.state ≠ .connected

section
variable {s s' : Client} {c : Channel} {e : Event}

theorem mem_without : d ∈ without c l ↔ d ∈ l ∧ d ≠ c := by
  simp [without]

theorem AckOnChannel.of_state (h : s.state ≠ .connected) : AckOnChannel s :=
  fun hconn => absurd hconn h

theorem AckOnChannel.scheduleReconnect (h : AckOnChannel s) :
    AckOnChannel s.scheduleReconnect := by
  unfold Client.scheduleReconnect
  split
  · exact h
  · exact .of_state nofun

theorem AckOnChannel.connectAndRegister (h : AckOnChannel s) :
    AckOnChannel (s.connectAndRegister initial) := by
  unfold Client.connectAndRegister
  split
  · exact h
  · cases initial <;> exact .of_state nofun

theorem ackOnChannel_accepted :
    AckOnChannel (accepted c source s) ↔
      s.channel = some source ∨ s.schedulerDown ∧ s.running ∧ ¬ s.authFailed := by
  cases hdown : s.schedulerDown with
  | false => simp [accepted, Client.close, AckOnChannel, hdown, eq_comm (a := s.channel)]
  | true =>
    cases hrunning : s.running <;> cases hfailed : s.authFailed <;>
      simp [accepted, Client.close, AckOnChannel, Client.scheduleReconnect, hdown, hrunning,
        hfailed, eq_comm (a := s.channel)]

theorem ackOnChannel_rejected :
    AckOnChannel (rejected c s) ↔ s.state ≠ .connected := by
  constructor
  · intro hrejected hconn
    have hnone := hrejected hconn
    rw [show (rejected c s).ackFrom = none from hnone.2] at hnone
    cases hnone.1
  · exact fun hstate => .of_state hstate

theorem AckOnChannel.pollNodes (h : AckOnChannel s) : AckOnChannel s.pollNodes := by
  unfold Client.pollNodes
  split <;> exact h

theorem AckOnChannel.inactive (h : AckOnChannel s) : AckOnChannel (s.inactive c) := by
  unfold Client.inactive
  split
  · exact AckOnChannel.scheduleReconnect (s := { s with active := without c s.active }) h
  · exact h

theorem AckOnChannel.receive (h : AckOnChannel s) : AckOnChannel (s.receive c msg) := by
  cases msg <;> exact h

theorem ackOnChannel_pollAck (h : AckOnChannel s) :
    AckOnChannel (s.pollAck c) ↔ OwnAck s (.pollAck c) := by
  unfold Client.pollAck OwnAck
  split
  · rename_i hinbox
    exact iff_of_true h (by simp [hinbox])
  · rename_i source success rest hinbox
    cases success with
    | true => simpa [hinbox] using ackOnChannel_accepted (s := { s with inbox := rest })
    | false => simpa [hinbox] using ackOnChannel_rejected (s := { s with inbox := rest })
  · rename_i msg rest hmsg hinbox
    refine iff_of_true h fun source success rest' hinbox' => ?_
    rw [hinbox] at hinbox'
    obtain ⟨rfl, rfl⟩ := List.cons.inj hinbox'
    exact (hmsg source success rfl).elim

theorem AckOnChannel.after_iff (h : AckOnChannel s) :
    AckOnChannel (Java.after s e) ↔ OwnAck s e := by
  cases e with
  | pollAck c => exact ackOnChannel_pollAck h
  | start =>
    refine iff_of_true ?_ trivial
    simp only [Java.after, Client.start]
    split
    · exact h
    · exact AckOnChannel.connectAndRegister h
  | stop => exact iff_of_true (.of_state nofun) trivial
  | stopped => exact iff_of_true (.of_state nofun) trivial
  | reconnectTimer => exact iff_of_true (AckOnChannel.connectAndRegister h) trivial
  | connectFailed c => exact iff_of_true (AckOnChannel.scheduleReconnect h) trivial
  | listener c => exact iff_of_true (.of_state nofun) trivial
  | ackTimeout c => exact iff_of_true (AckOnChannel.scheduleReconnect h) trivial
  | read c msg => exact iff_of_true h.receive trivial
  | inactive c => exact iff_of_true h.inactive trivial
  | pollNodes => exact iff_of_true h.pollNodes trivial
  | _ => exact iff_of_true h trivial

theorem Waiting.registers (h : Waiting s) : Registers s := by
  refine ⟨fun r hr hreg => ?_, .of_state h.state⟩
  rw [h.ended r hr] at hreg
  cases hreg

theorem Waiting.scheduleReconnect (h : Waiting s) : Waiting s.scheduleReconnect := by
  unfold Client.scheduleReconnect
  split
  · exact h
  · exact { h with state := nofun }

theorem Waiting.connectAndRegister (h : Waiting s) : Waiting (s.connectAndRegister initial) := by
  unfold Client.connectAndRegister
  split
  · exact h
  · refine { h with state := ?_ }
    cases initial <;> exact nofun

/-- Nothing that is awaited is in the inbox, so a turn of a loop drops a message. -/
theorem Waiting.pollAck (h : Waiting s) : Waiting (s.pollAck c) := by
  unfold Client.pollAck
  split
  · exact h
  · rename_i source success rest hinbox
    exact absurd (hinbox ▸ List.mem_cons_self) (h.inbox source success)
  · rename_i msg rest _ hinbox
    refine { h with inbox := fun d success hmem => h.inbox d success ?_ }
    rw [hinbox]
    exact List.mem_cons_of_mem _ hmem

theorem Waiting.pollNodes (h : Waiting s) : Waiting s.pollNodes := by
  have hrest : ∀ entry rest, s.inbox = entry :: rest →
      ∀ d success, (d, Inbound.registerAck success) ∉ rest := by
    intro entry rest hinbox d success hmem
    refine h.inbox d success ?_
    rw [hinbox]
    exact List.mem_cons_of_mem _ hmem
  unfold Client.pollNodes
  split
  · exact h
  · rename_i hinbox
    exact { h with inbox := hrest _ _ hinbox }
  · rename_i hinbox
    exact { h with inbox := hrest _ _ hinbox }

/-- The loop of an attempt that has registered is blocked, so its ack stays
unread. -/
theorem Waiting.receive (h : Waiting s) (hmem : (c, msg) ∈ s.unread) (hfree : s.Free c) :
    Waiting (s.receive c msg) := by
  have hunread : ∀ d success, (d, Inbound.registerAck success) ∈ s.unread.erase (c, msg) →
      d ∈ s.registered := fun d success hd => h.unread d success (List.mem_of_mem_erase hd)
  have hack : ∀ success, msg ≠ .registerAck success := by
    rintro success rfl
    exact hfree c (h.awaiting c (h.unread c success hmem)) rfl
  have hinbox : ∀ d success, (d, Inbound.registerAck success) ∉ s.inbox ++ [(c, msg)] := by
    intro d success hd
    rcases List.mem_append.mp hd with hold | hnew
    · exact h.inbox d success hold
    · exact hack success (Prod.ext_iff.mp (List.mem_singleton.mp hnew)).2.symm
  cases msg with
  | ping => exact { h with unread := hunread }
  | pong => exact { h with unread := hunread }
  | registerAck success => exact absurd rfl (hack success)
  | nodeList => exact { h with unread := hunread, inbox := hinbox }
  | other => exact { h with unread := hunread, inbox := hinbox }

theorem registered_scheduleReconnect : s.scheduleReconnect.registered = s.registered := by
  unfold Client.scheduleReconnect
  split <;> rfl

theorem Waiting.timedOut (h : Waiting s) (hc : c ∉ s.registered) : Waiting (s.timedOut c) := by
  have hsched := h.scheduleReconnect
  refine { hsched with awaiting := fun d hd => ?_, ended := fun r hr => ?_ }
  · refine mem_without.mpr ⟨hsched.awaiting d hd, ?_⟩
    rintro rfl
    exact hc (registered_scheduleReconnect ▸ hd)
  · rcases List.mem_cons.mp hr with rfl | hr
    · exact decide_eq_false (registered_scheduleReconnect.symm ▸ hc)
    · exact hsched.ended r hr

theorem Waiting.register (h : Waiting s) : Waiting (s.register c) := by
  refine {
    inbox := h.inbox
    unread := fun d success hd => ?_
    awaiting := fun d hd => ?_
    ended := h.ended
    state := nofun }
  · have hold := h.unread d success hd
    simp only [Client.register]
    split
    · exact List.mem_cons_of_mem c hold
    · exact hold
  · simp only [Client.register] at hd ⊢
    split at hd
    · rcases List.mem_cons.mp hd with rfl | hold
      · exact List.mem_cons_self
      · exact List.mem_cons_of_mem c (h.awaiting d hold)
    · exact List.mem_cons_of_mem c (h.awaiting d hd)

theorem Waiting.inactive (h : Waiting s) : Waiting (s.inactive c) := by
  have hclosed : Waiting { s with active := without c s.active } := { h with }
  unfold Client.inactive
  split
  · exact { hclosed.scheduleReconnect with }
  · exact { hclosed with }

theorem Waiting.after (h : Waiting s) (hen : Enabled s e) (hconf : Conforming s e)
    (hends : ∀ c, Ends s c e → c ∉ s.registered) : Waiting (after s e) := by
  cases e with
  | start =>
    simp only [Java.after, Client.start]
    split
    · exact h
    · exact Waiting.connectAndRegister { h with }
  | stop => exact { h with state := nofun }
  | stopped => exact { h with state := nofun }
  | reconnectTimer => exact Waiting.connectAndRegister { h with }
  | connected c => exact { h with }
  | connectFailed c => exact Waiting.scheduleReconnect { h with }
  | listener c => exact h.register
  | pollAck c => exact h.pollAck
  | ackTimeout c => exact h.timedOut (hends c rfl)
  | arrive c msg =>
    refine { h with unread := fun d success hd => ?_ }
    rcases List.mem_append.mp hd with hold | hnew
    · exact h.unread d success hold
    · obtain ⟨rfl, rfl⟩ := Prod.mk.inj (List.mem_singleton.mp hnew)
      exact hconf.1
  | read c msg => exact h.receive (List.mem_of_find?_eq_some hen.1) hen.2
  | inactive c => exact h.inactive
  | listNodes => exact { h with }
  | pollNodes => exact h.pollNodes
  | nodesTimeout => exact { h with }

/-- An attempt that has registered can only end by its timeout. -/
theorem Waiting.not_registers (h : Waiting s) (hends : Ends s c e) (hc : c ∈ s.registered) :
    ¬ Registers (Java.after s e) := by
  cases e with
  | ackTimeout d =>
    obtain rfl : c = d := hends
    intro hreg
    have hended := hreg.1 ⟨c, c ∈ s.scheduleReconnect.registered, s.scheduleReconnect.state,
      s.reconnects < s.scheduleReconnect.reconnects⟩ List.mem_cons_self
    have hregistered := registered_scheduleReconnect.symm ▸ hc
    exact h.scheduleReconnect.state (hended (decide_eq_true hregistered)).1
  | pollAck d =>
    obtain ⟨-, source, success, rest, hinbox⟩ := hends
    exact absurd (hinbox ▸ List.mem_cons_self) (h.inbox source success)
  | _ => exact hends.elim

end

/-- In every run the client is connected by an ack of its channel exactly as long
as the attempts take no other. And with a server that answers every registration
in time, registering goes as it should exactly as long as no attempt that has
registered comes to its end. -/
theorem registers_iff_none_ended (es : List Event) :
    (Always step AckOnChannel Client.init es ↔ Guarded step OwnAck Client.init es) ∧
      (Guarded step Conforming Client.init es →
        (Always step Registers Client.init es ↔
          Guarded step (fun s e => ∀ c, Ends s c e → c ∉ s.registered) Client.init es)) := by
  have hinit : Waiting Client.init := {
    inbox := nofun
    unread := nofun
    awaiting := nofun
    ended := nofun
    state := nofun }
  constructor
  · refine always_iff_guarded (I := fun _ => True) trivial (.of_state nofun)
      (fun _ _ _ _ _ _ _ => trivial) fun s e s' _ h hs => ?_
    obtain ⟨-, rfl⟩ := actions_eq_some.mp hs
    exact h.after_iff
  · intro hconf
    refine hconf.always_iff hinit hinit.registers ?_ ?_
    · intro s e s' h _ hH hs hreg
      obtain ⟨hen, rfl⟩ := actions_eq_some.mp hs
      exact h.after hen hH fun c hends hc => h.not_registers hends hc hreg
    · intro s e s' h _ hH hs
      obtain ⟨hen, rfl⟩ := actions_eq_some.mp hs
      exact ⟨fun hreg c hends hc => h.not_registers hends hc hreg,
        fun hends => (h.after hen hH hends).registers⟩

/-- The server has answered, but the listener that waits for the answer keeps
the loop from reading it. -/
def answeredInTime : List Event :=
  let c : Channel := ⟨0, 1⟩
  [.start, .connected c, .listener c, .arrive c (.registerAck true), .ackTimeout c]

theorem guarded_answeredInTime : Guarded step Conforming Client.init answeredInTime := by
  decide +kernel

theorem ack_times_out :
    Guarded step Conforming Client.init answeredInTime ∧
      (run step Client.init answeredInTime).isSome ∧
      ¬ Always step Registers Client.init answeredInTime :=
  ⟨guarded_answeredInTime, by decide +kernel, by decide +kernel⟩

theorem registers_iff_none_ended_answeredInTime :
    Always step Registers Client.init answeredInTime ↔
      Guarded step (fun s e => ∀ c, Ends s c e → c ∉ s.registered) Client.init answeredInTime :=
  (registers_iff_none_ended answeredInTime).2 guarded_answeredInTime

end Rinfra.Sdk.Java

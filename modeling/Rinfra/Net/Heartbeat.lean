import Mathlib.Data.List.Basic
import Rinfra.Lib.Transition
import Rinfra.Net.Ws

/-!
# The heartbeat of a WebSocket connection

One connection and what its client does, with the time. A frame arrives, and the
task reads it when it gets to it, which a slow handler or a tick may put off. A
Pong answers the oldest of the Pings that are unanswered, as many as it does: one
Pong may be for several, and one that was not asked for is for none.

The task measures the age of the last Pong it has read; what is asked of it is
about the age of each Ping. The two are compared through the Pings sent since that
Pong, which the task does not keep.
-/

namespace Rinfra.Net.Ws

open Rinfra.Lib

/-- A tick as it was handled: what was unanswered, whether a Pong had come too late
by then, and whether the task gave up the connection. -/
structure TickRecord where
  now : Nat
  unanswered : List Nat
  late : Bool
  closed : Bool
  deriving DecidableEq, Repr

/-- A connection, what has arrived and is not read, and the instants at which the
unanswered Pings were sent, and those since the last Pong that was read, the oldest
first. -/
structure Watched where
  socket : Socket
  clock : Nat
  unread : List Received
  unanswered : List Nat
  since : List Nat
  /-- Some Pong was received more than `ping_timeout` after its Ping. -/
  late : Bool
  ticks : List TickRecord

def isPong : Received → Bool
  | some (.ok (.pong _)) => true
  | _ => false

inductive Watched.Event
  /-- A frame, or the end of them, gets to the server. -/
  | arrive (now : Nat) (item : Received) (answers : Nat)
  | input (i : Input)

/-- The Ping has gone unanswered for longer than the client has for it. -/
def tooOld (options : WsOptions) (now sent : Nat) : Bool :=
  decide (options.pingTimeout < elapsed now sent)

def TickRecord.overdue (options : WsOptions) (t : TickRecord) : Bool :=
  t.unanswered.any (tooOld options t.now)

namespace Watched

def new : Watched := ⟨.new, 0, [], [], [], false, []⟩

def arrive (options : WsOptions) (w : Watched) (now : Nat) (item : Received) (answers : Nat) :
    Watched :=
  let w := { w with clock := now, unread := w.unread ++ [item] }
  if isPong item then
    { w with
      unanswered := w.unanswered.drop answers
      late := w.late || (w.unanswered.take answers).any (tooOld options now) }
  else w

def tick (w : Watched) (now : Nat) (socket : Socket) : Watched :=
  let sent := if socket.stage = .selecting then [now] else []
  { w with
    socket
    clock := now
    unanswered := w.unanswered ++ sent
    since := w.since ++ sent
    ticks := ⟨now, w.unanswered, w.late, socket.stage = .closing .pongTimeout⟩ :: w.ticks }

def recv (w : Watched) (now : Nat) (item : Received) (socket : Socket) : Watched :=
  { w with
    socket
    clock := now
    unread := w.unread.tail
    since := if isPong item then [] else w.since }

def step (options : WsOptions) (w : Watched) : Event → Option Watched
  | .arrive now item answers =>
    if w.clock ≤ now then some (w.arrive options now item answers) else none
  | .input i => do
    let socket ← w.socket.step options i
    match i with
    | .opened created now _ =>
      if w.clock ≤ created ∧ created ≤ now then some { w with socket, clock := now } else none
    | .tick now _ => if w.clock ≤ now then some (w.tick now socket) else none
    | .recv now item =>
      if w.clock ≤ now ∧ w.unread.head? = some item then some (w.recv now item socket) else none
    | _ => some { w with socket }

/-- A connection is given up at a tick only if the client was late with a Pong or
is, and whenever it is. -/
def Exact (options : WsOptions) (w : Watched) : Prop :=
  ∀ t ∈ w.ticks, (t.closed → t.late ∨ t.overdue options) ∧ (t.overdue options → t.closed)

/-- What a tick has to find. -/
structure Regular (options : WsOptions) (w : Watched) (now : Nat) : Prop where
  /-- Once the last Pong is too old, none that the task waits for has arrived unread. -/
  read : w.socket.waitingPong = true → w.socket.lastPong + options.pingTimeout < now →
    ∀ item ∈ w.unread, isPong item = false
  /-- It does not fall between the instants at which the last Pong and the first Ping
  since get too old. -/
  apart : ∀ sent ∈ w.since.head?, w.socket.lastPong + options.pingTimeout < now →
    sent + options.pingTimeout < now
  /-- A Ping that a Pong has passed over is not left unanswered for too long. -/
  passed : ∀ sent ∈ w.unanswered, sent ∈ w.since ∨ now ≤ sent + options.pingTimeout

def Prompt (options : WsOptions) (w : Watched) : Event → Prop
  | .input (.tick now _) => w.Regular options now
  | _ => True

instance (options : WsOptions) : DecidablePred (Exact options) := fun w =>
  inferInstanceAs (Decidable (∀ t ∈ w.ticks, _))

instance (options : WsOptions) (w : Watched) : DecidablePred (w.Regular options) := fun now =>
  decidable_of_iff ((w.socket.waitingPong = true →
      w.socket.lastPong + options.pingTimeout < now → ∀ item ∈ w.unread, isPong item = false) ∧
      (∀ sent ∈ w.since.head?, w.socket.lastPong + options.pingTimeout < now →
        sent + options.pingTimeout < now) ∧
      ∀ sent ∈ w.unanswered, sent ∈ w.since ∨ now ≤ sent + options.pingTimeout)
    ⟨fun h => ⟨h.1, h.2.1, h.2.2⟩, fun h => ⟨h.read, h.apart, h.passed⟩⟩

instance (options : WsOptions) (w : Watched) : DecidablePred (w.Prompt options) := fun e =>
  match e with
  | .input (.tick now _) => inferInstanceAs (Decidable (w.Regular options now))
  | .arrive .. | .input .start | .input (.opened ..) | .input .shutdown | .input (.recv ..)
  | .input (.handled ..) | .input (.closed _) | .input .left | .input .panic => .isTrue trivial

def Early (s : Socket) : Prop := s.stage = .fresh ∨ s.stage = .opening

inductive Goes (options : WsOptions) (w : Watched) : Event → Watched → Prop
  | arrive {answers : Nat} (hnow : w.clock ≤ now) :
      Goes options w (.arrive now item answers) (w.arrive options now item answers)
  | opened (next : Socket) (hnow : w.clock ≤ now) (hearly : Early w.socket)
      (hpong : next.lastPong = now) (hwaits : next.waitingPong = false) :
      Goes options w (.input (.opened created now result))
        { w with socket := next, clock := now }
  | tick (hnow : w.clock ≤ now) (hstage : w.socket.stage = .selecting)
      (hdue : w.socket.due ≤ now) :
      Goes options w (.input (.tick now sends)) (w.tick now (w.socket.onTick options now sends))
  | recv (hnow : w.clock ≤ now) (hunread : w.unread = item :: rest) :
      Goes options w (.input (.recv now item)) (w.recv now item (w.socket.onRecv now item))
  | other (next : Socket) (now : Nat) (hnow : w.clock ≤ now) (hearly : Early next → Early w.socket)
      (hpong : next.lastPong = w.socket.lastPong)
      (hwaits : next.waitingPong = w.socket.waitingPong) (hdue : next.due = w.socket.due) :
      Goes options w (.input i) { w with socket := next, clock := now }

/-- What the state of the task says of the Pings since the last Pong it has read. -/
structure Sound (w : Watched) : Prop where
  early : Early w.socket → w.socket.waitingPong = false
  past : w.socket.lastPong ≤ w.clock
  waits : w.socket.waitingPong = true ↔ w.since ≠ []
  after : ∀ sent ∈ w.since, w.socket.lastPong ≤ sent
  /-- Only a Pong that is yet to be read answers them. -/
  unanswered : (∀ item ∈ w.unread, isPong item = false) → ∀ sent ∈ w.since, sent ∈ w.unanswered

section
variable {options : WsOptions} {w w' : Watched} {e : Event} {now answers : Nat}

theorem tick_can (h : w.step options (.input (.tick now sends)) = some w') :
    w.socket.stage = .selecting ∧ w.socket.due ≤ now := by
  obtain ⟨socket, hsocket, -⟩ := Option.bind_eq_some_iff.mp h
  simp only [Socket.step] at hsocket
  split at hsocket <;> cases hsocket
  assumption

theorem goes (h : w.step options e = some w') : Goes options w e w' := by
  cases e with
  | arrive now item answers =>
    simp only [step] at h
    split at h
    · rename_i hnow
      cases h
      exact .arrive hnow
    · cases h
  | input i =>
    have hstep := h
    obtain ⟨socket, hsocket, h⟩ := Option.bind_eq_some_iff.mp h
    cases i with
    | tick now sends =>
      have hcan := tick_can hstep
      simp only [Socket.step, if_pos hcan] at hsocket
      simp only at h
      cases hsocket
      split at h <;> cases h
      rename_i hnow
      exact .tick hnow hcan.1 hcan.2
    | recv now item =>
      simp only [Socket.step] at hsocket
      simp only at h
      split at hsocket <;> cases hsocket
      split at h <;> cases h
      rename_i hhead
      obtain ⟨rest, hrest⟩ := List.head?_eq_some_iff.mp hhead.2
      exact .recv hhead.1 hrest
    | opened created now result =>
      simp only [Socket.step] at hsocket
      simp only at h
      split at h <;> cases h
      rename_i htimes
      have hnow := Nat.le_trans htimes.1 htimes.2
      split at hsocket
      · rename_i hopening
        cases result with
        | ok =>
          simp only at hsocket
          split at hsocket <;> cases hsocket
          · exact .other _ now hnow (fun _ => .inr hopening) rfl rfl rfl
          · exact .opened _ hnow (.inr hopening) rfl rfl
        | error e =>
          cases hsocket
          exact .other _ now hnow (fun _ => .inr hopening) rfl rfl rfl
      · cases hsocket
    | start =>
      cases h
      simp only [Socket.step] at hsocket
      split at hsocket <;> cases hsocket
      rename_i hfresh
      exact .other _ w.clock (Nat.le_refl _) (fun _ => .inl hfresh) rfl rfl rfl
    | shutdown | left =>
      cases h
      simp only [Socket.step] at hsocket
      split at hsocket <;> cases hsocket
      exact .other _ w.clock (Nat.le_refl _) (by simp [Early]) rfl rfl rfl
    | handled result sends =>
      cases h
      simp only [Socket.step] at hsocket
      split at hsocket <;> cases hsocket
      refine .other _ w.clock (Nat.le_refl _) ?_ ?_ ?_ ?_ <;>
        (unfold Socket.onHandled; split <;> (try split) <;> simp [Early])
    | closed result | panic =>
      cases h
      simp only [Socket.step] at hsocket
      split at hsocket <;> cases hsocket
      all_goals exact .other _ w.clock (Nat.le_refl _) (by simp [Early]) rfl rfl rfl

-- ---------------------------------------------------------------------------
-- Ticks
-- ---------------------------------------------------------------------------

theorem onTick_closes {s : Socket} (sends : Message → Bool) (hstage : s.stage = .selecting) :
    (s.onTick options now sends).stage = .closing .pongTimeout ↔
      s.pongOverdue options now = true := by
  simp only [Socket.onTick]
  split
  · rename_i hoverdue
    exact iff_of_true rfl hoverdue
  · rename_i hoverdue
    refine iff_of_false ?_ hoverdue
    split <;> simp [hstage]

/-- A tick that sends its Ping leaves the task waiting, another one as it was. -/
theorem onTick_waits {s : Socket} (hstage : s.stage = .selecting) :
    (s.onTick options now sends).waitingPong = true ↔
      s.waitingPong = true ∨ (s.onTick options now sends).stage = .selecting := by
  unfold Socket.onTick
  split
  · simp
  · split
    · simp
    · simp [hstage]

theorem onTick_early (s : Socket) (hstage : s.stage = .selecting) :
    ¬ Early (s.onTick options now sends) := by
  unfold Socket.onTick
  split
  · simp [Early]
  · split <;> simp [Early, hstage]

theorem onTick_fields (s : Socket) (options : WsOptions) (now : Nat)
    (sends : Message → Bool) : (s.onTick options now sends).lastPong = s.lastPong ∧
    (s.onTick options now sends).due = s.due + options.pingInterval := by
  unfold Socket.onTick
  split
  · exact ⟨rfl, rfl⟩
  · split <;> exact ⟨rfl, rfl⟩

theorem pongOverdue_iff {s : Socket} : s.pongOverdue options now = true ↔
    s.waitingPong = true ∧ options.pingTimeout < elapsed now s.lastPong := by
  simp [Socket.pongOverdue]

theorem overdue_iff {t : TickRecord} : t.overdue options = true ↔
    ∃ sent ∈ t.unanswered, options.pingTimeout < elapsed t.now sent := by
  simp [TickRecord.overdue, tooOld]

/-- A tick that finds what it has to gives up the connection exactly when a Ping is
unanswered for too long. -/
theorem Regular.closes_iff (hr : w.Regular options now) (hs : w.Sound) :
    w.socket.pongOverdue options now = true ↔
      ∃ sent ∈ w.unanswered, options.pingTimeout < elapsed now sent := by
  rw [pongOverdue_iff]
  constructor
  · rintro ⟨hwaits, hsilent⟩
    have hold : w.socket.lastPong + options.pingTimeout < now := by
      rw [elapsed] at hsilent
      omega
    obtain ⟨sent, hfirst⟩ := Option.isSome_iff_exists.mp
      (List.isSome_head?.mpr (hs.waits.mp hwaits))
    refine ⟨sent, hs.unanswered (hr.read hwaits hold) sent (List.mem_of_head? hfirst), ?_⟩
    have hage := hr.apart sent hfirst hold
    rw [elapsed]
    omega
  · rintro ⟨sent, hsent, hage⟩
    have hsince : sent ∈ w.since := by
      rcases hr.passed sent hsent with hsince | hrecent
      · exact hsince
      · rw [elapsed] at hage
        omega
    have hafter := hs.after sent hsince
    refine ⟨hs.waits.mpr (List.ne_nil_of_mem hsince), ?_⟩
    rw [elapsed] at hage ⊢
    omega

-- ---------------------------------------------------------------------------
-- Runs
-- ---------------------------------------------------------------------------

theorem onRecv_other (s : Socket) (now : Nat) (hitem : isPong item = false) :
    (s.onRecv now item).waitingPong = s.waitingPong ∧
    (s.onRecv now item).lastPong = s.lastPong ∧ (s.onRecv now item).due = s.due ∧
    ¬ Early (s.onRecv now item) := by
  unfold Socket.onRecv
  split
  · cases hitem
  · split <;> simp [Early]
  · simp [Early]
  · simp [Early]

theorem onRecv_pong {s : Socket} (hitem : isPong item = true) :
    s.onRecv now item = { s with lastPong := now, waitingPong := false } := by
  unfold isPong at hitem
  split at hitem
  · rfl
  · cases hitem

theorem arrive_fields (w : Watched) (options : WsOptions) (now : Nat) (item : Received)
    (answers : Nat) :
    (w.arrive options now item answers).socket = w.socket ∧
    (w.arrive options now item answers).clock = now ∧
    (w.arrive options now item answers).unread = w.unread ++ [item] ∧
    (w.arrive options now item answers).since = w.since ∧
    (w.arrive options now item answers).ticks = w.ticks := by
  unfold Watched.arrive
  split <;> exact ⟨rfl, rfl, rfl, rfl, rfl⟩

theorem arrive_other (hitem : isPong item = false) :
    (w.arrive options now item answers).unanswered = w.unanswered := by
  simp [Watched.arrive, hitem]

theorem Sound.since_early (hs : w.Sound) (hearly : Early w.socket) : w.since = [] := by
  by_contra hsome
  have hwaits := hs.waits.mpr hsome
  rw [hs.early hearly] at hwaits
  cases hwaits

theorem Sound.arrive (hs : w.Sound) (hnow : w.clock ≤ now) :
    (w.arrive options now item answers).Sound := by
  obtain ⟨hsocket, hclock, hunread, hsince, -⟩ := arrive_fields w options now item answers
  constructor
  · rw [hsocket]
    exact hs.early
  · rw [hsocket, hclock]
    exact Nat.le_trans hs.past hnow
  · rw [hsocket, hsince]
    exact hs.waits
  · rw [hsocket, hsince]
    exact hs.after
  · rw [hunread, hsince]
    intro hnone
    rw [arrive_other (hnone item (by simp))]
    exact hs.unanswered fun item' hmem => hnone item' (by simp [hmem])

theorem Sound.tick (hs : w.Sound) (hnow : w.clock ≤ now) (hstage : w.socket.stage = .selecting) :
    (w.tick now (w.socket.onTick options now sends)).Sound := by
  have hpong := (onTick_fields w.socket options now sends).1
  have hpast := Nat.le_trans hs.past hnow
  constructor
  · exact fun hearly => absurd hearly (onTick_early _ hstage)
  · exact hpong ▸ hpast
  · simp only [Watched.tick, onTick_waits hstage, hs.waits]
    split <;> simp [*]
  · simp only [Watched.tick, hpong]
    intro sent hsent
    rcases List.mem_append.mp hsent with hsent | hsent
    · exact hs.after sent hsent
    · split at hsent
      · rw [List.mem_singleton.mp hsent]
        exact hpast
      · cases hsent
  · intro hnone sent hsent
    exact List.mem_append.mpr ((List.mem_append.mp hsent).imp_left (hs.unanswered hnone sent))

theorem Sound.recv (hs : w.Sound) (hnow : w.clock ≤ now) (hunread : w.unread = item :: rest) :
    (w.recv now item (w.socket.onRecv now item)).Sound := by
  cases hitem : isPong item with
  | true =>
    -- the task waits for none, and no Ping has been sent since
    simp only [Watched.recv, onRecv_pong hitem, hitem, if_true]
    exact ⟨fun _ => rfl, Nat.le_refl _, by simp, List.forall_mem_nil _,
      fun _ => List.forall_mem_nil _⟩
  | false =>
    obtain ⟨hwaits, hpong, -, hearly⟩ := onRecv_other w.socket now hitem
    simp only [Watched.recv, hitem, hunread, List.tail_cons]
    refine ⟨fun h => absurd h hearly, hpong ▸ Nat.le_trans hs.past hnow, ?_, ?_, ?_⟩
    · rw [hwaits]
      exact hs.waits
    · rw [hpong]
      exact hs.after
    · intro hnone
      refine hs.unanswered ?_
      rw [hunread]
      exact List.forall_mem_cons.mpr ⟨hitem, hnone⟩

theorem Sound.step (hs : w.Sound) (h : w.step options e = some w') : w'.Sound := by
  cases goes h with
  | arrive hnow => exact hs.arrive hnow
  | opened next hnow hearly hpong hwaits =>
    have hnil := hs.since_early hearly
    refine ⟨fun _ => hwaits, Nat.le_of_eq hpong, ?_, ?_, ?_⟩
    · simp [hwaits, hnil]
    · simp [hnil]
    · simp [hnil]
  | tick hnow hstage hdue => exact hs.tick hnow hstage
  | recv hnow hunread => exact hs.recv hnow hunread
  | other next now hnow hearly hpong hwaits hdue =>
    refine ⟨fun h => hwaits.trans (hs.early (hearly h)), hpong ▸ Nat.le_trans hs.past hnow,
      ?_, ?_, hs.unanswered⟩
    · rw [hwaits]
      exact hs.waits
    · rw [hpong]
      exact hs.after

theorem Exact.step (hx : w.Exact options) (hs : w.Sound) (hp : w.Prompt options e)
    (h : w.step options e = some w') : w'.Exact options := by
  cases goes h with
  | @arrive now item answers hnow =>
    obtain ⟨-, -, -, -, hticks⟩ := arrive_fields w options now item answers
    rw [Exact, hticks]
    exact hx
  | opened next hnow hearly hpong hwaits => exact hx
  | @tick now sends hnow hstage hdue =>
    intro t hmem
    rcases List.mem_cons.mp hmem with rfl | hmem
    · have hiff := Regular.closes_iff hp hs
      rw [← onTick_closes sends hstage] at hiff
      simp only [decide_eq_true_eq, overdue_iff, hiff]
      exact ⟨.inr, id⟩
    · exact hx t hmem
  | recv hnow hunread => exact hx
  | other next now hnow hearly hpong hwaits hdue => exact hx

theorem sound_new : new.Sound :=
  ⟨fun _ => rfl, Nat.le_refl _, by simp [new, Socket.new], List.forall_mem_nil _,
    fun _ => List.forall_mem_nil _⟩

theorem exact_new : new.Exact options := by
  intro t h
  cases h

/-- In every run in which the ticks are prompt, a client that answers in time is never
given up, and one that does not is given up at the first tick that finds a Ping
too old. -/
theorem heartbeat_exact (options : WsOptions) (es : List Event)
    (hg : Guarded (step options) (Prompt options) new es) :
    Always (step options) (Exact options) new es := by
  refine (hg.invariant (P := fun w => w.Sound ∧ w.Exact options) ⟨sound_new, exact_new⟩
    fun w e w' hw hp h => ?_).mono fun w hw => hw.2
  exact ⟨hw.1.step h, hw.2.step hw.1 hp h⟩

-- ---------------------------------------------------------------------------
-- Ticks in time
-- ---------------------------------------------------------------------------

/-- A tick is handled in time, after the Pongs that have arrived, and a Pong is for
all Pings before it. -/
def Punctual (options : WsOptions) (w : Watched) : Event → Prop
  | .arrive _ item answers => isPong item = true → w.unanswered.length ≤ answers
  | .input (.tick now _) =>
    (∀ item ∈ w.unread, isPong item = false) ∧
      now + options.pingTimeout < w.socket.due + options.pingInterval
  | _ => True

structure Kept (options : WsOptions) (w : Watched) : Prop where
  sound : w.Sound
  settled : ∀ item ∈ w.unread, isPong item = true → w.unanswered = []
  since : ∀ sent ∈ w.unanswered, sent ∈ w.since
  spaced : ∀ sent ∈ w.since, sent + options.pingTimeout < w.socket.due

theorem kept_new : new.Kept options :=
  ⟨sound_new, List.forall_mem_nil _, List.forall_mem_nil _, List.forall_mem_nil _⟩

theorem Kept.regular (hk : w.Kept options) (hread : ∀ item ∈ w.unread, isPong item = false)
    (hdue : w.socket.due ≤ now) : w.Regular options now where
  read _ _ := hread
  apart sent hfirst _ := Nat.lt_of_lt_of_le (hk.spaced sent (List.mem_of_head? hfirst)) hdue
  passed sent hsent := .inl (hk.since sent hsent)

theorem Kept.arrive (hk : w.Kept options) (hnow : w.clock ≤ now)
    (hp : isPong item = true → w.unanswered.length ≤ answers) :
    (w.arrive options now item answers).Kept options := by
  obtain ⟨hsocket, -, hunread, hsince, -⟩ := arrive_fields w options now item answers
  cases hitem : isPong item with
  | true =>
    have hnil : (w.arrive options now item answers).unanswered = [] := by
      simpa [Watched.arrive, hitem] using hp hitem
    refine ⟨hk.sound.arrive hnow, fun _ _ _ => hnil, ?_, ?_⟩
    · simp [hnil]
    · rw [hsince, hsocket]
      exact hk.spaced
  | false =>
    refine ⟨hk.sound.arrive hnow, ?_, ?_, ?_⟩
    · rw [arrive_other hitem, hunread]
      intro item' hmem hpong
      rcases List.mem_append.mp hmem with hmem | hmem
      · exact hk.settled item' hmem hpong
      · rw [List.mem_singleton.mp hmem, hitem] at hpong
        cases hpong
    · rw [arrive_other hitem, hsince]
      exact hk.since
    · rw [hsince, hsocket]
      exact hk.spaced

theorem Kept.tick (hk : w.Kept options) (hnow : w.clock ≤ now)
    (hstage : w.socket.stage = .selecting) (hread : ∀ item ∈ w.unread, isPong item = false)
    (hnext : now + options.pingTimeout < w.socket.due + options.pingInterval) :
    (w.tick now (w.socket.onTick options now sends)).Kept options := by
  refine ⟨hk.sound.tick hnow hstage, ?_, ?_, ?_⟩
  · intro item hmem hitem
    rw [hread item hmem] at hitem
    cases hitem
  · intro sent hsent
    exact List.mem_append.mpr ((List.mem_append.mp hsent).imp_left (hk.since sent))
  · simp only [Watched.tick, (onTick_fields w.socket options now sends).2]
    intro sent hsent
    rcases List.mem_append.mp hsent with hsent | hsent
    · exact Nat.lt_add_right _ (hk.spaced sent hsent)
    · split at hsent
      · rw [List.mem_singleton.mp hsent]
        exact hnext
      · cases hsent

theorem Kept.recv (hk : w.Kept options) (hnow : w.clock ≤ now)
    (hunread : w.unread = item :: rest) :
    (w.recv now item (w.socket.onRecv now item)).Kept options := by
  have hsettled := hk.settled
  rw [hunread, List.forall_mem_cons] at hsettled
  refine ⟨hk.sound.recv hnow hunread, ?_, ?_, ?_⟩
  · simp only [Watched.recv, hunread, List.tail_cons]
    exact hsettled.2
  · cases hitem : isPong item with
    | true => simp [Watched.recv, hsettled.1 hitem]
    | false =>
      simp only [Watched.recv, hitem]
      exact hk.since
  · cases hitem : isPong item with
    | true => simp [Watched.recv, hitem]
    | false =>
      simp only [Watched.recv, hitem, (onRecv_other w.socket now hitem).2.2.1]
      exact hk.spaced

theorem Kept.step (hk : w.Kept options) (hp : w.Punctual options e)
    (h : w.step options e = some w') : w'.Kept options := by
  have hsound := hk.sound.step h
  cases goes h with
  | arrive hnow => exact hk.arrive hnow hp
  | opened next hnow hearly hpong hwaits =>
    have hnil := hk.sound.since_early hearly
    exact ⟨hsound, hk.settled, hk.since, by simp [hnil]⟩
  | tick hnow hstage hdue => exact hk.tick hnow hstage hp.1 hp.2
  | recv hnow hunread => exact hk.recv hnow hunread
  | other next now hnow hearly hpong hwaits hdue =>
    refine ⟨hsound, hk.settled, hk.since, ?_⟩
    rw [hdue]
    exact hk.spaced

/-- Ticks that are handled in time are prompt, where there is time: `ping_timeout`
less than `ping_interval`, as it is by default. -/
theorem prompt_of_punctual (hp : Guarded (step options) (Punctual options) new es) :
    Guarded (step options) (Prompt options) new es := by
  refine hp.imp kept_new (fun w e w' hk hp h => hk.step hp h) fun w e w' hk hp h => ?_
  cases e with
  | arrive now item answers => trivial
  | input i =>
    cases i with
    | tick now sends => exact hk.regular hp.1 (tick_can h).2
    | _ => trivial

end

def opening : List Event := [.input .start, .input (.opened 0 0 (.ok ()))]

def tickAt (secs : Nat) : Event := .input (.tick (fromSecs secs) fun _ => true)

def pongAt (secs answers : Nat) : List Event :=
  [.arrive (fromSecs secs) (some (.ok (.pong []))) answers,
    .input (.recv (fromSecs secs) (some (.ok (.pong []))))]

/-- A Pong that nobody asked for waits unread when the first tick comes; the Ping of
that tick is answered, the next one is not. -/
def strayThenSilent : List Event :=
  opening ++ .arrive (fromSecs 9) (some (.ok (.pong []))) 0 :: tickAt 10 ::
    .input (.recv (fromSecs 10) (some (.ok (.pong [])))) :: pongAt 12 1 ++ [tickAt 20, tickAt 30]

theorem heartbeat_exact_answered :
    Always (step ⟨10, 5⟩) (Exact ⟨10, 5⟩) new strayThenSilent ∧
    (run (step ⟨10, 5⟩) new strayThenSilent).map (fun w => (w.socket.stage, w.unanswered)) =
      some (.closing .pongTimeout, [fromSecs 20]) :=
  ⟨heartbeat_exact ⟨10, 5⟩ _ (by decide +kernel), by decide +kernel⟩

/-- The handler is at work on a message from 11 s to 30 s. -/
def slowHandler : List Event :=
  opening ++ [tickAt 10, .arrive (fromSecs 11) (some (.ok (.text "a"))) 0,
    .input (.recv (fromSecs 11) (some (.ok (.text "a")))),
    .arrive (fromSecs 12) (some (.ok (.pong []))) 1, .input (.handled (.ok none) fun _ => true),
    tickAt 30]

/-- With an interval of 10 s and a timeout of 25 s a client is given up whose Pongs
have 5 s left. With a timeout of 5 s one is given up whose Pong came after 2 s, and
one is not that sends a Pong but never answers. -/
theorem live_client_dropped :
    ((run (step ⟨10, 25⟩) new (opening ++ [tickAt 10, tickAt 20, tickAt 30])).map
      fun w => (w.socket.stage, w.unanswered, w.late)) =
      some (.closing .pongTimeout, [fromSecs 10, fromSecs 20], false) ∧
    ¬ Always (step ⟨10, 25⟩) (Exact ⟨10, 25⟩) new (opening ++ [tickAt 10, tickAt 20, tickAt 30]) ∧
    ¬ Always (step ⟨10, 5⟩) (Exact ⟨10, 5⟩) new slowHandler ∧
    ¬ Always (step ⟨10, 5⟩) (Exact ⟨10, 5⟩) new
      (opening ++ tickAt 10 :: pongAt 15 0 ++ [tickAt 20]) := by
  decide +kernel

end Watched

end Rinfra.Net.Ws

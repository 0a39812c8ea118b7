import Rinfra.Lib.Slots
import Rinfra.Lib.Transition
import Rinfra.Net.Ws

/-!
# Draining the WebSocket connections

The tasks of the connections share a tracker with the calls of
`wait_all_closed`. A task counts itself in when it begins, and out at its end; the
task that brings the count to zero tells the waiters. Each of these, and each look
at the count, is one step among those of all tasks and calls.

`notify_waiters` reaches the waiters whose `notified()` exists, and leaves nothing
for later ones. A call looks at the count before it makes its own.
-/

namespace Rinfra.Net.Ws

open Rinfra.Lib

def Socket.live (s : Socket) : Bool :=
  match s.stage with
  | .opening | .selecting | .handling | .closing _ | .leaving => true
  | .fresh | .ended | .panicked => false

def Input.Panics (options : WsOptions) : Input → Prop
  | .panic => True
  | .opened _ _ (.ok ()) => options.pingIntervalSecs = 0
  | _ => False

instance (options : WsOptions) : DecidablePred (Input.Panics options) := fun i =>
  match i with
  | .panic => .isTrue trivial
  | .opened _ _ (.ok ()) => inferInstanceAs (Decidable (options.pingIntervalSecs = 0))
  | .opened _ _ (.error _) | .start | .shutdown | .tick .. | .recv .. | .handled .. | .closed _
  | .left => .isFalse id

def Input.Tracked : Input → Prop
  | .start | .left => True
  | _ => False

instance : DecidablePred Input.Tracked := fun i =>
  match i with
  | .start | .left => .isTrue trivial
  | .opened .. | .shutdown | .tick .. | .recv .. | .handled .. | .closed _ | .panic => .isFalse id

/-- A task. It is `notifying` between the `fetch_sub` that brought the count to zero
and `notify_waiters`. -/
structure SocketTask where
  socket : Socket
  notifying : Bool
  deriving DecidableEq, Repr

/-- A call of `wait_all_closed` has looked at the count, waits, or has returned. -/
inductive WaitStage
  | checked
  | parked (notified : Bool)
  | returned (timedOut : Bool)
  deriving DecidableEq, Repr

def SocketTask.live (t : SocketTask) : Bool := t.socket.live

structure Waiter where
  stage : WaitStage
  /-- The count has been zero during the call. -/
  sawZero : Bool
  deriving DecidableEq, Repr

/-- `active` is an `AtomicUsize`, which would wrap around below zero. -/
structure Drain where
  tasks : List SocketTask
  active : Int
  waiters : List Waiter
  deriving DecidableEq, Repr

inductive Drain.Event
  | start
  | input (i : Nat) (input : Input)
  | fetchSub (i : Nat)
  | notifyWaiters (i : Nat)
  | wait
  | register (c : Nat)
  | wake (c : Nat)
  | timeout (c : Nat)

def Waiter.seeZero (w : Waiter) : Waiter :=
  match w.stage with
  | .returned _ => w
  | _ => { w with sawZero := true }

def Waiter.notify (w : Waiter) : Waiter :=
  match w.stage with
  | .parked _ => { w with stage := .parked true }
  | _ => w

namespace Drain

def new : Drain := ⟨[], 0, []⟩

def setTask (d : Drain) (i : Nat) (t : SocketTask) : Drain := { d with tasks := d.tasks.set i t }

def setWaiter (d : Drain) (c : Nat) (w : Waiter) : Drain :=
  { d with waiters := d.waiters.set c w }

def setActive (d : Drain) (n : Int) : Drain :=
  { d with active := n, waiters := if n = 0 then d.waiters.map Waiter.seeZero else d.waiters }

def step (options : WsOptions) (d : Drain) : Event → Option Drain
  | .start => do
    let socket ← Socket.new.step options .start
    some (setActive { d with tasks := d.tasks ++ [⟨socket, false⟩] } (d.active + 1))
  | .input i input => do
    let task ← d.tasks[i]?
    if input.Tracked then none
    else
      let socket ← task.socket.step options input
      some (d.setTask i { task with socket })
  | .fetchSub i => do
    let task ← d.tasks[i]?
    let socket ← task.socket.step options .left
    some ((d.setTask i ⟨socket, d.active = 1⟩).setActive (d.active - 1))
  | .notifyWaiters i => do
    let task ← d.tasks[i]?
    if task.notifying then
      some { d.setTask i { task with notifying := false } with
        waiters := d.waiters.map Waiter.notify }
    else none
  | .wait =>
    let stage : WaitStage := if d.active = 0 then .returned false else .checked
    some { d with waiters := d.waiters ++ [⟨stage, false⟩] }
  | .register c => do
    let waiter ← d.waiters[c]?
    match waiter.stage with
    | .checked => some (d.setWaiter c { waiter with stage := .parked false })
    | _ => none
  | .wake c => do
    let waiter ← d.waiters[c]?
    match waiter.stage with
    | .parked true => some (d.setWaiter c { waiter with stage := .returned false })
    | _ => none
  | .timeout c => do
    let waiter ← d.waiters[c]?
    match waiter.stage with
    | .parked _ => some (d.setWaiter c { waiter with stage := .returned true })
    | _ => none

def Notifies (d : Drain) : Prop := ∃ t ∈ d.tasks, t.notifying = true

instance : DecidablePred Notifies := fun d =>
  inferInstanceAs (Decidable (∃ t ∈ d.tasks, t.notifying = true))

structure Drains (d : Drain) : Prop where
  /-- The count is that of the connections; so it is not negative. -/
  counts : d.active = d.tasks.countP SocketTask.live
  /-- Nobody waits for the timeout that has had the count at zero. -/
  told : ∀ w ∈ d.waiters, w.stage = .parked false → w.sawZero = true → d.Notifies

instance : DecidablePred Drains := fun d =>
  decidable_of_iff (d.active = d.tasks.countP SocketTask.live ∧
      ∀ w ∈ d.waiters, w.stage = .parked false → w.sawZero = true → d.Notifies)
    ⟨fun h => ⟨h.1, h.2⟩, fun h => ⟨h.counts, h.told⟩⟩

/-- No task panics, and no call makes its `notified()` after the count has been at
zero and everybody was told. -/
def Orderly (options : WsOptions) (d : Drain) : Event → Prop
  | .input _ input => ¬ input.Panics options
  | .register c => ∀ w, d.waiters[c]? = some w → w.sawZero = true → d.Notifies
  | _ => True

/-- A task that is counted is not at `notify_waiters`. -/
def Apart (d : Drain) : Prop := ∀ t ∈ d.tasks, t.live = true → t.notifying = false

inductive Goes (options : WsOptions) (d : Drain) : Event → Drain → Prop
  | start (socket : Socket) (hlive : socket.live = true) :
      Goes options d .start
        (setActive { d with tasks := d.tasks ++ [⟨socket, false⟩] } (d.active + 1))
  | input {i : Nat} {input : Input} (task : SocketTask) (socket : Socket)
      (htask : d.tasks[i]? = some task) (hlive : task.live = true)
      (hsocket : socket.live = true ↔ ¬ input.Panics options) :
      Goes options d (.input i input) (d.setTask i { task with socket })
  | fetchSub {i : Nat} (task : SocketTask) (socket : Socket) (htask : d.tasks[i]? = some task)
      (hlive : task.live = true) (hsocket : socket.live = false) :
      Goes options d (.fetchSub i)
        ((d.setTask i ⟨socket, d.active = 1⟩).setActive (d.active - 1))
  | notifyWaiters {i : Nat} (task : SocketTask) (htask : d.tasks[i]? = some task) :
      Goes options d (.notifyWaiters i) { d.setTask i { task with notifying := false } with
        waiters := d.waiters.map Waiter.notify }
  | wait : Goes options d .wait { d with
      waiters := d.waiters ++ [⟨if d.active = 0 then .returned false else .checked, false⟩] }
  | register {c : Nat} (waiter : Waiter) (hwaiter : d.waiters[c]? = some waiter) :
      Goes options d (.register c) (d.setWaiter c { waiter with stage := .parked false })
  | returns {c : Nat} {e : Event} (waiter : Waiter) (timedOut : Bool)
      (he : e = .wake c ∨ e = .timeout c) :
      Goes options d e (d.setWaiter c { waiter with stage := .returned timedOut })

section
variable {options : WsOptions} {d d' : Drain} {e : Event}

theorem step_live {s s' : Socket} (h : s.step options i = some s') (hi : ¬ i.Tracked) :
    s.live = true ∧ (s'.live = true ↔ ¬ i.Panics options) := by
  cases i with
  | start | left => exact absurd trivial hi
  | opened created now result =>
    simp only [Socket.step] at h
    split at h
    · rename_i hstage
      refine ⟨by simp [Socket.live, hstage], ?_⟩
      cases result with
      | ok =>
        simp only at h
        split at h <;> cases h
        · rename_i hzero
          simp [Socket.live, Input.Panics, hzero]
        · rename_i hpos
          simp [Socket.live, Input.Panics, hpos]
      | error e =>
        cases h
        simp [Socket.live, Input.Panics]
    · cases h
  | shutdown =>
    simp only [Socket.step] at h
    split at h <;> cases h
    rename_i hstage
    simp [Socket.live, Input.Panics, hstage]
  | tick now sends =>
    simp only [Socket.step] at h
    split at h <;> cases h
    rename_i hcan
    refine ⟨by simp [Socket.live, hcan.1], ?_⟩
    unfold Socket.onTick
    split
    · simp [Socket.live, Input.Panics]
    · split <;> simp [Socket.live, Input.Panics, hcan.1]
  | recv now item =>
    simp only [Socket.step] at h
    split at h <;> cases h
    rename_i hstage
    refine ⟨by simp [Socket.live, hstage], ?_⟩
    unfold Socket.onRecv
    split
    · simp [Socket.live, Input.Panics, hstage]
    · split <;> simp [Socket.live, Input.Panics]
    · simp [Socket.live, Input.Panics]
    · simp [Socket.live, Input.Panics]
  | handled result sends =>
    simp only [Socket.step] at h
    split at h <;> cases h
    rename_i hstage
    refine ⟨by simp [Socket.live, hstage], ?_⟩
    unfold Socket.onHandled
    split
    · split <;> simp [Socket.live, Input.Panics]
    · simp [Socket.live, Input.Panics]
    · simp [Socket.live, Input.Panics]
  | closed result =>
    simp only [Socket.step] at h
    split at h <;> cases h
    rename_i hstage
    simp [Socket.live, Input.Panics, hstage]
  | panic =>
    simp only [Socket.step] at h
    split at h <;> cases h <;> rename_i hstage <;> simp [Socket.live, Input.Panics, hstage]

theorem step_left {s s' : Socket} (h : s.step options .left = some s') :
    s.live = true ∧ s'.live = false := by
  simp only [Socket.step] at h
  split at h <;> cases h
  rename_i hstage
  simp [Socket.live, hstage]

theorem goes (h : d.step options e = some d') : Goes options d e d' := by
  cases e with
  | start =>
    cases h
    exact .start _ rfl
  | input i input =>
    obtain ⟨task, htask, h⟩ := Option.bind_eq_some_iff.mp h
    split at h
    · cases h
    · rename_i hinput
      obtain ⟨socket, hsocket, h⟩ := Option.bind_eq_some_iff.mp h
      cases h
      obtain ⟨hlive, hnext⟩ := step_live hsocket hinput
      exact .input task socket htask hlive hnext
  | fetchSub i =>
    obtain ⟨task, htask, h⟩ := Option.bind_eq_some_iff.mp h
    obtain ⟨socket, hsocket, h⟩ := Option.bind_eq_some_iff.mp h
    cases h
    obtain ⟨hlive, hnext⟩ := step_left hsocket
    exact .fetchSub task socket htask hlive hnext
  | notifyWaiters i =>
    obtain ⟨task, htask, h⟩ := Option.bind_eq_some_iff.mp h
    split at h <;> cases h
    exact .notifyWaiters task htask
  | wait =>
    cases h
    exact .wait
  | register c =>
    obtain ⟨waiter, hwaiter, h⟩ := Option.bind_eq_some_iff.mp h
    split at h <;> cases h
    exact .register waiter hwaiter
  | wake c =>
    obtain ⟨waiter, hwaiter, h⟩ := Option.bind_eq_some_iff.mp h
    split at h <;> cases h
    exact .returns waiter false (.inl rfl)
  | timeout c =>
    obtain ⟨waiter, hwaiter, h⟩ := Option.bind_eq_some_iff.mp h
    split at h <;> cases h
    exact .returns waiter true (.inr rfl)

-- ---------------------------------------------------------------------------
-- The count
-- ---------------------------------------------------------------------------

theorem countP_setTask {task : SocketTask} (next : SocketTask) (htask : d.tasks[i]? = some task)
    (hlive : task.live = true) :
    ((d.tasks.set i next).countP SocketTask.live : Int) =
      d.tasks.countP SocketTask.live - 1 + if next.live then 1 else 0 := by
  have hadd := countP_set_add (b := next) SocketTask.live htask
  rw [if_pos hlive] at hadd
  cases hnext : next.live with
  | true =>
    rw [if_pos hnext] at hadd
    simp only [if_true]
    omega
  | false =>
    rw [if_neg (by simp [hnext])] at hadd
    simp only [Bool.false_eq_true, if_false]
    omega

theorem Notifies.setTask {task next : SocketTask} (h : d.Notifies)
    (htask : d.tasks[i]? = some task) (hnext : task.notifying = true → next.notifying = true) :
    (d.setTask i next).Notifies := by
  obtain ⟨t, hmem, hnotifies⟩ := h
  by_cases hsame : t = task
  · exact ⟨next, mem_set_self htask, hnext (hsame ▸ hnotifies)⟩
  · exact ⟨t, mem_set_of_ne htask hmem hsame, hnotifies⟩

theorem notify_not_parked (w : Waiter) : w.notify.stage ≠ .parked false := by
  unfold Waiter.notify
  split
  · simp
  · rename_i hnot
    exact hnot false

theorem active_setActive : (d.setActive n).active = n := rfl

theorem mem_setActive {w : Waiter} (h : w ∈ (d.setActive n).waiters) :
    w ∈ d.waiters ∨ n = 0 ∧ ∃ w' ∈ d.waiters, w = w'.seeZero := by
  simp only [setActive] at h
  split at h
  · rename_i hzero
    obtain ⟨w', hmem, rfl⟩ := List.mem_map.mp h
    exact .inr ⟨hzero, w', hmem, rfl⟩
  · exact .inl h

theorem Drains.setWaiter (hd : d.Drains) {next : Waiter}
    (hnext : next.stage = .parked false → next.sawZero = true → d.Notifies) :
    (d.setWaiter c next).Drains := by
  refine ⟨hd.counts, fun w hmem hparked hzero => ?_⟩
  rcases List.mem_or_eq_of_mem_set hmem with hmem | rfl
  · exact hd.told w hmem hparked hzero
  · exact hnext hparked hzero

theorem Drains.started (hd : d.Drains) {socket : Socket} (hlive : socket.live = true) :
    (setActive { d with tasks := d.tasks ++ [⟨socket, false⟩] } (d.active + 1)).Drains := by
  have hnew : SocketTask.live ⟨socket, false⟩ = true := hlive
  refine ⟨?_, fun w hmem hparked hzero => ?_⟩
  · rw [active_setActive, hd.counts]
    simp [setActive, List.countP_append, hnew]
  · rcases mem_setActive hmem with hmem | ⟨hnone, -⟩
    · obtain ⟨t, ht, hnotifies⟩ := hd.told w hmem hparked hzero
      exact ⟨t, List.mem_append_left _ ht, hnotifies⟩
    · have hcount := hd.counts
      omega

theorem Drains.fetchSub (hd : d.Drains) (ha : d.Apart) {task : SocketTask} {socket : Socket}
    (htask : d.tasks[i]? = some task) (hlive : task.live = true) (hsocket : socket.live = false) :
    ((d.setTask i ⟨socket, d.active = 1⟩).setActive (d.active - 1)).Drains := by
  have hdead : SocketTask.live ⟨socket, d.active = 1⟩ = false := hsocket
  refine ⟨?_, fun w hmem hparked hzero => ?_⟩
  · have hcount := countP_setTask ⟨socket, d.active = 1⟩ htask hlive
    rw [hdead, ← hd.counts] at hcount
    rw [active_setActive]
    simpa [setActive, setTask] using hcount.symm
  · by_cases hone : d.active = 1
    · exact ⟨_, mem_set_self htask, decide_eq_true hone⟩
    · rcases mem_setActive hmem with hmem | ⟨hnone, -⟩
      · have hquiet := ha task (List.mem_of_getElem? htask) hlive
        exact (hd.told w hmem hparked hzero).setTask htask (by simp [hquiet])
      · omega

/-- After `notify_waiters` nobody is parked and untold. -/
theorem Drains.notified (hd : d.Drains) (htask : d.tasks[i]? = some task) :
    Drains { d.setTask i { task with notifying := false } with
      waiters := d.waiters.map Waiter.notify } := by
  refine ⟨?_, fun w hmem hparked => ?_⟩
  · have hcount := countP_set_same (b := { task with notifying := false }) SocketTask.live htask rfl
    exact hd.counts.trans (congrArg Nat.cast hcount.symm)
  · obtain ⟨w', -, rfl⟩ := List.mem_map.mp hmem
    exact absurd hparked (notify_not_parked w')

theorem Drains.waits (hd : d.Drains) {stage : WaitStage} (hstage : stage ≠ .parked false) :
    Drains { d with waiters := d.waiters ++ [⟨stage, false⟩] } := by
  refine ⟨hd.counts, fun w hmem hparked hzero => ?_⟩
  rcases List.mem_append.mp hmem with hmem | hmem
  · exact hd.told w hmem hparked hzero
  · rw [List.mem_singleton.mp hmem] at hparked
    exact absurd hparked hstage

/-- A task that goes on keeps the count if and only if it does not panic. -/
theorem Drains.input_iff (hd : d.Drains) {task : SocketTask} {socket : Socket}
    (htask : d.tasks[i]? = some task) (hlive : task.live = true) :
    (d.setTask i { task with socket }).Drains ↔ socket.live = true := by
  have hcount := countP_setTask { task with socket } htask hlive
  have hsame : SocketTask.live { task with socket } = socket.live := rfl
  rw [hsame, ← hd.counts] at hcount
  constructor
  · intro h
    have hcount' : d.active = _ := h.counts
    simp only [setTask, hcount] at hcount'
    cases hsocket : socket.live with
    | true => rfl
    | false =>
      simp only [hsocket, Bool.false_eq_true, if_false] at hcount'
      omega
  · intro hsocket
    rw [hsocket, if_pos rfl, Int.sub_add_cancel] at hcount
    exact ⟨hcount.symm, fun w hmem hparked hzero =>
      (hd.told w hmem hparked hzero).setTask htask id⟩

/-- A call that makes its `notified()` waits in vain if and only if it has missed the
notification. -/
theorem Drains.register_iff (hd : d.Drains) {waiter : Waiter}
    (hwaiter : d.waiters[c]? = some waiter) :
    (d.setWaiter c { waiter with stage := .parked false }).Drains ↔
      (waiter.sawZero = true → d.Notifies) := by
  constructor
  · exact fun h hzero => h.told _ (mem_set_self hwaiter) rfl hzero
  · exact fun h => hd.setWaiter fun _ hzero => h hzero

-- ---------------------------------------------------------------------------
-- Runs
-- ---------------------------------------------------------------------------

theorem apart_set {next : SocketTask} (ha : d.Apart)
    (hnext : next.live = true → next.notifying = false) : ∀ t ∈ d.tasks.set i next,
      t.live = true → t.notifying = false := by
  intro t hmem hlive
  rcases List.mem_or_eq_of_mem_set hmem with hmem | rfl
  · exact ha t hmem hlive
  · exact hnext hlive

theorem Apart.step (ha : d.Apart) (h : d.step options e = some d') : d'.Apart := by
  cases goes h with
  | start socket hlive =>
    intro t hmem hlive'
    rcases List.mem_append.mp hmem with hmem | hmem
    · exact ha t hmem hlive'
    · rw [List.mem_singleton.mp hmem]
  | input task socket htask hlive hsocket =>
    exact apart_set ha fun _ => ha task (List.mem_of_getElem? htask) hlive
  | fetchSub task socket htask hlive hsocket =>
    refine apart_set ha fun hlive' => ?_
    rw [SocketTask.live, hsocket] at hlive'
    cases hlive'
  | notifyWaiters task htask => exact apart_set ha fun _ => rfl
  | wait => exact ha
  | register waiter hwaiter => exact ha
  | returns waiter timedOut he => exact ha

theorem Drains.step_iff (hd : d.Drains) (ha : d.Apart) (h : d.step options e = some d') :
    d'.Drains ↔ d.Orderly options e := by
  cases goes h with
  | start socket hlive => exact iff_of_true (hd.started hlive) trivial
  | input task socket htask hlive hsocket => exact (hd.input_iff htask hlive).trans hsocket
  | fetchSub task socket htask hlive hsocket =>
    exact iff_of_true (hd.fetchSub ha htask hlive hsocket) trivial
  | notifyWaiters task htask => exact iff_of_true (hd.notified htask) trivial
  | wait =>
    refine iff_of_true (hd.waits ?_) trivial
    split <;> simp
  | register waiter hwaiter =>
    rw [hd.register_iff hwaiter]
    simp only [Orderly, hwaiter, Option.some.injEq, forall_eq']
  | returns waiter timedOut he =>
    refine iff_of_true (hd.setWaiter (by simp)) ?_
    rcases he with rfl | rfl <;> trivial

theorem drains_new : new.Drains := ⟨rfl, List.forall_mem_nil _⟩

theorem apart_new : new.Apart := List.forall_mem_nil _

/-- The count is right, and no call waits for its timeout after the count was at
zero, in exactly the runs in which no task panics and no call is late with its
`notified()`. -/
theorem drains_iff_orderly (options : WsOptions) (es : List Event) :
    Always (step options) Drains new es ↔ Guarded (step options) (Orderly options) new es :=
  always_iff_guarded (I := Apart) apart_new drains_new (fun _ _ _ ha _ h _ => ha.step h)
    fun _ _ _ ha hd h => hd.step_iff ha h

/-- A connection that is opened and closed by the peer, up to its `on_disconnect`. -/
def served (i : Nat) : List Event :=
  [.input i (.opened 0 0 (.ok ())), .input i (.recv 0 none), .input i (.closed (.ok ()))]

/-- A handler that panics leaves the count at one for good. A call that has looked at
the count before the last connection goes, and makes its `notified()` after, waits for
its timeout. -/
theorem drain_waits_for_timeout :
    ¬ Always (step {}) Drains new [.start, .input 0 (.opened 0 0 (.ok ())),
        .input 0 (.recv 0 (some (.ok (.text "a")))), .input 0 .panic] ∧
    (run (step {}) new (.start :: served 0 ++
        [.wait, .fetchSub 0, .notifyWaiters 0, .register 0, .timeout 0])).map
      (fun d => (d.active, d.waiters)) = some (0, [⟨.returned true, true⟩]) ∧
    ¬ Always (step {}) Drains new (.start :: served 0 ++
        [.wait, .fetchSub 0, .notifyWaiters 0, .register 0]) := by
  decide +kernel

end

end Drain

end Rinfra.Net.Ws

import Rinfra.Sdk.TsClient

/-!
# One connection in TypeScript

The handler of an attempt's error closes the stored socket, whose `close` then
schedules a reconnect, and schedules one itself. Between these two and a `start`
that does not wait for what is left of an earlier one, the client keeps to one
socket and one timer.
-/

namespace Rinfra.Sdk.Ts

open Rinfra.Lib Client

/-- At most one timer and one socket, no timer while connected, and nothing
after a `stop` but another. -/
structure OneConnection (s : Client) : Prop where
  timer : s.timers ≤ 1
  socket : s.live.length ≤ 1
  connected : s.state = .connected → s.timers = 0
  stopped : s.stopped → s.halting = 0 → s.state = .disconnected
  reopened : s.reopened = false

instance : DecidablePred OneConnection := fun s =>
  decidable_of_iff
    (s.timers ≤ 1 ∧ s.live.length ≤ 1 ∧ (s.state = .connected → s.timers = 0) ∧
      (s.stopped → s.halting = 0 → s.state = .disconnected) ∧ s.reopened = false)
    ⟨fun h => ⟨h.1, h.2.1, h.2.2.1, h.2.2.2.1, h.2.2.2.2⟩,
      fun h => ⟨h.timer, h.socket, h.connected, h.stopped, h.reopened⟩⟩

def StoredClosed (s : Client) : Prop := ∃ x, s.socket = some x ∧ x ∉ s.live ∧ x ∉ s.destroyed

instance : DecidablePred StoredClosed := fun s =>
  decidable_of_iff (∃ x ∈ s.socket, x ∉ s.live ∧ x ∉ s.destroyed) Iff.rfl

/-- The client is started once nothing is left of an earlier start and `stop`; an
attempt that gets no ack, or cannot read it, fails once the stored socket is
closed; and one that is acked goes on before a `stop` has resolved. -/
def Careful (s : Client) : Event → Prop
  | .start => ¬ s.running → s.live = [] ∧ s.destroyed = [] ∧ s.timers = 0 ∧ s.halting = 0
  | .ackTimeout _ | .proceed _ .unreadable => StoredClosed s
  | .proceed _ .accepted => ¬ s.stopped
  | _ => True

instance (s : Client) (e : Event) : Decidable (Careful s e) :=
  match e with
  | .start =>
    inferInstanceAs (Decidable
      (¬ s.running → s.live = [] ∧ s.destroyed = [] ∧ s.timers = 0 ∧ s.halting = 0))
  | .ackTimeout _ | .proceed _ .unreadable => inferInstanceAs (Decidable (StoredClosed s))
  | .proceed _ .accepted => inferInstanceAs (Decidable (¬ s.stopped))
  | .stop | .stopped | .listNodes | .reconnectTimer | .connect _ | .error _ | .close _
  | .frame .. | .proceed _ .refused | .nodesTimeout _ => .isTrue trivial

/-- The socket may still emit `close`. -/
def Client.Open (s : Client) (x : Nat) : Prop := x ∈ s.live ∨ x ∈ s.destroyed

/-- A timer is only pending while no socket is open, and a live socket is the
stored one. Who waits for a socket to close has nothing to do afterwards: an
attempt was refused, and a client that is stopped does not run. -/
structure Orderly (s : Client) : Prop extends OneConnection s where
  one : s.live.length + s.destroyed.length ≤ 1
  idle : 0 < s.timers → s.live = [] ∧ s.destroyed = []
  stored : ∀ c ∈ s.live, s.socket = some c
  acked : ∀ a ∈ s.attempts, a.2.isAcked → ∃ x, s.Open x
  closing : ∀ a ∈ s.attempts, ∀ x, a.2 = .closing x → s.Open x → s.authFailed
  stops : ∀ x ∈ s.stops, s.Open x → s.running = false ∧ s.socket = none
  halted : s.stopped → s.running = false ∧ s.socket = none
  halting : 0 < s.halting → s.running = false ∧ s.socket = none
  storedKnown : ∀ x, s.socket = some x → x < s.created
  closingKnown : ∀ a ∈ s.attempts, ∀ x, a.2 = .closing x → x < s.created
  stopsKnown : ∀ x ∈ s.stops, x < s.created

-- ---------------------------------------------------------------------------
-- What messages leave alone
-- ---------------------------------------------------------------------------

/-- Messages, waits and acks are all that changes. -/
structure Kept (s s' : Client) : Prop where
  eq : s' = { s with
    inbox := s'.inbox
    waiters := s'.waiters
    attempts := s'.attempts
    calls := s'.calls
    arrived := s'.arrived
    chunk := s'.chunk
    resolved := s'.resolved }
  attempts : ∀ a ∈ s'.attempts, a ∈ s.attempts ∨ a.2.isAcked

section
variable {s s' s'' : Client} {c x : Nat} {e : Event}

theorem Kept.refl : Kept s s := ⟨rfl, fun _ => .inl⟩

theorem Kept.trans (h : Kept s s') (h' : Kept s' s'') : Kept s s'' := by
  refine ⟨?_, fun a ha => ?_⟩
  · rw [h'.eq, h.eq]
  · rcases h'.attempts a ha with hold | hacked
    · exact h.attempts a hold
    · exact .inr hacked

theorem kept_resolve : Kept s (s.resolve w m) := by
  simp only [Client.resolve]
  split
  · refine ⟨rfl, fun a ha => ?_⟩
    obtain ⟨b, hb, rfl⟩ := List.mem_map.mp ha
    split
    · exact .inr rfl
    · exact .inl hb
  · exact ⟨rfl, fun _ => .inl⟩

theorem kept_waitVariant : Kept s (s.waitVariant w) := by
  unfold Client.waitVariant
  split
  · exact kept_resolve
  · exact ⟨rfl, fun _ => .inl⟩

theorem attempts_waitVariant_call :
    (s.waitVariant ⟨.call k, sent, since⟩).attempts = s.attempts := by
  unfold Client.waitVariant
  split <;> rfl

theorem kept_drainOne (s : Client) (m : Received) : Kept s (s.drainOne m) := by
  unfold Client.drainOne
  split
  · rename_i w _
    have hleft : Kept s { s with waiters := s.waiters.filter (· ≠ w) } := ⟨rfl, fun _ => .inl⟩
    exact hleft.trans kept_resolve
  · exact ⟨rfl, fun _ => .inl⟩

theorem kept_foldl_drainOne (inbox : List Received) (s : Client) :
    Kept s (inbox.foldl drainOne s) := by
  induction inbox generalizing s with
  | nil => exact .refl
  | cons m inbox ih => exact (kept_drainOne s m).trans (ih _)

theorem kept_drainWaiters : Kept s s.drainWaiters := by
  have hinbox : Kept s { s with inbox := [] } := ⟨rfl, fun _ => .inl⟩
  exact hinbox.trans (kept_foldl_drainOne _ _)

theorem kept_handleFrame : Kept s (s.handleFrame c frame) := by
  cases frame with
  | ping | pong => exact .refl
  | scalar => exact kept_drainWaiters
  | object msg =>
    have hput : Kept s { s with
        inbox := s.inbox ++ [⟨s.arrived, c, msg⟩], arrived := s.arrived + 1 } :=
      ⟨rfl, fun _ => .inl⟩
    exact hput.trans kept_drainWaiters

/-- An ack is only taken up where a socket is open. -/
theorem Orderly.of_kept (h : Orderly s) (hk : Kept s s')
    (hacked : ∀ a ∈ s'.attempts, a.2.isAcked → ∃ x, s.Open x) : Orderly s' := by
  have hclosing : ∀ a ∈ s'.attempts, ∀ x, a.2 = .closing x → a ∈ s.attempts := by
    intro a ha x hx
    refine (hk.attempts a ha).resolve_right fun hacked => ?_
    rw [hx] at hacked
    cases hacked
  rw [hk.eq]
  exact { h with
    acked := hacked
    closing := fun a ha x hx => h.closing a (hclosing a ha x hx) x hx
    closingKnown := fun a ha x hx => h.closingKnown a (hclosing a ha x hx) x hx }

-- ---------------------------------------------------------------------------
-- Connections
-- ---------------------------------------------------------------------------

theorem mem_without {l : List Nat} : c ∈ without x l ↔ c ∈ l ∧ c ≠ x := by simp [without]

theorem Orderly.timers_eq_zero (h : Orderly s) (hopen : s.Open x) : s.timers = 0 := by
  rcases Nat.eq_zero_or_pos s.timers with hzero | hpos
  · exact hzero
  · obtain ⟨hlive, hdestroyed⟩ := h.idle hpos
    rw [Client.Open, hlive, hdestroyed] at hopen
    exact hopen.elim nofun nofun

/-- All that is open is one socket. -/
theorem Orderly.eq_of_open (h : Orderly s) (hx : s.Open x) (hc : s.Open c) : c = x := by
  have hlen : (s.live ++ s.destroyed).length ≤ 1 := by simpa using h.one
  rw [Client.Open, ← List.mem_append] at hx hc
  obtain ⟨y, hy⟩ := List.length_eq_one_iff.mp
    (Nat.le_antisymm hlen (List.length_pos_of_mem hx))
  rw [hy, List.mem_singleton] at hx hc
  rw [hx, hc]

theorem not_open (hlive : s.live = []) (hdestroyed : s.destroyed = []) : ¬ s.Open x := by
  rw [Client.Open, hlive, hdestroyed]
  exact fun h => h.elim nofun nofun

theorem Orderly.fewer (h : Orderly s) {left : List (Nat × Phase)}
    (hsub : ∀ a ∈ left, a ∈ s.attempts) : Orderly { s with attempts := left } :=
  { h with
    acked := fun a ha => h.acked a (hsub a ha)
    closing := fun a ha => h.closing a (hsub a ha)
    closingKnown := fun a ha => h.closingKnown a (hsub a ha) }

theorem Orderly.leave (h : Orderly s) : Orderly (s.leave c) :=
  h.fewer fun _ ha => (List.mem_filter.mp ha).1

theorem Orderly.setPhase (h : Orderly s) (hacked : phase.isAcked = false)
    (hclosing : ∀ x, phase = .closing x → (s.Open x → s.authFailed) ∧ x < s.created) :
    Orderly (s.setPhase c phase) := by
  have hphase : ∀ a ∈ (s.setPhase c phase).attempts, a ∈ s.attempts ∨ a.2 = phase := by
    intro a ha
    obtain ⟨b, hb, rfl⟩ := List.mem_map.mp ha
    split
    · exact .inr rfl
    · exact .inl hb
  exact { h with
    acked := fun a ha ha' => by
      rcases hphase a ha with hold | hnew
      · exact h.acked a hold ha'
      · rw [hnew, hacked] at ha'
        cases ha'
    closing := fun a ha x hx => by
      rcases hphase a ha with hold | hnew
      · exact h.closing a hold x hx
      · exact (hclosing x (hnew.symm.trans hx)).1
    closingKnown := fun a ha x hx => by
      rcases hphase a ha with hold | hnew
      · exact h.closingKnown a hold x hx
      · exact (hclosing x (hnew.symm.trans hx)).2 }

theorem Orderly.connectAndRegister (h : Orderly s) (hlive : s.live = [])
    (hdestroyed : s.destroyed = []) (hzero : s.timers = 0) :
    Orderly (s.connectAndRegister initial) := by
  unfold Client.connectAndRegister
  split
  · exact h
  · rename_i hgoes
    have hstopped : s.stopped = false := by
      refine Bool.eq_false_iff.mpr fun hstopped => hgoes (.inl ?_)
      rw [(h.halted hstopped).1]
      exact Bool.false_ne_true
    have hstate : (if initial then ConnectionState.connecting else .reconnecting) ≠ .connected := by
      cases initial <;> exact nofun
    -- the new socket is open, and nobody waits for it to close
    have hopen : ∀ x, (x ∈ s.created :: s.live ∨ x ∈ s.destroyed) → x = s.created := by
      rw [hlive, hdestroyed]
      rintro x (hx | hx)
      · exact List.mem_singleton.mp hx
      · cases hx
    exact {
      timer := h.timer
      socket := by simp [hlive]
      connected := fun hconn => absurd hconn hstate
      stopped := fun hstop => by rw [hstopped] at hstop; cases hstop
      reopened := by simp [h.reopened, hstopped]
      one := by simp [hlive, hdestroyed]
      idle := fun hpos => absurd hzero (Nat.ne_of_gt hpos)
      stored := fun c hc => congrArg some (hopen c (.inl hc)).symm
      acked := fun _ _ _ => ⟨s.created, .inl List.mem_cons_self⟩
      closing := fun a ha x hx hx' => by
        obtain rfl := hopen x hx'
        rcases List.mem_cons.mp ha with rfl | ha
        · cases hx
        · exact absurd (h.closingKnown a ha _ hx) (Nat.lt_irrefl _)
      stops := fun x hx hx' => by
        obtain rfl := hopen x hx'
        exact absurd (h.stopsKnown _ hx) (Nat.lt_irrefl _)
      halted := fun hstop => by rw [hstopped] at hstop; cases hstop
      halting := fun hpos => absurd (.inl (by simp [(h.halting hpos).1])) hgoes
      storedKnown := fun x hx => by
        cases hx
        exact Nat.lt_succ_self s.created
      closingKnown := fun a ha x hx => by
        rcases List.mem_cons.mp ha with rfl | ha
        · cases hx
        · exact Nat.lt_succ_of_lt (h.closingKnown a ha x hx)
      stopsKnown := fun x hx => Nat.lt_succ_of_lt (h.stopsKnown x hx) }

theorem open_destroy : (s.destroy x).Open c ↔ s.Open c := by
  unfold Client.destroy Client.Open
  split
  · rename_i hx
    simp only [mem_without, List.mem_cons]
    constructor
    · rintro (hc | rfl | hc)
      · exact .inl hc.1
      · exact .inl hx
      · exact .inr hc
    · rintro (hc | hc)
      · by_cases hcx : c = x
        · exact .inr (.inl hcx)
        · exact .inl ⟨hc, hcx⟩
      · exact .inr (.inr hc)
  · exact Iff.rfl

theorem Orderly.destroy (h : Orderly s) : Orderly (s.destroy x) := by
  have hopen : ∀ c, (s.destroy x).Open c → s.Open c := fun _ => open_destroy.mp
  unfold Client.destroy at hopen ⊢
  split at hopen
  · rename_i hx
    rw [if_pos hx]
    have honly : ∀ c ∈ s.live, c = x := fun c hc => h.eq_of_open (.inl hx) (.inl hc)
    have hlive : without x s.live = [] :=
      List.filter_eq_nil_iff.mpr fun c hc => by simp [honly c hc]
    have hdestroyed : s.destroyed = [] := by
      have hpos := List.length_pos_of_mem hx
      have hone := h.one
      exact List.eq_nil_of_length_eq_zero (by omega)
    exact { h with
      socket := by simp [hlive]
      one := by simp [hlive, hdestroyed]
      idle := fun hpos => absurd (h.timers_eq_zero (.inl hx)) (Nat.ne_of_gt hpos)
      stored := fun c hc => absurd (hlive ▸ hc) List.not_mem_nil
      acked := fun _ _ _ => ⟨x, .inr List.mem_cons_self⟩
      closing := fun a ha y hy hy' => h.closing a ha y hy (hopen y hy')
      stops := fun y hy hy' => h.stops y hy (hopen y hy') }
  · rename_i hx
    rwa [if_neg hx]

theorem Orderly.release (h : Orderly s) (hx : s.socket = some x) :
    Orderly { s.destroy x with socket := none } ∧ (s.destroy x).live = [] := by
  have hlive : (s.destroy x).live = [] := by
    have honly : ∀ c ∈ s.live, c = x := fun c hc => Option.some.inj ((h.stored c hc).symm.trans hx)
    unfold Client.destroy
    split
    · exact List.filter_eq_nil_iff.mpr fun c hc => by simp [honly c hc]
    · rename_i hnot
      refine List.eq_nil_iff_forall_not_mem.mpr fun c hc => hnot ?_
      exact honly c hc ▸ hc
  have hd := h.destroy (x := x)
  refine ⟨{ hd with
    stored := fun c hc => absurd (hlive ▸ hc) List.not_mem_nil
    stops := fun y hy hy' => ⟨(hd.stops y hy hy').1, rfl⟩
    halted := fun hstop => ⟨(hd.halted hstop).1, rfl⟩
    halting := fun hpos => ⟨(hd.halting hpos).1, rfl⟩
    storedKnown := nofun }, hlive⟩

theorem Orderly.scheduleReconnect (h : Orderly s) (hlive : s.live = [])
    (hdestroyed : s.destroyed = []) (hzero : s.timers = 0) (hrunning : s.running) :
    Orderly s.scheduleReconnect := by
  have hstopped : s.stopped → False := fun hstopped => by
    rw [(h.halted hstopped).1] at hrunning
    cases hrunning
  exact { h with
    timer := by simp [Client.scheduleReconnect, hzero]
    connected := nofun
    stopped := fun hstop => (hstopped hstop).elim
    idle := fun _ => ⟨hlive, hdestroyed⟩ }

theorem Orderly.start (h : Orderly s) (hcareful : Careful s .start) : Orderly s.start := by
  unfold Client.start
  split
  · exact h
  · rename_i hstopped
    obtain ⟨hlive, hdestroyed, hzero, hnone⟩ := hcareful hstopped
    have hstarted : Orderly { s with running := true, authFailed := false, stopped := false } :=
      { h with
        stopped := nofun
        closing := fun a ha x hx hx' => absurd hx' (not_open hlive hdestroyed)
        stops := fun x hx hx' => absurd hx' (not_open hlive hdestroyed)
        halted := nofun
        halting := fun hpos => absurd hnone (Nat.ne_of_gt hpos) }
    exact hstarted.connectAndRegister hlive hdestroyed hzero

theorem Orderly.stop (h : Orderly s) : Orderly s.stop := by
  unfold Client.stop
  split
  · rename_i hnone
    exact { h with
      connected := nofun
      stopped := fun _ hzero => absurd hzero (Nat.succ_ne_zero s.halting)
      stops := fun x hx hx' => ⟨rfl, (h.stops x hx hx').2⟩
      halted := fun _ => ⟨rfl, hnone⟩
      halting := fun _ => ⟨rfl, hnone⟩ }
  · rename_i x hx
    have hstopped : s.stopped → False := fun hstopped => by
      rw [(h.halted hstopped).2] at hx
      cases hx
    have heq : Client.destroy x
        { s with running := false, state := .stopping, socket := none, stops := x :: s.stops } =
        { s.destroy x with
          running := false, state := .stopping, socket := none, stops := x :: s.stops } := by
      unfold Client.destroy
      split <;> rfl
    have hcreated : (s.destroy x).created = s.created ∧ (s.destroy x).stopped = s.stopped ∧
        (s.destroy x).stops = s.stops := by
      unfold Client.destroy
      split <;> exact ⟨rfl, rfl, rfl⟩
    obtain ⟨hrelease, -⟩ := h.release hx
    rw [heq]
    exact { hrelease with
      connected := nofun
      stopped := fun hstop => (hstopped (hcreated.2.1 ▸ hstop)).elim
      stops := fun _ _ _ => ⟨rfl, rfl⟩
      halted := fun _ => ⟨rfl, rfl⟩
      halting := fun _ => ⟨rfl, rfl⟩
      stopsKnown := fun y hy => by
        rcases List.mem_cons.mp hy with rfl | hy
        · exact hcreated.1 ▸ h.storedKnown y hx
        · exact hcreated.1 ▸ h.stopsKnown y hy }

/-- An attempt fails after a refusal, or when the stored socket is closed. -/
theorem Orderly.fail (h : Orderly s) (hcause : s.authFailed ∨ StoredClosed s) :
    Orderly (s.fail c) := by
  unfold Client.fail
  split
  · rename_i hnone
    have hfailed : s.authFailed := by
      refine hcause.resolve_right ?_
      rintro ⟨x, hx, -⟩
      rw [hnone] at hx
      cases hx
    rw [Client.giveUp, if_pos hfailed]
    exact h.leave
  · rename_i x hx
    have heq : Client.destroy x { s with socket := none } =
        { s.destroy x with socket := none } := by
      unfold Client.destroy
      split <;> rfl
    have hsame : (s.destroy x).authFailed = s.authFailed ∧ (s.destroy x).created = s.created := by
      unfold Client.destroy
      split <;> exact ⟨rfl, rfl⟩
    rw [heq]
    refine (h.release hx).1.setPhase rfl fun y hy => ?_
    cases hy
    refine ⟨fun hopen => ?_, hsame.2 ▸ h.storedKnown x hx⟩
    refine hsame.1 ▸ hcause.resolve_right ?_
    rintro ⟨y, hy, hlive, hdestroyed⟩
    obtain rfl := Option.some.inj (hy.symm.trans hx)
    exact (open_destroy.mp hopen).elim hlive hdestroyed

theorem Orderly.proceed (h : Orderly s) (hacked : (c, Phase.acked body) ∈ s.attempts)
    (hcareful : Careful s (.proceed c body)) : Orderly (s.proceed c body) := by
  cases body with
  | accepted =>
    obtain ⟨x, hx⟩ := h.acked _ hacked rfl
    exact { h.leave with
      connected := fun _ => h.timers_eq_zero hx
      stopped := fun hstop => absurd hstop hcareful }
  | refused =>
    exact Orderly.fail (s := { s with authFailed := true })
      { h with closing := fun _ _ _ _ _ => rfl } (.inl rfl)
  | unreadable => exact h.fail (.inr hcareful)

theorem Orderly.register (h : Orderly s) (hc : c ∈ s.live) : Orderly (s.register c) := by
  have hstored := h.stored c hc
  have hstopped : s.stopped = false := by
    refine Bool.eq_false_iff.mpr fun hstopped => ?_
    rw [(h.halted hstopped).2] at hstored
    cases hstored
  have hregistering : Orderly
      { s with state := .registering, chunk := none, reopened := s.reopened || s.stopped } :=
    { h with
      connected := nofun
      stopped := fun hstop => by rw [hstopped] at hstop; cases hstop
      reopened := by simp [h.reopened, hstopped] }
  have hawaiting : Orderly (Client.setPhase c .awaiting
      { s with state := .registering, chunk := none, reopened := s.reopened || s.stopped }) :=
    hregistering.setPhase rfl nofun
  exact hawaiting.of_kept kept_waitVariant fun _ _ _ => ⟨c, .inl hc⟩

-- ---------------------------------------------------------------------------
-- `close`
-- ---------------------------------------------------------------------------

theorem foldl_giveUp (waiting : List (Nat × Phase)) (s : Client)
    (hfailed : waiting ≠ [] → s.authFailed) :
    ∃ attempts, waiting.foldl (fun s a => s.giveUp a.1) s = { s with attempts } ∧
      ∀ a ∈ attempts, a ∈ s.attempts := by
  induction waiting generalizing s with
  | nil => exact ⟨s.attempts, rfl, fun _ => id⟩
  | cons a waiting ih =>
    have hfailed := hfailed (List.cons_ne_nil a waiting)
    obtain ⟨attempts, heq, hsub⟩ := ih (s.leave a.1) fun _ => hfailed
    refine ⟨attempts, ?_, fun b hb => (List.mem_filter.mp (hsub b hb)).1⟩
    rw [List.foldl_cons, Client.giveUp, if_pos hfailed, heq]
    rfl

theorem Orderly.shut (h : Orderly s) (hx : s.Open x) (hquiet : s.Quiet) :
    Orderly { s with live := without x s.live, destroyed := without x s.destroyed } ∧
      without x s.live = [] ∧ without x s.destroyed = [] := by
  have hlive : without x s.live = [] := List.filter_eq_nil_iff.mpr fun c hc => by
    simp [h.eq_of_open hx (.inl hc)]
  have hdestroyed : without x s.destroyed = [] := List.filter_eq_nil_iff.mpr fun c hc => by
    simp [h.eq_of_open hx (.inr hc)]
  have hsub : ∀ c, (c ∈ without x s.live ∨ c ∈ without x s.destroyed) → s.Open c :=
    fun c hc => hc.imp (fun hc => (mem_without.mp hc).1) fun hc => (mem_without.mp hc).1
  refine ⟨{ h with
    socket := by simp [hlive]
    one := by simp [hlive, hdestroyed]
    idle := fun _ => ⟨hlive, hdestroyed⟩
    stored := fun c hc => h.stored c (mem_without.mp hc).1
    acked := fun a ha hacked => ?_
    closing := fun a ha y hy hy' => h.closing a ha y hy (hsub y hy')
    stops := fun y hy hy' => h.stops y hy (hsub y hy') }, hlive, hdestroyed⟩
  rw [hquiet.1 a ha] at hacked
  cases hacked

theorem Orderly.stopsResolve (h : Orderly s)
    (hstop : x ∈ s.stops → s.running = false ∧ s.socket = none) :
    Orderly (s.stopsResolve x) := by
  unfold Client.stopsResolve
  split
  · rename_i hx
    exact { h with
      connected := nofun
      stopped := fun _ _ => rfl
      stops := fun y hy => h.stops y (mem_without.mp hy).1
      halted := fun _ => hstop hx
      stopsKnown := fun y hy => h.stopsKnown y (mem_without.mp hy).1 }
  · exact h

theorem Orderly.close (h : Orderly s) (hx : s.Open x) (hquiet : s.Quiet) :
    Orderly (s.closed x) := by
  obtain ⟨hshut, hlive, hdestroyed⟩ := h.shut hx hquiet
  have hzero := h.timers_eq_zero hx
  have hfailed : (s.attempts.filter fun a => a.2 = .closing x) ≠ [] → s.authFailed := by
    intro hne
    obtain ⟨a, ha⟩ := List.exists_mem_of_ne_nil _ hne
    obtain ⟨ha, hax⟩ := List.mem_filter.mp ha
    exact h.closing a ha x (of_decide_eq_true hax) hx
  simp only [Client.closed, Client.handleClose]
  split
  · rename_i hgoes
    have hscheduled := hshut.scheduleReconnect hlive hdestroyed hzero hgoes.1
    obtain ⟨left, heq, hsub⟩ := foldl_giveUp (s.attempts.filter fun a => a.2 = .closing x)
      (Client.scheduleReconnect
        { s with live := without x s.live, destroyed := without x s.destroyed })
      fun hne => absurd (hfailed hne) hgoes.2.1
    rw [heq]
    refine (hscheduled.fewer hsub).stopsResolve fun hstop => ?_
    exact absurd hgoes.1 (by simp [(h.stops x hstop hx).1])
  · obtain ⟨left, heq, hsub⟩ := foldl_giveUp (s.attempts.filter fun a => a.2 = .closing x)
      { s with live := without x s.live, destroyed := without x s.destroyed } hfailed
    rw [heq]
    exact (hshut.fewer hsub).stopsResolve fun hstop => h.stops x hstop hx

theorem Orderly.error (h : Orderly s) : Orderly (s.errored c) := by
  unfold Client.errored
  split
  · exact h.destroy.leave
  · exact h.destroy

theorem Orderly.after (h : Orderly s) (hen : Enabled s e) (hcareful : Careful s e) :
    Orderly (after s e) := by
  cases e with
  | start => exact h.start hcareful
  | stop => exact h.stop
  | stopped =>
    exact { h with
      connected := nofun
      stopped := fun _ _ => rfl
      halted := fun _ => h.halting hen
      halting := fun hpos => h.halting (Nat.lt_of_lt_of_le hpos (Nat.sub_le _ 1)) }
  | listNodes =>
    have hcalled : Orderly { s with calls := s.calls + 1 } := { h with }
    have hsame : (Ts.after s .listNodes).attempts = s.attempts := attempts_waitVariant_call
    exact hcalled.of_kept kept_waitVariant fun a ha => h.acked a (hsame ▸ ha)
  | reconnectTimer =>
    obtain ⟨hlive, hdestroyed⟩ := h.idle hen.1
    have hle := h.timer
    have hzero : s.timers - 1 = 0 := by omega
    have hfired : Orderly { s with timers := s.timers - 1 } := { h with
      timer := by simp [hzero]
      connected := fun _ => hzero
      idle := fun _ => ⟨hlive, hdestroyed⟩ }
    exact hfired.connectAndRegister hlive hdestroyed hzero
  | connect c => exact h.register hen.1
  | error c => exact h.error
  | close c => exact h.close hen.1 hen.2
  | frame c frame =>
    exact Orderly.of_kept (s := { s with chunk := some c }) { h with } kept_handleFrame
      fun _ _ _ => ⟨c, .inl hen.1⟩
  | proceed c body => exact h.proceed hen hcareful
  | ackTimeout c =>
    exact Orderly.fail (s := { s with waiters := s.waiters.filter fun w => w.owner ≠ .attempt c })
      { h with } (.inr hcareful)
  | nodesTimeout k => exact { h with }

end

/-- A client whose events are all careful keeps to one connection in every state
of every run. -/
theorem one_connection (es : List Event) (h : Guarded step Careful Client.init es) :
    Always step OneConnection Client.init es := by
  have hinit : Orderly Client.init := {
    timer := Nat.zero_le 1
    socket := Nat.zero_le 1
    connected := nofun
    stopped := nofun
    reopened := rfl
    one := Nat.zero_le 1
    idle := nofun
    stored := nofun
    acked := nofun
    closing := nofun
    stops := nofun
    halted := nofun
    halting := nofun
    storedKnown := nofun
    closingKnown := nofun
    stopsKnown := nofun }
  refine (h.invariant hinit fun s e s' hs he hstep => ?_).mono fun s hs => hs.toOneConnection
  obtain ⟨hen, rfl⟩ := actions_eq_some.mp hstep
  exact hs.after hen he

/-- Registered, connected once more after the socket has closed, and stopped
twice. -/
def reconnected : List Event :=
  let ack : Frame := .object ⟨some .accepted, false⟩
  [.start, .connect 0, .frame 0 ack, .proceed 0 .accepted, .close 0, .reconnectTimer, .connect 1,
    .frame 1 ack, .proceed 1 .accepted, .stop, .close 1, .stop, .stopped]

theorem one_connection_reconnected :
    (run step Client.init reconnected).isSome ∧ Always step OneConnection Client.init reconnected :=
  ⟨by decide +kernel, one_connection reconnected (by decide +kernel)⟩

/-- A wait that times out closes the socket: its `close` schedules a reconnect,
and so does the attempt. -/
theorem two_timers_pending :
    let events := [.start, .connect 0, .ackTimeout 0, .close 0]
    (run step Client.init events).isSome ∧ ¬ Always step OneConnection Client.init events := by
  decide +kernel

end Rinfra.Sdk.Ts

import Rinfra.Trpc.Correlation

/-!
# Asks after the connection is lost

`read_loop` drains the pending map once, at its end. An ask that parks its
sender later is drained by nobody: its only way out is to have its frame
refused. So no ask is stranded exactly as long as the channel is closed to every
ask that is parked after the drain.
-/

namespace Rinfra.Trpc

open Rinfra.Lib

namespace Client

/-- `read_loop` is over, an ask waits for its reply, and its sender is in the
pending map. -/
def Orphaned (s : Client) (a : Nat) : Prop :=
  s.reader = .done ∧ ∃ ask, s.asks a = some ask ∧ ask.stage = .waiting ∧
    s.pending[ask.id]? = some a

/-- With `read_loop` over, every ask that waits has something to return, and
what an ask returns is an error unless a frame answered it. -/
structure Settled (s : Client) : Prop where
  orphan : ∀ a, ¬ s.Orphaned a
  waiting : s.reader = .done → ∀ a ask, s.asks a = some ask → ask.stage = .waiting →
    ∃ reply, ask.slot.awaited = some reply
  error : ∀ a ask payload, s.asks a = some ask →
    ask.stage = .done (.ok payload) ∨ ask.stage = .waiting ∧ ask.slot.awaited = some (.ok payload) →
    ∃ k, (a, k) ∈ s.answers

/-- After the drain, the channel takes no frame of an ask whose sender is
parked. -/
def Refuses (s : Client) (e : Event) : Prop :=
  ∀ a, e = .send a → s.reader = .done → s.writer ≠ .stopped →
    ∀ ask, s.asks a = some ask → s.pending[ask.id]? ≠ some a

section
variable {s s' : Client}

theorem Inv.settled (hi : Inv s) (ho : ∀ a, ¬ s.Orphaned a) : Settled s := by
  refine ⟨ho, fun hr a ask hask hst => ?_, fun a ask payload hask h => ?_⟩
  · cases hslot : ask.slot with
    | empty =>
      have hp := hi.pending_of_empty hask (by simp [hst]) (by simp [hst]) hslot
      exact absurd ⟨hr, ask, hask, hst, hp⟩ (ho a)
    | sent reply => exact ⟨reply, rfl⟩
    | closed => exact ⟨_, rfl⟩
  · have haw : ask.slot.awaited = some (.ok payload) := by
      rcases h with hd | ⟨-, haw⟩
      · simpa using (hi.asks a ask hask).done _ hd
      · exact haw
    cases hslot : ask.slot with
    | empty => simp [hslot, Slot.awaited] at haw
    | sent reply =>
      simp only [hslot, Slot.awaited, Option.some.injEq] at haw
      simpa [haw] using (hi.asks a ask hask).sent reply hslot
    | closed => simp [hslot, Slot.awaited] at haw

theorem removePending_reader (s : Client) (id : Nat) : (s.removePending id).reader = s.reader := by
  unfold Client.removePending
  split <;> rfl

theorem not_orphaned_setAsk (ho : ∀ b, ¬ s.Orphaned b) (hst : ask.stage ≠ .waiting) :
    ∀ b, ¬ (s.setAsk a ask).Orphaned b := by
  rintro b ⟨hr, ask', hask', hw, hp⟩
  by_cases hb : b = a
  · subst hb
    obtain rfl := Option.some.inj (setAsk_same.symm.trans hask')
    exact hst hw
  · exact ho b ⟨hr, ask', (setAsk_of_ne hb).symm.trans hask', hw, hp⟩

theorem not_orphaned_removePending (ho : ∀ b, ¬ s.Orphaned b) (id : Nat) :
    ∀ b, ¬ (s.removePending id).Orphaned b := by
  rintro b ⟨hr, ask', hask', hw, hp⟩
  rw [removePending_reader] at hr
  rw [removePending_pending] at hp
  split at hp
  · cases hp
  · cases hask : s.asks b with
    | none => simp [(KeepsAsks.removePending s id b).1 hask] at hask'
    | some ask =>
      obtain rfl := Option.some.inj ((removePending_asks hask id).symm.trans hask')
      exact ho b ⟨hr, ask, hask, hw, hp⟩

theorem not_orphaned_park (ho : ∀ b, ¬ s.Orphaned b) (id a : Nat) (hst : ask.stage ≠ .waiting) :
    ∀ b, ¬ ((s.insertPending id a).setAsk a ask).Orphaned b := by
  rintro b ⟨hr, ask', hask', hw, hp⟩
  by_cases hb : b = a
  · subst hb
    obtain rfl := Option.some.inj (setAsk_same.symm.trans hask')
    exact hst hw
  · refine not_orphaned_removePending ho id b ⟨hr, ask', (setAsk_of_ne hb).symm.trans hask', hw, ?_⟩
    have hp : ((s.removePending id).pending.insert id a)[ask'.id]? = some b := hp
    rw [Std.ExtTreeMap.getElem?_insert] at hp
    split at hp
    · exact absurd (Option.some.inj hp).symm hb
    · exact hp

/-- The one step that can orphan an ask is the acceptance of its frame. -/
theorem not_orphaned_iff (h : s.step e = some s') (ho : ∀ a, ¬ s.Orphaned a) :
    (∀ a, ¬ s'.Orphaned a) ↔ Refuses s e := by
  cases moves h with
  | ask =>
    refine iff_of_true ?_ (by rintro a ⟨⟩)
    exact not_orphaned_setAsk (s := s) (a := s.issued) ho (by simp)
  | @park a ask hask hst =>
    refine iff_of_true ?_ (by rintro a ⟨⟩)
    exact not_orphaned_park ho ask.id a (by simp)
  | @refused a ask hask hst hw =>
    apply iff_of_true (not_orphaned_setAsk ho (by simp))
    rintro _ ⟨⟩ _ hw'
    exact absurd hw hw'
  | @accepted a ask hask hst hw hroom =>
    constructor
    · rintro ho' _ ⟨⟩ hr - ask' hask' hp
      obtain rfl := Option.some.inj (hask.symm.trans hask')
      exact ho' a ⟨hr, _, setAsk_same, rfl, hp⟩
    · rintro hrefuse b ⟨hr, ask', hask', hw', hp⟩
      by_cases hb : b = a
      · subst hb
        obtain rfl := Option.some.inj (setAsk_same.symm.trans hask')
        exact hrefuse b rfl hr hw ask hask hp
      · exact ho b ⟨hr, ask', (setAsk_of_ne hb).symm.trans hask', hw', hp⟩
  | @unpark a ask ask' hask hst hask' =>
    refine iff_of_true ?_ (by rintro a ⟨⟩)
    exact not_orphaned_setAsk (not_orphaned_removePending ho ask.id) (by simp)
  | complete | drop => exact iff_of_true (not_orphaned_setAsk ho (by simp)) (by rintro a ⟨⟩)
  | tellRefused | tell | recv | wrote | writeError => exact iff_of_true ho (by rintro a ⟨⟩)
  | frame | handle | hangUp =>
    refine iff_of_true ?_ (by rintro a ⟨⟩)
    rintro a ⟨⟨⟩, -⟩
  | drain =>
    refine iff_of_true ?_ (by rintro a ⟨⟩)
    rintro a ⟨-, ask, -, -, hp⟩
    simp [Client.drainPending] at hp

end

/-- In every run, no ask is stranded once the pending map has been drained, and
whatever an ask returns without an answer is an error, exactly when no ask whose
sender is parked after the drain gets its frame accepted. -/
theorem settled_iff_refuses (es : List Event) :
    Always step Settled init es ↔ Guarded step Refuses init es := by
  refine always_iff_guarded (I := Inv) inv_init (inv_init.settled ?_)
    (fun _ _ _ hi _ h _ => hi.step h) fun s e s' hi hp h => ?_
  · rintro a ⟨⟨⟩, -⟩
  · rw [← not_orphaned_iff h hp.orphan]
    exact ⟨fun hs => hs.orphan, (hi.step h).settled⟩

/-- The server hangs up, `read_loop` drains the map and ends, and then an ask is
made: the socket still takes its frame. -/
def askAfterLoss : List Event :=
  [.hangUp, .drain, .ask "svc" [1], .park 0, .send 0, .recv, .wrote]

theorem ask_after_loss_orphaned :
    ∃ s, run step init askAfterLoss = some s ∧ s.Orphaned 0 ∧ s.step (.complete 0) = none := by
  refine ⟨_, rfl, ⟨rfl, _, rfl, rfl, rfl⟩, rfl⟩

end Client

end Rinfra.Trpc

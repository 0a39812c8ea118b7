import Mathlib.Data.Finset.Card
import Rinfra.Trpc.Correlation

/-!
# What is left in the pending map

Entries are put in by `ask` and taken out by `read_loop`, or by `ask` itself when
its frame is refused. A future that is dropped takes nothing out, and so neither
does `ask_timeout`: the entry stays until a frame with its id comes, or the
connection ends. The map is exact in the runs in which no ask is given up while
its sender is parked, and in no others.
-/

namespace Rinfra.Trpc

open Rinfra.Lib

/-- A caller awaits the ask, its sender has been parked, and no reply has been
sent. -/
def Ask.outstanding (ask : Ask) : Bool :=
  match ask.stage, ask.slot with
  | .sending, .empty | .unparking, .empty | .waiting, .empty => true
  | _, _ => false

def Stage.ended : Stage → Bool
  | .done _ | .dropped => true
  | .parking | .sending | .unparking | .waiting => false

namespace Client

def outstanding (s : Client) : Finset Nat :=
  (Finset.range s.issued).filter fun a => (s.asks a).any Ask.outstanding

structure Exact (s : Client) : Prop where
  /-- The ids in the map are those of the asks that are outstanding. -/
  ids : ∀ id : Nat, id ∈ s.pending ↔
    ∃ a ask, s.asks a = some ask ∧ ask.id = id ∧ ask.outstanding = true
  /-- Each with the sender of its ask. -/
  senders : ∀ id a : Nat, s.pending[id]? = some a ↔
    ∃ ask, s.asks a = some ask ∧ ask.id = id ∧ ask.outstanding = true
  /-- An ask that has ended has no entry, however it ended. -/
  ended : ∀ a ask, s.asks a = some ask → ask.stage.ended = true →
    ∀ id : Nat, s.pending[id]? ≠ some a
  size : s.pending.size ≤ s.outstanding.card

/-- No ask is given up while its sender is parked. -/
def ParkedStays (s : Client) (e : Event) : Prop :=
  ∀ a, e = .drop a → ∀ ask, s.asks a = some ask → s.pending[ask.id]? ≠ some a

/-- Every sender in the map is that of an ask that has not ended. -/
def Held (s : Client) : Prop :=
  ∀ (id a : Nat) (ask : Ask), s.pending[id]? = some a → s.asks a = some ask →
    ask.stage.ended = false

section
variable {s s' : Client}

theorem outstanding_eq_true {ask : Ask} : ask.outstanding = true ↔
    ask.slot = .empty ∧ ask.stage ≠ .parking ∧ ask.stage.ended = false := by
  obtain ⟨id, service, payload, slot, stage⟩ := ask
  cases stage <;> cases slot <;> simp [Ask.outstanding, Stage.ended]

theorem mem_outstanding : a ∈ s.outstanding ↔
    a < s.issued ∧ ∃ ask, s.asks a = some ask ∧ ask.outstanding = true := by
  simp [outstanding, Option.any_eq_true]

theorem Inv.pending_iff (hi : Inv s) (hh : Held s) (id a : Nat) : s.pending[id]? = some a ↔
    ∃ ask, s.asks a = some ask ∧ ask.id = id ∧ ask.outstanding = true := by
  constructor
  · intro hp
    obtain ⟨ask, hask, hid, hslot, hst⟩ := hi.parked id a hp
    exact ⟨ask, hask, hid, outstanding_eq_true.mpr ⟨hslot, hst, hh id a ask hp hask⟩⟩
  · rintro ⟨ask, hask, rfl, ho⟩
    obtain ⟨hslot, hst, hended⟩ := outstanding_eq_true.mp ho
    refine hi.pending_of_empty hask hst (fun hd => ?_) hslot
    simp [hd, Stage.ended] at hended

/-- Different entries belong to different asks. -/
theorem size_le_outstanding (hi : Inv s) (hh : Held s) : s.pending.size ≤ s.outstanding.card := by
  have hsub : s.pending.keys.toFinset ⊆
      s.outstanding.image fun a => ((s.asks a).map Ask.id).getD 0 := by
    intro id hid
    have hmem : id ∈ s.pending := Std.ExtTreeMap.mem_keys.mp (List.mem_toFinset.mp hid)
    obtain ⟨a, hp⟩ := Option.isSome_iff_exists.mp (Std.ExtTreeMap.isSome_getElem?_iff_mem.mpr hmem)
    obtain ⟨ask, hask, hid, ho⟩ := (hi.pending_iff hh id a).mp hp
    refine Finset.mem_image.mpr ⟨a, mem_outstanding.mpr ⟨?_, ask, hask, ho⟩, by simp [hask, hid]⟩
    by_contra hlt
    rw [hi.fresh a (Nat.le_of_not_lt hlt)] at hask
    cases hask
  calc s.pending.size = s.pending.keys.length := Std.ExtTreeMap.length_keys.symm
    _ = s.pending.keys.toFinset.card :=
        (List.toFinset_card_of_nodup Std.ExtTreeMap.nodup_keys).symm
    _ ≤ _ := Finset.card_le_card hsub
    _ ≤ s.outstanding.card := Finset.card_image_le

theorem Inv.exact (hi : Inv s) (hh : Held s) : Exact s := by
  refine ⟨fun id => ?_, hi.pending_iff hh, fun a ask hask hended id hp => ?_,
    size_le_outstanding hi hh⟩
  · rw [← Std.ExtTreeMap.isSome_getElem?_iff_mem, Option.isSome_iff_exists]
    exact exists_congr fun a => hi.pending_iff hh id a
  · rw [hh id a ask hp hask] at hended
    cases hended

theorem Exact.held (hx : Exact s) : Held s := by
  intro id a ask hp hask
  rw [← Bool.not_eq_true]
  exact fun hended => hx.ended a ask hask hended id hp

-- ---------------------------------------------------------------------------
-- Which step leaves an entry behind
-- ---------------------------------------------------------------------------

theorem Held.mono (hh : Held s) (hpending : ∀ id a : Nat, s'.pending[id]? = some a →
      s.pending[id]? = some a)
    (hstages : ∀ (id a : Nat) (ask' : Ask), s'.pending[id]? = some a → s'.asks a = some ask' →
      ask'.stage.ended = true → ∃ ask, s.asks a = some ask ∧ ask.stage = ask'.stage) : Held s' := by
  intro id a ask' hp hask'
  rw [← Bool.not_eq_true]
  intro hended
  obtain ⟨ask, hask, hst⟩ := hstages id a ask' hp hask' hended
  rw [← hst, hh id a ask (hpending id a hp) hask] at hended
  cases hended

theorem held_setAsk (hh : Held s)
    (hst : ask.stage.ended = true → ∀ id : Nat, s.pending[id]? ≠ some a) :
    Held (s.setAsk a ask) := by
  refine hh.mono (fun _ _ h => h) fun id b ask' hp hask' hended => ?_
  by_cases hb : b = a
  · subst hb
    obtain rfl := Option.some.inj (setAsk_same.symm.trans hask')
    exact absurd hp (hst hended id)
  · exact ⟨ask', (setAsk_of_ne hb).symm.trans hask', rfl⟩

theorem setSlot_stage (h : (s.setSlot a slot).asks b = some ask') :
    ∃ ask, s.asks b = some ask ∧ ask.stage = ask'.stage := by
  by_cases hb : b = a
  · subst hb
    rw [setSlot_same] at h
    obtain ⟨ask, hask, rfl⟩ := Option.map_eq_some_iff.mp h
    exact ⟨ask, hask, rfl⟩
  · exact ⟨ask', (setSlot_of_ne hb).symm.trans h, rfl⟩

theorem removePending_stage {id : Nat} (h : (s.removePending id).asks b = some ask') :
    ∃ ask, s.asks b = some ask ∧ ask.stage = ask'.stage := by
  unfold Client.removePending at h
  split at h
  · exact setSlot_stage h
  · exact ⟨ask', h, rfl⟩

theorem removePending_some {id i : Nat} (h : (s.removePending id).pending[i]? = some a) :
    i ≠ id ∧ s.pending[i]? = some a := by
  rw [removePending_pending] at h
  split at h
  · cases h
  · exact ⟨‹_›, h⟩

theorem Held.removePending (hh : Held s) (id : Nat) : Held (s.removePending id) :=
  hh.mono (fun _ _ h => (removePending_some h).2) fun _ _ _ _ h _ => removePending_stage h

theorem Held.park (hh : Held s) (id a : Nat) (hst : ask.stage.ended = false) :
    Held ((s.insertPending id a).setAsk a ask) := by
  intro i b ask' hp hask'
  by_cases hb : b = a
  · subst hb
    obtain rfl := Option.some.inj (setAsk_same.symm.trans hask')
    exact hst
  · refine hh.removePending id i b ask' ?_ ((setAsk_of_ne hb).symm.trans hask')
    have hp : ((s.removePending id).pending.insert id a)[i]? = some b := hp
    rw [Std.ExtTreeMap.getElem?_insert] at hp
    split at hp
    · exact absurd (Option.some.inj hp).symm hb
    · exact hp

theorem Held.unpark (hh : Held s) (hi : Inv s) (hask : s.asks a = some ask) :
    Held ((s.removePending ask.id).setAsk a ask') := by
  refine held_setAsk (hh.removePending ask.id) fun _ i hp => ?_
  obtain ⟨hne, hp⟩ := removePending_some hp
  exact hne (hi.parked_ask hp hask).1.symm

theorem Held.handleFrame (hh : Held s) (frame : Frame) : Held (s.handleFrame frame) := by
  unfold Client.handleFrame
  split
  · refine hh.mono (fun i b hp => ?_) fun _ _ _ _ h _ => setSlot_stage h
    have hp : (s.pending.erase frame.requestId)[i]? = some b := hp
    rw [Std.ExtTreeMap.getElem?_erase] at hp
    split at hp
    · cases hp
    · exact hp
  · exact hh

/-- The one step that leaves an entry behind is a drop. -/
theorem held_iff (hi : Inv s) (hh : Held s) (h : s.step e = some s') :
    Held s' ↔ ParkedStays s e := by
  cases moves h with
  | ask =>
    refine iff_of_true ?_ (by rintro a ⟨⟩)
    exact held_setAsk (s := s) (a := s.issued) hh (by simp [Stage.ended])
  | park => exact iff_of_true (hh.park _ _ rfl) (by rintro a ⟨⟩)
  | refused => exact iff_of_true (held_setAsk hh (by simp [Stage.ended])) (by rintro a ⟨⟩)
  | @accepted a ask =>
    have hset : Held (s.setAsk a { ask with stage := .waiting }) :=
      held_setAsk hh (by simp [Stage.ended])
    exact iff_of_true hset (by rintro a ⟨⟩)
  | unpark hask => exact iff_of_true (hh.unpark hi hask) (by rintro a ⟨⟩)
  | @complete a ask reply hask hst hreply =>
    refine iff_of_true (held_setAsk hh fun _ id hp => ?_) (by rintro a ⟨⟩)
    rw [(hi.parked_ask hp hask).2.1] at hreply
    cases hreply
  | @drop a ask hask hst =>
    constructor
    · rintro hh' _ ⟨⟩ ask' hask' hp
      obtain rfl := Option.some.inj (hask.symm.trans hask')
      exact absurd (hh' ask.id a _ hp setAsk_same) (by simp [Stage.ended])
    · intro hstays
      refine held_setAsk hh fun _ id hp => ?_
      exact hstays a rfl ask hask (by rwa [(hi.parked_ask hp hask).1])
  | tellRefused | tell | recv | wrote | writeError | frame | hangUp =>
    exact iff_of_true hh (by rintro a ⟨⟩)
  | @handle frame => exact iff_of_true (hh.handleFrame frame) (by rintro a ⟨⟩)
  | drain =>
    refine iff_of_true (fun id a ask hp => ?_) (by rintro a ⟨⟩)
    simp [Client.drainPending] at hp

end

/-- In every run, the pending map holds the entries of the outstanding asks and
no others throughout, exactly when no ask is given up while its sender is in the
map. -/
theorem exact_iff_parkedStays (es : List Event) :
    Always step Exact init es ↔ Guarded step ParkedStays init es := by
  have hinit : Held init := by
    rintro id a ask hp ⟨⟩
  refine always_iff_guarded (I := Inv) inv_init (inv_init.exact hinit)
    (fun _ _ _ hi _ h _ => hi.step h) fun s e s' hi hx h => ?_
  rw [← held_iff hi hx.held h]
  exact ⟨Exact.held, (hi.step h).exact⟩

/-- An ask whose frame reaches the server, which does not answer before the
timeout. -/
def timedOutAsk : List Event :=
  [.ask "svc" [1], .park 0, .send 0, .recv, .wrote, .drop 0]

theorem timed_out_ask_stays : ∃ s, run step init timedOutAsk = some s ∧
    s.pending[1]? = some 0 ∧ s.outstanding = ∅ ∧ ¬ Exact s := by
  refine ⟨_, rfl, rfl, rfl, fun hx => ?_⟩
  exact hx.ended 0 _ rfl rfl 1 rfl

end Client

end Rinfra.Trpc

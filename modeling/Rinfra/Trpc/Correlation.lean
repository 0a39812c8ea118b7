import Mathlib.Data.List.Nodup
import Rinfra.Lib.Transition
import Rinfra.Trpc.Client

/-!
# Replies reach the asks they are for

`Inv` ties the pending map, the oneshot channels and the frames handled so far
to each other. An ask whose channel is empty is parked under its id, or not yet,
or dropped; a reply in a channel is the reply of a frame with the ask's id, or
the error of the drain.
-/

namespace Rinfra.Trpc

open Rinfra.Lib

namespace Client

structure AskOk (s : Client) (a : Nat) (ask : Ask) : Prop where
  parking : ask.stage = .parking → ask.slot = .empty
  empty : ask.slot = .empty →
    ask.stage = .parking ∨ ask.stage = .dropped ∨ s.pending[ask.id]? = some a
  sent : ∀ reply, ask.slot = .sent reply →
    reply = .error connectionClosed ∨ ∃ k, (a, k) ∈ s.answers
  done : ∀ reply, ask.stage = .done reply →
    reply = .error connectionClosed ∨ ask.slot.awaited = some reply

structure Inv (s : Client) : Prop where
  fresh : ∀ a, s.issued ≤ a → s.asks a = none
  asks : ∀ a ask, s.asks a = some ask → AskOk s a ask
  parked : ∀ id a, s.pending[id]? = some a →
    ∃ ask, s.asks a = some ask ∧ ask.id = id ∧ ask.slot = .empty ∧ ask.stage ≠ .parking
  answered : ∀ a k, (a, k) ∈ s.answers → ∃ ask frame reply, s.asks a = some ask ∧
    s.received[k]? = some frame ∧ frame.requestId = ask.id ∧ frame.reply = some reply ∧
    ask.slot = .sent reply
  asksOnce : (s.answers.map Prod.fst).Nodup
  framesOnce : (s.answers.map Prod.snd).Nodup

section
variable {s s' : Client}

@[simp] theorem setAsk_same : (s.setAsk a ask).asks a = some ask := Function.update_self ..

theorem setAsk_of_ne (h : b ≠ a) : (s.setAsk a ask).asks b = s.asks b := Function.update_of_ne h ..

@[simp] theorem setSlot_same :
    (s.setSlot a slot).asks a = (s.asks a).map fun ask => { ask with slot } :=
  Function.update_self ..

theorem setSlot_of_ne (h : b ≠ a) : (s.setSlot a slot).asks b = s.asks b :=
  Function.update_of_ne h ..

theorem inv_init : Inv init := by
  constructor <;> simp [init]

/-- The channel to the socket and the loops' own states are not in `Inv`. -/
theorem Inv.congr (hi : Inv s) (hissued : s'.issued = s.issued) (hasks : s'.asks = s.asks)
    (hpending : s'.pending = s.pending) (hreceived : s'.received = s.received)
    (hanswers : s'.answers = s.answers) : Inv s' := by
  have hok : ∀ a ask, AskOk s a ask → AskOk s' a ask := fun a ask h =>
    ⟨h.parking, by simpa only [hpending] using h.empty, by simpa only [hanswers] using h.sent,
      h.done⟩
  constructor
  · simpa only [hissued, hasks] using hi.fresh
  · exact fun a ask h => hok a ask (hi.asks a ask (hasks ▸ h))
  · simpa only [hpending, hasks] using hi.parked
  · simpa only [hanswers, hasks, hreceived] using hi.answered
  · simpa only [hanswers] using hi.asksOnce
  · simpa only [hanswers] using hi.framesOnce

theorem Inv.fresh_ne (hi : Inv s) (hask : s.asks b = some ask) (ha : s.issued ≤ a) : a ≠ b := by
  rintro rfl
  rw [hi.fresh a ha] at hask
  cases hask

theorem AskOk.done_of_empty (hok : AskOk s a ask) (he : ask.slot = .empty)
    (hd : ask.stage = .done reply) : reply = .error connectionClosed := by
  rcases hok.done reply hd with h | h
  · exact h
  · simp [he, Slot.awaited] at h

theorem Inv.issue (hi : Inv s) (service : String) (payload : List UInt8) (nextId : Nat) :
    Inv { s.setAsk s.issued ⟨s.nextId, service, payload, .empty, .parking⟩ with
      nextId := nextId, issued := s.issued + 1 } := by
  have hold : ∀ a ask, s.asks a = some ask → a ≠ s.issued :=
    fun a ask h => (hi.fresh_ne h (Nat.le_refl _)).symm
  constructor
  · intro a ha
    have hne : a ≠ s.issued := by simp at ha; omega
    rw [← hi.fresh a (by simp at ha; omega)]
    exact setAsk_of_ne hne
  · intro a ask h
    by_cases hne : a = s.issued
    · subst hne
      obtain rfl := Option.some.inj (setAsk_same.symm.trans h)
      exact ⟨fun _ => rfl, fun _ => .inl rfl, by simp, by simp⟩
    · have := hi.asks a ask ((setAsk_of_ne hne).symm.trans h)
      exact ⟨this.parking, this.empty, this.sent, this.done⟩
  · intro id a h
    obtain ⟨ask, hask, hrest⟩ := hi.parked id a h
    exact ⟨ask, (setAsk_of_ne (hold a ask hask)).trans hask, hrest⟩
  · intro a k h
    obtain ⟨ask, frame, reply, hask, hrest⟩ := hi.answered a k h
    exact ⟨ask, frame, reply, (setAsk_of_ne (hold a ask hask)).trans hask, hrest⟩
  · exact hi.asksOnce
  · exact hi.framesOnce

theorem Inv.setStage (hi : Inv s) (hask : s.asks a = some ask) (hnew : stage ≠ .parking)
    (hempty : ask.slot = .empty → stage = .dropped ∨ s.pending[ask.id]? = some a)
    (hdone : ∀ reply, stage = .done reply →
      reply = .error connectionClosed ∨ ask.slot.awaited = some reply) :
    Inv (s.setAsk a { ask with stage }) := by
  have hsame : ∀ b ask', s.asks b = some ask' → ∃ stage', stage' ≠ .parking ∧
      (s.setAsk a { ask with stage }).asks b = some { ask' with stage := stage' } ∨
      (s.setAsk a { ask with stage }).asks b = some ask' := by
    intro b ask' h
    by_cases hb : b = a
    · subst hb
      obtain rfl := Option.some.inj (hask.symm.trans h)
      exact ⟨stage, .inl ⟨hnew, setAsk_same⟩⟩
    · exact ⟨.sending, .inr ((setAsk_of_ne hb).trans h)⟩
  constructor
  · intro b hb
    exact (setAsk_of_ne (hi.fresh_ne hask hb)).trans (hi.fresh b hb)
  · intro b ask' h
    by_cases hb : b = a
    · subst hb
      obtain rfl := Option.some.inj (setAsk_same.symm.trans h)
      exact ⟨fun hp => absurd hp hnew, fun he => .inr (hempty he),
        (hi.asks b ask hask).sent, hdone⟩
    · have := hi.asks b ask' ((setAsk_of_ne hb).symm.trans h)
      exact ⟨this.parking, this.empty, this.sent, this.done⟩
  · intro id b h
    obtain ⟨ask', hask', hid, hslot, hst⟩ := hi.parked id b h
    obtain ⟨stage', ⟨hne, hb⟩ | hb⟩ := hsame b ask' hask'
    · exact ⟨_, hb, hid, hslot, hne⟩
    · exact ⟨_, hb, hid, hslot, hst⟩
  · intro b k h
    obtain ⟨ask', frame, reply, hask', hk, hid, hrep, hslot⟩ := hi.answered b k h
    obtain ⟨stage', ⟨hne, hb⟩ | hb⟩ := hsame b ask' hask'
    · exact ⟨_, frame, reply, hb, hk, hid, hrep, hslot⟩
    · exact ⟨_, frame, reply, hb, hk, hid, hrep, hslot⟩
  · exact hi.asksOnce
  · exact hi.framesOnce

/-- An ask that has parked its sender and not been dropped, with nothing in its
channel, is in the pending map. -/
theorem Inv.pending_of_empty (hi : Inv s) (hask : s.asks a = some ask) (hp : ask.stage ≠ .parking)
    (hd : ask.stage ≠ .dropped) (he : ask.slot = .empty) : s.pending[ask.id]? = some a := by
  rcases (hi.asks a ask hask).empty he with h | h | h
  · exact absurd h hp
  · exact absurd h hd
  · exact h

theorem Inv.parked_ask {id : Nat} (hi : Inv s) (h : s.pending[id]? = some a)
    (hask : s.asks a = some ask) : ask.id = id ∧ ask.slot = .empty ∧ ask.stage ≠ .parking := by
  obtain ⟨ask', hask', hrest⟩ := hi.parked id a h
  obtain rfl := Option.some.inj (hask.symm.trans hask')
  exact hrest

theorem Inv.answered_ne {id : Nat} (hi : Inv s) (h : (a, k) ∈ s.answers)
    (hb : s.pending[id]? = some b) : a ≠ b := by
  rintro rfl
  obtain ⟨ask, _, _, hask, _, _, _, hslot⟩ := hi.answered a k h
  have := (hi.parked_ask hb hask).2.1
  rw [this] at hslot
  cases hslot

theorem Inv.askOk_of_ne {id : Nat} (hi : Inv s) (hb : s.pending[id]? = some b) (hne : a ≠ b)
    (hask : s.asks a = some ask) (hpending : s'.pending = s.pending.erase id)
    (hanswers : ∀ p ∈ s.answers, p ∈ s'.answers) : AskOk s' a ask := by
  have hok := hi.asks a ask hask
  refine ⟨hok.parking, fun he => ?_, fun reply h => ?_, hok.done⟩
  · refine (hok.empty he).imp_right (Or.imp_right fun h => ?_)
    have hid : ask.id ≠ id := by
      intro heq
      rw [heq, hb] at h
      exact hne (Option.some.inj h).symm
    rw [hpending, Std.ExtTreeMap.getElem?_erase]
    simpa [Ne.symm hid] using h
  · exact (hok.sent reply h).imp_right fun ⟨k, hk⟩ => ⟨k, hanswers _ hk⟩

theorem Inv.parked_erase {id i : Nat} (hi : Inv s) (hb : s.pending[id]? = some b)
    (h : (s.pending.erase id)[i]? = some a) : a ≠ b ∧ s.pending[i]? = some a := by
  rw [Std.ExtTreeMap.getElem?_erase] at h
  split at h
  · cases h
  · rename_i hne
    refine ⟨?_, h⟩
    rintro rfl
    obtain ⟨ask, hask, hid, -⟩ := hi.parked id a hb
    have := (hi.parked_ask h hask).1
    simp [← hid, this] at hne

theorem Inv.parked_setSlot {id i : Nat} (hi : Inv s) (hb : s.pending[id]? = some b)
    (h : (s.pending.erase id)[i]? = some a) : ∃ ask, (s.setSlot b slot).asks a = some ask ∧
      ask.id = i ∧ ask.slot = .empty ∧ ask.stage ≠ .parking := by
  obtain ⟨hne, hia⟩ := hi.parked_erase hb h
  obtain ⟨ask, hask, hrest⟩ := hi.parked i a hia
  exact ⟨ask, (setSlot_of_ne hne).trans hask, hrest⟩

theorem Inv.removePending (hi : Inv s) (id : Nat) : Inv (s.removePending id) := by
  unfold Client.removePending
  split
  · rename_i b hb
    obtain ⟨askb, haskb, hidb, hslotb, hstb⟩ := hi.parked id b hb
    have hb' : (s.setSlot b .closed).asks b = some { askb with slot := .closed } := by
      simp [haskb]
    constructor
    · intro a ha
      exact (setSlot_of_ne (hi.fresh_ne haskb ha)).trans (hi.fresh a ha)
    · intro a ask h
      by_cases hne : a = b
      · subst hne
        obtain rfl := Option.some.inj (hb'.symm.trans h)
        refine ⟨fun hp => absurd hp hstb, by simp, by simp, fun reply hd => .inl ?_⟩
        exact (hi.asks a askb haskb).done_of_empty hslotb hd
      · exact hi.askOk_of_ne hb hne ((setSlot_of_ne hne).symm.trans h) rfl fun _ h => h
    · intro i a h
      exact hi.parked_setSlot hb h
    · intro a k h
      obtain ⟨ask, frame, reply, hask, hrest⟩ := hi.answered a k h
      exact ⟨ask, frame, reply, (setSlot_of_ne (hi.answered_ne h hb)).trans hask, hrest⟩
    · exact hi.asksOnce
    · exact hi.framesOnce
  · exact hi

theorem removePending_pending (s : Client) (id i : Nat) :
    (s.removePending id).pending[i]? = if i = id then none else s.pending[i]? := by
  unfold Client.removePending
  split
  · simp only [Std.ExtTreeMap.getElem?_erase, Std.compare_eq_iff_eq]
    by_cases h : i = id
    · simp [h]
    · simp [h, Ne.symm h]
  · rename_i hnone
    split
    · rename_i h
      rw [h, hnone]
    · rfl

theorem removePending_asks (hask : s.asks a = some ask) (id : Nat) :
    (s.removePending id).asks a =
      some { ask with slot := if s.pending[id]? = some a then .closed else ask.slot } := by
  unfold Client.removePending
  split
  · rename_i b hb
    by_cases hne : a = b
    · subst hne
      simp [hask, hb]
    · rw [hb, if_neg fun h => hne (Option.some.inj h).symm]
      exact (setSlot_of_ne hne).trans hask
  · rename_i hnone
    rw [hnone, if_neg (by simp)]
    exact hask

theorem Inv.insert (hi : Inv s) (hnone : s.pending[ask.id]? = none) (hask : s.asks a = some ask)
    (hst : ask.stage = .parking) :
    Inv ({ s with pending := s.pending.insert ask.id a }.setAsk a
      { ask with stage := .sending }) := by
  have hslot : ask.slot = .empty := (hi.asks a ask hask).parking hst
  have hlookup : ∀ i : Nat, (s.pending.insert ask.id a)[i]? =
      if i = ask.id then some a else s.pending[i]? := by
    intro i
    by_cases h : i = ask.id
    · simp [h]
    · simp [Std.ExtTreeMap.getElem?_insert, h, Ne.symm h]
  constructor
  · intro b hb
    exact (setAsk_of_ne (hi.fresh_ne hask hb)).trans (hi.fresh b hb)
  · intro b ask' h
    by_cases hb : b = a
    · subst hb
      obtain rfl := Option.some.inj (setAsk_same.symm.trans h)
      refine ⟨by simp, fun _ => .inr (.inr ?_), by simp [hslot], by simp⟩
      exact (hlookup _).trans (by simp)
    · have hok := hi.asks b ask' ((setAsk_of_ne hb).symm.trans h)
      refine ⟨hok.parking, fun he => ?_, hok.sent, hok.done⟩
      refine (hok.empty he).imp_right (Or.imp_right fun h => ?_)
      have hid : ask'.id ≠ ask.id := by
        intro heq
        rw [heq, hnone] at h
        cases h
      exact (hlookup _).trans (by simpa [hid] using h)
  · intro i b h
    have hib := (hlookup i).symm.trans h
    split at hib
    · rename_i hid
      obtain rfl := Option.some.inj hib
      exact ⟨_, setAsk_same, hid.symm, hslot, by simp⟩
    · obtain ⟨ask', hask', hid, hslot', hst'⟩ := hi.parked i b hib
      have hb : b ≠ a := by
        rintro rfl
        exact absurd hst (hi.parked_ask hib hask).2.2
      exact ⟨ask', (setAsk_of_ne hb).trans hask', hid, hslot', hst'⟩
  · intro b k h
    obtain ⟨ask', frame, reply, hask', hk, hid, hrep, hslot'⟩ := hi.answered b k h
    have hb : b ≠ a := by
      rintro rfl
      obtain rfl := Option.some.inj (hask.symm.trans hask')
      rw [hslot] at hslot'
      cases hslot'
    exact ⟨ask', frame, reply, (setAsk_of_ne hb).trans hask', hk, hid, hrep, hslot'⟩
  · exact hi.asksOnce
  · exact hi.framesOnce

theorem Inv.park (hi : Inv s) (hask : s.asks a = some ask) (hst : ask.stage = .parking) :
    Inv ((s.insertPending ask.id a).setAsk a { ask with stage := .sending }) := by
  refine (hi.removePending ask.id).insert (by simp [removePending_pending]) ?_ hst
  rw [removePending_asks hask, if_neg fun hp => (hi.parked_ask hp hask).2.2 hst]

theorem Inv.unpark (hi : Inv s) (hask : s.asks a = some ask) (hst : ask.stage = .unparking)
    (hask' : (s.removePending ask.id).asks a = some ask') :
    Inv ((s.removePending ask.id).setAsk a
      { ask' with stage := .done (.error connectionClosed) }) := by
  refine (hi.removePending ask.id).setStage hask' (by simp) (fun he => ?_) (by simp)
  rw [removePending_asks hask] at hask'
  obtain rfl := Option.some.inj hask'
  simp only at he
  split at he
  · cases he
  · rename_i hnot
    exact absurd (hi.pending_of_empty hask (by simp [hst]) (by simp [hst]) he) hnot

/-- A frame that is the reply of no ask changes no ask. -/
theorem Inv.receive (hi : Inv s) (frame : Frame) :
    Inv { s with received := s.received ++ [frame] } := by
  refine ⟨hi.fresh, fun a ask h => ?_, hi.parked, fun a k h => ?_, hi.asksOnce, hi.framesOnce⟩
  · have hok := hi.asks a ask h
    exact ⟨hok.parking, hok.empty, hok.sent, hok.done⟩
  · obtain ⟨ask, frame', reply, hask, hk, hrest⟩ := hi.answered a k h
    refine ⟨ask, frame', reply, hask, ?_, hrest⟩
    rw [List.getElem?_append_left (List.getElem?_eq_some_iff.mp hk).1]
    exact hk

theorem Inv.handleFrame (hi : Inv s) (frame : Frame) : Inv (s.handleFrame frame) := by
  unfold Client.handleFrame
  split
  · rename_i reply b hrep hb
    obtain ⟨askb, haskb, hidb, hslotb, hstb⟩ := hi.parked frame.requestId b hb
    have hb' : (s.setSlot b (.sent reply)).asks b = some { askb with slot := .sent reply } := by
      simp [haskb]
    constructor
    · intro a ha
      exact (setSlot_of_ne (hi.fresh_ne haskb ha)).trans (hi.fresh a ha)
    · intro a ask h
      by_cases hne : a = b
      · subst hne
        obtain rfl := Option.some.inj (hb'.symm.trans h)
        refine ⟨fun hp => absurd hp hstb, by simp, ?_, fun reply hd => .inl ?_⟩
        · exact fun _ _ => .inr ⟨s.received.length, List.mem_cons_self⟩
        · exact (hi.asks a askb haskb).done_of_empty hslotb hd
      · exact hi.askOk_of_ne hb hne ((setSlot_of_ne hne).symm.trans h) rfl
          fun _ h => List.mem_cons_of_mem _ h
    · intro i a h
      exact hi.parked_setSlot hb h
    · intro a k h
      rcases List.mem_cons.mp h with h | h
      · obtain ⟨rfl, rfl⟩ := Prod.mk.inj h
        exact ⟨_, frame, reply, hb', by simp, hidb.symm, hrep, rfl⟩
      · obtain ⟨ask, frame', reply', hask, hk, hrest⟩ := hi.answered a k h
        refine ⟨ask, frame', reply', (setSlot_of_ne (hi.answered_ne h hb)).trans hask, ?_, hrest⟩
        rw [List.getElem?_append_left (List.getElem?_eq_some_iff.mp hk).1]
        exact hk
    · refine List.nodup_cons.mpr ⟨fun h => ?_, hi.asksOnce⟩
      obtain ⟨⟨a, k⟩, hmem, rfl⟩ := List.mem_map.mp h
      exact hi.answered_ne hmem hb rfl
    · refine List.nodup_cons.mpr ⟨fun h => ?_, hi.framesOnce⟩
      obtain ⟨⟨a, k⟩, hmem, hk⟩ := List.mem_map.mp h
      obtain ⟨_, _, _, _, hlt, _⟩ := hi.answered a k hmem
      have := (List.getElem?_eq_some_iff.mp hlt).1
      simp only at hk
      omega
  · exact hi.receive frame

theorem Inv.drainPending (hi : Inv s) : Inv s.drainPending := by
  have hback : ∀ a ask, s.drainPending.asks a = some ask → ∃ old, s.asks a = some old ∧
      (ask = old ∧ s.pending[old.id]? ≠ some a ∨
        ask = { old with slot := .sent (.error connectionClosed) } ∧
          s.pending[old.id]? = some a) := by
    intro a ask h
    obtain ⟨old, hold, heq⟩ := Option.map_eq_some_iff.mp h
    refine ⟨old, hold, ?_⟩
    split at heq
    · rename_i hp
      exact .inr ⟨heq.symm, hp⟩
    · rename_i hp
      exact .inl ⟨heq.symm, hp⟩
  constructor
  · intro a ha
    simp [Client.drainPending, hi.fresh a ha]
  · intro a ask h
    obtain ⟨old, hold, ⟨rfl, hnot⟩ | ⟨rfl, hp⟩⟩ := hback a ask h
    · have hok := hi.asks a ask hold
      refine ⟨hok.parking, fun he => ?_, hok.sent, hok.done⟩
      rcases hok.empty he with h | h | h
      · exact .inl h
      · exact .inr (.inl h)
      · exact absurd h hnot
    · obtain ⟨-, hslot, hst⟩ := hi.parked_ask hp hold
      refine ⟨fun h => absurd h hst, by simp, fun reply h => .inl (Slot.sent.inj h).symm, ?_⟩
      intro reply hd
      exact .inl ((hi.asks a old hold).done_of_empty hslot hd)
  · intro i a h
    simp [Client.drainPending] at h
  · intro a k h
    obtain ⟨ask, frame, reply, hask, hk, hid, hrep, hslot⟩ := hi.answered a k h
    refine ⟨ask, frame, reply, ?_, hk, hid, hrep, hslot⟩
    have hnot : s.pending[ask.id]? ≠ some a := by
      intro hp
      rw [(hi.parked_ask hp hask).2.1] at hslot
      cases hslot
    simp [Client.drainPending, hask, hnot]
  · exact hi.asksOnce
  · exact hi.framesOnce

theorem Inv.step (hi : Inv s) (h : s.step e = some s') : Inv s' := by
  cases moves h with
  | ask => exact hi.issue _ _ _
  | park hask hst => exact hi.park hask hst
  | @refused a ask hask hst hw =>
    exact hi.setStage hask (by simp) (fun he => .inr (hi.pending_of_empty hask (by simp [hst])
      (by simp [hst]) he)) (by simp)
  | @accepted a ask hask hst hw hroom =>
    have hmove : Inv (s.setAsk a { ask with stage := .waiting }) :=
      hi.setStage hask (by simp) (fun he => .inr (hi.pending_of_empty hask (by simp [hst])
        (by simp [hst]) he)) (by simp)
    exact hmove.congr rfl rfl rfl rfl rfl
  | unpark hask hst hask' => exact hi.unpark hask hst hask'
  | @complete a ask reply hask hst hreply =>
    refine hi.setStage hask (by simp) (fun he => .inr (hi.pending_of_empty hask (by simp [hst])
      (by simp [hst]) he)) fun r hr => .inr ?_
    rw [hreply, Stage.done.inj hr]
  | drop hask hst => exact hi.setStage hask (by simp) (fun _ => .inl rfl) (by simp)
  | tellRefused => exact hi
  | tell | recv | wrote | writeError | frame | hangUp => exact hi.congr rfl rfl rfl rfl rfl
  | handle => exact (hi.handleFrame _).congr rfl rfl rfl rfl rfl
  | drain => exact hi.drainPending.congr rfl rfl rfl rfl rfl

-- ---------------------------------------------------------------------------
-- Ids and results stay
-- ---------------------------------------------------------------------------

def KeepsAsks (s s' : Client) : Prop :=
  ∀ a, (s.asks a = none → s'.asks a = none) ∧
    ∀ ask, s.asks a = some ask → ∃ ask', s'.asks a = some ask' ∧ ask'.id = ask.id ∧
      ∀ reply, ask.stage = .done reply → ask'.stage = .done reply

theorem KeepsAsks.of_eq (h : s'.asks = s.asks) : KeepsAsks s s' := fun a =>
  ⟨fun hn => by rw [h, hn], fun ask hask => ⟨ask, by rw [h, hask], rfl, fun _ hd => hd⟩⟩

theorem KeepsAsks.trans {t : Client} (h : KeepsAsks s s') (h' : KeepsAsks s' t) :
    KeepsAsks s t := by
  refine fun a => ⟨fun hn => (h' a).1 ((h a).1 hn), fun ask hask => ?_⟩
  obtain ⟨ask', hask', hid, hdone⟩ := (h a).2 ask hask
  obtain ⟨ask'', hask'', hid', hdone'⟩ := (h' a).2 ask' hask'
  exact ⟨ask'', hask'', hid'.trans hid, fun r hr => hdone' r (hdone r hr)⟩

theorem KeepsAsks.setAsk (hask : s.asks a = some ask) (hid : ask'.id = ask.id)
    (hdone : ∀ reply, ask.stage = .done reply → ask'.stage = .done reply) :
    KeepsAsks s (s.setAsk a ask') := by
  intro b
  by_cases hb : b = a
  · subst hb
    refine ⟨fun hn => by simp [hask] at hn, fun old hold => ?_⟩
    obtain rfl := Option.some.inj (hask.symm.trans hold)
    exact ⟨ask', setAsk_same, hid, hdone⟩
  · rw [setAsk_of_ne hb]
    exact ⟨id, fun old hold => ⟨old, hold, rfl, fun _ hd => hd⟩⟩

theorem KeepsAsks.setSlot (s : Client) (a : Nat) (slot : Slot) :
    KeepsAsks s (s.setSlot a slot) := by
  intro b
  by_cases hb : b = a
  · subst hb
    exact ⟨fun hn => by simp [hn], fun old hold =>
      ⟨{ old with slot }, by simp [hold], rfl, fun _ hd => hd⟩⟩
  · rw [setSlot_of_ne hb]
    exact ⟨id, fun old hold => ⟨old, hold, rfl, fun _ hd => hd⟩⟩

theorem KeepsAsks.removePending (s : Client) (id : Nat) : KeepsAsks s (s.removePending id) := by
  unfold Client.removePending
  split
  · exact (KeepsAsks.setSlot s _ .closed).trans (.of_eq rfl)
  · exact .of_eq rfl

theorem KeepsAsks.handleFrame (s : Client) (frame : Frame) : KeepsAsks s (s.handleFrame frame) := by
  unfold Client.handleFrame
  split
  · exact (KeepsAsks.setSlot s _ _).trans (.of_eq rfl)
  · exact .of_eq rfl

theorem KeepsAsks.drainPending (s : Client) : KeepsAsks s s.drainPending := by
  intro a
  refine ⟨fun hn => by simp [Client.drainPending, hn], fun ask hask => ?_⟩
  refine ⟨if s.pending[ask.id]? = some a then
    { ask with slot := .sent (.error connectionClosed) } else ask, ?_, ?_, ?_⟩
  · simp [Client.drainPending, hask]
  · split <;> rfl
  · intro reply hd
    split <;> exact hd

theorem removePending_counters (s : Client) (id : Nat) :
    (s.removePending id).issued = s.issued ∧ (s.removePending id).nextId = s.nextId := by
  unfold Client.removePending
  split <;> exact ⟨rfl, rfl⟩

theorem handleFrame_counters (s : Client) (frame : Frame) :
    (s.handleFrame frame).issued = s.issued ∧ (s.handleFrame frame).nextId = s.nextId := by
  unfold Client.handleFrame
  split <;> exact ⟨rfl, rfl⟩

/-- Only `ask` itself adds an ask, and takes an id for it. -/
theorem asks_step (h : s.step e = some s') :
    KeepsAsks s s' ∧ s'.issued = s.issued ∧ s'.nextId = s.nextId ∨
      ∃ service payload,
        s' = { s.setAsk s.issued ⟨s.nextId, service, payload, .empty, .parking⟩ with
          nextId := (s.nextId + 1) % 2 ^ 64, issued := s.issued + 1 } := by
  cases moves h with
  | ask => exact .inr ⟨_, _, rfl⟩
  | @park a ask hask hst =>
    refine .inl ⟨?_, removePending_counters s ask.id⟩
    have hins : KeepsAsks s (s.insertPending ask.id a) :=
      (KeepsAsks.removePending s ask.id).trans (.of_eq rfl)
    exact hins.trans (.setAsk (removePending_asks hask ask.id) rfl (by simp [hst]))
  | refused hask hst hw => exact .inl ⟨.setAsk hask rfl (by simp [hst]), rfl, rfl⟩
  | @accepted a ask hask hst hw hroom =>
    have hset : KeepsAsks s (s.setAsk a { ask with stage := .waiting }) :=
      .setAsk hask rfl (by simp [hst])
    exact .inl ⟨hset.trans (.of_eq rfl), rfl, rfl⟩
  | @unpark a ask ask' hask hst hask' =>
    refine .inl ⟨(KeepsAsks.removePending s ask.id).trans (.setAsk hask' rfl ?_),
      removePending_counters s ask.id⟩
    obtain rfl := Option.some.inj ((removePending_asks hask ask.id).symm.trans hask')
    simp [hst]
  | complete hask hst hreply => exact .inl ⟨.setAsk hask rfl (by simp [hst]), rfl, rfl⟩
  | drop hask hst => exact .inl ⟨.setAsk hask rfl fun r hr => absurd hr (hst r), rfl, rfl⟩
  | tellRefused => exact .inl ⟨.of_eq rfl, rfl, rfl⟩
  | tell | recv | wrote | writeError | frame | hangUp => exact .inl ⟨.of_eq rfl, rfl, rfl⟩
  | @handle frame hr =>
    exact .inl ⟨(KeepsAsks.handleFrame s frame).trans (.of_eq rfl), handleFrame_counters s frame⟩
  | drain => exact .inl ⟨(KeepsAsks.drainPending s).trans (.of_eq rfl), rfl, rfl⟩

/-- Ask number `a` took the `a`th value of the counter. -/
structure Numbered (s : Client) : Prop where
  nextId : s.nextId = (s.issued + 1) % 2 ^ 64
  asks : ∀ a ask, s.asks a = some ask → a < s.issued ∧ ask.id = (a + 1) % 2 ^ 64

theorem Numbered.step (hn : Numbered s) (h : s.step e = some s') : Numbered s' := by
  rcases asks_step h with ⟨hkeep, hissued, hnext⟩ | ⟨service, payload, rfl⟩
  · refine ⟨by rw [hnext, hissued, hn.nextId], fun a ask' hask' => ?_⟩
    cases hask : s.asks a with
    | none => simp [(hkeep a).1 hask] at hask'
    | some ask =>
      obtain ⟨ask'', hask'', hid, -⟩ := (hkeep a).2 ask hask
      obtain rfl := Option.some.inj (hask''.symm.trans hask')
      rw [hissued, hid]
      exact hn.asks a ask hask
  · constructor
    · simp only [hn.nextId]
      omega
    · intro a ask hask
      by_cases ha : a = s.issued
      · subst ha
        obtain rfl := Option.some.inj (setAsk_same.symm.trans hask)
        exact ⟨Nat.lt_succ_self _, hn.nextId⟩
      · obtain ⟨hlt, hid⟩ := hn.asks a ask ((setAsk_of_ne ha).symm.trans hask)
        exact ⟨Nat.lt_succ_of_lt hlt, hid⟩

/-- A result is final. -/
theorem done_step (hn : Numbered s) (h : s.step e = some s') (hask : s.asks a = some ask)
    (hd : ask.stage = .done reply) :
    ∃ ask', s'.asks a = some ask' ∧ ask'.id = ask.id ∧ ask'.stage = .done reply := by
  rcases asks_step h with ⟨hkeep, -, -⟩ | ⟨service, payload, rfl⟩
  · obtain ⟨ask', hask', hid, hdone⟩ := (hkeep a).2 ask hask
    exact ⟨ask', hask', hid, hdone reply hd⟩
  · have hne : a ≠ s.issued := Nat.ne_of_lt (hn.asks a ask hask).1
    exact ⟨ask, (setAsk_of_ne hne).trans hask, rfl, hd⟩

theorem done_run (hn : Numbered s) (h : run step s es = some t) (hask : s.asks a = some ask)
    (hd : ask.stage = .done reply) :
    ∃ ask', t.asks a = some ask' ∧ ask'.id = ask.id ∧ ask'.stage = .done reply := by
  refine (run_invariant (P := fun t => Numbered t ∧ ∃ ask', t.asks a = some ask' ∧
    ask'.id = ask.id ∧ ask'.stage = .done reply) ⟨hn, ask, hask, rfl, hd⟩ ?_ h).2
  rintro s e s' ⟨hn, ask', hask', hid, hd⟩ hs
  obtain ⟨ask'', hask'', hid', hd'⟩ := done_step hn hs hask' hd
  exact ⟨hn.step hs, ask'', hask'', hid'.trans hid, hd'⟩

end

-- ---------------------------------------------------------------------------
-- Correlation
-- ---------------------------------------------------------------------------

/-- What asks have been given, and by which frames. -/
structure Correlated (s : Client) : Prop where
  /-- A payload is that of a Response frame with the ask's own id. -/
  response : ∀ a ask payload, s.asks a = some ask → ask.stage = .done (.ok payload) →
    ∃ k frame, (a, k) ∈ s.answers ∧ s.received[k]? = some frame ∧ frame.kind = .response ∧
      frame.requestId = ask.id ∧ frame.payload = payload
  /-- An error is the client's own, or the message of an Error frame with the
  ask's own id. -/
  error : ∀ a ask e, s.asks a = some ask → ask.stage = .done (.error e) →
    e = connectionClosed ∨ e = connectionLost ∨
    ∃ k frame, (a, k) ∈ s.answers ∧ s.received[k]? = some frame ∧ frame.kind = .error ∧
      frame.requestId = ask.id ∧ e = ⟨.rpcServiceError, fromUtf8Lossy frame.payload⟩
  /-- No ask is answered by two frames. -/
  askOnce : ∀ a k l, (a, k) ∈ s.answers → (a, l) ∈ s.answers → k = l
  /-- No frame answers two asks. -/
  frameOnce : ∀ a b k, (a, k) ∈ s.answers → (b, k) ∈ s.answers → a = b
  /-- Whatever happens, an ask that has ended ends no other way. -/
  final : ∀ es t, run step s es = some t → ∀ a ask reply, s.asks a = some ask →
    ask.stage = .done reply → ∃ ask', t.asks a = some ask' ∧ ask'.id = ask.id ∧
      ask'.stage = .done reply
  /-- The first 2^64 - 1 asks have different ids. -/
  ids : s.issued < 2 ^ 64 → ∀ a b ask ask', s.asks a = some ask → s.asks b = some ask' →
    ask.id = ask'.id → a = b

theorem reply_ok (h : Frame.reply frame = some (.ok payload)) :
    frame.kind = .response ∧ frame.payload = payload := by
  unfold Frame.reply at h
  split at h <;> simp_all

theorem reply_error (h : Frame.reply frame = some (.error e)) :
    frame.kind = .error ∧ e = ⟨.rpcServiceError, fromUtf8Lossy frame.payload⟩ := by
  unfold Frame.reply at h
  split at h <;> simp_all

theorem Inv.correlated {s : Client} (hi : Inv s) (hn : Numbered s) : Correlated s := by
  have hsent : ∀ a ask reply, s.asks a = some ask → ask.slot = .sent reply →
      reply = .error connectionClosed ∨ ∃ k frame, (a, k) ∈ s.answers ∧
        s.received[k]? = some frame ∧ frame.requestId = ask.id ∧ frame.reply = some reply := by
    intro a ask reply hask hslot
    apply ((hi.asks a ask hask).sent reply hslot).imp_right
    rintro ⟨k, hk⟩
    obtain ⟨ask', frame, reply', hask', hrec, hid, hrep, hslot'⟩ := hi.answered a k hk
    obtain rfl := Option.some.inj (hask.symm.trans hask')
    obtain rfl := Slot.sent.inj (hslot.symm.trans hslot')
    exact ⟨k, frame, hk, hrec, hid, hrep⟩
  have hdone : ∀ a ask reply, s.asks a = some ask → ask.stage = .done reply →
      reply = .error connectionClosed ∨ reply = .error connectionLost ∨
      ∃ k frame, (a, k) ∈ s.answers ∧ s.received[k]? = some frame ∧ frame.requestId = ask.id ∧
        frame.reply = some reply := by
    intro a ask reply hask hd
    rcases (hi.asks a ask hask).done reply hd with h | h
    · exact .inl h
    · cases hslot : ask.slot with
      | empty => simp [hslot, Slot.awaited] at h
      | sent reply' =>
        simp only [hslot, Slot.awaited, Option.some.injEq] at h
        subst h
        exact (hsent a ask reply' hask hslot).imp_right .inr
      | closed =>
        simp only [hslot, Slot.awaited, Option.some.injEq] at h
        exact .inr (.inl h.symm)
  constructor
  · intro a ask payload hask hd
    rcases hdone a ask _ hask hd with h | h | ⟨k, frame, hk, hrec, hid, hrep⟩
    · cases h
    · cases h
    · obtain ⟨hkind, hpay⟩ := reply_ok hrep
      exact ⟨k, frame, hk, hrec, hkind, hid, hpay⟩
  · intro a ask e hask hd
    rcases hdone a ask _ hask hd with h | h | ⟨k, frame, hk, hrec, hid, hrep⟩
    · exact .inl (Except.error.inj h)
    · exact .inr (.inl (Except.error.inj h))
    · obtain ⟨hkind, he⟩ := reply_error hrep
      exact .inr (.inr ⟨k, frame, hk, hrec, hkind, hid, he⟩)
  · intro a k l hk hl
    have := List.inj_on_of_nodup_map hi.asksOnce hk hl rfl
    exact (Prod.mk.inj this).2
  · intro a b k ha hb
    have := List.inj_on_of_nodup_map hi.framesOnce ha hb rfl
    exact (Prod.mk.inj this).1
  · exact fun es t ht a ask reply hask hd => done_run hn ht hask hd
  · intro hlt a b ask ask' hask hask' hid
    obtain ⟨ha, hida⟩ := hn.asks a ask hask
    obtain ⟨hb, hidb⟩ := hn.asks b ask' hask'
    omega

/-- In every state of every run of any number of clones, against any frames,
each ask that has a result has it from a frame of its own, or an error of the
client. -/
theorem replies_correlated (es : List Event) : Always step Correlated init es := by
  have hinit : Inv init ∧ Numbered init := ⟨inv_init, by simp [init], by simp [init]⟩
  have hall : Always step (fun s => Inv s ∧ Numbered s) init es :=
    always_of_step hinit fun s e s' h hs => ⟨h.1.step hs, h.2.step hs⟩
  exact hall.mono fun s h => h.1.correlated h.2

end Client

end Rinfra.Trpc

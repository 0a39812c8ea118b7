import Mathlib.Data.List.Nodup
import Rinfra.Lib.Transition
import Rinfra.Mq.Consumers

/-!
# Acknowledgements of the NATS bus

An id stands for one delivery of a message, and the ack map leads from it to the
message. Beside the buses stands a ledger of each delivery: the subscription it
came in by, whether the consumer has it, and what came of its acknowledgements.
That the broker acknowledges is what its client answers to `ack`.
-/

namespace Rinfra.Mq

open Rinfra.Lib

def mark {α : Type} (f : Nat → String → α) (b : Nat) (id : String) (v : α) : Nat → String → α :=
  Function.update f b (Function.update (f b) id v)

@[simp] theorem mark_apply {α : Type} {f : Nat → String → α} {v : α} {b b' : Nat}
    {id id' : String} :
    mark f b id v b' id' = if b' = b ∧ id' = id then v else f b' id' := by
  by_cases hb : b' = b <;> simp [mark, Function.update_apply, hb]

theorem mark_cases {α : Type} {f : Nat → String → α} {v x : α} {b b' : Nat} {id id' : String}
    (h : mark f b id v b' id' = x) :
    (b' = b ∧ id' = id) ∧ v = x ∨ ¬ (b' = b ∧ id' = id) ∧ f b' id' = x := by
  rw [mark_apply] at h
  split at h
  · exact .inl ⟨‹_›, h⟩
  · exact .inr ⟨‹_›, h⟩

/-- The ids of what has arrived and has not been handed out. -/
def NatsSubscription.ids (sub : NatsSubscription) : List String :=
  sub.arrived.map fun arrival => arrival.2.id

/-- The message is on its way to a receiver that is there. -/
def NatsSubscription.Brings (sub : NatsSubscription) (b : Nat) (id : String) : Prop :=
  sub.bus = b ∧ sub.live = true ∧ id ∈ sub.ids

namespace NatsBuses

def Underway (s : NatsBuses Js) (b : Nat) (id : String) : Prop :=
  ∃ n sub, s.subscriptions n = some sub ∧ sub.Brings b id

/-- The broker is asked to acknowledge the delivery, and does. -/
def confirms (server : NatsServer Js) (s : NatsBuses Js) (b : Nat) (id : String) : Bool :=
  match s.ackMap b id with
  | some seq => (server.ack s.js seq).1.isOk
  | none => false

end NatsBuses

structure AckLedger (Js : Type) where
  buses : NatsBuses Js
  /-- The subscription that the id was made for, and the message. -/
  minted : Nat → String → Option (Nat × Nat)
  /-- The consumer has the message. -/
  received : Nat → String → Bool
  /-- The broker has acknowledged the delivery. -/
  acked : Nat → String → Bool
  /-- The broker has acknowledged a delivery of the message. -/
  settled : Nat → Bool
  /-- An `ack` has returned `Ok`. -/
  answered : Nat → String → Bool
  /-- The last `ack` returned `Err`, for this message. -/
  failed : Nat → String → Option Nat

namespace AckLedger

section
variable {Js : Type} (server : NatsServer Js) (isHeaderName : String → Bool)
  (config : Nat → NatsConfig)

def start (js : Js) : AckLedger Js where
  buses := .start js
  minted _ _ := none
  received _ _ := false
  acked _ _ := false
  settled _ := false
  answered _ _ := false
  failed _ _ := none

/-- The broker has acknowledged a delivery of the message that the id stands for. -/
def settles (l : AckLedger Js) (b : Nat) (id : String) : Bool :=
  match l.minted b id with
  | some (_, seq) => l.settled seq
  | none => false

def confirmed (l : AckLedger Js) (b : Nat) (id : String) : AckLedger Js :=
  match l.buses.ackMap b id with
  | some seq => { l with
      acked := mark l.acked b id true, settled := Function.update l.settled seq true }
  | none => l

/-- What is noted of a step that leaves the buses in `s`. -/
def note (l : AckLedger Js) (s : NatsBuses Js) : NatsEvent → AckLedger Js
  | .pull n _ =>
    match s.subscriptions n with
    | some ⟨b, _, .sending seq msg, _, _⟩ =>
      { l with buses := s, minted := mark l.minted b msg.id (some (n, seq)) }
    | _ => { l with buses := s }
  | .receive n =>
    match l.buses.subscriptions n with
    | some ⟨b, _, _, (_, msg) :: _, _⟩ =>
      { l with buses := s, received := mark l.received b msg.id true }
    | _ => { l with buses := s }
  | .crash b => { l with buses := s, failed := Function.update l.failed b fun _ => none }
  | .ack b id =>
    match (l.buses.ack server b id).1 with
    | .ok _ =>
      let l := if l.buses.confirms server b id then l.confirmed b id else l
      { l with
        buses := s, answered := mark l.answered b id true, failed := mark l.failed b id none }
    | .error _ => { l with buses := s, failed := mark l.failed b id (l.buses.ackMap b id) }
  | _ => { l with buses := s }

def step (l : AckLedger Js) (e : NatsEvent) : Option (AckLedger Js) :=
  (l.buses.step server isHeaderName config e).map fun s => l.note server s e

/-- UUIDs do not repeat: an id was not made before. -/
def Fresh (l : AckLedger Js) : NatsEvent → Prop
  | .pull n draw => ∀ sub ∈ l.buses.subscriptions n, l.minted sub.bus draw.id = none
  | _ => True

structure Honest (l : AckLedger Js) : Prop where
  answered : ∀ b id, l.answered b id = true → l.settles b id = true
  /-- Where an `ack` has failed, the next one finds the same message. -/
  failed : ∀ b id seq, l.failed b id = some seq → l.buses.ackMap b id = some seq
  unacked : ∀ b id, l.buses.ackMap b id ≠ none → l.acked b id = false
  reachable : ∀ b id, l.buses.ackMap b id ≠ none →
    l.received b id = true ∨ l.buses.Underway b id

/-- An `ack` is for a delivery that the broker acknowledges now, or for a message that it
has acknowledged, and no receiver goes while messages are on their way to it. -/
def Orderly (l : AckLedger Js) : NatsEvent → Prop
  | .ack b id => l.buses.confirms server b id = true ∨
      l.buses.ackMap b id = none ∧ l.settles b id = true
  | .drop n => ∀ sub ∈ l.buses.subscriptions n, ∀ id ∈ sub.ids, l.buses.ackMap sub.bus id = none
  | _ => True

instance (l : AckLedger Js) (e : NatsEvent) : Decidable (l.Fresh e) := by
  unfold Fresh
  split <;> infer_instance

instance (l : AckLedger Js) (e : NatsEvent) : Decidable (l.Orderly server e) := by
  unfold Orderly
  split <;> infer_instance

end

structure Inv (l : AckLedger Js) : Prop where
  next : ∀ n, l.buses.next ≤ n → l.buses.subscriptions n = none
  nodup : ∀ n sub, l.buses.subscriptions n = some sub → sub.ids.Nodup
  /-- What has arrived is one subscription's, and is not received. -/
  arrived : ∀ n sub, l.buses.subscriptions n = some sub → ∀ id ∈ sub.ids,
    (∃ seq, l.minted sub.bus id = some (n, seq)) ∧ l.received sub.bus id = false
  received : ∀ b id, l.received b id = true → l.minted b id ≠ none
  acked : ∀ b id, l.acked b id = true → l.minted b id ≠ none
  entered : ∀ b id seq, l.buses.ackMap b id = some seq → ∃ n, l.minted b id = some (n, seq)

end AckLedger

-- ---------------------------------------------------------------------------
-- What one step does to a subscription
-- ---------------------------------------------------------------------------

namespace NatsBuses

structure Moves (s s' : NatsBuses Js) (n : Nat) (sub sub' : NatsSubscription) : Prop where
  before : s.subscriptions n = some sub
  after : s'.subscriptions = Function.update s.subscriptions n (some sub')
  bus : sub'.bus = sub.bus
  next : s'.next = s.next

/-- What is on its way stays so, unless the receiver is gone. -/
structure Idles (s s' : NatsBuses Js) (n : Nat) (sub sub' : NatsSubscription) : Prop
    extends Moves s s' n sub sub' where
  ackMap : s'.ackMap = s.ackMap
  live : sub'.live = sub.live
  ids : sub'.ids.Sublist sub.ids
  kept : sub.live = true → sub'.ids = sub.ids

def UnderwayBesides (s : NatsBuses Js) (n b : Nat) (id : String) : Prop :=
  ∃ m sub, m ≠ n ∧ s.subscriptions m = some sub ∧ sub.Brings b id

section
variable {Js : Type} {server : NatsServer Js} {isHeaderName : String → Bool}
  {config : Nat → NatsConfig} {s s' : NatsBuses Js} {sub sub' : NatsSubscription} {id : String}

theorem underway_iff (hsub : s.subscriptions n = some sub) :
    s.Underway b id ↔ sub.Brings b id ∨ s.UnderwayBesides n b id := by
  constructor
  · rintro ⟨m, sub₁, hm, hbrings⟩
    by_cases hne : m = n
    · subst hne
      obtain rfl := Option.some.inj (hsub.symm.trans hm)
      exact .inl hbrings
    · exact .inr ⟨m, sub₁, hne, hm, hbrings⟩
  · rintro (hbrings | ⟨m, sub₁, -, hm, hbrings⟩)
    · exact ⟨n, sub, hsub, hbrings⟩
    · exact ⟨m, sub₁, hm, hbrings⟩

theorem Moves.own (hm : Moves s s' n sub sub') : s'.subscriptions n = some sub' := by
  rw [hm.after, Function.update_self]

theorem Moves.other (hm : Moves s s' n sub sub') (hne : m ≠ n) :
    s'.subscriptions m = s.subscriptions m := by
  rw [hm.after, Function.update_of_ne hne]

theorem Moves.underway_iff (hm : Moves s s' n sub sub') :
    s'.Underway b id ↔ sub'.Brings b id ∨ s.UnderwayBesides n b id := by
  rw [NatsBuses.underway_iff hm.own]
  apply or_congr_right
  constructor
  · rintro ⟨m, sub₁, hne, hsub, hbrings⟩
    exact ⟨m, sub₁, hne, hm.other hne ▸ hsub, hbrings⟩
  · rintro ⟨m, sub₁, hne, hsub, hbrings⟩
    exact ⟨m, sub₁, hne, (hm.other hne).trans hsub, hbrings⟩

theorem Idles.underway_iff (hm : Idles s s' n sub sub') :
    s'.Underway b id ↔ s.Underway b id := by
  rw [hm.toMoves.underway_iff, NatsBuses.underway_iff hm.before]
  apply or_congr_left
  simp only [NatsSubscription.Brings, hm.bus, hm.live]
  constructor
  · rintro ⟨hb, hlive, hid⟩
    exact ⟨hb, hlive, hm.kept hlive ▸ hid⟩
  · rintro ⟨hb, hlive, hid⟩
    exact ⟨hb, hlive, (hm.kept hlive).symm ▸ hid⟩

theorem idles_listen (h : s.step server isHeaderName config (.listen n) = some s') :
    ∃ sub sub', Idles s s' n sub sub' := by
  obtain ⟨sub, task, hsub, htask, rfl | rfl, rfl⟩ := step_listen h <;>
    refine ⟨sub, _, ⟨hsub, rfl, rfl, rfl⟩, rfl, rfl, ?_, fun _ => ?_⟩ <;>
    simp [NatsSubscription.ids, NatsSubscription.arrived, htask]

theorem idles_send (h : s.step server isHeaderName config (.send n) = some s') :
    ∃ sub sub', Idles s s' n sub sub' := by
  obtain ⟨sub, seq, msg, hsub, htask, ⟨-, -, rfl⟩ | ⟨hgone, rfl⟩⟩ := step_send h
  · refine ⟨sub, _, ⟨hsub, rfl, rfl, rfl⟩, rfl, rfl, ?_, fun _ => ?_⟩ <;>
      simp [NatsSubscription.ids, NatsSubscription.arrived, htask]
  · refine ⟨sub, _, ⟨hsub, rfl, rfl, rfl⟩, rfl, rfl, ?_, fun hlive => ?_⟩
    · simp [NatsSubscription.ids, NatsSubscription.arrived, htask]
    · simp [hgone] at hlive

theorem moves_pull (h : s.step server isHeaderName config (.pull n draw) = some s') :
    ∃ sub sub', Idles s s' n sub sub' ∧ (∀ seq msg, sub'.task ≠ .sending seq msg) ∨
      Moves s s' n sub sub' ∧ sub.live = true ∧ sub'.live = true ∧
        sub'.ids = sub.ids ++ [draw.id] ∧ ∃ seq msg,
          s'.ackMap = mark s.ackMap sub.bus draw.id (some seq) ∧
          sub'.task = .sending seq msg ∧ msg.id = draw.id := by
  obtain ⟨sub, item, js, hsub, htask, -, hpulled⟩ := step_pull h
  cases hpulled with
  | stopped =>
    refine ⟨sub, _, .inl ⟨⟨⟨hsub, rfl, rfl, rfl⟩, rfl, rfl, ?_, fun _ => ?_⟩, by simp⟩⟩ <;>
      simp [NatsSubscription.ids, NatsSubscription.arrived, htask]
  | failed hlive e =>
    refine ⟨sub, sub, .inl ⟨⟨⟨hsub, rfl, rfl, rfl⟩, rfl, rfl, .refl _, fun _ => rfl⟩, ?_⟩⟩
    simp [htask]
  | delivered hlive seq natsMsg =>
    refine ⟨sub, _, .inr ⟨⟨hsub, rfl, rfl, rfl⟩, hlive, hlive, ?_, seq, _, rfl, rfl, rfl⟩⟩
    simp [NatsSubscription.ids, NatsSubscription.arrived, htask, NatsMessage.toMessage,
      Message.withHeaders, Message.new]

theorem moves_receive (h : s.step server isHeaderName config (.receive n) = some s') :
    ∃ sub sub' first queue, Moves s s' n sub sub' ∧ sub.queue = first :: queue ∧
      sub.live = true ∧ sub'.live = true ∧ sub.ids = first.2.id :: sub'.ids ∧
      s'.ackMap = s.ackMap := by
  obtain ⟨sub, first, queue, hsub, hqueue, hlive, rfl⟩ := step_receive h
  refine ⟨sub, _, first, queue, ⟨hsub, rfl, rfl, rfl⟩, hqueue, hlive, hlive, ?_, rfl⟩
  simp only [NatsSubscription.ids, NatsSubscription.arrived, hqueue]
  split <;> simp

theorem moves_drop (h : s.step server isHeaderName config (.drop n) = some s') :
    ∃ sub sub', Moves s s' n sub sub' ∧ sub.live = true ∧ sub'.live = false ∧
      sub'.ids = sub.ids ∧ s'.ackMap = s.ackMap := by
  obtain ⟨sub, hsub, hlive, rfl⟩ := step_drop h
  exact ⟨sub, _, ⟨hsub, rfl, rfl, rfl⟩, hlive, rfl, rfl, rfl⟩

theorem step_publish (h : s.step server isHeaderName config (.publish b topic payload) = some s') :
    ∃ js, s' = { s with js } := by
  cases h
  unfold publish send
  split <;> exact ⟨_, rfl⟩

theorem step_publishWithHeaders
    (h : s.step server isHeaderName config (.publishWithHeaders b topic payload headers) =
      some s') :
    ∃ js, s' = { s with js } := by
  cases h
  unfold publishWithHeaders send
  split <;> exact ⟨_, rfl⟩

theorem step_subscribe (h : s.step server isHeaderName config (.subscribe b topic) = some s') :
    ∃ js, s' = { s with js } ∨ s' = { s with js }.spawn b topic := by
  cases h
  unfold subscribe
  split
  · exact ⟨s.js, .inl rfl⟩
  · split
    · exact ⟨_, .inr rfl⟩
    · exact ⟨_, .inl rfl⟩

theorem ack_none (h : s.ackMap b id = none) : s.ack server b id = (.ok (), s) := by
  simp only [ack, h]

theorem ack_some (server : NatsServer Js) {seq : Nat} (h : s.ackMap b id = some seq) :
    ((∃ e, s.confirms server b id = false ∧ (s.ack server b id).1 = .error e) ∨
      s.confirms server b id = true ∧ (s.ack server b id).1 = .ok ()) ∧
    ∃ js, (s.ack server b id).2 = { s with js, ackMap := mark s.ackMap b id none } := by
  simp only [ack, confirms, h]
  split <;> rename_i hreply <;> simp [hreply, Except.isOk, Except.toBool, mark]

end

end NatsBuses

-- ---------------------------------------------------------------------------
-- The ledger
-- ---------------------------------------------------------------------------

namespace AckLedger

open NatsBuses (Moves Idles)

section
variable {Js : Type} {server : NatsServer Js} {isHeaderName : String → Bool}
  {config : Nat → NatsConfig} {l l' : AckLedger Js} {s' : NatsBuses Js}
  {sub sub' : NatsSubscription} {id : String}

theorem Inv.start (js : Js) : (start js).Inv where
  next _ _ := rfl
  nodup _ _ h := nomatch h
  arrived _ _ h := nomatch h
  received _ _ h := nomatch h
  acked _ _ h := nomatch h
  entered _ _ _ h := nomatch h

theorem Honest.start (js : Js) : (start js).Honest where
  answered _ _ h := nomatch h
  failed _ _ _ h := nomatch h
  unacked _ _ h := absurd rfl h
  reachable _ _ h := absurd rfl h

theorem Inv.js (hi : l.Inv) (js : Js) : Inv { l with buses := { l.buses with js } } :=
  ⟨hi.next, hi.nodup, hi.arrived, hi.received, hi.acked, hi.entered⟩

theorem Honest.js (hp : l.Honest) (js : Js) : Honest { l with buses := { l.buses with js } } :=
  ⟨hp.answered, hp.failed, hp.unacked, hp.reachable⟩

theorem Inv.spawn (hi : l.Inv) (b : Nat) (topic : String) :
    Inv { l with buses := l.buses.spawn b topic } where
  next n hle := by
    have hle : l.buses.next + 1 ≤ n := hle
    have hne : n ≠ l.buses.next := by omega
    simpa [NatsBuses.spawn, NatsBuses.setSubscription, hne] using hi.next n (by omega)
  nodup n sub hsub := by
    by_cases hne : n = l.buses.next
    · simp only [NatsBuses.spawn, NatsBuses.setSubscription, hne, Function.update_self,
        Option.some.injEq] at hsub
      subst hsub
      exact .nil
    · exact hi.nodup n sub (by simpa [NatsBuses.spawn, NatsBuses.setSubscription, hne] using hsub)
  arrived n sub hsub := by
    by_cases hne : n = l.buses.next
    · simp only [NatsBuses.spawn, NatsBuses.setSubscription, hne, Function.update_self,
        Option.some.injEq] at hsub
      subst hsub
      simp [NatsSubscription.ids, NatsSubscription.arrived]
    · exact hi.arrived n sub (by simpa [NatsBuses.spawn, NatsBuses.setSubscription, hne] using hsub)
  received := hi.received
  acked := hi.acked
  entered := hi.entered

theorem Honest.spawn (hi : l.Inv) (hp : l.Honest) (b : Nat) (topic : String) :
    Honest { l with buses := l.buses.spawn b topic } where
  answered := hp.answered
  failed := hp.failed
  unacked := hp.unacked
  reachable b' id hid := by
    refine (hp.reachable b' id hid).imp_right ?_
    rintro ⟨n, sub, hsub, hbrings⟩
    have hne : n ≠ l.buses.next := by
      rintro rfl
      simp [hi.next _ (Nat.le_refl _)] at hsub
    exact ⟨n, sub, by simpa [NatsBuses.spawn, NatsBuses.setSubscription, hne] using hsub, hbrings⟩

theorem Inv.of_moves (hi : l.Inv) (hm : Moves l.buses l'.buses n sub sub')
    (hnodup : sub'.ids.Nodup)
    (hown : ∀ id ∈ sub'.ids,
      (∃ seq, l'.minted sub.bus id = some (n, seq)) ∧ l'.received sub.bus id = false)
    (hother : ∀ m seq b id, m ≠ n → l.minted b id = some (m, seq) → l.received b id = false →
      l'.minted b id = some (m, seq) ∧ l'.received b id = false)
    (hreceived : ∀ b id, l'.received b id = true → l'.minted b id ≠ none)
    (hacked : ∀ b id, l'.acked b id = true → l'.minted b id ≠ none)
    (hentered : ∀ b id seq, l'.buses.ackMap b id = some seq →
      ∃ m, l'.minted b id = some (m, seq)) : l'.Inv where
  next m hle := by
    have hnone := hi.next m (hm.next ▸ hle)
    have hne : m ≠ n := by
      rintro rfl
      simp [hm.before] at hnone
    rw [hm.other hne, hnone]
  nodup m sub₁ hsub := by
    by_cases hne : m = n
    · subst hne
      obtain rfl := Option.some.inj (hm.own.symm.trans hsub)
      exact hnodup
    · exact hi.nodup m sub₁ (hm.other hne ▸ hsub)
  arrived m sub₁ hsub id hid := by
    by_cases hne : m = n
    · subst hne
      obtain rfl := Option.some.inj (hm.own.symm.trans hsub)
      exact hm.bus ▸ hown id hid
    · obtain ⟨⟨seq, hminted⟩, hnot⟩ := hi.arrived m sub₁ (hm.other hne ▸ hsub) id hid
      obtain ⟨hminted, hnot⟩ := hother m seq _ id hne hminted hnot
      exact ⟨⟨seq, hminted⟩, hnot⟩
  received := hreceived
  acked := hacked
  entered := hentered

theorem Inv.wane (hi : l.Inv) (hm : Moves l.buses s' n sub sub')
    (hids : sub'.ids.Sublist sub.ids) (hentries : s'.ackMap = l.buses.ackMap) :
    Inv { l with buses := s' } :=
  hi.of_moves hm ((hi.nodup n sub hm.before).sublist hids)
    (fun id hid => hi.arrived n sub hm.before id (hids.subset hid))
    (fun _ _ _ _ _ hminted hnot => ⟨hminted, hnot⟩) hi.received hi.acked
    fun b id seq hid => hi.entered b id seq ((congrFun₂ hentries b id).symm.trans hid)

theorem Honest.idle (hp : l.Honest) (hm : Idles l.buses s' n sub sub') :
    Honest { l with buses := s' } where
  answered := hp.answered
  failed b id seq hfailed := (congrFun₂ hm.ackMap b id).trans (hp.failed b id seq hfailed)
  unacked b id hid := hp.unacked b id (congrFun₂ hm.ackMap b id ▸ hid)
  reachable b id hid :=
    (hp.reachable b id (congrFun₂ hm.ackMap b id ▸ hid)).imp_right hm.underway_iff.mpr

theorem Inv.deliver (hi : l.Inv) (hm : Moves l.buses s' n sub sub')
    (hids : sub'.ids = sub.ids ++ [id])
    (hentered : s'.ackMap = mark l.buses.ackMap sub.bus id (some seq))
    (hfresh : l.minted sub.bus id = none) :
    Inv { l with buses := s', minted := mark l.minted sub.bus id (some (n, seq)) } := by
  have hnot : l.received sub.bus id = false := by
    by_contra hreceived
    exact hi.received sub.bus id (by simpa using hreceived) hfresh
  have hnew : id ∉ sub.ids := by
    intro hid
    obtain ⟨⟨seq, hminted⟩, -⟩ := hi.arrived n sub hm.before id hid
    simp [hminted] at hfresh
  have hminted : ∀ b id', l.minted b id' ≠ none →
      mark l.minted sub.bus id (some (n, seq)) b id' ≠ none := by
    intro b id' hne
    rw [mark_apply]
    split
    · exact Option.some_ne_none _
    · exact hne
  refine hi.of_moves hm ?_ ?_ ?_ ?_ ?_ ?_
  · rw [hids, ← List.concat_eq_append]
    exact .concat hnew (hi.nodup n sub hm.before)
  · intro id' hid
    simp only [hids, List.mem_append, List.mem_singleton] at hid
    rcases hid with hid | rfl
    · obtain ⟨⟨seq', hbefore⟩, hstill⟩ := hi.arrived n sub hm.before id' hid
      have hother : id' ≠ id := fun heq => hnew (heq ▸ hid)
      exact ⟨⟨seq', by simpa [hother] using hbefore⟩, hstill⟩
    · exact ⟨⟨seq, by simp⟩, hnot⟩
  · intro m seq' b id' hne hbefore hstill
    have hother : ¬ (b = sub.bus ∧ id' = id) := by
      rintro ⟨rfl, rfl⟩
      simp [hfresh] at hbefore
    exact ⟨by simpa [hother] using hbefore, hstill⟩
  · exact fun b id' hreceived => hminted b id' (hi.received b id' hreceived)
  · exact fun b id' hacked => hminted b id' (hi.acked b id' hacked)
  · intro b id' seq' hid
    obtain ⟨hsame, heq⟩ | ⟨hother, hid⟩ := mark_cases ((congrFun₂ hentered b id').symm.trans hid)
    · cases heq
      exact ⟨n, by simp [hsame]⟩
    · simpa [hother] using hi.entered b id' seq' hid

theorem Honest.deliver (hi : l.Inv) (hp : l.Honest) (hm : Moves l.buses s' n sub sub')
    (hlive : sub'.live = true) (hids : sub'.ids = sub.ids ++ [id])
    (hentered : s'.ackMap = mark l.buses.ackMap sub.bus id (some seq))
    (hfresh : l.minted sub.bus id = none) :
    Honest { l with buses := s', minted := mark l.minted sub.bus id (some (n, seq)) } where
  answered b id' hanswered := by
    have hsettles := hp.answered b id' hanswered
    have hother : ¬ (b = sub.bus ∧ id' = id) := by
      rintro ⟨rfl, rfl⟩
      simp [settles, hfresh] at hsettles
    simpa [settles, hother] using hsettles
  failed b id' seq' hfailed := by
    have hentry := hp.failed b id' seq' hfailed
    have hother : ¬ (b = sub.bus ∧ id' = id) := by
      rintro ⟨rfl, rfl⟩
      obtain ⟨m, hminted⟩ := hi.entered _ _ _ hentry
      simp [hminted] at hfresh
    simpa [hentered, hother] using hentry
  unacked b id' hid := by
    by_cases hsame : b = sub.bus ∧ id' = id
    · obtain ⟨rfl, rfl⟩ := hsame
      by_contra hacked
      exact hi.acked _ _ (by simpa using hacked) hfresh
    · exact hp.unacked b id' (by simpa [hentered, hsame] using hid)
  reachable b id' hid := by
    by_cases hsame : b = sub.bus ∧ id' = id
    · obtain ⟨rfl, rfl⟩ := hsame
      exact .inr (hm.underway_iff.mpr (.inl ⟨hm.bus, hlive, by simp [hids]⟩))
    · refine (hp.reachable b id' (by simpa [hentered, hsame] using hid)).imp_right fun hway => ?_
      refine hm.underway_iff.mpr (((NatsBuses.underway_iff hm.before).mp hway).imp_left ?_)
      rintro ⟨rfl, -, hid⟩
      exact ⟨hm.bus, hlive, by simp [hids, hid]⟩

theorem Inv.hand (hi : l.Inv) (hm : Moves l.buses s' n sub sub')
    (hids : sub.ids = id :: sub'.ids) (hentries : s'.ackMap = l.buses.ackMap) :
    Inv { l with buses := s', received := mark l.received sub.bus id true } := by
  obtain ⟨⟨seq, hminted⟩, -⟩ := hi.arrived n sub hm.before id (by simp [hids])
  obtain ⟨hgone, hnodup⟩ := List.nodup_cons.mp (hids ▸ hi.nodup n sub hm.before)
  refine hi.of_moves hm hnodup ?_ ?_ ?_ hi.acked
    fun b id' seq' hid => hi.entered b id' seq' ((congrFun₂ hentries b id').symm.trans hid)
  · intro id' hid
    obtain ⟨hbefore, hstill⟩ := hi.arrived n sub hm.before id' (by simp [hids, hid])
    have hother : id' ≠ id := by
      rintro rfl
      exact hgone hid
    exact ⟨hbefore, by simpa [hother] using hstill⟩
  · intro m seq' b id' hne hbefore hstill
    have hother : ¬ (b = sub.bus ∧ id' = id) := by
      rintro ⟨rfl, rfl⟩
      rw [hminted] at hbefore
      cases hbefore
      exact hne rfl
    exact ⟨hbefore, by simpa [hother] using hstill⟩
  · intro b id' hreceived
    obtain ⟨⟨rfl, rfl⟩, -⟩ | ⟨-, hreceived⟩ := mark_cases hreceived
    · simp [hminted]
    · exact hi.received b id' hreceived

theorem Honest.hand (hp : l.Honest) (hm : Moves l.buses s' n sub sub')
    (hlive : sub'.live = true) (hids : sub.ids = id :: sub'.ids)
    (hentries : s'.ackMap = l.buses.ackMap) :
    Honest { l with buses := s', received := mark l.received sub.bus id true } where
  answered := hp.answered
  failed b id' seq hfailed := (congrFun₂ hentries b id').trans (hp.failed b id' seq hfailed)
  unacked b id' hid := hp.unacked b id' (congrFun₂ hentries b id' ▸ hid)
  reachable b id' hid := by
    by_cases hsame : b = sub.bus ∧ id' = id
    · exact .inl (by simp [hsame])
    · refine (hp.reachable b id' (congrFun₂ hentries b id' ▸ hid)).imp
        (fun hreceived => by simp [hsame, hreceived]) fun hway => ?_
      refine hm.underway_iff.mpr (((NatsBuses.underway_iff hm.before).mp hway).imp_left ?_)
      rintro ⟨rfl, -, hid⟩
      refine ⟨hm.bus, hlive, ?_⟩
      simpa [hids, show id' ≠ id from fun heq => hsame ⟨rfl, heq⟩] using hid

/-- A receiver goes. What was on its way is out of reach, so there may be no entry for it. -/
theorem honest_drop_iff (hi : l.Inv) (hp : l.Honest) (hm : Moves l.buses s' n sub sub')
    (hgone : sub'.live = false) (hentries : s'.ackMap = l.buses.ackMap) :
    Honest { l with buses := s' } ↔ ∀ id ∈ sub.ids, l.buses.ackMap sub.bus id = none := by
  constructor
  · intro hp' id hid
    obtain ⟨⟨seq, hminted⟩, hnot⟩ := hi.arrived n sub hm.before id hid
    by_contra hentry
    rcases hp'.reachable sub.bus id (congrFun₂ hentries sub.bus id ▸ hentry) with
      hreceived | hway
    · exact absurd hreceived (by simp [hnot])
    · rcases hm.underway_iff.mp hway with ⟨-, hlive, -⟩ | ⟨m, sub₁, hne, hsub, hb, -, hid₁⟩
      · exact absurd hlive (by simp [hgone])
      · obtain ⟨⟨seq₁, hminted₁⟩, -⟩ := hi.arrived m sub₁ hsub id hid₁
        rw [hb, hminted] at hminted₁
        cases hminted₁
        exact hne rfl
  · intro hnone
    refine ⟨hp.answered, ?_, ?_, ?_⟩
    · exact fun b id seq hfailed => (congrFun₂ hentries b id).trans (hp.failed b id seq hfailed)
    · exact fun b id hid => hp.unacked b id (congrFun₂ hentries b id ▸ hid)
    · intro b id hid
      have hentry : l.buses.ackMap b id ≠ none := congrFun₂ hentries b id ▸ hid
      refine (hp.reachable b id hentry).imp_right fun hway => ?_
      refine hm.underway_iff.mpr (((NatsBuses.underway_iff hm.before).mp hway).imp_left ?_)
      rintro ⟨rfl, -, harrived⟩
      exact absurd (hnone id harrived) hentry

theorem Inv.crash (hi : l.Inv)
    (h : l.buses.step server isHeaderName config (.crash b) = some s') :
    (l.note server s' (.crash b)).Inv := by
  cases h
  refine ⟨?_, ?_, ?_, hi.received, hi.acked, ?_⟩
  · exact fun n hle => by simp [note, hi.next n hle]
  · exact fun n sub hsub => hi.nodup n sub (Option.filter_eq_some_iff.mp hsub).1
  · exact fun n sub hsub => hi.arrived n sub (Option.filter_eq_some_iff.mp hsub).1
  · intro b' id seq hid
    by_cases hb : b' = b
    · simp [note, hb] at hid
    · exact hi.entered b' id seq (by simpa [note, hb] using hid)

theorem Honest.crash (hp : l.Honest)
    (h : l.buses.step server isHeaderName config (.crash b) = some s') :
    (l.note server s' (.crash b)).Honest := by
  cases h
  refine ⟨hp.answered, ?_, ?_, ?_⟩
  · intro b' id seq hfailed
    by_cases hb : b' = b
    · simp [note, hb] at hfailed
    · simp only [note, ne_eq, hb, not_false_eq_true, Function.update_of_ne] at hfailed ⊢
      exact hp.failed b' id seq hfailed
  · intro b' id hid
    by_cases hb : b' = b
    · simp [note, hb] at hid
    · exact hp.unacked b' id (by simpa [note, hb] using hid)
  · intro b' id hid
    by_cases hb : b' = b
    · simp [note, hb] at hid
    · refine (hp.reachable b' id (by simpa [note, hb] using hid)).imp_right ?_
      rintro ⟨n, sub, hsub, hbrings⟩
      refine ⟨n, sub, Option.filter_eq_some_iff.mpr ⟨hsub, ?_⟩, hbrings⟩
      simpa [hbrings.1] using hb

theorem note_ack_unentered (hnone : l.buses.ackMap b id = none) :
    l.note server (l.buses.ack server b id).2 (.ack b id) =
      { l with answered := mark l.answered b id true, failed := mark l.failed b id none } := by
  simp [note, NatsBuses.ack_none hnone, NatsBuses.confirms, hnone]

theorem note_ack_entered (server : NatsServer Js) (hsome : l.buses.ackMap b id = some seq) :
    ∃ js, l.note server (l.buses.ack server b id).2 (.ack b id) =
      if l.buses.confirms server b id then
        { l with
          buses := { l.buses with js, ackMap := mark l.buses.ackMap b id none }
          acked := mark l.acked b id true
          settled := Function.update l.settled seq true
          answered := mark l.answered b id true
          failed := mark l.failed b id none }
      else
        { l with
          buses := { l.buses with js, ackMap := mark l.buses.ackMap b id none }
          failed := mark l.failed b id (some seq) } := by
  obtain ⟨hanswer, js, hjs⟩ := NatsBuses.ack_some server hsome
  refine ⟨js, ?_⟩
  rcases hanswer with ⟨e, hno, hreply⟩ | ⟨hyes, hreply⟩
  · simp [note, hreply, hno, hjs, hsome]
  · simp [note, hreply, hyes, hjs, confirmed, hsome]

theorem Inv.ack (hi : l.Inv) (b : Nat) (id : String) :
    (l.note server (l.buses.ack server b id).2 (.ack b id)).Inv := by
  cases hentry : l.buses.ackMap b id with
  | none =>
    rw [note_ack_unentered hentry]
    exact ⟨hi.next, hi.nodup, hi.arrived, hi.received, hi.acked, hi.entered⟩
  | some seq =>
    have hkept : ∀ b' id' seq', mark l.buses.ackMap b id none b' id' = some seq' →
        ∃ n, l.minted b' id' = some (n, seq') := by
      intro b' id' seq' hid
      obtain ⟨-, hnone⟩ | ⟨-, hid⟩ := mark_cases hid
      · cases hnone
      · exact hi.entered b' id' seq' hid
    obtain ⟨js, hnote⟩ := note_ack_entered server hentry
    rw [hnote]
    split
    · refine ⟨hi.next, hi.nodup, hi.arrived, hi.received, ?_, hkept⟩
      intro b' id' hacked
      obtain ⟨⟨rfl, rfl⟩, -⟩ | ⟨-, hacked⟩ := mark_cases hacked
      · obtain ⟨n, hminted⟩ := hi.entered _ _ _ hentry
        simp [hminted]
      · exact hi.acked b' id' hacked
    · exact ⟨hi.next, hi.nodup, hi.arrived, hi.received, hi.acked, hkept⟩

theorem honest_ack_unentered_iff (hp : l.Honest) (hnone : l.buses.ackMap b id = none) :
    Honest { l with answered := mark l.answered b id true, failed := mark l.failed b id none } ↔
      l.settles b id = true := by
  constructor
  · exact fun hp' => hp'.answered b id (by simp)
  · intro hsettles
    refine ⟨?_, ?_, hp.unacked, hp.reachable⟩
    · intro b' id' hanswered
      obtain ⟨⟨rfl, rfl⟩, -⟩ | ⟨-, hanswered⟩ := mark_cases hanswered
      · exact hsettles
      · exact hp.answered b' id' hanswered
    · intro b' id' seq hfailed
      obtain ⟨-, hnone⟩ | ⟨-, hfailed⟩ := mark_cases hfailed
      · cases hnone
      · exact hp.failed b' id' seq hfailed

theorem settles_update (h : l.settles b id = true) :
    settles { l with settled := Function.update l.settled seq true } b id = true := by
  unfold settles at h ⊢
  split at h
  · rename_i hminted
    rw [hminted]
    grind [Function.update_apply]
  · cases h

theorem Honest.confirmed (hi : l.Inv) (hp : l.Honest) (js : Js)
    (hsome : l.buses.ackMap b id = some seq) :
    Honest { l with
      buses := { l.buses with js, ackMap := mark l.buses.ackMap b id none }
      acked := mark l.acked b id true
      settled := Function.update l.settled seq true
      answered := mark l.answered b id true
      failed := mark l.failed b id none } := by
  refine ⟨?_, ?_, ?_, ?_⟩
  · intro b' id' hanswered
    obtain ⟨⟨rfl, rfl⟩, -⟩ | ⟨-, hanswered⟩ := mark_cases hanswered
    · obtain ⟨n, hminted⟩ := hi.entered _ _ _ hsome
      simp [settles, hminted]
    · exact settles_update (hp.answered b' id' hanswered)
  · intro b' id' seq hfailed
    obtain ⟨-, hnone⟩ | ⟨hother, hfailed⟩ := mark_cases hfailed
    · cases hnone
    · simpa [hother] using hp.failed b' id' seq hfailed
  · intro b' id' hid
    by_cases hsame : b' = b ∧ id' = id
    · simp [hsame] at hid
    · simpa [hsame] using hp.unacked b' id' (by simpa [hsame] using hid)
  · intro b' id' hid
    by_cases hsame : b' = b ∧ id' = id
    · simp [hsame] at hid
    · exact hp.reachable b' id' (by simpa [hsame] using hid)

/-- An `Ok` without an entry needs an acknowledgement from before, and an `Err` cannot be
repeated: its entry is gone. -/
theorem honest_ack_iff (hi : l.Inv) (hp : l.Honest) (b : Nat) (id : String) :
    (l.note server (l.buses.ack server b id).2 (.ack b id)).Honest ↔
      l.Orderly server (.ack b id) := by
  cases hentry : l.buses.ackMap b id with
  | none =>
    rw [note_ack_unentered hentry, honest_ack_unentered_iff hp hentry]
    simp [Orderly, NatsBuses.confirms, hentry]
  | some seq =>
    obtain ⟨js, hnote⟩ := note_ack_entered server hentry
    rw [hnote]
    split
    · rename_i hyes
      exact iff_of_true (hp.confirmed hi js hentry) (.inl hyes)
    · rename_i hno
      refine iff_of_false (fun hp' => ?_) (by simp [Orderly, hno, hentry])
      simpa using hp'.failed b id seq (by simp)

theorem step_eq (h : l.step server isHeaderName config e = some l') :
    ∃ s', l.buses.step server isHeaderName config e = some s' ∧ l' = l.note server s' e := by
  obtain ⟨s', hs, rfl⟩ := Option.map_eq_some_iff.mp h
  exact ⟨s', hs, rfl⟩

theorem note_pull_idle (hm : Moves l.buses s' n sub sub')
    (htask : ∀ seq msg, sub'.task ≠ .sending seq msg) :
    l.note server s' (.pull n draw) = { l with buses := s' } := by
  obtain ⟨b, topic, task, queue, live⟩ := sub'
  cases task with
  | sending seq msg => exact absurd rfl (htask seq msg)
  | _ => simp [note, hm.own]

theorem note_pull_delivery (hm : Moves l.buses s' n sub sub')
    (htask : sub'.task = .sending seq msg) :
    l.note server s' (.pull n draw) =
      { l with buses := s', minted := mark l.minted sub.bus msg.id (some (n, seq)) } := by
  have hbus := hm.bus
  obtain ⟨b, topic, task, queue, live⟩ := sub'
  cases htask
  cases hbus
  simp [note, hm.own]

theorem note_receive (hm : Moves l.buses s' n sub sub') (hqueue : sub.queue = first :: queue) :
    l.note server s' (.receive n) =
      { l with buses := s', received := mark l.received sub.bus first.2.id true } := by
  have hbefore := hm.before
  obtain ⟨b, topic, task, _, live⟩ := sub
  cases hqueue
  simp [note, hbefore]

theorem inv_step (hi : l.Inv) (hfresh : l.Fresh e)
    (h : l.step server isHeaderName config e = some l') : l'.Inv := by
  obtain ⟨s', hs, rfl⟩ := step_eq h
  cases e with
  | publish b topic payload =>
    obtain ⟨js, rfl⟩ := NatsBuses.step_publish hs
    exact hi.js js
  | publishWithHeaders b topic payload headers =>
    obtain ⟨js, rfl⟩ := NatsBuses.step_publishWithHeaders hs
    exact hi.js js
  | subscribe b topic =>
    obtain ⟨js, rfl | rfl⟩ := NatsBuses.step_subscribe hs
    · exact hi.js js
    · exact (hi.js js).spawn b topic
  | listen n =>
    obtain ⟨sub, sub', hm⟩ := NatsBuses.idles_listen hs
    exact hi.wane hm.toMoves hm.ids hm.ackMap
  | send n =>
    obtain ⟨sub, sub', hm⟩ := NatsBuses.idles_send hs
    exact hi.wane hm.toMoves hm.ids hm.ackMap
  | pull n draw =>
    obtain ⟨sub, sub', ⟨hm, htask⟩ | ⟨hm, -, -, hids, seq, msg, hentered, htask, hid⟩⟩ :=
      NatsBuses.moves_pull hs
    · rw [note_pull_idle hm.toMoves htask]
      exact hi.wane hm.toMoves hm.ids hm.ackMap
    · rw [note_pull_delivery hm htask, hid]
      exact hi.deliver hm hids hentered (hfresh sub hm.before)
  | receive n =>
    obtain ⟨sub, sub', first, queue, hm, hqueue, -, -, hids, hentries⟩ :=
      NatsBuses.moves_receive hs
    rw [note_receive hm hqueue]
    exact hi.hand hm hids hentries
  | drop n =>
    obtain ⟨sub, sub', hm, -, -, hids, hentries⟩ := NatsBuses.moves_drop hs
    exact hi.wane hm (hids ▸ .refl _) hentries
  | crash b => exact hi.crash hs
  | ack b id =>
    cases hs
    exact hi.ack b id

/-- One step keeps the ledger honest exactly when it is orderly. -/
theorem honest_step_iff (hi : l.Inv) (hp : l.Honest) (hfresh : l.Fresh e)
    (h : l.step server isHeaderName config e = some l') :
    l'.Honest ↔ l.Orderly server e := by
  obtain ⟨s', hs, rfl⟩ := step_eq h
  cases e with
  | publish b topic payload =>
    obtain ⟨js, rfl⟩ := NatsBuses.step_publish hs
    exact iff_of_true (hp.js js) trivial
  | publishWithHeaders b topic payload headers =>
    obtain ⟨js, rfl⟩ := NatsBuses.step_publishWithHeaders hs
    exact iff_of_true (hp.js js) trivial
  | subscribe b topic =>
    obtain ⟨js, rfl | rfl⟩ := NatsBuses.step_subscribe hs
    · exact iff_of_true (hp.js js) trivial
    · exact iff_of_true ((hp.js js).spawn (hi.js js) b topic) trivial
  | listen n =>
    obtain ⟨sub, sub', hm⟩ := NatsBuses.idles_listen hs
    exact iff_of_true (hp.idle hm) trivial
  | send n =>
    obtain ⟨sub, sub', hm⟩ := NatsBuses.idles_send hs
    exact iff_of_true (hp.idle hm) trivial
  | pull n draw =>
    refine iff_of_true ?_ trivial
    obtain ⟨sub, sub', ⟨hm, htask⟩ | ⟨hm, -, hlive, hids, seq, msg, hentered, htask, hid⟩⟩ :=
      NatsBuses.moves_pull hs
    · rw [note_pull_idle hm.toMoves htask]
      exact hp.idle hm
    · rw [note_pull_delivery hm htask, hid]
      exact hp.deliver hi hm hlive hids hentered (hfresh sub hm.before)
  | receive n =>
    obtain ⟨sub, sub', first, queue, hm, hqueue, -, hlive, hids, hentries⟩ :=
      NatsBuses.moves_receive hs
    rw [note_receive hm hqueue]
    exact iff_of_true (hp.hand hm hlive hids hentries) trivial
  | drop n =>
    obtain ⟨sub, sub', hm, -, hgone, -, hentries⟩ := NatsBuses.moves_drop hs
    refine (honest_drop_iff hi hp hm hgone hentries).trans ?_
    simp [Orderly, hm.before]
  | crash b => exact iff_of_true (hp.crash hs) trivial
  | ack b id =>
    cases hs
    exact honest_ack_iff hi hp b id

theorem inv_run (hfresh : Guarded (step server isHeaderName config) Fresh l es) (hi : l.Inv)
    (hr : run (step server isHeaderName config) l es = some l') : l'.Inv :=
  (hfresh.invariant hi fun _ _ _ hi he h => inv_step hi he h).last hr

end

/-- With a new id for each delivery, whatever the broker does: an `Ok` stands for an
acknowledgement of the broker, an `Err` can be repeated, and the map has only deliveries
that are not acknowledged and that a consumer can get at, exactly in the runs in which no
`ack` fails or is for an id without an entry whose message is not acknowledged, and no
receiver goes while messages are on their way to it. -/
theorem honest_iff_orderly {Js : Type} (server : NatsServer Js) (isHeaderName : String → Bool)
    (config : Nat → NatsConfig) (js : Js) (es : List NatsEvent)
    (hfresh : Guarded (step server isHeaderName config) Fresh (start js) es) :
    Always (step server isHeaderName config) Honest (start js) es ↔
      Guarded (step server isHeaderName config) (Orderly server) (start js) es :=
  hfresh.always_iff (.start js) (.start js)
    (fun _ _ _ hi _ he h _ => inv_step hi he h) fun _ _ _ hi hp he h => honest_step_iff hi hp he h

/-- A message up to the pump's `send`. -/
def oneDelivery : List NatsEvent :=
  [.publish 0 "jobs" [1], .subscribe 0 "jobs", .listen 0, .pull 0 ⟨"m1", 0⟩]

abbrev storedStep := step storedNats (fun _ => true) fun _ => NatsBuses.plainNatsConfig

/-- An `ack` is called twice and succeeds, and then the receiver goes. -/
def ackThenDrop : List NatsEvent :=
  oneDelivery ++ [.send 0, .receive 0, .ack 0 "m1", .ack 0 "m1", .drop 0]

theorem honest_iff_orderly_ackThenDrop :
    Guarded storedStep Fresh (start StoredJs.empty) ackThenDrop ∧
      Guarded storedStep (Orderly storedNats) (start StoredJs.empty) ackThenDrop ∧
      Always storedStep Honest (start StoredJs.empty) ackThenDrop := by
  have hfresh : Guarded storedStep Fresh (start StoredJs.empty) ackThenDrop := by decide +kernel
  have horderly : Guarded storedStep (Orderly storedNats) (start StoredJs.empty) ackThenDrop := by
    decide +kernel
  exact ⟨hfresh, horderly, (honest_iff_orderly _ _ _ _ _ hfresh).mpr horderly⟩

/-- The first acknowledgement of a delivery is lost with the connection, and the message is
to be handed out again. -/
def flakyNats : NatsServer StoredJs :=
  { storedNats with
    ack := fun s seq =>
      if seq ∈ s.handed then
        (.error "connection closed", { s with handed := s.handed.erase seq })
      else (.ok (), s) }

abbrev flakyStep := step flakyNats (fun _ => true) fun _ => NatsBuses.plainNatsConfig

def ackAgain : List NatsEvent := oneDelivery ++ [.send 0, .receive 0, .ack 0 "m1", .ack 0 "m1"]

def receiverGone : List NatsEvent := oneDelivery ++ [.drop 0, .send 0]

theorem ackAgain_run :
    (run flakyStep (start StoredJs.empty) ackAgain).map
      (fun l => (l.answered 0 "m1", l.settles 0 "m1")) = some (true, false) := by
  decide +kernel

theorem receiverGone_run :
    (run flakyStep (start StoredJs.empty) receiverGone).map
      (fun l => (l.buses.ackMap 0 "m1", l.received 0 "m1", l.buses.next,
        (l.buses.subscriptions 0).map fun sub => sub.live)) =
      some (some 0, false, 1, some false) := by
  decide +kernel

/-- The repeated `ack` returns `Ok` without the broker; and the entry of the delivery stays
though no consumer can get at it. -/
theorem ok_without_broker :
    (∃ l, run flakyStep (start StoredJs.empty) ackAgain = some l ∧
      l.answered 0 "m1" = true ∧ l.settles 0 "m1" = false ∧ ¬ l.Honest) ∧
    ∃ l, run flakyStep (start StoredJs.empty) receiverGone = some l ∧
      l.buses.ackMap 0 "m1" = some 0 ∧ l.received 0 "m1" = false ∧
      ¬ l.buses.Underway 0 "m1" ∧ ¬ l.Honest := by
  constructor
  · obtain ⟨l, hr, heq⟩ := Option.map_eq_some_iff.mp ackAgain_run
    obtain ⟨hanswered, hunsettled⟩ := Prod.mk.inj heq
    refine ⟨l, hr, hanswered, hunsettled, fun hp => ?_⟩
    simpa [hunsettled] using hp.answered 0 "m1" hanswered
  · obtain ⟨l, hr, heq⟩ := Option.map_eq_some_iff.mp receiverGone_run
    simp only [Prod.mk.injEq] at heq
    obtain ⟨hentry, hnot, hnext, hgone⟩ := heq
    have hi : l.Inv := inv_run (by decide +kernel) (.start _) hr
    have hlost : ¬ l.buses.Underway 0 "m1" := by
      rintro ⟨n, sub, hsub, -, hlive, -⟩
      cases n with
      | zero => simp [hsub, hlive] at hgone
      | succ n => simp [hi.next (n + 1) (by omega)] at hsub
    refine ⟨l, hr, hentry, hnot, hlost, fun hp => ?_⟩
    rcases hp.reachable 0 "m1" (by simp [hentry]) with hreceived | hway
    · simp [hnot] at hreceived
    · exact hlost hway

end AckLedger

end Rinfra.Mq

import Mathlib.Data.List.Nodup
import Rinfra.Mq.StreamView

/-!
# Where an entry is

A read takes entries from the stream, and from then on they are in the batch of
one task and in its channel. `Held` is that an entry is unread or on its way to
a live receiver, and `Loses` says which steps take it from there.
-/

namespace Rinfra.Mq

namespace StreamSubscription

def ids (sub : StreamSubscription) : List String :=
  sub.queue.map Message.id ++ sub.task.batch.map StreamEntry.id

end StreamSubscription

namespace StreamBuses

-- ---------------------------------------------------------------------------
-- Where an entry is
-- ---------------------------------------------------------------------------

section
variable (config : Nat → RedisStreamMqConfig)

def Consumes (sub : StreamSubscription) (group topic : String) : Prop :=
  (config sub.bus).groupName = group ∧ sub.topic = topic

def Unread (v : StreamView) (group topic id : String) : Prop :=
  id ∈ ((v.db (streamKey topic)).unread group).map StreamEntry.id

/-- The subscription has the entry on its way to its receiver. -/
def Brings (sub : StreamSubscription) (group topic id : String) : Prop :=
  sub.live = true ∧ Consumes config sub group topic ∧ id ∈ sub.ids

def Carried (v : StreamView) (group topic id : String) : Prop :=
  ∃ n sub, v.subscriptions n = some sub ∧ Brings config sub group topic id

def Held (v : StreamView) (group topic id : String) : Prop :=
  v.Unread group topic id ∨ v.Carried config group topic id

def Loses (v : StreamView) (group topic id : String) : StreamEvent → Prop
  | .read n => ∃ sub, v.subscriptions n = some sub ∧ sub.live = false ∧
      Consumes config sub group topic ∧ id ∈ (v.batchFor config sub).map StreamEntry.id
  | .readFailed n handled => handled = true ∧ ∃ sub, v.subscriptions n = some sub ∧
      Consumes config sub group topic ∧ id ∈ (v.batchFor config sub).map StreamEntry.id
  | .receive n => ∃ sub, v.subscriptions n = some sub ∧ Brings config sub group topic id ∧
      sub.queue.head?.map Message.id = some id
  | .drop n => ∃ sub, v.subscriptions n = some sub ∧ Brings config sub group topic id
  | .crash b => ∃ n sub, v.subscriptions n = some sub ∧ sub.bus = b ∧
      Brings config sub group topic id
  | _ => False

structure Inv (v : StreamView) : Prop where
  valid : ∀ key, (v.db key).Valid
  grouped : v.Grouped config
  next : ∀ n, v.next ≤ n → v.subscriptions n = none
  running : ∀ n sub, v.subscriptions n = some sub → sub.live = true → sub.task ≠ .stopped
  nodup : ∀ n sub, v.subscriptions n = some sub → sub.live = true → sub.ids.Nodup
  /-- What is carried was handed out. -/
  handed : ∀ group topic id, v.Carried config group topic id →
    id ∈ (v.db (streamKey topic)).ids ∧ ¬ v.Unread group topic id
  /-- And to one subscription. -/
  unique : ∀ n n' sub sub' group topic id, v.subscriptions n = some sub →
    v.subscriptions n' = some sub' → Brings config sub group topic id →
    Brings config sub' group topic id → n = n'

end

section
variable {json : HeaderJson} {config : Nat → RedisStreamMqConfig} {v v' : StreamView}
  {group topic id : String}

@[simp] theorem unread_setSubscription :
    (v.setSubscription n sub).Unread group topic id ↔ v.Unread group topic id := Iff.rfl

@[simp] theorem unread_groupCreated :
    (v.groupCreated b key).Unread group topic id ↔ v.Unread group topic id := Iff.rfl

@[simp] theorem unread_spawn :
    (v.spawn b t).Unread group topic id ↔ v.Unread group topic id := Iff.rfl

@[simp] theorem carried_setStream :
    (v.setStream key stream).Carried config group topic id ↔ v.Carried config group topic id :=
  Iff.rfl

@[simp] theorem carried_groupCreated :
    (v.groupCreated b key).Carried config group topic id ↔ v.Carried config group topic id :=
  Iff.rfl

theorem unread_readFor (hv : ∀ key, (v.db key).Valid) :
    (v.readFor config sub).Unread group topic id ↔ v.Unread group topic id ∧
      ¬ (Consumes config sub group topic ∧ id ∈ (v.batchFor config sub).map StreamEntry.id) := by
  simp only [Unread, readFor, setStream_db, streamKey_inj, Consumes, batchFor]
  by_cases ht : topic = sub.topic
  · subst ht
    by_cases hg : (config sub.bus).groupName = group
    · subst hg
      have hsplit := (v.db (streamKey sub.topic)).batch_append_unread
        (config sub.bus).groupName (config sub.bus).batchSize
      have hnodup : (((v.db (streamKey sub.topic)).unread (config sub.bus).groupName).map
          StreamEntry.id).Nodup := (hv (streamKey sub.topic)).nodup.sublist
        ((List.drop_sublist _ _).map _)
      rw [← hsplit, List.map_append, List.nodup_append] at hnodup
      rw [← hsplit]
      simp only [if_true, List.map_append, List.mem_append]
      grind
    · simp [hg, Stream.unread_read_other (Ne.symm hg)]
  · simp [ht, Ne.symm ht]

theorem batchFor_unread (hc : Consumes config sub group topic)
    (hid : id ∈ (v.batchFor config sub).map StreamEntry.id) : v.Unread group topic id := by
  obtain ⟨rfl, rfl⟩ := hc
  exact List.map_subset _ ((v.db _).batch_isPrefix _ _).subset hid

theorem brings_read (htask : sub.task = .reading) (batch : List StreamEntry) :
    Brings config { sub with task := .ofBatch batch } group topic id ↔
      Brings config sub group topic id ∨ sub.live = true ∧ Consumes config sub group topic ∧
        id ∈ batch.map StreamEntry.id := by
  simp only [Brings, Consumes, StreamSubscription.ids, htask, StreamTask.batch_ofBatch,
    List.mem_append]
  simp only [StreamTask.batch, List.map_nil, List.not_mem_nil, or_false]
  grind

def CarriedBesides (config : Nat → RedisStreamMqConfig) (v : StreamView) (n : Nat)
    (group topic id : String) : Prop :=
  ∃ m sub, m ≠ n ∧ v.subscriptions m = some sub ∧ Brings config sub group topic id

@[simp] theorem carriedBesides_readFor :
    (v.readFor config sub).CarriedBesides config n group topic id ↔
      v.CarriedBesides config n group topic id := Iff.rfl

theorem carried_iff (hsub : v.subscriptions n = some sub) :
    v.Carried config group topic id ↔
      Brings config sub group topic id ∨ v.CarriedBesides config n group topic id := by
  constructor
  · rintro ⟨m, sub', hm, hb⟩
    by_cases hmn : m = n
    · subst hmn
      cases hsub.symm.trans hm
      exact .inl hb
    · exact .inr ⟨m, sub', hmn, hm, hb⟩
  · rintro (hb | ⟨m, sub', -, hm, hb⟩)
    · exact ⟨n, sub, hsub, hb⟩
    · exact ⟨m, sub', hm, hb⟩

theorem carried_setSubscription (v : StreamView) (n : Nat) (sub : StreamSubscription) :
    (v.setSubscription n sub).Carried config group topic id ↔
      Brings config sub group topic id ∨ v.CarriedBesides config n group topic id := by
  have hbesides : (v.setSubscription n sub).CarriedBesides config n group topic id ↔
      v.CarriedBesides config n group topic id := by
    refine exists_congr fun m => exists_congr fun sub' => and_congr_right fun hm => ?_
    simp [setSubscription, hm]
  have hsub : (v.setSubscription n sub).subscriptions n = some sub := by simp [setSubscription]
  rw [carried_iff hsub, hbesides]

theorem brings_setTask {sub : StreamSubscription}
    (hids : StreamSubscription.ids { sub with task, queue } = sub.ids) :
    Brings config { sub with task, queue } group topic id ↔ Brings config sub group topic id := by
  simp only [Brings, Consumes, hids]

theorem held_setTask {sub : StreamSubscription} (hsub : v.subscriptions n = some sub)
    (hids : StreamSubscription.ids { sub with task, queue } = sub.ids) :
    (v.setSubscription n { sub with task, queue }).Held config group topic id ↔
      v.Held config group topic id := by
  simp only [Held, unread_setSubscription, carried_setSubscription, carried_iff hsub,
    brings_setTask hids]

theorem unread_created {t : String}
    (hnone : (v.db (streamKey t)).handed (config b).groupName = none) :
    (v.setStream (streamKey t) ((v.db (streamKey t)).createGroup (config b).groupName)).Unread
      group topic id ↔ v.Unread group topic id := by
  simp only [Unread, setStream_db, streamKey_inj]
  split <;> simp_all

theorem unread_added {t id' : String} (hv : ∀ key, (v.db key).Valid)
    (hid : id ∈ (v.db (streamKey topic)).ids) (hid' : id' ∉ (v.db (streamKey t)).ids) :
    (v.setStream (streamKey t) ((v.db (streamKey t)).add ⟨id', fields⟩)).Unread group topic id ↔
      v.Unread group topic id := by
  simp only [Unread, setStream_db, streamKey_inj]
  split
  · rename_i ht
    subst ht
    have hne : id ≠ id' := fun heq => hid' (heq ▸ hid)
    simp [Stream.unread_add (hv _), hne]
  · rfl

theorem unread_acked {t id' : String} :
    (v.setStream (streamKey t) ((v.db (streamKey t)).ack (config b).groupName id')).Unread
      group topic id ↔ v.Unread group topic id := by
  simp only [Unread, setStream_db, streamKey_inj]
  split <;> simp_all

theorem carried_spawn (hnone : v.subscriptions v.next = none) :
    (v.spawn b t).Carried config group topic id ↔ v.Carried config group topic id := by
  have hbesides : v.CarriedBesides config v.next group topic id ↔
      v.Carried config group topic id := by
    simp only [CarriedBesides, Carried]
    grind
  rw [← hbesides]
  refine (carried_setSubscription v v.next _).trans ?_
  simp [Brings, StreamSubscription.ids, StreamTask.batch]

theorem held_crash (hi : v.Inv config) :
    Held config { v with
        createdGroups := Function.update v.createdGroups b []
        subscriptions := fun n => (v.subscriptions n).filter fun sub => sub.bus ≠ b }
      group topic id ↔ v.Held config group topic id ∧
        ¬ v.Loses config group topic id (.crash b) := by
  have hcarried : Carried config { v with
      createdGroups := Function.update v.createdGroups b []
      subscriptions := fun n => (v.subscriptions n).filter fun sub => sub.bus ≠ b }
      group topic id ↔ v.Carried config group topic id ∧
        ¬ v.Loses config group topic id (.crash b) := by
    simp only [Carried, Loses, Option.filter_eq_some_iff]
    constructor
    · rintro ⟨n, sub, ⟨hsub, hb⟩, hbrings⟩
      refine ⟨⟨n, sub, hsub, hbrings⟩, ?_⟩
      rintro ⟨n', sub', hsub', hb', hbrings'⟩
      cases hi.unique n n' sub sub' group topic id hsub hsub' hbrings hbrings'
      cases hsub.symm.trans hsub'
      simp [hb'] at hb
    · rintro ⟨⟨n, sub, hsub, hbrings⟩, hkeep⟩
      refine ⟨n, sub, ⟨hsub, ?_⟩, hbrings⟩
      simp only [ne_eq, decide_not, Bool.not_eq_eq_eq_not, Bool.not_true, decide_eq_false_iff_not]
      exact fun hb => hkeep ⟨n, sub, hsub, hb, hbrings⟩
  have hlost : v.Loses config group topic id (.crash b) → ¬ v.Unread group topic id := by
    rintro ⟨n, sub, hsub, -, hbrings⟩
    exact (hi.handed group topic id ⟨n, sub, hsub, hbrings⟩).2
  have hunread : Unread { v with
      createdGroups := Function.update v.createdGroups b []
      subscriptions := fun n => (v.subscriptions n).filter fun sub => sub.bus ≠ b }
      group topic id ↔ v.Unread group topic id := Iff.rfl
  rw [Held, Held, hcarried, hunread]
  grind

/-- An entry that is held stays so unless the step loses it. -/
theorem held_step (hi : v.Inv config) (h : Moves json config v e v')
    (hid : id ∈ (v.db (streamKey topic)).ids) :
    v'.Held config group topic id ↔ v.Held config group topic id ∧
      ¬ v.Loses config group topic id e := by
  have hdisjoint : v.Carried config group topic id → ¬ v.Unread group topic id :=
    fun hc => (hi.handed group topic id hc).2
  have halone : ∀ {n sub}, v.subscriptions n = some sub → Brings config sub group topic id →
      ¬ v.CarriedBesides config n group topic id := by
    rintro n sub hsub hb ⟨m, sub', hm, hsub', hb'⟩
    exact hm (hi.unique m n sub' sub group topic id hsub' hsub hb' hb)
  have hbatch : ∀ {sub}, Consumes config sub group topic ∧
      id ∈ (v.batchFor config sub).map StreamEntry.id → v.Unread group topic id :=
    fun h => batchFor_unread h.1 h.2
  cases h with
  | ensured hkey => simp [Loses]
  | created hkey hnone => simp [Held, Loses, unread_created hnone]
  | busy hkey hsome => simp [Held, Loses]
  | @added e b t id' fields hfields hid' =>
    have hkeep : ¬ v.Loses config group topic id e := by
      cases e <;> simp_all [StreamEvent.fields, Loses]
    simp [Held, hkeep, unread_added hi.valid hid hid']
  | spawned hkey => simp [Held, Loses, carried_spawn (hi.next v.next (Nat.le_refl _))]
  | checked hsub htask =>
    rw [held_setTask hsub]
    · simp [Loses]
    · simp only [StreamSubscription.ids, htask]
      split <;> rfl
  | @read n sub hsub htask =>
    have hlose : v.Loses config group topic id (.read n) ↔ sub.live = false ∧
        Consumes config sub group topic ∧ id ∈ (v.batchFor config sub).map StreamEntry.id := by
      simp [Loses, hsub]
    rw [carried_iff hsub] at hdisjoint
    simp only [Held, carried_setSubscription, unread_setSubscription, unread_readFor hi.valid,
      carriedBesides_readFor, carried_iff hsub, brings_read htask, hlose]
    cases sub.live <;> grind
  | unread hsub htask =>
    rw [held_setTask hsub]
    · simp [Loses]
    · simp only [StreamSubscription.ids, htask]
      rfl
  | @lost n sub hsub htask =>
    have hsame : Brings config { sub with task := .checking } group topic id ↔
        Brings config sub group topic id := by
      refine brings_setTask ?_
      simp only [StreamSubscription.ids, htask]
      rfl
    have hlose : v.Loses config group topic id (.readFailed n true) ↔
        Consumes config sub group topic ∧ id ∈ (v.batchFor config sub).map StreamEntry.id := by
      simp [Loses, hsub]
    rw [carried_iff hsub] at hdisjoint
    simp only [Held, carried_setSubscription, unread_setSubscription, unread_readFor hi.valid,
      carriedBesides_readFor, carried_iff hsub, hsame, hlose]
    grind
  | sent hsub htask hlive hroom =>
    rw [held_setTask hsub]
    · simp [Loses]
    · simp only [StreamSubscription.ids, htask, StreamTask.batch_ofBatch]
      simp [StreamTask.batch, StreamEntry.parse]
  | @closed n now sub entry rest hsub htask hclosed =>
    have hnone : ¬ Brings config sub group topic id := by simp [Brings, hclosed]
    have hnone' : ¬ Brings config { sub with task := .stopped } group topic id := by
      simp [Brings, hclosed]
    simp [Held, carried_setSubscription, carried_iff hsub, hnone, hnone', Loses]
  | @received n sub msg queue hsub hqueue hlive =>
    have hnodup := hi.nodup n sub hsub hlive
    have hless : Brings config { sub with queue } group topic id ↔
        Brings config sub group topic id ∧ msg.id ≠ id := by
      simp only [StreamSubscription.ids, hqueue, List.map_cons, List.cons_append,
        List.nodup_cons] at hnodup
      simp only [Brings, Consumes, StreamSubscription.ids, hqueue]
      grind
    have hlose : v.Loses config group topic id (.receive n) ↔
        Brings config sub group topic id ∧ msg.id = id := by
      simp [Loses, hsub, hqueue]
    have halone := halone hsub
    rw [carried_iff hsub] at hdisjoint
    simp only [Held, carried_setSubscription, unread_setSubscription, carried_iff hsub, hless,
      hlose]
    grind
  | @dropped n sub hsub hlive =>
    have hnone : ¬ Brings config { sub with live := false } group topic id := by simp [Brings]
    have hlose : v.Loses config group topic id (.drop n) ↔ Brings config sub group topic id := by
      simp [Loses, hsub]
    have halone := halone hsub
    rw [carried_iff hsub] at hdisjoint
    simp only [Held, carried_setSubscription, unread_setSubscription, carried_iff hsub, hnone,
      hlose]
    grind
  | crashed => exact held_crash hi
  | acked => simp [Held, unread_acked, Loses]

-- ---------------------------------------------------------------------------
-- The invariant
-- ---------------------------------------------------------------------------

/-- The subscriptions have nothing on its way that they had not before. -/
def Fewer (v v' : StreamView) : Prop :=
  ∀ n sub', v'.subscriptions n = some sub' → sub'.live = true → sub'.ids = [] ∨
    ∃ sub, v.subscriptions n = some sub ∧ sub'.bus = sub.bus ∧ sub'.topic = sub.topic ∧
      sub.live = true ∧ sub'.ids.Sublist sub.ids

theorem fewer_setSubscription (hsub : v.subscriptions n = some sub) (hbus : sub'.bus = sub.bus)
    (htopic : sub'.topic = sub.topic) (hlive : sub'.live = true → sub.live = true)
    (hids : sub'.ids.Sublist sub.ids) : v.Fewer (v.setSubscription n sub') := by
  intro m sub'' hsub'' hl
  by_cases hm : m = n
  · subst hm
    simp only [setSubscription, Function.update_self, Option.some.injEq] at hsub''
    subst hsub''
    exact .inr ⟨sub, hsub, hbus, htopic, hlive hl, hids⟩
  · simp only [setSubscription, Function.update_of_ne hm] at hsub''
    exact .inr ⟨sub'', hsub'', rfl, rfl, hl, .refl _⟩

theorem fewer_of_same (hsame : v'.subscriptions = v.subscriptions) : v.Fewer v' :=
  fun _ sub hsub hl => .inr ⟨sub, hsame ▸ hsub, rfl, rfl, hl, .refl _⟩

theorem fewer_step (h : Moves json config v e v') (he : ∀ n, e ≠ .read n) : v.Fewer v' := by
  cases h with
  | @spawned b t hkey =>
    intro n sub' hsub' hl
    by_cases hn : n = v.next
    · subst hn
      simp only [spawn, setSubscription, Function.update_self, Option.some.injEq] at hsub'
      subst hsub'
      exact .inl rfl
    · simp only [spawn, setSubscription, Function.update_of_ne hn] at hsub'
      exact .inr ⟨sub', hsub', rfl, rfl, hl, .refl _⟩
  | @checked n sub hsub htask =>
    refine fewer_setSubscription hsub rfl rfl id ?_
    simp only [StreamSubscription.ids, htask]
    split <;> exact .refl _
  | read hsub htask => exact absurd rfl (he _)
  | @unread n sub hsub htask =>
    refine fewer_setSubscription hsub rfl rfl id ?_
    simp [StreamSubscription.ids, htask, StreamTask.batch]
  | @lost n sub hsub htask =>
    have hfewer : v.Fewer (v.setSubscription n { sub with task := .checking }) := by
      refine fewer_setSubscription hsub rfl rfl id ?_
      simp [StreamSubscription.ids, htask, StreamTask.batch]
    exact hfewer
  | @sent n now sub entry rest hsub htask hlive hroom =>
    refine fewer_setSubscription hsub rfl rfl id ?_
    simp only [StreamSubscription.ids, htask, StreamTask.batch_ofBatch]
    simp [StreamTask.batch, StreamEntry.parse]
  | @closed n now sub entry rest hsub htask hclosed =>
    refine fewer_setSubscription hsub rfl rfl id ?_
    simp [StreamSubscription.ids, StreamTask.batch]
  | @received n sub msg queue hsub hqueue hlive =>
    refine fewer_setSubscription hsub rfl rfl id ?_
    simp [StreamSubscription.ids, hqueue]
  | @dropped n sub hsub hlive =>
    exact fewer_setSubscription hsub rfl rfl (fun h => absurd h Bool.false_ne_true) (.refl _)
  | crashed =>
    intro n sub hsub hl
    exact .inr ⟨sub, (Option.filter_eq_some_iff.mp hsub).1, rfl, rfl, hl, .refl _⟩
  | _ => exact fewer_of_same rfl

theorem Brings.mono (hb : Brings config sub' group topic id) (hbus : sub'.bus = sub.bus)
    (htopic : sub'.topic = sub.topic) (hlive : sub.live = true)
    (hids : sub'.ids.Sublist sub.ids) : Brings config sub group topic id := by
  obtain ⟨-, ⟨hgroup, ht⟩, hid⟩ := hb
  rw [hbus] at hgroup
  exact ⟨hlive, ⟨hgroup, htopic ▸ ht⟩, hids.subset hid⟩

theorem next_step (hi : v.Inv config) (h : Moves json config v e v') :
    ∀ n, v'.next ≤ n → v'.subscriptions n = none := by
  have hle : v.next ≤ v'.next := by
    cases h with
    | spawned => exact Nat.le_succ _
    | _ => exact Nat.le_refl _
  intro n hn
  cases hsub' : v'.subscriptions n with
  | none => rfl
  | some sub' =>
    rcases subscription_step h hsub' with ⟨sub, hsub, -, -⟩ | ⟨hlt, -⟩
    · have hnone := hi.next n (Nat.le_trans hle hn)
      rw [hsub] at hnone
      cases hnone
    · omega

theorem running_step (hi : v.Inv config) (h : Moves json config v e v') :
    ∀ n sub, v'.subscriptions n = some sub → sub.live = true → sub.task ≠ .stopped := by
  have hrunning := hi.running
  have hbatch : ∀ batch, StreamTask.ofBatch batch ≠ .stopped := by
    intro batch
    cases batch <;> exact StreamTask.noConfusion
  cases h with
  | crashed =>
    intro n sub hsub
    exact hrunning n sub (Option.filter_eq_some_iff.mp hsub).1
  | ensured | created | busy | added | acked => exact hrunning
  | _ =>
    simp only [spawn, setSubscription, readFor, setStream]
    grind [Function.update_apply]

theorem Inv.fewer (hi : v.Inv config) (hf : v.Fewer v') (hnext : ∀ key, (v.db key).Next (v'.db key))
    (hgrouped : v'.Grouped config) (hfresh : ∀ n, v'.next ≤ n → v'.subscriptions n = none)
    (hrunning : ∀ n sub, v'.subscriptions n = some sub → sub.live = true → sub.task ≠ .stopped) :
    v'.Inv config := by
  have hbrings : ∀ {n sub' group topic id}, v'.subscriptions n = some sub' →
      Brings config sub' group topic id →
      ∃ sub, v.subscriptions n = some sub ∧ Brings config sub group topic id := by
    intro n sub' group topic id hsub' hb
    rcases hf n sub' hsub' hb.1 with hnone | ⟨sub, hsub, hbus, htopic, hlive, hids⟩
    · have hid := hb.2.2
      rw [hnone] at hid
      cases hid
    · exact ⟨sub, hsub, hb.mono hbus htopic hlive hids⟩
  refine ⟨fun key => (hnext key).valid (hi.valid key), hgrouped, hfresh, hrunning, ?_, ?_, ?_⟩
  · intro n sub' hsub' hl
    rcases hf n sub' hsub' hl with hnone | ⟨sub, hsub, -, -, hlive, hids⟩
    · rw [hnone]
      exact List.nodup_nil
    · exact hids.nodup (hi.nodup n sub hsub hlive)
  · rintro group topic id ⟨n, sub', hsub', hb⟩
    obtain ⟨sub, hsub, hb⟩ := hbrings hsub' hb
    obtain ⟨hid, hread⟩ := hi.handed group topic id ⟨n, sub, hsub, hb⟩
    exact ⟨(hnext _).ids hid, fun hunread => hread ((hnext _).unread (hi.valid _) hid hunread)⟩
  · intro n n' sub' sub'' group topic id hsub' hsub'' hb hb'
    obtain ⟨sub₁, hsub₁, hb₁⟩ := hbrings hsub' hb
    obtain ⟨sub₂, hsub₂, hb₂⟩ := hbrings hsub'' hb'
    exact hi.unique n n' sub₁ sub₂ group topic id hsub₁ hsub₂ hb₁ hb₂

theorem Inv.read (hi : v.Inv config) (hsub : v.subscriptions n = some sub)
    (htask : sub.task = .reading) (h : Moves json config v (.read n) v')
    (hv' : v' = (v.readFor config sub).setSubscription n
      { sub with task := .ofBatch (v.batchFor config sub) }) : v'.Inv config := by
  have hnew : ∀ {group topic id}, Consumes config sub group topic →
      id ∈ (v.batchFor config sub).map StreamEntry.id → ¬ v.Carried config group topic id :=
    fun hc hid hcarried => (hi.handed _ _ _ hcarried).2 (batchFor_unread hc hid)
  subst hv'
  -- what is on its way was so before, or it is in the batch
  have hcases : ∀ {m sub' group topic id}, ((v.readFor config sub).setSubscription n
      { sub with task := .ofBatch (v.batchFor config sub) }).subscriptions m = some sub' →
      Brings config sub' group topic id →
      (∃ sub₀, v.subscriptions m = some sub₀ ∧ Brings config sub₀ group topic id) ∨
        m = n ∧ Consumes config sub group topic ∧
          id ∈ (v.batchFor config sub).map StreamEntry.id := by
    intro m sub' group topic id hsub' hb
    by_cases hm : m = n
    · subst hm
      simp only [setSubscription, Function.update_self, Option.some.injEq] at hsub'
      subst hsub'
      rcases (brings_read htask _).mp hb with hb | ⟨-, hc, hid⟩
      · exact .inl ⟨sub, hsub, hb⟩
      · exact .inr ⟨rfl, hc, hid⟩
    · simp only [setSubscription, Function.update_of_ne hm] at hsub'
      exact .inl ⟨sub', hsub', hb⟩
  refine ⟨fun key => (stream_step h key).valid (hi.valid key), grouped_step hi.grouped h,
    next_step hi h, running_step hi h, ?_, ?_, ?_⟩
  · intro m sub' hsub' hl
    by_cases hm : m = n
    · subst hm
      simp only [setSubscription, Function.update_self, Option.some.injEq] at hsub'
      subst hsub'
      have hold := hi.nodup m sub hsub hl
      simp only [StreamSubscription.ids, htask, StreamTask.batch_ofBatch] at hold ⊢
      simp only [StreamTask.batch, List.map_nil, List.append_nil] at hold
      refine hold.append ?_ ?_
      · have hsub : (v.batchFor config sub).Sublist (v.db (streamKey sub.topic)).entries :=
          (Stream.batch_isPrefix _ _ _).sublist.trans (List.drop_sublist _ _)
        exact (hi.valid (streamKey sub.topic)).nodup.sublist (hsub.map _)
      · intro id hq hbatch
        refine hnew ⟨rfl, rfl⟩ hbatch ⟨m, sub, hsub, hl, ⟨rfl, rfl⟩, ?_⟩
        exact List.mem_append_left _ hq
    · simp only [setSubscription, Function.update_of_ne hm] at hsub'
      exact hi.nodup m sub' hsub' hl
  · rintro group topic id ⟨m, sub', hsub', hb⟩
    rcases hcases hsub' hb with ⟨sub₀, hsub₀, hb₀⟩ | ⟨-, hc, hid⟩
    · obtain ⟨hid, hread⟩ := hi.handed group topic id ⟨m, sub₀, hsub₀, hb₀⟩
      exact ⟨(stream_step h _).ids hid,
        fun hunread => hread ((unread_readFor hi.valid).mp hunread).1⟩
    · exact ⟨(stream_step h _).ids (Stream.ids_unread_subset _ _ (batchFor_unread hc hid)),
        fun hunread => ((unread_readFor hi.valid).mp hunread).2 ⟨hc, hid⟩⟩
  · intro m m' sub₁ sub₂ group topic id hsub₁ hsub₂ hb₁ hb₂
    rcases hcases hsub₁ hb₁ with ⟨sub₃, hsub₃, hb₃⟩ | ⟨hm, hc, hid⟩ <;>
      rcases hcases hsub₂ hb₂ with ⟨sub₄, hsub₄, hb₄⟩ | ⟨hm', hc', hid'⟩
    · exact hi.unique m m' sub₃ sub₄ group topic id hsub₃ hsub₄ hb₃ hb₄
    · exact absurd ⟨m, sub₃, hsub₃, hb₃⟩ (hnew hc' hid')
    · exact absurd ⟨m', sub₄, hsub₄, hb₄⟩ (hnew hc hid)
    · rw [hm, hm']

theorem Inv.step (hi : v.Inv config) (h : Moves json config v e v') : v'.Inv config := by
  by_cases he : ∃ n, e = .read n
  · obtain ⟨n, rfl⟩ := he
    have hread := h
    cases h with
    | read hsub htask => exact hi.read hsub htask hread rfl
    | added hfields => cases hfields
  · have hf := fewer_step h fun n hn => he ⟨n, hn⟩
    exact hi.fewer hf (stream_step h) (grouped_step hi.grouped h) (next_step hi h)
      (running_step hi h)

end

end StreamBuses

end Rinfra.Mq

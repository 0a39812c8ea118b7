import Rinfra.Lib.Transition
import Rinfra.Mq.Custody

/-!
# What becomes of an entry

The loop of a subscription never asks for what is pending, so an entry that
leaves the channel or goes down with it is not read again: exactly the entries
that are held can still reach a subscriber.
-/

namespace Rinfra.Mq

open Rinfra.Lib

namespace StreamBuses

-- ---------------------------------------------------------------------------
-- Deliverable entries
-- ---------------------------------------------------------------------------

def Recovers (_ : StreamBuses Db) : StreamEvent → Prop
  | .ensureGroup .. | .subscribe .. | .check .. | .read .. | .send .. | .receive .. => True
  | _ => False

section
variable {Db : Type} (redis : RedisStreams Db) (json : HeaderJson)
  (config : Nat → RedisStreamMqConfig) (streams : Db → String → Stream)

/-- The next `recv` of a subscriber of the group returns the entry. -/
def Offers (s : StreamBuses Db) (group topic id : String) : Prop :=
  ∃ n sub msg queue, s.subscriptions n = some sub ∧ sub.live = true ∧
    Consumes config sub group topic ∧ sub.queue = msg :: queue ∧ msg.id = id

/-- The entry can reach a subscriber of the bus's group though nothing more is
published. -/
def Deliverable (s : StreamBuses Db) (b : Nat) (topic id : String) : Prop :=
  ∃ t, Reaches (step redis json config) Recovers s t ∧ t.Offers config (config b).groupName topic id

/-- Every entry without an acknowledgement is deliverable. -/
def AtLeastOnce (s : StreamBuses Db) : Prop :=
  ∀ b topic, ∀ id ∈ (streams s.db (streamKey topic)).ids,
    id ∉ (streams s.db (streamKey topic)).acked (config b).groupName →
    s.Deliverable redis json config b topic id

/-- The step loses only entries that are acknowledged. -/
def Keeps (s : StreamBuses Db) (e : StreamEvent) : Prop :=
  ∀ group topic id, (s.view streams).Loses config group topic id e →
    id ∈ (streams s.db (streamKey topic)).acked group

end

section
variable {Db : Type} {redis : RedisStreams Db} {json : HeaderJson}
  {config : Nat → RedisStreamMqConfig} {streams : Db → String → Stream} {s s' : StreamBuses Db}
  {group topic id : String}

theorem inv_step (laws : redis.Lawful streams) (hmax : ∀ b, (config b).maxLen = none)
    (hi : (s.view streams).Inv config) (h : s.step redis json config e = some s') :
    (s'.view streams).Inv config :=
  hi.step (step_moves laws hmax hi.grouped h)

theorem held_of_offers (h : s.Offers config group topic id) :
    (s.view streams).Held config group topic id := by
  obtain ⟨n, sub, msg, queue, hsub, hlive, hc, hqueue, rfl⟩ := h
  refine .inr ⟨n, sub, hsub, hlive, hc, ?_⟩
  simp [StreamSubscription.ids, hqueue]

theorem held_of_deliverable (laws : redis.Lawful streams) (hmax : ∀ b, (config b).maxLen = none)
    (hi : (s.view streams).Inv config) (hid : id ∈ (streams s.db (streamKey topic)).ids)
    (h : s.Deliverable redis json config b topic id) :
    (s.view streams).Held config (config b).groupName topic id := by
  obtain ⟨t, hreaches, hoffers⟩ := h
  by_contra hgone
  have hstill : (t.view streams).Inv config ∧ id ∈ (streams t.db (streamKey topic)).ids ∧
      ¬ (t.view streams).Held config (config b).groupName topic id := by
    apply hreaches.invariant (I := fun t => (t.view streams).Inv config ∧
      id ∈ (streams t.db (streamKey topic)).ids ∧
      ¬ (t.view streams).Held config (config b).groupName topic id)
    · exact ⟨hi, hid, hgone⟩
    · rintro t e t' ⟨hi, hid, hgone⟩ - h
      have hmoves := step_moves laws hmax hi.grouped h
      exact ⟨hi.step hmoves, (stream_step hmoves _).ids hid,
        fun hheld => hgone ((held_step hi hmoves hid).mp hheld).1⟩
  exact hstill.2.2 (held_of_offers hoffers)

/-- How much there is to do until a subscription has nothing left. -/
def backlog (config : Nat → RedisStreamMqConfig) (v : StreamView) (sub : StreamSubscription) :
    Nat :=
  4 * ((v.db (streamKey sub.topic)).unread (config sub.bus).groupName).length +
    3 * sub.task.batch.length + sub.queue.length +
    match sub.task with
    | .checking => 1
    | _ => 0

theorem backlog_readFor {v : StreamView} (htask : sub.task = .reading)
    (hne : v.batchFor config sub ≠ []) :
    (v.readFor config sub).backlog config { sub with task := .ofBatch (v.batchFor config sub) } <
      v.backlog config sub := by
  have hsplit := congrArg List.length ((v.db (streamKey sub.topic)).batch_append_unread
    (config sub.bus).groupName (config sub.bus).batchSize)
  rw [List.length_append, ← batchFor] at hsplit
  have hpos := List.length_pos_iff.mpr hne
  simp only [backlog, readFor, setStream_db, if_true, htask, StreamTask.batch_ofBatch]
  cases hbatch : v.batchFor config sub with
  | nil => exact absurd hbatch hne
  | cons entry rest =>
    rw [hbatch] at hsplit
    simp [StreamTask.ofBatch, StreamTask.batch] at *
    omega

/-- A live subscription that does not offer the entry yet has a step to do, and
then less to do. -/
theorem live_step (json : HeaderJson) (laws : redis.Lawful streams)
    (hi : (s.view streams).Inv config) (hsub : s.subscriptions n = some sub)
    (hlive : sub.live = true) (hc : Consumes config sub group topic)
    (hid : id ∈ sub.ids ∨ (s.view streams).Unread group topic id)
    (hnot : ¬ s.Offers config group topic id) :
    ∃ e s' sub', s.Recovers e ∧ s.step redis json config e = some s' ∧
      s'.subscriptions n = some sub' ∧ sub'.live = true ∧ Consumes config sub' group topic ∧
      (id ∈ sub'.ids ∨ (s'.view streams).Unread group topic id) ∧
      (s'.view streams).backlog config sub' < (s.view streams).backlog config sub := by
  cases hqueue : sub.queue with
  | cons msg queue =>
    have hmsg : msg.id ≠ id :=
      fun hmsg => hnot ⟨n, sub, msg, queue, hsub, hlive, hc, hqueue, hmsg⟩
    refine ⟨.receive n, s.setSubscription n { sub with queue }, { sub with queue }, ?_, ?_, ?_,
      hlive, hc, ?_, ?_⟩
    · simp [Recovers]
    · simp [step, hsub, hqueue, hlive]
    · simp [setSubscription]
    · apply hid.imp_left
      simp only [StreamSubscription.ids, hqueue, List.map_cons, List.cons_append, List.mem_cons]
      exact fun hid => hid.resolve_left (Ne.symm hmsg)
    · simp [backlog, view, setSubscription, hqueue]
  | nil =>
    cases htask : sub.task with
    | sending entry rest =>
      have hbatch := StreamTask.batch_ofBatch rest
      refine ⟨.send n 0, s.setSubscription n
        { sub with queue := sub.queue ++ [entry.parse json 0], task := .ofBatch rest },
        { sub with queue := sub.queue ++ [entry.parse json 0], task := .ofBatch rest }, ?_, ?_, ?_,
        hlive, hc, ?_, ?_⟩
      · simp [Recovers]
      · simp [step, hsub, htask, hlive, hqueue, streamCapacity]
      · simp [setSubscription]
      · apply hid.imp_left
        simp only [StreamSubscription.ids, hqueue, htask, hbatch]
        simp [StreamTask.batch, StreamEntry.parse]
      · simp only [backlog, view, setSubscription, hqueue, htask, hbatch]
        cases rest <;> simp [StreamTask.batch, StreamTask.ofBatch]
        omega
    | checking =>
      refine ⟨.check n, s.setSubscription n { sub with task := .reading },
        { sub with task := .reading }, ?_, ?_, ?_, hlive, hc, ?_, ?_⟩
      · simp [Recovers]
      · simp [step, hsub, htask, hlive]
      · simp [setSubscription]
      · apply hid.imp_left
        simp [StreamSubscription.ids, htask, StreamTask.batch]
      · simp [backlog, view, setSubscription, htask, StreamTask.batch]
    | reading =>
      obtain ⟨db', hread, hstreams⟩ := laws.read s.db _ _ (config sub.bus).consumerName
        (config sub.bus).batchSize (config sub.bus).blockMs (hi.grouped.subscribed n sub hsub)
      have hunread : (s.view streams).Unread group topic id := by
        apply hid.resolve_left
        simp [StreamSubscription.ids, hqueue, htask, StreamTask.batch]
      have hview : view streams { s with db := db' } = (s.view streams).readFor config sub := by
        simp only [view, hstreams, readFor, setStream]
      refine ⟨.read n, { s with db := db' }.setSubscription n
        { sub with task := .ofBatch ((s.view streams).batchFor config sub) },
        { sub with task := .ofBatch ((s.view streams).batchFor config sub) }, ?_, ?_, ?_,
        hlive, hc, ?_, ?_⟩
      · simp [Recovers]
      · simp only [step, hsub, htask, xreadgroup, hread, Option.bind_eq_bind, Option.bind_some]
        rfl
      · simp [setSubscription]
      · by_cases hbatch : id ∈ ((s.view streams).batchFor config sub).map StreamEntry.id
        · left
          simp only [StreamSubscription.ids, StreamTask.batch_ofBatch]
          exact List.mem_append_right _ hbatch
        · right
          have hstill : ((s.view streams).readFor config sub).Unread group topic id :=
            (unread_readFor hi.valid).mpr ⟨hunread, fun h => hbatch h.2⟩
          rwa [← hview] at hstill
      · obtain ⟨rfl, rfl⟩ := hc
        obtain ⟨entry, hentry, -⟩ := List.mem_map.mp hunread
        have hne : (s.view streams).batchFor config sub ≠ [] :=
          Stream.batch_ne_nil (List.ne_nil_of_mem hentry) _
        have hless := backlog_readFor htask hne
        rwa [← hview] at hless
    | stopped => exact absurd htask (hi.running n sub hsub hlive)

theorem offers_of_live {s : StreamBuses Db} {sub : StreamSubscription}
    (laws : redis.Lawful streams) (hmax : ∀ b, (config b).maxLen = none)
    (hi : (s.view streams).Inv config) (hsub : s.subscriptions n = some sub)
    (hlive : sub.live = true) (hc : Consumes config sub group topic)
    (hid : id ∈ sub.ids ∨ (s.view streams).Unread group topic id) :
    ∃ t, Reaches (step redis json config) Recovers s t ∧ t.Offers config group topic id := by
  by_cases hoffers : s.Offers config group topic id
  · exact ⟨s, .refl s, hoffers⟩
  · obtain ⟨e, s', sub', hrec, h, hsub', hlive', hc', hid', hless⟩ :=
      live_step json laws hi hsub hlive hc hid hoffers
    obtain ⟨t, hreaches, hoffers⟩ :=
      offers_of_live laws hmax (inv_step laws hmax hi h) hsub' hlive' hc' hid'
    exact ⟨t, (Reaches.single hrec h).trans hreaches, hoffers⟩
termination_by (s.view streams).backlog config sub

theorem deliverable_of_held (laws : redis.Lawful streams) (hmax : ∀ b, (config b).maxLen = none)
    (hi : (s.view streams).Inv config) (hid : id ∈ (streams s.db (streamKey topic)).ids)
    (hheld : (s.view streams).Held config (config b).groupName topic id) :
    s.Deliverable redis json config b topic id := by
  -- a subscriber that was not there before can read what nobody has read
  obtain ⟨s₁, h₁⟩ : ∃ s₁, s.step redis json config (.ensureGroup b topic) = some s₁ := ⟨_, rfl⟩
  have hmoves₁ := step_moves laws hmax hi.grouped h₁
  have hkey : streamKey topic ∈ s₁.createdGroups b := by
    have hcreated : streamKey topic ∈ (s₁.view streams).createdGroups b := by
      generalize s₁.view streams = v₁ at hmoves₁
      cases hmoves₁ with
      | ensured hkey => exact hkey
      | created | busy => simp [groupCreated]
      | added hfields => cases hfields
    exact hcreated
  have hheld₁ := (held_step hi hmoves₁ hid).mpr ⟨hheld, not_false⟩
  have hi₁ := hi.step hmoves₁
  have h₂ : s₁.step redis json config (.subscribe b topic) = some (s₁.spawn b topic) := by
    simp [step, hkey]
  have hmoves₂ := step_moves laws hmax hi₁.grouped h₂
  have hid₁ := (stream_step hmoves₁ _).ids hid
  have hheld₂ := (held_step hi₁ hmoves₂ hid₁).mpr ⟨hheld₁, not_false⟩
  have hi₂ := hi₁.step hmoves₂
  have hstart : Reaches (step redis json config) Recovers s (s₁.spawn b topic) :=
    (Reaches.single (by simp [Recovers]) h₁).trans
      (.single (by simp [Recovers]) h₂)
  obtain ⟨t, hreaches, hoffers⟩ : ∃ t, Reaches (step redis json config) Recovers
      (s₁.spawn b topic) t ∧ t.Offers config (config b).groupName topic id := by
    rcases hheld₂ with hunread | ⟨n, sub, hsub, hlive, hc, hid⟩
    · have hsub : (s₁.spawn b topic).subscriptions s₁.next =
          some ⟨b, topic, .checking, [], true⟩ := by
        simp [spawn, setSubscription]
      exact offers_of_live laws hmax hi₂ hsub rfl ⟨rfl, rfl⟩ (.inr hunread)
    · exact offers_of_live laws hmax hi₂ hsub hlive hc (.inl hid)
  exact ⟨t, hstart.trans hreaches, hoffers⟩

theorem atLeastOnce_iff (laws : redis.Lawful streams) (hmax : ∀ b, (config b).maxLen = none)
    (hi : (s.view streams).Inv config) :
    s.AtLeastOnce redis json config streams ↔ ∀ b topic,
      ∀ id ∈ (streams s.db (streamKey topic)).ids,
        id ∉ (streams s.db (streamKey topic)).acked (config b).groupName →
        (s.view streams).Held config (config b).groupName topic id := by
  constructor
  · intro h b topic id hid hacked
    exact held_of_deliverable laws hmax hi hid (h b topic id hid hacked)
  · intro h b topic id hid hacked
    exact deliverable_of_held laws hmax hi hid (h b topic id hid hacked)

/-- A step that loses entries acknowledges none. -/
theorem acked_of_loses {v v' : StreamView} (h : Moves json config v e v')
    (hl : v.Loses config group topic id e) (key group' : String) :
    (v'.db key).acked group' = (v.db key).acked group' := by
  cases h with
  | read | lost =>
    simp only [setSubscription, readFor, setStream_db]
    split
    · rename_i hkey
      rw [hkey]
      rfl
    · rfl
  | received | dropped | crashed => rfl
  | @added e b t id' fields hfields => cases e <;> first | exact False.elim hl | cases hfields
  | _ => simp [Loses] at hl

theorem loses_bus {v : StreamView} (hl : v.Loses config group topic id e) :
    ∃ b, (config b).groupName = group := by
  cases e with
  | read n =>
    obtain ⟨sub, -, -, hc, -⟩ := hl
    exact ⟨sub.bus, hc.1⟩
  | readFailed n handled =>
    obtain ⟨-, sub, -, hc, -⟩ := hl
    exact ⟨sub.bus, hc.1⟩
  | receive n =>
    obtain ⟨sub, -, hb, -⟩ := hl
    exact ⟨sub.bus, hb.2.1.1⟩
  | drop n =>
    obtain ⟨sub, -, hb⟩ := hl
    exact ⟨sub.bus, hb.2.1.1⟩
  | crash b =>
    obtain ⟨n, sub, -, -, hb⟩ := hl
    exact ⟨sub.bus, hb.2.1.1⟩
  | _ => cases hl

theorem loses_ids {v : StreamView} (hi : v.Inv config) (hl : v.Loses config group topic id e) :
    id ∈ (v.db (streamKey topic)).ids := by
  have hcarried : ∀ {n sub}, v.subscriptions n = some sub → Brings config sub group topic id →
      id ∈ (v.db (streamKey topic)).ids :=
    fun hsub hb => (hi.handed group topic id ⟨_, _, hsub, hb⟩).1
  have hbatch : ∀ {sub}, Consumes config sub group topic →
      id ∈ (v.batchFor config sub).map StreamEntry.id → id ∈ (v.db (streamKey topic)).ids :=
    fun hc hid => Stream.ids_unread_subset _ _ (batchFor_unread hc hid)
  cases e with
  | read n =>
    obtain ⟨sub, -, -, hc, hid⟩ := hl
    exact hbatch hc hid
  | readFailed n handled =>
    obtain ⟨-, sub, -, hc, hid⟩ := hl
    exact hbatch hc hid
  | receive n =>
    obtain ⟨sub, hsub, hb, -⟩ := hl
    exact hcarried hsub hb
  | drop n =>
    obtain ⟨sub, hsub, hb⟩ := hl
    exact hcarried hsub hb
  | crash b =>
    obtain ⟨n, sub, hsub, -, hb⟩ := hl
    exact hcarried hsub hb
  | _ => cases hl

theorem atLeastOnce_step (laws : redis.Lawful streams) (hmax : ∀ b, (config b).maxLen = none)
    (hi : (s.view streams).Inv config) (hp : s.AtLeastOnce redis json config streams)
    (h : s.step redis json config e = some s') :
    s'.AtLeastOnce redis json config streams ↔ s.Keeps config streams e := by
  have hmoves := step_moves laws hmax hi.grouped h
  have hi' := hi.step hmoves
  rw [atLeastOnce_iff laws hmax hi] at hp
  rw [atLeastOnce_iff laws hmax hi']
  constructor
  · intro hp' group topic id hl
    by_contra hacked
    obtain ⟨b, rfl⟩ := loses_bus hl
    have hid := loses_ids hi hl
    have hacked' : id ∉ ((s'.view streams).db (streamKey topic)).acked (config b).groupName := by
      rwa [acked_of_loses hmoves hl]
    have hheld := hp' b topic id ((stream_step hmoves _).ids hid) hacked'
    exact ((held_step hi hmoves hid).mp hheld).2 hl
  · intro hkeeps b topic id hid' hacked'
    rcases (stream_step hmoves (streamKey topic)).new (hi.valid _) hid' with hid | hnew
    · have hacked : id ∉ (streams s.db (streamKey topic)).acked (config b).groupName :=
        fun hacked => hacked' ((stream_step hmoves (streamKey topic)).still_acked hacked)
      have hkept : ¬ (s.view streams).Loses config (config b).groupName topic id e :=
        fun hl => hacked (hkeeps _ topic id hl)
      exact (held_step hi hmoves hid).mpr ⟨hp b topic id hid hacked, hkept⟩
    · exact .inl (hnew _)

theorem start_inv {db : Db} (hdb : streams db = fun _ => .empty) :
    ((start db).view streams).Inv config := by
  refine ⟨?_, ⟨?_, ?_⟩, ?_, ?_, ?_, ?_, ?_⟩
  · intro key
    simp only [view, start, hdb]
    exact ⟨List.nodup_nil, by simp [Stream.empty]⟩
  all_goals simp [view, start, Carried]

/-- The bus delivers at least once in exactly the runs in which nothing without
an acknowledgement leaves its subscriber's channel or goes down with it. -/
theorem run_at_least_once (redis : RedisStreams Db) (json : HeaderJson)
    (config : Nat → RedisStreamMqConfig) (streams : Db → String → Stream)
    (laws : redis.Lawful streams) (hmax : ∀ b, (config b).maxLen = none) (db : Db)
    (hdb : streams db = fun _ => .empty) (es : List StreamEvent) :
    Always (step redis json config) (AtLeastOnce redis json config streams) (start db) es ↔
      Guarded (step redis json config) (Keeps config streams) (start db) es := by
  apply always_iff_guarded (I := fun s => (s.view streams).Inv config)
  · exact start_inv hdb
  · intro b topic id hid
    have hempty : (streams (start db).db (streamKey topic)).ids = [] := by
      simp [start, hdb, Stream.empty, Stream.ids]
    rw [hempty] at hid
    cases hid
  · exact fun s e s' hi _ h _ => inv_step laws hmax hi h
  · exact fun s e s' hi hp h => atLeastOnce_step laws hmax hi hp h

end

-- ---------------------------------------------------------------------------
-- A subscriber that dies
-- ---------------------------------------------------------------------------

def plainConfig : RedisStreamMqConfig := ⟨"workers", "host", none, 2000, 10⟩

/-- Maps without entries are all that is written and read. -/
def emptyJson : HeaderJson := ⟨fun _ => some "{}", fun _ => some ∅⟩

def noStreams : MapStreams := fun _ => ⟨[], fun _ => none, fun _ => []⟩

def batchRead : List StreamEvent :=
  [.ensureGroup 0 "t", .publish 0 "t" [], .subscribe 0 "t", .check 0, .read 0]

abbrev mapStep := step mapRedisStreams emptyJson fun _ => plainConfig

theorem run_at_least_once_batchRead :
    (Always mapStep (AtLeastOnce mapRedisStreams emptyJson (fun _ => plainConfig) mapStreams)
        (start noStreams) batchRead ↔
      Guarded mapStep (Keeps (fun _ => plainConfig) mapStreams) (start noStreams) batchRead) ∧
      (run mapStep (start noStreams) batchRead).isSome = true :=
  ⟨run_at_least_once mapRedisStreams emptyJson (fun _ => plainConfig) mapStreams
    mapRedisStreams_lawful (fun _ => rfl) noStreams rfl batchRead, by decide +kernel⟩

theorem batchRead_crash :
    ∃ s, run mapStep (start noStreams) (batchRead ++ [.crash 0]) = some s ∧
      (mapStreams s.db (streamKey "t")).ids = [entryId 0] ∧
      (mapStreams s.db (streamKey "t")).acked "workers" = [] ∧
      ((mapStreams s.db (streamKey "t")).unread "workers").map StreamEntry.id = [] ∧
      s.next = 1 ∧ (s.subscriptions 0).isNone = true :=
  ⟨_, rfl, by decide +kernel, rfl, by decide +kernel, rfl, by decide +kernel⟩

/-- When the process dies then, the entry is read by nobody any more. -/
theorem crash_loses_batch :
    ∃ s id, run mapStep (start noStreams) (batchRead ++ [.crash 0]) = some s ∧
      id ∈ (mapStreams s.db (streamKey "t")).ids ∧
      id ∉ (mapStreams s.db (streamKey "t")).acked "workers" ∧
      ¬ s.Deliverable mapRedisStreams emptyJson (fun _ => plainConfig) 0 "t" id := by
  obtain ⟨s, hr, hids, hacked, hunread, hnext, hnone⟩ := batchRead_crash
  have hi : (s.view mapStreams).Inv fun _ => plainConfig :=
    run_invariant (P := fun s => (s.view mapStreams).Inv fun _ => plainConfig) (start_inv rfl)
      (fun _ _ _ hi h => inv_step mapRedisStreams_lawful (fun _ => rfl) hi h) hr
  have hid : entryId 0 ∈ (mapStreams s.db (streamKey "t")).ids := by simp [hids]
  refine ⟨s, entryId 0, hr, hid, by simp [hacked], ?_⟩
  intro hdeliverable
  rcases held_of_deliverable mapRedisStreams_lawful (fun _ => rfl) hi hid hdeliverable with
    hheld | ⟨n, sub, hsub, -⟩
  · have hheld : entryId 0 ∈ ((mapStreams s.db (streamKey "t")).unread "workers").map
        StreamEntry.id := hheld
    rw [hunread] at hheld
    cases hheld
  · have hgone : s.subscriptions n = none := by
      cases n with
      | zero => exact Option.isNone_iff_eq_none.mp hnone
      | succ n => exact hi.next (n + 1) (by simp [view, hnext])
    cases hsub.symm.trans hgone

end StreamBuses

end Rinfra.Mq

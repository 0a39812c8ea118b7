import Rinfra.Mq.AtLeastOnce
import Rinfra.Mq.Consumers
import Rinfra.Mq.Delivery

/-!
# What arrives

A message goes through the in-memory bus as it is, through Redis as the fields
of an entry and through NATS as a subject, headers and a payload. The first two
give it back as it was. NATS gives back the subject for the topic, and of the
headers those whose names it takes.
-/

namespace Rinfra.Mq

open Rinfra.Lib

/-- The server keeps the fields of what is added, under ids of which no two are
the same, and hands out nothing else. `added` is all that was ever added. -/
structure RedisStreams.Stores (redis : RedisStreams Db) (added : Db → String → List StreamEntry) :
    Prop where
  create : ∀ db key group start, added (redis.xgroupCreate db key group start).2 = added db
  add : ∀ db key maxLen fields id db', redis.xadd db key maxLen fields = (.ok id, db') →
    id ∉ (added db key).map StreamEntry.id ∧
      added db' = Function.update (added db) key (added db key ++ [⟨id, fields⟩])
  /-- An entry may be added though its id is not seen. -/
  add_failed : ∀ db key maxLen fields e db', redis.xadd db key maxLen fields = (.error e, db') →
    added db' = added db ∨ ∃ id, id ∉ (added db key).map StreamEntry.id ∧
      added db' = Function.update (added db) key (added db key ++ [⟨id, fields⟩])
  read : ∀ db key group consumer count blockMs,
    added (redis.xreadgroup db key group consumer count blockMs).2 = added db
  handed : ∀ db key group consumer count blockMs entries,
    (redis.xreadgroup db key group consumer count blockMs).1 = .ok entries →
    entries ⊆ added db key
  ack : ∀ db key group id, added (redis.xack db key group id).2 = added db

structure Message.Same (msg : Message) (topic : String) (payload : List UInt8) (headers : Headers) :
    Prop where
  topic : msg.topic = topic
  payload : msg.payload = payload
  headers : msg.headers = headers

-- ---------------------------------------------------------------------------
-- The in-memory bus
-- ---------------------------------------------------------------------------

namespace InMemoryBus

/-- In some run `publish_with_headers` returns `Ok` and a subscriber of the topic
receives the message. -/
def Receives (topic : String) (payload : List UInt8) (headers : Headers) (msg : Message) : Prop :=
  ∃ capacity es bus n draw c, run step (new capacity) es = some bus ∧
    .call n (.publishWithHeaders topic payload headers) draw ∈ es ∧
    bus.calls n = .published (.ok ()) ∧ bus.calls c = .subscribed topic ∧
    (n, msg) ∈ (bus.channels c).received

theorem same_of_receives (h : Receives topic payload headers msg) :
    msg.Same topic payload headers := by
  obtain ⟨capacity, es, bus, n, draw, c, hr, hcall, -, -, hmsg⟩ := h
  have hsent : (n, .withHeaders draw topic payload headers) ∈ published es :=
    List.mem_filterMap.mpr ⟨_, hcall, rfl⟩
  have hgiven : (n, msg) ∈ published es :=
    (run_ordered hr c).subset (List.mem_append_left _ (List.mem_of_mem_take hmsg))
  have hsame := List.inj_on_of_nodup_map (run_distinct hr).2 hgiven hsent rfl
  cases hsame
  exact ⟨rfl, rfl, rfl⟩

end InMemoryBus

-- ---------------------------------------------------------------------------
-- Redis Streams
-- ---------------------------------------------------------------------------

/-- The fields of an entry are read as they were written. -/
theorem parse_headerFields (json : HeaderJson) (hjson : json.RoundTrips headers)
    (id topic : String) (payload : List UInt8) (now : Nat) :
    StreamEntry.parse json now ⟨id, headerFields json topic payload headers⟩ =
      ⟨id, topic, payload, headers, now⟩ := by
  obtain ⟨text, htext, hback⟩ := hjson
  simp [StreamEntry.parse, StreamEntry.getString, StreamEntry.get, StreamEntry.headers,
    headerFields, publishFields, htext, hback, List.lookup_cons]

namespace StreamBuses

section
variable {Db : Type} (redis : RedisStreams Db) (json : HeaderJson)
  (config : Nat → RedisStreamMqConfig) (added : Db → String → List StreamEntry)

def Receives (topic : String) (payload : List UInt8) (headers : Headers) (msg : Message) : Prop :=
  ∃ db b earlier later s id db' t n sub,
    (∀ key, ((added db key).map StreamEntry.id).Nodup) ∧
    run (step redis json config) (start db) earlier = some s ∧
    redis.xadd s.db (streamKey topic) (config b).maxLen (headerFields json topic payload headers) =
      (.ok id, db') ∧
    run (step redis json config) s (.publishWithHeaders b topic payload headers :: later) =
      some t ∧
    t.subscriptions n = some sub ∧ sub.topic = topic ∧ msg ∈ sub.queue ∧ msg.id = id

structure Sound (s : StreamBuses Db) : Prop where
  nodup : ∀ key, ((added s.db key).map StreamEntry.id).Nodup
  batch : ∀ n sub, s.subscriptions n = some sub → sub.task.batch ⊆ added s.db (streamKey sub.topic)
  queue : ∀ n sub, s.subscriptions n = some sub → ∀ msg ∈ sub.queue,
    ∃ entry ∈ added s.db (streamKey sub.topic), ∃ now, msg = entry.parse json now

end

section
variable {Db : Type} {redis : RedisStreams Db} {json : HeaderJson}
  {config : Nat → RedisStreamMqConfig} {added : Db → String → List StreamEntry}
  {s s' t : StreamBuses Db}

inductive Adds (all : String → List StreamEntry) : (String → List StreamEntry) → Prop
  | same : Adds all all
  | added {key : String} {entry : StreamEntry} (hid : entry.id ∉ (all key).map StreamEntry.id) :
      Adds all (Function.update all key (all key ++ [entry]))

theorem Adds.isPrefix {all all' : String → List StreamEntry} (h : Adds all all') (key : String) :
    all key <+: all' key := by
  cases h with
  | same => exact List.prefix_rfl
  | @added key' entry hid =>
    by_cases hkey : key = key'
    · subst hkey
      simp
    · simp [hkey]

theorem Adds.nodup {all all' : String → List StreamEntry} (h : Adds all all')
    (hnodup : ∀ key, ((all key).map StreamEntry.id).Nodup) (key : String) :
    ((all' key).map StreamEntry.id).Nodup := by
  cases h with
  | same => exact hnodup key
  | @added key' entry hid =>
    by_cases hkey : key = key'
    · subst hkey
      rw [Function.update_self, List.map_append]
      exact (hnodup key).append (List.nodup_singleton _) (by simpa using hid)
    · rw [Function.update_of_ne hkey]
      exact hnodup key

theorem add_adds (laws : redis.Stores added) (s : StreamBuses Db) (b : Nat) (key : String)
    (fields : List (String × List UInt8)) :
    Adds (added s.db) (added (s.add redis config b key fields).2.db) := by
  simp only [add]
  split <;> rename_i hreply
  · obtain ⟨hid, hadded⟩ := laws.add _ _ _ _ _ _ hreply
    simp only [hadded]
    exact .added hid
  · rcases laws.add_failed _ _ _ _ _ _ hreply with hadded | ⟨id, hid, hadded⟩ <;>
      simp only [hadded]
    · exact .same
    · exact .added hid

theorem ensureGroup_added (laws : redis.Stores added) (s : StreamBuses Db) (b : Nat)
    (key : String) : added (s.ensureGroup redis config b key).2.db = added s.db := by
  have hcreate := laws.create s.db key (config b).groupName "0"
  unfold ensureGroup
  split
  · rfl
  · split <;> rename_i hreply <;> rw [hreply] at hcreate
    · exact hcreate
    · split <;> exact hcreate

theorem ackEntry_added (laws : redis.Stores added) (s : StreamBuses Db) (b : Nat)
    (topic id : String) : added (s.ackEntry redis config b topic id).2.db = added s.db := by
  have hack := laws.ack s.db (streamKey topic) (config b).groupName id
  unfold ackEntry
  split <;> rename_i hreply <;> rw [hreply] at hack <;> exact hack

theorem xreadgroup_added (config : Nat → RedisStreamMqConfig) (laws : redis.Stores added)
    (s : StreamBuses Db) (sub : StreamSubscription) :
    added (s.xreadgroup redis config sub).2 = added s.db :=
  laws.read _ _ _ _ _ _

theorem step_adds (laws : redis.Stores added) (h : s.step redis json config e = some s') :
    Adds (added s.db) (added s'.db) := by
  have hsame : added s'.db = added s.db → Adds (added s.db) (added s'.db) :=
    fun hsame => hsame ▸ .same
  cases goes h with
  | ensured => exact hsame (ensureGroup_added laws s _ _)
  | published | publishedWithHeaders => exact add_adds laws s _ _ _
  | @read n sub batch db _ _ hreply | @refused n sub e db _ _ hreply =>
    have hread := xreadgroup_added config laws s sub
    rw [hreply] at hread
    exact hsame hread
  | @lost n sub => exact hsame (xreadgroup_added config laws s sub)
  | acked => exact hsame (ackEntry_added laws s _ _ _)
  | spawned | checked | unread | sent | closed | received | dropped | crashed => exact .same

/-- A subscription has what it had, what was handed out to it and what it has
made messages of. -/
def Continues (json : HeaderJson) (entries : List StreamEntry) (sub sub' : StreamSubscription) :
    Prop :=
  sub'.topic = sub.topic ∧
    (∀ entry ∈ sub'.task.batch, entry ∈ sub.task.batch ∨ entry ∈ entries) ∧
    ∀ msg ∈ sub'.queue, msg ∈ sub.queue ∨
      ∃ entry ∈ sub.task.batch, ∃ now, msg = entry.parse json now

theorem Continues.refl (json : HeaderJson) (entries : List StreamEntry)
    (sub : StreamSubscription) : Continues json entries sub sub :=
  ⟨rfl, fun _ h => .inl h, fun _ h => .inl h⟩

theorem Continues.idle {entries : List StreamEntry} {sub : StreamSubscription} {task : StreamTask}
    (htask : task.batch = []) : Continues json entries sub { sub with task } :=
  ⟨rfl, by simp [htask], fun _ h => .inl h⟩

def Advances (json : HeaderJson) (added : Db → String → List StreamEntry) (s s' : StreamBuses Db)
    (n : Nat) : Prop :=
  ∃ sub sub', s.subscriptions n = some sub ∧
    s'.subscriptions = Function.update s.subscriptions n (some sub') ∧
    Continues json (added s.db (streamKey sub.topic)) sub sub'

theorem Advances.subscription (h : Advances json added s s' m)
    (hsub' : s'.subscriptions n = some sub') :
    ∃ sub, s.subscriptions n = some sub ∧
      Continues json (added s.db (streamKey sub.topic)) sub sub' := by
  obtain ⟨sub, sub'', hsub, hupdate, hcontinues⟩ := h
  rw [hupdate] at hsub'
  by_cases hn : n = m
  · subst hn
    rw [Function.update_self, Option.some.injEq] at hsub'
    subst hsub'
    exact ⟨sub, hsub, hcontinues⟩
  · rw [Function.update_of_ne hn] at hsub'
    exact ⟨sub', hsub', .refl _ _ _⟩

theorem subscriptions_ensureGroup :
    (s.ensureGroup redis config b topic).2.subscriptions = s.subscriptions := by
  unfold ensureGroup
  split
  · rfl
  · split
    · rfl
    · split <;> rfl

theorem step_contents (laws : redis.Stores added) (h : s.step redis json config e = some s')
    (hsub' : s'.subscriptions n = some sub') :
    (∃ sub, s.subscriptions n = some sub ∧
      Continues json (added s.db (streamKey sub.topic)) sub sub') ∨
    sub'.task.batch = [] ∧ sub'.queue = [] := by
  have hkept : s.subscriptions n = some sub' → ∃ sub, s.subscriptions n = some sub ∧
      Continues json (added s.db (streamKey sub.topic)) sub sub' :=
    fun hsub => ⟨sub', hsub, .refl _ _ _⟩
  have hgoes : ∀ {m}, Advances json added s s' m → ∃ sub, s.subscriptions n = some sub ∧
      Continues json (added s.db (streamKey sub.topic)) sub sub' :=
    fun hadvances => hadvances.subscription hsub'
  cases goes h with
  | ensured => exact .inl (hkept (subscriptions_ensureGroup ▸ hsub'))
  | published | publishedWithHeaders =>
    refine .inl (hkept ?_)
    simp only [add] at hsub'
    split at hsub' <;> exact hsub'
  | spawned =>
    by_cases hn : n = s.next
    · subst hn
      simp only [spawn, setSubscription, Function.update_self, Option.some.injEq] at hsub'
      subst hsub'
      exact .inr ⟨rfl, rfl⟩
    · simp only [spawn, setSubscription, Function.update_of_ne hn] at hsub'
      exact .inl (hkept hsub')
  | @checked m sub hsub =>
    refine .inl (hgoes ⟨sub, _, hsub, rfl, .idle ?_⟩)
    split <;> rfl
  | @read m sub batch db hsub _ hreply =>
    refine .inl (hgoes ⟨sub, _, hsub, rfl, rfl, fun entry hentry => ?_, fun _ h => .inl h⟩)
    rw [StreamTask.batch_ofBatch] at hentry
    exact .inr (laws.handed _ _ _ _ _ _ _ (congrArg Prod.fst hreply) hentry)
  | @refused m sub _ _ hsub | @unread m sub hsub | @lost m sub hsub | @closed m _ sub _ _ hsub =>
    exact .inl (hgoes ⟨sub, _, hsub, rfl, .idle rfl⟩)
  | @sent m now sub entry rest hsub htask =>
    -- the entry is taken off the batch and goes into the queue as a message
    refine .inl (hgoes ⟨sub, _, hsub, rfl, rfl, fun entry' hentry' => ?_, fun msg hmsg => ?_⟩)
    · rw [StreamTask.batch_ofBatch] at hentry'
      simp [htask, StreamTask.batch, hentry']
    · rcases List.mem_append.mp hmsg with hold | hnew
      · exact .inl hold
      · exact .inr ⟨entry, by simp [htask, StreamTask.batch], now, List.mem_singleton.mp hnew⟩
  | @received m sub first queue hsub hqueue =>
    refine .inl (hgoes ⟨sub, _, hsub, rfl, rfl, fun _ h => .inl h, fun msg hmsg => .inl ?_⟩)
    exact hqueue ▸ List.mem_cons_of_mem _ hmsg
  | @dropped m sub hsub =>
    exact .inl (hgoes ⟨sub, _, hsub, rfl, rfl, fun _ h => .inl h, fun _ h => .inl h⟩)
  | crashed => exact .inl (hkept (Option.filter_eq_some_iff.mp hsub').1)
  | acked =>
    refine .inl (hkept ?_)
    simp only [ackEntry] at hsub'
    split at hsub' <;> exact hsub'

theorem Sound.step (laws : redis.Stores added) (hi : s.Sound json added)
    (h : s.step redis json config e = some s') : s'.Sound json added := by
  have hadds := step_adds laws h
  refine ⟨hadds.nodup hi.nodup, ?_, ?_⟩
  · intro n sub' hsub' entry hentry
    rcases step_contents laws h hsub' with ⟨sub, hsub, htopic, hbatch, -⟩ | ⟨hbatch, -⟩
    · rw [htopic]
      apply (hadds.isPrefix _).subset
      rcases hbatch entry hentry with hold | hnew
      · exact hi.batch n sub hsub hold
      · exact hnew
    · rw [hbatch] at hentry
      cases hentry
  · intro n sub' hsub' msg hmsg
    rcases step_contents laws h hsub' with ⟨sub, hsub, htopic, -, hqueue⟩ | ⟨-, hqueue⟩
    · rw [htopic]
      obtain ⟨entry, hentry, now, rfl⟩ : ∃ entry ∈ added s.db (streamKey sub.topic), ∃ now,
          msg = entry.parse json now := by
        rcases hqueue msg hmsg with hold | ⟨entry, hentry, hparse⟩
        · exact hi.queue n sub hsub msg hold
        · exact ⟨entry, hi.batch n sub hsub hentry, hparse⟩
      exact ⟨entry, (hadds.isPrefix _).subset hentry, now, rfl⟩
    · rw [hqueue] at hmsg
      cases hmsg

theorem run_sound (laws : redis.Stores added) (hi : s.Sound json added)
    (hr : run (step redis json config) s es = some t) :
    t.Sound json added ∧ ∀ key, added s.db key <+: added t.db key := by
  apply run_invariant (P := fun t => t.Sound json added ∧ ∀ key, added s.db key <+: added t.db key)
    ⟨hi, fun _ => List.prefix_rfl⟩ _ hr
  intro t e t' ⟨hi, hinitial⟩ h
  exact ⟨hi.step laws h, fun key => (hinitial key).trans ((step_adds laws h).isPrefix key)⟩

theorem same_of_receives (laws : redis.Stores added) (hjson : json.RoundTrips headers)
    (h : Receives redis json config added topic payload headers msg) :
    msg.Same topic payload headers := by
  obtain ⟨db, b, earlier, later, s, id, db', t, n, sub, hnodup, hs, hadd, ht, hsub, rfl, hmsg,
    hid⟩ := h
  have hstart : (start db).Sound json added := ⟨hnodup, by simp [start], by simp [start]⟩
  obtain ⟨s₁, h₁, ht⟩ := run_cons.mp ht
  have hs₁ := (run_sound laws hstart hs).1.step laws h₁
  have hadded : ⟨id, headerFields json sub.topic payload headers⟩ ∈
      added s₁.db (streamKey sub.topic) := by
    cases goes h₁ with
    | publishedWithHeaders => simp [add, hadd, (laws.add _ _ _ _ _ _ hadd).2]
  obtain ⟨hsound, hinitial⟩ := run_sound laws hs₁ ht
  obtain ⟨entry, hentry, now, rfl⟩ := hsound.queue n sub hsub msg hmsg
  have hsame := List.inj_on_of_nodup_map (hsound.nodup (streamKey sub.topic)) hentry
    ((hinitial _).subset hadded) hid
  rw [hsame, parse_headerFields json hjson]
  exact ⟨rfl, rfl, rfl⟩

end

end StreamBuses

-- ---------------------------------------------------------------------------
-- NATS
-- ---------------------------------------------------------------------------

namespace NatsBuses

section
variable {Js : Type} (server : NatsServer Js) (isHeaderName : String → Bool)
  (config : Nat → NatsConfig) (view : Js → JetStream)

def Receives (topic : String) (payload : List UInt8) (headers : Headers) (msg : Message) : Prop :=
  ∃ js b earlier later s t n sub,
    run (step server isHeaderName config) (start js) earlier = some s ∧
    (s.publishWithHeaders server isHeaderName topic payload headers).1 = .ok () ∧
    run (step server isHeaderName config) s (.publishWithHeaders b topic payload headers :: later) =
      some t ∧
    t.subscriptions n = some sub ∧ sub.topic = topic ∧ ((view s.js).stored.length, msg) ∈ sub.queue

def Sound (s : NatsBuses Js) : Prop :=
  ∀ n sub, s.subscriptions n = some sub → ∀ arrival ∈ sub.arrived,
    ∃ natsMsg draw, (view s.js).stored[arrival.1]? = some natsMsg ∧
      arrival.2 = natsMsg.toMessage draw

end

section
variable {Js : Type} {server : NatsServer Js} {accepts : String → String → Prop}
  {isHeaderName : String → Bool} {config : Nat → NatsConfig} {view : Js → JetStream}
  {s s' t : NatsBuses Js}

theorem getElem?_of_prefix {l l' : List NatsMessage} {i : Nat} (h : l <+: l')
    (hmsg : l[i]? = some msg) : l'[i]? = some msg := by
  obtain ⟨hi, hget⟩ := List.getElem?_eq_some_iff.mp hmsg
  rw [List.prefix_iff_getElem?.mp h i hi, hget]

theorem Sound.step (laws : server.Lawful accepts view) (hi : s.Sound view)
    (h : s.step server isHeaderName config e = some s') : s'.Sound view := by
  intro n sub' hsub' arrival harrival
  obtain ⟨natsMsg, draw, hstored, hmsg⟩ : ∃ natsMsg draw,
      (view s.js).stored[arrival.1]? = some natsMsg ∧ arrival.2 = natsMsg.toMessage draw := by
    rcases step_subscription laws h hsub' with ⟨sub, hsub, -, -, harrived⟩ |
      ⟨b, topic, -, -, -, -, hnone⟩
    · rcases harrived arrival harrival with hold | ⟨natsMsg, draw, filter, hstored, hmsg, -⟩
      · exact hi n sub hsub arrival hold
      · exact ⟨natsMsg, draw, hstored, hmsg⟩
    · rw [hnone] at harrival
      cases harrival
  exact ⟨natsMsg, draw, getElem?_of_prefix (step_js laws h).stored_initial hstored, hmsg⟩

theorem run_sound (laws : server.Lawful accepts view) (hi : s.Sound view)
    (hr : run (step server isHeaderName config) s es = some t) :
    t.Sound view ∧ (view s.js).stored <+: (view t.js).stored := by
  apply run_invariant (P := fun t => t.Sound view ∧ (view s.js).stored <+: (view t.js).stored)
    ⟨hi, List.prefix_rfl⟩ _ hr
  intro t e t' ⟨hi, hinitial⟩ h
  exact ⟨hi.step laws h, hinitial.trans (step_js laws h).stored_initial⟩

theorem send_stores (laws : server.Lawful accepts view)
    (h : (s.send server topic headers payload).1 = .ok ()) :
    view (s.send server topic headers payload).2.js =
      (view s.js).store ⟨subject topic, headers, payload⟩ := by
  unfold send at h ⊢
  split at h
  · rename_i hreply
    exact laws.acked _ _ _ _ _ hreply
  · cases h
  · cases h

/-- The topic comes back as the subject, and of the headers those whose names
the client takes. -/
theorem receives_nats (laws : server.Lawful accepts view)
    (h : Receives server isHeaderName config view topic payload headers msg) :
    msg.Same (subject topic) payload (headers.filter fun name _ => isHeaderName name) := by
  obtain ⟨js, b, earlier, later, s, t, n, sub, hs, hok, ht, hsub, -, hmsg⟩ := h
  have hstart : (start js).Sound view := by
    intro n sub hsub
    cases hsub
  obtain ⟨s₁, h₁, ht⟩ := run_cons.mp ht
  have hs₁ := (run_sound laws hstart hs).1.step laws h₁
  have hstored : (view s₁.js).stored = (view s.js).stored ++
      [⟨subject topic, some (natsHeaders isHeaderName headers), payload⟩] := by
    cases h₁
    exact congrArg JetStream.stored (send_stores laws hok)
  obtain ⟨hsound, hinitial⟩ := run_sound laws hs₁ ht
  have harrived : ((view s.js).stored.length, msg) ∈ sub.arrived := by
    unfold NatsSubscription.arrived
    split
    · exact List.mem_append_left _ hmsg
    · exact hmsg
  obtain ⟨natsMsg, draw, hgot, hmsg⟩ := hsound n sub hsub _ harrived
  have hsent : (view t.js).stored[(view s.js).stored.length]? =
      some ⟨subject topic, some (natsHeaders isHeaderName headers), payload⟩ := by
    apply getElem?_of_prefix hinitial
    simp [hstored]
  cases hsent.symm.trans hgot
  have hmsg : msg = _ := hmsg
  rw [hmsg]
  exact ⟨rfl, rfl, messageHeaders_natsHeaders isHeaderName headers⟩

end

end NatsBuses

-- ---------------------------------------------------------------------------
-- The backends
-- ---------------------------------------------------------------------------

inductive Backend
  | inMemory
  | redisStreams
  | nats

/-- A subscriber of the topic receives the message for a `publish_with_headers`
that returned `Ok`. -/
def Receives (redis : RedisStreams Db) (json : HeaderJson)
    (redisConfig : Nat → RedisStreamMqConfig) (added : Db → String → List StreamEntry)
    (server : NatsServer Js) (isHeaderName : String → Bool) (natsConfig : Nat → NatsConfig)
    (view : Js → JetStream) : Backend → (topic : String) → (payload : List UInt8) →
    (headers : Headers) → (msg : Message) → Prop
  | .inMemory => InMemoryBus.Receives
  | .redisStreams => StreamBuses.Receives redis json redisConfig added
  | .nats => NatsBuses.Receives server isHeaderName natsConfig view

/-- A message arrives as it was published exactly with the backends other than
NATS. -/
theorem same_iff (redis : RedisStreams Db) (json : HeaderJson)
    (redisConfig : Nat → RedisStreamMqConfig) (added : Db → String → List StreamEntry)
    (hredis : redis.Stores added) (server : NatsServer Js) (accepts : String → String → Prop)
    (isHeaderName : String → Bool) (natsConfig : Nat → NatsConfig) (view : Js → JetStream)
    (hserver : server.Lawful accepts view) (backend : Backend) (topic : String)
    (payload : List UInt8) (headers : Headers) (hjson : json.RoundTrips headers) (msg : Message)
    (h : Receives redis json redisConfig added server isHeaderName natsConfig view backend topic
      payload headers msg) :
    msg.Same topic payload headers ↔ backend ≠ .nats := by
  cases backend with
  | inMemory => exact iff_of_true (InMemoryBus.same_of_receives h) Backend.noConfusion
  | redisStreams =>
    exact iff_of_true (StreamBuses.same_of_receives hredis hjson h) Backend.noConfusion
  | nats =>
    have hsame := NatsBuses.receives_nats hserver h
    refine iff_of_false (fun hsame' => ?_) (not_not_intro rfl)
    exact subject_ne topic (hsame.topic.symm.trans hsame'.topic)

-- ---------------------------------------------------------------------------
-- A message through Redis and one through NATS
-- ---------------------------------------------------------------------------

theorem mapRedisStreams_stores :
    mapRedisStreams.Stores fun db key => (mapStreams db key).entries where
  create db key group start := by
    funext key'
    simp only [mapRedisStreams]
    split
    · by_cases hkey : key' = key
      · subst hkey
        simp [mapStreams, StoredStream.stream]
      · simp [mapStreams, hkey]
    · rfl
  add db key maxLen fields id db' h := by
    cases h
    obtain ⟨id, db', hadd, hid, hstreams⟩ := mapRedisStreams_lawful.add db key fields
    cases hadd
    refine ⟨hid, ?_⟩
    simp only [hstreams]
    funext key'
    by_cases hkey : key' = key
    · subst hkey
      simp [Stream.add]
    · simp [hkey]
  add_failed db key maxLen fields e db' h := by cases h
  read db key group consumer count blockMs := by
    funext key'
    simp only [mapRedisStreams]
    split
    · rfl
    · by_cases hkey : key' = key
      · subst hkey
        simp [mapStreams, StoredStream.stream]
      · simp [mapStreams, hkey]
  handed db key group consumer count blockMs entries h := by
    simp only [mapRedisStreams] at h
    split at h <;> cases h
    exact List.Subset.trans (Stream.batch_isPrefix _ _ _).subset (List.drop_subset _ _)
  ack db key group id := by
    funext key'
    simp only [mapRedisStreams]
    by_cases hkey : key' = key
    · subst hkey
      simp [mapStreams, StoredStream.stream]
    · simp [mapStreams, hkey]

def tracedHeaders : Headers := (∅ : Headers).insert "trace" "7"

/-- The text of these headers, and of none. -/
def tracedJson : HeaderJson where
  toString headers := some (if headers.isEmpty then "\x7b\x7d" else "\x7b\"trace\":\"7\"\x7d")
  fromStr text :=
    if text = "\x7b\x7d" then some ∅
    else if text = "\x7b\"trace\":\"7\"\x7d" then some tracedHeaders else none

theorem tracedJson_roundTrips : tracedJson.RoundTrips tracedHeaders :=
  ⟨"\x7b\"trace\":\"7\"\x7d", by decide +kernel, by simp [tracedJson]⟩

abbrev redisStep := StreamBuses.step mapRedisStreams tracedJson fun _ => StreamBuses.plainConfig

theorem redis_run :
    ∃ s db' t,
      run redisStep (StreamBuses.start StreamBuses.noStreams)
        [.ensureGroup 0 "orders", .subscribe 0 "orders"] = some s ∧
      mapRedisStreams.xadd s.db (streamKey "orders") none
        (headerFields tracedJson "orders" [1, 2] tracedHeaders) = (.ok (entryId 0), db') ∧
      run redisStep s
        [.publishWithHeaders 0 "orders" [1, 2] tracedHeaders, .check 0, .read 0, .send 0 5] =
          some t ∧
      (t.subscriptions 0).map (fun sub => (sub.topic, sub.queue.map Message.id)) =
        some ("orders", [entryId 0]) :=
  ⟨_, _, _, rfl, rfl, rfl, by decide +kernel⟩

/-- A header name that the client does not take. -/
def spacedHeaders : Headers := (∅ : Headers).insert "trace id" "7"

def isToken (name : String) : Bool :=
  name ≠ "" ∧ name.toList.all fun c => '!' ≤ c ∧ c ≤ '~' ∧ c ≠ ':'

theorem same_iff_redis :
    ∃ msg, Receives mapRedisStreams tracedJson (fun _ => StreamBuses.plainConfig)
        (fun db key => (mapStreams db key).entries) storedNats isToken
        (fun _ => NatsBuses.plainNatsConfig) StoredJs.js .redisStreams "orders" [1, 2]
        tracedHeaders msg ∧
      (msg.Same "orders" [1, 2] tracedHeaders ↔ Backend.redisStreams ≠ .nats) := by
  obtain ⟨s, db', t, hs, hadd, ht, hqueue⟩ := redis_run
  obtain ⟨sub, hsub, heq⟩ := Option.map_eq_some_iff.mp hqueue
  obtain ⟨htopic, hids⟩ := Prod.mk.inj heq
  obtain ⟨msg, hmsg, hid⟩ : ∃ msg ∈ sub.queue, msg.id = entryId 0 :=
    List.mem_map.mp (hids ▸ List.mem_singleton_self _)
  have hreceives : StreamBuses.Receives mapRedisStreams tracedJson
      (fun _ => StreamBuses.plainConfig) (fun db key => (mapStreams db key).entries) "orders"
      [1, 2] tracedHeaders msg := by
    refine ⟨StreamBuses.noStreams, 0, _, _, s, entryId 0, db', t, 0, sub, ?_, hs, hadd, ht, hsub,
      htopic, hmsg, hid⟩
    exact fun _ => List.nodup_nil
  exact ⟨msg, hreceives, same_iff mapRedisStreams tracedJson _ _ mapRedisStreams_stores
    storedNats plainAccepts isToken (fun _ => NatsBuses.plainNatsConfig) StoredJs.js
    storedNats_lawful .redisStreams "orders" [1, 2] tracedHeaders tracedJson_roundTrips msg
    hreceives⟩

abbrev natsStep := NatsBuses.step storedNats isToken fun _ => NatsBuses.plainNatsConfig

theorem nats_run :
    ∃ s, run natsStep (NatsBuses.start StoredJs.empty) [.subscribe 0 "orders", .listen 0] =
        some s ∧
      (s.publishWithHeaders storedNats isToken "orders" [1, 2] spacedHeaders).1 = .ok () ∧
      s.js.js.stored.length = 0 ∧
      (run natsStep s [.publishWithHeaders 0 "orders" [1, 2] spacedHeaders,
          .pull 0 InMemoryBus.plainDraw, .send 0]).bind (fun t =>
        (t.subscriptions 0).map fun sub => (sub.topic, sub.queue.map Prod.fst)) =
        some ("orders", [0]) :=
  ⟨_, rfl, rfl, rfl, by decide +kernel⟩

theorem spacedHeaders_filter : spacedHeaders.filter (fun name _ => isToken name) = ∅ := by
  apply Std.ExtTreeMap.ext_getElem?
  intro name
  rw [Std.ExtTreeMap.getElem?_filter', spacedHeaders, Std.ExtTreeMap.getElem?_insert]
  split
  · rename_i hname
    rw [← Std.LawfulEqCmp.eq_of_compare hname]
    decide +kernel
  · simp

/-- The topic comes back with the prefix of its subject, and the header is gone. -/
theorem nats_changes :
    ∃ msg, NatsBuses.Receives storedNats isToken (fun _ => NatsBuses.plainNatsConfig) StoredJs.js
        "orders" [1, 2] spacedHeaders msg ∧
      msg.topic = "rinfra.orders" ∧ msg.headers = ∅ ∧ ¬ msg.Same "orders" [1, 2] spacedHeaders := by
  obtain ⟨s, hs, hok, hlen, hqueue⟩ := nats_run
  obtain ⟨t, ht, hqueue⟩ := Option.bind_eq_some_iff.mp hqueue
  obtain ⟨sub, hsub, heq⟩ := Option.map_eq_some_iff.mp hqueue
  obtain ⟨htopic, hseqs⟩ := Prod.mk.inj heq
  obtain ⟨⟨seq, msg⟩, hmsg, rfl⟩ : ∃ arrival ∈ sub.queue, arrival.1 = 0 :=
    List.mem_map.mp (hseqs ▸ List.mem_singleton_self _)
  have hreceives : NatsBuses.Receives storedNats isToken (fun _ => NatsBuses.plainNatsConfig)
      StoredJs.js "orders" [1, 2] spacedHeaders msg :=
    ⟨_, 0, _, _, s, t, 0, sub, hs, hok, ht, hsub, htopic, hlen ▸ hmsg⟩
  obtain ⟨htopic, -, hheaders⟩ := NatsBuses.receives_nats storedNats_lawful hreceives
  refine ⟨msg, hreceives, htopic, ?_, ?_⟩
  · rw [hheaders, spacedHeaders_filter]
  · intro hsame
    exact subject_ne "orders" (htopic.symm.trans hsame.topic)

end Rinfra.Mq

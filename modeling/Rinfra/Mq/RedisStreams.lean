import Mathlib.Data.List.Nodup
import Mathlib.Logic.Function.Basic
import Rinfra.Core.Error
import Rinfra.Core.Utf8
import Rinfra.Mq.Message
import Std.Data.String.ToNat

/-!
# The Redis Streams bus

The server and `serde_json` are not part of the repository, so both are
parameters. `RedisStreams.Lawful` says what the documentation of the four
commands promises, in terms of what there is behind each key; the commands are
sent without `MAXLEN`.

Several buses share the server, each with its own configuration. A
subscription is a task that reads from the stream, a channel and a receiver.
-/

namespace Rinfra.Mq

structure RedisStreamMqConfig where
  groupName : String
  consumerName : String
  maxLen : Option Nat
  blockMs : Nat
  batchSize : Nat

structure StreamEntry where
  id : String
  fields : List (String × List UInt8)

/-- The commands the bus sends. An error is given by its text. -/
structure RedisStreams (Db : Type) where
  xgroupCreate : Db → (key group start : String) → Except String Unit × Db
  xadd : Db → (key : String) → (maxLen : Option Nat) → (fields : List (String × List UInt8)) →
    Except String String × Db
  xreadgroup : Db → (key group consumer : String) → (count blockMs : Nat) →
    Except String (List StreamEntry) × Db
  xack : Db → (key group id : String) → Except String Nat × Db

structure Stream where
  entries : List StreamEntry
  /-- How many entries a consumer group was handed, if there is the group. -/
  handed : String → Option Nat
  /-- The entries that are not pending any more. -/
  acked : String → List String

namespace Stream

def empty : Stream := ⟨[], fun _ => none, fun _ => []⟩

def ids (stream : Stream) : List String := stream.entries.map StreamEntry.id

def unread (stream : Stream) (group : String) : List StreamEntry :=
  stream.entries.drop ((stream.handed group).getD 0)

/-- What a read with `>` hands out. `COUNT 0` is no limit. -/
def batch (stream : Stream) (group : String) (count : Nat) : List StreamEntry :=
  if count = 0 then stream.unread group else (stream.unread group).take count

def createGroup (stream : Stream) (group : String) : Stream :=
  { stream with handed := Function.update stream.handed group (some 0) }

def add (stream : Stream) (entry : StreamEntry) : Stream :=
  { stream with entries := stream.entries ++ [entry] }

def read (stream : Stream) (group : String) (count : Nat) : Stream :=
  let handed := (stream.handed group).getD 0 + (stream.batch group count).length
  { stream with handed := Function.update stream.handed group (some handed) }

/-- Only an entry that is pending can be acknowledged. -/
def ack (stream : Stream) (group id : String) : Stream :=
  if id ∈ stream.ids ∧ id ∉ (stream.unread group).map StreamEntry.id then
    { stream with acked := Function.update stream.acked group (id :: stream.acked group) }
  else stream

/-- No two entries have one id, and no group was handed more than there is. -/
structure Valid (stream : Stream) : Prop where
  nodup : stream.ids.Nodup
  handed : ∀ group k, stream.handed group = some k → k ≤ stream.entries.length

section
variable {stream : Stream} {group id : String}

theorem getD_handed_le (hv : stream.Valid) (group : String) :
    (stream.handed group).getD 0 ≤ stream.entries.length := by
  cases h : stream.handed group with
  | none => exact Nat.zero_le _
  | some k => exact hv.handed group k h

@[simp] theorem unread_createGroup (hnone : stream.handed group = none) (group' : String) :
    (stream.createGroup group).unread group' = stream.unread group' := by
  by_cases hg : group' = group
  · subst hg
    simp [createGroup, unread, hnone]
  · simp [createGroup, unread, hg]

theorem unread_add (hv : stream.Valid) (entry : StreamEntry) (group : String) :
    (stream.add entry).unread group = stream.unread group ++ [entry] :=
  List.drop_append_of_le_length (getD_handed_le hv group)

theorem batch_isPrefix (stream : Stream) (group : String) (count : Nat) :
    stream.batch group count <+: stream.unread group := by
  rw [batch]
  split
  · exact List.prefix_rfl
  · exact List.take_prefix _ _

theorem batch_append_unread (stream : Stream) (group : String) (count : Nat) :
    stream.batch group count ++ (stream.read group count).unread group = stream.unread group := by
  obtain ⟨rest, hrest⟩ := stream.batch_isPrefix group count
  have hdrop : (stream.read group count).unread group = rest := by
    simp only [unread, read, Function.update_self, Option.getD_some, ← List.drop_drop]
    rw [← unread, ← hrest, List.drop_left]
  rw [hdrop, hrest]

theorem unread_read_other (h : group' ≠ group) :
    (stream.read group count).unread group' = stream.unread group' := by
  simp [unread, read, h]

@[simp] theorem unread_ack : (stream.ack group id).unread group' = stream.unread group' := by
  unfold ack
  split <;> rfl

@[simp] theorem ids_ack : (stream.ack group id).ids = stream.ids := by
  unfold ack
  split <;> rfl

theorem ids_unread_subset (stream : Stream) (group : String) :
    (stream.unread group).map StreamEntry.id ⊆ stream.ids :=
  List.map_subset _ (List.drop_subset _ _)

theorem batch_ne_nil (h : stream.unread group ≠ []) (count : Nat) :
    stream.batch group count ≠ [] := by
  rw [batch]
  split
  · exact h
  · simpa [List.take_eq_nil_iff, h]

theorem Valid.createGroup (hv : stream.Valid) (group : String) :
    (stream.createGroup group).Valid := by
  refine ⟨hv.nodup, ?_⟩
  intro group' k hk
  by_cases hg : group' = group
  · subst hg
    simp only [Stream.createGroup, Function.update_self, Option.some.injEq] at hk
    subst hk
    exact Nat.zero_le _
  · simp only [Stream.createGroup, Function.update_of_ne hg] at hk
    exact hv.handed group' k hk

theorem Valid.add (hv : stream.Valid) (hid : entry.id ∉ stream.ids) :
    (stream.add entry).Valid := by
  constructor
  · have hids : (stream.add entry).ids = stream.ids ++ [entry.id] := by simp [ids, Stream.add]
    rw [hids]
    exact hv.nodup.append (List.nodup_singleton _) (by simpa using hid)
  · intro group k hk
    have hle := hv.handed group k hk
    simp only [Stream.add, List.length_append]
    omega

theorem Valid.read (hv : stream.Valid) (group : String) (count : Nat) :
    (stream.read group count).Valid := by
  refine ⟨hv.nodup, ?_⟩
  intro group' k hk
  by_cases hg : group' = group
  · subst hg
    have hle := (stream.batch_isPrefix group' count).length_le
    have hhanded := getD_handed_le hv group'
    simp only [Stream.read, Function.update_self, Option.some.injEq] at hk
    simp only [unread, List.length_drop] at hle
    simp only [Stream.read]
    omega
  · simp only [Stream.read, Function.update_of_ne hg] at hk
    exact hv.handed group' k hk

theorem Valid.ack (hv : stream.Valid) (group id : String) : (stream.ack group id).Valid := by
  unfold Stream.ack
  split
  · exact ⟨hv.nodup, hv.handed⟩
  · exact hv

/-- What becomes of a stream in one step. -/
inductive Next (stream : Stream) : Stream → Prop
  | same : Next stream stream
  | created {group : String} (hnone : stream.handed group = none) :
      Next stream (stream.createGroup group)
  | added {entry : StreamEntry} (hid : entry.id ∉ stream.ids) : Next stream (stream.add entry)
  | read {group : String} {count : Nat} : Next stream (stream.read group count)
  | acked {group id : String} : Next stream (stream.ack group id)

theorem Next.valid (h : stream.Next stream') (hv : stream.Valid) : stream'.Valid := by
  cases h with
  | same => exact hv
  | created hnone => exact hv.createGroup _
  | added hid => exact hv.add hid
  | read => exact hv.read _ _
  | acked => exact hv.ack _ _

theorem Next.ids (h : stream.Next stream') : stream.ids ⊆ stream'.ids := by
  cases h with
  | same | created hnone | read => exact List.Subset.refl _
  | added hid => exact List.map_subset _ (List.subset_append_left _ _)
  | acked => rw [ids_ack]; exact List.Subset.refl _

theorem Next.unread (h : stream.Next stream') (hv : stream.Valid) (hid : id ∈ stream.ids)
    (hunread : id ∈ (stream'.unread group).map StreamEntry.id) :
    id ∈ (stream.unread group).map StreamEntry.id := by
  cases h with
  | same => exact hunread
  | created hnone => rwa [unread_createGroup hnone] at hunread
  | @added entry hid' =>
    rw [unread_add hv, List.map_append, List.mem_append] at hunread
    rcases hunread with hunread | hnew
    · exact hunread
    · rw [List.map_singleton, List.mem_singleton] at hnew
      exact absurd (hnew ▸ hid) hid'
  | @read group' count =>
    by_cases hg : group = group'
    · subst hg
      rw [← stream.batch_append_unread group count, List.map_append]
      exact List.mem_append_right _ hunread
    · rwa [unread_read_other hg] at hunread
  | acked => rwa [unread_ack] at hunread

/-- A new entry is unread by every group. -/
theorem Next.new (h : stream.Next stream') (hv : stream.Valid) (hid : id ∈ stream'.ids) :
    id ∈ stream.ids ∨ ∀ group, id ∈ (stream'.unread group).map StreamEntry.id := by
  cases h with
  | same | created hnone | read => exact .inl hid
  | @added entry hid' =>
    simp only [Stream.ids, add, List.map_append, List.mem_append] at hid
    apply hid.imp_right
    intro hnew group
    rw [unread_add hv, List.map_append]
    exact List.mem_append_right _ hnew
  | acked => exact .inl (ids_ack ▸ hid)

theorem Next.still_acked (h : stream.Next stream') (hid : id ∈ stream.acked group) :
    id ∈ stream'.acked group := by
  cases h with
  | @acked group' id' =>
    unfold ack
    split
    · by_cases hg : group = group'
      · subst hg
        simp [hid]
      · simpa [hg] using hid
    · exact hid
  | _ => exact hid

theorem Next.handed (h : stream.Next stream') (hg : stream.handed group ≠ none) :
    stream'.handed group ≠ none := by
  cases h with
  | same | added hid => exact hg
  | @created group' hnone | @read group' count =>
    by_cases hgg : group = group'
    · subst hgg
      simp [createGroup, Stream.read]
    · simpa [createGroup, Stream.read, hgg] using hg
  | acked =>
    unfold ack
    split <;> exact hg

end

end Stream

structure RedisStreams.Lawful (redis : RedisStreams Db) (streams : Db → String → Stream) :
    Prop where
  create_new : ∀ db key group, (streams db key).handed group = none →
    ∃ db', redis.xgroupCreate db key group "0" = (.ok (), db') ∧
      streams db' = Function.update (streams db) key ((streams db key).createGroup group)
  create_busy : ∀ db key group, (streams db key).handed group ≠ none →
    ∃ e db', redis.xgroupCreate db key group "0" = (.error e, db') ∧
      e.contains "BUSYGROUP" = true ∧ streams db' = streams db
  add : ∀ db key fields, ∃ id db', redis.xadd db key none fields = (.ok id, db') ∧
    id ∉ (streams db key).ids ∧
    streams db' = Function.update (streams db) key ((streams db key).add ⟨id, fields⟩)
  read : ∀ db key group consumer count blockMs, (streams db key).handed group ≠ none →
    ∃ db', redis.xreadgroup db key group consumer count blockMs =
        (.ok ((streams db key).batch group count), db') ∧
      streams db' = Function.update (streams db) key ((streams db key).read group count)
  ack : ∀ db key group id, ∃ n db', redis.xack db key group id = (.ok n, db') ∧
    streams db' = Function.update (streams db) key ((streams db key).ack group id)

/-- `serde_json` on maps of strings. -/
structure HeaderJson where
  toString : Headers → Option String
  fromStr : String → Option Headers

/-- What is written of a map is read as the map. -/
def HeaderJson.RoundTrips (json : HeaderJson) (headers : Headers) : Prop :=
  ∃ text, json.toString headers = some text ∧ json.fromStr text = some headers

-- ---------------------------------------------------------------------------
-- Entries
-- ---------------------------------------------------------------------------

def streamKey (topic : String) : String := "rinfra:mq:" ++ topic

def publishFields (topic : String) (payload : List UInt8) : List (String × List UInt8) :=
  [("topic", utf8Bytes topic), ("payload", payload)]

def headerFields (json : HeaderJson) (topic : String) (payload : List UInt8) (headers : Headers) :
    List (String × List UInt8) :=
  publishFields topic payload ++ [("headers", utf8Bytes ((json.toString headers).getD ""))]

namespace StreamEntry

/-- The later of two fields of one name is the one in the map. -/
def get (entry : StreamEntry) (name : String) : Option (List UInt8) :=
  entry.fields.reverse.lookup name

def getString (entry : StreamEntry) (name : String) : Option String :=
  (entry.get name).bind fromUtf8

def headers (json : HeaderJson) (entry : StreamEntry) : Headers :=
  ((entry.getString "headers").bind json.fromStr).getD ∅

def parse (json : HeaderJson) (now : Nat) (entry : StreamEntry) : Message where
  id := entry.id
  topic := (entry.getString "topic").getD ""
  payload := (entry.get "payload").getD []
  headers := entry.headers json
  createdAt := now

end StreamEntry

-- ---------------------------------------------------------------------------
-- Buses and subscriptions
-- ---------------------------------------------------------------------------

/-- Where the loop of a subscription is. A batch that is being sent has entries
left. -/
inductive StreamTask
  | checking
  | reading
  | sending (entry : StreamEntry) (rest : List StreamEntry)
  | stopped

namespace StreamTask

def ofBatch : List StreamEntry → StreamTask
  | [] => .checking
  | entry :: rest => .sending entry rest

def batch : StreamTask → List StreamEntry
  | .sending entry rest => entry :: rest
  | _ => []

@[simp] theorem batch_ofBatch (entries : List StreamEntry) : (ofBatch entries).batch = entries := by
  cases entries <;> rfl

end StreamTask

structure StreamSubscription where
  bus : Nat
  topic : String
  task : StreamTask
  queue : List Message
  /-- The receiver is there. -/
  live : Bool

structure StreamBuses (Db : Type) where
  db : Db
  createdGroups : Nat → List String
  subscriptions : Nat → Option StreamSubscription
  /-- The number of the next subscription. -/
  next : Nat

inductive StreamEvent
  /-- The first half of a publish and of a subscribe. -/
  | ensureGroup (b : Nat) (topic : String)
  | publish (b : Nat) (topic : String) (payload : List UInt8)
  | publishWithHeaders (b : Nat) (topic : String) (payload : List UInt8) (headers : Headers)
  | subscribe (b : Nat) (topic : String)
  | check (n : Nat)
  | read (n : Nat)
  /-- A read without a reply. The server may have carried it out. -/
  | readFailed (n : Nat) (handled : Bool)
  | send (n : Nat) (now : Nat)
  | receive (n : Nat)
  | drop (n : Nat)
  /-- The process of a bus dies. -/
  | crash (b : Nat)
  | ack (b : Nat) (topic id : String)

def streamCapacity : Nat := 256

namespace StreamBuses

section
variable {Db : Type} (redis : RedisStreams Db) (json : HeaderJson)
  (config : Nat → RedisStreamMqConfig)

def start (db : Db) : StreamBuses Db := ⟨db, fun _ => [], fun _ => none, 0⟩

def setSubscription (s : StreamBuses Db) (n : Nat) (sub : StreamSubscription) : StreamBuses Db :=
  { s with subscriptions := Function.update s.subscriptions n (some sub) }

def groupCreated (s : StreamBuses Db) (b : Nat) (key : String) : StreamBuses Db :=
  { s with createdGroups := Function.update s.createdGroups b (key :: s.createdGroups b) }

def ensureGroup (s : StreamBuses Db) (b : Nat) (key : String) :
    Except AppError Unit × StreamBuses Db :=
  if key ∈ s.createdGroups b then (.ok (), s)
  else
    match redis.xgroupCreate s.db key (config b).groupName "0" with
    | (.ok _, db) => (.ok (), { s with db }.groupCreated b key)
    | (.error e, db) =>
      if e.contains "BUSYGROUP" then (.ok (), { s with db }.groupCreated b key)
      else (.error ⟨.internal, s!"xgroup create failed: {e}"⟩, { s with db })

/-- `publish` and `publish_with_headers` once the group is ensured. -/
def add (s : StreamBuses Db) (b : Nat) (key : String) (fields : List (String × List UInt8)) :
    Except AppError Unit × StreamBuses Db :=
  match redis.xadd s.db key (config b).maxLen fields with
  | (.ok _, db) => (.ok (), { s with db })
  | (.error e, db) => (.error ⟨.mqPublishFailed, s!"redis xadd failed: {e}"⟩, { s with db })

/-- `subscribe` once the group is ensured. -/
def spawn (s : StreamBuses Db) (b : Nat) (topic : String) : StreamBuses Db :=
  { s.setSubscription s.next ⟨b, topic, .checking, [], true⟩ with next := s.next + 1 }

def ackEntry (s : StreamBuses Db) (b : Nat) (topic id : String) :
    Except AppError Unit × StreamBuses Db :=
  match redis.xack s.db (streamKey topic) (config b).groupName id with
  | (.ok _, db) => (.ok (), { s with db })
  | (.error e, db) => (.error ⟨.internal, s!"redis xack failed: {e}"⟩, { s with db })

/-- `XREADGROUP` as the loop of a subscription sends it. -/
def xreadgroup (s : StreamBuses Db) (sub : StreamSubscription) :
    Except String (List StreamEntry) × Db :=
  redis.xreadgroup s.db (streamKey sub.topic) (config sub.bus).groupName
    (config sub.bus).consumerName (config sub.bus).batchSize (config sub.bus).blockMs

def step (s : StreamBuses Db) : StreamEvent → Option (StreamBuses Db)
  | .ensureGroup b topic => pure (s.ensureGroup redis config b (streamKey topic)).2
  | .publish b topic payload =>
    if streamKey topic ∈ s.createdGroups b then
      pure (s.add redis config b (streamKey topic) (publishFields topic payload)).2
    else none
  | .publishWithHeaders b topic payload headers =>
    if streamKey topic ∈ s.createdGroups b then
      pure (s.add redis config b (streamKey topic) (headerFields json topic payload headers)).2
    else none
  | .subscribe b topic =>
    if streamKey topic ∈ s.createdGroups b then pure (s.spawn b topic) else none
  | .check n => do
    let sub ← s.subscriptions n
    let .checking := sub.task | none
    pure (s.setSubscription n { sub with task := if sub.live then .reading else .stopped })
  | .read n => do
    let sub ← s.subscriptions n
    let .reading := sub.task | none
    match s.xreadgroup redis config sub with
    | (.ok batch, db) =>
      pure ({ s with db }.setSubscription n { sub with task := .ofBatch batch })
    | (.error _, db) => pure ({ s with db }.setSubscription n { sub with task := .checking })
  | .readFailed n handled => do
    let sub ← s.subscriptions n
    let .reading := sub.task | none
    let db := if handled then (s.xreadgroup redis config sub).2 else s.db
    pure ({ s with db }.setSubscription n { sub with task := .checking })
  | .send n now => do
    let sub ← s.subscriptions n
    let .sending entry rest := sub.task | none
    if sub.live then
      if sub.queue.length < streamCapacity then
        pure (s.setSubscription n
          { sub with queue := sub.queue ++ [entry.parse json now], task := .ofBatch rest })
      else none
    else pure (s.setSubscription n { sub with task := .stopped })
  | .receive n => do
    let sub ← s.subscriptions n
    let _ :: queue := sub.queue | none
    if sub.live then pure (s.setSubscription n { sub with queue }) else none
  | .drop n => do
    let sub ← s.subscriptions n
    if sub.live then pure (s.setSubscription n { sub with live := false }) else none
  | .crash b => pure { s with
      createdGroups := Function.update s.createdGroups b []
      subscriptions := fun n => (s.subscriptions n).filter fun sub => sub.bus ≠ b }
  | .ack b topic id => pure (s.ackEntry redis config b topic id).2

inductive Goes (s : StreamBuses Db) : StreamEvent → StreamBuses Db → Prop
  | ensured {b : Nat} {topic : String} :
      Goes s (.ensureGroup b topic) (s.ensureGroup redis config b (streamKey topic)).2
  | published {b : Nat} {topic : String} {payload : List UInt8}
      (hkey : streamKey topic ∈ s.createdGroups b) :
      Goes s (.publish b topic payload)
        (s.add redis config b (streamKey topic) (publishFields topic payload)).2
  | publishedWithHeaders {b : Nat} {topic : String} {payload : List UInt8} {headers : Headers}
      (hkey : streamKey topic ∈ s.createdGroups b) :
      Goes s (.publishWithHeaders b topic payload headers)
        (s.add redis config b (streamKey topic) (headerFields json topic payload headers)).2
  | spawned {b : Nat} {topic : String} (hkey : streamKey topic ∈ s.createdGroups b) :
      Goes s (.subscribe b topic) (s.spawn b topic)
  | checked {n : Nat} {sub : StreamSubscription} (hsub : s.subscriptions n = some sub)
      (htask : sub.task = .checking) :
      Goes s (.check n)
        (s.setSubscription n { sub with task := if sub.live then .reading else .stopped })
  | read {n : Nat} {sub : StreamSubscription} {batch : List StreamEntry} {db : Db}
      (hsub : s.subscriptions n = some sub) (htask : sub.task = .reading)
      (hreply : s.xreadgroup redis config sub = (.ok batch, db)) :
      Goes s (.read n) ({ s with db }.setSubscription n { sub with task := .ofBatch batch })
  | refused {n : Nat} {sub : StreamSubscription} {e : String} {db : Db}
      (hsub : s.subscriptions n = some sub) (htask : sub.task = .reading)
      (hreply : s.xreadgroup redis config sub = (.error e, db)) :
      Goes s (.read n) ({ s with db }.setSubscription n { sub with task := .checking })
  | unread {n : Nat} {sub : StreamSubscription} (hsub : s.subscriptions n = some sub)
      (htask : sub.task = .reading) :
      Goes s (.readFailed n false) (s.setSubscription n { sub with task := .checking })
  | lost {n : Nat} {sub : StreamSubscription} (hsub : s.subscriptions n = some sub)
      (htask : sub.task = .reading) :
      Goes s (.readFailed n true)
        ({ s with db := (s.xreadgroup redis config sub).2 }.setSubscription n
          { sub with task := .checking })
  | sent {n now : Nat} {sub : StreamSubscription} {entry : StreamEntry} {rest : List StreamEntry}
      (hsub : s.subscriptions n = some sub) (htask : sub.task = .sending entry rest)
      (hlive : sub.live = true) (hroom : sub.queue.length < streamCapacity) :
      Goes s (.send n now) (s.setSubscription n
        { sub with queue := sub.queue ++ [entry.parse json now], task := .ofBatch rest })
  | closed {n now : Nat} {sub : StreamSubscription} {entry : StreamEntry}
      {rest : List StreamEntry} (hsub : s.subscriptions n = some sub)
      (htask : sub.task = .sending entry rest) (hclosed : sub.live = false) :
      Goes s (.send n now) (s.setSubscription n { sub with task := .stopped })
  | received {n : Nat} {sub : StreamSubscription} {msg : Message} {queue : List Message}
      (hsub : s.subscriptions n = some sub) (hqueue : sub.queue = msg :: queue)
      (hlive : sub.live = true) :
      Goes s (.receive n) (s.setSubscription n { sub with queue })
  | dropped {n : Nat} {sub : StreamSubscription} (hsub : s.subscriptions n = some sub)
      (hlive : sub.live = true) :
      Goes s (.drop n) (s.setSubscription n { sub with live := false })
  | crashed {b : Nat} :
      Goes s (.crash b) { s with
        createdGroups := Function.update s.createdGroups b []
        subscriptions := fun n => (s.subscriptions n).filter fun sub => sub.bus ≠ b }
  | acked {b : Nat} {topic id : String} :
      Goes s (.ack b topic id) (s.ackEntry redis config b topic id).2

end

section
variable {Db : Type} {redis : RedisStreams Db} {json : HeaderJson}
  {config : Nat → RedisStreamMqConfig} {s s' : StreamBuses Db}

theorem goes (h : s.step redis json config e = some s') : Goes redis json config s e s' := by
  cases e with
  | ensureGroup b topic =>
    cases h
    exact .ensured
  | publish b topic payload =>
    simp only [step] at h
    split at h <;> cases h
    exact .published ‹_›
  | publishWithHeaders b topic payload headers =>
    simp only [step] at h
    split at h <;> cases h
    exact .publishedWithHeaders ‹_›
  | subscribe b topic =>
    simp only [step] at h
    split at h <;> cases h
    exact .spawned ‹_›
  | check n =>
    simp only [step, Option.bind_eq_bind, Option.bind_eq_some_iff] at h
    obtain ⟨sub, hsub, h⟩ := h
    split at h <;> cases h
    exact .checked hsub ‹_›
  | read n =>
    simp only [step, Option.bind_eq_bind, Option.bind_eq_some_iff] at h
    obtain ⟨sub, hsub, h⟩ := h
    split at h
    · split at h <;> cases h
      · exact .read hsub ‹_› ‹_›
      · exact .refused hsub ‹_› ‹_›
    · cases h
  | readFailed n handled =>
    simp only [step, Option.bind_eq_bind, Option.bind_eq_some_iff] at h
    obtain ⟨sub, hsub, h⟩ := h
    cases handled <;> split at h <;> cases h
    · exact .unread hsub ‹_›
    · exact .lost hsub ‹_›
  | send n now =>
    simp only [step, Option.bind_eq_bind, Option.bind_eq_some_iff] at h
    obtain ⟨sub, hsub, h⟩ := h
    split at h
    · split at h
      · split at h <;> cases h
        exact .sent hsub ‹_› ‹_› ‹_›
      · cases h
        exact .closed hsub ‹_› (by simpa using ‹¬ sub.live = true›)
    · cases h
  | receive n =>
    simp only [step, Option.bind_eq_bind, Option.bind_eq_some_iff] at h
    obtain ⟨sub, hsub, h⟩ := h
    split at h
    · split at h <;> cases h
      exact .received hsub ‹_› ‹_›
    · cases h
  | drop n =>
    simp only [step, Option.bind_eq_bind, Option.bind_eq_some_iff] at h
    obtain ⟨sub, hsub, h⟩ := h
    split at h <;> cases h
    exact .dropped hsub ‹_›
  | crash b =>
    cases h
    exact .crashed
  | ack b topic id =>
    cases h
    exact .acked

end

end StreamBuses

-- ---------------------------------------------------------------------------
-- A lawful server
-- ---------------------------------------------------------------------------

structure StoredStream where
  fields : List (List (String × List UInt8))
  handed : String → Option Nat
  acked : String → List String

def entryId (n : Nat) : String := n.repr ++ "-0"

theorem entryId_injective (h : entryId m = entryId n) : m = n :=
  Nat.repr_injective ((String.append_left_inj _).mp h)

namespace StoredStream

/-- An entry has its position for an id. -/
def stream (stored : StoredStream) : Stream where
  entries := stored.fields.zipIdx.map fun (fields, n) => ⟨entryId n, fields⟩
  handed := stored.handed
  acked := stored.acked

theorem ids_stream (stored : StoredStream) :
    stored.stream.ids = (List.range stored.fields.length).map entryId := by
  have hpositions : stored.fields.zipIdx.map Prod.snd = List.range stored.fields.length := by
    rw [List.zipIdx_map_snd, List.range_eq_range']
  rw [← hpositions, List.map_map, Stream.ids, stream, List.map_map]
  rfl

end StoredStream

abbrev MapStreams := String → StoredStream

def mapStreams (db : MapStreams) (key : String) : Stream := (db key).stream

def mapRedisStreams : RedisStreams MapStreams where
  xgroupCreate db key group _ :=
    if (db key).handed group = none then
      (.ok (), Function.update db key
        { db key with handed := Function.update (db key).handed group (some 0) })
    else (.error "BUSYGROUP Consumer Group name already exists", db)
  xadd db key _ fields :=
    (.ok (entryId (db key).fields.length),
      Function.update db key { db key with fields := (db key).fields ++ [fields] })
  xreadgroup db key group _ count _ :=
    if (db key).handed group = none then (.error "NOGROUP No such key or consumer group", db)
    else
      (.ok ((db key).stream.batch group count), Function.update db key
        { db key with handed := ((db key).stream.read group count).handed })
  xack db key group id :=
    (.ok (if ((db key).stream.ack group id).acked group = (db key).acked group then 0 else 1),
      Function.update db key { db key with acked := ((db key).stream.ack group id).acked })

theorem mapStreams_update (db : MapStreams) (key : String) (stored : StoredStream) :
    mapStreams (Function.update db key stored) =
      Function.update (mapStreams db) key stored.stream := by
  funext key'
  by_cases hkey : key' = key
  · subst hkey
    simp [mapStreams]
  · simp [mapStreams, hkey]

theorem mapRedisStreams_lawful : mapRedisStreams.Lawful mapStreams where
  create_new db key group hnone := by
    have hnone : (db key).handed group = none := hnone
    refine ⟨_, if_pos hnone, ?_⟩
    rw [mapStreams_update]
    rfl
  create_busy db key group hsome := by
    have hsome : (db key).handed group ≠ none := hsome
    refine ⟨_, _, if_neg hsome, ?_, rfl⟩
    rw [String.contains_string_iff]
    decide
  add db key fields := by
    refine ⟨_, _, rfl, ?_, ?_⟩
    · simp only [mapStreams, StoredStream.ids_stream, List.mem_map, List.mem_range]
      rintro ⟨n, hn, hid⟩
      exact absurd (entryId_injective hid) (Nat.ne_of_lt hn)
    · rw [mapStreams_update]
      simp [StoredStream.stream, Stream.add, mapStreams, List.zipIdx_append]
  read db key group consumer count blockMs hsome := by
    have hsome : (db key).handed group ≠ none := hsome
    refine ⟨_, if_neg hsome, ?_⟩
    rw [mapStreams_update]
    rfl
  ack db key group id := by
    refine ⟨_, _, rfl, ?_⟩
    rw [mapStreams_update]
    have hack : ∀ stream : Stream, { stream with acked := (stream.ack group id).acked } =
        stream.ack group id := by
      intro stream
      unfold Stream.ack
      split <;> rfl
    exact congrArg _ (hack (mapStreams db key))

end Rinfra.Mq

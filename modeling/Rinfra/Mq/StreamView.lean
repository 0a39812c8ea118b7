import Mathlib.Logic.Function.Basic
import Rinfra.Mq.RedisStreams

/-!
# The buses, as far as the server's behaviour goes

`Moves` says once what a step can do where the server keeps to its laws. What
is proved of the runs is read off it.
-/

namespace Rinfra.Mq

def StreamEvent.fields (json : HeaderJson) :
    StreamEvent → Option (Nat × String × List (String × List UInt8))
  | .publish b topic payload => some (b, topic, publishFields topic payload)
  | .publishWithHeaders b topic payload headers =>
    some (b, topic, headerFields json topic payload headers)
  | _ => none

/-- The buses, as far as the behaviour of the server goes. -/
abbrev StreamView := StreamBuses (String → Stream)

namespace StreamBuses

def view (streams : Db → String → Stream) (s : StreamBuses Db) : StreamView :=
  { s with db := streams s.db }

def setStream (v : StreamView) (key : String) (stream : Stream) : StreamView :=
  { v with db := Function.update v.db key stream }

section
variable (json : HeaderJson) (config : Nat → RedisStreamMqConfig)

/-- The stream of a subscription once the next batch is read. -/
def readFor (v : StreamView) (sub : StreamSubscription) : StreamView :=
  v.setStream (streamKey sub.topic)
    ((v.db (streamKey sub.topic)).read (config sub.bus).groupName (config sub.bus).batchSize)

def batchFor (v : StreamView) (sub : StreamSubscription) : List StreamEntry :=
  (v.db (streamKey sub.topic)).batch (config sub.bus).groupName (config sub.bus).batchSize

inductive Moves (v : StreamView) : StreamEvent → StreamView → Prop
  | ensured {b : Nat} {topic : String} (hkey : streamKey topic ∈ v.createdGroups b) :
      Moves v (.ensureGroup b topic) v
  | created {b : Nat} {topic : String} (hkey : streamKey topic ∉ v.createdGroups b)
      (hnone : (v.db (streamKey topic)).handed (config b).groupName = none) :
      Moves v (.ensureGroup b topic)
        ((v.setStream (streamKey topic)
          ((v.db (streamKey topic)).createGroup (config b).groupName)).groupCreated b
            (streamKey topic))
  | busy {b : Nat} {topic : String} (hkey : streamKey topic ∉ v.createdGroups b)
      (hsome : (v.db (streamKey topic)).handed (config b).groupName ≠ none) :
      Moves v (.ensureGroup b topic) (v.groupCreated b (streamKey topic))
  | added {e : StreamEvent} {b : Nat} {topic id : String} {fields : List (String × List UInt8)}
      (hfields : e.fields json = some (b, topic, fields))
      (hid : id ∉ (v.db (streamKey topic)).ids) :
      Moves v e (v.setStream (streamKey topic) ((v.db (streamKey topic)).add ⟨id, fields⟩))
  | spawned {b : Nat} {topic : String} (hkey : streamKey topic ∈ v.createdGroups b) :
      Moves v (.subscribe b topic) (v.spawn b topic)
  | checked {n : Nat} {sub : StreamSubscription} (hsub : v.subscriptions n = some sub)
      (htask : sub.task = .checking) :
      Moves v (.check n)
        (v.setSubscription n { sub with task := if sub.live then .reading else .stopped })
  | read {n : Nat} {sub : StreamSubscription} (hsub : v.subscriptions n = some sub)
      (htask : sub.task = .reading) :
      Moves v (.read n) ((v.readFor config sub).setSubscription n
        { sub with task := .ofBatch (v.batchFor config sub) })
  | unread {n : Nat} {sub : StreamSubscription} (hsub : v.subscriptions n = some sub)
      (htask : sub.task = .reading) :
      Moves v (.readFailed n false) (v.setSubscription n { sub with task := .checking })
  | lost {n : Nat} {sub : StreamSubscription} (hsub : v.subscriptions n = some sub)
      (htask : sub.task = .reading) :
      Moves v (.readFailed n true)
        ((v.readFor config sub).setSubscription n { sub with task := .checking })
  | sent {n now : Nat} {sub : StreamSubscription} {entry : StreamEntry} {rest : List StreamEntry}
      (hsub : v.subscriptions n = some sub) (htask : sub.task = .sending entry rest)
      (hlive : sub.live = true) (hroom : sub.queue.length < streamCapacity) :
      Moves v (.send n now) (v.setSubscription n
        { sub with queue := sub.queue ++ [entry.parse json now], task := .ofBatch rest })
  | closed {n now : Nat} {sub : StreamSubscription} {entry : StreamEntry}
      {rest : List StreamEntry} (hsub : v.subscriptions n = some sub)
      (htask : sub.task = .sending entry rest) (hclosed : sub.live = false) :
      Moves v (.send n now) (v.setSubscription n { sub with task := .stopped })
  | received {n : Nat} {sub : StreamSubscription} {msg : Message} {queue : List Message}
      (hsub : v.subscriptions n = some sub) (hqueue : sub.queue = msg :: queue)
      (hlive : sub.live = true) :
      Moves v (.receive n) (v.setSubscription n { sub with queue })
  | dropped {n : Nat} {sub : StreamSubscription} (hsub : v.subscriptions n = some sub)
      (hlive : sub.live = true) :
      Moves v (.drop n) (v.setSubscription n { sub with live := false })
  | crashed {b : Nat} :
      Moves v (.crash b) { v with
        createdGroups := Function.update v.createdGroups b []
        subscriptions := fun n => (v.subscriptions n).filter fun sub => sub.bus ≠ b }
  | acked {b : Nat} {topic id : String} :
      Moves v (.ack b topic id) (v.setStream (streamKey topic)
        ((v.db (streamKey topic)).ack (config b).groupName id))

/-- The groups that the buses read from exist. -/
structure Grouped (v : StreamView) : Prop where
  created : ∀ b, ∀ key ∈ v.createdGroups b, (v.db key).handed (config b).groupName ≠ none
  subscribed : ∀ n sub, v.subscriptions n = some sub →
    (v.db (streamKey sub.topic)).handed (config sub.bus).groupName ≠ none

end

section
variable {Db : Type} {redis : RedisStreams Db} {json : HeaderJson}
  {config : Nat → RedisStreamMqConfig} {streams : Db → String → Stream} {s s' : StreamBuses Db}
  {v v' : StreamView}

theorem step_moves (laws : redis.Lawful streams) (hmax : ∀ b, (config b).maxLen = none)
    (hg : (s.view streams).Grouped config) (h : s.step redis json config e = some s') :
    Moves json config (s.view streams) e (s'.view streams) := by
  have hadd : ∀ {e b topic fields}, e.fields json = some (b, topic, fields) →
      Moves json config (s.view streams) e
        ((s.add redis config b (streamKey topic) fields).2.view streams) := by
    intro e b topic fields hfields
    obtain ⟨id, db', hadd, hid, hstreams⟩ := laws.add s.db (streamKey topic) fields
    rw [← hmax b] at hadd
    simp only [add, hadd, view, hstreams]
    exact .added hfields hid
  have hreads : ∀ n sub, s.subscriptions n = some sub → ∃ db',
      s.xreadgroup redis config sub = (.ok ((s.view streams).batchFor config sub), db') ∧
        streams db' = ((s.view streams).readFor config sub).db :=
    fun n sub hsub => laws.read s.db _ _ _ _ _ (hg.subscribed n sub hsub)
  cases goes h with
  | @ensured b topic =>
    simp only [ensureGroup]
    split
    · exact .ensured ‹_›
    · by_cases hnone : (streams s.db (streamKey topic)).handed (config b).groupName = none
      · obtain ⟨db', hcreate, hstreams⟩ := laws.create_new _ _ _ hnone
        simp only [hcreate, view, groupCreated, hstreams]
        exact .created ‹_› hnone
      · obtain ⟨e, db', hcreate, he, hstreams⟩ := laws.create_busy _ _ _ hnone
        simp only [hcreate, he, if_true, view, groupCreated, hstreams]
        exact .busy ‹_› hnone
  | published | publishedWithHeaders => exact hadd rfl
  | spawned hkey => exact .spawned hkey
  | checked hsub htask => exact .checked hsub htask
  | @read n sub batch db hsub htask hreply =>
    obtain ⟨db', hread, hstreams⟩ := hreads n sub hsub
    rw [hread] at hreply
    cases hreply
    simp only [view, setSubscription, hstreams]
    exact .read (v := s.view streams) hsub htask
  | @refused n sub e db hsub htask hreply =>
    obtain ⟨db', hread, hstreams⟩ := hreads n sub hsub
    rw [hread] at hreply
    cases hreply
  | unread hsub htask => exact .unread hsub htask
  | @lost n sub hsub htask =>
    obtain ⟨db', hread, hstreams⟩ := hreads n sub hsub
    simp only [hread, view, setSubscription, hstreams]
    exact .lost (v := s.view streams) hsub htask
  | sent hsub htask hlive hroom => exact .sent hsub htask hlive hroom
  | closed hsub htask hclosed => exact .closed hsub htask hclosed
  | received hsub hqueue hlive => exact .received hsub hqueue hlive
  | dropped hsub hlive => exact .dropped hsub hlive
  | crashed => exact .crashed
  | @acked b topic id =>
    obtain ⟨n, db', hack, hstreams⟩ := laws.ack s.db (streamKey topic) (config b).groupName id
    simp only [ackEntry, hack, view, hstreams]
    exact .acked

end

section
variable {json : HeaderJson} {config : Nat → RedisStreamMqConfig} {v v' : StreamView}

theorem streamKey_inj : streamKey topic = streamKey topic' ↔ topic = topic' := by
  rw [streamKey, streamKey, String.append_right_inj]

theorem setStream_db (v : StreamView) (key : String) (stream : Stream) (key' : String) :
    (v.setStream key stream).db key' = if key' = key then stream else v.db key' := by
  simp [setStream, Function.update_apply]

theorem stream_step (h : Moves json config v e v') (key : String) :
    (v.db key).Next (v'.db key) := by
  have hset : ∀ {key' stream}, (v.db key').Next stream →
      (v.db key).Next ((v.setStream key' stream).db key) := by
    intro key' stream hnext
    rw [setStream_db]
    split
    · rename_i hkey
      exact hkey ▸ hnext
    · exact .same
  cases h with
  | created hkey hnone => exact hset (.created hnone)
  | added hfields hid => exact hset (.added hid)
  | read hsub htask | lost hsub htask => exact hset .read
  | acked => exact hset .acked
  | _ => exact .same

theorem subscription_step (h : Moves json config v e v') (hsub' : v'.subscriptions n = some sub') :
    (∃ sub, v.subscriptions n = some sub ∧ sub'.bus = sub.bus ∧ sub'.topic = sub.topic) ∨
      n < v'.next ∧ streamKey sub'.topic ∈ v.createdGroups sub'.bus := by
  have hset : ∀ {m sub sub''}, v.subscriptions m = some sub →
      (v.setSubscription m sub'').subscriptions n = some sub' → sub''.bus = sub.bus →
      sub''.topic = sub.topic →
      ∃ sub, v.subscriptions n = some sub ∧ sub'.bus = sub.bus ∧ sub'.topic = sub.topic := by
    intro m sub sub'' hsub hsub' hbus htopic
    simp only [setSubscription] at hsub'
    grind [Function.update_apply]
  cases h with
  | @spawned b t hkey =>
    have hnext : (v.spawn b t).next = v.next + 1 := rfl
    simp only [spawn, setSubscription] at hsub'
    grind [Function.update_apply]
  | checked hsub | read hsub | unread hsub | lost hsub | sent hsub | closed hsub | received hsub
  | dropped hsub => exact .inl (hset hsub hsub' rfl rfl)
  | crashed => exact .inl ⟨sub', (Option.filter_eq_some_iff.mp hsub').1, rfl, rfl⟩
  | _ => exact .inl ⟨sub', hsub', rfl, rfl⟩

theorem grouped_step (hi : v.Grouped config) (h : Moves json config v e v') :
    v'.Grouped config := by
  constructor
  · intro b key hkey
    by_cases hold : key ∈ v.createdGroups b
    · exact (stream_step h key).handed (hi.created b key hold)
    · cases h with
      | @created b' t hkey' hnone =>
        simp only [groupCreated, setStream] at hkey
        obtain ⟨rfl, rfl⟩ : b = b' ∧ key = streamKey t := by grind [Function.update_apply]
        simp [groupCreated, setStream, Stream.createGroup]
      | @busy b' t hkey' hsome =>
        simp only [groupCreated] at hkey
        obtain ⟨rfl, rfl⟩ : b = b' ∧ key = streamKey t := by grind [Function.update_apply]
        exact hsome
      | crashed => grind [Function.update_apply]
      | _ => exact absurd hkey hold
  · intro n sub' hsub'
    rcases subscription_step h hsub' with ⟨sub, hsub, hbus, htopic⟩ | ⟨-, hkey⟩
    · rw [hbus, htopic]
      exact (stream_step h _).handed (hi.subscribed n sub hsub)
    · exact (stream_step h _).handed (hi.created _ _ hkey)

end

end StreamBuses

end Rinfra.Mq

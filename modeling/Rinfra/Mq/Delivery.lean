import Mathlib.Data.Int.CardIntervalMod
import Mathlib.Data.List.Nodup
import Rinfra.Lib.Transition
import Rinfra.Mq.Memory

/-!
# Who gets a message

Under the two locks one publish at a time chooses a subscriber and waits for
room in its channel. So the channels are filled in the order of the calls, and
while the subscribers of a topic stay the same they are served in turn.

Which subscriber a publish serves is settled at its turn. One that was then
kept waiting by a full channel may come through after the subscribers have
changed.
-/

namespace Rinfra.Mq

open Rinfra.Lib

def Event.published : Event → Option (Nat × Message)
  | .call n request draw =>
    match request.job draw with
    | .publish msg => some (n, msg)
    | .subscribe _ => none
  | _ => none

def published (es : List Event) : List (Nat × Message) := es.filterMap Event.published

def Job.message : Nat × Job → Option (Nat × Message)
  | (n, .publish msg) => some (n, msg)
  | (_, .subscribe _) => none

def Sending.message (s : Sending) : Nat × Message := (s.call, s.msg)

def Progress.Untried : Progress → Prop
  | .idle | .waiting => True
  | _ => False

instance : DecidablePred Progress.Untried
  | .idle | .waiting => .isTrue trivial
  | .sending | .published _ | .subscribed _ | .panicked => .isFalse id

inductive Progress.Next : Progress → Progress → Prop
  | same : Next p p
  | called : Next .idle .waiting
  | panicked : Next .idle .panicked
  | unheard : Next .waiting (.published (.ok ()))
  | aimed : Next .waiting .sending
  | subscribed : Next .waiting (.subscribed topic)
  | returned : Next .sending (.published result)

namespace InMemoryBus

def Subscriber (bus : InMemoryBus) (topic : String) (c : Nat) : Prop :=
  bus.calls c = .subscribed topic ∧ (bus.channels c).live = true

def pending (bus : InMemoryBus) : List (Nat × Message) :=
  (bus.holder.map Sending.message).toList ++ bus.waiting.filterMap Job.message

/-- How many messages a channel has been given by publishes that had not had
their turn in `b`. -/
def servedSince (bus b : InMemoryBus) (c : Nat) : Nat :=
  (bus.channels c).given.countP fun m => (b.calls m.1).Untried

-- ---------------------------------------------------------------------------
-- The calls and the channels
-- ---------------------------------------------------------------------------

structure Queued (bus : InMemoryBus) : Prop where
  waiting : ∀ n job, (n, job) ∈ bus.waiting → bus.calls n = .waiting
  distinct : (bus.waiting.map Prod.fst).Nodup
  holder : ∀ s, bus.holder = some s → bus.calls s.call = .sending

/-- The senders of a topic are its subscribers, some of which may be gone. -/
structure Subscribed (bus : InMemoryBus) : Prop where
  nodup : ∀ topic, (bus.senders topic).Nodup
  subscribed : ∀ topic, ∀ c ∈ bus.senders topic, bus.calls c = .subscribed topic
  kept : ∀ topic c, bus.Subscriber topic c → c ∈ bus.senders topic
  fresh : ∀ c, (bus.channels c).live = false → ∃ topic, bus.calls c = .subscribed topic
  target : ∀ s, bus.holder = some s → (bus.senders s.msg.topic)[s.idx]? = some s.target
  index : ∀ s, bus.holder = some s → bus.roundRobin s.msg.topic = s.idx
  room : ∀ n topic, (n, .subscribe topic) ∈ bus.waiting → 0 < bus.capacity
  capacity : ∀ n topic, bus.calls n = .subscribed topic → 0 < bus.capacity

/-- A message is in one channel, put there by a publish that has returned. -/
structure Given (bus : InMemoryBus) : Prop where
  topic : ∀ c, ∀ m ∈ (bus.channels c).given, bus.calls c = .subscribed m.2.topic
  published : ∀ c, ∀ m ∈ (bus.channels c).given, bus.calls m.1 = .published (.ok ())
  once : ∀ c c', ∀ m ∈ (bus.channels c).given, ∀ m' ∈ (bus.channels c').given,
    m.1 = m'.1 → c = c'

structure Bounded (bus : InMemoryBus) : Prop where
  taken : ∀ c, (bus.channels c).taken ≤ (bus.channels c).given.length
  queue : ∀ c, (bus.channels c).queue.length ≤ bus.capacity

structure Inv (bus : InMemoryBus) : Prop where
  queued : bus.Queued
  subscribed : bus.Subscribed
  given : bus.Given
  bounded : bus.Bounded

section
variable {bus bus' b : InMemoryBus}

theorem new_inv (capacity : Nat) : (new capacity).Inv := by
  refine ⟨⟨?_, ?_, ?_⟩, ⟨?_, ?_, ?_, ?_, ?_, ?_, ?_, ?_⟩, ⟨?_, ?_, ?_⟩, ⟨?_, ?_⟩⟩ <;>
    simp [new, Channel.empty, Channel.queue, Subscriber]

theorem Queued.step (hi : bus.Queued) (h : bus.step e = some bus') : bus'.Queued := by
  obtain ⟨hwaiting, hdistinct, hholder⟩ := hi
  cases step_moves h with clear h
  | unheard hfree hw hnone =>
    simp only [setCall, retain]
    constructor <;> grind -ring -linarith [Function.update_apply]
  | aimed hfree hw hidx htarget =>
    simp only [setCall, retain]
    constructor <;> grind -ring -linarith [Function.update_apply]
  | added hfree hw =>
    simp only [setCall, addSender]
    constructor <;> grind -ring -linarith [Function.update_apply]
  | sent hh hlive hroom =>
    simp only [InMemoryBus.sent, setCall, setChannel]
    constructor <;> grind -ring -linarith [Function.update_apply]
  | _ =>
    simp only [setCall, setChannel]
    constructor <;> grind -ring -linarith [Function.update_apply]

theorem Subscribed.step (hq : bus.Queued) (hi : bus.Subscribed) (h : bus.step e = some bus') :
    bus'.Subscribed := by
  obtain ⟨hwaiting, hdistinct, hholder⟩ := hq
  obtain ⟨hnodup, hsubscribed, hkept, hfresh, htarget, hindex, hroom, hcapacity⟩ := hi
  simp only [Subscriber] at hkept
  cases step_moves h with clear h
  | publish hidle hjob =>
    simp only [setCall]
    constructor <;> grind -ring -linarith [Function.update_apply, Subscriber]
  | subscribe hidle hjob hcap =>
    obtain ⟨hpos, -⟩ := hcap
    simp only [setCall]
    constructor <;> grind -ring -linarith [Function.update_apply, Subscriber]
  | panicked hidle hjob hcap =>
    simp only [setCall]
    constructor <;> grind -ring -linarith [Function.update_apply, Subscriber]
  | unheard hfree hw hnone =>
    simp only [setCall, retain, openSenders] at *
    constructor <;> grind -ring -linarith [Function.update_apply, Subscriber]
  | aimed hfree hw hidx htarget =>
    simp only [setCall, retain, openSenders] at *
    constructor <;> grind -ring -linarith [Function.update_apply, Subscriber]
  | added hfree hw =>
    simp only [setCall, addSender]
    constructor <;> grind -ring -linarith [Function.update_apply, Subscriber]
  | sent hh hlive hroom =>
    simp only [InMemoryBus.sent, setCall, setChannel]
    constructor <;> grind -ring -linarith [Function.update_apply, Subscriber]
  | failed hh hclosed =>
    simp only [setCall]
    constructor <;> grind -ring -linarith [Function.update_apply, Subscriber]
  | received hc hlive hq =>
    simp only [setChannel]
    constructor <;> grind -ring -linarith [Function.update_apply, Subscriber]
  | dropped hc hlive =>
    simp only [setChannel]
    constructor <;> grind -ring -linarith [Function.update_apply, Subscriber]

theorem setChannel_given (h : ch.given = (bus.channels c').given) :
    ((bus.setChannel c' ch).channels c).given = (bus.channels c).given := by
  by_cases hcc : c = c'
  · subst hcc
    simp [setChannel, h]
  · simp [setChannel, hcc]

theorem step_messages (h : bus.step e = some bus') :
    (∃ s, e = .send ∧ bus.holder = some s ∧ bus' = bus.sent s ∧
      (bus.channels s.target).live = true ∧ bus.pending = s.message :: bus'.pending ∧
      ∀ c, (bus'.channels c).given =
        if c = s.target then (bus.channels c).given ++ [s.message] else (bus.channels c).given) ∨
    (∀ c, (bus'.channels c).given = (bus.channels c).given) ∧
      bus'.pending.Sublist (bus.pending ++ e.published.toList) := by
  cases step_moves h with
  | publish hidle hjob =>
    right
    simp [setCall, pending, Event.published, hjob, Job.message]
  | subscribe hidle hjob hcap =>
    right
    simp [setCall, pending, Event.published, hjob, List.filterMap_append, Job.message]
  | panicked hidle hjob hcap =>
    right
    simp [setCall, pending, Event.published, hjob]
  | unheard hfree hw hnone =>
    right
    simp [setCall, retain, pending, hfree, hw, Job.message]
  | aimed hfree hw hidx htarget =>
    right
    simp [setCall, retain, pending, hfree, hw, Job.message, Sending.message]
  | added hfree hw =>
    right
    simp [setCall, addSender, pending, hfree, hw, List.filterMap_cons, Job.message]
  | @sent s hh hlive hroom =>
    left
    refine ⟨s, rfl, hh, rfl, hlive, ?_, ?_⟩
    · simp [InMemoryBus.sent, setCall, setChannel, pending, hh]
    · intro c
      by_cases hcs : c = s.target
      · subst hcs
        simp [InMemoryBus.sent, setCall, setChannel, Sending.message]
      · simp [InMemoryBus.sent, setCall, setChannel, hcs]
  | failed hh hclosed =>
    right
    simp [setCall, pending, hh]
  | received hc hlive hq =>
    right
    exact ⟨fun c => setChannel_given rfl, List.sublist_append_left _ _⟩
  | dropped hc hlive =>
    right
    exact ⟨fun c => setChannel_given rfl, List.sublist_append_left _ _⟩

theorem setCall_next (h : bus.calls n = p) (hn : p.Next p') (n' : Nat) :
    (bus.calls n').Next ((bus.setCall n p').calls n') := by
  by_cases hn' : n' = n
  · subst hn'
    simpa [setCall, h] using hn
  · simpa [setCall, hn'] using .same

theorem step_next (hq : bus.Queued) (h : bus.step e = some bus') (n : Nat) :
    (bus.calls n).Next (bus'.calls n) := by
  have hhead : ∀ m job rest, bus.waiting = (m, job) :: rest → bus.calls m = .waiting := by
    intro m job rest hw
    exact hq.waiting m job (hw ▸ List.mem_cons_self)
  cases step_moves h with
  | publish hidle hjob | subscribe hidle hjob hcap => exact setCall_next hidle .called n
  | panicked hidle hjob hcap => exact setCall_next hidle .panicked n
  | unheard hfree hw hnone => exact setCall_next (hhead _ _ _ hw) .unheard n
  | aimed hfree hw hidx htarget => exact setCall_next (hhead _ _ _ hw) .aimed n
  | added hfree hw => exact setCall_next (hhead _ _ _ hw) .subscribed n
  | sent hh hlive hroom | failed hh hclosed => exact setCall_next (hq.holder _ hh) .returned n
  | received hc hlive hq | dropped hc hlive => exact .same

theorem step_subscribed (hq : bus.Queued) (h : bus.step e = some bus')
    (hc : bus.calls c = .subscribed topic) : bus'.calls c = .subscribed topic := by
  have hnext := step_next hq h c
  rw [hc] at hnext
  generalize bus'.calls c = p at hnext
  cases hnext
  rfl

theorem step_published (hq : bus.Queued) (h : bus.step e = some bus')
    (hc : bus.calls n = .published result) : bus'.calls n = .published result := by
  have hnext := step_next hq h n
  rw [hc] at hnext
  generalize bus'.calls n = p at hnext
  cases hnext
  rfl

theorem step_untried (hq : bus.Queued) (h : bus.step e = some bus')
    (hc : (bus'.calls n).Untried) : (bus.calls n).Untried := by
  have hnext := step_next hq h n
  generalize bus.calls n = p at hnext
  generalize bus'.calls n = p' at hnext hc
  cases hnext with
  | same => exact hc
  | called | panicked => trivial
  | unheard | aimed | subscribed => trivial
  | returned => exact hc

theorem step_called (hq : bus.Queued) (h : bus.step e = some bus') (hc : bus.calls n ≠ .idle) :
    bus'.calls n ≠ .idle := by
  have hnext := step_next hq h n
  generalize bus.calls n = p at hnext hc
  generalize bus'.calls n = p' at hnext
  cases hnext with
  | same => exact hc
  | _ => exact Progress.noConfusion

theorem Given.step (hq : bus.Queued) (hs : bus.Subscribed) (hi : bus.Given)
    (h : bus.step e = some bus') : bus'.Given := by
  rcases step_messages h with ⟨s, rfl, hh, hbus', -, -, hgiven⟩ | ⟨hgiven, -⟩
  · have hsub := hs.subscribed _ _ (List.mem_of_getElem? (hs.target s hh))
    have hsent : bus'.calls s.call = .published (.ok ()) := by
      simp [hbus', InMemoryBus.sent, setCall]
    have hnew : ∀ c, ∀ m ∈ (bus.channels c).given, m.1 ≠ s.call := by
      intro c m hm heq
      have hpublished := hi.published c m hm
      rw [heq, hq.holder s hh] at hpublished
      cases hpublished
    -- what a channel holds afterwards it held before, or it is the new message
    have hcases : ∀ c, ∀ m ∈ (bus'.channels c).given,
        m ∈ (bus.channels c).given ∨ c = s.target ∧ m = s.message := by
      intro c m hm
      rw [hgiven c] at hm
      split at hm
      · rename_i hc
        rcases List.mem_append.mp hm with hm | hm
        · exact .inl hm
        · exact .inr ⟨hc, List.mem_singleton.mp hm⟩
      · exact .inl hm
    constructor
    · intro c m hm
      rcases hcases c m hm with hm | ⟨rfl, rfl⟩
      · exact step_subscribed hq h (hi.topic c m hm)
      · exact step_subscribed hq h hsub
    · intro c m hm
      rcases hcases c m hm with hm | ⟨rfl, rfl⟩
      · exact step_published hq h (hi.published c m hm)
      · exact hsent
    · intro c c' m hm m' hm' heq
      rcases hcases c m hm with hm | ⟨rfl, rfl⟩ <;> rcases hcases c' m' hm' with hm' | ⟨rfl, rfl⟩
      · exact hi.once c c' m hm m' hm' heq
      · exact absurd heq (hnew c m hm)
      · exact absurd heq.symm (hnew c' m' hm')
      · rfl
  · constructor
    · intro c m hm
      rw [hgiven c] at hm
      exact step_subscribed hq h (hi.topic c m hm)
    · intro c m hm
      rw [hgiven c] at hm
      exact step_published hq h (hi.published c m hm)
    · intro c c' m hm m' hm'
      rw [hgiven c] at hm
      rw [hgiven c'] at hm'
      exact hi.once c c' m hm m' hm'

theorem Bounded.step (hi : bus.Bounded) (h : bus.step e = some bus') : bus'.Bounded := by
  obtain ⟨htaken, hqueue⟩ := hi
  cases step_moves h with clear h
  | sent hh hlive hroom =>
    simp only [InMemoryBus.sent, setCall, setChannel, Channel.queue] at hroom hqueue ⊢
    constructor <;> grind -ring -linarith [Function.update_apply, Channel.queue]
  | received hc hlive hq =>
    simp only [setChannel, Channel.queue] at hq hqueue ⊢
    constructor <;> grind -ring -linarith [Function.update_apply, Channel.queue]
  | dropped hc hlive =>
    simp only [setChannel, Channel.queue] at hqueue ⊢
    constructor <;> grind -ring -linarith [Function.update_apply, Channel.queue]
  | _ => exact ⟨htaken, hqueue⟩

theorem Inv.step (hi : bus.Inv) (h : bus.step e = some bus') : bus'.Inv :=
  ⟨hi.queued.step h, hi.subscribed.step hi.queued h, hi.given.step hi.queued hi.subscribed h,
    hi.bounded.step h⟩

theorem run_inv (hi : bus.Inv) (hr : run InMemoryBus.step bus es = some bus') : bus'.Inv :=
  run_invariant hi (fun _ _ _ hi h => hi.step h) hr

-- ---------------------------------------------------------------------------
-- Order
-- ---------------------------------------------------------------------------

/-- A channel was given some of the messages published, in their order, and none
published after one that is still pending. -/
def Ordered (es : List Event) (bus : InMemoryBus) : Prop :=
  ∀ c, ((bus.channels c).given ++ bus.pending).Sublist (published es)

theorem published_concat : published (es ++ [e]) = published es ++ e.published.toList := by
  simp only [published, List.filterMap_append, List.filterMap_cons, List.filterMap_nil]
  cases e.published <;> rfl

theorem Ordered.step (hi : bus.Ordered es) (h : bus.step e = some bus') :
    bus'.Ordered (es ++ [e]) := by
  intro c
  rw [published_concat]
  rcases step_messages h with ⟨s, rfl, -, -, -, hpending, hgiven⟩ | ⟨hgiven, hpending⟩
  · have hc := hi c
    rw [hpending] at hc
    apply List.Sublist.trans _ (List.sublist_append_left _ _)
    rw [hgiven c]
    split
    · rwa [List.append_assoc, List.singleton_append]
    · exact ((List.sublist_cons_self _ _).append_left _).trans hc
  · rw [hgiven c]
    have hc := hpending.append_left (bus.channels c).given
    rw [← List.append_assoc] at hc
    exact hc.trans ((hi c).append_right _)

def Distinct (es : List Event) (bus : InMemoryBus) : Prop :=
  (∀ m ∈ published es, bus.calls m.1 ≠ .idle) ∧ ((published es).map Prod.fst).Nodup

theorem published_new (h : bus.step e = some bus') (hm : m ∈ e.published) :
    bus.calls m.1 = .idle ∧ bus'.calls m.1 ≠ .idle := by
  cases step_moves h with
  | publish hidle hjob =>
    simp only [Event.published, hjob, Option.mem_def, Option.some.injEq] at hm
    subst hm
    simp [setCall, hidle]
  | subscribe hidle hjob hcap | panicked hidle hjob hcap => simp [Event.published, hjob] at hm
  | _ => cases hm

theorem Distinct.step (hq : bus.Queued) (hi : bus.Distinct es) (h : bus.step e = some bus') :
    bus'.Distinct (es ++ [e]) := by
  obtain ⟨hcalled, hnodup⟩ := hi
  rw [Distinct, published_concat]
  constructor
  · intro m hm
    rcases List.mem_append.mp hm with hm | hm
    · exact step_called hq h (hcalled m hm)
    · exact (published_new h (Option.mem_toList.mp hm)).2
  · rw [List.map_append, List.nodup_append]
    refine ⟨hnodup, ?_, ?_⟩
    · cases e.published <;> simp
    · intro n hn n' hn' heq
      obtain ⟨m, hm, rfl⟩ := List.mem_map.mp hn
      obtain ⟨m', hm', rfl⟩ := List.mem_map.mp hn'
      apply hcalled m hm
      rw [heq]
      exact (published_new h (Option.mem_toList.mp hm')).1

-- ---------------------------------------------------------------------------
-- One publish
-- ---------------------------------------------------------------------------

/-- The publish is in `send` with the channel, has failed, or has put its
message there. -/
def Aimed (n : Nat) (msg : Message) (c : Nat) (bus : InMemoryBus) : Prop :=
  (∃ s, bus.holder = some s ∧ s.message = (n, msg) ∧ s.target = c) ∨
    (∃ e, bus.calls n = .published (.error e)) ∨ (n, msg) ∈ (bus.channels c).given

theorem given_mono (h : bus.step e = some bus') (hm : m ∈ (bus.channels c).given) :
    m ∈ (bus'.channels c).given := by
  rcases step_messages h with ⟨s, -, -, -, -, -, hgiven⟩ | ⟨hgiven, -⟩
  · rw [hgiven c]
    split
    · exact List.mem_append_left _ hm
    · exact hm
  · rwa [hgiven c]

theorem holder_next (hh : bus.holder = some s) (h : bus.step e = some bus') :
    bus'.holder = some s ∨ bus' = bus.sent s ∨
      (bus.channels s.target).live = false ∧
        bus' = { bus.setCall s.call (.published (.error sendFailed)) with holder := none } := by
  cases step_moves h with
  | unheard hfree | aimed hfree | added hfree =>
    rw [hh] at hfree
    cases hfree
  | sent hh' hlive hroom =>
    cases hh.symm.trans hh'
    exact .inr (.inl rfl)
  | failed hh' hclosed =>
    cases hh.symm.trans hh'
    exact .inr (.inr ⟨hclosed, rfl⟩)
  | _ => exact .inl hh

theorem Aimed.step (hi : bus.Inv) (ha : bus.Aimed n msg c) (h : bus.step e = some bus') :
    bus'.Aimed n msg c := by
  rcases ha with ⟨s, hh, hs, rfl⟩ | ⟨err, hfailed⟩ | hgiven
  · cases hs
    rcases holder_next hh h with hh' | rfl | ⟨-, rfl⟩
    · exact .inl ⟨s, hh', rfl, rfl⟩
    · right
      right
      simp [InMemoryBus.sent, setCall, setChannel]
    · right
      left
      exact ⟨sendFailed, by simp [setCall]⟩
  · exact .inr (.inl ⟨err, step_published hi.queued h hfailed⟩)
  · exact .inr (.inr (given_mono h hgiven))

theorem mem_openSenders (hi : bus.Subscribed) :
    c ∈ bus.openSenders topic ↔ bus.Subscriber topic c := by
  rw [openSenders, List.mem_filter]
  constructor
  · rintro ⟨hc, hlive⟩
    exact ⟨hi.subscribed topic c hc, hlive⟩
  · intro hc
    exact ⟨hi.kept topic c hc, hc.2⟩

theorem turn_aimed (hi : bus.Inv) (hw : bus.waiting = (n, .publish msg) :: rest)
    (hlive : bus.Subscriber msg.topic c₀) (h : bus.step .turn = some bus') :
    ∃ c, bus.Subscriber msg.topic c ∧ bus'.Aimed n msg c := by
  have hmem := (mem_openSenders hi.subscribed).mpr hlive
  cases step_moves h with
  | unheard hfree hw' hnone =>
    cases hw.symm.trans hw'
    rw [hnone] at hmem
    cases hmem
  | @aimed n msg rest idx target hfree hw' hidx htarget =>
    cases hw.symm.trans hw'
    have htarget := (mem_openSenders hi.subscribed).mp (List.mem_of_getElem? htarget)
    exact ⟨target, htarget, .inl ⟨_, rfl, rfl, rfl⟩⟩
  | added hfree hw' => cases hw.symm.trans hw'

theorem given_once (hi : bus.Inv) (hd : (bus.channels c).given.Pairwise fun m m' => m.1 ≠ m'.1)
    (hm : (n, msg) ∈ (bus.channels c).given) (c' : Nat) :
    (bus.channels c').given.countP (fun m => m.1 = n) = if c' = c then 1 else 0 := by
  split
  · rename_i hc
    subst hc
    obtain ⟨before, after, hgiven⟩ := List.mem_iff_append.mp hm
    rw [hgiven] at hd ⊢
    obtain ⟨-, hafter, hbefore⟩ := List.pairwise_append.mp hd
    have hb : before.countP (fun m => m.1 = n) = 0 := by
      rw [List.countP_eq_zero]
      intro m hm
      simpa using hbefore m hm (n, msg) List.mem_cons_self
    have ha : after.countP (fun m => m.1 = n) = 0 := by
      rw [List.countP_eq_zero]
      intro m hm
      simpa using Ne.symm ((List.pairwise_cons.mp hafter).1 m hm)
    simp [List.countP_append, ha, hb]
  · rename_i hc
    rw [List.countP_eq_zero]
    intro m hm' heq
    exact hc (hi.given.once c' c m hm' _ hm (by simpa using heq))

-- ---------------------------------------------------------------------------
-- Turns
-- ---------------------------------------------------------------------------

/-- How often a round of `l` that starts at `i` and takes `k` steps comes to an
element. -/
theorem count_round {l : List Nat} (hnodup : l.Nodup) (hc : c ∈ l) (i k : Nat) :
    k / l.length ≤ Nat.count (fun j => l[(i + j) % l.length]? = some c) k ∧
      Nat.count (fun j => l[(i + j) % l.length]? = some c) k ≤ k / l.length + 1 := by
  obtain ⟨v, hv, rfl⟩ := List.getElem_of_mem hc
  have hpos : 0 < l.length := Nat.zero_lt_of_lt hv
  have hshift : ∀ j, l[(i + j) % l.length]? = some l[v] ↔
      j ≡ v + (l.length - 1) * i [MOD l.length] := by
    intro j
    have hback : i + (v + (l.length - 1) * i) ≡ v [MOD l.length] := by
      have hround : (l.length - 1) * i + i = l.length * i := by
        rw [← Nat.succ_mul, Nat.succ_eq_add_one, Nat.sub_add_cancel hpos]
      have hsum : i + (v + (l.length - 1) * i) = v + l.length * i := by omega
      rw [hsum, Nat.ModEq, Nat.add_mul_mod_self_left]
    rw [← List.getElem?_eq_getElem hv, List.getElem?_inj (Nat.mod_lt _ hpos) hnodup]
    constructor
    · intro h
      have h' : i + j ≡ v [MOD l.length] := by
        rw [Nat.ModEq, h, Nat.mod_eq_of_lt hv]
      exact Nat.ModEq.add_left_cancel' i (h'.trans hback.symm)
    · intro h
      have h' : i + j ≡ v [MOD l.length] := (h.add_left i).trans hback
      rw [Nat.ModEq, Nat.mod_eq_of_lt hv] at h'
      exact h'
  simp only [hshift]
  rw [Nat.count_modEq_card _ hpos]
  split <;> omega

theorem queue_fresh (hi : bus.Inv) (hc : bus.calls c = .waiting) :
    (bus.channels c).live = true ∧ (bus.channels c).queue = [] := by
  constructor
  · by_contra hclosed
    obtain ⟨topic, hsub⟩ := hi.subscribed.fresh c (by simpa using hclosed)
    rw [hc] at hsub
    cases hsub
  · have hnone : (bus.channels c).given = [] := by
      rw [List.eq_nil_iff_forall_not_mem]
      intro m hm
      have hsub := hi.given.topic c m hm
      rw [hc] at hsub
      cases hsub
    rw [Channel.queue, hnone, List.drop_nil]

theorem added_other (hi : bus.Inv) (hw : bus.waiting = (n, .subscribe topic') :: rest)
    (hsteady : ∀ c, (addSender { bus with waiting := rest } n topic').Subscriber topic c ↔
      bus.Subscriber topic c) : topic ≠ topic' := by
  rintro rfl
  have hwaiting := hi.queued.waiting n _ (hw ▸ List.mem_cons_self)
  obtain ⟨hlive, -⟩ := queue_fresh hi hwaiting
  obtain ⟨hsub, -⟩ := (hsteady n).mp ⟨by simp [addSender, setCall], hlive⟩
  rw [hwaiting] at hsub
  cases hsub

theorem openSenders_step (hi : bus.Inv) (h : bus.step e = some bus')
    (hsteady : ∀ c, bus'.Subscriber topic c ↔ bus.Subscriber topic c) :
    bus'.openSenders topic = bus.openSenders topic := by
  have hlive : ∀ c ∈ bus.senders topic, (bus'.channels c).live = (bus.channels c).live := by
    intro c hc
    have hcalls := hi.subscribed.subscribed topic c hc
    have hcalls' := step_subscribed hi.queued h hcalls
    have hc := hsteady c
    rw [Subscriber, Subscriber, hcalls, hcalls'] at hc
    simpa using hc
  have hkept : (bus.senders topic).filter (fun c => (bus'.channels c).live) =
      bus.openSenders topic := List.filter_congr fun c hc => by rw [hlive c hc]
  have hretain : (bus.openSenders topic).filter (fun c => (bus'.channels c).live) =
      bus.openSenders topic := by
    apply List.filter_eq_self.mpr
    intro c hc
    obtain ⟨hc, hopen⟩ := List.mem_filter.mp hc
    rw [hlive c hc, hopen]
  have hsenders : bus'.senders topic = bus.senders topic ∨
      bus'.senders topic = bus.openSenders topic := by
    cases step_moves h with
    | @unheard n msg rest hfree hw hnone | @aimed n msg rest idx target hfree hw hidx htarget =>
      by_cases ht : topic = msg.topic
      · subst ht
        right
        simp [setCall, retain, openSenders]
      · left
        simp [setCall, retain, ht]
    | @added n topic' rest hfree hw =>
      left
      simp [addSender, setCall, added_other hi hw hsteady]
    | _ => exact .inl rfl
  rcases hsenders with hsenders | hsenders
  · rw [openSenders, hsenders, hkept]
  · rw [openSenders, hsenders, hretain]

/-- Since `b` the subscribers of the topic have been served in turn: none by a
publish that had its turn after `b`, or `k` of them from place `i` on. -/
def InTurns (topic : String) (b bus : InMemoryBus) : Prop :=
  ∃ i k, (∀ c ∈ bus.openSenders topic, bus.servedSince b c =
      Nat.count (fun j => (bus.openSenders topic)[(i + j) % (bus.openSenders topic).length]? =
        some c) k) ∧
    ((k = 0 ∧ ∀ s, bus.holder = some s → s.msg.topic = topic → ¬ (b.calls s.call).Untried) ∨
      (bus.senders topic = bus.openSenders topic ∧
        bus.roundRobin topic = (i + k) % (bus.openSenders topic).length ∧
        ∀ s, bus.holder = some s → s.msg.topic = topic → (b.calls s.call).Untried))

theorem InTurns.start (hi : b.Inv) : b.InTurns topic b := by
  refine ⟨0, 0, ?_, .inl ⟨rfl, ?_⟩⟩
  · intro c _
    rw [servedSince, Nat.count_zero, List.countP_eq_zero]
    intro m hm
    simp [hi.given.published c m hm, Progress.Untried]
  · intro s hs _
    simp [hi.queued.holder s hs, Progress.Untried]

theorem InTurns.congr (ht : InTurns topic b bus)
    (hopen : bus'.openSenders topic = bus.openSenders topic)
    (hserved : ∀ c ∈ bus.openSenders topic, bus'.servedSince b c = bus.servedSince b c)
    (hsenders : bus.senders topic = bus.openSenders topic →
      bus'.senders topic = bus.openSenders topic)
    (hrobin : bus'.roundRobin topic = bus.roundRobin topic)
    (hholder : ∀ s, bus'.holder = some s → s.msg.topic = topic → bus.holder = some s) :
    InTurns topic b bus' := by
  obtain ⟨i, k, hcount, hphase⟩ := ht
  refine ⟨i, k, ?_, ?_⟩
  · intro c hc
    rw [hopen] at hc ⊢
    rw [hserved c hc, hcount c hc]
  · rw [hopen, hrobin]
    rcases hphase with ⟨hk, hold⟩ | ⟨hl, hat, hnew⟩
    · exact .inl ⟨hk, fun s hs ht => hold s (hholder s hs ht) ht⟩
    · exact .inr ⟨hsenders hl, hat, fun s hs ht => hnew s (hholder s hs ht) ht⟩

theorem servedSince_congr (h : (bus'.channels c).given = (bus.channels c).given) :
    bus'.servedSince b c = bus.servedSince b c := by rw [servedSince, h, servedSince]

theorem InTurns.aimed (ht : InTurns topic b bus)
    (hopen : bus'.openSenders topic = bus.openSenders topic)
    (hgiven : ∀ c, (bus'.channels c).given = (bus.channels c).given)
    (hsenders : bus'.senders topic = bus.openSenders topic)
    (hrobin : bus'.roundRobin topic = bus.roundRobin topic % (bus.openSenders topic).length)
    (hnew : ∀ s, bus'.holder = some s → (b.calls s.call).Untried) : InTurns topic b bus' := by
  obtain ⟨i, k, hcount, hphase⟩ := ht
  obtain ⟨i, hcount, hat⟩ : ∃ i, (∀ c ∈ bus.openSenders topic, bus.servedSince b c =
      Nat.count (fun j => (bus.openSenders topic)[(i + j) % (bus.openSenders topic).length]? =
        some c) k) ∧ bus'.roundRobin topic = (i + k) % (bus.openSenders topic).length := by
    rcases hphase with ⟨rfl, -⟩ | ⟨-, hat, -⟩
    · refine ⟨bus.roundRobin topic, ?_, hrobin⟩
      intro c hc
      rw [hcount c hc, Nat.count_zero, Nat.count_zero]
    · exact ⟨i, hcount, by rw [hrobin, hat, Nat.mod_mod]⟩
  refine ⟨i, k, ?_, .inr ⟨?_, ?_, fun s hs _ => hnew s hs⟩⟩
  · intro c hc
    rw [hopen] at hc ⊢
    rw [servedSince_congr (hgiven c), hcount c hc]
  · rw [hopen, hsenders]
  · rw [hopen, hat]

theorem InTurns.sent (hi : bus.Subscribed) (ht : InTurns s.msg.topic b bus)
    (hh : bus.holder = some s)
    (hopen : (bus.sent s).openSenders s.msg.topic = bus.openSenders s.msg.topic) :
    InTurns s.msg.topic b (bus.sent s) := by
  have hserved : ∀ c, (bus.sent s).servedSince b c = bus.servedSince b c +
      if c = s.target ∧ (b.calls s.call).Untried then 1 else 0 := by
    intro c
    by_cases hc : c = s.target
    · subst hc
      simp [servedSince, InMemoryBus.sent, setCall, setChannel, List.countP_append,
        List.countP_singleton]
    · simp [servedSince, InMemoryBus.sent, setCall, setChannel, hc]
  have htarget := hi.target s hh
  have hidx := hi.index s hh
  obtain ⟨i, k, hcount, hphase⟩ := ht
  rcases hphase with ⟨hk, hold⟩ | ⟨hl, hat, hnew⟩
  · refine ⟨i, k, ?_, .inl ⟨hk, fun _ hs => nomatch hs⟩⟩
    intro c hc
    rw [hopen] at hc ⊢
    rw [hserved c, hcount c hc, if_neg fun h => hold s hh rfl h.2, Nat.add_zero]
  · rw [hat] at hidx
    refine ⟨i, k + 1, ?_, .inr ⟨?_, ?_, fun _ hs => nomatch hs⟩⟩
    · intro c hc
      rw [hopen] at hc ⊢
      rw [hl, ← hidx] at htarget
      rw [hserved c, hcount c hc, Nat.count_succ, htarget]
      simp [hnew s hh rfl, eq_comm]
    · rw [hopen]
      simpa [InMemoryBus.sent, setCall, setChannel] using hl
    · rw [hopen]
      simp only [InMemoryBus.sent, setCall, setChannel, Function.update_self, hl, ← hidx]
      rw [Nat.mod_add_mod, Nat.add_assoc]

theorem InTurns.step (hi : bus.Inv) (hu : ∀ n, (bus.calls n).Untried → (b.calls n).Untried)
    (ht : InTurns topic b bus) (h : bus.step e = some bus')
    (hsteady : ∀ c, bus'.Subscriber topic c ↔ bus.Subscriber topic c) : InTurns topic b bus' := by
  have hopen := openSenders_step hi h hsteady
  cases step_moves h with
  | publish hidle hjob | subscribe hidle hjob hcap | panicked hidle hjob hcap =>
    exact ht.congr hopen (fun _ _ => rfl) id rfl fun s hs _ => hs
  | received hc hlive hq | dropped hc hlive =>
    exact ht.congr hopen (fun c _ => servedSince_congr (setChannel_given rfl)) id rfl
      fun s hs _ => hs
  | failed hh hclosed =>
    exact ht.congr hopen (fun _ _ => rfl) id rfl fun s hs _ => nomatch hs
  | @unheard n msg rest hfree hw hnone =>
    refine ht.congr hopen (fun _ _ => rfl) ?_ rfl fun s hs _ => hs
    intro hl
    by_cases htopic : topic = msg.topic
    · subst htopic
      simp [setCall, retain, openSenders]
    · simpa [setCall, retain, htopic] using hl
  | @added n topic' rest hfree hw =>
    refine ht.congr hopen (fun _ _ => rfl) ?_ rfl fun s hs _ => hs
    intro hl
    simpa [addSender, setCall, added_other hi hw hsteady] using hl
  | @aimed n msg rest idx target hfree hw hidx htarget =>
    by_cases htopic : topic = msg.topic
    · subst htopic
      apply ht.aimed hopen (fun _ => rfl)
      · simp [setCall, retain, openSenders]
      · simpa using hidx
      · rintro s ⟨⟩
        apply hu
        rw [hi.queued.waiting n _ (hw ▸ List.mem_cons_self)]
        trivial
    · apply ht.congr hopen (fun _ _ => rfl)
      · intro hl
        simpa [setCall, retain, htopic] using hl
      · simp [htopic]
      · rintro s ⟨⟩ hs
        exact absurd hs.symm htopic
  | @sent s hh hlive hroom =>
    by_cases htopic : topic = s.msg.topic
    · subst htopic
      exact ht.sent hi.subscribed hh hopen
    · have hsub := hi.subscribed.subscribed _ _
        (List.mem_of_getElem? (hi.subscribed.target s hh))
      refine ht.congr hopen ?_ ?_ ?_ fun s hs _ => nomatch hs
      · intro c hc
        have hne : c ≠ s.target := by
          rintro rfl
          have hc := hi.subscribed.subscribed topic _ (List.mem_filter.mp hc).1
          rw [hc] at hsub
          cases hsub
          exact htopic rfl
        simp [servedSince, InMemoryBus.sent, setCall, setChannel, hne]
      · intro hl
        simpa [InMemoryBus.sent, setCall, setChannel] using hl
      · simp [InMemoryBus.sent, setCall, setChannel, htopic]

/-- While the subscribers of the topic stay the same, their numbers of messages
from publishes that had their turn meanwhile differ by one at most. -/
theorem turns_balanced (hi : b.Inv)
    (hsteady : Always InMemoryBus.step (fun bus => ∀ c, bus.Subscriber topic c ↔
      b.Subscriber topic c) b es)
    (hr : run InMemoryBus.step b es = some bus) (hc : b.Subscriber topic c)
    (hc' : b.Subscriber topic c') : bus.servedSince b c ≤ bus.servedSince b c' + 1 := by
  obtain ⟨hi', -, i, k, hcount, -⟩ := hsteady.run_invariant
    (I := fun bus => bus.Inv ∧ (∀ n, (bus.calls n).Untried → (b.calls n).Untried) ∧
      InTurns topic b bus) ⟨hi, fun _ h => h, .start hi⟩
    (fun bus e bus' ⟨hi, hu, ht⟩ hp hp' h => ⟨hi.step h,
      fun n hn => hu n (step_untried hi.queued h hn),
      ht.step hi hu h fun c => (hp' c).trans (hp c).symm⟩) hr
  have hmem := (mem_openSenders hi'.subscribed).mpr ((hsteady.last hr c).mpr hc)
  have hmem' := (mem_openSenders hi'.subscribed).mpr ((hsteady.last hr c').mpr hc')
  have hnodup : (bus.openSenders topic).Nodup := (hi'.subscribed.nodup topic).filter _
  rw [hcount c hmem, hcount c' hmem']
  have hle := (count_round hnodup hmem i k).2
  have hle' := (count_round hnodup hmem' i k).1
  omega

end

-- ---------------------------------------------------------------------------
-- Runs of the bus
-- ---------------------------------------------------------------------------

/-- What the bus does for its subscribers in a run. -/
structure Delivers (capacity : Nat) (es : List Event) (bus : InMemoryBus) : Prop where
  /-- A publish that returns `Ok` and found a live subscriber at its turn has put
  its message in the channel of one such, once, and in no other. -/
  one : ∀ earlier later b n msg rest, es = earlier ++ .turn :: later →
    run step (new capacity) earlier = some b → b.waiting = (n, .publish msg) :: rest →
    (∃ c, b.Subscriber msg.topic c) → bus.calls n = .published (.ok ()) →
    ∃ c, b.Subscriber msg.topic c ∧ (n, msg) ∈ (bus.channels c).given ∧
      ∀ c', (bus.channels c').given.countP (fun m => m.1 = n) = if c' = c then 1 else 0
  topic : ∀ c, ∀ m ∈ (bus.channels c).given, bus.calls c = .subscribed m.2.topic
  order : ∀ c, (bus.channels c).received.Sublist (published es)
  /-- No message is received twice. -/
  once : (∀ c, ((bus.channels c).received.map Prod.fst).Nodup) ∧
    ∀ c c', ∀ m ∈ (bus.channels c).received, ∀ m' ∈ (bus.channels c').received,
      m.1 = m'.1 → c = c'
  /-- While the subscribers of a topic stay the same, their numbers of messages
  from publishes that had their turn meanwhile differ by one at most. -/
  turns : ∀ earlier span later b b' topic c c', es = earlier ++ span ++ later →
    run step (new capacity) earlier = some b →
    Always step (fun s => ∀ c, s.Subscriber topic c ↔ b.Subscriber topic c) b span →
    run step b span = some b' → b.Subscriber topic c → b.Subscriber topic c' →
    b'.servedSince b c ≤ b'.servedSince b c' + 1

theorem run_ordered {capacity : Nat} (hr : run step (new capacity) es = some bus) :
    bus.Ordered es :=
  run_history_invariant [] (fun _ => List.Sublist.refl _) (fun _ _ _ _ hi h => hi.step h) hr

theorem run_distinct {capacity : Nat} (hr : run step (new capacity) es = some bus) :
    bus.Distinct es := by
  have hstart : (new capacity).Distinct [] := by
    constructor
    · intro m hm
      cases hm
    · exact List.nodup_nil
  exact (run_history_invariant (H := fun es bus => bus.Inv ∧ bus.Distinct es) []
    ⟨new_inv capacity, hstart⟩
    (fun _ _ _ _ hi h => ⟨hi.1.step h, hi.2.step hi.1.queued h⟩) hr).2

theorem run_delivers (capacity : Nat) (es : List Event) (bus : InMemoryBus)
    (hr : run step (new capacity) es = some bus) : Delivers capacity es bus := by
  have hi := run_inv (new_inv capacity) hr
  have hordered := run_ordered hr
  have hdistinct := run_distinct hr
  have hgiven : ∀ c, ((bus.channels c).given.map Prod.fst).Nodup := by
    intro c
    have hsub := (List.sublist_append_left _ bus.pending).trans (hordered c)
    exact (hsub.map Prod.fst).nodup hdistinct.2
  have htaken : ∀ c, (bus.channels c).received.Sublist (bus.channels c).given :=
    fun c => List.take_sublist _ _
  constructor
  · rintro earlier later b n msg rest rfl hb hw ⟨c₀, hlive⟩ hok
    rw [run_append, hb, Option.bind_some] at hr
    obtain ⟨b', hturn, hr⟩ := run_cons.mp hr
    have hib := run_inv (new_inv capacity) hb
    obtain ⟨c, hc, haimed⟩ := turn_aimed hib hw hlive hturn
    refine ⟨c, hc, ?_⟩
    obtain ⟨-, haimed⟩ := run_invariant (P := fun bus => bus.Inv ∧ bus.Aimed n msg c)
      ⟨hib.step hturn, haimed⟩ (fun _ _ _ hi h => ⟨hi.1.step h, hi.2.step hi.1 h⟩) hr
    have hmem : (n, msg) ∈ (bus.channels c).given := by
      rcases haimed with ⟨s, hh, hs, -⟩ | ⟨e, hfailed⟩ | hmem
      · cases hs
        have hsending := hi.queued.holder s hh
        rw [hok] at hsending
        cases hsending
      · rw [hok] at hfailed
        cases hfailed
      · exact hmem
    exact ⟨hmem, given_once hi (List.pairwise_map.mp (hgiven c)) hmem⟩
  · exact hi.given.topic
  · intro c
    exact (htaken c).trans ((List.sublist_append_left _ _).trans (hordered c))
  · constructor
    · intro c
      exact ((htaken c).map Prod.fst).nodup (hgiven c)
    · intro c c' m hm m' hm'
      exact hi.given.once c c' m ((htaken c).subset hm) m' ((htaken c').subset hm')
  · rintro earlier span later b b' topic c c' rfl hb hsteady hb' hc hc'
    exact turns_balanced (run_inv (new_inv capacity) hb) hsteady hb' hc hc'

def plainDraw : Draw := ⟨"id", 0⟩

def callNow (n : Nat) (request : Request) : List Event := [.call n request plainDraw, .turn]

def twoServed : List Event :=
  callNow 0 (.subscribe "t") ++ callNow 1 (.subscribe "t") ++ callNow 2 (.publish "t" []) ++
    [.send] ++ callNow 3 (.publish "t" []) ++ [.send]

theorem run_delivers_twoServed :
    ∃ bus, run step (new 1) twoServed = some bus ∧ Delivers 1 twoServed bus :=
  ⟨_, rfl, run_delivers 1 twoServed _ rfl⟩

/-- A third subscriber comes, and a publish waits for the second one when the
first one goes. -/
def firstGone : List Event :=
  twoServed ++ [.receive 0] ++ callNow 4 (.publish "t" []) ++ [.send] ++
    callNow 5 (.subscribe "t") ++ callNow 6 (.publish "t" []) ++ [.drop 0]

/-- The publish comes through, and the index it leaves behind is one too high
for the next. -/
def secondTwice : List Event :=
  [.receive 1, .send] ++ callNow 7 (.publish "t" []) ++ [.receive 1, .send]

theorem secondTwice_run :
    ∃ b b', run step (new 1) firstGone = some b ∧ run step b secondTwice = some b' ∧
      Always step (fun s => s.openSenders "t" = [1, 5]) b secondTwice ∧
      (b'.channels 1).given.length = (b.channels 1).given.length + 2 ∧
      (b'.channels 5).given.length = (b.channels 5).given.length :=
  ⟨_, _, rfl, rfl, by decide +kernel, rfl, rfl⟩

theorem late_publish_unbalances :
    ∃ b b', run step (new 1) firstGone = some b ∧ run step b secondTwice = some b' ∧
      Always step (fun s => ∀ c, s.Subscriber "t" c ↔ b.Subscriber "t" c) b secondTwice ∧
      b.Subscriber "t" 1 ∧ b.Subscriber "t" 5 ∧
      (b'.channels 1).given.length = (b.channels 1).given.length + 2 ∧
      (b'.channels 5).given.length = (b.channels 5).given.length := by
  obtain ⟨b, b', hb, hb', hopen, hfirst, hsecond⟩ := secondTwice_run
  have hi := run_inv (new_inv 1) hb
  have hmem : ∀ s, Inv s → s.openSenders "t" = [1, 5] → ∀ c, s.Subscriber "t" c ↔ c ∈ [1, 5] := by
    intro s his hs c
    rw [← mem_openSenders his.subscribed, hs]
  refine ⟨b, b', hb, hb', ?_, ?_, ?_, hfirst, hsecond⟩
  · have hinv : Always step Inv b secondTwice := always_of_step hi fun _ _ _ hi h => hi.step h
    apply (hinv.and hopen).mono
    intro s ⟨his, hs⟩ c
    rw [hmem s his hs, hmem b hi hopen.head]
  · exact (hmem b hi hopen.head 1).mpr (by simp)
  · exact (hmem b hi hopen.head 5).mpr (by simp)
end InMemoryBus
end Rinfra.Mq

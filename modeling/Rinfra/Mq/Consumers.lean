import Rinfra.Lib.Transition
import Rinfra.Mq.Nats

/-!
# Who feeds a subscriber

The name of a consumer is made from its topic and its filter is not, so two
topics of one name have the filter of whichever was subscribed to first.
-/

namespace Rinfra.Mq

open Rinfra.Lib

namespace NatsBuses

section
variable {Js : Type} (accepts : String → String → Prop) (config : Nat → NatsConfig)
  (view : Js → JetStream)

def key (b : Nat) (topic : String) : String × String :=
  ((config b).streamName, durable config b topic)

/-- Each subscriber is fed from the subject of its topic and from no other. -/
structure Isolated (s : NatsBuses Js) : Prop where
  own : ∀ n sub, s.subscriptions n = some sub →
    (view s.js).consumers (key config sub.bus sub.topic) = some (subject sub.topic)
  fed : ∀ n sub, s.subscriptions n = some sub → ∀ filter subj,
    (view s.js).consumers (key config sub.bus sub.topic) = some filter → accepts filter subj →
    subj = subject sub.topic
  arrived : ∀ n sub, s.subscriptions n = some sub → ∀ arrival ∈ sub.arrived,
    arrival.2.topic = subject sub.topic
  /-- One consumer is one topic's. -/
  distinct : ∀ n n' sub sub', s.subscriptions n = some sub → s.subscriptions n' = some sub' →
    key config sub.bus sub.topic = key config sub'.bus sub'.topic → sub.topic = sub'.topic

/-- The topics subscribed to have no wildcards, and those that share a consumer
are the same. -/
structure Separate (es : List NatsEvent) : Prop where
  plain : ∀ b topic, .subscribe b topic ∈ es → ¬ Wild (subject topic)
  apart : ∀ b b' topic topic', .subscribe b topic ∈ es → .subscribe b' topic' ∈ es →
    key config b topic = key config b' topic' → topic = topic'

/-- Every consumer is one that a call of `es` asks for. -/
def Asked (es : List NatsEvent) (s : NatsBuses Js) : Prop :=
  ∀ key filter, (view s.js).consumers key = some filter →
    ∃ b topic, .subscribe b topic ∈ es ∧ key = NatsBuses.key config b topic ∧
      filter = subject topic

end

section
variable {Js : Type} {server : NatsServer Js} {accepts : String → String → Prop}
  {isHeaderName : String → Bool} {config : Nat → NatsConfig} {view : Js → JetStream}
  {s s' t : NatsBuses Js}

theorem Asked.step (laws : server.Lawful accepts view) (hi : s.Asked config view es) (he : e ∈ es)
    (h : s.step server isHeaderName config e = some s') : s'.Asked config view es := by
  intro key filter hfilter
  rcases (step_js laws h).known_or_asked hfilter with hold | hnew
  · exact hi key filter hold
  · cases e with
    | subscribe b topic =>
      simp only [asks, Option.some.injEq, Prod.mk.injEq] at hnew
      obtain ⟨rfl, rfl⟩ := hnew
      exact ⟨b, topic, he, rfl, rfl⟩
    | _ => cases hnew

theorem own_of_subscribe (laws : server.Lawful accepts view) (hs : Separate config es)
    (hi : s.Asked config view es) (he : .subscribe b topic ∈ es)
    (hok : (s.subscribe server config b topic).1 = .ok ()) :
    (view (s.subscribe server config b topic).2.js).consumers (key config b topic) =
      some (subject topic) := by
  refine (subscribe_consumer laws hok).trans ?_
  cases hold : (view s.js).consumers ((config b).streamName, durable config b topic) with
  | none => rfl
  | some filter =>
    obtain ⟨b', topic', he', hkey, rfl⟩ := hi _ _ hold
    rw [hs.apart b b' topic topic' he he' hkey]
    rfl

theorem Isolated.step (laws : server.Lawful accepts view) (hs : Separate config es)
    (ha : s.Asked config view es) (hi : s.Isolated accepts config view) (he : e ∈ es)
    (h : s.step server isHeaderName config e = some s') : s'.Isolated accepts config view := by
  have ha' := ha.step laws he h
  have hown : ∀ n sub', s'.subscriptions n = some sub' →
      (view s'.js).consumers (key config sub'.bus sub'.topic) = some (subject sub'.topic) := by
    intro n sub' hsub'
    rcases step_subscription laws h hsub' with ⟨sub, hsub, hbus, htopic, -⟩ |
      ⟨b, topic, rfl, hok, hbus, htopic, -⟩
    · rw [hbus, htopic]
      exact (step_js laws h).consumers (hi.own n sub hsub)
    · cases h
      rw [hbus, htopic]
      exact own_of_subscribe laws hs ha he hok
  refine ⟨hown, ?_, ?_, ?_⟩
  · intro n sub' hsub' filter subj hfilter haccepts
    have hsame := hown n sub' hsub'
    obtain ⟨b, topic, hcall, -, htopic⟩ := ha' _ _ hsame
    cases hsame.symm.trans hfilter
    exact laws.literal _ _ (htopic ▸ hs.plain b topic hcall) haccepts
  · intro n sub' hsub' arrival harrival
    rcases step_subscription laws h hsub' with ⟨sub, hsub, hbus, htopic, harrived⟩ |
      ⟨b, topic, -, -, -, -, hnone⟩
    · rw [htopic]
      rcases harrived arrival harrival with hold | ⟨natsMsg, draw, filter, -, hmsg, hf, haccepts⟩
      · exact hi.arrived n sub hsub arrival hold
      · rw [hmsg]
        exact hi.fed n sub hsub filter natsMsg.subject hf haccepts
    · rw [hnone] at harrival
      cases harrival
  · intro n n' sub sub' hsub hsub' hkey
    have hsame := hown n sub hsub
    rw [hkey, hown n' sub' hsub'] at hsame
    exact (subject_injective (Option.some.inj hsame)).symm

theorem run_consumers {name : String × String} (laws : server.Lawful accepts view)
    (hr : run (step server isHeaderName config) s es = some t)
    (hf : (view s.js).consumers name = some filter) :
    (view t.js).consumers name = some filter :=
  run_invariant (P := fun s => (view s.js).consumers name = some filter) hf
    (fun _ _ _ hf h => (step_js laws h).consumers hf) hr

/-- A subscribe of an isolated run has left its consumer to its own topic. -/
theorem consumer_of_isolated (laws : server.Lawful accepts view)
    (ha : Always (step server isHeaderName config) (Isolated accepts config view) s es)
    (hok : Guarded (step server isHeaderName config)
      (fun s e => ∀ b topic, e = .subscribe b topic →
        (s.subscribe server config b topic).1 = .ok ()) s es)
    (hr : run (step server isHeaderName config) s es = some t) (he : .subscribe b topic ∈ es) :
    (view t.js).consumers (key config b topic) = some (subject topic) ∧
      ¬ Wild (subject topic) := by
  induction es generalizing s with
  | nil => cases he
  | cons e es ih =>
    obtain ⟨s', h, hr⟩ := run_cons.mp hr
    obtain ⟨hsucceeds, hok⟩ := (guarded_cons h).mp hok
    rcases List.mem_cons.mp he with rfl | he
    · have hsucceeds := hsucceeds b topic rfl
      cases h
      have hsub := subscribe_spawns hsucceeds
      have hi := (ha.2 _ rfl).head
      have hown := hi.own _ _ hsub
      refine ⟨run_consumers laws hr hown, ?_⟩
      intro hwild
      obtain ⟨subj, hne, haccepts⟩ := laws.wild _ hwild
      exact hne (hi.fed _ _ hsub _ subj hown haccepts)
    · exact ih (ha.2 s' h) hok hr he

/-- Where the topics are apart every subscriber is isolated, and where every
subscribe succeeds only there. -/
theorem run_isolated (server : NatsServer Js) (accepts : String → String → Prop)
    (isHeaderName : String → Bool) (config : Nat → NatsConfig) (view : Js → JetStream)
    (laws : server.Lawful accepts view) (js : Js) (hjs : (view js).consumers = fun _ => none)
    (es : List NatsEvent) :
    (Separate config es →
      Always (step server isHeaderName config) (Isolated accepts config view) (start js) es) ∧
    ∀ t, run (step server isHeaderName config) (start js) es = some t →
      Guarded (step server isHeaderName config) (fun s e => ∀ b topic, e = .subscribe b topic →
        (s.subscribe server config b topic).1 = .ok ()) (start js) es →
      Always (step server isHeaderName config) (Isolated accepts config view) (start js) es →
      Separate config es := by
  constructor
  · intro hs
    have hcalls : Guarded (step server isHeaderName config) (fun _ e => True ∧ e ∈ es)
        (start js) es := (Guarded.of_forall fun _ _ => trivial).and_all fun e he => he
    have hstart : (start js).Isolated accepts config view ∧ (start js).Asked config view es := by
      constructor
      · constructor <;> simp [start]
      · intro key filter hfilter
        simp [start, hjs] at hfilter
    have hall := hcalls.invariant
      (P := fun s => s.Isolated accepts config view ∧ s.Asked config view es) hstart
      fun s e s' hi he h => ⟨hi.1.step laws hs hi.2 he.2 h, hi.2.step laws he.2 h⟩
    exact hall.mono fun s hi => hi.1
  · intro t hr hok ha
    constructor
    · intro b topic he
      exact (consumer_of_isolated laws ha hok hr he).2
    · intro b b' topic topic' he he' hkey
      have hfilter := (consumer_of_isolated laws ha hok hr he).1
      rw [hkey, (consumer_of_isolated laws ha hok hr he').1] at hfilter
      exact (subject_injective (Option.some.inj hfilter)).symm

end

def plainNatsConfig : NatsConfig := ⟨"rinfra", "workers"⟩

abbrev storedStep := step storedNats (fun _ => true) fun _ => plainNatsConfig

/-- Two topics that no consumer can be mistaken for. -/
def ordersAndUsers : List NatsEvent := [.subscribe 0 "orders", .subscribe 0 "users"]

theorem ordersAndUsers_separate : Separate (fun _ => plainNatsConfig) ordersAndUsers := by
  have hne : dashed "orders" ≠ dashed "users" := by decide +kernel
  constructor
  · intro b topic he
    simp only [ordersAndUsers, List.mem_cons, List.not_mem_nil, or_false,
      NatsEvent.subscribe.injEq] at he
    obtain ⟨-, rfl⟩ | ⟨-, rfl⟩ := he <;> decide +kernel
  · intro b b' topic topic' he he' hkey
    simp only [ordersAndUsers, List.mem_cons, List.not_mem_nil, or_false,
      NatsEvent.subscribe.injEq] at he he'
    simp only [key, durable, Prod.mk.injEq, true_and, durableName_eq_iff] at hkey
    obtain ⟨-, rfl⟩ | ⟨-, rfl⟩ := he <;> obtain ⟨-, rfl⟩ | ⟨-, rfl⟩ := he'
    · rfl
    · exact absurd hkey hne
    · exact absurd hkey.symm hne
    · rfl

theorem run_isolated_ordersAndUsers :
    Separate (fun _ => plainNatsConfig) ordersAndUsers ∧
      Always storedStep (Isolated plainAccepts (fun _ => plainNatsConfig) StoredJs.js)
        (start StoredJs.empty) ordersAndUsers ∧
      (run storedStep (start StoredJs.empty) ordersAndUsers).isSome = true :=
  ⟨ordersAndUsers_separate,
    (run_isolated storedNats plainAccepts (fun _ => true) (fun _ => plainNatsConfig) StoredJs.js
      storedNats_lawful StoredJs.empty rfl ordersAndUsers).1 ordersAndUsers_separate,
    by decide +kernel⟩

theorem dashed_run :
    ∃ s, run storedStep (start StoredJs.empty) [.subscribe 0 "a.b", .subscribe 0 "a-b"] = some s ∧
      s.js.js.consumers (key (fun _ => plainNatsConfig) 0 "a-b") = some (subject "a.b") ∧
      (s.subscriptions 1).map (fun sub => (sub.bus, sub.topic)) = some (0, "a-b") :=
  ⟨_, rfl, by decide +kernel, by decide +kernel⟩

/-- A dot in one topic and a dash in the other. -/
theorem dash_takes_dot :
    ∃ s, run storedStep (start StoredJs.empty) [.subscribe 0 "a.b", .subscribe 0 "a-b"] = some s ∧
      s.js.js.consumers (key (fun _ => plainNatsConfig) 0 "a-b") = some (subject "a.b") ∧
      ¬ s.Isolated plainAccepts (fun _ => plainNatsConfig) StoredJs.js := by
  obtain ⟨s, hr, hfilter, hsub⟩ := dashed_run
  refine ⟨s, hr, hfilter, ?_⟩
  obtain ⟨sub, hsub, heq⟩ := Option.map_eq_some_iff.mp hsub
  obtain ⟨hbus, htopic⟩ := Prod.mk.inj heq
  intro hi
  have hown := hi.own 1 sub hsub
  rw [hbus, htopic, hfilter] at hown
  exact absurd (Option.some.inj hown) (by decide +kernel)

end NatsBuses

end Rinfra.Mq

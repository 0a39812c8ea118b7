import Mathlib.Data.List.Induction
import Rinfra.Cluster.Isolation

/-!
# The heartbeat of a connection

The message loop counts the pings that no pong has come after, and a tick that
finds three of them ends it. What the counter holds is read off the events of
the run, whatever else arrives in between.
-/

namespace Rinfra.Cluster

open Rinfra.Lib

def isPing (c : Nat) : Event → Bool
  | .pinged c' sent => c' = c && sent
  | _ => false

def isPong (c : Nat) : Event → Bool
  | .frame c' (.message .pong) => c' = c
  | _ => false

def isRegister (c : Nat) : Event → Bool
  | .register c' => c' = c
  | _ => false

def countPing (c : Nat) (n : Nat) (e : Event) : Nat :=
  if isRegister c e || isPong c e then 0 else if isPing c e then n + 1 else n

/-- The pings sent since the registration and the last pong received, whichever
is later. -/
def pingsSince (c : Nat) (es : List Event) : Nat := es.foldl (countPing c) 0

/-- Three pings were sent, and no pong was received after the first of them. -/
def Unanswered (c : Nat) (es : List Event) : Prop :=
  ∃ before ping after, es = before ++ ping :: after ∧ isPing c ping ∧
    2 ≤ after.countP (isPing c) ∧ ∀ e ∈ after, isPong c e = false

def Phase.missedPongs : Phase → Option Nat
  | .select _ k | .pinging _ k | .listing _ k | .replying _ k _ => some k
  | _ => none

def Phase.Unregistered : Phase → Prop
  | .absent | .awaitRegister | .acking _ _ | .registering _ => True
  | _ => False

structure Counted (c : Nat) (es : List Event) (m : Main) : Prop where
  unpinged : (m.conns c).Unregistered → ∀ e ∈ es, isPing c e = false
  counts : ∀ k, (m.conns c).missedPongs = some k → k = pingsSince c es ∧ k ≤ 3
  room : ∀ n k, m.conns c = .pinging n k → k < 3

-- ---------------------------------------------------------------------------
-- Counting
-- ---------------------------------------------------------------------------

section
variable {c : Nat} {e : Event} {es fs : List Event}

theorem pingsSince_concat : pingsSince c (es ++ [e]) = countPing c (pingsSince c es) e := by
  simp [pingsSince]

theorem isPing_of_ne (h : e.conn ≠ some c) : isPing c e = false := by
  cases e <;> simp_all [isPing, Event.conn]

theorem countPing_of_ne (h : e.conn ≠ some c) (n : Nat) : countPing c n e = n := by
  have hpong : isPong c e = false := by
    cases e <;> simp_all [isPong, Event.conn]
    split <;> simp_all
  have hregister : isRegister c e = false := by
    cases e <;> simp_all [isRegister, Event.conn]
  simp [countPing, isPing_of_ne h, hpong, hregister]

/-- Where neither a registration nor a pong comes in between, every ping counts. -/
theorem pingsSince_append (h : ∀ e ∈ fs, isRegister c e = false ∧ isPong c e = false) :
    pingsSince c (es ++ fs) = pingsSince c es + fs.countP (isPing c) := by
  induction fs generalizing es with
  | nil => simp
  | cons f fs ih =>
    simp only [List.forall_mem_cons] at h
    rw [List.append_cons, ih h.2, pingsSince_concat, countPing, h.1.1, h.1.2]
    cases hf : isPing c f <;> simp [hf]
    omega

theorem unanswered_of_pingsSince (h : pingsSince c es = k + 1) :
    ∃ before ping after, es = before ++ ping :: after ∧ isPing c ping ∧
      after.countP (isPing c) = k ∧ ∀ e ∈ after, isPong c e = false := by
  induction es using List.reverseRecOn generalizing k with
  | nil => cases h
  | append_singleton es e ih =>
    rw [pingsSince_concat, countPing] at h
    split at h
    · cases h
    · rename_i hreset
      simp only [Bool.or_eq_true, not_or, Bool.not_eq_true] at hreset
      cases hping : isPing c e with
      | false =>
        rw [hping] at h
        obtain ⟨before, ping, after, rfl, hfirst, hcount, hpong⟩ := ih h
        refine ⟨before, ping, after ++ [e], by simp, hfirst, by simp [hcount, hping], ?_⟩
        simpa [or_imp, forall_and] using ⟨hpong, hreset.2⟩
      | true =>
        rw [hping] at h
        cases k with
        | zero => exact ⟨es, e, [], rfl, hping, rfl, List.forall_mem_nil _⟩
        | succ k =>
          obtain ⟨before, ping, after, rfl, hfirst, hcount, hpong⟩ := ih (Nat.succ.inj h)
          refine ⟨before, ping, after ++ [e], by simp, hfirst, by simp [hcount, hping], ?_⟩
          simpa [or_imp, forall_and] using ⟨hpong, hreset.2⟩

end

-- ---------------------------------------------------------------------------
-- The counter
-- ---------------------------------------------------------------------------

section
variable {server : ClusterServer} {m m' : Main} {c : Nat} {e : Event} {es : List Event}

theorem counted_init : Counted c [] .init where
  unpinged _ := List.forall_mem_nil _
  counts := nofun
  room := nofun

theorem Counted.leave (hi : Counted c es m) (hm : (m'.conns c).missedPongs = none)
    (hp : (m'.conns c).Unregistered → (m.conns c).Unregistered ∧ isPing c e = false) :
    Counted c (es ++ [e]) m' where
  unpinged hu := by
    obtain ⟨hu, he⟩ := hp hu
    simpa [or_imp, forall_and] using ⟨hi.unpinged hu, he⟩
  counts k hk := by simp [hm] at hk
  room n k hk := by simp [hk, Phase.missedPongs] at hm

theorem Counted.count (hm : (m'.conns c).missedPongs = some k)
    (hk : k = pingsSince c (es ++ [e]) ∧ k ≤ 3)
    (hroom : ∀ n k, m'.conns c = .pinging n k → k < 3) : Counted c (es ++ [e]) m' where
  unpinged hu := by
    cases hp : m'.conns c <;> simp_all [Phase.Unregistered, Phase.missedPongs]
  counts k' hk' := by
    obtain rfl := Option.some.inj (hm.symm.trans hk')
    exact hk
  room := hroom

theorem Counted.keep (hi : Counted c es m) (he : countPing c (pingsSince c es) e = pingsSince c es)
    (hm : (m'.conns c).missedPongs = (m.conns c).missedPongs)
    (hk : (m.conns c).missedPongs = some k)
    (hroom : ∀ n k, m'.conns c = .pinging n k → k < 3) : Counted c (es ++ [e]) m' :=
  .count (hm.trans hk) (by rw [pingsSince_concat, he]; exact hi.counts k hk) hroom

theorem Counted.frame {f : Frame} (hi : Counted c es m) (hc : m.conns c = .select n k) :
    Counted c (es ++ [.frame c f]) (m.goto c (handleFrame n k f)) := by
  have hk : (m.conns c).missedPongs = some k := by rw [hc]; rfl
  cases f with
  | error => exact hi.leave (by simp [handleFrame, Phase.missedPongs]) (by
      simp [handleFrame, Phase.Unregistered])
  | eof => exact hi.leave (by simp [handleFrame, Phase.missedPongs]) (by
      simp [handleFrame, Phase.Unregistered])
  | message msg =>
    cases msg with
    | pong =>
      have hzero : ((m.goto c (.select n 0)).conns c).missedPongs = some 0 := by
        simp [Phase.missedPongs]
      refine .count hzero ?_ (by simp [handleFrame])
      simp [pingsSince_concat, countPing, isPong]
    | deregister => exact hi.leave (by simp [handleFrame, Phase.missedPongs]) (by
        simp [handleFrame, Phase.Unregistered])
    | _ =>
      refine hi.keep ?_ ?_ hk ?_
      · simp [countPing, isRegister, isPong, isPing]
      · simp [handleFrame, Phase.missedPongs, hc]
      · simp [handleFrame]

theorem Counted.step (hi : Counted c es m) (h : step server m e = some m') :
    Counted c (es ++ [e]) m' := by
  by_cases hc : e.conn = some c
  · cases step_moves h with
    | shutdown => cases hc
    | accept hbefore | accepted hbefore =>
      obtain rfl := Option.some.inj hc
      exact hi.leave (by simp [Phase.missedPongs]) (by
        simp [hbefore, Phase.Unregistered, isPing])
    | @registerFrame _ frame hawait =>
      obtain rfl := Option.some.inj hc
      refine hi.leave ?_ (by simp [hawait, Phase.Unregistered, isPing])
      rw [goto_same]
      unfold ClusterServer.handleRegister
      split
      · split <;> rfl
      · rfl
    | refused | cancelled | timedOut | unpinged | unregister | setOffline =>
      obtain rfl := Option.some.inj hc
      exact hi.leave (by simp [Phase.missedPongs]) (by simp [Phase.Unregistered])
    | @register _ info p hreg hp =>
      obtain rfl := Option.some.inj hc
      by_cases hzero : server.pingInterval = 0
      · rw [if_pos hzero] at hp
        exact hi.leave (by simp [hp, Phase.missedPongs]) (by simp [hp, Phase.Unregistered])
      · rw [if_neg hzero] at hp
        have hstart : (p : Phase).missedPongs = some 0 := by simp [hp, Phase.missedPongs]
        refine .count (by rwa [goto_same]) ?_ (by simp [hp])
        simp [pingsSince_concat, countPing, isRegister]
    | ticked hloop _ hlt =>
      obtain rfl := Option.some.inj hc
      refine hi.keep (by simp [countPing, isRegister, isPong, isPing]) ?_ (by rw [hloop]; rfl) ?_
      · simp [hloop, Phase.missedPongs]
      · simp only [goto_same, Phase.pinging.injEq]
        rintro n k ⟨rfl, rfl⟩
        exact hlt
    | @pinged _ n k hping =>
      obtain rfl := Option.some.inj hc
      have hlt := hi.room n k hping
      obtain ⟨hk, -⟩ := hi.counts k (by rw [hping]; rfl)
      refine .count (by simp [Phase.missedPongs]) ⟨?_, hlt⟩ (by simp)
      simp [pingsSince_concat, countPing, isRegister, isPong, isPing, hk]
    | frame hloop _ =>
      obtain rfl := Option.some.inj hc
      exact hi.frame hloop
    | list hbefore | replied hbefore =>
      obtain rfl := Option.some.inj hc
      exact hi.keep (by simp [countPing, isRegister, isPong, isPing])
        (by simp [hbefore, Phase.missedPongs]) (by rw [hbefore]; rfl) (by simp)
  · have hsame := conns_of_ne h hc
    have hcount : pingsSince c (es ++ [e]) = pingsSince c es := by
      rw [pingsSince_concat, countPing_of_ne hc]
    constructor
    · rw [hsame]
      intro hu
      simpa [or_imp, forall_and] using ⟨hi.unpinged hu, isPing_of_ne hc⟩
    · rw [hsame, hcount]
      exact hi.counts
    · rw [hsame]
      exact hi.room

theorem counted (hr : run (step server) .init es = some m) : Counted c es m := by
  have h := run_history_invariant (H := Counted c) [] counted_init
    (fun fs s e s' hi hs => hi.step hs) hr
  rwa [List.nil_append] at h

/-- A connection is registered before it is pinged. -/
theorem no_late_register (hr : run (step server) .init (fs ++ e :: gs) = some m)
    (he : isPing c e = true) : ∀ f ∈ gs, isRegister c f = false := by
  intro f hf
  obtain ⟨as, bs, rfl⟩ := List.append_of_mem hf
  rw [← List.cons_append, ← List.append_assoc, run_append] at hr
  obtain ⟨m₁, hr₁, hr⟩ := Option.bind_eq_some_iff.mp hr
  obtain ⟨m₂, hs, -⟩ := run_cons.mp hr
  by_contra hreg
  have hunregistered : (m₁.conns c).Unregistered := by
    cases step_moves hs with
    | register hregistering =>
      simp only [isRegister, Bool.not_eq_false, decide_eq_true_eq] at hreg
      subst hreg
      rw [hregistering]
      trivial
    | _ => simp [isRegister] at hreg
  have hnone := (counted hr₁).unpinged hunregistered e (by simp)
  simp [he] at hnone

theorem unanswered_iff (hr : run (step server) .init es = some m) :
    Unanswered c es ↔ 3 ≤ pingsSince c es := by
  constructor
  · rintro ⟨before, ping, after, rfl, hping, htwo, hpong⟩
    have hlate := no_late_register hr hping
    rw [List.append_cons, pingsSince_append fun e he => ⟨hlate e he, hpong e he⟩,
      pingsSince_concat]
    have hone : 1 ≤ countPing c (pingsSince c before) ping := by
      cases ping <;> simp_all [isPing, countPing, isRegister, isPong]
    omega
  · intro h
    obtain ⟨k, hk⟩ := Nat.exists_eq_add_of_le h
    have hk : pingsSince c es = k + 2 + 1 := by omega
    obtain ⟨before, ping, after, heq, hping, hcount, hpong⟩ := unanswered_of_pingsSince hk
    exact ⟨before, ping, after, heq, hping, by omega, hpong⟩

end

/-- In every run: the counter of a connection is the number of pings since its
registration and its last pong, at most three of them; and a tick ends the
message loop exactly when three pings are unanswered. -/
theorem heartbeat (server : ClusterServer) (es : List Event) (m : Main)
    (hr : run (step server) .init es = some m) (c : Nat) :
    (∀ k, (m.conns c).missedPongs = some k → k = pingsSince c es ∧ k ≤ 3) ∧
      (∀ n k, m.conns c = .select n k → m.shutdown = false →
        ∃ m', step server m (.tick c) = some m') ∧
      ∀ m', step server m (.tick c) = some m' →
        ((∃ n, m'.conns c = .leaving n) ↔ Unanswered c es) := by
  have hi : Counted c es m := counted hr
  refine ⟨hi.counts, fun n k hloop hrun => ?_, fun m' hs => ?_⟩
  · by_cases hk : 3 ≤ k <;> exact ⟨_, by simp [step, hloop, hrun, hk]; rfl⟩
  · rw [unanswered_iff hr]
    cases step_moves hs with
    | timedOut hloop _ hk =>
      obtain ⟨heq, -⟩ := hi.counts _ (by rw [hloop]; rfl)
      exact iff_of_true ⟨_, goto_same⟩ (heq ▸ hk)
    | ticked hloop _ hk =>
      obtain ⟨heq, -⟩ := hi.counts _ (by rw [hloop]; rfl)
      refine iff_of_false ?_ (heq ▸ Nat.not_le.mpr hk)
      rintro ⟨n, hn⟩
      simp at hn

/-- A worker that answers the first ping, asks for the nodes, and says nothing
any more. -/
def silentWorker : List Event :=
  [.accept 0, .registerFrame 0 (some (.message (.register "w" .worker [] ∅ "secret"))),
    .ack 0 true, .register 0, .tick 0, .pinged 0 true, .frame 0 (.message .pong),
    .frame 0 (.message .listNodes), .list 0, .replied 0 true,
    .tick 0, .pinged 0 true, .tick 0, .pinged 0 true, .tick 0, .pinged 0 true]

theorem heartbeat_silentWorker :
    pingsSince 0 silentWorker = 3 ∧
      ∃ m, run (step ⟨"secret", fromSecs 10⟩) .init silentWorker = some m ∧
        (∀ k, (m.conns 0).missedPongs = some k → k = pingsSince 0 silentWorker ∧ k ≤ 3) ∧
        (∀ n k, m.conns 0 = .select n k → m.shutdown = false →
          ∃ m', step ⟨"secret", fromSecs 10⟩ m (.tick 0) = some m') ∧
        ∀ m', step ⟨"secret", fromSecs 10⟩ m (.tick 0) = some m' →
          ((∃ n, m'.conns 0 = .leaving n) ↔ Unanswered 0 silentWorker) :=
  ⟨by decide, _, rfl, heartbeat ⟨"secret", fromSecs 10⟩ silentWorker _ rfl 0⟩

end Rinfra.Cluster

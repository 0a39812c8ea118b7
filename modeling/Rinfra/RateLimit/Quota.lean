import Mathlib.Data.List.Nodup
import Rinfra.RateLimit.Redis

/-!
# The quota of a window

Until its window ends a counter is the number of the checks counted under its
key, so the first checks are allowed and the others are not. The expiry that
its first check asks for comes after the end of the window, and no later than
the length of a window and one second after it, if no command on the counter
comes later than the window: one that does may count under a key that is gone,
and makes it anew.
-/

namespace Rinfra.RateLimit

open Rinfra.Lib

namespace RateLimiters

open RedisRateLimiter

-- ---------------------------------------------------------------------------
-- What a step does
-- ---------------------------------------------------------------------------

section
variable {Db : Type} {redis : RedisCounters Db} {config : RedisRateLimitConfig}
  {counters : Db → Counters} {s s' t : RateLimiters Db}

inductive Moves (config : RedisRateLimitConfig) (counters : Db → Counters) (s : RateLimiters Db) :
    RateEvent → RateLimiters Db → Prop
  | check {c now : Nat} {key : String} {connected : Bool} {job : RateJob}
      (hidle : s.jobs c = .idle)
      (hjob : job = .keyed (rateKey config key now) ∨ ∃ e, job = .checked (.err e)) :
      Moves config counters s (.check c key now connected) (s.setJob c job)
  | reset {c now : Nat} {key : String} {connected : Bool} {job : RateJob}
      (hidle : s.jobs c = .idle)
      (hjob : job = .resetting (rateKey config key now) ∨ ∃ e, job = .wasReset (.err e)) :
      Moves config counters s (.reset c key now connected) (s.setJob c job)
  | counted {c now count : Nat} {rk : String} {db : Db} (hjob : s.jobs c = .keyed rk)
      (hcount : count = (counters s.db).value now rk + 1)
      (hdb : Leases.SameLeases (now : WithTop Nat) (counters db)
        ((counters s.db).incr now rk 1)) :
      Moves config counters s (.incr c now)
        ({ s with db, counted := s.counted ++ [(c, rk, verdict config count)] }.setJob c
          (if count = 1 then .expiring rk else .checked (.ok (verdict config count))))
  | notCounted {c now : Nat} {rk : String} {db : Db} {e : AppError} (hjob : s.jobs c = .keyed rk)
      (hdb : Leases.SameLeases (now : WithTop Nat) (counters db) (counters s.db)) :
      Moves config counters s (.incr c now) ({ s with db }.setJob c (.checked (.err e)))
  | expired {c now : Nat} {rk : String} {db : Db} {expires : List String}
      (hjob : s.jobs c = .expiring rk)
      (hdb : Leases.SameLeases (now : WithTop Nat) (counters db)
        ((counters s.db).expire now rk config.ttl))
      (hexpires : ∀ rk' ∈ expires, rk' = rk ∨ rk' ∈ s.expires) :
      Moves config counters s (.expire c now)
        ({ s with db, expires }.setJob c (.checked (.ok (verdict config 1))))
  | notExpired {c now : Nat} {rk : String} {db : Db} (hjob : s.jobs c = .expiring rk)
      (hdb : Leases.SameLeases (now : WithTop Nat) (counters db) (counters s.db)) :
      Moves config counters s (.expire c now)
        ({ s with db }.setJob c (.checked (.ok (verdict config 1))))
  | deleted {c now : Nat} {rk : String} {db : Db} {result : Outcome Unit}
      (hjob : s.jobs c = .resetting rk)
      (hdb : Leases.SameLeases (now : WithTop Nat) (counters db) (counters s.db) ∨
        Leases.SameLeases (now : WithTop Nat) (counters db) ((counters s.db).set rk none)) :
      Moves config counters s (.del c now) ({ s with db }.setJob c (.wasReset result))

theorem act_moves (laws : redis.Lawful counters) (h : s.act redis config e = some s') :
    Moves config counters s e s' := by
  cases e with
  | check c key now connected =>
    simp only [act] at h
    cases hjob : s.jobs c with
    | idle =>
      simp only [hjob, getConn] at h
      split at h <;> cases h
      · exact .check hjob (.inl rfl)
      · exact .check hjob (.inr ⟨_, rfl⟩)
    | _ => simp [hjob] at h
  | incr c now =>
    simp only [act] at h
    cases hjob : s.jobs c with
    | keyed rk =>
      simp only [hjob] at h
      split at h <;> rename_i hreply <;> cases h
      · obtain ⟨hcount, hdb⟩ := laws.incr _ _ _ _ _ _ hreply
        exact .counted hjob hcount hdb
      · exact .notCounted hjob (laws.incr_failed _ _ _ _ _ _ hreply)
    | _ => simp [hjob] at h
  | expire c now =>
    simp only [act] at h
    cases hjob : s.jobs c with
    | expiring rk =>
      simp only [hjob] at h
      split at h <;> rename_i hreply <;> cases h
      · exact .expired hjob (laws.expire _ _ _ _ _ hreply) fun _ => List.mem_cons.mp
      · rcases laws.expire_failed _ _ _ _ _ _ hreply with hdb | hdb
        · exact .notExpired hjob hdb
        · exact .expired hjob hdb fun _ => .inr
    | _ => simp [hjob] at h
  | reset c key now connected =>
    simp only [act] at h
    cases hjob : s.jobs c with
    | idle =>
      simp only [hjob, getConn] at h
      split at h <;> cases h
      · exact .reset hjob (.inl rfl)
      · exact .reset hjob (.inr ⟨_, rfl⟩)
    | _ => simp [hjob] at h
  | del c now =>
    simp only [act] at h
    cases hjob : s.jobs c with
    | resetting rk =>
      simp only [hjob] at h
      split at h <;> rename_i hreply <;> cases h <;>
        exact .deleted hjob (laws.del _ _ _ _ _ hreply)
    | _ => simp [hjob] at h

theorem step_moves (laws : redis.Lawful counters) (h : s.step redis config e = some s') :
    s.clock ≤ e.now ∧ ∃ s₁, Moves config counters s e s₁ ∧ s' = { s₁ with clock := e.now } := by
  unfold step at h
  split at h
  · rename_i hclock
    obtain ⟨s₁, hact, rfl⟩ := Option.map_eq_some_iff.mp h
    exact ⟨hclock, s₁, act_moves laws hact, rfl⟩
  · cases h

-- ---------------------------------------------------------------------------
-- Counted checks
-- ---------------------------------------------------------------------------

/-- The call is neither a check that was counted nor about to be one of them. -/
def Uncounted (job : RateJob) : Prop :=
  (∀ r, job ≠ .checked (.ok r)) ∧ ∀ rk, job ≠ .expiring rk

/-- What is counted is what is returned, or will be after the `EXPIRE`. -/
structure Logged (config : RedisRateLimitConfig) (jobs : Nat → RateJob)
    (counted : List (Nat × String × RateLimitResult)) : Prop where
  settled : ∀ c rk r, (c, rk, r) ∈ counted →
    jobs c = .checked (.ok r) ∨ jobs c = .expiring rk ∧ r = verdict config 1
  returned : ∀ c r, jobs c = .checked (.ok r) → ∃ rk, (c, rk, r) ∈ counted
  expiring : ∀ c rk, jobs c = .expiring rk → (c, rk, verdict config 1) ∈ counted
  distinct : (counted.map Prod.fst).Nodup

section
variable {jobs : Nat → RateJob} {counted : List (Nat × String × RateLimitResult)} {rk : String}
  {job : RateJob} {c : Nat}

theorem Logged.fresh (h : Logged config jobs counted) (hc : Uncounted (jobs c)) :
    ∀ rk r, (c, rk, r) ∉ counted := by
  intro rk r hmem
  rcases h.settled c rk r hmem with hjob | ⟨hjob, -⟩
  · exact hc.1 r hjob
  · exact hc.2 rk hjob

theorem Logged.setJob (h : Logged config jobs counted) (hc : Uncounted (jobs c))
    (hjob : Uncounted job) : Logged config (Function.update jobs c job) counted where
  settled c' rk r hmem := by
    have hne : c' ≠ c := by
      rintro rfl
      exact h.fresh hc rk r hmem
    rw [Function.update_of_ne hne]
    exact h.settled c' rk r hmem
  returned c' r hc' := by
    by_cases hne : c' = c
    · subst hne
      rw [Function.update_self] at hc'
      exact absurd hc' (hjob.1 r)
    · rw [Function.update_of_ne hne] at hc'
      exact h.returned c' r hc'
  expiring c' rk hc' := by
    by_cases hne : c' = c
    · subst hne
      rw [Function.update_self] at hc'
      exact absurd hc' (hjob.2 rk)
    · rw [Function.update_of_ne hne] at hc'
      exact h.expiring c' rk hc'
  distinct := h.distinct

theorem Logged.count (h : Logged config jobs counted) (hc : Uncounted (jobs c)) (count : Nat) :
    Logged config
      (Function.update jobs c
        (if count = 1 then .expiring rk else .checked (.ok (verdict config count))))
      (counted ++ [(c, rk, verdict config count)]) where
  settled c' rk' r hmem := by
    rcases List.mem_append.mp hmem with hold | hnew
    · have hne : c' ≠ c := by
        rintro rfl
        exact h.fresh hc rk' r hold
      rw [Function.update_of_ne hne]
      exact h.settled c' rk' r hold
    · cases List.mem_singleton.mp hnew
      rw [Function.update_self]
      split
      · rename_i hone
        exact .inr ⟨rfl, by rw [hone]⟩
      · exact .inl rfl
  returned c' r hc' := by
    by_cases hne : c' = c
    · subst hne
      rw [Function.update_self] at hc'
      split at hc' <;> cases hc'
      exact ⟨rk, by simp⟩
    · rw [Function.update_of_ne hne] at hc'
      obtain ⟨rk', hmem⟩ := h.returned c' r hc'
      exact ⟨rk', List.mem_append_left _ hmem⟩
  expiring c' rk' hc' := by
    by_cases hne : c' = c
    · subst hne
      rw [Function.update_self] at hc'
      split at hc' <;> cases hc'
      rename_i hone
      simp [hone]
    · rw [Function.update_of_ne hne] at hc'
      exact List.mem_append_left _ (h.expiring c' rk' hc')
  distinct := by
    rw [List.map_append]
    refine h.distinct.append (List.nodup_singleton _) ?_
    intro c' hold hnew
    cases List.mem_singleton.mp hnew
    obtain ⟨⟨c', rk', r⟩, hmem, rfl⟩ := List.mem_map.mp hold
    exact h.fresh hc rk' r hmem

theorem Logged.expired (h : Logged config jobs counted) (hc : jobs c = .expiring rk) :
    Logged config (Function.update jobs c (.checked (.ok (verdict config 1)))) counted where
  settled c' rk' r hmem := by
    by_cases hne : c' = c
    · subst hne
      rw [Function.update_self]
      rcases h.settled c' rk' r hmem with hjob | ⟨-, rfl⟩
      · cases hc.symm.trans hjob
      · exact .inl rfl
    · rw [Function.update_of_ne hne]
      exact h.settled c' rk' r hmem
  returned c' r hc' := by
    by_cases hne : c' = c
    · subst hne
      rw [Function.update_self] at hc'
      cases hc'
      exact ⟨rk, h.expiring c' rk hc⟩
    · rw [Function.update_of_ne hne] at hc'
      exact h.returned c' r hc'
  expiring c' rk' hc' := by
    by_cases hne : c' = c
    · subst hne
      rw [Function.update_self] at hc'
      cases hc'
    · rw [Function.update_of_ne hne] at hc'
      exact h.expiring c' rk' hc'
  distinct := h.distinct

end

theorem Logged.step (laws : redis.Lawful counters) (hi : Logged config s.jobs s.counted)
    (h : s.step redis config e = some s') : Logged config s'.jobs s'.counted := by
  obtain ⟨-, s₁, hm, rfl⟩ := step_moves laws h
  cases hm with
  | check hidle hjob =>
    refine hi.setJob (by simp [Uncounted, hidle]) ?_
    rcases hjob with rfl | ⟨e, rfl⟩ <;> simp [Uncounted]
  | reset hidle hjob =>
    refine hi.setJob (by simp [Uncounted, hidle]) ?_
    rcases hjob with rfl | ⟨e, rfl⟩ <;> simp [Uncounted]
  | counted hjob => exact hi.count (by simp [Uncounted, hjob]) _
  | notCounted hjob => exact hi.setJob (by simp [Uncounted, hjob]) (by simp [Uncounted])
  | expired hjob | notExpired hjob => exact hi.expired hjob
  | deleted hjob => exact hi.setJob (by simp [Uncounted, hjob]) (by simp [Uncounted])

-- ---------------------------------------------------------------------------
-- The counter of a window
-- ---------------------------------------------------------------------------

def windowStart (config : RedisRateLimitConfig) (k : Nat) : Nat := k * config.windowLen * 1000

def windowEnd (config : RedisRateLimitConfig) (k : Nat) : Nat :=
  windowStart config k + config.windowLen * 1000

/-- When the counter of a window is gone at the latest, once it expires. -/
def latestExpiry (config : RedisRateLimitConfig) (k : Nat) : Nat :=
  windowEnd config k + (config.windowLen + 1) * 1000

theorem windowStart_le (h : rateKey config key' now = keyOf key k) :
    windowStart config k ≤ now := by
  obtain ⟨-, hk⟩ := keyOf_inj h
  rw [← hk]
  calc window config now * config.windowLen * 1000
      ≤ now / 1000 * 1000 := Nat.mul_le_mul_right _ (Nat.div_mul_le_self _ _)
    _ ≤ now := Nat.div_mul_le_self _ _

/-- Before the window ends the counter has counted every check, and will last
until then. -/
structure Counts (config : RedisRateLimitConfig) (k : Nat) (rk : String) (l : Counters) (now : Nat)
    (results : List RateLimitResult) (expires : Prop) : Prop where
  verdicts : results = (List.range results.length).map fun i => verdict config (i + 1)
  absent : results = [] → l.holder (now : WithTop Nat) rk = none ∧ ¬ expires
  present : results ≠ [] → ∃ until_, l rk = some (results.length, until_) ∧
    ↑(windowEnd config k) ≤ until_ ∧ (until_ = ⊤ ∨ until_ < ↑(latestExpiry config k)) ∧
    (expires → until_ ≠ ⊤)

section
variable {k now now' : Nat} {rk : String} {l l' : Counters} {results : List RateLimitResult}
  {expires expires' : Prop}

theorem Counts.same (h : Counts config k rk l now results expires) (hnow : now ≤ now')
    (hend : now' < windowEnd config k)
    (hsame : ∀ n (until_ : WithTop Nat), now' < until_ →
      (l' rk = some (n, until_) ↔ l rk = some (n, until_)))
    (hexpires : expires' → expires) : Counts config k rk l' now' results expires' where
  verdicts := h.verdicts
  absent hnil := by
    obtain ⟨hnone, hnot⟩ := h.absent hnil
    refine ⟨Leases.holder_eq_none.mpr fun (n, until_) hl' => ?_, fun he => hnot (hexpires he)⟩
    by_contra hlt
    have hl := (hsame n until_ (not_le.mp hlt)).mp hl'
    have hle := Leases.holder_eq_none.mp hnone _ hl
    exact hlt (hle.trans (WithTop.coe_le_coe.mpr hnow))
  present hne := by
    obtain ⟨until_, hl, hstop, hlatest, hbound⟩ := h.present hne
    have hlt : (now' : WithTop Nat) < until_ := (WithTop.coe_lt_coe.mpr hend).trans_le hstop
    exact ⟨until_, (hsame _ _ hlt).mpr hl, hstop, hlatest, fun he => hbound (hexpires he)⟩

theorem Counts.replace {l₁ : Counters} (h : Counts config k rk l now results expires)
    (hend : now < windowEnd config k) (hsame : Leases.SameLeases (now : WithTop Nat) l' l₁)
    (hrk : l₁ rk = l rk) (hexpires : expires' → expires) :
    Counts config k rk l' now results expires' := by
  refine h.same le_rfl hend ?_ hexpires
  intro n until_ hlt
  rw [hsame rk n until_ hlt, hrk]

theorem Counts.value (h : Counts config k rk l now results expires) (hnow : now ≤ now')
    (hend : now' < windowEnd config k) : l.value now' rk = results.length := by
  have h' := h.same hnow hend (fun _ _ _ => Iff.rfl) fun h => h
  by_cases hnil : results = []
  · rw [Counters.value_of_absent (h'.absent hnil).1, hnil, List.length_nil]
  · obtain ⟨until_, hl, hstop, -⟩ := h'.present hnil
    exact Counters.value_of_lease hl ((WithTop.coe_lt_coe.mpr hend).trans_le hstop)

theorem Counts.incr (h : Counts config k rk l now results expires)
    (hend : now < windowEnd config k) :
    Counts config k rk (l.incr now rk 1) now
      (results ++ [verdict config (results.length + 1)]) expires where
  verdicts := by
    rw [List.length_append, List.length_singleton, List.range_succ, List.map_append]
    exact congrArg (· ++ [verdict config (results.length + 1)]) h.verdicts
  absent hnil := by simp at hnil
  present _ := by
    have hvalue := h.value le_rfl hend
    by_cases hnil : results = []
    · obtain ⟨hnone, hnot⟩ := h.absent hnil
      refine ⟨⊤, ?_, le_top, .inl rfl, fun he => absurd he hnot⟩
      simp [Counters.incr, hvalue, Counters.ending_of_absent hnone]
    · obtain ⟨until_, hl, hstop, hlatest, hbound⟩ := h.present hnil
      have hlt : (now : WithTop Nat) < until_ := (WithTop.coe_lt_coe.mpr hend).trans_le hstop
      refine ⟨until_, ?_, hstop, hlatest, hbound⟩
      simp [Counters.incr, hvalue, Counters.ending_of_lease hl hlt]

theorem ttl_eq (hfits : config.windowLen + 1 < 2 ^ 63) : config.ttl = ↑(config.windowLen + 1) := by
  have hmod : (config.windowLen + 1) % 2 ^ 64 = config.windowLen + 1 :=
    Nat.mod_eq_of_lt (by omega)
  rw [RedisRateLimitConfig.ttl, hmod, asI64, if_pos hfits]

theorem Counts.expire (h : Counts config k rk l now results expires)
    (hfits : config.windowLen + 1 < 2 ^ 63) (hstart : windowStart config k ≤ now)
    (hend : now < windowEnd config k) (hsome : results ≠ []) :
    Counts config k rk (l.expire now rk config.ttl) now results expires' where
  verdicts := h.verdicts
  absent hnil := absurd hnil hsome
  present _ := by
    obtain ⟨until_, hl, hstop, -⟩ := h.present hsome
    have hlt : (now : WithTop Nat) < until_ := (WithTop.coe_lt_coe.mpr hend).trans_le hstop
    have hpos : 0 < config.ttl := by
      rw [ttl_eq hfits]
      omega
    have hexpire : l.expire now rk config.ttl rk =
        some (results.length, ↑(now + (config.windowLen + 1) * 1000)) := by
      rw [Counters.expire_of_lease hl hlt hpos, ttl_eq hfits, Int.toNat_natCast]
    have hstop' : windowEnd config k ≤ now + (config.windowLen + 1) * 1000 := by
      simp only [windowEnd, Nat.add_mul]
      omega
    have hlatest' : now + (config.windowLen + 1) * 1000 < latestExpiry config k := by
      simp only [latestExpiry]
      omega
    exact ⟨_, hexpire, WithTop.coe_le_coe.mpr hstop', .inr (WithTop.coe_lt_coe.mpr hlatest'),
      fun _ => WithTop.coe_ne_top⟩

end

/-- The jobs on the key are of its window, and none resets it. -/
structure InWindow (config : RedisRateLimitConfig) (counters : Db → Counters) (key : String)
    (k : Nat) (s : RateLimiters Db) : Prop where
  begun : ∀ c, s.jobs c = .keyed (keyOf key k) ∨ s.jobs c = .expiring (keyOf key k) →
    windowStart config k ≤ s.clock
  unreset : ∀ c, s.jobs c ≠ .resetting (keyOf key k)
  counts : s.clock < windowEnd config k →
    Counts config k (keyOf key k) (counters s.db) s.clock (s.results (keyOf key k))
      (keyOf key k ∈ s.expires)

theorem setJob_jobs (s : RateLimiters Db) (c c' : Nat) (job : RateJob) :
    (s.setJob c job).jobs c' = if c' = c then job else s.jobs c' := Function.update_apply _ _ _ _

theorem begun_step (hi : s.InWindow config counters key k) (hm : Moves config counters s e s₁)
    (hclock : s.clock ≤ e.now) (c : Nat)
    (hc : s₁.jobs c = .keyed (keyOf key k) ∨ s₁.jobs c = .expiring (keyOf key k)) :
    windowStart config k ≤ e.now := by
  have hold : ∀ c, s.jobs c = .keyed (keyOf key k) ∨ s.jobs c = .expiring (keyOf key k) →
      windowStart config k ≤ e.now := fun c hc => (hi.begun c hc).trans hclock
  cases hm with
  | check hidle hjob =>
    rw [setJob_jobs] at hc
    split at hc
    · rcases hjob with rfl | ⟨e, rfl⟩ <;> rcases hc with hc | hc
      · exact windowStart_le (RateJob.keyed.inj hc)
      all_goals nomatch hc
    · exact hold c hc
  | reset hidle hjob =>
    rw [setJob_jobs] at hc
    split at hc
    · rcases hjob with rfl | ⟨e, rfl⟩ <;> simp at hc
    · exact hold c hc
  | @counted c' _ _ rk _ hjob =>
    rw [setJob_jobs] at hc
    split at hc
    · split at hc <;> simp at hc
      subst hc
      exact hold c' (.inl hjob)
    · exact hold c hc
  | notCounted | expired | notExpired | deleted =>
    rw [setJob_jobs] at hc
    split at hc
    · simp at hc
    · exact hold c hc

theorem unreset_step (hi : s.InWindow config counters key k)
    (hm : Moves config counters s e s₁) (he : ∀ c now connected, e ≠ .reset c key now connected)
    (c : Nat) : s₁.jobs c ≠ .resetting (keyOf key k) := by
  have hold := hi.unreset c
  intro hc
  cases hm with
  | check hidle hjob =>
    rw [setJob_jobs] at hc
    split at hc
    · rcases hjob with rfl | ⟨e, rfl⟩ <;> cases hc
    · exact hold hc
  | reset hidle hjob =>
    rw [setJob_jobs] at hc
    split at hc
    · rcases hjob with rfl | ⟨e, rfl⟩
      · obtain ⟨rfl, -⟩ := keyOf_inj (RateJob.resetting.inj hc)
        exact he _ _ _ rfl
      · cases hc
    · exact hold hc
  | counted =>
    rw [setJob_jobs] at hc
    split at hc
    · split at hc <;> cases hc
    · exact hold hc
  | notCounted | expired | notExpired | deleted =>
    rw [setJob_jobs] at hc
    split at hc
    · cases hc
    · exact hold hc

theorem results_counted {s : RateLimiters Db} (s' : RateLimiters Db) (rk : String)
    (h : s'.counted = s.counted ++ [(c, rk', r)]) :
    s'.results rk = s.results rk ++ if rk' = rk then [r] else [] := by
  by_cases hrk : rk' = rk <;> simp [results, h, hrk]

theorem results_ne_nil {s : RateLimiters Db} (h : (c, rk, r) ∈ s.counted) : s.results rk ≠ [] :=
  List.ne_nil_of_mem
    (List.mem_map_of_mem (List.mem_filter.mpr ⟨h, decide_eq_true rfl⟩) : r ∈ s.results rk)

theorem counts_step (hfits : config.windowLen + 1 < 2 ^ 63)
    (hlogged : Logged config s.jobs s.counted) (hi : s.InWindow config counters key k)
    (hm : Moves config counters s e s₁) (hclock : s.clock ≤ e.now)
    (hend : e.now < windowEnd config k) :
    Counts config k (keyOf key k) (counters s₁.db) e.now (s₁.results (keyOf key k))
      (keyOf key k ∈ s₁.expires) := by
  have hcounts := hi.counts (hclock.trans_lt hend)
  -- the counter as it is when the command arrives
  have hnow := hcounts.same hclock hend (fun _ _ _ => Iff.rfl) fun h => h
  cases hm with
  | check | reset => exact hnow
  | @counted c now count rk db hjob hcount hdb =>
    have hcounted := results_counted
      { s with db, counted := s.counted ++ [(c, rk, verdict config count)] } (keyOf key k) rfl
    by_cases hrk : rk = keyOf key k
    · subst hrk
      have hcount : count = (s.results (keyOf key k)).length + 1 := by
        rw [hcount]
        exact congrArg (· + 1) (hcounts.value hclock hend)
      have hincr := (hnow.incr hend).replace hend hdb rfl fun h => h
      rw [if_pos rfl] at hcounted
      rw [← hcount, ← hcounted] at hincr
      exact hincr
    · have hother := hnow.replace hend hdb (Counters.incr_of_ne (Ne.symm hrk)) fun h => h
      rw [if_neg hrk, List.append_nil] at hcounted
      rw [← hcounted] at hother
      exact hother
  | notCounted hjob hdb | notExpired hjob hdb => exact hnow.replace hend hdb rfl fun h => h
  | @expired c now rk db expires hjob hdb hexpires =>
    by_cases hrk : rk = keyOf key k
    · subst hrk
      have hsome := results_ne_nil (hlogged.expiring c _ hjob)
      have hstart : windowStart config k ≤ now := (hi.begun c (.inr hjob)).trans hclock
      exact (hnow.expire hfits hstart hend hsome).replace hend hdb rfl fun h => h
    · exact hnow.replace hend hdb (Counters.expire_of_ne (Ne.symm hrk)) fun hmem =>
        (hexpires _ hmem).resolve_left (Ne.symm hrk)
  | @deleted c now rk db result hjob hdb =>
    have hne : keyOf key k ≠ rk := by
      rintro rfl
      exact hi.unreset c hjob
    rcases hdb with hdb | hdb
    · exact hnow.replace hend hdb rfl fun h => h
    · exact hnow.replace hend hdb (Leases.set_of_ne hne) fun h => h

theorem InWindow.step (laws : redis.Lawful counters) (hfits : config.windowLen + 1 < 2 ^ 63)
    (hlogged : Logged config s.jobs s.counted) (hi : s.InWindow config counters key k)
    (he : ∀ c now connected, e ≠ .reset c key now connected)
    (h : s.step redis config e = some s') : s'.InWindow config counters key k := by
  obtain ⟨hclock, s₁, hm, rfl⟩ := step_moves laws h
  have hbegun := begun_step hi hm hclock
  have hunreset := unreset_step hi hm he
  have hcounts := counts_step hfits hlogged hi hm hclock
  exact ⟨hbegun, hunreset, hcounts⟩

theorem start_inWindow {db : Db} (hdb : counters db = Leases.empty) :
    Logged config (start db).jobs (start db).counted ∧
      (start db).InWindow config counters key k := by
  refine ⟨⟨by simp [start], by simp [start], by simp [start], List.nodup_nil⟩, ?_⟩
  refine ⟨by simp [start], by simp [start], fun _ => ⟨rfl, fun _ => ?_, fun h => absurd rfl h⟩⟩
  simp [start, hdb, Leases.empty, Leases.holder]

theorem run_inWindow {db : Db} (laws : redis.Lawful counters)
    (hfits : config.windowLen + 1 < 2 ^ 63)
    (hdb : counters db = Leases.empty)
    (hreset : ∀ c now connected, .reset c key now connected ∉ es)
    (hr : run (step redis config) (start db) es = some t) :
    Logged config t.jobs t.counted ∧ t.InWindow config counters key k := by
  have hguarded : Guarded (step redis config)
      (fun _ e => True ∧ ∀ c now connected, e ≠ .reset c key now connected) (start db) es := by
    refine (Guarded.of_forall fun _ _ => trivial).and_all ?_
    rintro e he c now connected rfl
    exact hreset c now connected he
  refine (hguarded.invariant (P := fun s => Logged config s.jobs s.counted ∧
    s.InWindow config counters key k) (start_inWindow hdb) ?_).last hr
  rintro s e s' ⟨hlogged, hi⟩ he h
  exact ⟨hlogged.step laws h, hi.step laws hfits hlogged he.2 h⟩

-- ---------------------------------------------------------------------------
-- The quota
-- ---------------------------------------------------------------------------

theorem verdict_allowed : (verdict config count).allowed = true ↔ count ≤ config.limit := by
  unfold verdict
  split <;> simp [*]

/-- Of the first checks as many are allowed as the limit says. -/
theorem countP_verdicts (config : RedisRateLimitConfig) (n : Nat) :
    ((List.range n).map fun i => verdict config (i + 1)).countP RateLimitResult.allowed =
      min n config.limit := by
  induction n with
  | zero => simp
  | succ n ih =>
    rw [List.range_succ, List.map_append, List.countP_append, ih, List.map_singleton,
      List.countP_singleton]
    simp only [verdict_allowed]
    split <;> omega

/-- No command on the counter of the window is carried out after its end. -/
def Prompt (config : RedisRateLimitConfig) (key : String) (k : Nat) (s : RateLimiters Db) :
    RateEvent → Prop
  | .incr c now => s.jobs c = .keyed (keyOf key k) → now < windowEnd config k
  | .expire c now => s.jobs c = .expiring (keyOf key k) → now < windowEnd config k
  | _ => True

instance (config : RedisRateLimitConfig) (key : String) (k : Nat) (s : RateLimiters Db) :
    (e : RateEvent) → Decidable (Prompt config key k s e)
  | .incr _ _ => inferInstanceAs (Decidable (_ → _))
  | .expire _ _ => inferInstanceAs (Decidable (_ → _))
  | .check .. | .reset .. | .del .. => .isTrue trivial

/-- A counter that has been made to expire is gone in time. -/
def Ends (config : RedisRateLimitConfig) (counters : Db → Counters) (key : String) (k : Nat)
    (s : RateLimiters Db) : Prop :=
  keyOf key k ∈ s.expires → ∀ now, s.clock ≤ now → latestExpiry config k ≤ now →
    (counters s.db).holder (now : WithTop Nat) (keyOf key k) = none

theorem Counts.gone {l : Counters} {results : List RateLimitResult} {expires : Prop}
    (h : Counts config k rk l now results expires) (he : expires)
    (hlatest : latestExpiry config k ≤ now') : l.holder (now' : WithTop Nat) rk = none := by
  have hsome : results ≠ [] := fun hnil => (h.absent hnil).2 he
  obtain ⟨until_, hl, -, hbefore, hbound⟩ := h.present hsome
  have hbefore := hbefore.resolve_left (hbound he)
  rw [Leases.holder_eq_none]
  intro e hmem
  cases hl.symm.trans hmem
  exact (hbefore.trans_le (WithTop.coe_le_coe.mpr hlatest)).le

/-- After the window nothing happens to its counter. -/
theorem Ends.past (h : s.Ends config counters key k) (hi : s.InWindow config counters key k)
    (hm : Moves config counters s e s₁) (hclock : s.clock ≤ e.now)
    (hprompt : s.Prompt config key k e) (hend : windowEnd config k ≤ e.now)
    (hmem : keyOf key k ∈ s₁.expires) (hnow : e.now ≤ now) (hlatest : latestExpiry config k ≤ now) :
    (counters s₁.db).holder (now : WithTop Nat) (keyOf key k) = none := by
  have hsame : ∀ {db : Db} {l : Counters} {now' : Nat},
      Leases.SameLeases (now' : WithTop Nat) (counters db) l → now' ≤ now →
      l (keyOf key k) = counters s.db (keyOf key k) → keyOf key k ∈ s.expires →
      (counters db).holder (now : WithTop Nat) (keyOf key k) = none := by
    intro db l now' hsame hle heq hmem
    have hle : (now' : WithTop Nat) ≤ now := WithTop.coe_le_coe.mpr hle
    rw [(hsame.mono hle).holder, Leases.holder, heq]
    exact h hmem now (hclock.trans hnow) hlatest
  cases hm with
  | check | reset => exact h hmem now (hclock.trans hnow) hlatest
  | @counted c _ _ rk _ hjob _ hdb =>
    have hne : keyOf key k ≠ rk := by
      rintro rfl
      exact absurd (hprompt hjob) (Nat.not_lt.mpr hend)
    exact hsame hdb hnow (Counters.incr_of_ne hne) hmem
  | notCounted _ hdb | notExpired _ hdb => exact hsame hdb hnow rfl hmem
  | @expired c _ rk _ _ hjob hdb hexpires =>
    have hne : keyOf key k ≠ rk := by
      rintro rfl
      exact absurd (hprompt hjob) (Nat.not_lt.mpr hend)
    exact hsame hdb hnow (Counters.expire_of_ne hne) ((hexpires _ hmem).resolve_left hne)
  | @deleted c _ rk _ _ hjob hdb =>
    have hne : keyOf key k ≠ rk := by
      rintro rfl
      exact hi.unreset c hjob
    rcases hdb with hdb | hdb
    · exact hsame hdb hnow rfl hmem
    · exact hsame hdb hnow (Leases.set_of_ne hne) hmem

theorem Ends.step (laws : redis.Lawful counters) (hfits : config.windowLen + 1 < 2 ^ 63)
    (hlogged : Logged config s.jobs s.counted) (hi : s.InWindow config counters key k)
    (hends : s.Ends config counters key k) (hprompt : s.Prompt config key k e)
    (h : s.step redis config e = some s') : s'.Ends config counters key k := by
  obtain ⟨hclock, s₁, hm, rfl⟩ := step_moves laws h
  intro hmem now hnow hlatest
  rcases Nat.lt_or_ge e.now (windowEnd config k) with hend | hend
  · exact (counts_step hfits hlogged hi hm hclock hend).gone hmem hlatest
  · have hgone := hends.past hi hm hclock hprompt hend hmem hnow hlatest
    exact hgone

theorem run_ends {db : Db} (laws : redis.Lawful counters) (hfits : config.windowLen + 1 < 2 ^ 63)
    (hdb : counters db = Leases.empty) (hreset : ∀ c now connected, .reset c key now connected ∉ es)
    (hprompt : Guarded (step redis config) (Prompt config key k) (start db) es)
    (hr : run (step redis config) (start db) es = some t) : t.Ends config counters key k := by
  have hguarded : Guarded (step redis config) (fun s e => s.Prompt config key k e ∧
      ∀ c now connected, e ≠ .reset c key now connected) (start db) es := by
    refine hprompt.and_all ?_
    rintro e he c now connected rfl
    exact hreset c now connected he
  refine ((hguarded.invariant (P := fun s => (Logged config s.jobs s.counted ∧
    s.InWindow config counters key k) ∧ s.Ends config counters key k) ?_ ?_).last hr).2
  · exact ⟨start_inWindow hdb, fun hmem => absurd hmem List.not_mem_nil⟩
  · rintro s e s' ⟨⟨hlogged, hi⟩, hends⟩ ⟨hprompt, he⟩ h
    exact ⟨⟨hlogged.step laws h, hi.step laws hfits hlogged he h⟩,
      hends.step laws hfits hlogged hi hprompt h⟩

/-- In a window in which its key is not reset, exactly as many of the first
checks are allowed as the limit says, and until the window ends the counter is
the number of the checks. Once its `EXPIRE` has succeeded, and unless a command
on it is carried out after the window, it is gone the length of a window and one
second after the end. -/
theorem run_quota (redis : RedisCounters Db) (counters : Db → Counters)
    (laws : redis.Lawful counters) (config : RedisRateLimitConfig)
    (hlimit : config.requestsPerSecond * max config.windowSecs 1 < 2 ^ 64)
    (hfits : max config.windowSecs 1 + 1 < 2 ^ 63) (db : Db) (hdb : counters db = Leases.empty)
    (es : List RateEvent) (key : String)
    (hreset : ∀ c now connected, .reset c key now connected ∉ es) (t : RateLimiters Db)
    (hr : run (step redis config) (start db) es = some t) (k : Nat) :
    (t.clock < windowEnd config k →
      (∀ n ≤ (t.results (keyOf key k)).length,
        ((t.results (keyOf key k)).take n).countP RateLimitResult.allowed =
          min n (config.requestsPerSecond * max config.windowSecs 1)) ∧
      ∀ now, t.clock ≤ now → now < windowEnd config k →
        (counters t.db).value now (keyOf key k) = (t.results (keyOf key k)).length) ∧
    (Guarded (step redis config) (Prompt config key k) (start db) es → keyOf key k ∈ t.expires →
      ∀ now, t.clock ≤ now →
        windowEnd config k + (max config.windowSecs 1 + 1) * 1000 ≤ now →
        (counters t.db).holder (now : WithTop Nat) (keyOf key k) = none) ∧
    (t.counted.map Prod.fst).Nodup ∧
    (∀ c rk r, (c, rk, r) ∈ t.counted →
      t.jobs c = .checked (.ok r) ∨ t.jobs c = .expiring rk ∧ r = verdict config 1) ∧
    ∀ c r, t.jobs c = .checked (.ok r) → ∃ rk, (c, rk, r) ∈ t.counted := by
  obtain ⟨hlogged, hi⟩ := run_inWindow laws hfits hdb hreset hr
  refine ⟨fun hclock => ?_, fun hprompt => run_ends laws hfits hdb hreset hprompt hr,
    hlogged.distinct, hlogged.settled, hlogged.returned⟩
  have hcounts := hi.counts hclock
  refine ⟨fun n hn => ?_, fun now hnow hend => hcounts.value hnow hend⟩
  have hlimit : config.limit = config.requestsPerSecond * max config.windowSecs 1 :=
    Nat.mod_eq_of_lt hlimit
  rw [hcounts.verdicts, ← List.map_take, List.take_range, Nat.min_eq_left hn, countP_verdicts,
    hlimit]

end

-- ---------------------------------------------------------------------------
-- A check in the last moment of a window
-- ---------------------------------------------------------------------------

/-- A server that always answers. -/
def storedCounters : RedisCounters Counters where
  incr db now key delta := (.ok (db.value now key + delta), db.incr now key delta)
  expire db now key secs := (.ok (), db.expire now key secs)
  del db _ key := (.ok (), db.set key none)

theorem storedCounters_lawful : storedCounters.Lawful fun db => db where
  incr db now key delta value db' h := by
    cases h
    exact ⟨rfl, .refl _ _⟩
  incr_failed db now key delta e db' h := by cases h
  expire db now key secs db' h := by
    cases h
    exact .refl _ _
  expire_failed db now key secs e db' h := by cases h
  del db now key result db' h := by
    cases h
    exact .inr (.refl _ _)

/-- The same, with a connection that is lost before the `EXPIRE`. -/
def unreliableCounters : RedisCounters Counters :=
  { storedCounters with expire := fun db _ _ _ => (.error "connection reset", db) }

def onePerSecond : RedisRateLimitConfig :=
  { enabled := true, requestsPerSecond := 1, windowSecs := 1 }

def lateCheck : List RateEvent := [.check 0 "a" 999 true, .incr 0 999, .expire 0 999]

theorem lateCheck_run :
    ∃ t, run (step storedCounters onePerSecond) (start Leases.empty) lateCheck = some t ∧
      t.clock = 999 ∧ (t.results (keyOf "a" 0)).length = 1 ∧
      (t.db : Counters).holder ((2998 : Nat) : WithTop Nat) (keyOf "a" 0) = some 1 :=
  ⟨_, rfl, rfl, by decide +kernel, by decide +kernel⟩

/-- The next window begins while the counter is still there. -/
def nextCheck : List RateEvent := lateCheck ++ [.check 1 "a" 1500 true, .incr 1 1500]

theorem nextCheck_run :
    ∃ t, run (step storedCounters onePerSecond) (start Leases.empty) nextCheck = some t ∧
      t.clock = 1500 ∧ keyOf "a" 0 ∈ t.expires ∧
      Guarded (step storedCounters onePerSecond) (Prompt onePerSecond "a" 0) (start Leases.empty)
        nextCheck :=
  ⟨_, rfl, rfl, by decide +kernel, by decide +kernel⟩

theorem run_quota_nextCheck :
    (∃ t, run (step storedCounters onePerSecond) (start Leases.empty) lateCheck = some t ∧
      ((t.results (keyOf "a" 0)).take 1).countP RateLimitResult.allowed = 1) ∧
    ∃ t, run (step storedCounters onePerSecond) (start Leases.empty) nextCheck = some t ∧
      ∀ now : Nat, 3000 ≤ now →
        (t.db : Counters).holder (now : WithTop Nat) (keyOf "a" 0) = none := by
  constructor
  · obtain ⟨t, hr, hclock, hlen, -⟩ := lateCheck_run
    obtain ⟨hquota, -⟩ := run_quota storedCounters (fun db => db) storedCounters_lawful
      onePerSecond (by decide) (by decide) Leases.empty rfl lateCheck "a" (by simp [lateCheck]) t
      hr 0
    exact ⟨t, hr, (hquota (hclock ▸ by decide)).1 1 hlen.ge⟩
  · obtain ⟨t, hr, hclock, hexpires, hprompt⟩ := nextCheck_run
    obtain ⟨-, hgone, -⟩ := run_quota storedCounters (fun db => db) storedCounters_lawful
      onePerSecond (by decide) (by decide) Leases.empty rfl nextCheck "a"
      (by simp [nextCheck, lateCheck]) t hr 0
    refine ⟨t, hr, fun now hnow => hgone hprompt hexpires now ?_ hnow⟩
    rw [hclock]
    exact le_trans (by decide) hnow

theorem unreliable_run :
    ∃ t, run (step unreliableCounters onePerSecond) (start Leases.empty) lateCheck = some t ∧
      t.db (keyOf "a" 0) = some (1, ⊤) :=
  ⟨_, rfl, by decide +kernel⟩

def overflowing : RedisRateLimitConfig :=
  { enabled := true, requestsPerSecond := 2 ^ 63, windowSecs := 2 }

/-- A check begun in the last moment of a window whose `INCR` comes long after it. -/
def strayIncr : List RateEvent :=
  [.check 1 "a" 999 true] ++ lateCheck ++ [.incr 1 4000, .expire 1 4000]

theorem strayIncr_run :
    ∃ t, run (step storedCounters onePerSecond) (start Leases.empty) strayIncr = some t ∧
      (t.db : Counters).holder ((5999 : Nat) : WithTop Nat) (keyOf "a" 0) = some 1 :=
  ⟨_, rfl, by decide +kernel⟩

/-- The key outlives its window, which ends after one second, by almost two, by five if a
command on it comes late, and for ever if it is not made to expire; and a product that
overflows allows no check at all. -/
theorem window_outlived :
    (∃ t, run (step storedCounters onePerSecond) (start Leases.empty) lateCheck = some t ∧
      windowEnd onePerSecond 0 = 1000 ∧
      (t.db : Counters).holder ((2998 : Nat) : WithTop Nat) (keyOf "a" 0) = some 1) ∧
    (∃ t, run (step storedCounters onePerSecond) (start Leases.empty) strayIncr = some t ∧
      (t.db : Counters).holder ((5999 : Nat) : WithTop Nat) (keyOf "a" 0) = some 1) ∧
    (∃ t, run (step unreliableCounters onePerSecond) (start Leases.empty) lateCheck = some t ∧
      ∀ now : Nat, (t.db : Counters).holder (now : WithTop Nat) (keyOf "a" 0) = some 1) ∧
    ∃ t, run (step storedCounters overflowing) (start Leases.empty)
        [.check 0 "a" 0 true, .incr 0 0] = some t ∧
      (t.results (keyOf "a" 0)).map RateLimitResult.allowed = [false] := by
  refine ⟨?_, strayIncr_run, ?_, _, rfl, by decide +kernel⟩
  · obtain ⟨t, hr, -, -, hholder⟩ := lateCheck_run
    exact ⟨t, hr, rfl, hholder⟩
  · obtain ⟨t, hr, hlease⟩ := unreliable_run
    exact ⟨t, hr, fun now => Counters.holder_of_lease hlease (WithTop.coe_lt_top now)⟩

end RateLimiters

end Rinfra.RateLimit

import Mathlib.Algebra.Order.Ring.Int
import Mathlib.Tactic.Linarith
import Mathlib.Tactic.Positivity

/-!
# Signed arithmetic in 64 bits

A `Word` is what a computation in signed 64-bit integers comes to, and whether
one of its operations had a result that does not fit and was taken modulo
`2 ^ 64`. Where none had, the value is that of the integers.
-/

namespace Rinfra.Lib

structure Word where
  value : Int
  wrapped : Bool
  deriving DecidableEq, Repr

namespace Word

def Fits (n : Int) : Prop := -2 ^ 63 ≤ n ∧ n < 2 ^ 63

instance (n : Int) : Decidable (Fits n) := inferInstanceAs (Decidable (_ ∧ _))

/-- The number that the lowest 64 bits stand for. -/
def signed (n : Int) : Int := n.bmod (2 ^ 64)

def lit (n : Int) : Word := ⟨n, false⟩

def ofExact (exact : Int) (wrapped : Bool) : Word :=
  ⟨signed exact, wrapped || decide (signed exact ≠ exact)⟩

def add (x y : Word) : Word := ofExact (x.value + y.value) (x.wrapped || y.wrapped)

def mul (x y : Word) : Word := ofExact (x.value * y.value) (x.wrapped || y.wrapped)

/-- `1 << k`, where nothing is left of a bit that is shifted out. -/
def shl (k : Nat) : Word := ofExact (2 ^ k) false

/-- `1 << k`, where only the last six bits of `k` count. -/
def shlMasked (k : Nat) : Word :=
  let value := signed (2 ^ (k % 64))
  ⟨value, decide (value ≠ 2 ^ k)⟩

theorem fits_signed (n : Int) : Fits (signed n) := by
  simp only [Fits, signed, Int.bmod]
  omega

theorem signed_eq_iff (n : Int) : signed n = n ↔ Fits n := by
  simp only [Fits, signed, Int.bmod]
  omega

theorem ofExact_of_fits (h : Fits n) (w : Bool) : ofExact n w = ⟨n, w⟩ := by
  simp [ofExact, (signed_eq_iff n).mpr h]

theorem wrapped_ofExact : (ofExact n w).wrapped = false ↔ w = false ∧ Fits n := by
  simp [ofExact, signed_eq_iff]

theorem wrapped_add : (add x y).wrapped = false ↔
    (x.wrapped = false ∧ y.wrapped = false) ∧ Fits (x.value + y.value) := by
  simp [add, wrapped_ofExact]

theorem wrapped_mul : (mul x y).wrapped = false ↔
    (x.wrapped = false ∧ y.wrapped = false) ∧ Fits (x.value * y.value) := by
  simp [mul, wrapped_ofExact]

theorem two_pow_pos (k : Nat) : (0 : Int) < 2 ^ k := by positivity

theorem fits_two_pow (k : Nat) : Fits (2 ^ k) ↔ k < 63 := by
  have hlt : (2 : Int) ^ k < 2 ^ 63 ↔ k < 63 := pow_lt_pow_iff_right₀ (by decide)
  rw [Fits, hlt]
  refine and_iff_right ((two_pow_pos k).le.trans' ?_)
  decide

theorem shl_of_lt (h : k < 63) : shl k = ⟨2 ^ k, false⟩ :=
  ofExact_of_fits ((fits_two_pow k).mpr h) false

theorem wrapped_shl (k : Nat) : (shl k).wrapped = false ↔ k < 63 := by
  simp [shl, wrapped_ofExact, fits_two_pow]

theorem shlMasked_of_lt (h : k < 63) : shlMasked k = ⟨2 ^ k, false⟩ := by
  have hmod : k % 64 = k := Nat.mod_eq_of_lt (by omega)
  have hvalue := (signed_eq_iff (2 ^ k)).mpr ((fits_two_pow k).mpr h)
  simp [shlMasked, hmod, hvalue]

theorem wrapped_shlMasked (k : Nat) : (shlMasked k).wrapped = false ↔ k < 63 := by
  constructor
  · intro h
    have hvalue : signed (2 ^ (k % 64)) = 2 ^ k := by simpa [shlMasked] using h
    rw [← fits_two_pow, ← hvalue]
    exact fits_signed _
  · intro h
    rw [shlMasked_of_lt h]

/-- A number doubled `k` times, with either shift. -/
theorem wrapped_double {n : Int} {s : Word} (hn : 0 ≤ n) (hs : s.wrapped = false ↔ k < 63)
    (hvalue : k < 63 → s = ⟨2 ^ k, false⟩) :
    (mul (lit n) s).wrapped = false ↔ k < 63 ∧ n * 2 ^ k < 2 ^ 63 := by
  have hpos : 0 ≤ n * 2 ^ k := by positivity
  rw [wrapped_mul, hs]
  constructor
  · rintro ⟨⟨-, hlt⟩, -, hfits⟩
    rw [hvalue hlt] at hfits
    exact ⟨hlt, hfits⟩
  · rintro ⟨hlt, hfits⟩
    refine ⟨⟨rfl, hlt⟩, ?_⟩
    rw [hvalue hlt]
    exact ⟨by simp only [lit]; linarith, hfits⟩

theorem value_double {n : Int} {s : Word} (hn : 0 ≤ n) (hs : s = ⟨2 ^ k, false⟩)
    (hfits : n * 2 ^ k < 2 ^ 63) : mul (lit n) s = ⟨n * 2 ^ k, false⟩ := by
  have hpos : 0 ≤ n * 2 ^ k := by positivity
  rw [mul, hs]
  exact ofExact_of_fits ⟨by linarith, hfits⟩ _

theorem lt_of_double {n : Int} (hn : 0 < n) (hfits : n * 2 ^ k < 2 ^ 63) : k < 63 := by
  have hk := two_pow_pos k
  have hone : (2 : Int) ^ k ≤ n * 2 ^ k := by nlinarith
  exact (fits_two_pow k).mp ⟨by linarith, by linarith⟩

end Word

end Rinfra.Lib

import Mathlib.Algebra.Group.Nat.Defs
import Mathlib.Tactic.Ring

/-!
# Numbers in big-endian bytes

The bytes of a number that is too large for them are those of its residue.
-/

namespace Rinfra.Lib

def toBeBytes : (width : Nat) → Nat → List UInt8
  | 0, _ => []
  | width + 1, n => UInt8.ofNat (n / 256 ^ width) :: toBeBytes width n

def fromBeBytes (bytes : List UInt8) : Nat := bytes.foldl (fun acc b => acc * 256 + b.toNat) 0

@[simp] theorem length_toBeBytes (width n : Nat) : (toBeBytes width n).length = width := by
  induction width with
  | zero => rfl
  | succ width ih => simp [toBeBytes, ih]

theorem foldl_toBeBytes (width acc n : Nat) :
    (toBeBytes width n).foldl (fun acc b => acc * 256 + b.toNat) acc =
      acc * 256 ^ width + n % 256 ^ width := by
  induction width generalizing acc with
  | zero => simp [toBeBytes, Nat.mod_one]
  | succ width ih =>
    have hbyte : (UInt8.ofNat (n / 256 ^ width)).toNat = n / 256 ^ width % 256 :=
      UInt8.toNat_ofNat ..
    rw [toBeBytes, List.foldl_cons, ih, hbyte, Nat.mod_pow_succ, Nat.pow_succ]
    ring

theorem fromBeBytes_toBeBytes (width n : Nat) :
    fromBeBytes (toBeBytes width n) = n % 256 ^ width := by
  rw [fromBeBytes, foldl_toBeBytes, Nat.zero_mul, Nat.zero_add]

end Rinfra.Lib

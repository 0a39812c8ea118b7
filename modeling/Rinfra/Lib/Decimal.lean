import Mathlib.Algebra.Group.Nat.Defs

/-!
# Numbers written in decimal

The texts that `u64::from_str` and `f64::from_str` read, and the number each of
them stands for. A binary64 number is a mantissa and a power of two, rounded to
the nearest, and to the even one of two.
-/

namespace Rinfra.Lib

/-- A finite binary64 number. -/
structure F64 where
  negative : Bool
  mantissa : Nat
  exponent : Int
  deriving DecidableEq, Repr

def roundHalfEven (num den : Nat) : Nat :=
  let q := num / den
  let r := num % den
  if 2 * r < den then q
  else if den < 2 * r then q + 1
  else if q % 2 = 0 then q else q + 1

/-- The number nearest to `num / den`, unless it is beyond the largest one. -/
def F64.ofRatio (negative : Bool) (num den : Nat) : Option F64 :=
  if num = 0 then some ⟨negative, 0, -1074⟩
  else
    let scaled (e : Int) := (num * 2 ^ (-e).toNat, den * 2 ^ e.toNat)
    let guess := (num.log2 : Int) - den.log2 - 52
    -- the exponent that leaves 53 bits, or the least one
    let exact := if (scaled guess).1 / (scaled guess).2 < 2 ^ 52 then guess - 1 else guess
    let e := if exact < -1074 then -1074 else exact
    let m := roundHalfEven (scaled e).1 (scaled e).2
    let x : F64 := if m = 2 ^ 53 then ⟨negative, 2 ^ 52, e + 1⟩ else ⟨negative, m, e⟩
    if 971 < x.exponent then none else some x

def digitsValue (digits : List Char) : Nat :=
  digits.foldl (fun n c => 10 * n + (c.toNat - '0'.toNat)) 0

def parseU64 (text : List Char) : Option Nat :=
  let digits := match text with
    | '+' :: rest => rest
    | _ => text
  if digits ≠ [] ∧ digits.all Char.isDigit ∧ digitsValue digits < 2 ^ 64 then
    some (digitsValue digits)
  else none

def splitSign : List Char → Bool × List Char
  | '-' :: rest => (true, rest)
  | '+' :: rest => (false, rest)
  | text => (false, text)

/-- What follows the digits: nothing, or an exponent. -/
def parseExponent : List Char → Option Int
  | [] => some 0
  | c :: rest =>
    let (negative, digits) := splitSign rest
    if (c = 'e' ∨ c = 'E') ∧ digits ≠ [] ∧ digits.all Char.isDigit then
      some (if negative then -(digitsValue digits : Int) else digitsValue digits)
    else none

/-- `f64::from_str`, where the result is finite. -/
def parseF64 (text : List Char) : Option F64 :=
  let (negative, rest) := splitSign text
  let whole := rest.takeWhile Char.isDigit
  let (fraction, rest) := match rest.dropWhile Char.isDigit with
    | '.' :: rest => (rest.takeWhile Char.isDigit, rest.dropWhile Char.isDigit)
    | rest => ([], rest)
  if whole = [] ∧ fraction = [] then none
  else do
    let e := (← parseExponent rest) - fraction.length
    F64.ofRatio negative (digitsValue (whole ++ fraction) * 10 ^ e.toNat) (10 ^ (-e).toNat)

example : parseF64 "1.50".toList = some ⟨false, 3 * 2 ^ 51, -52⟩ := by decide +kernel

example : (parseF64 "1e308".toList).isSome ∧ parseF64 "1.8e308".toList = none := by
  decide +kernel

end Rinfra.Lib

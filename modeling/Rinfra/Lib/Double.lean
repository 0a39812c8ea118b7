import Rinfra.Lib.Decimal

/-!
# Binary64 numbers

The finite ones, the two infinities and NaN, of which there is one here. What
`f64::from_str` reads and what `as f64` gives.
-/

namespace Rinfra.Lib

inductive Double
  | finite (x : F64)
  | infinite (negative : Bool)
  | nan
  deriving DecidableEq, Repr

/-- The number nearest to `num / den`, or an infinity. -/
def Double.ofRatio (negative : Bool) (num den : Nat) : Double :=
  match F64.ofRatio negative num den with
  | some x => .finite x
  | none => .infinite negative

def Double.ofInt (n : Int) : Double := .ofRatio (n < 0) n.natAbs 1

def signBit (negative : Bool) : Nat := if negative then 2 ^ 63 else 0

/-- `f64::to_bits`; a mantissa of less than 53 bits is one of a subnormal number. -/
def F64.toBits (x : F64) : UInt64 :=
  .ofNat (signBit x.negative +
    if x.mantissa < 2 ^ 52 then x.mantissa
    else (x.exponent + 1075).toNat * 2 ^ 52 + (x.mantissa - 2 ^ 52))

def Double.toBits : Double → UInt64
  | finite x => x.toBits
  | infinite negative => .ofNat (signBit negative + 0x7FF0000000000000)
  | nan => 0x7FF8000000000000

example : (Double.ofInt (-3)).toBits = 0xC008000000000000 := by decide +kernel

def parseDouble (text : List Char) : Option Double :=
  let (negative, rest) := splitSign text
  let word := String.ofList (rest.map Char.toLower)
  if word = "inf" ∨ word = "infinity" then some (.infinite negative)
  else if word = "nan" then some .nan
  else
    let whole := rest.takeWhile Char.isDigit
    let (fraction, rest) := match rest.dropWhile Char.isDigit with
      | '.' :: rest => (rest.takeWhile Char.isDigit, rest.dropWhile Char.isDigit)
      | rest => ([], rest)
    if whole = [] ∧ fraction = [] then none
    else do
      let e := (← parseExponent rest) - fraction.length
      let num := digitsValue (whole ++ fraction) * 10 ^ e.toNat
      return .ofRatio negative num (10 ^ (-e).toNat)

example : parseDouble "1.8e308".toList = some (.infinite false) ∧
    parseDouble "-Inf".toList = some (.infinite true) := by
  decide +kernel

end Rinfra.Lib

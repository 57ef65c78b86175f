import Chronicle.Number.Power

/-!
# Binary floating point, 64 bits wide

A finite `Binary64` is a sign and a magnitude `mantissa * 2 ^ exponent` with the mantissa below
`2 ^ 53` and the exponent at least `-1074`. `ofRatio` rounds a quotient of natural numbers to the
nearest value, ties to the even mantissa, and goes to infinity beyond the largest; every operation
here is exact arithmetic on natural numbers followed by one such rounding.
-/

namespace Chronicle

/-- A value of the 64-bit binary format. -/
inductive Binary64
  /-- The value `± mantissa * 2 ^ exponent`. -/
  | finite (negative : Bool) (mantissa : Nat) (exponent : Int)
  | infinite (negative : Bool)
  | nan
  deriving DecidableEq

namespace Binary64

/-- The exponent of the least positive value. -/
def minExponent : Int := -1074

/-- Zero with a sign. -/
def zero (negative : Bool) : Binary64 := .finite negative 0 minExponent

/-- The number of bits of a natural number. -/
def bitLength (n : Nat) : Nat := if n = 0 then 0 else n.log2 + 1

/-- The quotient rounded to the nearest natural number, a half to the even one. -/
def roundHalfEven (num den : Nat) : Nat :=
  let q := num / den
  let r := num % den
  if 2 * r < den then q else if den < 2 * r then q + 1 else q + q % 2

/-- The value nearest to `num / den * 2 ^ shift`, with ties to the even mantissa. -/
def ofRatio (negative : Bool) (num den : Nat) (shift : Int) : Binary64 :=
  if num = 0 then zero negative
  else
    let rough : Int := (bitLength num : Int) - bitLength den + shift - 54
    let quotientBelow (e : Int) : Nat := (num * twoTo (shift - e).toNat) / (den * twoTo (e - shift).toNat)
    let start : Int := max rough minExponent
    let e : Int :=
      if quotientBelow start < twoTo 53 then start
      else if quotientBelow (start + 1) < twoTo 53 then start + 1 else start + 2
    let m := roundHalfEven (num * twoTo (shift - e).toNat) (den * twoTo (e - shift).toNat)
    let (m, e) := if m = twoTo 53 then (twoTo 52, e + 1) else (m, e)
    if e > 971 then .infinite negative else .finite negative m e

/-- The value nearest to a natural number. -/
def ofNat (n : Nat) : Binary64 := ofRatio false n 1 0

/-- The value nearest to `digits * 10 ^ exponent`. -/
def ofDecimal (negative : Bool) (digits : Nat) (exponent : Int) : Binary64 :=
  let magnitude : Int := (Nat.toDigits 10 digits).length + exponent
  if digits = 0 || magnitude < -400 then zero negative
  else if magnitude > 400 then .infinite negative
  else ofRatio negative (digits * tenTo exponent.toNat) (tenTo (-exponent).toNat) 0

/-- The product of two magnitudes, rounded once. -/
def times (x y : Binary64) : Binary64 :=
  match x, y with
  | .finite sx mx ex, .finite sy my ey => ofRatio (sx != sy) (mx * my) 1 (ex + ey)
  | _, _ => .nan

/-- The quotient of two magnitudes, rounded once. -/
def dividedBy (x y : Binary64) : Binary64 :=
  match x, y with
  | .finite sx mx ex, .finite sy my ey => if my = 0 then .nan else ofRatio (sx != sy) mx my (ex - ey)
  | _, _ => .nan

/-- The value with the other sign. -/
def negate : Binary64 → Binary64
  | .finite s m e => .finite (!s) m e
  | .infinite s => .infinite (!s)
  | .nan => .nan

/-- Neither infinite nor not a number. -/
def isFinite : Binary64 → Bool
  | .finite .. => true
  | _ => false

/-- Either zero. -/
def isZero : Binary64 → Bool
  | .finite _ m _ => m == 0
  | _ => false

end Binary64

end Chronicle

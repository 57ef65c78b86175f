import Chronicle.Number.Binary64

/-!
# Floating-point numbers as decimal text

`shortest` finds the fewest decimal digits that lie within the interval of numbers rounding to a
value, and of those with that many digits the nearest. `Layout` says how digits and a decimal
exponent are written out; the two layouts in use are `Layout.plain` and `Layout.json`.
-/

namespace Chronicle.Number

open Binary64

/-- Digits `d₁ d₂ … dₙ` with the point before the digit at `point`: the number `0.d₁d₂…dₙ * 10 ^ point`. -/
structure Digits where
  digits : Nat
  point : Int

/-- Twice the ends and the middle of the interval that rounds to a value, over one denominator. -/
structure Interval where
  low : Nat
  mid : Nat
  high : Nat
  den : Nat
  closed : Bool

/-- The interval of numbers that round to `mantissa * 2 ^ exponent`. -/
def Interval.around (mantissa : Nat) (exponent : Int) : Interval :=
  let up := twoTo exponent.toNat
  let den := 4 * twoTo (-exponent).toNat
  let lowGap := if mantissa = twoTo 52 ∧ exponent > minExponent then 1 else 2
  { low := (4 * mantissa - lowGap) * up, mid := 4 * mantissa * up, high := (4 * mantissa + 2) * up,
    den := den, closed := mantissa % 2 == 0 }

/-- Whether `num / den` lies in the interval. -/
def Interval.holds (i : Interval) (num den : Nat) : Bool :=
  if i.closed then i.low * den ≤ num * i.den && num * i.den ≤ i.high * den
  else i.low * den < num * i.den && num * i.den < i.high * den

/-- The multiple of `10 ^ k` inside the interval that is nearest to its middle, among the two
multiples beside the middle. -/
def Interval.onGrid (i : Interval) (k : Int) : Option Nat :=
  let unit := tenTo k.toNat
  let parts := tenTo (-k).toNat
  let below := i.mid * parts / (i.den * unit)
  let rest := i.mid * parts % (i.den * unit)
  let lowIn := 0 < below && i.holds (below * unit) parts
  let highIn := i.holds ((below + 1) * unit) parts
  if lowIn && highIn then
    if 2 * rest < i.den * unit then some below
    else if i.den * unit < 2 * rest then some (below + 1)
    else some (below + below % 2)
  else if lowIn then some below
  else if highIn then some (below + 1)
  else none

/-- The first grid, from coarse to fine, with a point in the interval. -/
def Interval.firstGrid (i : Interval) : Nat → Int → Option (Nat × Int)
  | 0, _ => none
  | steps + 1, k =>
    match i.onGrid k with
    | some d => some (d, k)
    | none => firstGrid i steps (k - 1)

/-- The digits of a number without zeros at its end, and how many zeros there were. -/
def dropZeros : Nat → Nat → Nat × Nat
  | 0, n => (n, 0)
  | fuel + 1, n =>
    if n % 10 = 0 && 0 < n then
      let (m, zeros) := dropZeros fuel (n / 10)
      (m, zeros + 1)
    else (n, 0)

/-- The fewest digits that read back as the magnitude, nearest to it. -/
def shortest (mantissa : Nat) (exponent : Int) : Digits :=
  let i := Interval.around mantissa exponent
  let bits : Int := bitLength mantissa + exponent
  -- A power of ten above the value: `2 ^ bits ≤ 10 ^ top`.
  let top : Int := if 0 ≤ bits then bits * 30103 / 100000 + 1 else -((-bits) * 30103 / 100000) + 1
  match i.firstGrid 25 top with
  | some (d, k) =>
    let (d, zeros) := dropZeros 20 d
    { digits := d, point := (Nat.toDigits 10 d).length + k + zeros }
  | none => { digits := 0, point := 0 }

/-- How a floating-point number is written. -/
structure Layout where
  /-- The least and greatest place of the point for which no exponent is written. -/
  leastPoint : Int
  greatestPoint : Int
  /-- What stands between the digits and an exponent that is not negative. -/
  exponentMark : String
  nan : String
  infinity : String

/-- The digits of a natural number. -/
def digitText (n : Nat) : List Char := Nat.toDigits 10 n

/-- Digits with the point among, before or after them. -/
def positional (d : Digits) : List Char :=
  let ds := digitText d.digits
  if d.point ≤ 0 then '0' :: '.' :: List.replicate (-d.point).toNat '0' ++ ds
  else
    let whole := d.point.toNat
    if ds.length ≤ whole then ds ++ List.replicate (whole - ds.length) '0' ++ ['.', '0']
    else ds.take whole ++ '.' :: ds.drop whole

/-- Digits with the point after the first and a power of ten. -/
def scientific (mark : String) (d : Digits) : List Char :=
  let e := d.point - 1
  let head :=
    match digitText d.digits with
    | first :: second :: more => first :: '.' :: second :: more
    | short => short
  let tail := if e < 0 then 'e' :: '-' :: digitText (-e).toNat else mark.toList ++ digitText e.toNat
  head ++ tail

/-- The text of a floating-point number in a layout. -/
def Layout.write (l : Layout) : Binary64 → String
  | .nan => l.nan
  | .infinite negative => (if negative then "-" else "") ++ l.infinity
  | .finite negative m e =>
    let sign := if negative then "-" else ""
    if m = 0 then sign ++ "0.0"
    else
      let d := shortest m e
      let body :=
        if l.leastPoint ≤ d.point ∧ d.point ≤ l.greatestPoint then positional d
        else scientific l.exponentMark d
      sign ++ String.ofList body

/-- Numbers kept as text: positional from `1e-4` up to, not including, `1e16`. -/
def Layout.plain : Layout := ⟨-3, 16, "e", "NaN", "inf"⟩

/-- Numbers inside a JSON value: positional from `1e-5` up to `1e16`, exponents with their sign; a
number that is not finite is null. -/
def Layout.json : Layout := ⟨-4, 16, "e+", "null", "null"⟩

end Chronicle.Number

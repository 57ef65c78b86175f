import Chronicle.Number.Binary64

/-!
# Reading numerals

`natural?` reads the digits of a natural number in a base, `integer?` an integer with a sign, and
`decimal?` a decimal fraction with an optional power of ten, as the nearest floating-point number.
-/

namespace Chronicle.Numeral

/-- The value of a digit. -/
def digitValue (c : Char) : Option Nat :=
  if '0' ≤ c && c ≤ '9' then some (c.toNat - '0'.toNat)
  else if 'a' ≤ c && c ≤ 'z' then some (c.toNat - 'a'.toNat + 10)
  else if 'A' ≤ c && c ≤ 'Z' then some (c.toNat - 'A'.toNat + 10)
  else none

/-- The value of more digits behind a number. -/
def extend (base : Nat) : Nat → List Char → Option Nat
  | n, [] => some n
  | n, c :: rest => do
    let d ← digitValue c
    if d < base then extend base (n * base + d) rest else none

/-- The natural number that a row of digits stands for; there is at least one. -/
def natural? (base : Nat) (cs : List Char) : Option Nat := if cs.isEmpty then none else extend base 0 cs

/-- The sign at the head of a numeral, and what follows it. -/
def signed : List Char → Bool × List Char
  | '-' :: rest => (true, rest)
  | '+' :: rest => (false, rest)
  | cs => (false, cs)

/-- The integer that digits with an optional sign stand for. -/
def integer? (base : Nat) (cs : List Char) : Option Int :=
  let (negative, digits) := signed cs
  (natural? base digits).map fun n => if negative then -(n : Int) else n

/-- The power of ten that the end of a numeral stands for. -/
def power? : List Char → Option Int
  | [] => some 0
  | c :: rest => if c == 'e' || c == 'E' then integer? 10 rest else none

/-- The number nearest to a decimal fraction with an optional power of ten. There is a digit before or
after the point. -/
def decimal? (cs : List Char) : Option Binary64 :=
  let (negative, body) := signed cs
  let whole := body.takeWhile Char.isDigit
  let after := body.dropWhile Char.isDigit
  let behind := match after with | '.' :: rest => rest | _ => []
  let part := behind.takeWhile Char.isDigit
  let tail := match after with | '.' :: _ => behind.dropWhile Char.isDigit | _ => after
  match natural? 10 (whole ++ part), power? tail with
  | some n, some e => some (.ofDecimal negative n (e - part.length))
  | _, _ => none

end Chronicle.Numeral

import Chronicle.Document.Basic
import Chronicle.Document.Toml.Lexical

/-!
# Numbers and times in TOML

Integers of 64 bits in four bases, floating-point numbers, and dates and times, which are kept as the
text of their normal form.
-/

namespace Chronicle.Toml

/-! ## Numbers -/

/-- Reads digits, with single underscores between them, behind a digit. -/
def readMoreDigits (isDigit : Char → Bool) : Reads (List Char)
  | [] => some ([], [])
  | '_' :: d :: rest =>
    if isDigit d then (readMoreDigits isDigit rest).map fun (ds, rest) => (d :: ds, rest) else none
  | ['_'] => none
  | c :: rest =>
    if isDigit c then (readMoreDigits isDigit rest).map fun (ds, rest) => (c :: ds, rest)
    else some ([], c :: rest)

/-- Reads digits with single underscores between them. -/
def readDigits (isDigit : Char → Bool) : Reads (List Char)
  | [] => none
  | c :: rest =>
    if isDigit c then (readMoreDigits isDigit rest).map fun (ds, rest) => (c :: ds, rest) else none

/-- Reads the digits of a whole number: a zero stands alone. -/
def readWhole : Reads (List Char)
  | '0' :: rest => some (['0'], rest)
  | cs => readDigits Char.isDigit cs

/-- Whether a character is a digit in a base. -/
def isDigitIn (base : Nat) (c : Char) : Bool := ((Numeral.digitValue c).map fun d => decide (d < base)).getD false

/-- The integer, if it has 64 bits. -/
def word? (n : Int) : Option Document := if -(twoTo 63 : Int) ≤ n && n < twoTo 63 then some (.int n) else none

/-- Reads an integer in a base behind its mark. -/
def readBased (base : Nat) : Reads Document := fun cs => do
  let (ds, rest) ← readDigits (isDigitIn base) cs
  let n ← Numeral.natural? base ds
  return (← word? n, rest)

/-- Reads the sign of an exponent and its digits. -/
def readExponent : Reads (List Char) := fun cs => do
  let (sign, cs) :=
    match cs with
    | '-' :: rest => (['-'], rest)
    | '+' :: rest => ([], rest)
    | _ => ([], cs)
  let (ds, rest) ← readDigits Char.isDigit cs
  return (sign ++ ds, rest)

/-- Reads what makes a whole number a floating-point number. -/
def readFraction : Reads (List Char)
  | '.' :: rest => do
    let (ds, rest) ← readDigits Char.isDigit rest
    match rest with
    | 'e' :: after | 'E' :: after =>
      let (e, rest) ← readExponent after
      return ('.' :: ds ++ 'e' :: e, rest)
    | _ => return ('.' :: ds, rest)
  | 'e' :: rest | 'E' :: rest => do
    let (e, rest) ← readExponent rest
    return ('e' :: e, rest)
  | cs => some ([], cs)

/-- Reads a decimal number. A positive one must not be too large for a floating-point number. -/
def readDecimal : Reads Document := fun cs => do
  let (negative, body) := Numeral.signed cs
  match body with
  | 'i' :: 'n' :: 'f' :: rest => return (.float (.infinite negative), rest)
  | 'n' :: 'a' :: 'n' :: rest => return (.float .nan, rest)
  | _ =>
    let (whole, rest) ← readWhole body
    let (fraction, rest) ← readFraction rest
    let sign := if negative then ['-'] else []
    if fraction.isEmpty then
      let n ← Numeral.integer? 10 (sign ++ whole)
      return (← word? n, rest)
    else
      let x ← Numeral.decimal? (sign ++ whole ++ fraction)
      if x = .infinite false then none
      return (.float x, rest)

/-- Reads a number. -/
def readNumber : Reads Document
  | '0' :: 'x' :: rest => readBased 16 rest
  | '0' :: 'o' :: rest => readBased 8 rest
  | '0' :: 'b' :: rest => readBased 2 rest
  | cs => readDecimal cs

/-! ## Dates and times -/

/-- Reads a number of a fixed count of digits within bounds. -/
def readField (length least greatest : Nat) : Reads Nat := fun cs => do
  let ds := cs.take length
  if ds.length < length || !ds.all Char.isDigit then none
  let n ← Numeral.natural? 10 ds
  if n < least || greatest < n then none
  return (n, cs.drop length)

/-- Passes a character. -/
def expect (c : Char) : List Char → Option (List Char)
  | x :: rest => if x == c then some rest else none
  | [] => none

/-- Whether a year has a day more. -/
def isLeap (year : Nat) : Bool := year % 4 == 0 && (year % 100 != 0 || year % 400 == 0)

/-- The number of days of a month. -/
def daysOf (year month : Nat) : Nat :=
  if month = 2 then (if isLeap year then 29 else 28)
  else if [4, 6, 9, 11].contains month then 30
  else 31

/-- A number with zeros before it. -/
def padded (width n : Nat) : List Char :=
  let ds := Nat.toDigits 10 n
  List.replicate (width - ds.length) '0' ++ ds

/-- Reads a date. -/
def readDate : Reads (List Char) := fun cs => do
  let (year, cs) ← readField 4 0 9999 cs
  let (month, cs) ← readField 2 1 12 (← expect '-' cs)
  let (day, cs) ← readField 2 1 (daysOf year month) (← expect '-' cs)
  return (padded 4 year ++ '-' :: padded 2 month ++ '-' :: padded 2 day, cs)

/-- How many digits of a part of a second count. -/
def secondDigits : Nat := 9

/-- A part of a second without zeros at its end. -/
def partOfSecond (ds : List Char) : List Char :=
  let kept := ((ds.take secondDigits).reverse.dropWhile (· == '0')).reverse
  if kept.isEmpty then [] else '.' :: kept

/-- Reads a time of day. -/
def readTime : Reads (List Char) := fun cs => do
  let (hour, cs) ← readField 2 0 23 cs
  let (minute, cs) ← readField 2 0 59 (← expect ':' cs)
  let (second, cs) ← readField 2 0 60 (← expect ':' cs)
  let time := padded 2 hour ++ ':' :: padded 2 minute ++ ':' :: padded 2 second
  match cs with
  | '.' :: d :: rest =>
    if d.isDigit then
      let ds := (d :: rest).takeWhile Char.isDigit
      return (time ++ partOfSecond ds, (d :: rest).dropWhile Char.isDigit)
    else return (time, cs)
  | _ => return (time, cs)

/-- Reads how far a time is from that of Greenwich, if it says so. -/
def readOffset : Reads (List Char)
  | 'Z' :: rest | 'z' :: rest => some (['Z'], rest)
  | c :: rest =>
    if c == '+' || c == '-' then do
      let (hour, rest) ← readField 2 0 23 rest
      let (minute, rest) ← readField 2 0 59 (← expect ':' rest)
      let sign := if hour = 0 && minute = 0 then '+' else c
      return (sign :: padded 2 hour ++ ':' :: padded 2 minute, rest)
    else some ([], c :: rest)
  | [] => some ([], [])

/-- Whether a text begins with digits and a mark behind them. -/
def beginsLike (digits : Nat) (mark : Char) (cs : List Char) : Bool :=
  (cs.take digits).length == digits && (cs.take digits).all Char.isDigit && cs[digits]? == some mark

/-- The key under which a date or a time stands in a document. -/
def timeKey : String := "$__toml_private_datetime"

/-- A date or a time as a document. -/
def timeDocument (text : List Char) : Document := .record [(timeKey, .text (String.ofList text))]

/-- Reads a date, with a time behind it if there is one. -/
def readDateTime : Reads Document := fun cs => do
  let (date, rest) ← readDate cs
  let time :=
    match rest with
    | c :: after => if c == 'T' || c == 't' || c == ' ' then some after else none
    | [] => none
  match time with
  | some after =>
    if beginsLike 2 ':' after then
      let (time, rest) ← readTime after
      let (offset, rest) ← readOffset rest
      return (timeDocument (date ++ 'T' :: time ++ offset), rest)
    else return (timeDocument date, rest)
  | none => return (timeDocument date, rest)

/-- Reads a date, a time or a number. -/
def readFigure : Reads Document := fun cs =>
  if beginsLike 4 '-' cs then readDateTime cs
  else if beginsLike 2 ':' cs then (readTime cs).map fun (time, rest) => (timeDocument time, rest)
  else readNumber cs

end Chronicle.Toml

/-!
# Wildcards

Patterns with `*`, `?`, `[a-z]` and `**`. In a pattern for whole paths a star and a question mark stand
for no slash, and two stars between slashes stand for any number of directories.
-/

namespace Chronicle.Wildcard

/-- A character of a class such as `[:digit:]`. -/
def inNamedClass (name : List Char) (c : Char) : Bool :=
  match String.ofList name with
  | "alnum" => c.isAlphanum
  | "alpha" => c.isAlpha
  | "blank" => c == ' ' || c == '\t'
  | "cntrl" => c.toNat < 32 || c.toNat = 127
  | "digit" => c.isDigit
  | "graph" => 32 < c.toNat && c.toNat < 127
  | "lower" => c.isLower
  | "print" => 32 ≤ c.toNat && c.toNat < 127
  | "punct" => 32 < c.toNat && c.toNat < 127 && !c.isAlphanum
  | "space" => c == ' ' || (9 ≤ c.toNat && c.toNat ≤ 13)
  | "upper" => c.isUpper
  | "xdigit" => c.isDigit || ('a' ≤ c && c ≤ 'f') || ('A' ≤ c && c ≤ 'F')
  | _ => false

/-- Whether `c` is in the class that a pattern goes on with, and what follows the class; none if the
class has no end. The first character belongs to the class even if it is a bracket. -/
def classAt (c : Char) : Nat → Bool → Bool → List Char → Option (Bool × List Char)
  | fuel + 1, isFirst, found, p =>
    match p with
    | [] => none
    | ']' :: rest => if isFirst then classAt c fuel false (found || c == ']') rest else some (found, rest)
    | '[' :: ':' :: rest =>
      match rest.dropWhile (· != ']') with
      | [] => none
      | _ :: after =>
        let name := rest.takeWhile (· != ']')
        if name.getLast? == some ':' then
          classAt c fuel false (found || inNamedClass name.dropLast c) after
        else classAt c fuel false (found || c == '[') (':' :: rest)
    | '\\' :: x :: '-' :: y :: rest =>
      if y != ']' then classAt c fuel false (found || (x ≤ c && c ≤ y)) rest
      else classAt c fuel false (found || c == x) ('-' :: y :: rest)
    | '\\' :: x :: rest => classAt c fuel false (found || c == x) rest
    | x :: '-' :: y :: rest =>
      if y != ']' then classAt c fuel false (found || (x ≤ c && c ≤ y)) rest
      else classAt c fuel false (found || c == x) ('-' :: y :: rest)
    | x :: rest => classAt c fuel false (found || c == x) rest
  | 0, _, _, _ => none

/-- Whether some tail of a text that is reached without passing a character that `stop` holds of is
accepted. -/
def someTail (stop : Char → Bool) (accept : List Char → Bool) : List Char → Bool
  | [] => accept []
  | c :: rest => accept (c :: rest) || (!stop c && someTail stop accept rest)

/-- Matches what is left of a pattern with what is left of a text. `whole` says that the pattern is for
whole paths and `atStart` that a segment of it begins here; `fuel` is as long as what is left of the
pattern. -/
def matchFrom (whole : Bool) : Nat → Bool → List Char → List Char → Bool
  | _, _, [], text => text.isEmpty
  | fuel + 1, atStart, p :: rest, text =>
    let slash (c : Char) := whole && c == '/'
    match p with
    | '*' =>
      let after := rest.dropWhile (· == '*')
      let many := !rest.isEmpty && rest.head? == some '*'
      let dirs := many && atStart && (after.isEmpty || after.head? == some '/')
      let stop (c : Char) := slash c && !dirs
      if after.isEmpty then !text.any stop
      else
        (dirs && matchFrom whole fuel true (after.drop 1) text) ||
          someTail stop (matchFrom whole fuel false after) text
    | '?' =>
      match text with
      | c :: more => !slash c && matchFrom whole fuel false rest more
      | [] => false
    | '[' =>
      match text with
      | [] => false
      | c :: more =>
        let negated := rest.head? == some '!' || rest.head? == some '^'
        match classAt c (rest.length + 1) true false (if negated then rest.drop 1 else rest) with
        | none => false
        | some (found, after) => found != negated && !slash c && matchFrom whole fuel false after more
    | '\\' =>
      match rest, text with
      | x :: rest, c :: more => x == c && matchFrom whole fuel (x == '/') rest more
      | _, _ => false
    | x =>
      match text with
      | c :: more => x == c && matchFrom whole fuel (x == '/') rest more
      | [] => false
  | 0, _, _, _ => false

/-- Whether a text fits a pattern. -/
def fits (whole : Bool) (pattern text : List Char) : Bool :=
  matchFrom whole pattern.length true pattern text

end Chronicle.Wildcard

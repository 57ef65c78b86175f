import Chronicle.Event.Kind
import Chronicle.Text.Blank

/-!
# Lines of shorthand

A line of shorthand is a keyword, alone or followed by a blank and an argument. `ShorthandLine.read`
recognises one; blanks around the line and around the argument do not count.
-/

namespace Chronicle

open Text

/-- A line of shorthand, split into its kind and its argument. -/
structure ShorthandLine where
  kind : EventKind
  arg : String
  deriving DecidableEq

namespace ShorthandLine

/-- What follows `word` in `line`, if `line` is `word` alone or goes on with a blank after it. -/
def afterWord (word line : List Char) : Option (List Char) :=
  if word.isPrefixOf line then
    match line.drop word.length with
    | [] => some []
    | c :: rest => if blank c then some (c :: rest) else none
  else none

/-- The line read as one of kind `kind`. -/
def readAs (kind : EventKind) (line : List Char) : Option ShorthandLine :=
  if kind.shorthand = .none then none
  else (afterWord kind.keyword.toList line).map fun rest => ⟨kind, String.ofList (trimChars rest)⟩

/-- The line of shorthand that a text holds, if any. -/
def read (text : String) : Option ShorthandLine :=
  EventKind.precedence.findSome? (readAs · (trimChars text.toList))

end ShorthandLine

end Chronicle

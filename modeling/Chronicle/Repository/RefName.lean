import Chronicle.Path

/-!
# Names of references

The full name of a reference is a path with rules of its own. `normal?` gives the name that a text
stands for, empty segments left out, and `isValid` says that a text is such a name as it is.
-/

namespace Chronicle.RefName

/-- What branches are kept under. -/
def branches : String := "refs/heads/"

/-- What tags are kept under. -/
def tags : String := "refs/tags/"

/-- Whether a character may stand in a name. -/
def isAllowed (c : Char) : Bool := ' ' < c && !(['~', '^', ':', '\\', '?', '[', '*'].contains c)

/-- Whether two characters stand next to each other somewhere. -/
def hasPair (a b : Char) : List Char → Bool
  | x :: y :: rest => (x == a && y == b) || hasPair a b (y :: rest)
  | _ => false

/-- Whether a segment of a name is well formed; an empty one is not looked at. -/
def segmentOk (s : String) : Bool :=
  let cs := s.toList
  cs.all isAllowed && cs.head? != some '.' && !hasPair '.' '.' cs && !hasPair '@' '\x7b' cs
    && !(".lock".toList.reverse.isPrefixOf cs.reverse)

/-- Whether a text is made of capital letters and underscores. -/
def isCapitals (s : String) : Bool := !s.isEmpty && s.toList.all fun c => c.isUpper || c == '_'

/-- The name that a text stands for. A name of one segment is written in capitals, and no other name
begins with such a segment. -/
def normal? (text : String) : Option String :=
  let all := segments text
  let named := all.filter (· != "")
  if text.startsWith "/" || text.endsWith "/" || text.endsWith "." || !all.all segmentOk then none
  else
    match named with
    | [] => none
    | [s] => if isCapitals s then some s else none
    | s :: _ => if isCapitals s then none else some ("/".intercalate named)

/-- Whether a text is the name of a reference as it stands. -/
def isValid (text : String) : Bool := normal? text == some text

/-- The name of what `short` stands for among `group`; slashes before it are not looked at. -/
def within? (group short : String) : Option String :=
  normal? (group ++ String.ofList (short.toList.dropWhile (· == '/')))

/-- A name without the group it is in. -/
def without? (group name : String) : Option String :=
  if group.toList.isPrefixOf name.toList then some (String.ofList (name.toList.drop group.length)) else none

/-- What a reference is called where there can be no doubt about its group. -/
def short (name : String) : String :=
  match without? branches name with
  | some s => s
  | none =>
    match without? tags name with
    | some s => s
    | none => (without? "refs/" name).getD name

/-- Whether one of the names would have to be a file and a directory. -/
def above (a b : String) : Bool := Path.above (segments a) (segments b)

/-- The length that a segment may have, in bytes: a suffix is added while it is written. -/
def longestSegment : Nat := 250

/-- Whether a segment of a name is too long to be written. -/
def tooLong (name : String) : Bool := (segments name).any fun s => longestSegment < s.utf8ByteSize

end Chronicle.RefName

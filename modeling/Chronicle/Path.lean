/-!
# Paths

A path is the list of its names, outermost first; the empty path is the place that paths start from.
`segments` splits a text at its slashes, `normal` reads a text as a path, and `render` writes one;
`components` keeps what `normal` passes over. Paths are ordered as their texts are.
-/

namespace Chronicle

/-- The names from the starting place down. -/
abbrev Path := List String

/-- The pieces of a text between its slashes; there is always one. -/
def pieces : List Char → List (List Char)
  | [] => [[]]
  | '/' :: rest => [] :: pieces rest
  | c :: rest =>
    match pieces rest with
    | [] => [[c]]
    | piece :: others => (c :: piece) :: others

/-- The pieces of a text between its slashes, empty ones and dots included. -/
def segments (text : String) : List String := (pieces text.toList).map String.ofList

/-- The path that a text names: empty segments and single dots lead nowhere. -/
def Path.normal (text : String) : Path := (segments text).filter fun s => s != "" && s != "."

/-- Whether a text is a path from the root and not from where one is. -/
def Path.isAbsolute (text : String) : Bool := text.startsWith "/"

/-- A step of the way that a text describes. -/
inductive Path.Component
  /-- To the root, with a slash in front. -/
  | root
  /-- Nowhere, with a dot in front. -/
  | current
  /-- Back, with two dots. -/
  | parent
  | name (s : String)
  deriving DecidableEq

/-- The step that a segment stands for, wherever in a text it is. -/
def Path.Component.ofSegment? : String → Option Component
  | "" | "." => none
  | ".." => some .parent
  | s => some (.name s)

/-- The steps that a text describes. A dot counts in front only, and only where there is no slash before it. -/
def Path.components (text : String) : List Component :=
  (if isAbsolute text then [.root]
    else if (segments text).head? == some "." then [.current]
    else [])
  ++ (segments text).filterMap Component.ofSegment?

/-- Where the names of a path lead; two dots lead back. -/
def Path.settled (p : Path) : Path := p.foldl (fun here s => if s == ".." then here.dropLast else here ++ [s]) []

/-- A path as text. -/
def Path.render (p : Path) : String := "/".intercalate p

/-- The order of paths is the order of their texts. -/
def Path.le (p q : Path) : Bool := !decide (q.render < p.render)

/-- Whether `q` lies below `p` and is not `p` itself. -/
def Path.above (p q : Path) : Bool := p.isPrefixOf q && p.length < q.length

/-- The places strictly between the start and a path, outermost first. -/
def Path.parents : Path → List Path
  | [] => []
  | [_] => []
  | s :: rest => [s] :: (Path.parents rest).map (s :: ·)

/-- Paths in order, each once. -/
def Path.sorted (ps : List Path) : List Path := ps.eraseDups.mergeSort Path.le

end Chronicle

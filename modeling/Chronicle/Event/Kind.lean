/-!
# Kinds of event

The ten kinds an entry of an event log can have, the keyword each is written with, and the two forms
an entry may take: a line of shorthand (`Shorthand`) and a record under the keyword (`keyed`).
-/

namespace Chronicle

/-- The kind of an event. -/
inductive EventKind
  | init
  | commit
  | branch
  | checkout
  | merge
  | tag
  | createFile
  | changeContent
  | add
  | appendContent
  deriving DecidableEq

/-- How a kind is written as one line of text. -/
inductive Shorthand
  /-- There is no such line. -/
  | none
  /-- The keyword alone. -/
  | bare
  /-- The keyword and an argument. -/
  | withArg
  deriving DecidableEq

namespace EventKind

/-- Every kind, in the order in which a line of shorthand is tried. -/
def precedence : List EventKind :=
  [init, commit, branch, checkout, merge, tag, createFile, changeContent, add, appendContent]

/-- The word that opens a line of shorthand and keys a record. -/
def keyword : EventKind → String
  | init => "init"
  | commit => "commit"
  | branch => "branch"
  | checkout => "checkout"
  | merge => "merge"
  | tag => "tag"
  | createFile => "create file"
  | changeContent => "change content"
  | add => "add"
  | appendContent => "append content"

/-- The shorthand form of a kind. -/
def shorthand : EventKind → Shorthand
  | init | commit | add => .bare
  | branch | checkout | merge | tag | createFile => .withArg
  | changeContent | appendContent => .none

/-- The kinds that may be written as a record under their keyword. -/
def keyed : EventKind → Bool
  | branch | checkout => false
  | _ => true

/-- The kind with a given keyword. -/
def ofKeyword? (word : String) : Option EventKind := precedence.find? (·.keyword == word)

theorem mem_precedence (k : EventKind) : k ∈ precedence := by cases k <;> decide

end EventKind

end Chronicle

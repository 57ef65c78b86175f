import Chronicle.Event.Basic

/-!
# The fields of keyed events

Which fields the record of each kind has, in the order they are declared, and how a keyed event is put
together from what its fields hold (`KeyedEvent.ofSlots`) and taken apart (`KeyedEvent.toDocument`).
-/

namespace Chronicle

/-- What a field may hold. -/
inductive FieldType
  /-- A text, or nothing. -/
  | text
  /-- A truth value. -/
  | flag
  deriving DecidableEq

/-- A field of a record. -/
structure Field where
  name : String
  type : FieldType := .text
  /-- A second name for the field. -/
  otherName : Option String := none
  deriving DecidableEq

/-- Whether a key names the field. -/
def Field.answersTo (f : Field) (key : String) : Bool := f.name == key || f.otherName == some key

/-- The names of a field. -/
def Field.names (f : Field) : List String := f.name :: f.otherName.toList

namespace EventKind

/-- The author of a commit or a merge, which may also be called its name. -/
def authorField : Field where
  name := "author"
  otherName := some "name"

/-- The fields of the record of a kind, in the order they are declared. -/
def fields : EventKind → List Field
  | init => [⟨"defaultBranch", .text, none⟩]
  | commit => [⟨"message", .text, none⟩, authorField, ⟨"email", .text, none⟩]
  | merge => [⟨"theirs", .text, none⟩, ⟨"message", .text, none⟩, authorField, ⟨"email", .text, none⟩]
  | tag =>
    [⟨"name", .text, none⟩, ⟨"annotated", .flag, none⟩, ⟨"message", .text, none⟩,
      ⟨"author", .text, none⟩, ⟨"email", .text, none⟩]
  | createFile | changeContent => [⟨"file", .text, none⟩, ⟨"content", .text, none⟩]
  | add => [⟨"file", .text, none⟩, ⟨"all", .flag, none⟩]
  | appendContent => [⟨"file", .text, none⟩, ⟨"content", .text, none⟩, ⟨"newLine", .flag, none⟩]
  | branch | checkout => []

/-- The kinds with a record form, in the order in which a number may stand for one. -/
def keyedKinds : List EventKind :=
  [init, commit, merge, tag, createFile, changeContent, add, appendContent]

end EventKind

/-- What one field was found to hold. -/
inductive Datum
  | text (value : Option String)
  | flag (value : Bool)
  deriving DecidableEq

/-- What the fields of a record hold, in the order they are declared; a field that was not given
holds nothing. -/
abbrev Slots := List (Option Datum)

namespace Slots

/-- The text in the field at a place. -/
def text (slots : Slots) (place : Nat) : Option String :=
  match slots[place]? with
  | some (some (.text value)) => value
  | _ => none

/-- The truth value in the field at a place. -/
def flag (slots : Slots) (place : Nat) : Bool :=
  match slots[place]? with
  | some (some (.flag value)) => value
  | _ => false

end Slots

namespace KeyedEvent

/-- The keyed event of a kind whose fields hold `slots`. -/
def ofSlots? (kind : EventKind) (slots : Slots) : Option KeyedEvent :=
  match kind with
  | .init => some (init ⟨slots.text 0⟩)
  | .commit => some (commit ⟨slots.text 0, slots.text 1, slots.text 2⟩)
  | .merge => some (merge ⟨slots.text 0, slots.text 1, slots.text 2, slots.text 3⟩)
  | .tag => some (tag ⟨slots.text 0, slots.flag 1, slots.text 2, slots.text 3, slots.text 4⟩)
  | .createFile => some (createFile ⟨slots.text 0, slots.text 1⟩)
  | .changeContent => some (changeContent ⟨slots.text 0, slots.text 1⟩)
  | .add => some (add ⟨slots.text 0, slots.flag 1⟩)
  | .appendContent => some (appendContent ⟨slots.text 0, slots.text 1, slots.flag 2⟩)
  | .branch | .checkout => none

open Document in
/-- The fields of a keyed event; texts that are not given are left out. -/
def toFields : KeyedEvent → List (String × Document)
  | init b => textField "defaultBranch" b.defaultBranch
  | commit b => textField "message" b.message ++ textField "author" b.author ++ textField "email" b.email
  | merge b =>
    textField "theirs" b.theirs ++ textField "message" b.message ++ textField "author" b.author
      ++ textField "email" b.email
  | tag b =>
    textField "name" b.name ++ [("annotated", .bool b.annotated)] ++ textField "message" b.message
      ++ textField "author" b.author ++ textField "email" b.email
  | createFile b | changeContent b => textField "file" b.file ++ textField "content" b.content
  | add b => textField "file" b.file ++ [("all", .bool b.all)]
  | appendContent b =>
    textField "file" b.file ++ textField "content" b.content ++ [("newLine", .bool b.newLine)]

/-- A keyed event as a document. -/
def toDocument (e : KeyedEvent) : Document :=
  .record [(e.kind.keyword, .record e.toFields)]

end KeyedEvent

end Chronicle

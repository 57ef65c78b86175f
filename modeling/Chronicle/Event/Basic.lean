import Chronicle.Document.Basic
import Chronicle.Event.Kind

/-!
# Events

An entry of an event log is a line of shorthand, a keyed event (a record under the keyword of its
kind), or a document that is neither. The records leave open whatever the log may leave out.
-/

namespace Chronicle

/-- What a log says about an `init` event. -/
structure InitBody where
  defaultBranch : Option String := none
  deriving DecidableEq

/-- What a log says about a `commit` event. -/
structure CommitBody where
  message : Option String := none
  author : Option String := none
  email : Option String := none
  deriving DecidableEq

/-- What a log says about a `merge` event. -/
structure MergeBody where
  theirs : Option String := none
  message : Option String := none
  author : Option String := none
  email : Option String := none
  deriving DecidableEq

/-- What a log says about a `tag` event. -/
structure TagBody where
  name : Option String := none
  annotated : Bool := false
  message : Option String := none
  author : Option String := none
  email : Option String := none
  deriving DecidableEq

/-- What a log says about a file and the text to write into it. -/
structure FileBody where
  file : Option String := none
  content : Option String := none
  deriving DecidableEq

/-- What a log says about an `add` event. -/
structure AddBody where
  file : Option String := none
  all : Bool := false
  deriving DecidableEq

/-- What a log says about an `append content` event. -/
structure AppendBody where
  file : Option String := none
  content : Option String := none
  newLine : Bool := false
  deriving DecidableEq

/-- A record under the keyword of its kind. -/
inductive KeyedEvent
  | init (body : InitBody)
  | commit (body : CommitBody)
  | merge (body : MergeBody)
  | tag (body : TagBody)
  | createFile (body : FileBody)
  | changeContent (body : FileBody)
  | add (body : AddBody)
  | appendContent (body : AppendBody)
  deriving DecidableEq

/-- The kind of a keyed event. -/
def KeyedEvent.kind : KeyedEvent → EventKind
  | init _ => .init
  | commit _ => .commit
  | merge _ => .merge
  | tag _ => .tag
  | createFile _ => .createFile
  | changeContent _ => .changeContent
  | add _ => .add
  | appendContent _ => .appendContent

/-- An entry of an event log. -/
inductive Event
  /-- A text, not yet looked into. -/
  | shorthand (text : String)
  | keyed (event : KeyedEvent)
  /-- Neither a text nor a keyed event; the document is in plain form. -/
  | unrecognized (value : Document)

/-- A keyed event is never of a kind without a keyed form. -/
theorem KeyedEvent.keyed_kind (e : KeyedEvent) : e.kind.keyed = true := by cases e <;> rfl

end Chronicle

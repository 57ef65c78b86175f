import Chronicle.Event.Field
import Chronicle.Number.Decimal
import Chronicle.Text.Quoted

/-!
# Events from documents

`KeyedEvent.ofDocument` reads a map with one entry as a keyed event. The record of the event may be
null, a map from field names, or a list of values in the order the fields are declared; a text field
takes any scalar and keeps it as text. `Event.ofDocument?` reads any entry of a log, and
`Event.rejection?` says why an entry under the keyword of a kind is no event of that kind.
-/

namespace Chronicle

/-- Why a document is not a keyed event. -/
inductive Misfit
  /-- A key that is no field of the kind. -/
  | unknownField (kind : EventKind) (key : String)
  | duplicateField (name : String)
  /-- The record is neither null nor a map nor a list. -/
  | notRecord (kind : EventKind) (found : Document)
  /-- A truth value was asked for. -/
  | notFlag (found : Document)
  /-- A text was asked for, and a list or a map found. -/
  | notScalar
  /-- More values than the kind has fields. -/
  | tooLong (length : Nat)
  /-- A key that cannot name anything. -/
  | foreignKey
  /-- Not a map with one entry, or no kind under its key. -/
  | noKind

/-! ## Wording -/

/-- Alternatives, as they are listed in a message. -/
def oneOf (names : List String) : String :=
  match names.map fun n => "\x60" ++ n ++ "\x60" with
  | [] => ""
  | [a] => a
  | [a, b] => a ++ " or " ++ b
  | more => "one of " ++ ", ".intercalate more

/-- What a document is called in a message. -/
def Document.describe : Document → String
  | null => "null"
  | bool b => "boolean \x60" ++ (if b then "true" else "false") ++ "\x60"
  | int n => "integer \x60" ++ toString n ++ "\x60"
  | float x => "floating point \x60" ++ Number.Layout.json.write x ++ "\x60"
  | text s => "string " ++ Text.quoted s
  | list _ => "sequence"
  | map _ => "map"

/-- What the record of a kind is called in a message. -/
def EventKind.recordName : EventKind → String
  | init => "struct InitFields"
  | commit => "struct PartialCommitInfo"
  | merge => "struct MergeFields"
  | tag => "struct TagFields"
  | createFile | changeContent => "struct FileFields"
  | add => "struct AddFields"
  | appendContent => "struct AppendFields"
  | branch | checkout => ""

/-- The words for a misfit. -/
def Misfit.message : Misfit → String
  | unknownField kind key =>
    "unknown field \x60" ++ key ++ "\x60, expected " ++ oneOf (kind.fields.flatMap Field.names)
  | duplicateField name => "duplicate field \x60" ++ name ++ "\x60"
  | notRecord kind found => "invalid type: " ++ found.describe ++ ", expected " ++ kind.recordName
  | notFlag found => "invalid type: " ++ found.describe ++ ", expected a boolean"
  | notScalar => "data did not match any variant of untagged enum Scalar"
  | tooLong length => "invalid length " ++ toString length ++ ", expected fewer elements in array"
  | foreignKey => "invalid key"
  | noKind => "invalid event"

/-! ## Decoding -/

/-- The text of a scalar; null stands for no text. -/
def Document.scalarText? : Document → Except Misfit (Option String)
  | null => .ok none
  | text s => .ok (some s)
  | int n => .ok (some (toString n))
  | float x => .ok (some (Number.Layout.plain.write x))
  | bool b => .ok (some (if b then "true" else "false"))
  | list _ | map _ => .error .notScalar

/-- What a document says in a field. -/
def Datum.ofDocument (type : FieldType) (d : Document) : Except Misfit Datum :=
  match type, d with
  | .text, d => d.scalarText?.map .text
  | .flag, .bool b => .ok (.flag b)
  | .flag, d => .error (.notFlag d)

/-- The place of the field that a key names: by a name, or by the place itself. -/
def EventKind.placeOfKey (kind : EventKind) : Document → Except Misfit Nat
  | .text key =>
    match kind.fields.findIdx? (·.answersTo key) with
    | some place => .ok place
    | none => .error (.unknownField kind key)
  | .int (.ofNat place) => if place < kind.fields.length then .ok place else .error .foreignKey
  | _ => .error .foreignKey

/-- Adds an entry of a record to what was found before it. -/
def Slots.addEntry (kind : EventKind) (slots : Slots) (entry : Document × Document) : Except Misfit Slots := do
  let place ← kind.placeOfKey entry.1
  let some field := kind.fields[place]? | throw .foreignKey
  match slots[place]? with
  | some none =>
    let datum ← Datum.ofDocument field.type entry.2
    return slots.set place (some datum)
  | _ => throw (.duplicateField field.name)

/-- What the fields hold when nothing is given. -/
def Slots.empty (kind : EventKind) : Slots := kind.fields.map fun _ => none

/-- What fields hold whose values are given in order; the rest is not given. -/
def Slots.ofItems : List Field → List Document → Except Misfit Slots
  | field :: fields, item :: items => do
    let datum ← Datum.ofDocument field.type item
    let rest ← ofItems fields items
    return some datum :: rest
  | fields, _ => .ok (fields.map fun _ => none)

/-- What the fields of a record of a kind hold. -/
def Slots.ofDocument (kind : EventKind) : Document → Except Misfit Slots
  | .null => .ok (Slots.empty kind)
  | .list items => do
    let slots ← Slots.ofItems kind.fields items
    if kind.fields.length < items.length then throw (.tooLong items.length) else return slots
  | .map entries => entries.foldlM (Slots.addEntry kind) (Slots.empty kind)
  | found => .error (.notRecord kind found)

/-- The kind with a record form that a key stands for: by its keyword, or by its number. -/
def EventKind.ofKey? : Document → Option EventKind
  | .text word => EventKind.keyedKinds.find? (·.keyword == word)
  | .int (.ofNat number) => EventKind.keyedKinds[number]?
  | _ => none

/-- The keyed event that a document is. -/
def KeyedEvent.ofDocument : Document → Except Misfit KeyedEvent
  | .map [(key, body)] => do
    let some kind := EventKind.ofKey? key | throw .noKind
    let slots ← Slots.ofDocument kind body
    let some event := KeyedEvent.ofSlots? kind slots | throw .noKind
    return event
  | _ => .error .noKind

namespace Event

/-- The entry of a log that a document is; none when a key in it is not a text. -/
def ofDocument? : Document → Option Event
  | .text s => some (.shorthand s)
  | d =>
    match KeyedEvent.ofDocument d with
    | .ok e => some (.keyed e)
    | .error _ => d.canonical?.map .unrecognized

/-- Why an entry under the keyword of a kind is no event of that kind. -/
inductive Rejection
  /-- The kind is only written as shorthand. -/
  | shorthandOnly
  | misfit (cause : Misfit)

/-- The words for a rejection. -/
def Rejection.message : Rejection → String
  | shorthandOnly => "object form not supported, use the shorthand"
  | misfit cause => cause.message

/-- The kind that a document in plain form is keyed by, and why it is no event of that kind. -/
def rejection? (d : Document) : Option (EventKind × Rejection) :=
  match d with
  | .map [(.text key, _)] => do
    let kind ← EventKind.ofKeyword? key
    if !kind.keyed then return (kind, .shorthandOnly)
    else
      match KeyedEvent.ofDocument d with
      | .ok _ => none
      | .error cause => return (kind, .misfit cause)
  | _ => none

end Event

end Chronicle

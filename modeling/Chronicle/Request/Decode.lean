import Chronicle.Event.Decode
import Chronicle.Request.Basic

/-!
# Requests from documents

A request is a log, written as a map with the entries `log` and `conf` or as a list of these two, or
else a map with the entry `commits`. A key may be a field's name or its number; other texts and numbers
are passed over, a field given twice fits nothing. `Request.toDocument` writes a request back.
-/

namespace Chronicle

/-- The place of the field that a key names among `names`; none when the key cannot name anything, and
`some none` when it names no field. -/
def placeAmong (names : List (List String)) : Document → Option (Option Nat)
  | .text key => some (names.findIdx? (·.contains key))
  | .int (.ofNat place) => some (if place < names.length then some place else none)
  | _ => none

/-- The values of the fields that a map gives, each at its place, other entries passed over. -/
def fieldsAmong (names : List (List String)) (entries : List (Document × Document)) :
    Option (List (Option Document)) :=
  entries.foldlM
    (fun found (key, value) => do
      match ← placeAmong names key with
      | none => return found
      | some place =>
        match found[place]? with
        | some none => return found.set place (some value)
        | _ => none)
    (names.map fun _ => none)

/-- The values of the fields of a record that is written as a map or as a list. -/
def recordFields (names : List (List String)) : Document → Option (List (Option Document))
  | .map entries => fieldsAmong names entries
  | .list items =>
    if items.length ≤ names.length then
      some (items.map some ++ List.replicate (names.length - items.length) none)
    else none
  | _ => none

/-- What the field at a place holds. -/
def fieldAt (fields : List (Option Document)) (place : Nat) : Option Document := (fields[place]?).getD none

/-- A text or null. -/
def optionalText : Option Document → Option (Option String)
  | none | some .null => some none
  | some (.text s) => some (some s)
  | _ => none

/-- The authorship that a document gives. -/
def Authorship.ofDocument? (d : Document) : Option Authorship := do
  let fields ← recordFields [["author", "name"], ["email"]] d
  let author ← optionalText (fieldAt fields 0)
  let email ← optionalText (fieldAt fields 1)
  return ⟨author, email⟩

/-- The log that a document is. -/
def EventLog.ofDocument? (d : Document) : Option EventLog := do
  let fields ← recordFields [["log"], ["conf"]] d
  let some (.list items) := fieldAt fields 0 | none
  let events ← items.mapM Event.ofDocument?
  match fieldAt fields 1 with
  | none | some .null => return ⟨events, none⟩
  | some conf => return ⟨events, some (← Authorship.ofDocument? conf)⟩

/-- The number of commits that a document asks for. -/
def commitsOfDocument? : Document → Option UInt32
  | .map entries => do
    let fields ← fieldsAmong [["commits"]] entries
    match fieldAt fields 0 with
    | some (.int (.ofNat n)) => if n < twoTo 32 then some (UInt32.ofNat n) else none
    | _ => none
  | _ => none

/-- The request that a document is; a log is tried first. -/
def Request.ofDocument? (d : Document) : Option Request :=
  match EventLog.ofDocument? d with
  | some l => some (.log l)
  | none => (commitsOfDocument? d).map .commits

/-! ## Writing requests -/

/-- An entry of a log as a document. -/
def Event.toDocument : Event → Document
  | shorthand text => .text text
  | keyed e => e.toDocument
  | unrecognized value => value

/-- Authorship as a document; texts that are not given are left out. -/
def Authorship.toDocument (a : Authorship) : Document :=
  .record (Document.textField "author" a.author ++ Document.textField "email" a.email)

/-- A log as a document. -/
def EventLog.toDocument (l : EventLog) : Document :=
  .record (("log", .list (l.events.map Event.toDocument)) ::
    match l.authorship with
    | none => []
    | some a => [("conf", a.toDocument)])

/-- A request as a document. -/
def Request.toDocument : Request → Document
  | log l => l.toDocument
  | commits count => .record [("commits", .int count.toNat)]

end Chronicle

import Chronicle.Number.Binary64

/-!
# Documents

A `Document` is what a text in one of the configuration formats holds, before anything is known about
its meaning: entries of a map keep their order and may repeat a key, and a key may be any document.
`canonical?` is the plain form of a document: keys are texts, sorted, each once, the last entry of a
repeated key counting; a number that is not finite becomes null.
-/

namespace Chronicle

/-- A value read from a configuration text. -/
inductive Document
  | null
  | bool (value : Bool)
  | int (value : Int)
  | float (value : Binary64)
  | text (value : String)
  | list (items : List Document)
  | map (entries : List (Document × Document))
  deriving Inhabited

namespace Document

/-- A map with texts as keys. -/
def record (fields : List (String × Document)) : Document := .map (fields.map fun (k, v) => (.text k, v))

/-- The entry of a record for a text that may be absent. -/
def textField (name : String) : Option String → List (String × Document)
  | none => []
  | some s => [(name, .text s)]

/-- Adds an entry under a key that sorts before, or replaces nothing: an entry already there stays. -/
def insertEntry (key : String) (value : Document) : List (Document × Document) → List (Document × Document)
  | [] => [(.text key, value)]
  | (.text k, v) :: rest =>
    if key = k then (.text k, v) :: rest
    else if key < k then (.text key, value) :: (.text k, v) :: rest
    else (.text k, v) :: insertEntry key value rest
  | entry :: rest => entry :: insertEntry key value rest

mutual

/-- The plain form of a document; there is none when a key is not a text. -/
def canonical? : Document → Option Document
  | .null => some .null
  | .bool b => some (.bool b)
  | .int n => some (.int n)
  | .float x => some (if x.isFinite then .float x else .null)
  | .text s => some (.text s)
  | .list items => (canonicalItems? items).map .list
  | .map entries => (canonicalEntries? entries).map .map

/-- The plain forms of the items of a list. -/
def canonicalItems? : List Document → Option (List Document)
  | [] => some []
  | item :: rest => do
    let item ← canonical? item
    let rest ← canonicalItems? rest
    return item :: rest

/-- The plain forms of entries, sorted, a later entry winning over an earlier one. -/
def canonicalEntries? : List (Document × Document) → Option (List (Document × Document))
  | [] => some []
  | (key, value) :: rest => do
    let .text key := key | none
    let value ← canonical? value
    let rest ← canonicalEntries? rest
    return insertEntry key value rest

end

end Document

end Chronicle

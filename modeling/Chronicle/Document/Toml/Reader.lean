import Chronicle.Document.Toml.Number

/-!
# Reading TOML

`Toml.read` reads a text as a map. A table may be written in parts, by headers and by keys with dots;
`Item` remembers how a part was written, since no table may be defined twice and none can be added to
that was given as a value.
-/

namespace Chronicle.Toml

/-- What stands under a key while a text is read. -/
inductive Item
  | value (document : Document)
  /-- A table. It is implied if no header names it, and dotted if keys with dots make it. -/
  | table (isImplied isDotted : Bool) (entries : List (String × Item))
  /-- The tables of a list, the last one first. -/
  | tables (elements : List (List (String × Item)))

/-- The entries of a table. -/
abbrev Entries := List (String × Item)

mutual

/-- An item as a document. -/
def Item.document : Item → Document
  | .value d => d
  | .table _ _ entries => .map (entryDocuments entries)
  | .tables elements => .list (elementDocuments elements).reverse

/-- The entries of a table as those of a map. -/
def entryDocuments : List (String × Item) → List (Document × Document)
  | [] => []
  | (key, item) :: rest => (.text key, item.document) :: entryDocuments rest

/-- The tables of a list as documents. -/
def elementDocuments : List (List (String × Item)) → List Document
  | [] => []
  | entries :: rest => .map (entryDocuments entries) :: elementDocuments rest

end

namespace Entries

/-- Sets the item under a key, in its place or behind all others. -/
def set (key : String) (item : Item) : Entries → Entries
  | [] => [(key, item)]
  | e :: rest => if e.1 == key then (key, item) :: rest else e :: set key item rest

/-- Changes the table that a path leads to, which is made where there is none. `f` gets to know whether
the table is a dotted one. A path of a key with dots leads through no table that a header has named. -/
def change (dotted : Bool) (f : Bool → Entries → Option Entries) : List String → Bool → Entries → Option Entries
  | [], isDotted, entries => f isDotted entries
  | key :: path, _, entries =>
    match entries.lookup key with
    | none => (change dotted f path dotted []).map fun inner => entries.set key (.table true dotted inner)
    | some (.value _) => none
    | some (.tables []) => none
    | some (.tables (last :: earlier)) =>
      (change dotted f path false last).map fun inner => entries.set key (.tables (inner :: earlier))
    | some (.table isImplied isDotted inner) =>
      if dotted && !isImplied then none
      else
        (change dotted f path isDotted inner).map fun inner =>
          entries.set key (.table isImplied isDotted inner)

/-- Adds a value under a key of a table; `path` is the part of the key before the last dot. -/
def addValue (path : List String) (key : String) (d : Document) (entries : Entries) : Option Entries :=
  change true
    (fun isDotted inner =>
      if isDotted == path.isEmpty || (inner.lookup key).isSome then none
      else some (inner ++ [(key, .value d)]))
    path false entries

end Entries

/-! ## Values -/

/-- The map that entries with dotted keys make. -/
def inlineTable (pairs : List ((List String × String) × Document)) : Option Document :=
  (pairs.foldlM (fun entries (pair : (List String × String) × Document) =>
    Entries.addValue pair.1.1 pair.1.2 pair.2 entries) []).map fun entries => .map (entryDocuments entries)

mutual

/-- Reads a value. `room` is how many levels there may be within it, and `fuel` as long as the text. -/
def readValue : Nat → Nat → Reads Document
  | fuel + 1, room, cs =>
    match cs with
    | '"' :: _ | '\'' :: _ => (readString cs).map fun (s, rest) => (.text s, rest)
    | '[' :: rest => do
      if room = 0 then none
      let (items, rest) ← readItems fuel (room - 1) rest
      return (.list items, rest)
    | '\x7b' :: rest => do
      if room = 0 then none
      let (pairs, rest) ←
        match skipBlanks rest with
        | '\x7d' :: after => some ([], after)
        | rest => readPairs fuel (room - 1) rest
      return (← inlineTable pairs, rest)
    | 't' :: 'r' :: 'u' :: 'e' :: rest => some (.bool true, rest)
    | 'f' :: 'a' :: 'l' :: 's' :: 'e' :: rest => some (.bool false, rest)
    | _ => readFigure cs
  | 0, _, _ => none

/-- Reads the items of a list up to its end, with commas between them and at most one behind them. -/
def readItems : Nat → Nat → Reads (List Document)
  | fuel + 1, room, cs => do
    match ← skipLines cs.length cs with
    | ']' :: rest => return ([], rest)
    | cs =>
      let (d, rest) ← readValue fuel room cs
      match ← skipLines rest.length rest with
      | ']' :: rest => return ([d], rest)
      | ',' :: rest =>
        let (more, rest) ← readItems fuel room rest
        return (d :: more, rest)
      | _ => none
  | 0, _, _ => none

/-- Reads the entries of a table in braces up to its end, with commas between them. -/
def readPairs : Nat → Nat → Reads (List ((List String × String) × Document))
  | fuel + 1, room, cs => do
    let (key, rest) ← readKey cs
    let rest ← expect '=' rest
    let (d, rest) ← readValue fuel room (skipBlanks rest)
    match skipBlanks rest with
    | '\x7d' :: rest => return ([(key, d)], rest)
    | ',' :: rest =>
      let (more, rest) ← readPairs fuel room rest
      return ((key, d) :: more, rest)
    | _ => none
  | 0, _, _ => none

end

/-! ## A text -/

/-- A text that is being read. -/
structure Draft where
  /-- What was read before the table that is being read. -/
  root : Entries := []
  /-- Where that table stands; nowhere for the entries before the first header. -/
  place : Option (List String × String) := none
  /-- Whether it is an element of a list. -/
  isElement : Bool := false
  entries : Entries := []

namespace Draft

/-- Puts the table that is being read into its place. -/
def close (d : Draft) : Option Entries :=
  match d.place with
  | none => some d.entries
  | some (path, key) =>
    Entries.change false
      (fun _ around =>
        match d.isElement, around.lookup key with
        | true, none => some (around.set key (.tables [d.entries]))
        | true, some (.tables elements) => some (around.set key (.tables (d.entries :: elements)))
        | false, none => some (around.set key (.table false false d.entries))
        | false, some (.table true _ _) => some (around.set key (.table false false d.entries))
        | _, _ => none)
      path false d.root

/-- The item at a place, where tables on the way are made. -/
def find (path : List String) (key : String) (root : Entries) : Option (Entries × Option Item) :=
  let probe := Entries.change false (fun _ around => some around) path false root
  let found := walk path root
  probe.map fun root => (root, found.bind (·.lookup key))
where
  /-- The entries that a path leads to. -/
  walk : List String → Entries → Option Entries
    | [], entries => some entries
    | key :: path, entries =>
      match entries.lookup key with
      | some (.table _ _ inner) => walk path inner
      | some (.tables (last :: _)) => walk path last
      | _ => none

/-- Begins the table of a header. One that was only implied keeps what it has. -/
def openTable (d : Draft) (path : List String) (key : String) : Option Draft := do
  let (root, item) ← find path key (← d.close)
  match item with
  | none => return ⟨root, some (path, key), false, []⟩
  | some (.table true false entries) =>
    let without ← Entries.change false (fun _ around => some (around.filter (·.1 != key))) path false root
    return ⟨without, some (path, key), false, entries⟩
  | _ => none

/-- Begins a further table of the list of a header. -/
def openElement (d : Draft) (path : List String) (key : String) : Option Draft := do
  let (root, item) ← find path key (← d.close)
  match item with
  | none | some (.tables _) => return ⟨root, some (path, key), true, []⟩
  | _ => none

end Draft

/-- Reads a header behind its opening brackets. -/
def readHeader (isElement : Bool) (d : Draft) (cs : List Char) : Option (Draft × List Char) := do
  let ((path, key), rest) ← readKey cs
  let rest ← expect ']' rest
  let rest ← if isElement then expect ']' rest else some rest
  let rest ← restOfLine rest
  let d ← if isElement then d.openElement path key else d.openTable path key
  return (d, rest)

/-- Reads an entry and the rest of its line. -/
def readEntry (d : Draft) (cs : List Char) : Option (Draft × List Char) := do
  let ((path, key), rest) ← readKey cs
  let rest ← expect '=' rest
  let (value, rest) ← readValue (rest.length + 1) deepest (skipBlanks rest)
  let rest ← restOfLine rest
  return ({ d with entries := ← d.entries.addValue path key value }, rest)

/-- Reads the lines of a text. -/
def readLines : Nat → Draft → List Char → Option Draft
  | 0, d, _ => some d
  | fuel + 1, d, cs =>
    match skipBlanks cs with
    | [] => some d
    | '#' :: rest =>
      match lineOrTextEnd? (rest.dropWhile isPrintable) with
      | some after => readLines fuel d after
      | none => none
    | '[' :: '[' :: rest =>
      match readHeader true d rest with
      | some (d, after) => readLines fuel d after
      | none => none
    | '[' :: rest =>
      match readHeader false d rest with
      | some (d, after) => readLines fuel d after
      | none => none
    | line =>
      match lineEnd? line with
      | some after => readLines fuel d after
      | none =>
        match readEntry d line with
        | some (d, after) => readLines fuel d after
        | none => none

/-- The map that a text is; none if it is not well formed. -/
def read (text : String) : Option Document := do
  let cs := text.toList
  let cs := if cs.head? == some '\ufeff' then cs.drop 1 else cs
  let d ← readLines (cs.length + 1) {} cs
  return .map (entryDocuments (← d.close))

end Chronicle.Toml

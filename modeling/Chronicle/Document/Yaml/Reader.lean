import Chronicle.Document.Basic
import Chronicle.Document.Yaml.Piece

/-!
# Reading YAML

`Yaml.read` reads the first document of a text. A plain scalar is null, a truth value or a number if it
is written like one, and a text otherwise; tags of the standard ask for one of these, and other tags are
refused. Aliases are read again where they stand, which is allowed only so many times and so deep.
-/

namespace Chronicle.Yaml

/-! ## Scalars -/

/-- The truth value that a text is. -/
def truthOf (text : String) : Option Bool :=
  if ["true", "True", "TRUE"].contains text then some true
  else if ["false", "False", "FALSE"].contains text then some false
  else none

/-- Whether a text stands for nothing. -/
def isNullText (text : String) : Bool := ["null", "Null", "NULL", "~"].contains text

/-- Whether a text is a row of digits that begins with a zero; such a row is no number. -/
def isZeroPadded (cs : List Char) : Bool :=
  let digits := (Numeral.signed cs).2
  1 < digits.length && digits.head? == some '0' && digits.all Char.isDigit

/-- The base that a mark before digits stands for. -/
def baseOf : List Char → Option (Nat × List Char)
  | '0' :: 'x' :: rest => some (16, rest)
  | '0' :: 'o' :: rest => some (8, rest)
  | '0' :: 'b' :: rest => some (2, rest)
  | _ => none

/-- The integer that digits stand for, which may have a mark for their base. -/
def integerOf (cs : List Char) : Option Int :=
  let (negative, body) := Numeral.signed cs
  let marked :=
    match baseOf body with
    | some (base, digits) => Numeral.natural? base digits
    | none => none
  let plain := if isZeroPadded cs then none else Numeral.natural? 10 body
  (marked.or plain).map fun n => if negative then -(n : Int) else n

/-- What a text is that is read as a number. -/
inductive NumberText
  | integer (value : Int)
  /-- An integer that fits no machine word. -/
  | tooLarge
  | float (value : Binary64)

/-- The integer that a text is, where it fits twice the width of a machine word. -/
def integerText (cs : List Char) : Option NumberText :=
  match integerOf cs with
  | some n =>
    if -(twoTo 63 : Int) ≤ n && n < twoTo 64 then some (.integer n)
    else if -(twoTo 127 : Int) ≤ n && n < twoTo 128 then some .tooLarge
    else none
  | none => none

/-- The floating-point number that a text is; only names of infinity give an infinite one. -/
def floatText (cs : List Char) : Option Binary64 :=
  let unsigned := match cs with | '+' :: rest => rest | _ => cs
  if cs != unsigned && ["+", "-"].contains (String.ofList (unsigned.take 1)) then none
  else if [".inf", ".Inf", ".INF"].contains (String.ofList unsigned) then some (.infinite false)
  else if ["-.inf", "-.Inf", "-.INF"].contains (String.ofList cs) then some (.infinite true)
  else if [".nan", ".NaN", ".NAN"].contains (String.ofList cs) then some .nan
  else (Numeral.decimal? unsigned).filter Binary64.isFinite

/-- A number as a document. -/
def NumberText.document : NumberText → Option Document
  | integer n => some (.int n)
  | tooLarge => none
  | float x => some (.float x)

/-- What a plain scalar without a tag stands for; none if it stands for a number that is too large. -/
def plainDocument (cs : List Char) : Option Document :=
  let text := String.ofList cs
  if cs.isEmpty || isNullText text then some .null
  else
    match truthOf text with
    | some b => some (.bool b)
    | none =>
      match integerText cs with
      | some n => n.document
      | none =>
        match if isZeroPadded cs then none else floatText cs with
        | some x => some (.float x)
        | none => some (.text text)

/-- Whether a tag is of this document's own making. -/
def isOwnTag (tag : Option (List Char)) : Bool := (tag.bind List.head?) == some '!'

/-- What a scalar stands for. -/
def Scalar.document (s : Scalar) : Option Document :=
  let text := String.ofList s.text
  match s.tag with
  | none => if s.plain then plainDocument s.text else some (.text text)
  | some tag =>
    if isOwnTag (some tag) then none
    else
      match String.ofList tag with
      | "tag:yaml.org,2002:bool" => (truthOf text).map .bool
      | "tag:yaml.org,2002:int" => (integerText s.text).bind NumberText.document
      | "tag:yaml.org,2002:float" => (floatText s.text).map .float
      | "tag:yaml.org,2002:null" => if isNullText text then some .null else none
      | _ => some (.text text)

/-! ## Collections -/

/-- A piece whose alias, if it is one, is known by the number of its anchor. -/
inductive Linked
  | alias (anchor : Nat)
  | scalar (value : Scalar)
  | sequence (tag : Option (List Char))
  | mapping (tag : Option (List Char))
  | close

/-- The numbers of anchors, and where they are. -/
structure Anchors where
  /-- The number of each name. -/
  numbers : List (List Char × Nat) := []
  /-- The place of each number. -/
  places : List (Nat × Nat) := []

/-- Notes an anchor at a place. Its number is that of the names so far, so a name that is used again
takes the number that the next new name gets as well. -/
def Anchors.note (a : Anchors) (place : Nat) : Option (List Char) → Anchors
  | none => a
  | some name =>
    let number := a.numbers.length
    ⟨(name, number) :: a.numbers.filter fun e => e.1 != name, (number, place) :: a.places⟩

/-- Gives every alias the number of its anchor; none if there is no such anchor before it. -/
def link : Anchors → Nat → List Piece → Option (List Linked × Anchors)
  | a, _, [] => some ([], a)
  | a, place, p :: rest => do
    let (linked, a) ←
      match p with
      | .alias name => (a.numbers.lookup name).map fun n => (Linked.alias n, a)
      | .scalar s anchor => some (.scalar s, a.note place anchor)
      | .sequence tag anchor => some (.sequence tag, a.note place anchor)
      | .mapping tag anchor => some (.mapping tag, a.note place anchor)
      | .close => some (.close, a)
    let (more, a) ← link a (place + 1) rest
    return (linked :: more, a)

/-- Where a document is being read. -/
structure Reading where
  place : Nat
  /-- How many aliases were followed. -/
  jumps : Nat

/-- How deep collections may be. -/
def deepest : Nat := 128

/-- How many aliases may be followed for each piece of a document. -/
def jumpsPerPiece : Nat := 100

section Reader

variable (pieces : Array Linked) (places : List (Nat × Nat))

mutual

/-- Reads the node at a place; `room` is how deep it may still be. -/
def readNode (room : Nat) (r : Reading) : Option (Document × Reading) :=
  match pieces[r.place]? with
  | some (.alias n) => do
    let target ← places.lookup n
    if jumpsPerPiece * pieces.size < r.jumps + 1 then none
    let (d, after) ← readContent room { place := target, jumps := r.jumps + 1 }
    return (d, { after with place := r.place + 1 })
  | _ => readContent room r
  termination_by (room, 1)

/-- Reads the scalar or collection at a place. -/
def readContent (room : Nat) (r : Reading) : Option (Document × Reading) :=
  match pieces[r.place]? with
  | some (.scalar s) => do
    let d ← s.document
    return (d, { r with place := r.place + 1 })
  | some (.sequence tag) =>
    if _h : room = 0 ∨ isOwnTag tag then none
    else do
      let (items, r) ← readItems (room - 1) pieces.size { r with place := r.place + 1 }
      return (.list items, r)
  | some (.mapping tag) =>
    if _h : room = 0 ∨ isOwnTag tag then none
    else do
      let (entries, r) ← readEntries (room - 1) pieces.size { r with place := r.place + 1 }
      return (.map entries, r)
  | _ => none
  termination_by (room, 0)

/-- Reads the items of a sequence up to its end; `left` bounds their number. -/
def readItems (room left : Nat) (r : Reading) : Option (List Document × Reading) :=
  match pieces[r.place]? with
  | some .close => some ([], { r with place := r.place + 1 })
  | _ =>
    if _h : left = 0 then none
    else do
      let (d, r) ← readNode room r
      let (more, r) ← readItems room (left - 1) r
      return (d :: more, r)
  termination_by (room, left + 2)

/-- Reads the entries of a mapping up to its end. -/
def readEntries (room left : Nat) (r : Reading) : Option (List (Document × Document) × Reading) :=
  match pieces[r.place]? with
  | some .close => some ([], { r with place := r.place + 1 })
  | _ =>
    if _h : left = 0 then none
    else do
      let (key, r) ← readNode room r
      let (value, r) ← readNode room r
      let (more, r) ← readEntries room (left - 1) r
      return ((key, value) :: more, r)
  termination_by (room, left + 2)

end

end Reader

/-- A document that was read, and whether the text goes on behind it. -/
structure Result where
  document : Document
  goesOn : Bool

/-- The first document of a text; none if it is not well formed. A text without one reads as null. -/
def read (text : String) : Option Result :=
  match Page.ofTokens (Lexer.run text.toList) with
  | .blank => some ⟨.null, false⟩
  | .broken => none
  | .whole pieces alone => do
    let (linked, anchors) ← link {} 0 pieces
    let (d, _) ← readNode linked.toArray anchors.places deepest ⟨0, 0⟩
    return ⟨d, !alone⟩

end Chronicle.Yaml

import Chronicle.Document.Yaml.Reader

/-!
# Reading the pieces of a YAML document

What pieces are read as, from one place to another (`Yaml.Spell`): a scalar stands for itself, and a
collection for what is spelled between its beginning and its end (`Yaml.Spell.list`, `Yaml.Spell.map`).
-/

namespace Chronicle.Yaml

variable (pieces : Array Linked) (places : List (Nat × Nat))

/-- The pieces from place `i` to place `j` are read as `d`, wherever they are read again. -/
def Spell (room i j : Nat) (d : Document) : Prop :=
  ∀ jumps, readNode pieces places room ⟨i, jumps⟩ = some (d, ⟨j, jumps⟩)

/-- The pieces from place `i` to place `j` are read as items, with the end of their sequence. -/
def SpellItems (room left i j : Nat) (items : List Document) : Prop :=
  ∀ jumps, readItems pieces places room left ⟨i, jumps⟩ = some (items, ⟨j, jumps⟩)

/-- The pieces from place `i` to place `j` are read as entries, with the end of their mapping. -/
def SpellEntries (room left i j : Nat) (entries : List (Document × Document)) : Prop :=
  ∀ jumps, readEntries pieces places room left ⟨i, jumps⟩ = some (entries, ⟨j, jumps⟩)

variable {pieces places} {room left i j k l : Nat} {d value : Document} {tag : Option (List Char)}

theorem Spell.scalar {s : Scalar} (h : pieces[i]? = some (.scalar s)) (hd : s.document = some d) :
    Spell pieces places room i (i + 1) d := by
  intro jumps
  simp [readNode, readContent, h, hd]

/-! ## Sequences -/

theorem SpellItems.nil (h : pieces[i]? = some .close) : SpellItems pieces places room left i (i + 1) [] := by
  intro jumps
  unfold readItems
  simp [h]

theorem SpellItems.cons {items : List Document} (hnext : pieces[i]? ≠ some .close)
    (hd : Spell pieces places room i j d) (hitems : SpellItems pieces places room left j k items) :
    SpellItems pieces places room (left + 1) i k (d :: items) := by
  intro jumps
  unfold readItems
  split
  · exact absurd ‹_› hnext
  · simp [hd jumps, hitems jumps]

theorem Spell.list {items : List Document} (h : pieces[i]? = some (.sequence tag)) (htag : isOwnTag tag = false)
    (hitems : SpellItems pieces places room pieces.size (i + 1) j items) :
    Spell pieces places (room + 1) i j (.list items) := by
  intro jumps
  simp [readNode, readContent, h, htag, hitems jumps]

/-! ## Mappings -/

theorem SpellEntries.nil (h : pieces[i]? = some .close) :
    SpellEntries pieces places room left i (i + 1) [] := by
  intro jumps
  unfold readEntries
  simp [h]

theorem SpellEntries.cons {entries : List (Document × Document)} (hnext : pieces[i]? ≠ some .close)
    (hkey : Spell pieces places room i j d) (hvalue : Spell pieces places room j k value)
    (hentries : SpellEntries pieces places room left k l entries) :
    SpellEntries pieces places room (left + 1) i l ((d, value) :: entries) := by
  intro jumps
  unfold readEntries
  split
  · exact absurd ‹_› hnext
  · simp [hkey jumps, hvalue jumps, hentries jumps]

theorem Spell.map {entries : List (Document × Document)} (h : pieces[i]? = some (.mapping tag))
    (htag : isOwnTag tag = false)
    (hentries : SpellEntries pieces places room pieces.size (i + 1) j entries) :
    Spell pieces places (room + 1) i j (.map entries) := by
  intro jumps
  simp [readNode, readContent, h, htag, hentries jumps]

/-! ## Texts -/

/-- A text is read as what its pieces are. -/
theorem read_of_spell {text : String} {found : List Piece} {alone : Bool} {linked : List Linked}
    {anchors : Anchors} (hpage : Page.ofTokens (Lexer.run text.toList) = .whole found alone)
    (hlink : link {} 0 found = some (linked, anchors))
    (hd : Spell linked.toArray anchors.places deepest 0 j d) : read text = some ⟨d, !alone⟩ := by
  simp [read, hpage, hlink, hd 0]

end Chronicle.Yaml

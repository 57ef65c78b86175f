import Chronicle.Event.Decode
import Chronicle.Proofs.Document.Plain
import Chronicle.Proofs.Outcome

/-!
# The grammar of records

What may stand under the keyword of an event (`EventKind.IsRecord`): nothing, a list of values for the fields
in the order they are declared, or a map that names no field twice and nothing but fields; and in each field a
document of its type. A decoded event holds what the record gives for each field, and nothing in the others
(`KeyedEvent.Holds`).

`Slots.ofDocument` reads a list item by item and a map entry by entry. Each of the two is shown to fill the
fields it is given and to leave the others alone (`Slots.ofItems_ok`, `Slots.Filled.of_foldlM`), so that **a
document is read as the event whose record it is** (`KeyedEvent.ofDocument_eq_ok_iff`).
-/

namespace Chronicle

open Outcome

/-! ## Fields -/

/-- What a document says in a field of a type. -/
inductive Datum.Says : FieldType → Document → Datum → Prop
  | null : Says .text .null (.text none)
  | text (s : String) : Says .text (.text s) (.text (some s))
  | int (n : Int) : Says .text (.int n) (.text (some (toString n)))
  | float (x : Binary64) : Says .text (.float x) (.text (some (Number.Layout.plain.write x)))
  | bool (b : Bool) : Says .text (.bool b) (.text (some (if b then "true" else "false")))
  | flag (b : Bool) : Says .flag (.bool b) (.flag b)

namespace FieldType

/-- What a field of a type holds when it is not given. -/
def absent : FieldType → Datum
  | text => .text none
  | flag => .flag false

/-- The documents that may stand in a field: scalars for a text, a truth value for a flag. -/
def Admits : FieldType → Document → Prop
  | text, .list _ | text, .map _ => False
  | text, _ => True
  | flag, .bool _ => True
  | flag, _ => False

end FieldType

section

variable {type : FieldType} {d : Document} {datum datum' : Datum}

theorem Datum.ofDocument_eq_ok_iff : Datum.ofDocument type d = .ok datum ↔ Says type d datum := by
  constructor
  · intro h
    cases type <;> cases d <;> cases h <;> constructor
  · rintro (_ | _ | _ | _ | _ | _) <;> rfl

theorem FieldType.admits_iff : type.Admits d ↔ ∃ datum, Datum.Says type d datum := by
  constructor
  · intro h
    cases type <;> cases d <;> first | exact h.elim | exact ⟨_, by constructor⟩
  · rintro ⟨datum, _ | _ | _ | _ | _ | _⟩ <;> trivial

/-- A document says one thing in a field. -/
theorem Datum.Says.unique (h : Says type d datum) (h' : Says type d datum') : datum = datum' := by
  have hok := (Datum.ofDocument_eq_ok_iff.mpr h).symm.trans (Datum.ofDocument_eq_ok_iff.mpr h')
  exact Except.ok.inj hok

end

theorem Field.answersTo_iff {f : Field} {key : String} : f.answersTo key = true ↔ key ∈ f.names := by
  rw [answersTo, names, Bool.or_eq_true, beq_iff_eq, beq_iff_eq, List.mem_cons, Option.mem_toList]
  exact or_congr eq_comm Iff.rfl

/-- The keys of a map are texts. -/
def Document.TextKeyed : Document → Prop
  | .map entries => ∀ e ∈ entries, ∃ key, e.1 = .text key
  | _ => True

theorem Document.Plain.textKeyed {d : Document} (h : d.Plain) : d.TextKeyed := by
  cases h with
  | map hkeys => exact hkeys
  | _ => trivial

namespace EventKind

/-- A key is a name of the field at a place. -/
def Names (kind : EventKind) (place : Nat) (key : Document) : Prop :=
  ∃ field word, kind.fields[place]? = some field ∧ key = .text word ∧ word ∈ field.names

/-- What a record gives for the field at a place, in the order of the fields or by a name. -/
inductive Gives (kind : EventKind) : Document → Nat → Document → Prop
  | item {items : List Document} {place : Nat} {d : Document} (hitem : items[place]? = some d) :
      Gives kind (.list items) place d
  | entry {entries : List (Document × Document)} {place : Nat} {e : Document × Document}
      (hentry : e ∈ entries) (hnames : kind.Names place e.1) : Gives kind (.map entries) place e.2

/-- A record names nothing but fields, and none of them twice. -/
inductive Shaped (kind : EventKind) : Document → Prop
  | null : Shaped kind .null
  | list {items : List Document} (hlength : items.length ≤ kind.fields.length) : Shaped kind (.list items)
  | map {entries : List (Document × Document)} (hnamed : ∀ e ∈ entries, ∃ place, kind.Names place e.1)
      (honce : entries.Pairwise fun a b => ∀ place, kind.Names place a.1 → ¬ kind.Names place b.1) :
      Shaped kind (.map entries)

/-- A document is a record of a kind. -/
structure IsRecord (kind : EventKind) (body : Document) : Prop where
  shaped : kind.Shaped body
  admitted : ∀ place field d, kind.fields[place]? = some field → kind.Gives body place d → field.type.Admits d

/-- The fields of a kind share no name. -/
theorem fields_apart (kind : EventKind) :
    kind.fields.Pairwise fun f g => ∀ name ∈ f.names, name ∉ g.names := by
  cases kind <;> decide

variable {kind : EventKind} {place place' : Nat} {key : Document}

theorem IsRecord.textKeyed {body : Document} (h : kind.IsRecord body) : body.TextKeyed := by
  cases h.shaped with
  | null | list => trivial
  | map hnamed =>
    intro e he
    obtain ⟨_, _, word, _, hkey, _⟩ := hnamed e he
    exact ⟨word, hkey⟩

theorem exists_of_gives {entries : List (Document × Document)} {d : Document}
    (h : kind.Gives (.map entries) place d) : ∃ e ∈ entries, kind.Names place e.1 ∧ e.2 = d := by
  cases h with
  | entry hentry hnames => exact ⟨_, hentry, hnames, rfl⟩

theorem Names.unique (h : kind.Names place key) (h' : kind.Names place' key) : place = place' := by
  obtain ⟨f, word, hf, rfl, hword⟩ := h
  obtain ⟨g, word', hg, hkey, hword'⟩ := h'
  cases hkey
  obtain ⟨hlt, rfl⟩ := List.getElem?_eq_some_iff.mp hf
  obtain ⟨hlt', rfl⟩ := List.getElem?_eq_some_iff.mp hg
  have hapart := List.pairwise_iff_getElem.mp kind.fields_apart
  obtain hless | heq | hless := Nat.lt_trichotomy place place'
  · exact absurd hword' (hapart place place' hlt hlt' hless word hword)
  · exact heq
  · exact absurd hword (hapart place' place hlt' hlt hless word hword')

theorem Names.lt (h : kind.Names place key) : place < kind.fields.length := by
  obtain ⟨f, _, hf, _⟩ := h
  exact (List.getElem?_eq_some_iff.mp hf).1

theorem placeOfKey_eq_ok_iff {word : String} :
    kind.placeOfKey (.text word) = .ok place ↔ kind.Names place (.text word) := by
  have hfound : ∀ {i}, kind.fields.findIdx? (·.answersTo word) = some i → kind.Names i (.text word) := by
    intro i hi
    obtain ⟨hlt, hans, _⟩ := List.findIdx?_eq_some_iff_getElem.mp hi
    exact ⟨_, word, List.getElem?_eq_getElem hlt, rfl, Field.answersTo_iff.mp hans⟩
  cases hi : kind.fields.findIdx? (·.answersTo word) with
  | some i =>
    simp only [placeOfKey, hi, Except.ok.injEq]
    constructor
    · rintro rfl
      exact hfound hi
    · exact (hfound hi).unique
  | none =>
    simp only [placeOfKey, hi, reduceCtorEq, false_iff]
    rintro ⟨f, _, hf, heq, hword⟩
    cases heq
    have hnot := List.findIdx?_eq_none_iff.mp hi f (List.mem_of_getElem? hf)
    rw [Field.answersTo_iff.mpr hword] at hnot
    cases hnot

end EventKind

/-! ## What a record fills -/

namespace Slots

section

variable {kind : EventKind} {slots slots' : Slots}

/-- An entry fills the field it names, which was not filled before. -/
theorem addEntry_eq_ok_iff {word : String} {value : Document} :
    addEntry kind slots (.text word, value) = .ok slots' ↔
      ∃ place field datum, kind.fields[place]? = some field ∧ kind.Names place (.text word) ∧
        slots[place]? = some none ∧ Datum.Says field.type value datum ∧ slots' = slots.set place (some datum) := by
  constructor
  · intro h
    obtain ⟨place, hplace, h⟩ := bind_eq_ok.mp h
    split at h
    case h_2 => cases h
    case h_1 field hfield =>
      split at h
      case h_2 => cases h
      case h_1 hfree =>
        obtain ⟨datum, hdatum, h⟩ := bind_eq_ok.mp h
        cases h
        exact ⟨place, field, datum, hfield, EventKind.placeOfKey_eq_ok_iff.mp hplace, hfree,
          Datum.ofDocument_eq_ok_iff.mp hdatum, rfl⟩
  · rintro ⟨place, field, datum, hfield, hnames, hfree, hsaid, rfl⟩
    simp [addEntry, EventKind.placeOfKey_eq_ok_iff.mpr hnames, hfield, hfree,
      Datum.ofDocument_eq_ok_iff.mpr hsaid]

/-- Entries that name fields which are not filled, none of them twice, fill these and no others. -/
structure Filled (kind : EventKind) (slots : Slots) (entries : List (Document × Document)) (slots' : Slots) :
    Prop where
  named : ∀ e ∈ entries, ∃ place, kind.Names place e.1 ∧ slots[place]? = some none
  once : entries.Pairwise fun a b => ∀ place, kind.Names place a.1 → ¬ kind.Names place b.1
  given : ∀ e ∈ entries, ∀ place field, kind.fields[place]? = some field → kind.Names place e.1 →
    ∃ datum, slots'[place]? = some (some datum) ∧ Datum.Says field.type e.2 datum
  kept : ∀ place, (∀ e ∈ entries, ¬ kind.Names place e.1) → slots'[place]? = slots[place]?

/-- By induction on the entries; a field that one of them fills is not free for those after it. -/
theorem Filled.of_foldlM {entries : List (Document × Document)} (htexts : ∀ e ∈ entries, ∃ key, e.1 = .text key)
    (h : entries.foldlM (addEntry kind) slots = .ok slots') : Filled kind slots entries slots' := by
  induction entries generalizing slots with
  | nil =>
    cases h
    exact ⟨by simp, .nil, by simp, fun _ _ => rfl⟩
  | cons e rest ih =>
    obtain ⟨⟨word, hword⟩, hrest⟩ := List.forall_mem_cons.mp htexts
    obtain ⟨key, value⟩ := e
    cases hword
    rw [List.foldlM_cons] at h
    obtain ⟨middle, hadd, h⟩ := bind_eq_ok.mp h
    obtain ⟨place, field, datum, hfield, hnames, hfree, hsaid, rfl⟩ := addEntry_eq_ok_iff.mp hadd
    have hfilled := ih hrest h
    have hlt : place < slots.length := (List.getElem?_eq_some_iff.mp hfree).1
    have hlater : ∀ e ∈ rest, ¬ kind.Names place e.1 := by
      intro e he hagain
      obtain ⟨place', hnames', hfree'⟩ := hfilled.named e he
      rw [← hagain.unique hnames', List.getElem?_set_self hlt] at hfree'
      cases hfree'
    refine ⟨List.forall_mem_cons.mpr ⟨⟨place, hnames, hfree⟩, fun e he => ?_⟩,
      List.pairwise_cons.mpr ⟨fun e he place' hplace' => hnames.unique hplace' ▸ hlater e he, hfilled.once⟩,
      List.forall_mem_cons.mpr ⟨fun place' field' hfield' hnames' => ?_, hfilled.given⟩, fun place' hnone => ?_⟩
    · obtain ⟨place', hnames', hfree'⟩ := hfilled.named e he
      have hne : place ≠ place' := fun heq => hlater e he (heq ▸ hnames')
      rw [List.getElem?_set_ne hne] at hfree'
      exact ⟨place', hnames', hfree'⟩
    · obtain rfl := hnames.unique hnames'
      obtain rfl := Option.some.inj (hfield.symm.trans hfield')
      exact ⟨datum, by rw [hfilled.kept place hlater, List.getElem?_set_self hlt], hsaid⟩
    · obtain ⟨hhead, hrestnone⟩ := List.forall_mem_cons.mp hnone
      have hne : place ≠ place' := fun heq => hhead (heq ▸ hnames)
      rw [hfilled.kept place' hrestnone, List.getElem?_set_ne hne]

theorem exists_foldlM {entries : List (Document × Document)}
    (hnamed : ∀ e ∈ entries, ∃ place, kind.Names place e.1 ∧ slots[place]? = some none)
    (honce : entries.Pairwise fun a b => ∀ place, kind.Names place a.1 → ¬ kind.Names place b.1)
    (hadmitted : ∀ e ∈ entries, ∀ place field, kind.fields[place]? = some field → kind.Names place e.1 →
      field.type.Admits e.2) : ∃ slots', entries.foldlM (addEntry kind) slots = .ok slots' := by
  induction entries generalizing slots with
  | nil => exact ⟨slots, rfl⟩
  | cons e rest ih =>
    obtain ⟨⟨place, hnames, hfree⟩, hrestnamed⟩ := List.forall_mem_cons.mp hnamed
    obtain ⟨hlater, hrestonce⟩ := List.pairwise_cons.mp honce
    obtain ⟨hvalue, hrestadmitted⟩ := List.forall_mem_cons.mp hadmitted
    have hnames' := hnames
    obtain ⟨field, word, hfield, hkey, _⟩ := hnames'
    obtain ⟨datum, hsaid⟩ := FieldType.admits_iff.mp (hvalue place field hfield hnames)
    have hadd : addEntry kind slots e = .ok (slots.set place (some datum)) := by
      obtain ⟨key, value⟩ := e
      cases hkey
      exact addEntry_eq_ok_iff.mpr ⟨place, field, datum, hfield, hnames, hfree, hsaid, rfl⟩
    have hrestfree : ∀ e' ∈ rest, ∃ place', kind.Names place' e'.1 ∧
        (slots.set place (some datum))[place']? = some none := by
      intro e' he'
      obtain ⟨place', hnames', hfree'⟩ := hrestnamed e' he'
      have hne : place ≠ place' := fun heq => hlater e' he' place hnames (heq ▸ hnames')
      exact ⟨place', hnames', by rw [List.getElem?_set_ne hne, hfree']⟩
    obtain ⟨slots', hslots'⟩ := ih hrestfree hrestonce hrestadmitted
    exact ⟨slots', by rw [List.foldlM_cons, hadd, ok_bind, hslots']⟩

end

theorem ofItems_ok {fields : List Field} {items : List Document} {slots : Slots}
    (h : ofItems fields items = .ok slots) (place : Nat) (field : Field) (hfield : fields[place]? = some field) :
    (∀ d, items[place]? = some d → ∃ datum, slots[place]? = some (some datum) ∧ Datum.Says field.type d datum) ∧
      (items[place]? = none → slots[place]? = some none) := by
  induction fields generalizing items slots place with
  | nil => simp at hfield
  | cons first rest ih =>
    cases items with
    | nil =>
      cases h
      have hnone : ((first :: rest).map fun _ => (none : Option Datum))[place]? = some none := by
        rw [List.getElem?_map, hfield]
        rfl
      exact ⟨by simp, fun _ => hnone⟩
    | cons item items =>
      obtain ⟨datum, hdatum, h⟩ := bind_eq_ok.mp h
      obtain ⟨others, hothers, h⟩ := bind_eq_ok.mp h
      cases h
      cases place with
      | zero =>
        cases hfield
        simpa using Datum.ofDocument_eq_ok_iff.mp hdatum
      | succ place => simpa using ih hothers place (by simpa using hfield)

theorem exists_ofItems {fields : List Field} {items : List Document}
    (h : ∀ (place : Nat) (field : Field) (d : Document), fields[place]? = some field → items[place]? = some d →
      field.type.Admits d) : ∃ slots, ofItems fields items = .ok slots := by
  induction fields generalizing items with
  | nil => exact ⟨_, rfl⟩
  | cons first rest ih =>
    cases items with
    | nil => exact ⟨_, rfl⟩
    | cons item items =>
      obtain ⟨datum, hdatum⟩ := FieldType.admits_iff.mp (h 0 first item rfl rfl)
      obtain ⟨others, hothers⟩ := ih fun place field d hfield hitem =>
        h (place + 1) field d (by simpa using hfield) (by simpa using hitem)
      exact ⟨some datum :: others, by simp [ofItems, Datum.ofDocument_eq_ok_iff.mpr hdatum, hothers]⟩

/-- The fields hold what a record gives for them, and the others nothing. -/
structure Hold (kind : EventKind) (body : Document) (slots : Slots) : Prop where
  given : ∀ place field d, kind.fields[place]? = some field → kind.Gives body place d →
    ∃ datum, slots[place]? = some (some datum) ∧ Datum.Says field.type d datum
  free : ∀ place field, kind.fields[place]? = some field → (∀ d, ¬ kind.Gives body place d) →
    slots[place]? = some none

theorem getElem?_empty {kind : EventKind} {place : Nat} (h : place < kind.fields.length) :
    (empty kind)[place]? = some none := by
  simp [empty, h]

theorem hold_of_ofDocument {kind : EventKind} {body : Document} {slots : Slots} (htexts : body.TextKeyed)
    (h : ofDocument kind body = .ok slots) : kind.IsRecord body ∧ slots.Hold kind body := by
  cases body with
  | bool | int | float | text => cases h
  | null =>
    cases h
    refine ⟨⟨.null, fun _ _ _ _ hgives => (nomatch hgives)⟩, ⟨fun _ _ _ _ hgives => (nomatch hgives), ?_⟩⟩
    intro place field hfield _
    exact getElem?_empty (List.getElem?_eq_some_iff.mp hfield).1
  | list items =>
    obtain ⟨found, hfound, h⟩ := bind_eq_ok.mp h
    by_cases hlength : kind.fields.length < items.length
    · rw [if_pos hlength] at h
      cases h
    · rw [if_neg hlength] at h
      cases h
      refine ⟨⟨.list (by omega), ?_⟩, ⟨?_, ?_⟩⟩
      · rintro place field d hfield ⟨hitem⟩
        obtain ⟨datum, _, hsaid⟩ := (ofItems_ok hfound place field hfield).1 d hitem
        exact FieldType.admits_iff.mpr ⟨datum, hsaid⟩
      · rintro place field d hfield ⟨hitem⟩
        exact (ofItems_ok hfound place field hfield).1 d hitem
      · intro place field hfield hnone
        refine (ofItems_ok hfound place field hfield).2 (Option.eq_none_iff_forall_ne_some.mpr ?_)
        exact fun d hitem => hnone d (.item hitem)
  | map entries =>
    have hfilled := Filled.of_foldlM htexts h
    refine ⟨⟨.map (fun e he => ?_) hfilled.once, ?_⟩, ⟨?_, ?_⟩⟩
    · obtain ⟨place, hnames, _⟩ := hfilled.named e he
      exact ⟨place, hnames⟩
    · intro place field d hfield hgives
      obtain ⟨e, he, hnames, rfl⟩ := EventKind.exists_of_gives hgives
      obtain ⟨datum, _, hsaid⟩ := hfilled.given e he place field hfield hnames
      exact FieldType.admits_iff.mpr ⟨datum, hsaid⟩
    · intro place field d hfield hgives
      obtain ⟨e, he, hnames, rfl⟩ := EventKind.exists_of_gives hgives
      exact hfilled.given e he place field hfield hnames
    · intro place field hfield hnone
      rw [hfilled.kept place fun e he hnames => hnone e.2 (.entry he hnames)]
      exact getElem?_empty (List.getElem?_eq_some_iff.mp hfield).1

theorem exists_ofDocument {kind : EventKind} {body : Document} (h : kind.IsRecord body) :
    ∃ slots, ofDocument kind body = .ok slots := by
  obtain ⟨hshaped, hadmitted⟩ := h
  cases hshaped with
  | null => exact ⟨_, rfl⟩
  | list hlength =>
    obtain ⟨slots, hslots⟩ := exists_ofItems fun place field d hfield hitem =>
      hadmitted place field d hfield (.item hitem)
    exact ⟨slots, by simp [ofDocument, hslots, Nat.not_lt.mpr hlength]⟩
  | map hnamed honce =>
    refine exists_foldlM (fun e he => ?_) honce fun e he place field hfield hnames =>
      hadmitted place field e.2 hfield (.entry he hnames)
    obtain ⟨place, hnames⟩ := hnamed e he
    exact ⟨place, hnames, getElem?_empty hnames.lt⟩

end Slots

/-! ## Events -/

/-- What the field of a type at a place holds, or would if it were given. -/
def Slots.datum (slots : Slots) (type : FieldType) (place : Nat) : Datum :=
  match type with
  | .text => .text (slots.text place)
  | .flag => .flag (slots.flag place)

theorem Slots.datum_of_given {slots : Slots} {type : FieldType} {place : Nat} {d : Document} {datum : Datum}
    (h : slots[place]? = some (some datum)) (hsaid : Datum.Says type d datum) : slots.datum type place = datum := by
  cases hsaid <;> simp [datum, text, flag, h]

theorem Slots.datum_of_free {slots : Slots} {place : Nat} (h : slots[place]? = some none) (type : FieldType) :
    slots.datum type place = type.absent := by
  cases type <;> simp [datum, text, flag, h, FieldType.absent]

theorem EventKind.ofKeyword?_keyword (kind : EventKind) : ofKeyword? kind.keyword = some kind := by
  cases kind <;> rfl

theorem EventKind.eq_of_keyword {k k' : EventKind} (h : k.keyword = k'.keyword) : k = k' := by
  have hfound := ofKeyword?_keyword k
  rw [h, ofKeyword?_keyword] at hfound
  exact (Option.some.inj hfound).symm

theorem EventKind.ofKeyword?_eq_some_iff {word : String} {kind : EventKind} :
    ofKeyword? word = some kind ↔ kind.keyword = word := by
  constructor
  · intro h
    have hfound := List.find?_some h
    simpa using hfound
  · rintro rfl
    exact ofKeyword?_keyword kind

theorem EventKind.ofKey?_text_eq_some_iff {word : String} {kind : EventKind} :
    ofKey? (.text word) = some kind ↔ kind.keyed = true ∧ kind.keyword = word := by
  constructor
  · intro h
    have hfind : keyedKinds.find? (·.keyword == word) = some kind := h
    have hmem := List.mem_of_find?_eq_some hfind
    have hword := List.find?_some hfind
    refine ⟨?_, by simpa using hword⟩
    revert hmem
    cases kind <;> decide
  · rintro ⟨hkeyed, rfl⟩
    cases kind <;> first | rfl | cases hkeyed

namespace KeyedEvent

/-- What the fields of an event hold, in the order they are declared. -/
def data : KeyedEvent → List Datum
  | init b => [.text b.defaultBranch]
  | commit b => [.text b.message, .text b.author, .text b.email]
  | merge b => [.text b.theirs, .text b.message, .text b.author, .text b.email]
  | tag b => [.text b.name, .flag b.annotated, .text b.message, .text b.author, .text b.email]
  | createFile b | changeContent b => [.text b.file, .text b.content]
  | add b => [.text b.file, .flag b.all]
  | appendContent b => [.text b.file, .text b.content, .flag b.newLine]

/-- The fields of an event hold what a record gives for them, and the others what is absent. -/
def Holds (e : KeyedEvent) (body : Document) : Prop :=
  ∀ place field, e.kind.fields[place]? = some field → ∃ datum, e.data[place]? = some datum ∧
    (∀ d, e.kind.Gives body place d → Datum.Says field.type d datum) ∧
    ((∀ d, ¬ e.kind.Gives body place d) → datum = field.type.absent)

variable {e e' : KeyedEvent} {kind : EventKind} {body : Document}

theorem length_data (e : KeyedEvent) : e.data.length = e.kind.fields.length := by cases e <;> rfl

/-- An event is its kind and what its fields hold. -/
theorem eq_of_data (hkind : e.kind = e'.kind) (hdata : e.data = e'.data) : e = e' := by
  cases e <;> cases e' <;> cases hkind <;> rename_i b b' <;> cases b <;> cases b' <;> cases hdata <;> rfl

theorem Holds.unique (hkind : e.kind = e'.kind) (h : e.Holds body) (h' : e'.Holds body) : e = e' := by
  refine eq_of_data hkind (List.ext_getElem? fun place => ?_)
  cases hfield : e.kind.fields[place]? with
  | none =>
    have hle := List.getElem?_eq_none_iff.mp hfield
    rw [List.getElem?_eq_none (by rwa [length_data]), List.getElem?_eq_none (by rwa [length_data, ← hkind])]
  | some field =>
    obtain ⟨datum, hdatum, hgiven, hfree⟩ := h place field hfield
    obtain ⟨datum', hdatum', hgiven', hfree'⟩ := h' place field (hkind ▸ hfield)
    rw [← hkind] at hgiven' hfree'
    rw [hdatum, hdatum']
    by_cases hgives : ∃ d, e.kind.Gives body place d
    · obtain ⟨d, hd⟩ := hgives
      rw [(hgiven d hd).unique (hgiven' d hd)]
    · rw [not_exists] at hgives
      rw [hfree hgives, hfree' hgives]

theorem ofSlots?_eq_some {slots : Slots} (h : ofSlots? kind slots = some e) :
    e.kind = kind ∧ e.data = kind.fields.mapIdx fun place field => slots.datum field.type place := by
  cases kind <;> cases h <;> exact ⟨rfl, rfl⟩

theorem exists_ofSlots (hkeyed : kind.keyed = true) (slots : Slots) : ∃ e, ofSlots? kind slots = some e := by
  cases kind <;> first | exact ⟨_, rfl⟩ | cases hkeyed

/-- An event that is put together from what a record gives holds that. -/
theorem holds_of_slots {slots : Slots} (h : ofSlots? kind slots = some e) (hhold : slots.Hold kind body) :
    e.kind = kind ∧ e.Holds body := by
  obtain ⟨rfl, hdata⟩ := ofSlots?_eq_some h
  refine ⟨rfl, fun place field hfield => ⟨slots.datum field.type place, ?_, fun d hd => ?_, fun hnone => ?_⟩⟩
  · rw [hdata, List.getElem?_mapIdx, hfield]
    rfl
  · obtain ⟨datum, hslot, hsaid⟩ := hhold.given place field d hfield hd
    rwa [Slots.datum_of_given hslot hsaid]
  · exact Slots.datum_of_free (hhold.free place field hfield hnone) field.type

/-- What is read from under a keyword is an event of its kind that holds what the record gives. -/
theorem holds_of_ofDocument {word : String} (htexts : body.TextKeyed)
    (h : ofDocument (.map [(.text word, body)]) = .ok e) :
    e.kind.keyword = word ∧ e.kind.IsRecord body ∧ e.Holds body := by
  simp only [ofDocument] at h
  split at h
  case h_2 => cases h
  case h_1 kind hkind =>
    obtain ⟨slots, hslots, h⟩ := bind_eq_ok.mp h
    split at h
    case h_2 => cases h
    case h_1 event hevent =>
      cases h
      obtain ⟨hrecord, hhold⟩ := Slots.hold_of_ofDocument htexts hslots
      obtain ⟨rfl, hholds⟩ := holds_of_slots hevent hhold
      exact ⟨(EventKind.ofKey?_text_eq_some_iff.mp hkind).2, hrecord, hholds⟩

theorem exists_ofDocument (hkeyed : kind.keyed = true) (hrecord : kind.IsRecord body) :
    ∃ e, ofDocument (.map [(.text kind.keyword, body)]) = .ok e := by
  obtain ⟨slots, hslots⟩ := Slots.exists_ofDocument hrecord
  obtain ⟨e, he⟩ := exists_ofSlots hkeyed slots
  have hkind := EventKind.ofKey?_text_eq_some_iff.mpr ⟨hkeyed, rfl⟩
  exact ⟨e, by simp [ofDocument, hkind, hslots, he]⟩

/-- **A document under a keyword is read as the event whose record it is.** -/
theorem ofDocument_eq_ok_iff {word : String} (htexts : body.TextKeyed) :
    ofDocument (.map [(.text word, body)]) = .ok e ↔
      e.kind.keyword = word ∧ e.kind.IsRecord body ∧ e.Holds body := by
  refine ⟨holds_of_ofDocument htexts, ?_⟩
  rintro ⟨rfl, hrecord, hholds⟩
  -- something is read, and nothing but the event holds what the record gives
  obtain ⟨e', he'⟩ := exists_ofDocument e.keyed_kind hrecord
  obtain ⟨hkeyword, _, hholds'⟩ := holds_of_ofDocument htexts he'
  rwa [hholds'.unique (EventKind.eq_of_keyword hkeyword) hholds] at he'

end KeyedEvent

end Chronicle

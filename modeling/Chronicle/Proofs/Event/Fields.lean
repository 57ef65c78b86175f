import Chronicle.Proofs.Document.Worded
import Chronicle.Proofs.Event.Record

/-!
# What is given for the fields of an event

A list gives the fields of a record in order, and a map by keys: a name of the field or the place of it
(`EventKind.Fills`). **Whatever is given for a field is what the event holds in it** (`KeyedEvent.data_of_fills`); a
number that is given is held as its text (`Datum.Says.number`).
-/

namespace Chronicle

open Outcome

/-- What a record gives for the field at a place, in the order of the fields or under a key that names it. -/
inductive EventKind.Fills (kind : EventKind) : Document → Nat → Document → Prop
  | item {items : List Document} {place : Nat} {d : Document} (hitem : items[place]? = some d) :
      Fills kind (.list items) place d
  | entry {entries : List (Document × Document)} {place : Nat} {e : Document × Document} (hentry : e ∈ entries)
      (hplace : kind.placeOfKey e.1 = .ok place) : Fills kind (.map entries) place e.2

namespace Slots

variable {kind : EventKind} {slots slots' : Slots} {place : Nat}

/-- The field at a place holds what a document says in it. -/
def Says (kind : EventKind) (slots : Slots) (place : Nat) (d : Document) : Prop :=
  ∃ field datum, kind.fields[place]? = some field ∧ slots[place]? = some (some datum) ∧ Datum.Says field.type d datum

/-- An entry fills a field that was not filled before. -/
theorem exists_of_addEntry {entry : Document × Document} (h : addEntry kind slots entry = .ok slots') :
    ∃ place field datum, kind.placeOfKey entry.1 = .ok place ∧ kind.fields[place]? = some field ∧
      slots[place]? = some none ∧ Datum.Says field.type entry.2 datum ∧ slots' = slots.set place (some datum) := by
  obtain ⟨place, hplace, h⟩ := bind_eq_ok.mp h
  split at h
  case h_2 => cases h
  case h_1 field hfield =>
    split at h
    case h_2 => cases h
    case h_1 hfree =>
      obtain ⟨datum, hdatum, h⟩ := bind_eq_ok.mp h
      cases h
      exact ⟨place, field, datum, hplace, hfield, hfree, Datum.ofDocument_eq_ok_iff.mp hdatum, rfl⟩

/-- By induction on the entries: what is filled stays as it is, and every entry fills a field. -/
theorem says_of_foldlM {entries : List (Document × Document)}
    (h : entries.foldlM (addEntry kind) slots = .ok slots') :
    (∀ (place : Nat) datum, slots[place]? = some (some datum) → slots'[place]? = some (some datum)) ∧
      ∀ e ∈ entries, ∀ place, kind.placeOfKey e.1 = .ok place → Says kind slots' place e.2 := by
  induction entries generalizing slots with
  | nil =>
    cases h
    exact ⟨fun _ _ hfilled => hfilled, by simp⟩
  | cons e rest ih =>
    rw [List.foldlM_cons] at h
    obtain ⟨middle, hadd, h⟩ := bind_eq_ok.mp h
    obtain ⟨place, field, datum, hplace, hfield, hfree, hsaid, rfl⟩ := exists_of_addEntry hadd
    obtain ⟨hkept, hrest⟩ := ih h
    have hlt : place < slots.length := (List.getElem?_eq_some_iff.mp hfree).1
    refine ⟨fun place' datum' hfilled => hkept place' datum' ?_, List.forall_mem_cons.mpr ⟨?_, hrest⟩⟩
    · have hne : place ≠ place' := by
        rintro rfl
        rw [hfree] at hfilled
        cases hfilled
      rw [List.getElem?_set_ne hne, hfilled]
    · intro place' hplace'
      cases hplace.symm.trans hplace'
      exact ⟨field, datum, hfield, hkept place datum (List.getElem?_set_self hlt), hsaid⟩

theorem says_of_ofDocument {body d : Document} (h : ofDocument kind body = .ok slots)
    (hfills : kind.Fills body place d) : Says kind slots place d := by
  cases hfills with
  | @item items _ _ hitem =>
    obtain ⟨found, hfound, h⟩ := bind_eq_ok.mp h
    split at h
    · cases h
    · cases h
      have hlt : place < kind.fields.length := by
        have hbound := (List.getElem?_eq_some_iff.mp hitem).1
        omega
      have hfield := List.getElem?_eq_getElem hlt
      obtain ⟨datum, hdatum, hsaid⟩ := (ofItems_ok hfound place _ hfield).1 d hitem
      exact ⟨_, datum, hfield, hdatum, hsaid⟩
  | entry hentry hplace => exact (says_of_foldlM h).2 _ hentry place hplace

end Slots

/-- **An event holds in a field what is given for it.** -/
theorem KeyedEvent.data_of_fills {key body d : Document} {e : KeyedEvent} {place : Nat}
    (h : ofDocument (.map [(key, body)]) = .ok e) (hfills : e.kind.Fills body place d) :
    ∃ field datum, e.kind.fields[place]? = some field ∧ e.data[place]? = some datum ∧ Datum.Says field.type d datum := by
  simp only [ofDocument] at h
  split at h
  case h_2 => cases h
  case h_1 kind hkind =>
    obtain ⟨slots, hslots, h⟩ := bind_eq_ok.mp h
    split at h
    case h_2 => cases h
    case h_1 event hevent =>
      cases h
      obtain ⟨rfl, hdata⟩ := ofSlots?_eq_some hevent
      obtain ⟨field, datum, hfield, hslot, hsaid⟩ := Slots.says_of_ofDocument hslots hfills
      refine ⟨field, datum, hfield, ?_, hsaid⟩
      rw [hdata, List.getElem?_mapIdx, hfield, Option.map_some, Slots.datum_of_given hslot hsaid]

/-- A number stands in text fields only, and says the text of it there. -/
theorem Datum.Says.number {type : FieldType} {v : Document} {datum : Datum} (h : Says type v datum)
    (hv : v.IsNumber) : ∃ s, datum = .text (some s) ∧ v.scalarText? = .ok (some s) := by
  cases h with
  | int n => exact ⟨_, rfl, rfl⟩
  | float x => exact ⟨_, rfl, rfl⟩
  | null | text | bool | flag => exact hv.elim

end Chronicle

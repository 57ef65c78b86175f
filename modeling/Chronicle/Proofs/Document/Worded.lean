import Chronicle.Document.Basic

/-!
# Documents whose keys are texts

A document is worded (`Document.Worded`) when every key in it, however deep, is a text. **These documents and
no others have a plain form** (`Document.exists_canonical_iff`). What can be said of all numbers in a document is
said by `Document.Numbers`, and of both by `Document.Built`.
-/

namespace Chronicle

namespace Document

variable {d : Document} {items : List Document} {entries : List (Document × Document)}

/-- All keys of a document are texts. -/
inductive Worded : Document → Prop
  | null : Worded .null
  | bool (b : Bool) : Worded (.bool b)
  | int (n : Int) : Worded (.int n)
  | float (x : Binary64) : Worded (.float x)
  | text (s : String) : Worded (.text s)
  | list {items : List Document} (hitems : ∀ d ∈ items, Worded d) : Worded (.list items)
  | map {entries : List (Document × Document)} (hkeys : ∀ e ∈ entries, ∃ key, e.1 = .text key)
      (hvalues : ∀ e ∈ entries, Worded e.2) : Worded (.map entries)

@[simp] theorem worded_list : (Document.list items).Worded ↔ ∀ d ∈ items, d.Worded :=
  ⟨fun | .list hitems => hitems, .list⟩

@[simp] theorem worded_map : (Document.map entries).Worded ↔
    (∀ e ∈ entries, ∃ key, e.1 = .text key) ∧ ∀ e ∈ entries, e.2.Worded :=
  ⟨fun | .map hkeys hvalues => ⟨hkeys, hvalues⟩, fun ⟨hkeys, hvalues⟩ => .map hkeys hvalues⟩

/-! ## Plain forms -/

theorem exists_canonicalItems_iff : (∃ c, canonicalItems? items = some c) ↔
    ∀ d ∈ items, ∃ c, d.canonical? = some c := by
  induction items with
  | nil => simp [canonicalItems?]
  | cons item rest ih =>
    rw [List.forall_mem_cons, ← ih]
    cases hitem : item.canonical? <;> cases hrest : canonicalItems? rest <;>
      simp [canonicalItems?, hitem, hrest]

theorem exists_canonicalEntries_iff : (∃ c, canonicalEntries? entries = some c) ↔
    ∀ e ∈ entries, (∃ key, e.1 = .text key) ∧ ∃ c, e.2.canonical? = some c := by
  induction entries with
  | nil => simp [canonicalEntries?]
  | cons e rest ih =>
    obtain ⟨key, value⟩ := e
    rw [List.forall_mem_cons, ← ih]
    cases key with
    | text key =>
      cases hvalue : value.canonical? <;> cases hrest : canonicalEntries? rest <;>
        simp [canonicalEntries?, hvalue, hrest]
    | _ => simp [canonicalEntries?]

/-- By recursion on the document: what is in a list or a map with a plain form has one too. -/
theorem worded_of_canonical {d c : Document} (h : d.canonical? = some c) : d.Worded := by
  match d with
  | .null => exact .null
  | .bool b => exact .bool b
  | .int n => exact .int n
  | .float x => exact .float x
  | .text s => exact .text s
  | .list items =>
    obtain ⟨plain, hplain, _⟩ := Option.map_eq_some_iff.mp h
    refine .list fun item hitem => ?_
    obtain ⟨c, hc⟩ := exists_canonicalItems_iff.mp ⟨plain, hplain⟩ item hitem
    exact worded_of_canonical hc
  | .map entries =>
    obtain ⟨plain, hplain, _⟩ := Option.map_eq_some_iff.mp h
    have hentries := exists_canonicalEntries_iff.mp ⟨plain, hplain⟩
    refine .map (fun e he => (hentries e he).1) fun e he => ?_
    obtain ⟨c, hc⟩ := (hentries e he).2
    exact worded_of_canonical hc
  termination_by d
  decreasing_by
  · have hlt := List.sizeOf_lt_of_mem hitem
    simp
    omega
  · have hlt := List.sizeOf_lt_of_mem he
    obtain ⟨key, value⟩ := e
    simp at hlt ⊢
    omega

/-- **A document has a plain form exactly when its keys are texts.** -/
theorem exists_canonical_iff : (∃ c, d.canonical? = some c) ↔ d.Worded := by
  refine ⟨fun ⟨c, hc⟩ => worded_of_canonical hc, fun h => ?_⟩
  induction h with
  | null | bool | int | float | text => exact ⟨_, rfl⟩
  | list _ ih =>
    obtain ⟨c, hc⟩ := exists_canonicalItems_iff.mpr ih
    exact ⟨.list c, by rw [canonical?, hc, Option.map_some]⟩
  | map hkeys _ ih =>
    obtain ⟨c, hc⟩ := exists_canonicalEntries_iff.mpr fun e he => ⟨hkeys e he, ih e he⟩
    exact ⟨.map c, by rw [canonical?, hc, Option.map_some]⟩

/-! ## Numbers -/

/-- What is a number. -/
def IsNumber : Document → Prop
  | .int _ | .float _ => True
  | _ => False

/-- What is neither a list nor a map. -/
def IsScalar : Document → Prop
  | .list _ | .map _ => False
  | _ => True

/-- Every number in a document, in its keys too, has a property. -/
inductive Numbers (P : Document → Prop) : Document → Prop
  | null : Numbers P .null
  | bool (b : Bool) : Numbers P (.bool b)
  | int {n : Int} (h : P (.int n)) : Numbers P (.int n)
  | float {x : Binary64} (h : P (.float x)) : Numbers P (.float x)
  | text (s : String) : Numbers P (.text s)
  | list {items : List Document} (hitems : ∀ d ∈ items, Numbers P d) : Numbers P (.list items)
  | map {entries : List (Document × Document)} (hkeys : ∀ e ∈ entries, Numbers P e.1)
      (hvalues : ∀ e ∈ entries, Numbers P e.2) : Numbers P (.map entries)

theorem Numbers.of_isScalar {P : Document → Prop} (hd : d.IsScalar) (h : d.IsNumber → P d) : d.Numbers P := by
  cases d with
  | null => exact .null
  | bool b => exact .bool b
  | int n => exact .int (h trivial)
  | float x => exact .float (h trivial)
  | text s => exact .text s
  | list items => exact hd.elim
  | map entries => exact hd.elim

@[simp] theorem numbers_list {P : Document → Prop} : (Document.list items).Numbers P ↔ ∀ d ∈ items, d.Numbers P :=
  ⟨fun | .list hitems => hitems, .list⟩

@[simp] theorem numbers_map {P : Document → Prop} : (Document.map entries).Numbers P ↔
    (∀ e ∈ entries, e.1.Numbers P) ∧ ∀ e ∈ entries, e.2.Numbers P :=
  ⟨fun | .map hkeys hvalues => ⟨hkeys, hvalues⟩, fun ⟨hkeys, hvalues⟩ => .map hkeys hvalues⟩

theorem Numbers.mono {P Q : Document → Prop} (h : d.Numbers P) (hPQ : ∀ v, P v → Q v) : d.Numbers Q := by
  induction h with
  | null => exact .null
  | bool b => exact .bool b
  | int h => exact .int (hPQ _ h)
  | float h => exact .float (hPQ _ h)
  | text s => exact .text s
  | list _ ih => exact .list ih
  | map _ _ ihkeys ihvalues => exact .map ihkeys ihvalues

theorem Numbers.of_isNumber {P : Document → Prop} (h : d.Numbers P) (hd : d.IsNumber) : P d := by
  cases h with
  | int h => exact h
  | float h => exact h
  | null | bool | text | list | map => exact hd.elim

/-- A document whose keys are texts and whose numbers have a property: so is what is read from JSON and TOML. -/
def Built (P : Document → Prop) (d : Document) : Prop := d.Worded ∧ d.Numbers P

namespace Built

variable {P : Document → Prop}

theorem null : Document.null.Built P := ⟨.null, .null⟩

theorem bool (b : Bool) : (Document.bool b).Built P := ⟨.bool b, .bool b⟩

theorem int {n : Int} (h : P (.int n)) : (Document.int n).Built P := ⟨.int n, .int h⟩

theorem float {x : Binary64} (h : P (.float x)) : (Document.float x).Built P := ⟨.float x, .float h⟩

theorem text (s : String) : (Document.text s).Built P := ⟨.text s, .text s⟩

theorem of_isNumber {v : Document} (hv : v.IsNumber) (h : P v) : v.Built P := by
  cases v with
  | int n => exact .int h
  | float x => exact .float h
  | null | bool | text | list | map => exact hv.elim

end Built

@[simp] theorem built_list {P : Document → Prop} : (Document.list items).Built P ↔ ∀ d ∈ items, d.Built P := by
  simp only [Built, worded_list, numbers_list, forall_and]

@[simp] theorem built_map {P : Document → Prop} : (Document.map entries).Built P ↔
    (∀ e ∈ entries, ∃ key, e.1 = .text key) ∧ ∀ e ∈ entries, e.2.Built P := by
  simp only [Built, worded_map, numbers_map]
  constructor
  · rintro ⟨⟨htexts, hworded⟩, _, hnumbers⟩
    exact ⟨htexts, fun e he => ⟨hworded e he, hnumbers e he⟩⟩
  · rintro ⟨htexts, hbuilt⟩
    -- a text is no number
    have hkeys : ∀ e ∈ entries, e.1.Numbers P := by
      intro e he
      obtain ⟨key, hkey⟩ := htexts e he
      rw [hkey]
      exact .text key
    exact ⟨⟨htexts, fun e he => (hbuilt e he).1⟩, hkeys, fun e he => (hbuilt e he).2⟩

end Document

end Chronicle

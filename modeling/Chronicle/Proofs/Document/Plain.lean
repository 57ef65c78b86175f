import Chronicle.Document.Basic

/-!
# Documents in plain form

A document is in plain form (`Document.Plain`) when its numbers are finite and the keys of its maps are
texts, each once, in order. Such a document is its own plain form (`Document.Plain.canonical?_eq`), and the
plain form of a record whose fields are plain holds the same fields in another order
(`Document.canonical?_record`).
-/

namespace Chronicle.Document

/-- The keys of two entries are texts, the first before the second. -/
def KeyBefore (a b : Document × Document) : Prop := ∃ k l, a.1 = .text k ∧ b.1 = .text l ∧ k < l

/-- The plain form of documents. -/
inductive Plain : Document → Prop
  | null : Plain .null
  | bool (b : Bool) : Plain (.bool b)
  | int (n : Int) : Plain (.int n)
  | float {x : Binary64} (hfinite : x.isFinite = true) : Plain (.float x)
  | text (s : String) : Plain (.text s)
  | list {items : List Document} (hitems : ∀ d ∈ items, Plain d) : Plain (.list items)
  | map {entries : List (Document × Document)} (hkeys : ∀ e ∈ entries, ∃ key, e.1 = .text key)
      (horder : entries.Pairwise KeyBefore) (hvalues : ∀ e ∈ entries, Plain e.2) : Plain (.map entries)

/-- A record with one field. -/
theorem Plain.single {key : String} {value : Document} (h : value.Plain) :
    (Document.map [(.text key, value)]).Plain :=
  .map (by simp) (by simp) (List.forall_mem_singleton.mpr h)

/-- A record with two fields in order. -/
theorem Plain.pair {k l : String} {v w : Document} (hbefore : k < l) (hv : v.Plain) (hw : w.Plain) :
    (Document.map [(.text k, v), (.text l, w)]).Plain := by
  refine .map (by simp) ?_ (List.forall_mem_cons.mpr ⟨hv, List.forall_mem_singleton.mpr hw⟩)
  exact .cons (List.forall_mem_singleton.mpr ⟨k, l, rfl, rfl, hbefore⟩) (List.pairwise_singleton _ _)

/-! ## What is plain stays as it is -/

theorem canonicalItems?_eq {items : List Document} (h : ∀ d ∈ items, canonical? d = some d) :
    canonicalItems? items = some items := by
  induction items with
  | nil => rfl
  | cons item rest ih =>
    obtain ⟨hitem, hrest⟩ := List.forall_mem_cons.mp h
    simp [canonicalItems?, hitem, ih hrest]

/-- An entry that sorts before all others is put in front of them. -/
theorem insertEntry_of_before {key : String} {value : Document} {entries : List (Document × Document)}
    (h : ∀ e ∈ entries, KeyBefore (.text key, value) e) :
    insertEntry key value entries = (.text key, value) :: entries := by
  cases entries with
  | nil => rfl
  | cons e rest =>
    obtain ⟨e, v⟩ := e
    obtain ⟨k, l, hk, hl, hlt⟩ := h _ List.mem_cons_self
    cases hk
    cases hl
    have hne : key ≠ l := by
      rintro rfl
      exact String.lt_irrefl _ hlt
    rw [insertEntry, if_neg hne, if_pos hlt]

theorem canonicalEntries?_eq {entries : List (Document × Document)}
    (hkeys : ∀ e ∈ entries, ∃ key, e.1 = .text key) (horder : entries.Pairwise KeyBefore)
    (hvalues : ∀ e ∈ entries, canonical? e.2 = some e.2) : canonicalEntries? entries = some entries := by
  induction entries with
  | nil => rfl
  | cons e rest ih =>
    obtain ⟨⟨key, hkey⟩, hrestkeys⟩ := List.forall_mem_cons.mp hkeys
    obtain ⟨hvalue, hrestvalues⟩ := List.forall_mem_cons.mp hvalues
    obtain ⟨hbefore, hrestorder⟩ := List.pairwise_cons.mp horder
    obtain ⟨first, value⟩ := e
    cases hkey
    have hrest := ih hrestkeys hrestorder hrestvalues
    simp only at hvalue
    simp [canonicalEntries?, hvalue, hrest, insertEntry_of_before hbefore]

theorem Plain.canonical?_eq {d : Document} (h : d.Plain) : canonical? d = some d := by
  induction h with
  | null | bool | int | text => rfl
  | float hfinite => simp [canonical?, hfinite]
  | list _ ih => simp [canonical?, canonicalItems?_eq ih]
  | map hkeys horder _ ih => simp [canonical?, canonicalEntries?_eq hkeys horder ih]

/-! ## Records -/

/-- An entry under a new key is added, wherever it is put. -/
theorem insertEntry_perm {key : String} {value : Document} {entries : List (Document × Document)}
    (hnew : ∀ e ∈ entries, e.1 ≠ .text key) :
    (insertEntry key value entries).Perm ((.text key, value) :: entries) := by
  induction entries with
  | nil => exact .refl _
  | cons e rest ih =>
    obtain ⟨hne, hrest⟩ := List.forall_mem_cons.mp hnew
    have hlater : (e :: insertEntry key value rest).Perm ((.text key, value) :: e :: rest) :=
      ((ih hrest).cons e).trans (.swap _ _ _)
    unfold insertEntry
    split
    case h_1 => cases ‹_ = []›
    case h_2 k v tail heq =>
      cases heq
      have hkey : key ≠ k := fun h => hne (by rw [h])
      rw [if_neg hkey]
      split
      · exact .refl _
      · exact hlater
    case h_3 _ _ heq =>
      cases heq
      exact hlater

/-- The plain form of a record with plain fields, each named once. -/
theorem canonical?_record {fields : List (String × Document)} (honce : (fields.map Prod.fst).Nodup)
    (hvalues : ∀ f ∈ fields, canonical? f.2 = some f.2) : ∃ entries, canonical? (record fields) = some (.map entries) ∧
      entries.Perm (fields.map fun f => (.text f.1, f.2)) := by
  suffices hentries : ∃ entries, canonicalEntries? (fields.map fun f => (.text f.1, f.2)) = some entries ∧
      entries.Perm (fields.map fun f => (.text f.1, f.2)) by
    obtain ⟨entries, hentries, hperm⟩ := hentries
    exact ⟨entries, by simp only [record, canonical?, hentries, Option.map_some], hperm⟩
  induction fields with
  | nil => exact ⟨[], rfl, .refl _⟩
  | cons f rest ih =>
    obtain ⟨hf, hrest⟩ := List.forall_mem_cons.mp hvalues
    rw [List.map_cons, List.nodup_cons] at honce
    obtain ⟨entries, hentries, hperm⟩ := ih honce.2 hrest
    refine ⟨insertEntry f.1 f.2 entries, by simp [canonicalEntries?, hf, hentries], ?_⟩
    have hnew : ∀ e ∈ entries, e.1 ≠ .text f.1 := by
      intro e he heq
      obtain ⟨g, hg, rfl⟩ := List.mem_map.mp (hperm.mem_iff.mp he)
      have hname : g.1 = f.1 := Document.text.inj heq
      exact honce.1 (hname ▸ List.mem_map_of_mem hg)
    exact (insertEntry_perm hnew).trans (hperm.cons _)

end Chronicle.Document

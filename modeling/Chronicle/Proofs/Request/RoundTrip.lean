import Chronicle.Proofs.Event.Decode
import Chronicle.Request.Decode

/-!
# Requests are read as they were written

A keyed event is written field by field, absent texts left out (`KeyedEvent.toFields_eq`), so what it is
written as is a record of its kind that gives what the event holds, in whatever order the fields stand
(`KeyedEvent.isRecord_of_perm`, `KeyedEvent.holds_of_perm`). Texts are read as shorthand, and what is kept as
an unrecognized document is no event when it is read again. Hence **the plain form of what a request is
written as is read as the request** (`Request.reads_back`).
-/

namespace Chronicle

open Outcome

/-! ## Fields -/

/-- The type of the field that something is found in. -/
def Datum.type : Datum → FieldType
  | text _ => .text
  | flag _ => .flag

/-- What a field is written as; an absent text is left out. -/
def Field.write (f : Field) : Datum → List (String × Document)
  | .text value => Document.textField f.name value
  | .flag value => [(f.name, .bool value)]

section

variable {f : Field} {datum : Datum} {entry : String × Document}

theorem Field.name_of_write (h : entry ∈ f.write datum) : entry.1 = f.name := by
  match datum, h with
  | .text (some s), h => simp_all [write, Document.textField]
  | .flag b, h => simp_all [write]

/-- What is written says what was to be written. -/
theorem Field.says_of_write (h : entry ∈ f.write datum) : Datum.Says datum.type entry.2 datum := by
  match datum, h with
  | .text (some s), h =>
    obtain rfl := List.mem_singleton.mp h
    exact .text s
  | .flag b, h =>
    obtain rfl := List.mem_singleton.mp h
    exact .flag b

theorem Field.canonical?_of_write (h : entry ∈ f.write datum) : entry.2.canonical? = some entry.2 := by
  match datum, h with
  | .text (some s), h =>
    obtain rfl := List.mem_singleton.mp h
    rfl
  | .flag b, h =>
    obtain rfl := List.mem_singleton.mp h
    rfl

/-- Only what is absent is left out. -/
theorem Field.absent_of_write (h : f.write datum = []) : datum = datum.type.absent := by
  match datum, h with
  | .text none, _ => rfl

theorem Field.write_sublist (f : Field) (datum : Datum) : ((f.write datum).map Prod.fst).Sublist [f.name] := by
  match datum with
  | .text none => exact List.nil_sublist _
  | .text (some _) | .flag _ => exact .refl _

end

/-- Fields are named in the order in which they are declared. -/
theorem Field.names_sublist (fields : List Field) (data : List Datum) :
    ((List.zipWith Field.write fields data).flatten.map Prod.fst).Sublist (fields.map Field.name) := by
  induction fields generalizing data with
  | nil => exact List.nil_sublist _
  | cons f rest ih =>
    cases data with
    | nil => exact List.nil_sublist _
    | cons datum data =>
      rw [List.zipWith_cons_cons, List.flatten_cons, List.map_append]
      exact (f.write_sublist datum).append (ih data)

theorem EventKind.nodup_names (kind : EventKind) : (kind.fields.map Field.name).Nodup := by
  cases kind <;> decide

/-! ## Keyed events -/

namespace KeyedEvent

variable {e : KeyedEvent} {entries : List (Document × Document)}

theorem toFields_eq (e : KeyedEvent) : e.toFields = (List.zipWith Field.write e.kind.fields e.data).flatten := by
  cases e <;> simp [toFields, kind, data, EventKind.fields, EventKind.authorField, Field.write]

theorem mem_toFields {entry : String × Document} : entry ∈ e.toFields ↔
    ∃ (place : Nat) (field : Field) (datum : Datum), e.kind.fields[place]? = some field ∧
      e.data[place]? = some datum ∧ entry ∈ field.write datum := by
  rw [toFields_eq, List.mem_flatten]
  constructor
  · rintro ⟨written, hwritten, hentry⟩
    obtain ⟨place, hplace⟩ := List.mem_iff_getElem?.mp hwritten
    obtain ⟨field, datum, hfield, hdatum, rfl⟩ := List.getElem?_zipWith_eq_some.mp hplace
    exact ⟨place, field, datum, hfield, hdatum, hentry⟩
  · rintro ⟨place, field, datum, hfield, hdatum, hentry⟩
    have hplace : (List.zipWith Field.write e.kind.fields e.data)[place]? = some (field.write datum) :=
      List.getElem?_zipWith_eq_some.mpr ⟨field, datum, hfield, hdatum, rfl⟩
    exact ⟨field.write datum, List.mem_of_getElem? hplace, hentry⟩

theorem nodup_toFields (e : KeyedEvent) : (e.toFields.map Prod.fst).Nodup := by
  rw [toFields_eq]
  exact (Field.names_sublist _ _).nodup e.kind.nodup_names

/-- The fields of an event hold what their types allow. -/
theorem type_of_data {place : Nat} {field : Field} {datum : Datum} (hfield : e.kind.fields[place]? = some field)
    (hdatum : e.data[place]? = some datum) : datum.type = field.type := by
  have htypes : e.data.map Datum.type = e.kind.fields.map Field.type := by cases e <;> rfl
  have hplace := congrArg (·[place]?) htypes
  simpa [hfield, hdatum] using hplace

theorem exists_datum {place : Nat} {field : Field} (hfield : e.kind.fields[place]? = some field) :
    ∃ datum, e.data[place]? = some datum := by
  have hlt : place < e.data.length := by
    rw [length_data]
    exact (List.getElem?_eq_some_iff.mp hfield).1
  exact ⟨_, List.getElem?_eq_getElem hlt⟩

/-! What an event is written as, in some order. -/

section

variable (hperm : entries.Perm (e.toFields.map fun f => (.text f.1, f.2)))
include hperm

/-- An entry is that of some field. -/
theorem exists_of_perm {entry : Document × Document} (hentry : entry ∈ entries) :
    ∃ (place : Nat) (field : Field) (datum : Datum), e.kind.fields[place]? = some field ∧
      e.data[place]? = some datum ∧ entry.1 = .text field.name ∧ e.kind.Names place entry.1 ∧
      Datum.Says field.type entry.2 datum := by
  obtain ⟨f, hf, rfl⟩ := List.mem_map.mp (hperm.mem_iff.mp hentry)
  obtain ⟨place, field, datum, hfield, hdatum, hwritten⟩ := mem_toFields.mp hf
  have hname := Field.name_of_write hwritten
  have hsaid := Field.says_of_write hwritten
  rw [type_of_data hfield hdatum] at hsaid
  exact ⟨place, field, datum, hfield, hdatum, by rw [hname],
    ⟨field, f.1, hfield, rfl, by rw [hname]; exact List.mem_cons_self⟩, hsaid⟩

/-- The entry of a field stands under its own name and says what the field holds. -/
theorem entry_of_perm {place : Nat} {field : Field} {datum : Datum} {entry : Document × Document}
    (hfield : e.kind.fields[place]? = some field) (hdatum : e.data[place]? = some datum) (hentry : entry ∈ entries)
    (hnames : e.kind.Names place entry.1) : entry.1 = .text field.name ∧ Datum.Says field.type entry.2 datum := by
  obtain ⟨place', field', datum', hfield', hdatum', hkey, hnames', hsaid⟩ := exists_of_perm hperm hentry
  obtain rfl := hnames.unique hnames'
  obtain rfl := Option.some.inj (hfield.symm.trans hfield')
  obtain rfl := Option.some.inj (hdatum.symm.trans hdatum')
  exact ⟨hkey, hsaid⟩

/-- Only a field that is left out has no entry. -/
theorem write_of_not_gives {place : Nat} {field : Field} {datum : Datum}
    (hfield : e.kind.fields[place]? = some field) (hdatum : e.data[place]? = some datum)
    (hnone : ∀ d, ¬ e.kind.Gives (.map entries) place d) : field.write datum = [] := by
  refine List.eq_nil_iff_forall_not_mem.mpr fun f hf => ?_
  have hentry : (Document.text f.1, f.2) ∈ entries :=
    hperm.mem_iff.mpr (List.mem_map_of_mem (mem_toFields.mpr ⟨place, field, datum, hfield, hdatum, hf⟩))
  have hname := Field.name_of_write hf
  exact hnone _ (.entry hentry ⟨field, f.1, hfield, rfl, by rw [hname]; exact List.mem_cons_self⟩)

theorem isRecord_of_perm : e.kind.IsRecord (.map entries) := by
  refine ⟨.map (fun entry hentry => ?_) ?_, ?_⟩
  · obtain ⟨place, _, _, _, _, _, hnames, _⟩ := exists_of_perm hperm hentry
    exact ⟨place, hnames⟩
  · have hkeys : (entries.map Prod.fst).Nodup := by
      refine (hperm.map Prod.fst).nodup_iff.mpr ?_
      have hnodup : ((e.toFields.map Prod.fst).map Document.text).Nodup :=
        List.Pairwise.map Document.text (fun _ _ hne heq => hne (Document.text.inj heq)) e.nodup_toFields
      simpa [List.map_map, Function.comp_def] using hnodup
    refine (List.pairwise_map.mp hkeys).imp_of_mem fun ha hb hne place hnames hnames' => hne ?_
    -- both keys name one field, and the event is written with its own name alone
    have hfield := List.getElem?_eq_getElem hnames.lt
    obtain ⟨datum, hdatum⟩ := exists_datum hfield
    rw [(entry_of_perm hperm hfield hdatum ha hnames).1, (entry_of_perm hperm hfield hdatum hb hnames').1]
  · intro place field d hfield hgives
    obtain ⟨entry, hentry, hnames, rfl⟩ := EventKind.exists_of_gives hgives
    obtain ⟨datum, hdatum⟩ := exists_datum hfield
    exact FieldType.admits_iff.mpr ⟨datum, (entry_of_perm hperm hfield hdatum hentry hnames).2⟩

theorem holds_of_perm : e.Holds (.map entries) := by
  intro place field hfield
  obtain ⟨datum, hdatum⟩ := exists_datum hfield
  refine ⟨datum, hdatum, ?_, fun hnone => ?_⟩
  · intro d hgives
    obtain ⟨entry, hentry, hnames, rfl⟩ := EventKind.exists_of_gives hgives
    exact (entry_of_perm hperm hfield hdatum hentry hnames).2
  · rw [← type_of_data hfield hdatum]
    exact Field.absent_of_write (write_of_not_gives hperm hfield hdatum hnone)

end

/-- A keyed event is read from the plain form of what it is written as. -/
theorem exists_canonical (e : KeyedEvent) : ∃ d, e.toDocument.canonical? = some d ∧ (∀ s, d ≠ .text s) ∧
    ofDocument d = .ok e := by
  have hvalues : ∀ f ∈ e.toFields, f.2.canonical? = some f.2 := by
    intro f hf
    obtain ⟨_, _, _, _, _, hwritten⟩ := mem_toFields.mp hf
    exact Field.canonical?_of_write hwritten
  obtain ⟨entries, hentries, hperm⟩ := Document.canonical?_record e.nodup_toFields hvalues
  refine ⟨.map [(.text e.kind.keyword, .map entries)], ?_, by simp, ?_⟩
  · show Document.canonical? (.map [(.text e.kind.keyword, .record e.toFields)]) = _
    simp [Document.canonical?, Document.canonicalEntries?, Document.insertEntry, hentries]
  · have hrecord := isRecord_of_perm hperm
    exact (ofDocument_eq_ok_iff hrecord.textKeyed).mpr ⟨rfl, hrecord, holds_of_perm hperm⟩

end KeyedEvent

/-! ## Entries of a log -/

/-- What an event keeps as unrecognized is in plain form, and neither a text nor a keyed event. -/
def Event.Proper : Event → Prop
  | unrecognized value => value.Plain ∧ (∀ s, value ≠ .text s) ∧ ∀ e, KeyedEvent.ofDocument value ≠ .ok e
  | _ => True

theorem Event.exists_canonical {event : Event} (h : event.Proper) :
    ∃ d, event.toDocument.canonical? = some d ∧ ofDocument? d = some event := by
  cases event with
  | shorthand text => exact ⟨.text text, rfl, rfl⟩
  | keyed e =>
    obtain ⟨d, hd, hentry, hread⟩ := e.exists_canonical
    exact ⟨d, hd, (ofDocument?_eq_keyed_iff hentry).mpr hread⟩
  | unrecognized value =>
    obtain ⟨hplain, hentry, hnone⟩ := h
    exact ⟨value, hplain.canonical?_eq, ofDocument?_eq_unrecognized hplain hentry hnone⟩

theorem Event.exists_canonicalItems {events : List Event} (h : ∀ event ∈ events, event.Proper) :
    ∃ items, Document.canonicalItems? (events.map toDocument) = some items ∧
      items.mapM ofDocument? = some events := by
  induction events with
  | nil => exact ⟨[], rfl, rfl⟩
  | cons event rest ih =>
    obtain ⟨hevent, hrest⟩ := List.forall_mem_cons.mp h
    obtain ⟨d, hd, hread⟩ := exists_canonical hevent
    obtain ⟨items, hitems, hreads⟩ := ih hrest
    exact ⟨d :: items, by simp [Document.canonicalItems?, hd, hitems], by simp [hread, hreads]⟩

/-! ## Requests -/

theorem Authorship.plain_toDocument (a : Authorship) : a.toDocument.Plain := by
  obtain ⟨_ | author, _ | email⟩ := a
  · show (Document.map []).Plain
    exact .map (by simp) .nil (by simp)
  · exact .single (.text email)
  · exact .single (.text author)
  · exact .pair (by decide) (.text author) (.text email)

theorem Authorship.ofDocument?_toDocument (a : Authorship) : ofDocument? a.toDocument = some a := by
  obtain ⟨_ | author, _ | email⟩ := a <;> rfl

/-- A log is read from its entries and from its authorship, if there is one. -/
theorem EventLog.ofDocument?_of_fields {d : Document} {items : List Document} {l : EventLog}
    (hfields : recordFields [["log"], ["conf"]] d = some [some (.list items), l.authorship.map Authorship.toDocument])
    (hreads : items.mapM Event.ofDocument? = some l.events) : ofDocument? d = some l := by
  obtain ⟨events, _ | a⟩ := l
  · simp [ofDocument?, hfields, fieldAt, hreads]
  · -- null would be no authorship, but that is not how one is written
    have hnull : a.toDocument ≠ .null := by simp [Authorship.toDocument, Document.record]
    have hconf := a.ofDocument?_toDocument
    simp [ofDocument?, hfields, fieldAt, hreads, hconf]

theorem EventLog.exists_canonical {l : EventLog} (h : ∀ event ∈ l.events, event.Proper) :
    ∃ d, l.toDocument.canonical? = some d ∧ ofDocument? d = some l := by
  obtain ⟨items, hitems, hreads⟩ := Event.exists_canonicalItems h
  obtain ⟨events, _ | a⟩ := l
  · refine ⟨.map [(.text "log", .list items)], ?_, ofDocument?_of_fields rfl hreads⟩
    simp [toDocument, Document.record, Document.canonical?, Document.canonicalEntries?, Document.insertEntry, hitems]
  · -- the authorship is sorted before the entries
    have hafter : ¬ "log" < "conf" := by decide
    refine ⟨.map [(.text "conf", a.toDocument), (.text "log", .list items)], ?_, ofDocument?_of_fields rfl hreads⟩
    simp [toDocument, Document.record, Document.canonical?, Document.canonicalEntries?, Document.insertEntry,
      hitems, a.plain_toDocument.canonical?_eq, hafter]

namespace Request

/-- The events of a log are proper ones. -/
def Proper : Request → Prop
  | log l => ∀ event ∈ l.events, event.Proper
  | commits _ => True

/-- A number of commits is no log. -/
theorem ofDocument?_commits (count : UInt32) :
    ofDocument? (.map [(.text "commits", .int count.toNat)]) = some (.commits count) := by
  have hlog : EventLog.ofDocument? (.map [(.text "commits", .int count.toNat)]) = none := rfl
  have hlt : count.toNat < twoTo 32 := count.toNat_lt
  simp [ofDocument?, hlog, commitsOfDocument?, fieldsAmong, placeAmong, fieldAt, hlt]

/-- **Requests are read as they were written.** A request whose unrecognized entries are in plain form, and
neither texts nor keyed events, has a document with a plain form, and that is read as the request itself. -/
theorem reads_back (r : Request) (h : r.Proper) :
    ∃ d, r.toDocument.canonical? = some d ∧ ofDocument? d = some r := by
  cases r with
  | commits count => exact ⟨_, (Document.Plain.single (.int count.toNat)).canonical?_eq, ofDocument?_commits count⟩
  | log l =>
    obtain ⟨d, hd, hread⟩ := EventLog.exists_canonical h
    exact ⟨d, hd, by rw [ofDocument?, hread]⟩

/-- A log with an entry of each sort, for which an author is given. -/
def mixed : EventLog where
  events := [.shorthand "init", .keyed (.tag ⟨some "v1", true, none, none, none⟩), .unrecognized Event.misspelt]
  authorship := some ⟨some "A", none⟩

theorem reads_back_mixed : Proper (.log mixed) ∧
    ∃ d, (Request.log mixed).toDocument.canonical? = some d ∧ ofDocument? d = some (.log mixed) := by
  have hmisspelt : (Event.unrecognized Event.misspelt).Proper :=
    ⟨Event.plain_misspelt, by simp [Event.misspelt], fun e he => by cases he⟩
  have hproper : Proper (.log mixed) := by
    intro event hevent
    simp only [mixed, List.mem_cons, List.not_mem_nil, or_false] at hevent
    obtain rfl | rfl | rfl := hevent
    · trivial
    · trivial
    · exact hmisspelt
  exact ⟨hproper, reads_back (.log mixed) hproper⟩

end Request

end Chronicle

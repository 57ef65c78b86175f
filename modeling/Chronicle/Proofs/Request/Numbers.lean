import Chronicle.Proofs.Document.JsonNumeral
import Chronicle.Proofs.Document.TomlNumeral
import Chronicle.Proofs.Document.YamlNumeral
import Chronicle.Proofs.Event.Fields
import Chronicle.Proofs.Request.Entries

/-!
# Numbers in the text fields of events

A text field of an event may be given as a number. What is kept of it is the text of its value, not the numeral that
stands in the file: **the two are the same for integers of 64 bits and for decimals in their shortest form, and every
other decimal is kept in its shortest form** (`Request.numbers_kept`). So two decimals are kept apart exactly if they
are two numbers, and 1.10 is kept as 1.1 (`Request.not_all_numbers_kept`).
-/

namespace Chronicle

open Numeral Outcome

variable {format format' : Format} {text text' : String} {cs : List Char} {d v w : Document} {n : Int}
  {m m' : Numeral.Decimal}

/-! ## Numerals of a format -/

/-- A numeral stands in a text in a format, and is read as a number. -/
def Format.Written (format : Format) (text : String) : List Char → Document → Prop :=
  match format with
  | .json => Json.Written text.toList
  | .yaml => Yaml.Written text.toList
  | .toml => Toml.Written text.toList

/-- A number of a document stands in a text as a numeral, or a tag of YAML asks for it. -/
def Format.Stands (format : Format) (text : String) (v : Document) : Prop :=
  (∃ cs, format.Written text cs v) ∨ format = .yaml ∧ Yaml.Tagged v

namespace Format

theorem Reads.numbers (h : format.Reads text d) : d.Numbers (format.Stands text) := by
  cases format with
  | json => exact (Json.built_of_readLeading h).2.mono fun _ => .inl
  | yaml => exact (Yaml.numbers_of_read h).mono fun _ hv => hv.imp_right fun htag => ⟨rfl, htag⟩
  | toml => exact (Toml.built_of_read h).2.mono fun _ => .inl

theorem Written.int (h : format.Written text (toString n).toList v) (hlow : -(twoTo 63 : Int) ≤ n)
    (hhigh : n < twoTo 64) : v = .int n := by
  cases format with
  | json => exact Json.Written.int h hlow hhigh
  | yaml => exact Yaml.Written.int h hlow hhigh
  | toml => exact Toml.Written.int h

theorem Written.decimal (h : format.Written text m.text v) : ∃ x, v = .float x ∧ m.Rounds x := by
  cases format with
  | json => exact Json.Written.decimal h
  | yaml => exact Yaml.Written.decimal h
  | toml => exact Toml.Written.decimal h

/-- The text of a decimal is the decimal in its shortest form. -/
theorem Written.shortened (h : format.Written text m.text v) (hshortest : m'.Shortest)
    (hsign : m'.negative = m.negative) (hvalue : m'.value = m.value) :
    v.scalarText? = .ok (some (String.ofList m'.text)) := by
  obtain ⟨x, rfl, hrounds⟩ := h.decimal
  rw [Document.scalarText?, hrounds.write_eq hshortest hsign hvalue]

/-- A decimal is its own text exactly if it is in its shortest form. -/
theorem Written.own_iff (h : format.Written text m.text v) :
    v.scalarText? = .ok (some (String.ofList m.text)) ↔ m.Shortest := by
  obtain ⟨s, hs, hsign, hvalue⟩ := m.exists_shortest
  constructor
  · rw [h.shortened hs hsign hvalue]
    intro heq
    have htext : s.text = m.text := String.ofList_injective (Option.some.inj (Except.ok.inj heq))
    obtain ⟨_, hdigits, hplaces⟩ := Decimal.eq_of_text htext
    rwa [Decimal.Shortest, hdigits, hplaces] at hs
  · exact fun hshortest => h.shortened hshortest rfl rfl

/-- The text of a numeral that is written as the number is, is the numeral. -/
theorem Written.kept (h : format.Written text cs v) (hcs : Kept cs) :
    v.scalarText? = .ok (some (String.ofList cs)) := by
  cases hcs with
  | int hlow hhigh =>
    rw [h.int hlow hhigh, String.ofList_toList]
    rfl
  | decimal hshortest => exact h.shortened hshortest rfl rfl

/-- Two decimals have one text exactly if they are one number. -/
theorem Written.alike_iff (h : format.Written text m.text v) (h' : format'.Written text' m'.text w) :
    v.scalarText? = w.scalarText? ↔ m.negative = m'.negative ∧ m.value = m'.value := by
  obtain ⟨s, hs, hsign, hvalue⟩ := m.exists_shortest
  obtain ⟨s', hs', hsign', hvalue'⟩ := m'.exists_shortest
  rw [h.shortened hs hsign hvalue, h'.shortened hs' hsign' hvalue']
  constructor
  · intro heq
    have htext : s.text = s'.text := String.ofList_injective (Option.some.inj (Except.ok.inj heq))
    obtain ⟨hnegative, hdigits, hplaces⟩ := Decimal.eq_of_text htext
    refine ⟨by rw [← hsign, hnegative, hsign'], ?_⟩
    rw [← hvalue, ← hvalue', Decimal.value, hdigits, hplaces, Decimal.value]
  · rintro ⟨hnegative, hequal⟩
    have hshort := h.shortened hs' (hsign'.trans hnegative.symm) (hvalue'.trans hequal.symm)
    rw [← hshort, h.shortened hs hsign hvalue]

end Format

/-! ## The entries of a log -/

/-- What every step of a fold preserves holds at its end. -/
theorem of_foldlM {α β : Type} {P : β → Prop} {f : β → α → Option β} {l : List α} {b b' : β}
    (hstep : ∀ b a b', a ∈ l → P b → f b a = some b' → P b') (hb : P b) (h : l.foldlM f b = some b') : P b' := by
  induction l generalizing b with
  | nil =>
    cases h
    exact hb
  | cons a rest ih =>
    rw [List.foldlM_cons] at h
    obtain ⟨middle, hmiddle, h⟩ := Option.bind_eq_some_iff.mp h
    have hnext : P middle := hstep b a middle List.mem_cons_self hb hmiddle
    exact ih (fun b x b' hx => hstep b x b' (List.mem_cons_of_mem a hx)) hnext h

section

variable {names : List (List String)} {fields : List (Option Document)} {items : List Document}
  {entries : List (Document × Document)} {P : Document → Prop}

/-- What a map gives for fields is among its values. -/
theorem exists_of_fieldsAmong (h : fieldsAmong names entries = some fields) (hv : some v ∈ fields) :
    ∃ e ∈ entries, e.2 = v := by
  refine of_foldlM (P := fun found => some v ∈ found → ∃ e ∈ entries, e.2 = v) ?_ (by simp) h hv
  rintro found ⟨key, value⟩ found' he ih h hv
  obtain ⟨place, _, h⟩ := Option.bind_eq_some_iff.mp h
  split at h
  · cases h
    exact ih hv
  · split at h
    · cases h
      obtain hold | hnew := List.mem_or_eq_of_mem_set hv
      · exact ih hold
      · exact ⟨_, he, (Option.some.inj hnew).symm⟩
    · cases h

theorem Document.Numbers.field (hd : d.Numbers P) (h : recordFields names d = some fields) (hv : some v ∈ fields) :
    v.Numbers P := by
  unfold recordFields at h
  split at h
  · obtain ⟨e, he, rfl⟩ := exists_of_fieldsAmong h hv
    exact (Document.numbers_map.mp hd).2 e he
  · split at h
    · cases h
      obtain hitem | hnone := List.mem_append.mp hv
      · obtain ⟨item, hitem, heq⟩ := List.mem_map.mp hitem
        cases heq
        exact Document.numbers_list.mp hd _ hitem
      · cases List.eq_of_mem_replicate hnone
    · cases h
  · cases h

end

namespace EventLog

variable {log : EventLog} {items : List Document} {P : Document → Prop}

/-- The entries of the log that a document is. -/
def entries? (d : Document) : Option (List Document) := do
  let fields ← recordFields [["log"], ["conf"]] d
  let some (.list items) := fieldAt fields 0 | none
  return items

theorem exists_entries (h : EventLog.ofDocument? d = some log) :
    ∃ items, entries? d = some items ∧ List.Forall₂ Event.Enters items log.events := by
  obtain ⟨fields, hfields, h⟩ := Option.bind_eq_some_iff.mp h
  split at h
  · rename_i items hitems
    obtain ⟨events, hevents, h⟩ := Option.bind_eq_some_iff.mp h
    refine ⟨items, by simp [entries?, hfields, hitems], ?_⟩
    have hlog : log.events = events := by
      split at h
      · cases h
        rfl
      · cases h
        rfl
      · obtain ⟨conf, _, h⟩ := Option.bind_eq_some_iff.mp h
        cases h
        rfl
    rw [hlog]
    exact mapM_eq_some_iff.mp hevents
  · cases h

theorem numbers_entries (hd : d.Numbers P) (h : entries? d = some items) : ∀ item ∈ items, item.Numbers P := by
  obtain ⟨fields, hfields, h⟩ := Option.bind_eq_some_iff.mp h
  split at h
  · rename_i hlist
    cases h
    have hmem : some (Document.list items) ∈ fields := by
      unfold fieldAt at hlist
      cases hfirst : fields[0]? with
      | none =>
        rw [hfirst] at hlist
        cases hlist
      | some field =>
        rw [hfirst, Option.getD_some] at hlist
        exact hlist ▸ List.mem_of_getElem? hfirst
    exact Document.numbers_list.mp (hd.field hfields hmem)
  · cases h

theorem numbers_of_fills {kind : EventKind} {body : Document} {place : Nat} (hbody : body.Numbers P)
    (h : kind.Fills body place v) : v.Numbers P := by
  cases h with
  | item hitem => exact Document.numbers_list.mp hbody _ (List.mem_of_getElem? hitem)
  | entry hentry => exact (Document.numbers_map.mp hbody).2 _ hentry

/-! ## Numbers in a log -/

/-- The entry at some line is a keyed event and gives a number for the field at a place of it. -/
structure GivesNumber (log : EventLog) (items : List Document) (i place : Nat) (v : Document) (e : KeyedEvent) :
    Prop where
  event : log.events[i]? = some (.keyed e)
  given : ∃ key body, items[i]? = some (.map [(key, body)]) ∧ e.kind.Fills body place v
  number : v.IsNumber

/-- A field of an event that is given as a number holds a text. -/
def HoldsNumber (log : EventLog) (items : List Document) (v : Document) (s : String) : Prop :=
  ∃ i place e, log.GivesNumber items i place v e ∧ e.data[place]? = some (.text (some s))

/-- What is kept of the numbers that a log is given in a text. -/
structure KeepsNumbers (log : EventLog) (items : List Document) (format : Format) (text : String) : Prop where
  /-- Each number that is given for a field is held there as a text. -/
  held : ∀ i place v e, log.GivesNumber items i place v e → ∃ s, e.data[place]? = some (.text (some s))
  /-- The number stands in the text, or a tag asks for it. -/
  stands : ∀ v s, log.HoldsNumber items v s → format.Stands text v
  /-- Nothing but its value is kept. -/
  value : ∀ v s, log.HoldsNumber items v s → v.scalarText? = .ok (some s)
  /-- A numeral that is written as the number is, is kept as it is. -/
  kept : ∀ v s cs, log.HoldsNumber items v s → format.Written text cs v → Kept cs → s = String.ofList cs
  /-- A decimal is kept as it is written exactly if it is in its shortest form. -/
  own : ∀ v s (m : Numeral.Decimal), log.HoldsNumber items v s → format.Written text m.text v →
    (s = String.ofList m.text ↔ m.Shortest)
  /-- It is kept in that form anyway. -/
  shortened : ∀ v s (m m' : Numeral.Decimal), log.HoldsNumber items v s → format.Written text m.text v → m'.Shortest →
    m'.negative = m.negative → m'.value = m.value → s = String.ofList m'.text
  /-- Decimals are kept apart exactly if they are two numbers. -/
  alike : ∀ v w s t (m m' : Numeral.Decimal), log.HoldsNumber items v s → log.HoldsNumber items w t →
    format.Written text m.text v → format.Written text m'.text w →
    (s = t ↔ m.negative = m'.negative ∧ m.value = m'.value)

theorem GivesNumber.exists_text {i place : Nat} {e : KeyedEvent} (hentries : List.Forall₂ Event.Enters items log.events)
    (h : log.GivesNumber items i place v e) :
    ∃ s, e.data[place]? = some (.text (some s)) ∧ v.scalarText? = .ok (some s) := by
  obtain ⟨key, body, hitem, hfills⟩ := h.given
  obtain ⟨hlt, hitem⟩ := List.getElem?_eq_some_iff.mp hitem
  obtain ⟨hlt', hevent⟩ := List.getElem?_eq_some_iff.mp h.event
  have henters : Event.Enters (.map [(key, body)]) (.keyed e) := hitem ▸ hevent ▸ hentries.get hlt hlt'
  cases henters with
  | keyed hdecoded =>
    obtain ⟨field, datum, _, hdatum, hsaid⟩ := KeyedEvent.data_of_fills hdecoded hfills
    obtain ⟨s, rfl, hs⟩ := hsaid.number h.number
    exact ⟨s, hdatum, hs⟩

theorem KeepsNumbers.of_entries (hreads : format.Reads text d) (hitems : entries? d = some items)
    (hentries : List.Forall₂ Event.Enters items log.events) : log.KeepsNumbers items format text := by
  have hvalue (v : Document) (s : String) (h : log.HoldsNumber items v s) : v.scalarText? = .ok (some s) := by
    obtain ⟨i, place, e, hgives, hs⟩ := h
    obtain ⟨t, ht, htext⟩ := hgives.exists_text hentries
    cases hs.symm.trans ht
    exact htext
  have heq {v : Document} {s t : String} (h : log.HoldsNumber items v s)
      (ht : v.scalarText? = .ok (some t)) : s = t := by
    have htexts := (hvalue v s h).symm.trans ht
    exact Option.some.inj (Except.ok.inj htexts)
  refine ⟨fun i place v e h => ?_, fun v s h => ?_, hvalue, fun v s cs h hwritten hcs => heq h (hwritten.kept hcs),
    fun v s m h hwritten => ?_,
    fun v s m m' h hwritten hshortest hsign hsame => heq h (hwritten.shortened hshortest hsign hsame),
    fun v w s t m m' h h' hwritten hwritten' => ?_⟩
  · obtain ⟨s, hs, _⟩ := h.exists_text hentries
    exact ⟨s, hs⟩
  · obtain ⟨i, place, e, hgives, _⟩ := h
    obtain ⟨key, body, hitem, hfills⟩ := hgives.given
    have hitemnumbers := numbers_entries hreads.numbers hitems _ (List.mem_of_getElem? hitem)
    have hbody := (Document.numbers_map.mp hitemnumbers).2 _ List.mem_cons_self
    exact (numbers_of_fills hbody hfills).of_isNumber hgives.number
  · rw [← hwritten.own_iff, hvalue v s h, Except.ok.injEq, Option.some.injEq]
  · rw [← hwritten.alike_iff hwritten', hvalue v s h, hvalue w t h', Except.ok.injEq, Option.some.injEq]

end EventLog

namespace Request

variable {r : Request} {log : EventLog}

/-- What is read as a request is a document of a format, and the document is the request. -/
theorem exists_document (h : read format text = .ok r) : ∃ d, format.Reads text d ∧ ofDocument? d = some r := by
  cases format with
  | json =>
    change readJson text = .ok r at h
    unfold readJson at h
    split at h
    · cases h
    · rename_i hread
      split at h
      · cases h
      · cases h
      · rename_i hrequest
        cases h
        exact ⟨_, hread, hrequest⟩
  | yaml =>
    change readYaml text = .ok r at h
    unfold readYaml at h
    split at h
    · cases h
    · rename_i result hread
      split at h
      · cases h
      · rename_i hrequest
        split at h
        · cases h
        · rename_i halone
          cases h
          obtain ⟨d, goesOn⟩ := result
          obtain rfl : goesOn = false := Bool.eq_false_iff.mpr halone
          exact ⟨d, hread, hrequest⟩
  | toml =>
    change readToml text = .ok r at h
    unfold readToml at h
    split at h
    · cases h
    · rename_i hread
      split at h
      · cases h
      · rename_i hrequest
        cases h
        exact ⟨_, hread, hrequest⟩

/-- **Numbers are kept by their value.** Where a text is read as a log, each number that an entry of it gives for a
text field is held there as the text of the number. This is the numeral that stands in the file if it is written as the
number is. A decimal is kept in its shortest form, and two decimals are kept apart exactly if they are two numbers. -/
theorem numbers_kept (h : read format text = .ok (.log log)) :
    ∃ d items, format.Reads text d ∧ EventLog.entries? d = some items ∧
      List.Forall₂ Event.Enters items log.events ∧ log.KeepsNumbers items format text := by
  obtain ⟨d, hreads, hrequest⟩ := exists_document h
  have hlog : EventLog.ofDocument? d = some log := by
    unfold ofDocument? at hrequest
    split at hrequest
    · cases hrequest
      assumption
    · obtain ⟨count, _, heq⟩ := Option.map_eq_some_iff.mp hrequest
      cases heq
  obtain ⟨items, hitems, hentries⟩ := EventLog.exists_entries hlog
  exact ⟨d, items, hreads, hitems, hentries, .of_entries hreads hitems hentries⟩

/-! ## Versions -/

/-- The decimal 1.1. -/
def short : Numeral.Decimal := ⟨false, 11, 1, by decide, by decide, by decide⟩

/-- The decimal 1.10. -/
def long : Numeral.Decimal := ⟨false, 110, 2, by decide, by decide, by decide⟩

/-- The entry of a tag whose name is a decimal. -/
def tagNamed (m : Numeral.Decimal) : Document :=
  .map [(.text "tag", .map [(.text "name", .float (.ofDecimal m.negative m.digits (-m.places)))])]

/-- Two tags, as a log in YAML. -/
def versions : String := "log: [{tag: {name: 1.1}}, {tag: {name: 1.10}}]"

theorem text_short : short.text = "1.1".toList := by decide

theorem text_long : long.text = "1.10".toList := by decide

theorem reads_versions : Format.yaml.Reads versions (.log [tagNamed short, tagNamed long]) := by
  have hpage : Yaml.Page.ofTokens (Yaml.Lexer.run versions.toList) =
      .whole [.mapping none none, .scalar (unquoted "log") none, .sequence none none,
        .mapping none none, .scalar (unquoted "tag") none, .mapping none none, .scalar (unquoted "name") none,
        .scalar (unquoted "1.1") none, .close, .close,
        .mapping none none, .scalar (unquoted "tag") none, .mapping none none, .scalar (unquoted "name") none,
        .scalar (unquoted "1.10") none, .close, .close, .close, .close] true := by
    decide +kernel
  have hshort : Yaml.plainDocument "1.1".toList = _ := text_short ▸ Yaml.plainDocument_text short
  have hlong : Yaml.plainDocument "1.10".toList = _ := text_long ▸ Yaml.plainDocument_text long
  exact Yaml.read_of_spell hpage rfl <| .map rfl rfl <| .cons (by simp) (.scalar rfl rfl)
    (.list rfl rfl <|
      .cons (by simp) (.map rfl rfl <| .cons (by simp) (.scalar rfl rfl) (.map rfl rfl <|
        .cons (by simp) (.scalar rfl rfl) (.scalar rfl hshort) <| .nil rfl) <| .nil rfl) <|
      .cons (by simp) (.map rfl rfl <| .cons (by simp) (.scalar rfl rfl) (.map rfl rfl <|
        .cons (by simp) (.scalar rfl rfl) (.scalar rfl hlong) <| .nil rfl) <| .nil rfl) <| .nil rfl) <|
    .nil rfl

/-- The log that the two tags are read as: both have the name of the first one. -/
def versionLog : EventLog := ⟨[.keyed (.tag { name := some "1.1" }), .keyed (.tag { name := some "1.1" })], none⟩

theorem read_versions : read .yaml versions = .ok (.log versionLog) := by
  have hname (m : Numeral.Decimal) (hsign : m.negative = false) (hvalue : m.value = short.value) :
      Number.Layout.plain.write (.ofDecimal m.negative m.digits (-m.places)) = "1.1" := by
    rw [m.rounds_ofDecimal.write_eq (.inl rfl) hsign.symm hvalue.symm, text_short, String.ofList_toList]
  have hshort : Number.Layout.plain.write (.ofDecimal false 11 (-1)) = "1.1" := hname short rfl rfl
  have hlong : Number.Layout.plain.write (.ofDecimal false 110 (-2)) = "1.1" :=
    hname long rfl (by norm_num [Decimal.value, short, long])
  have hevents : [tagNamed short, tagNamed long].mapM Event.ofDocument? =
      some [.keyed (.tag { name := some (Number.Layout.plain.write (.ofDecimal false 11 (-1))) }),
        .keyed (.tag { name := some (Number.Layout.plain.write (.ofDecimal false 110 (-2))) })] := rfl
  rw [reads_versions.read, hevents, hshort, hlong]
  rfl

theorem holdsNumber_versions :
    versionLog.HoldsNumber [tagNamed short, tagNamed long] (.float (.ofDecimal false 110 (-2))) "1.1" :=
  ⟨1, 0, .tag { name := some "1.1" }, ⟨rfl, ⟨_, _, rfl, .entry List.mem_cons_self rfl⟩, trivial⟩, rfl⟩

theorem written_versions : Format.yaml.Written versions "1.10".toList (.float (.ofDecimal false 110 (-2))) :=
  ⟨by decide +kernel, text_long ▸ Yaml.plainDocument_text long⟩

/-- Of the second name its value is kept, which is the value of the first one. -/
theorem numbers_kept_versions : ∃ items, versionLog.KeepsNumbers items .yaml versions ∧
    ∃ v, versionLog.HoldsNumber items v "1.1" ∧ Format.yaml.Written versions "1.10".toList v := by
  obtain ⟨d, items, hreads, hitems, _, hkeeps⟩ := numbers_kept read_versions
  have hd : Yaml.Result.mk d false = ⟨.log [tagNamed short, tagNamed long], false⟩ :=
    Option.some.inj (hreads.symm.trans reads_versions)
  cases hd
  cases hitems
  exact ⟨_, hkeeps, _, holdsNumber_versions, written_versions⟩

/-- **Not all numbers are kept as they are written**: two names are read as one. -/
theorem not_all_numbers_kept : read .yaml "log: [{tag: {name: 1.1}}, {tag: {name: 1.10}}]" =
      .ok (.log ⟨[.keyed (.tag { name := some "1.1" }), .keyed (.tag { name := some "1.1" })], none⟩) ∧
    ¬ ∀ format text log d items v s cs, read format text = .ok (.log log) → format.Reads text d →
      EventLog.entries? d = some items → log.HoldsNumber items v s → format.Written text cs v →
      s = String.ofList cs := by
  refine ⟨read_versions, fun hall => ?_⟩
  have hsame := hall .yaml versions versionLog _ _ _ _ _ read_versions reads_versions rfl holdsNumber_versions
    written_versions
  rw [String.ofList_toList] at hsame
  exact absurd hsame (by decide)

end Request

end Chronicle

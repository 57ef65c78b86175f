import Chronicle.Proofs.Compile.Log
import Chronicle.Proofs.Event.Record

/-!
# What is a keyed event, and what is reported of the rest

A document in plain form that is not a text is a keyed event exactly when it has one entry, under the keyword
of a kind that has a record, and the entry is a record of that kind. Every other one stays in the log as an
unrecognized document, and there its key decides what is reported: **under the keyword of a kind, why it is
no event of that kind, and else that there is no such event** (`Event.decoding_grammar`).
-/

namespace Chronicle

open Outcome

/-- A document with one entry, under the keyword of a kind. -/
def Document.KeyedBy (kind : EventKind) (d : Document) : Prop := ∃ body, d = .map [(.text kind.keyword, body)]

/-- A document with one entry, under the keyword of a kind that has a record, which the entry is. -/
def EventKind.IsEntry (kind : EventKind) (d : Document) : Prop :=
  kind.keyed = true ∧ ∃ body, d = .map [(.text kind.keyword, body)] ∧ kind.IsRecord body

variable {d : Document} {e : KeyedEvent} {kind kind' : EventKind}

theorem Document.KeyedBy.unique (h : d.KeyedBy kind) (h' : d.KeyedBy kind') : kind = kind' := by
  obtain ⟨body, rfl⟩ := h
  obtain ⟨body', h'⟩ := h'
  simp only [Document.map.injEq, List.cons.injEq, Prod.mk.injEq, Document.text.injEq] at h'
  exact EventKind.eq_of_keyword h'.1.1

/-! ## Decoding -/

theorem KeyedEvent.ofDocument_plain_iff (hplain : d.Plain) : ofDocument d = .ok e ↔
    ∃ body, d = .map [(.text e.kind.keyword, body)] ∧ e.kind.IsRecord body ∧ e.Holds body := by
  constructor
  · intro h
    cases hplain with
    | null | bool | int | float | text | list => cases h
    | @map entries hkeys _ hvalues =>
      match entries, hkeys, hvalues with
      | [], _, _ => cases h
      | _ :: _ :: _, _, _ => cases h
      | [(key, body)], hkeys, hvalues =>
        obtain ⟨word, hword⟩ := hkeys _ List.mem_cons_self
        cases hword
        have hbody : body.Plain := hvalues _ List.mem_cons_self
        obtain ⟨rfl, hrecord, hholds⟩ := (ofDocument_eq_ok_iff hbody.textKeyed).mp h
        exact ⟨body, rfl, hrecord, hholds⟩
  · rintro ⟨body, rfl, hrecord, hholds⟩
    exact (ofDocument_eq_ok_iff hrecord.textKeyed).mpr ⟨rfl, hrecord, hholds⟩

theorem KeyedEvent.exists_ofDocument_iff (hplain : d.Plain) :
    (∃ e, ofDocument d = .ok e) ↔ ∃ kind : EventKind, kind.IsEntry d := by
  constructor
  · rintro ⟨e, he⟩
    obtain ⟨body, hd, hrecord, _⟩ := (ofDocument_plain_iff hplain).mp he
    exact ⟨e.kind, e.keyed_kind, body, hd, hrecord⟩
  · rintro ⟨kind, hkeyed, body, rfl, hrecord⟩
    exact exists_ofDocument hkeyed hrecord

namespace Event

theorem ofDocument?_eq_keyed_iff (hentry : ∀ s, d ≠ .text s) :
    ofDocument? d = some (.keyed e) ↔ KeyedEvent.ofDocument d = .ok e := by
  unfold ofDocument?
  split
  case h_1 s => exact absurd rfl (hentry s)
  case h_2 =>
    cases KeyedEvent.ofDocument d with
    | ok e' => simp
    | error m => simp

theorem ofDocument?_eq_unrecognized (hplain : d.Plain) (hentry : ∀ s, d ≠ .text s)
    (hnone : ∀ e, KeyedEvent.ofDocument d ≠ .ok e) : ofDocument? d = some (.unrecognized d) := by
  unfold ofDocument?
  split
  case h_1 s => exact absurd rfl (hentry s)
  case h_2 =>
    cases hd : KeyedEvent.ofDocument d with
    | ok e => exact absurd hd (hnone e)
    | error m => simp only [hplain.canonical?_eq, Option.map_some]

/-! ## Rejection -/

theorem keyedBy_of_rejection {cause : Rejection} (h : rejection? d = some (kind, cause)) : d.KeyedBy kind := by
  unfold rejection? at h
  split at h
  case h_2 => cases h
  case h_1 key body =>
    obtain ⟨kind', hkind', h⟩ := Option.bind_eq_some_iff.mp h
    have hkind : kind' = kind := by
      split at h
      · cases h
        rfl
      · split at h <;> cases h
        rfl
    subst hkind
    exact ⟨body, by rw [EventKind.ofKeyword?_eq_some_iff.mp hkind']⟩

theorem exists_rejection (hnone : ∀ e, KeyedEvent.ofDocument d ≠ .ok e) (h : d.KeyedBy kind) :
    ∃ cause, rejection? d = some (kind, cause) := by
  obtain ⟨body, rfl⟩ := h
  cases hkeyed : kind.keyed with
  | false => exact ⟨.shorthandOnly, by simp [rejection?, EventKind.ofKeyword?_keyword, hkeyed]⟩
  | true =>
    cases hd : KeyedEvent.ofDocument (.map [(.text kind.keyword, body)]) with
    | ok e => exact absurd hd (hnone e)
    | error m => exact ⟨.misfit m, by simp [rejection?, EventKind.ofKeyword?_keyword, hkeyed, hd]⟩

theorem rejection?_of_decoded (hplain : d.Plain) (h : KeyedEvent.ofDocument d = .ok e) : rejection? d = none := by
  obtain ⟨body, rfl, _, _⟩ := (KeyedEvent.ofDocument_plain_iff hplain).mp h
  simp [rejection?, EventKind.ofKeyword?_keyword, e.keyed_kind, h]

/-! ## What is reported -/

/-- An unrecognized document under a keyword is reported with the keyword. -/
theorem compile_rejected {cause : Rejection} (h : rejection? d = some (kind, cause)) (conf : Option Authorship)
    (line count : Nat) (rest : List Event) : compileFrom conf line count (.unrecognized d :: rest) =
      .error ⟨line, "\"" ++ kind.keyword ++ "\": " ++ cause.message⟩ := by
  have hcompile : (unrecognized d).compile conf count = .error (.rejected kind cause) := by
    simp only [compile, h]
  exact compileFrom_cons_error hcompile

/-- Any other one is reported as it stands. -/
theorem compile_unknown (h : rejection? d = none) (conf : Option Authorship) (line count : Nat)
    (rest : List Event) : compileFrom conf line count (.unrecognized d :: rest) =
      .error ⟨line, "unrecognized event " ++ d.compact⟩ := by
  have hcompile : (unrecognized d).compile conf count = .error (.unknownEntry d) := by
    simp only [compile, h]
  exact compileFrom_cons_error hcompile

/-- **What is a keyed event, and what is reported of the rest.** A document in plain form that is not a text
is read as a keyed event exactly when it is an entry of some kind. The event then holds what the entry gives,
and there is no rejection. Otherwise the document is kept as it is, and there is a rejection exactly if it
has one entry, under a keyword: compiling it then reports the keyword and the cause, and else an unrecognized
event. -/
theorem decoding_grammar (hplain : d.Plain) (hentry : ∀ s, d ≠ .text s) :
    ((∃ e, ofDocument? d = some (.keyed e)) ↔ ∃ kind : EventKind, kind.IsEntry d) ∧
    (∀ e, ofDocument? d = some (.keyed e) →
      (∃ body, d = .map [(.text e.kind.keyword, body)] ∧ e.Holds body) ∧ rejection? d = none) ∧
    ((¬ ∃ kind : EventKind, kind.IsEntry d) → ofDocument? d = some (.unrecognized d) ∧
      (∀ kind, (∃ cause, rejection? d = some (kind, cause)) ↔ d.KeyedBy kind) ∧
      ∀ conf line count rest,
        (∀ kind, d.KeyedBy kind → ∃ cause, rejection? d = some (kind, cause) ∧
          compileFrom conf line count (.unrecognized d :: rest) =
            .error ⟨line, "\"" ++ kind.keyword ++ "\": " ++ cause.message⟩) ∧
        ((∀ kind, ¬ d.KeyedBy kind) → compileFrom conf line count (.unrecognized d :: rest) =
          .error ⟨line, "unrecognized event " ++ d.compact⟩)) := by
  simp only [ofDocument?_eq_keyed_iff hentry]
  refine ⟨KeyedEvent.exists_ofDocument_iff hplain, fun e he => ⟨?_, rejection?_of_decoded hplain he⟩,
    fun hno => ?_⟩
  · obtain ⟨body, hd, _, hholds⟩ := (KeyedEvent.ofDocument_plain_iff hplain).mp he
    exact ⟨body, hd, hholds⟩
  have hnone : ∀ e, KeyedEvent.ofDocument d ≠ .ok e := fun e he =>
    hno ((KeyedEvent.exists_ofDocument_iff hplain).mp ⟨e, he⟩)
  refine ⟨ofDocument?_eq_unrecognized hplain hentry hnone,
    fun kind => ⟨fun ⟨cause, hcause⟩ => keyedBy_of_rejection hcause, exists_rejection hnone⟩,
    fun conf line count rest => ⟨fun kind hkind => ?_, fun hother => ?_⟩⟩
  · obtain ⟨cause, hcause⟩ := exists_rejection hnone hkind
    exact ⟨cause, hcause, compile_rejected hcause conf line count rest⟩
  · refine compile_unknown (Option.eq_none_iff_forall_ne_some.mpr ?_) conf line count rest
    exact fun ⟨kind, cause⟩ hcause => hother kind (keyedBy_of_rejection hcause)

/-- A commit that calls its author a name and has a number for a message. -/
def renamed : Document :=
  .map [(.text "commit", .map [(.text "message", .int 2024), (.text "name", .text "A")])]

/-- A merge with a field that there is not. -/
def misspelt : Document := .map [(.text "merge", .map [(.text "auther", .text "A"), (.text "theirs", .text "b")])]

theorem plain_misspelt : misspelt.Plain := .single (.pair (by decide) (.text _) (.text _))

/-- The one is read with both fields, the other is kept and reported under its keyword. -/
theorem decoding_grammar_misspelt :
    (∃ body, renamed = .map [(.text "commit", body)] ∧
      KeyedEvent.Holds (.commit ⟨some "2024", some "A", none⟩) body) ∧
    ofDocument? misspelt = some (.unrecognized misspelt) ∧
    ∃ cause : Rejection, compileFrom none 2 0 [.unrecognized misspelt] =
      .error ⟨2, "\"merge\": " ++ cause.message⟩ := by
  have hrenamed : renamed.Plain := .single (.pair (by decide) (.int _) (.text _))
  obtain ⟨_, hread, _⟩ := decoding_grammar hrenamed (by simp [renamed])
  obtain ⟨hkept, _, hrest⟩ := decoding_grammar plain_misspelt (by simp [misspelt])
  have hno : ¬ ∃ kind : EventKind, kind.IsEntry misspelt := by
    intro hentry
    obtain ⟨e, he⟩ := (KeyedEvent.exists_ofDocument_iff plain_misspelt).mpr hentry
    cases he
  obtain ⟨hkept, _, hreported⟩ := hrest hno
  obtain ⟨cause, _, hcause⟩ := (hreported none 2 0 []).1 .merge ⟨_, rfl⟩
  exact ⟨(hread (.commit ⟨some "2024", some "A", none⟩) rfl).1, hkept, cause, hcause⟩

end Event

end Chronicle

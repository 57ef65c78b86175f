import Chronicle.Document.Json.Reader
import Chronicle.Proofs.Document.Worded
import Chronicle.Proofs.Outcome
import Mathlib.Data.List.Infix

/-!
# What is read from JSON is built of

A reader goes on within a text (`Json.Reading`): what it leaves to be read is an end of what it found. So **all keys
in what is read from JSON are texts, and each number in it stands in the text as a numeral**
(`Json.built_of_readLeading`): the reader of numbers took just the numeral off the text.
-/

namespace Chronicle.Json

open Outcome

variable {α β : Type} {text : List Char} {P : α → Prop} {Q : β → Prop}

/-! ## Readers -/

/-- Within a text a reader goes on within it, and whatever it answers has a property. -/
def Reading (text : List Char) (P : α → Prop) (m : Reader α) : Prop :=
  ∀ c, c.rest <:+ text → Yields (fun r => P r.1 ∧ r.2.rest <:+ text) (m.run c)

/-- Within a text a reader goes on within it. -/
abbrev Passing (text : List Char) (m : Reader α) : Prop := Reading text (fun _ => True) m

theorem Reading.pure {a : α} (h : P a) : Reading text P (Pure.pure a : Reader α) := fun _ hc => .ok ⟨h, hc⟩

theorem Reading.failHere (fault : Fault) : Reading text P (Json.failHere fault) := fun _ _ => .error

theorem Reading.failNext (fault : Fault) : Reading text P (Json.failNext fault) := fun _ _ => .error

/-- Two readers in a row; the second one goes by what the first one answers. -/
theorem Reading.bind {m : Reader α} {f : α → Reader β} (hm : Reading text P m) (h : ∀ a, P a → Reading text Q (f a)) :
    Reading text Q (m >>= f) := by
  intro c hc
  rw [StateT.run_bind]
  exact (hm c hc).bind fun r hr => h r.1 hr.1 r.2 hr.2

/-- Two readers in a row, where anything may be answered by the first one. -/
theorem Reading.after {m : Reader α} {f : α → Reader β} (hm : Passing text m) (h : ∀ a, Reading text Q (f a)) :
    Reading text Q (m >>= f) := hm.bind fun a _ => h a

theorem passing_peek : Passing text peek := fun _ hc => .ok ⟨trivial, hc⟩

theorem passing_advance : Passing text advance := by
  intro c hc
  obtain ⟨rest, offset⟩ := c
  cases rest with
  | nil => exact .ok ⟨trivial, hc⟩
  | cons x rest => exact .ok ⟨trivial, (List.suffix_cons x rest).trans hc⟩

theorem passing_skipSpace : Passing text skipSpace := fun _ hc =>
  .ok ⟨trivial, (List.dropWhile_suffix _).trans hc⟩

theorem passing_peekToken : Passing text peekToken := passing_skipSpace.after fun _ => passing_peek

/-- The next character is the first one of what is left to be read. -/
theorem Reading.token {f : Option Char → Reader α}
    (h : ∀ c, c.rest <:+ text → Yields (fun r => P r.1 ∧ r.2.rest <:+ text) ((f c.rest.head?).run c)) :
    Reading text P (peekToken >>= f) := by
  intro c hc
  exact h ⟨c.rest.dropWhile isSpace, _⟩ ((List.dropWhile_suffix _).trans hc)

theorem passing_digits : Passing text digits := fun _ hc => .ok ⟨trivial, (List.drop_suffix _ _).trans hc⟩

theorem passing_literal (cs : List Char) : Passing text (literal cs) := by
  induction cs with
  | nil => exact .pure trivial
  | cons x more ih =>
    refine passing_peek.after fun next => ?_
    split
    · exact .failHere _
    · split
      · exact passing_advance.after fun _ => ih
      · exact .failNext _

/-! ## Numbers -/

theorem reading_floating (positive : Bool) (significand : Nat) (exponent : Int) :
    Reading text Document.IsNumber (floating positive significand exponent) := by
  unfold floating
  split
  · exact .pure trivial
  · exact .failHere _

theorem passing_exponentSign : Passing text exponentSign := by
  refine passing_peek.after fun next => ?_
  split
  · exact passing_advance.after fun _ => .pure trivial
  · exact passing_advance.after fun _ => .pure trivial
  · exact .pure trivial

theorem reading_exponentPart (positive : Bool) (significand : Nat) (start : Int) :
    Reading text Document.IsNumber (exponentPart positive significand start) := by
  refine passing_exponentSign.after fun negative => passing_peek.after fun next => ?_
  split
  · exact .failHere _
  · split
    · exact .failNext _
    · refine passing_digits.after fun ds => ?_
      split
      · exact reading_floating _ _ _
      · split
        · exact fun _ _ => .error
        · exact .pure trivial

theorem reading_fractionPart (positive : Bool) (significand : Nat) (start : Int) :
    Reading text Document.IsNumber (fractionPart positive significand start) := by
  refine passing_digits.after fun ds => ?_
  split
  · refine passing_peek.after fun next => ?_
    split <;> exact .failNext _
  · dsimp only
    refine passing_peek.after fun next => ?_
    split
    · exact passing_advance.after fun _ => reading_exponentPart _ _ _
    · exact passing_advance.after fun _ => reading_exponentPart _ _ _
    · exact reading_floating _ _ _

theorem passing_wholeDigits (c : Char) : Passing text (wholeDigits c) := by
  unfold wholeDigits
  split
  · refine passing_advance.after fun _ => passing_peek.after fun next => ?_
    split
    · split
      · exact .failNext _
      · exact .pure trivial
    · exact .pure trivial
  · exact passing_digits

theorem reading_number (positive : Bool) : Reading text Document.IsNumber (number positive) := by
  refine passing_peek.after fun next => ?_
  split
  · exact .failHere _
  · split
    · exact .failNext _
    · refine (passing_wholeDigits _).after fun ds => ?_
      dsimp only
      refine passing_peek.after fun behind => ?_
      split
      · exact passing_advance.after fun _ => reading_fractionPart _ _ _
      · exact passing_advance.after fun _ => reading_exponentPart _ _ _
      · exact passing_advance.after fun _ => reading_exponentPart _ _ _
      · split
        · split
          · exact .pure trivial
          · split
            · exact .pure trivial
            · exact .pure trivial
        · exact reading_floating _ _ _

/-- A numeral, with or without a minus before it, stands in a text and is read as a number. -/
inductive Written (text : List Char) : List Char → Document → Prop
  | positive {cs rest : List Char} {offset offset' : Nat} {v : Document} (hat : cs ++ rest <:+ text)
      (hread : (number true).run ⟨cs ++ rest, offset⟩ = .ok (v, ⟨rest, offset'⟩)) : Written text cs v
  | negative {cs rest : List Char} {offset offset' : Nat} {v : Document} (hat : '-' :: (cs ++ rest) <:+ text)
      (hread : (number false).run ⟨cs ++ rest, offset⟩ = .ok (v, ⟨rest, offset'⟩)) : Written text ('-' :: cs) v

/-- A number of a document stands in a text as a numeral. -/
abbrev Stands (text : List Char) (v : Document) : Prop := ∃ cs, Written text cs v

/-- What a reader takes off a text is what was there before. -/
theorem exists_numeral {positive : Bool} {c c' : Cursor} {v : Document} (h : (number positive).run c = .ok (v, c')) :
    v.IsNumber ∧ ∃ cs, c.rest = cs ++ c'.rest := by
  obtain ⟨hv, cs, hcs⟩ := reading_number positive c (List.suffix_refl _) _ h
  exact ⟨hv, cs, hcs.symm⟩

theorem reading_positive : Reading text (Document.Built (Stands text)) (number true) := by
  rintro ⟨rest, offset⟩ hc ⟨v, rest', offset'⟩ hread
  obtain ⟨hv, cs, rfl⟩ := exists_numeral hread
  exact ⟨.of_isNumber hv ⟨cs, .positive hc hread⟩, (List.suffix_append cs rest').trans hc⟩

/-- The minus belongs to the numeral. -/
theorem yields_negative {c : Cursor} (hc : c.rest <:+ text) (hminus : c.rest.head? = some '-') :
    Yields (fun r => Document.Built (Stands text) r.1 ∧ r.2.rest <:+ text)
      ((advance >>= fun _ => number false).run c) := by
  obtain ⟨rest, offset⟩ := c
  obtain ⟨rest, rfl⟩ : ∃ more, rest = '-' :: more := List.head?_eq_some_iff.mp hminus
  rintro ⟨v, rest', offset'⟩ hread
  have hnumber : (number false).run ⟨rest, offset + '-'.utf8Size⟩ = .ok (v, ⟨rest', offset'⟩) := hread
  obtain ⟨hv, cs, rfl⟩ := exists_numeral hnumber
  exact ⟨.of_isNumber hv ⟨'-' :: cs, .negative hc hnumber⟩,
    ((List.suffix_append cs rest').trans (List.suffix_cons '-' _)).trans hc⟩

/-! ## Strings -/

theorem passing_fourHex : Passing text fourHex := by
  intro c hc
  show Yields _ (fourHex c)
  unfold fourHex
  dsimp only
  split
  · exact .error
  · split
    · exact .ok ⟨trivial, (List.drop_suffix _ _).trans hc⟩
    · exact .error

theorem passing_surrogateMark (mark : Char) : Passing text (surrogateMark mark) := by
  refine passing_peek.after fun next => ?_
  split
  · exact .failHere _
  · split
    · exact passing_advance
    · exact .failNext _

theorem passing_numberedEscape : Passing text numberedEscape := by
  refine passing_fourHex.after fun n => ?_
  split
  · exact .failHere _
  · split
    · exact .pure trivial
    · refine (passing_surrogateMark _).after fun _ => (passing_surrogateMark _).after fun _ =>
        passing_fourHex.after fun low => ?_
      split
      · exact .failHere _
      · exact .pure trivial

theorem passing_escape : Passing text escape := by
  refine passing_peek.after fun next => ?_
  split
  · exact .failHere _
  · split
    case h_10 => exact .failNext _
    case h_9 => exact passing_advance.after fun _ => passing_numberedEscape
    all_goals exact passing_advance.after fun _ => .pure trivial

theorem passing_stringBody (fuel : Nat) (done : List Char) : Passing text (stringBody fuel done) := by
  induction fuel generalizing done with
  | zero => exact .failHere _
  | succ fuel ih =>
    refine passing_peek.after fun next => ?_
    split
    · exact .failHere _
    · exact passing_advance.after fun _ => .pure trivial
    · exact passing_advance.after fun _ => passing_escape.after fun c => ih _
    · split
      · exact .failNext _
      · exact passing_advance.after fun _ => ih _

theorem passing_string : Passing text string := fun c hc => passing_stringBody _ _ c hc

/-! ## Values -/

theorem passing_moreItems (first : Bool) : Passing text (moreItems first) := by
  refine passing_peekToken.after fun next => ?_
  split
  · exact .failNext _
  · exact passing_advance.after fun _ => .pure trivial
  · split
    · exact .pure trivial
    · split
      · refine passing_advance.after fun _ => passing_peekToken.after fun following => ?_
        split
        · exact .failNext _
        · exact .pure trivial
        · exact .failNext _
      · exact .failNext _

theorem passing_moreEntries (first : Bool) : Passing text (moreEntries first) := by
  refine passing_peekToken.after fun next => ?_
  split
  · exact .failNext _
  · exact passing_advance.after fun _ => .pure trivial
  · split
    · split
      · exact .pure trivial
      · exact .failNext _
    · split
      · refine passing_advance.after fun _ => passing_peekToken.after fun following => ?_
        split
        · exact .pure trivial
        · exact .failNext _
        · exact .failNext _
        · exact .failNext _
      · exact .failNext _

theorem passing_colon : Passing text colon := by
  refine passing_peekToken.after fun next => ?_
  split
  · exact passing_advance
  · exact .failNext _
  · exact .failNext _

/-- The keys of entries are texts, and their values are built of what stands in the text. -/
def BuiltEntries (text : List Char) (entries : List (Document × Document)) : Prop :=
  ∀ e ∈ entries, (∃ key, e.1 = .text key) ∧ e.2.Built (Stands text)

/-- What is read with some fuel is built of what stands in the text. -/
structure Reads (text : List Char) (fuel : Nat) : Prop where
  value : ∀ depth, Reading text (Document.Built (Stands text)) (value fuel depth)
  items : ∀ depth first, Reading text (fun ds => ∀ d ∈ ds, Document.Built (Stands text) d) (items fuel depth first)
  entries : ∀ depth first, Reading text (BuiltEntries text) (entries fuel depth first)

variable {fuel : Nat}

theorem Reads.value_succ (h : Reads text fuel) (depth : Nat) :
    Reading text (Document.Built (Stands text)) (Json.value (fuel + 1) depth) := by
  unfold Json.value
  refine .token fun c hc => ?_
  split
  · exact .error
  · rename_i x hx
    split
    · exact ((passing_advance.after fun _ => (passing_literal _).after fun _ => .pure .null) : Reading _ _ _) c hc
    · exact ((passing_advance.after fun _ => (passing_literal _).after fun _ => .pure (.bool true)) : Reading _ _ _) c hc
    · exact ((passing_advance.after fun _ => (passing_literal _).after fun _ => .pure (.bool false)) : Reading _ _ _) c hc
    · exact yields_negative hc hx
    · exact ((passing_advance.after fun _ => passing_string.after fun s => .pure (.text s)) : Reading _ _ _) c hc
    · split
      · exact .error
      · exact ((passing_advance.after fun _ => (h.items _ true).bind fun ds hds =>
          .pure (Document.built_list.mpr hds)) : Reading _ _ _) c hc
    · split
      · exact .error
      · refine ((passing_advance.after fun _ => (h.entries _ true).bind fun es hes => .pure ?_) : Reading _ _ _) c hc
        exact Document.built_map.mpr ⟨fun e he => (hes e he).1, fun e he => (hes e he).2⟩
    · split
      · exact reading_positive c hc
      · exact .error

theorem Reads.items_succ (h : Reads text fuel) (depth : Nat) (first : Bool) :
    Reading text (fun ds => ∀ d ∈ ds, Document.Built (Stands text) d) (Json.items (fuel + 1) depth first) := by
  refine (passing_moreItems first).after fun more => ?_
  split
  · refine (h.value depth).bind fun d hd => (h.items depth false).bind fun ds hds => .pure ?_
    exact List.forall_mem_cons.mpr ⟨hd, hds⟩
  · exact .pure (by simp)

theorem Reads.entries_succ (h : Reads text fuel) (depth : Nat) (first : Bool) :
    Reading text (BuiltEntries text) (Json.entries (fuel + 1) depth first) := by
  refine (passing_moreEntries first).after fun more => ?_
  split
  · refine passing_advance.after fun _ => passing_string.after fun key => passing_colon.after fun _ =>
      (h.value depth).bind fun d hd => (h.entries depth false).bind fun es hes => .pure ?_
    exact List.forall_mem_cons.mpr ⟨⟨⟨key, rfl⟩, hd⟩, hes⟩
  · exact .pure (by simp [BuiltEntries])

/-- By induction on the fuel, for values, items and entries at once. -/
theorem reads (text : List Char) (fuel : Nat) : Reads text fuel := by
  induction fuel with
  | zero => exact ⟨fun _ => .failHere _, fun _ _ => .failHere _, fun _ _ => .failHere _⟩
  | succ fuel ih => exact ⟨ih.value_succ, ih.items_succ, ih.entries_succ⟩

/-- **All keys in what is read from JSON are texts, and its numbers stand in the text.** -/
theorem built_of_readLeading {text : String} {d : Document} {rest : Option SyntaxError}
    (h : readLeading text = .ok (d, rest)) : d.Built (Stands text.toList) := by
  obtain ⟨⟨doc, after⟩, hvalue, h⟩ := bind_eq_ok.mp h
  have hbuilt := ((reads text.toList _).value _ ⟨text.toList, 0⟩ (List.suffix_refl _) _ hvalue).1
  dsimp only at h
  split at h <;> cases h <;> exact hbuilt

end Chronicle.Json

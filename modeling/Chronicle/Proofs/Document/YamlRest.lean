import Chronicle.Document.Yaml.Token
import Mathlib.Data.List.Infix

/-!
# What the readers of YAML leave of a text

A reader goes on within a text: what is left behind it is an end of what was left before. Of the scalars only the
plain ones matter for more than this: a plain scalar without a gap in it is one word, and **one word of a plain scalar
stands in the text as it is** (`Yaml.readPlain_words`).
-/

namespace Chronicle.Yaml

/-! ## Answers -/

/-- Whatever a reader finds has a property. -/
def Found {α : Type} (P : α → Prop) (x : Option α) : Prop := ∀ a, x = some a → P a

section

variable {α β : Type} {P : α → Prop} {Q : β → Prop}

theorem Found.none : Found P none := fun _ h => nomatch h

theorem Found.some {a : α} (h : P a) : Found P (some a) := fun _ ha => Option.some.inj ha ▸ h

theorem Found.and {x : Option α} {P' : α → Prop} (h : Found P x) (h' : Found P' x) : Found (fun a => P a ∧ P' a) x :=
  fun a ha => ⟨h a ha, h' a ha⟩

theorem Found.bind {x : Option α} {f : α → Option β} (hx : Found P x) (hf : ∀ a, P a → Found Q (f a)) :
    Found Q (x >>= f) := by
  intro b hb
  obtain ⟨a, ha, hb⟩ := Option.bind_eq_some_iff.mp hb
  exact hf a (hx a ha) b hb

/-- What is found first may be anything. -/
theorem Found.given {x : Option α} {f : α → Option β} (hf : ∀ a, Found Q (f a)) : Found Q (x >>= f) :=
  .bind (P := fun _ => True) (fun _ _ => trivial) fun a _ => hf a

theorem Found.map {x : Option α} {f : α → β} (hx : Found P x) (hf : ∀ a, P a → Q (f a)) : Found Q (x.map f) := by
  intro b hb
  obtain ⟨a, ha, rfl⟩ := Option.map_eq_some_iff.mp hb
  exact hf a (hx a ha)

end

/-! ## Cursors -/

/-- A cursor is at an end of a text. -/
def Cursor.In (text : List Char) (c : Cursor) : Prop := c.rest <:+ text

namespace Cursor

variable {text : List Char} {c : Cursor}

theorem In.skip (h : c.In text) (n : Nat) : (c.skip n).In text := (List.drop_suffix n c.rest).trans h

theorem In.skipWhile (h : c.In text) (p : Char → Bool) : (c.skipWhile p).In text := h.skip _

theorem In.skipBreak (h : c.In text) : c.skipBreak.In text := (List.drop_suffix _ c.rest).trans h

end Cursor

variable {text : List Char} {c : Cursor}

/-! ## Gaps -/

/-- What stands between two words is blanks and ends of lines. -/
structure Gap.Blank (g : Gap) : Prop where
  blanks : ∀ x ∈ g.blanks, isGap x = true
  first : ∀ end_ ∈ g.first, end_ ≠ [] ∧ ∀ x ∈ end_, isGap x = true
  more : ∀ x ∈ g.more, isGap x = true

/-- There is something between two words. -/
def Gap.Wide (g : Gap) : Prop := g.blanks ≠ [] ∨ g.first.isSome = true

theorem Gap.blank_nothing : Gap.Blank {} := ⟨by simp, by simp, by simp⟩

/-- Beyond the end of a text there are no blanks. -/
theorem Cursor.length_pos_of_next {c : Cursor} (h : (isBlank c.next || isBreak c.next) = true) : 0 < c.rest.length := by
  obtain ⟨rest, _, _, _⟩ := c
  cases rest with
  | nil => cases h
  | cons x rest => exact Nat.succ_pos _

theorem isGap_of_isBlank {x : Char} (h : isBlank x = true) : isGap x = true := by simp [isGap, h]

theorem Cursor.breakText_spec (c : Cursor) : c.breakText ≠ [] ∧ ∀ x ∈ c.breakText, isGap x = true := by
  unfold Cursor.breakText
  split
  · rename_i hmark
    simp only [Bool.or_eq_true, beq_iff_eq] at hmark
    obtain hmark | hmark := hmark <;> rw [hmark] <;> exact ⟨by simp, List.forall_mem_singleton.mpr rfl⟩
  · exact ⟨by simp, List.forall_mem_singleton.mpr rfl⟩

/-- What is left of a gap in a scalar is never nothing. -/
theorem Gap.Wide.exists_gap {g : Gap} (h : g.Wide) (hg : g.Blank) : ∃ x ∈ g.text, isGap x = true := by
  have hhead {cs : List Char} (hne : cs ≠ []) (hall : ∀ x ∈ cs, isGap x = true) : ∃ x ∈ cs, isGap x = true := by
    obtain ⟨x, rest, rfl⟩ := List.exists_cons_of_ne_nil hne
    exact ⟨x, List.mem_cons_self, hall x List.mem_cons_self⟩
  unfold Gap.text
  split
  · rename_i hnone
    exact hhead (h.resolve_right (by simp [hnone])) hg.blanks
  · split
    · exact ⟨' ', List.mem_cons_self, rfl⟩
    · rename_i hmore
      exact hhead (by simpa using hmore) hg.more
  · rename_i end_ _ hend
    obtain ⟨hne, hall⟩ := hg.first end_ hend
    obtain ⟨x, hx, hgap⟩ := hhead hne hall
    exact ⟨x, List.mem_append_left _ hx, hgap⟩

theorem found_readGap (indent fuel : Nat) (g : Gap) (hc : c.In text) :
    Found (fun r => r.2.In text) (readGap indent fuel g c) := by
  induction fuel generalizing g c with
  | zero => exact .some hc
  | succ fuel ih =>
    unfold readGap
    split
    · split
      · exact ih _ (hc.skip 1)
      · split
        · exact .none
        · exact ih _ (hc.skip 1)
    · split
      · split
        · exact ih _ hc.skipBreak
        · exact ih _ hc.skipBreak
      · exact .some hc

/-- A gap stays one, and is wide if there is anything to read. -/
theorem found_gap (indent fuel : Nat) {g : Gap} (hg : g.Blank) (c : Cursor) :
    Found (fun r => r.1.Blank ∧ (g.Wide ∨ 0 < fuel ∧ (isBlank c.next || isBreak c.next) = true → r.1.Wide))
      (readGap indent fuel g c) := by
  induction fuel generalizing g c with
  | zero => exact .some ⟨hg, fun h => h.resolve_right (by simp)⟩
  | succ fuel ih =>
    -- once it is wide it stays so
    have hmore (g' : Gap) (c' : Cursor) (hg' : g'.Blank) (hwide : g'.Wide) :
        Found (fun r => r.1.Blank ∧ (g.Wide ∨ 0 < fuel + 1 ∧ (isBlank c.next || isBreak c.next) = true → r.1.Wide))
          (readGap indent fuel g' c') := fun r hr =>
      ⟨(ih hg' c' r hr).1, fun _ => (ih hg' c' r hr).2 (.inl hwide)⟩
    unfold readGap
    split
    · rename_i hblank
      split
      · refine hmore _ _ ⟨?_, hg.first, hg.more⟩ (.inl (by simp))
        exact List.forall_mem_append.mpr ⟨hg.blanks, List.forall_mem_singleton.mpr (isGap_of_isBlank hblank)⟩
      · rename_i hfirst
        split
        · exact .none
        · exact hmore _ _ hg (.inr (by simpa [Option.isSome_iff_ne_none] using hfirst))
    · rename_i hnoblank
      split
      · split
        · refine hmore _ _ ⟨by simp, ?_, hg.more⟩ (.inr rfl)
          simpa using c.breakText_spec
        · rename_i end_ hend
          refine hmore _ _ ⟨hg.blanks, hg.first, ?_⟩ (.inr (by simp [hend]))
          exact List.forall_mem_append.mpr ⟨hg.more, c.breakText_spec.2⟩
      · rename_i hnobreak
        exact .some ⟨hg, fun h => h.resolve_right fun hnext => by simp [hnoblank, hnobreak] at hnext⟩

/-! ## Plain scalars -/

/-- A scalar without a gap in it stands in a text. -/
def Solid (text cs : List Char) : Prop := cs <:+: text ∨ ∃ x ∈ cs, isGap x = true

theorem plainWord_begins (inFlow : Bool) (cs : List Char) : Found (· <+: cs) (plainWord inFlow cs) := by
  induction cs with
  | nil => exact .some (List.prefix_refl _)
  | cons c rest ih =>
    unfold plainWord
    dsimp only
    split
    · exact .some List.nil_prefix
    · split
      · exact .none
      · split
        · exact .some List.nil_prefix
        · split
          · exact .some List.nil_prefix
          · exact ih.map fun word hword => List.cons_prefix_cons.mpr ⟨rfl, hword⟩

/-- By induction on the fuel: what was read so far is solid, and unless it is nothing there is a gap before the next
word. -/
theorem readPlain_words (inFlow : Bool) (indent fuel : Nat) {cs : List Char} {g : Gap} (hcs : Solid text cs)
    (hg : g.Blank) (hnext : cs = [] ∧ g = {} ∨ g.Wide) (hc : c.In text) :
    Found (fun r => Solid text r.1.text ∧ r.2.In text) (readPlain inFlow indent fuel cs g c) := by
  induction fuel generalizing cs g c with
  | zero => exact .some ⟨hcs, hc⟩
  | succ fuel ih =>
    unfold readPlain
    split
    · exact .some ⟨hcs, hc⟩
    · refine (plainWord_begins inFlow c.rest).bind fun word hword => ?_
      have hafter : (c.skip word.length).In text := hc.skip _
      have hmore : Solid text (if word.isEmpty then cs else cs ++ g.text ++ word) := by
        split
        · exact hcs
        · obtain ⟨rfl, rfl⟩ | hwide := hnext
          · exact .inl (hword.isInfix.trans hc.isInfix)
          · obtain ⟨x, hx, hgap⟩ := hwide.exists_gap hg
            exact .inr ⟨x, by simp [hx], hgap⟩
      have hgap : Gap.Blank (if word.isEmpty then g else {}) := by
        split
        · exact hg
        · exact Gap.blank_nothing
      generalize (if word.isEmpty then cs else cs ++ g.text ++ word) = more at hmore
      generalize (if word.isEmpty then g else {}) = gap at hgap
      dsimp only
      split
      · exact .some ⟨hmore, hafter⟩
      · rename_i hblank
        rw [Bool.not_eq_true, Bool.not_eq_false'] at hblank
        refine ((found_gap indent _ hgap _).and (found_readGap indent _ gap hafter)).bind fun r hr => ?_
        obtain ⟨⟨hrgap, hrwide⟩, hrin⟩ := hr
        have hwide := hrwide (.inr ⟨Cursor.length_pos_of_next hblank, hblank⟩)
        split
        · exact .some ⟨hmore, hrin⟩
        · exact ih hmore hrgap (.inr hwide) hrin

/-! ## Other scalars -/

theorem found_readQuotedWord (quote : Char) (fuel : Nat) (word : List Char) (hc : c.In text) :
    Found (fun r => r.2.2.In text) (readQuotedWord quote fuel word c) := by
  induction fuel generalizing word c with
  | zero => exact .some hc
  | succ fuel ih =>
    unfold readQuotedWord
    split
    · exact .some hc
    · split
      · exact ih _ (hc.skip 2)
      · split
        · exact .some hc
        · split
          · split
            · exact .some (hc.skip 1).skipBreak
            · split
              · exact .none
              · exact ih _ (hc.skip 2)
              · dsimp only
                split
                · exact .none
                · exact .given fun code => .given fun x => ih _ (hc.skip _)
          · exact ih _ (hc.skip 1)

theorem found_readQuoted (quote : Char) (fuel : Nat) (cs : List Char) (hc : c.In text) :
    Found (fun r => r.2.In text) (readQuoted quote fuel cs c) := by
  induction fuel generalizing cs c with
  | zero => exact .none
  | succ fuel ih =>
    unfold readQuoted
    dsimp only
    split
    · exact .none
    · refine (found_readQuotedWord quote _ [] hc).bind fun r hr => ?_
      split
      · exact .some (hr.skip 1)
      · exact (found_readGap 0 _ _ hr).bind fun q hq => ih _ hq

theorem found_blockHeader (hc : c.In text) : Found (fun r => r.2.2.In text) (blockHeader c) := by
  unfold blockHeader
  split
  · exact .given fun indent => .some (hc.skip _)
  · refine .given fun indent => ?_
    split
    · exact .some hc
    · split
      · exact .some (hc.skip 2)
      · exact .some (hc.skip 1)

theorem found_readEmptyLines (indent fuel widest : Nat) (breaks : List Char) (hc : c.In text) :
    Found (fun r => r.2.2.In text) (readEmptyLines indent fuel widest breaks c) := by
  induction fuel generalizing widest breaks c with
  | zero => exact .some hc
  | succ fuel ih =>
    unfold readEmptyLines
    extract_lets blanks after widest
    have hafter : after.In text := hc.skip _
    split
    · exact .none
    · split
      · exact ih _ _ hafter.skipBreak
      · exact .some hafter

theorem found_readBlockLines (literal : Bool) (indent fuel : Nat) (cs ended empty : List Char) (wasBlank : Bool)
    (hc : c.In text) :
    Found (fun r => r.2.2.2.In text) (readBlockLines literal indent fuel cs ended empty wasBlank c) := by
  induction fuel generalizing cs ended empty wasBlank c with
  | zero => exact .some hc
  | succ fuel ih =>
    unfold readBlockLines
    split
    · exact .some hc
    · extract_lets isBlankLine folds joint line behind
      have hbehind : behind.In text := hc.skip _
      have hnext : (if isBreak behind.next then (behind.breakText, behind.skipBreak) else ([], behind)).2.In text := by
        split
        · exact hbehind.skipBreak
        · exact hbehind
      generalize (if isBreak behind.next then (behind.breakText, behind.skipBreak) else ([], behind)) = next at hnext
      obtain ⟨ended, next⟩ := next
      exact (found_readEmptyLines _ _ _ _ hnext).bind fun r hr => ih _ _ _ _ hr

theorem found_readBlock (literal : Bool) (outer : Int) (hc : c.In text) :
    Found (fun r => r.2.In text) (readBlock literal outer c) := by
  unfold readBlock
  refine (found_blockHeader hc).bind fun ⟨chomping, wanted, c⟩ hc => ?_
  dsimp -zeta only
  extract_lets blanks comment start given done
  have hcomment : comment.In text := by
    unfold comment
    split
    · exact (hc.skipWhile _).skipWhile _
    · exact hc.skipWhile _
  have hstart : start.In text := by
    unfold start
    split
    · exact hcomment.skipBreak
    · exact hcomment
  split
  · exact .none
  · exact (found_readEmptyLines _ _ _ _ hstart).bind fun r hr =>
      (found_readBlockLines _ _ _ _ _ _ _ hr).bind fun q hq => .some hq

/-! ## Tags and directives -/

/-- A plain scalar without a gap in it stands in a text. -/
def Token.Solid (text : List Char) : Token → Prop
  | .scalar cs true => Yaml.Solid text cs
  | _ => True

namespace Lexer

theorem found_tagName (verbatim : Bool) (head : List Char) (hc : c.In text) :
    Found (fun r => r.2.In text) (tagName verbatim head c) := by
  unfold tagName
  dsimp only
  split
  · exact .none
  · exact .given fun name => .some (hc.skip _)

theorem found_tagHandle (isDirective : Bool) (hc : c.In text) :
    Found (fun r => r.2.In text) (tagHandle isDirective c) := by
  unfold tagHandle
  split
  · exact .none
  · extract_lets name behind
    have hbehind : behind.In text := hc.skip _
    split
    · exact .some (hbehind.skip 1)
    · split
      · exact .none
      · exact .some hbehind

theorem found_tagText (inFlow : Bool) (hc : c.In text) : Found (fun r => r.2.In text) (tagText inFlow c) := by
  unfold tagText
  extract_lets done
  have hdone (t : TagText) {c : Cursor} (hc : c.In text) : Found (fun r => r.2.In text) (done (t, c)) := by
    unfold done
    dsimp only
    split
    · exact .some hc
    · exact .none
  split
  · refine (found_tagName true [] (hc.skip 2)).bind fun r hr => ?_
    dsimp only
    split
    · exact hdone _ (hr.skip 1)
    · exact .none
  · refine (found_tagHandle false hc).bind fun r hr => ?_
    dsimp only
    split
    · exact (found_tagName false [] hr).bind fun q hq => hdone _ hq
    · exact (found_tagName false _ hr).bind fun q hq => hdone _ hq

theorem found_versionNumber (hc : c.In text) : Found (fun r => r.2.In text) (versionNumber c) := by
  unfold versionNumber
  dsimp only
  split
  · exact .none
  · exact .given fun n => .some (hc.skip _)

theorem found_directiveEnd (hc : c.In text) : Found (Cursor.In text) (directiveEnd c) := by
  unfold directiveEnd
  extract_lets blanks comment
  have hcomment : comment.In text := by
    unfold comment
    split
    · exact (hc.skipWhile _).skipWhile _
    · exact hc.skipWhile _
  split
  · exact .none
  · split
    · exact .some hcomment.skipBreak
    · exact .some hcomment

theorem found_directive (hc : c.In text) :
    Found (fun r => r.1.Solid text ∧ r.2.In text) (directive c) := by
  unfold directive
  extract_lets start name behind blanks done
  have hblanks : blanks.In text := ((hc.skip 1).skip _).skipWhile _
  split
  · exact .none
  · show Found _ (done ())
    unfold done
    split
    · refine (found_versionNumber hblanks).bind fun r hr => ?_
      dsimp only
      split
      · exact .none
      · exact (found_versionNumber (hr.skip 1)).bind fun q hq => (found_directiveEnd hq).bind fun d hd =>
          .some ⟨trivial, hd⟩
    · refine (found_tagHandle true hblanks).bind fun r hr => ?_
      dsimp only
      split
      · exact .none
      · refine (found_tagName true [] (hr.skipWhile _)).bind fun q hq => ?_
        split
        · exact .none
        · exact (found_directiveEnd hq).bind fun d hd => .some ⟨trivial, hd⟩
    · exact .none

end Lexer

end Chronicle.Yaml

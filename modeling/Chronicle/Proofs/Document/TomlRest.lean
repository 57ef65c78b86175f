import Chronicle.Document.Toml.Reader
import Chronicle.Proofs.Document.Worded
import Mathlib.Data.List.Infix

/-!
# What TOML readers leave of a text

A reader goes on within a text (`Toml.Within`): what it leaves to be read is an end of what it found. There is one
lemma for each of the small readers, which says this for any text that it may be within.
-/

namespace Chronicle.Toml

variable {α β : Type} {text cs : List Char} {P : α → Prop} {Q : β → Prop}

/-! ## Readers one after the other -/

/-- What is left is an end of a text, if anything was read. -/
def Ends (text : List Char) (x : Option (List Char)) : Prop := ∀ rest, x = some rest → rest <:+ text

/-- Whatever is read has a property, and what is left is an end of a text. -/
def Within (text : List Char) (P : α → Prop) (x : Option (α × List Char)) : Prop :=
  ∀ a rest, x = some (a, rest) → P a ∧ rest <:+ text

/-- Whatever is read, what is left is an end of a text. -/
abbrev Leaves (text : List Char) (x : Option (α × List Char)) : Prop := Within text (fun _ => True) x

theorem Ends.none : Ends text none := fun _ h => nomatch h

theorem Ends.some (h : cs <:+ text) : Ends text (some cs) := fun _ hrest => Option.some.inj hrest ▸ h

theorem Within.none : Within text P none := fun _ _ h => nomatch h

theorem Within.some {a : α} (ha : P a) (h : cs <:+ text) : Within text P (some (a, cs)) := by
  intro b rest hrest
  cases hrest
  exact ⟨ha, h⟩

theorem Within.bind {x : Option (α × List Char)} {f : α × List Char → Option (β × List Char)} (hx : Within text P x)
    (hf : ∀ a rest, P a → rest <:+ text → Within text Q (f (a, rest))) : Within text Q (x >>= f) := by
  intro b rest hrest
  obtain ⟨⟨a, after⟩, ha, hrest⟩ := Option.bind_eq_some_iff.mp hrest
  obtain ⟨hP, hafter⟩ := hx a after ha
  exact hf a after hP hafter b rest hrest

/-- What does not read goes by what was found. -/
theorem Within.given {x : Option α} {f : α → Option (β × List Char)} (hf : ∀ a, x = Option.some a → Within text Q (f a)) :
    Within text Q (x >>= f) := by
  intro b rest hrest
  obtain ⟨a, ha, hrest⟩ := Option.bind_eq_some_iff.mp hrest
  exact hf a ha b rest hrest

theorem Ends.bind {x : Option (List Char)} {f : List Char → Option (β × List Char)} (hx : Ends text x)
    (hf : ∀ rest, rest <:+ text → Within text Q (f rest)) : Within text Q (x >>= f) :=
  .given fun rest hrest => hf rest (hx rest hrest)

theorem Within.map {x : Option (α × List Char)} {f : α × List Char → β × List Char} (hx : Within text P x)
    (hrest : ∀ r, (f r).2 = r.2) (hf : ∀ r, P r.1 → Q (f r).1) : Within text Q (x.map f) := by
  intro b rest hb
  obtain ⟨⟨a, after⟩, ha, hb⟩ := Option.map_eq_some_iff.mp hb
  obtain ⟨hP, hafter⟩ := hx a after ha
  obtain rfl : (f (a, after)).2 = rest := by rw [hb]
  obtain rfl : (f (a, after)).1 = b := by rw [hb]
  exact ⟨hf _ hP, by rwa [hrest]⟩

/-! ## Blanks and ends of lines -/

theorem skipBlanks_suffix (cs : List Char) : skipBlanks cs <:+ cs := List.dropWhile_suffix _

theorem tail_suffix {c : Char} (h : c :: cs <:+ text) : cs <:+ text := (List.suffix_cons c cs).trans h

theorem ends_lineEnd (h : cs <:+ text) : Ends text (lineEnd? cs) := by
  unfold lineEnd?
  split
  · exact .some (tail_suffix h)
  · exact .some (tail_suffix (tail_suffix h))
  · exact .none

theorem ends_lineOrTextEnd (h : cs <:+ text) : Ends text (lineOrTextEnd? cs) := by
  unfold lineOrTextEnd?
  split
  · exact .some h
  · exact ends_lineEnd h

theorem ends_restOfLine (h : cs <:+ text) : Ends text (restOfLine cs) := by
  refine ends_lineOrTextEnd (.trans ?_ ((skipBlanks_suffix cs).trans h))
  unfold skipComment
  split
  · rename_i heq
    rw [heq]
    exact (List.dropWhile_suffix _).trans (List.suffix_cons _ _)
  · exact List.suffix_refl _

theorem ends_skipLines (fuel : Nat) (h : cs <:+ text) : Ends text (skipLines fuel cs) := by
  induction fuel generalizing cs with
  | zero => exact .some h
  | succ fuel ih =>
    have hblanks : skipBlanks cs <:+ text := (skipBlanks_suffix cs).trans h
    unfold skipLines
    split
    · rename_i heq
      rw [heq] at hblanks
      split
      · rename_i hend
        exact ih (ends_lineEnd ((List.dropWhile_suffix _).trans (tail_suffix hblanks)) _ hend)
      · exact .none
    · split
      · rename_i hend
        exact ih (ends_lineEnd hblanks _ hend)
      · exact .some hblanks

theorem skipSpace_suffix (fuel : Nat) (cs : List Char) : skipSpace fuel cs <:+ cs := by
  induction fuel generalizing cs with
  | zero => exact List.suffix_refl _
  | succ fuel ih =>
    simp only [skipSpace]
    split
    · rename_i hend
      exact (ih _).trans (ends_lineEnd (skipBlanks_suffix cs) _ hend)
    · exact skipBlanks_suffix cs

theorem ends_joinedLine (h : cs <:+ text) : Ends text (joinedLine cs) := by
  intro rest hrest
  obtain ⟨after, hafter, rfl⟩ := Option.map_eq_some_iff.mp hrest
  exact (skipSpace_suffix _ _).trans (ends_lineEnd ((skipBlanks_suffix cs).trans h) _ hafter)

/-! ## Strings -/

theorem leaves_readCode (length : Nat) (h : cs <:+ text) : Leaves text (readCode length cs) := by
  unfold readCode
  dsimp only
  split
  · exact .none
  · exact .given fun n _ => .given fun c _ => .some trivial ((List.drop_suffix _ _).trans h)

theorem leaves_readEscape (h : cs <:+ text) : Leaves text (readEscape cs) := by
  unfold readEscape
  split
  case h_10 => exact .none
  case h_8 | h_9 => exact leaves_readCode _ (tail_suffix h)
  all_goals exact .some trivial (tail_suffix h)

theorem leaves_readBasic (fuel : Nat) (h : cs <:+ text) : Leaves text (readBasic fuel cs) := by
  induction fuel generalizing cs with
  | zero => cases cs <;> exact .none
  | succ fuel ih =>
    cases cs with
    | nil => exact .none
    | cons c rest =>
      unfold readBasic
      split
      · exact .some trivial (tail_suffix h)
      · split
        · exact (leaves_readEscape (tail_suffix h)).bind fun x after _ hafter =>
            (ih hafter).bind fun more behind _ hbehind => .some trivial hbehind
        · split
          · exact (ih (tail_suffix h)).bind fun more behind _ hbehind => .some trivial hbehind
          · exact .none

theorem leaves_readLiteral (h : cs <:+ text) : Leaves text (readLiteral cs) := by
  induction cs with
  | nil => exact .none
  | cons c rest ih =>
    unfold readLiteral
    split
    · exact .some trivial (tail_suffix h)
    · split
      · exact (ih (tail_suffix h)).bind fun more behind _ hbehind => .some trivial hbehind
      · exact .none

theorem leaves_readLong (quote : Char) (fuel : Nat) (h : cs <:+ text) : Leaves text (readLong quote fuel cs) := by
  induction fuel generalizing cs with
  | zero => cases cs <;> exact .none
  | succ fuel ih =>
    cases cs with
    | nil => exact .none
    | cons c rest =>
      have hquotes : (c :: rest).dropWhile (· == quote) <:+ text := (List.dropWhile_suffix _).trans h
      unfold readLong
      dsimp only
      split
      · split
        · exact (ih hquotes).bind fun more behind _ hbehind => .some trivial hbehind
        · split
          · exact .some trivial hquotes
          · exact .none
      · split
        · split
          · rename_i hjoined
            exact ih (ends_joinedLine (tail_suffix h) _ hjoined)
          · exact (leaves_readEscape (tail_suffix h)).bind fun x after _ hafter =>
              (ih hafter).bind fun more behind _ hbehind => .some trivial hbehind
        · split
          · rename_i hend
            exact (ih (ends_lineEnd h _ hend)).bind fun more behind _ hbehind => .some trivial hbehind
          · split
            · exact (ih (tail_suffix h)).bind fun more behind _ hbehind => .some trivial hbehind
            · exact .none

theorem leaves_readLongFrom (quote : Char) (h : cs <:+ text) : Leaves text (readLongFrom quote cs) := by
  refine leaves_readLong quote _ ?_
  cases hend : lineEnd? cs with
  | none => exact h
  | some after => exact ends_lineEnd h _ hend

theorem leaves_readString (h : cs <:+ text) : Leaves text (readString cs) := by
  unfold readString
  dsimp only
  split
  · exact (leaves_readLongFrom _ (tail_suffix (tail_suffix (tail_suffix h)))).bind fun s rest _ hrest => .some trivial hrest
  · exact (leaves_readLongFrom _ (tail_suffix (tail_suffix (tail_suffix h)))).bind fun s rest _ hrest => .some trivial hrest
  · exact (leaves_readBasic _ (tail_suffix h)).bind fun s rest _ hrest => .some trivial hrest
  · exact (leaves_readLiteral (tail_suffix h)).bind fun s rest _ hrest => .some trivial hrest
  · exact .none

/-! ## Keys -/

theorem leaves_readName (h : cs <:+ text) : Leaves text (readName cs) := by
  unfold readName
  split
  · exact (leaves_readBasic _ (tail_suffix h)).map (fun _ => rfl) fun _ _ => trivial
  · exact (leaves_readLiteral (tail_suffix h)).map (fun _ => rfl) fun _ _ => trivial
  · dsimp only
    split
    · exact .none
    · exact .some trivial ((List.drop_suffix _ _).trans h)

theorem leaves_readNames (fuel : Nat) (h : cs <:+ text) : Leaves text (readNames fuel cs) := by
  induction fuel generalizing cs with
  | zero => exact .none
  | succ fuel ih =>
    unfold readNames
    refine (leaves_readName ((skipBlanks_suffix cs).trans h)).bind fun name rest _ hrest => ?_
    have hblanks : skipBlanks rest <:+ text := (skipBlanks_suffix rest).trans hrest
    dsimp only
    split
    · rename_i heq
      rw [heq] at hblanks
      exact (ih (tail_suffix hblanks)).bind fun more behind _ hbehind => .some trivial hbehind
    · exact .some trivial hblanks

theorem leaves_readKey (h : cs <:+ text) : Leaves text (readKey cs) := by
  unfold readKey
  refine (leaves_readNames _ h).bind fun names rest _ hrest => ?_
  dsimp only
  split
  · exact .none
  · exact .given fun last _ => .some trivial hrest

/-! ## Numbers and times -/

theorem ends_expect (c : Char) (h : cs <:+ text) : Ends text (expect c cs) := by
  unfold expect
  split
  · split
    · exact .some (tail_suffix h)
    · exact .none
  · exact .none

theorem leaves_readMoreDigits (isDigit : Char → Bool) (h : cs <:+ text) : Leaves text (readMoreDigits isDigit cs) := by
  induction cs using readMoreDigits.induct isDigit with
  | case1 => exact .some trivial h
  | case2 d rest hd ih =>
    rw [readMoreDigits, if_pos hd]
    exact (ih (tail_suffix (tail_suffix h))).map (fun _ => rfl) fun _ _ => trivial
  | case3 d rest hd =>
    rw [readMoreDigits, if_neg hd]
    exact .none
  | case4 => exact .none
  | case5 c rest hunderscore hlast hc ih =>
    rw [readMoreDigits.eq_4 _ _ _ hunderscore hlast, if_pos hc]
    exact (ih (tail_suffix h)).map (fun _ => rfl) fun _ _ => trivial
  | case6 c rest hunderscore hlast hc =>
    rw [readMoreDigits.eq_4 _ _ _ hunderscore hlast, if_neg hc]
    exact .some trivial h

theorem leaves_readDigits (isDigit : Char → Bool) (h : cs <:+ text) : Leaves text (readDigits isDigit cs) := by
  unfold readDigits
  split
  · exact .none
  · split
    · exact (leaves_readMoreDigits isDigit (tail_suffix h)).map (fun _ => rfl) fun _ _ => trivial
    · exact .none

theorem leaves_readWhole (h : cs <:+ text) : Leaves text (readWhole cs) := by
  unfold readWhole
  split
  · exact .some trivial (tail_suffix h)
  · exact leaves_readDigits _ h

theorem leaves_readExponent (h : cs <:+ text) : Leaves text (readExponent cs) := by
  unfold readExponent
  dsimp only
  split
  · exact (leaves_readDigits _ (tail_suffix h)).bind fun ds rest _ hrest => .some trivial hrest
  · exact (leaves_readDigits _ (tail_suffix h)).bind fun ds rest _ hrest => .some trivial hrest
  · exact (leaves_readDigits _ h).bind fun ds rest _ hrest => .some trivial hrest

theorem leaves_readFraction (h : cs <:+ text) : Leaves text (readFraction cs) := by
  unfold readFraction
  split
  · refine (leaves_readDigits _ (tail_suffix h)).bind fun ds rest _ hrest => ?_
    dsimp only
    split
    · exact (leaves_readExponent (tail_suffix hrest)).bind fun e behind _ hbehind => .some trivial hbehind
    · exact (leaves_readExponent (tail_suffix hrest)).bind fun e behind _ hbehind => .some trivial hbehind
    · exact .some trivial hrest
  · exact (leaves_readExponent (tail_suffix h)).bind fun e behind _ hbehind => .some trivial hbehind
  · exact (leaves_readExponent (tail_suffix h)).bind fun e behind _ hbehind => .some trivial hbehind
  · exact .some trivial h

theorem signed_suffix (cs : List Char) : (Numeral.signed cs).2 <:+ cs := by
  unfold Numeral.signed
  split
  · exact List.suffix_cons _ _
  · exact List.suffix_cons _ _
  · exact List.suffix_refl _

theorem reading_word {n : Int} {f : Document → Option (Document × List Char)} (h : cs <:+ text)
    (hf : ∀ d, f d = some (d, cs)) : Within text Document.IsNumber (word? n >>= f) := by
  refine .given fun d hd => ?_
  unfold word? at hd
  split at hd
  · cases hd
    rw [hf]
    exact .some trivial h
  · cases hd

theorem reading_readBased (base : Nat) (h : cs <:+ text) : Within text Document.IsNumber (readBased base cs) := by
  unfold readBased
  exact (leaves_readDigits _ h).bind fun ds rest _ hrest => .given fun n _ => reading_word hrest fun _ => rfl

theorem reading_readDecimal (h : cs <:+ text) : Within text Document.IsNumber (readDecimal cs) := by
  have hbody : (Numeral.signed cs).2 <:+ text := (signed_suffix cs).trans h
  unfold readDecimal
  dsimp only
  split
  · rename_i heq
    rw [heq] at hbody
    exact .some trivial (tail_suffix (tail_suffix (tail_suffix hbody)))
  · rename_i heq
    rw [heq] at hbody
    exact .some trivial (tail_suffix (tail_suffix (tail_suffix hbody)))
  · refine (leaves_readWhole hbody).bind fun whole rest _ hrest =>
      (leaves_readFraction hrest).bind fun fraction behind _ hbehind => ?_
    dsimp only
    split
    · exact .given fun n _ => reading_word hbehind fun _ => rfl
    · refine .given fun x _ => ?_
      split
      · exact .none
      · exact .some trivial hbehind

theorem reading_readNumber (h : cs <:+ text) : Within text Document.IsNumber (readNumber cs) := by
  unfold readNumber
  split
  · exact reading_readBased _ (tail_suffix (tail_suffix h))
  · exact reading_readBased _ (tail_suffix (tail_suffix h))
  · exact reading_readBased _ (tail_suffix (tail_suffix h))
  · exact reading_readDecimal h

theorem leaves_readField (length least greatest : Nat) (h : cs <:+ text) :
    Leaves text (readField length least greatest cs) := by
  unfold readField
  dsimp only
  split
  · exact .none
  · refine .given fun n _ => ?_
    split
    · exact .none
    · exact .some trivial ((List.drop_suffix _ _).trans h)

theorem leaves_readDate (h : cs <:+ text) : Leaves text (readDate cs) := by
  unfold readDate
  exact (leaves_readField _ _ _ h).bind fun year cs _ h => (ends_expect _ h).bind fun cs h =>
    (leaves_readField _ _ _ h).bind fun month cs _ h => (ends_expect _ h).bind fun cs h =>
    (leaves_readField _ _ _ h).bind fun day cs _ h => .some trivial h

theorem leaves_readTime (h : cs <:+ text) : Leaves text (readTime cs) := by
  unfold readTime
  refine (leaves_readField _ _ _ h).bind fun hour cs _ h => (ends_expect _ h).bind fun cs h =>
    (leaves_readField _ _ _ h).bind fun minute cs _ h => (ends_expect _ h).bind fun cs h =>
    (leaves_readField _ _ _ h).bind fun second cs _ h => ?_
  dsimp only
  split
  · split
    · exact .some trivial ((List.dropWhile_suffix _).trans (tail_suffix h))
    · exact .some trivial h
  · exact .some trivial h

theorem leaves_readOffset (h : cs <:+ text) : Leaves text (readOffset cs) := by
  unfold readOffset
  split
  · exact .some trivial (tail_suffix h)
  · exact .some trivial (tail_suffix h)
  · split
    · exact (leaves_readField _ _ _ (tail_suffix h)).bind fun hour cs _ h => (ends_expect _ h).bind fun cs h =>
        (leaves_readField _ _ _ h).bind fun minute cs _ h => .some trivial h
    · exact .some trivial h
  · exact .some trivial h

end Chronicle.Toml

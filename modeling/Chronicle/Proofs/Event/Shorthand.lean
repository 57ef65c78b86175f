import Chronicle.Event.Shorthand
import Chronicle.Proofs.Text.Trim

/-!
# The grammar of shorthand

A text spells a line of shorthand when it is the keyword of the line's kind, and behind blanks the argument
if there is one, with any blanks around the whole (`ShorthandLine.Spells`). **A text is read as exactly the
line that it spells** (`ShorthandLine.read_grammar`), and it spells no more than one: no keyword begins
another one (`EventKind.eq_of_keyword_begins`), so that the order in which the kinds are tried does not
count.
-/

namespace Chronicle

open Text

namespace EventKind

/-- No keyword begins the keyword of another kind. -/
theorem eq_of_keyword_begins : ∀ k k' : EventKind, k.keyword.toList <+: k'.keyword.toList → k = k' := by
  intro k k' h
  revert h
  cases k <;> cases k' <;> decide

/-- Two keywords that begin one text are of one kind, since one of them begins the other. -/
theorem eq_of_keywords {k k' : EventKind} {chars rest rest' : List Char}
    (h : chars = k.keyword.toList ++ rest) (h' : chars = k'.keyword.toList ++ rest') : k = k' := by
  obtain hfirst | hsecond := List.prefix_or_prefix_of_prefix ⟨rest, h.symm⟩ ⟨rest', h'.symm⟩
  · exact eq_of_keyword_begins k k' hfirst
  · exact (eq_of_keyword_begins k' k hsecond).symm

theorem trimmed_keyword (k : EventKind) : Trimmed k.keyword.toList := by
  cases k <;> decide

theorem keyword_ne_nil (k : EventKind) : k.keyword.toList ≠ [] := by
  cases k <;> decide

end EventKind

namespace ShorthandLine

/-- Some characters are the keyword of a kind with an argument behind it, which is empty if nothing is
behind the keyword but blanks. -/
inductive Spells (kind : EventKind) : (chars arg : List Char) → Prop
  /-- The keyword alone. -/
  | alone {before after : List Char} (hbefore : Blanks before) (hafter : Blanks after) :
      Spells kind (before ++ kind.keyword.toList ++ after) []
  /-- The keyword, at least one blank, and the argument. -/
  | followed {before gap arg after : List Char} (hbefore : Blanks before) (hgap : Blanks gap)
      (hne : gap ≠ []) (harg : Trimmed arg) (hafter : Blanks after) :
      Spells kind (before ++ (kind.keyword.toList ++ gap ++ arg) ++ after) arg

/-- The line of shorthand that a text holds, if the kinds are tried in another order. -/
def readBy (order : List EventKind) (text : String) : Option ShorthandLine :=
  order.findSome? (readAs · (trimChars text.toList))

/-! ## One kind -/

section

variable {kind kind' : EventKind} {line : ShorthandLine} {chars word rest arg : List Char}

theorem afterWord_eq_some_iff : afterWord word chars = some rest ↔
    chars = word ++ rest ∧ ∀ c, rest.head? = some c → blank c = true := by
  unfold afterWord
  constructor
  · intro h
    split at h
    case isFalse => cases h
    case isTrue hprefix =>
      obtain ⟨behind, rfl⟩ := List.isPrefixOf_iff_prefix.mp hprefix
      rw [List.drop_left] at h
      cases behind with
      | nil =>
        cases h
        exact ⟨rfl, by simp⟩
      | cons c behind =>
        by_cases hc : blank c = true
        · simp only [hc, if_true, Option.some.injEq] at h
          subst h
          exact ⟨rfl, by simpa using hc⟩
        · simp [hc] at h
  · rintro ⟨rfl, hhead⟩
    rw [if_pos (List.isPrefixOf_iff_prefix.mpr (List.prefix_append word rest)), List.drop_left]
    cases rest with
    | nil => rfl
    | cons c behind => exact if_pos (hhead c rfl)

theorem readAs_eq_some_iff : readAs kind chars = some line ↔ kind.shorthand ≠ .none ∧
    ∃ rest, afterWord kind.keyword.toList chars = some rest ∧ ⟨kind, String.ofList (trimChars rest)⟩ = line := by
  unfold readAs
  by_cases hform : kind.shorthand = .none
  · simp [hform]
  · simp [hform, Option.map_eq_some_iff]

theorem kind_of_readAs (h : readAs kind chars = some line) : line.kind = kind := by
  obtain ⟨_, _, _, rfl⟩ := readAs_eq_some_iff.mp h
  rfl

theorem eq_of_readAs {line' : ShorthandLine} (h : readAs kind chars = some line)
    (h' : readAs kind' chars = some line') : kind = kind' := by
  obtain ⟨_, rest, hrest, _⟩ := readAs_eq_some_iff.mp h
  obtain ⟨_, rest', hrest', _⟩ := readAs_eq_some_iff.mp h'
  exact EventKind.eq_of_keywords (afterWord_eq_some_iff.mp hrest).1 (afterWord_eq_some_iff.mp hrest').1

/-! ## What is spelled and what is read -/

/-- Trimmed, the text begins with the keyword, and what is behind that is trimmed again. -/
theorem exists_of_spells (h : Spells kind chars arg) :
    ∃ rest, afterWord kind.keyword.toList (trimChars chars) = some rest ∧ trimChars rest = arg := by
  cases h with
  | alone hbefore hafter =>
    rw [trimChars_padded _ hbefore hafter, kind.trimmed_keyword.trimChars_eq]
    exact ⟨[], afterWord_eq_some_iff.mpr ⟨(List.append_nil _).symm, by simp⟩, Trimmed.nil.trimChars_eq⟩
  | @followed before gap _ _ hbefore hgap hne harg hafter =>
    rw [trimChars_padded _ hbefore hafter]
    by_cases hnil : arg = []
    · subst hnil
      have hpad := trimChars_padded kind.keyword.toList Blanks.nil hgap
      rw [List.nil_append, kind.trimmed_keyword.trimChars_eq] at hpad
      rw [List.append_nil, hpad]
      exact ⟨[], afterWord_eq_some_iff.mpr ⟨(List.append_nil _).symm, by simp⟩, Trimmed.nil.trimChars_eq⟩
    · have hwhole := kind.trimmed_keyword.append harg kind.keyword_ne_nil hnil gap
      obtain ⟨c, gap, rfl⟩ := List.exists_cons_of_ne_nil hne
      have hc : blank c = true := hgap c List.mem_cons_self
      have hbehind := trimChars_padded arg hgap Blanks.nil
      rw [List.append_nil, harg.trimChars_eq] at hbehind
      refine ⟨c :: gap ++ arg, ?_, hbehind⟩
      rw [hwhole.trimChars_eq, List.append_assoc]
      exact afterWord_eq_some_iff.mpr ⟨rfl, by simpa using hc⟩

/-- Blanks around an argument count for the blanks before it and behind it. -/
theorem Spells.untrimmed {before gap after : List Char} (hbefore : Blanks before) (hgap : Blanks gap)
    (hne : gap ≠ []) (arg : List Char) (hafter : Blanks after) :
    Spells kind (before ++ (kind.keyword.toList ++ gap ++ arg) ++ after) (trimChars arg) := by
  obtain ⟨behind, hbehind, hsplit⟩ := trimChars_split arg
  have hfirst : Blanks (arg.takeWhile blank) := fun c hc => List.mem_takeWhile_imp hc
  have hspells : Spells kind _ _ := .followed hbefore (hgap.append hfirst) (by simp [hne])
    (trimmed_trimChars arg) (hbehind.append hafter)
  have hsame := congrArg (fun m => before ++ (kind.keyword.toList ++ gap ++ m) ++ after) hsplit
  simp only [List.append_assoc] at hsame hspells ⊢
  rw [hsame]
  exact hspells

theorem spells_of_afterWord (h : afterWord kind.keyword.toList (trimChars chars) = some rest) :
    Spells kind chars (trimChars rest) := by
  obtain ⟨hword, hhead⟩ := afterWord_eq_some_iff.mp h
  obtain ⟨after, hafter, hchars⟩ := trimChars_split chars
  have hbefore : Blanks (chars.takeWhile blank) := fun c hc => List.mem_takeWhile_imp hc
  rw [hchars, hword]
  cases rest with
  | nil =>
    rw [List.append_nil]
    exact .alone hbefore hafter
  | cons c behind =>
    -- the blank behind the keyword is trimmed from the argument
    have hc : Blanks [c] := List.forall_mem_singleton.mpr (hhead c rfl)
    have harg : trimChars (c :: behind) = trimChars behind := by
      simpa using trimChars_padded behind hc Blanks.nil
    rw [harg, List.append_cons]
    exact .untrimmed hbefore hc (List.cons_ne_nil c []) behind hafter

theorem readAs_iff_spells : readAs kind (trimChars chars) = some line ↔
    line.kind = kind ∧ kind.shorthand ≠ .none ∧ Spells kind chars line.arg.toList := by
  rw [readAs_eq_some_iff]
  constructor
  · rintro ⟨hform, rest, hrest, rfl⟩
    rw [String.toList_ofList]
    exact ⟨rfl, hform, spells_of_afterWord hrest⟩
  · rintro ⟨rfl, hform, hspells⟩
    obtain ⟨rest, hrest, harg⟩ := exists_of_spells hspells
    exact ⟨hform, rest, hrest, by rw [harg, String.ofList_toList]⟩

/-- A text spells at most one kind, and one argument. -/
theorem Spells.unique {arg' : List Char} (h : Spells kind chars arg) (h' : Spells kind' chars arg') :
    kind = kind' ∧ arg = arg' := by
  obtain ⟨rest, hrest, harg⟩ := exists_of_spells h
  obtain ⟨rest', hrest', harg'⟩ := exists_of_spells h'
  have hword := (afterWord_eq_some_iff.mp hrest).1
  have hword' := (afterWord_eq_some_iff.mp hrest').1
  have hkind : kind = kind' := EventKind.eq_of_keywords hword hword'
  subst hkind
  rw [hword, List.append_cancel_left_eq] at hword'
  exact ⟨rfl, by rw [← harg, ← harg', hword']⟩

/-- The argument never begins or ends with a blank. -/
theorem Spells.trimmed (h : Spells kind chars arg) : Trimmed arg := by
  cases h with
  | alone => exact .nil
  | followed _ _ _ harg => exact harg

end

/-! ## All kinds -/

/-- Among the kinds that are tried, whichever comes first, the one that reads the text is found. -/
theorem readBy_eq_some_iff {order : List EventKind} {text : String} {line : ShorthandLine} :
    readBy order text = some line ↔
      line.kind ∈ order ∧ readAs line.kind (trimChars text.toList) = some line := by
  constructor
  · intro h
    obtain ⟨kind, hkind, hread⟩ := List.exists_of_findSome?_eq_some h
    rw [kind_of_readAs hread]
    exact ⟨hkind, hread⟩
  · rintro ⟨hmem, hread⟩
    cases h : readBy order text with
    | none =>
      have hnone := List.findSome?_eq_none_iff.mp h line.kind hmem
      rw [hread] at hnone
      cases hnone
    | some line' =>
      obtain ⟨kind, _, hread'⟩ := List.exists_of_findSome?_eq_some h
      rw [← eq_of_readAs hread hread', hread] at hread'
      exact hread'.symm

theorem readBy_perm {order order' : List EventKind} (h : order.Perm order') (text : String) :
    readBy order text = readBy order' text := by
  apply Option.ext
  intro line
  rw [readBy_eq_some_iff, readBy_eq_some_iff, h.mem_iff]

theorem read_iff_spells {text : String} {line : ShorthandLine} : read text = some line ↔
    line.kind.shorthand ≠ .none ∧ Spells line.kind text.toList line.arg.toList := by
  have hread : read text = readBy EventKind.precedence text := rfl
  rw [hread, readBy_eq_some_iff, readAs_iff_spells]
  simp [EventKind.mem_precedence]

theorem read_padded {before after : String} (hbefore : Blanks before.toList) (hafter : Blanks after.toList)
    (text : String) : read (before ++ text ++ after) = read text := by
  simp only [read, String.toList_append, trimChars_padded _ hbefore hafter]

theorem read_withArg {kind : EventKind} (hkind : kind.shorthand = .withArg) {gap : String}
    (hgap : Blanks gap.toList) (hne : gap ≠ "") (arg : String) :
    read (kind.keyword ++ gap ++ arg) = some ⟨kind, trim arg⟩ := by
  have hspells : Spells kind _ _ := .untrimmed Blanks.nil hgap (by simp [hne]) arg.toList Blanks.nil
  refine read_iff_spells.mpr ⟨by simp [hkind], ?_⟩
  rw [String.toList_append, String.toList_append, trim, String.toList_ofList]
  rwa [List.nil_append, List.append_nil] at hspells

/-- **The grammar of shorthand.** A text is read as a line exactly when the kind of the line has a shorthand
and the text spells that kind with the argument of the line, which is trimmed. No text spells two kinds, so
that any order of trying them reads the same; blanks around a text do not count; and a kind that takes an
argument takes whatever follows its keyword and a blank, trimmed. -/
theorem read_grammar (text : String) :
    (∀ line, read text = some line ↔
      line.kind.shorthand ≠ .none ∧ Spells line.kind text.toList line.arg.toList) ∧
    (∀ line, read text = some line → Trimmed line.arg.toList) ∧
    (∀ kind kind' arg arg', Spells kind text.toList arg → Spells kind' text.toList arg' → kind = kind') ∧
    (∀ order : List EventKind, order.Perm EventKind.precedence → readBy order text = read text) ∧
    (∀ before after : String, Blanks before.toList → Blanks after.toList →
      read (before ++ text ++ after) = read text) ∧
    ∀ (kind : EventKind) (gap arg : String), kind.shorthand = .withArg → Blanks gap.toList → gap ≠ "" →
      read (kind.keyword ++ gap ++ arg) = some ⟨kind, trim arg⟩ := by
  refine ⟨fun _ => read_iff_spells, fun line h => ?_, fun _ _ _ _ h h' => (h.unique h').1,
    fun order h => readBy_perm h text, fun before after hbefore hafter => read_padded hbefore hafter text,
    fun kind gap arg hkind hgap hne => read_withArg hkind hgap hne arg⟩
  exact (read_iff_spells.mp h).2.trimmed

/-- A file with a blank inside its name, with blanks of other alphabets around it. -/
theorem read_grammar_wide :
    read "\u3000create file \t a b\n" = some ⟨.createFile, "a b"⟩ ∧
    readBy EventKind.precedence.reverse "\u3000create file \t a b\n" = some ⟨.createFile, "a b"⟩ ∧
    read ("\u2003" ++ "\u3000create file \t a b\n" ++ "") = some ⟨.createFile, "a b"⟩ ∧
    read ("merge" ++ "\u3000" ++ " develop ") = some ⟨.merge, trim " develop "⟩ := by
  obtain ⟨hread, _, _, horder, hpadded, hwith⟩ := read_grammar "\u3000create file \t a b\n"
  have hline : read "\u3000create file \t a b\n" = some ⟨.createFile, "a b"⟩ := by
    refine (hread ⟨.createFile, "a b"⟩).mpr ⟨by decide, ?_⟩
    show Spells .createFile
      (['\u3000'] ++ ("create file".toList ++ [' ', '\t', ' '] ++ ['a', ' ', 'b']) ++ ['\n']) ['a', ' ', 'b']
    exact .followed (by decide) (by decide) (by decide) (by decide) (by decide)
  refine ⟨hline, ?_, ?_, hwith .merge "\u3000" " develop " rfl (by decide) (by decide)⟩
  · rw [horder _ (List.reverse_perm _), hline]
  · rw [hpadded _ _ (by decide) (by decide), hline]

end ShorthandLine

end Chronicle

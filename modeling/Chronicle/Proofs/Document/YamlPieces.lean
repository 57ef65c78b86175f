import Chronicle.Document.Yaml.Piece
import Chronicle.Proofs.Document.YamlRest

/-!
# The pieces of a YAML text

Every plain scalar among the tokens of a text stands in the text, or there is a gap in it
(`Yaml.Lexer.solid_of_run`). **The pieces of a document are made of its tokens** (`Yaml.of_ofTokens`): a scalar among
them is one of the tokens, or it is not written at all.
-/

namespace Chronicle.Yaml

variable {text : List Char}

/-! ## Tokens -/

namespace Lexer

/-- What was cut from a text so far. -/
structure In (text : List Char) (l : Lexer) : Prop where
  cursor : l.cursor.In text
  tokens : ∀ t ∈ l.tokens, t.Solid text

variable {l : Lexer}

theorem In.emit (h : l.In text) {t : Token} (ht : t.Solid text) : (l.emit t).In text :=
  ⟨h.cursor, List.forall_mem_cons.mpr ⟨ht, h.tokens⟩⟩

theorem mem_putBefore {t u : Token} {behind : Nat} {tokens : List Token} (h : u ∈ putBefore t behind tokens) :
    u = t ∨ u ∈ tokens := by
  induction behind, tokens using putBefore.induct with
  | case1 tokens => exact List.mem_cons.mp h
  | case2 behind => exact .inl (by simpa [putBefore] using h)
  | case3 behind last tokens ih =>
    obtain rfl | h := List.mem_cons.mp h
    · exact .inr List.mem_cons_self
    · exact (ih h).imp_right (List.mem_cons_of_mem last)

theorem In.insert (h : l.In text) {t : Token} (ht : t.Solid text) (number : Nat) : (l.insert number t).In text :=
  ⟨h.cursor, fun u hu => (mem_putBefore hu).elim (fun heq => heq ▸ ht) (h.tokens u)⟩

theorem In.goTo (h : l.In text) {c : Cursor} (hc : c.In text) : (l.goTo c).In text := ⟨hc, h.tokens⟩

theorem In.forgetStale (h : l.In text) : Found (In text) l.forgetStale :=
  .given fun _ => .given fun _ => .some ⟨h.cursor, h.tokens⟩

theorem In.dropPlace (h : l.In text) : Found (In text) l.dropPlace := by
  unfold Lexer.dropPlace
  split
  · exact .none
  · exact .some ⟨h.cursor, h.tokens⟩

theorem In.savePlace (h : l.In text) : Found (In text) l.savePlace := by
  unfold Lexer.savePlace
  split
  · exact h.dropPlace.bind fun l hl => .some ⟨hl.cursor, hl.tokens⟩
  · exact .some h

theorem In.openBlock (h : l.In text) {t : Token} (ht : t.Solid text) (column number : Nat) :
    (l.openBlock column number t).In text := by
  unfold Lexer.openBlock
  split
  · exact ⟨h.cursor, (h.insert ht number).tokens⟩
  · exact h

theorem In.closeBlocksFrom (h : l.In text) (column : Int) (outer : List Int) :
    (closeBlocksFrom column outer l).In text := by
  induction outer generalizing l with
  | nil => exact h
  | cons i rest ih =>
    unfold Lexer.closeBlocksFrom
    split
    · have hend := h.emit (t := .blockEnd) trivial
      exact ih (l := { l.emit .blockEnd with indent := i, outer := rest }) ⟨hend.cursor, hend.tokens⟩
    · exact h

theorem In.closeBlocks (h : l.In text) (column : Int) : (l.closeBlocks column).In text := by
  unfold Lexer.closeBlocks
  split
  · exact h.closeBlocksFrom column l.outer
  · exact h

theorem In.skipGaps (h : l.In text) (fuel : Nat) : (l.skipGaps fuel).In text := by
  induction fuel generalizing l with
  | zero => exact h
  | succ fuel ih =>
    unfold Lexer.skipGaps
    extract_lets start tabs blanks comment
    have hstart : start.In text := by
      unfold start
      split
      · exact h.cursor.skip 1
      · exact h.cursor
    have hcomment : comment.In text := by
      unfold comment
      split
      · exact (hstart.skipWhile _).skipWhile _
      · exact hstart.skipWhile _
    split
    · exact ih ⟨hcomment.skipBreak, h.tokens⟩
    · exact ⟨hcomment, h.tokens⟩

/-! ### One token -/

/-- Goes on behind a token, with whatever else is changed. -/
theorem In.next (h : l.In text) (t : Token) (ht : t.Solid text) {c : Cursor} (hc : c.In text) {l' : Lexer}
    (hcursor : l'.cursor = c) (htokens : l'.tokens = t :: l.tokens) : l'.In text :=
  ⟨hcursor ▸ hc, htokens ▸ (h.emit ht).tokens⟩

theorem In.atEnd (h : l.In text) : Found (In text) l.atEnd :=
  (h.closeBlocks _).dropPlace.bind fun _ hl => .some (hl.next .streamEnd trivial hl.cursor rfl rfl)

theorem In.outside (h : l.In text) (t : Token) (ht : t.Solid text) {c : Cursor} (hc : c.In text) :
    Found (In text) (l.outside t c) :=
  (h.closeBlocks _).dropPlace.bind fun _ hl => .some (hl.next t ht hc rfl rfl)

theorem In.bracket (h : l.In text) (t : Token) (ht : t.Solid text) : Found (In text) (l.bracket t) :=
  h.savePlace.bind fun _ hl => .some (hl.next t ht (hl.cursor.skip 1) rfl rfl)

theorem In.closing (h : l.In text) (t : Token) (ht : t.Solid text) : Found (In text) (l.closing t) := by
  refine h.dropPlace.bind fun l hl => ?_
  dsimp only
  split
  · exact .some (hl.next t ht (hl.cursor.skip 1) rfl rfl)
  · exact .some (hl.next t ht (hl.cursor.skip 1) rfl rfl)

theorem In.comma (h : l.In text) : Found (In text) l.comma :=
  h.dropPlace.bind fun _ hl => .some (hl.next .flowEntry trivial (hl.cursor.skip 1) rfl rfl)

theorem In.dash (h : l.In text) : Found (In text) l.dash := by
  unfold Lexer.dash
  split
  · exact .none
  · exact (h.openBlock (t := .blockSequence) trivial _ _).dropPlace.bind fun _ hl =>
      .some (hl.next .blockEntry trivial (hl.cursor.skip 1) rfl rfl)

theorem In.questionMark (h : l.In text) : Found (In text) l.questionMark := by
  unfold Lexer.questionMark
  split
  · exact .none
  · exact (h.openBlock (t := .blockMapping) trivial _ _).dropPlace.bind fun _ hl =>
      .some (hl.next .key trivial (hl.cursor.skip 1) rfl rfl)

theorem In.colon (h : l.In text) : Found (In text) l.colon := by
  have hvalue {l : Lexer} (hl : l.In text) : Found (In text) (some ((l.emit .value).goTo (l.cursor.skip 1))) :=
    .some (hl.next .value trivial (hl.cursor.skip 1) rfl rfl)
  unfold Lexer.colon
  dsimp only
  split
  · rename_i k _
    have hopen := (h.insert (t := .key) trivial k.number).openBlock (t := .blockMapping) trivial k.column k.number
    exact hvalue ⟨hopen.cursor, hopen.tokens⟩
  · split
    · exact .none
    · have hopen := h.openBlock (t := .blockMapping) trivial l.cursor.column l.count
      exact hvalue ⟨hopen.cursor, hopen.tokens⟩

theorem In.name (h : l.In text) (isAlias : Bool) : Found (In text) (l.name isAlias) := by
  refine h.savePlace.bind fun l hl => ?_
  dsimp only
  split
  · exact .none
  · refine .some (hl.next _ ?_ ((hl.cursor.skip 1).skip _) rfl rfl)
    cases isAlias <;> trivial

theorem In.tag (h : l.In text) : Found (In text) l.tag :=
  h.savePlace.bind fun _ hl => (found_tagText _ hl.cursor).bind fun r hr => .some (hl.next (.tag r.1) trivial hr rfl rfl)

theorem In.block (h : l.In text) (literal : Bool) : Found (In text) (l.block literal) :=
  h.dropPlace.bind fun _ hl => (found_readBlock literal _ (hl.cursor.skip 1)).bind fun r hr =>
    .some (hl.next (.scalar r.1 false) trivial hr rfl rfl)

theorem In.quoted (h : l.In text) : Found (In text) l.quoted :=
  h.savePlace.bind fun _ hl => (found_readQuoted _ _ _ (hl.cursor.skip 1)).bind fun r hr =>
    .some (hl.next (.scalar r.1 false) trivial hr rfl rfl)

theorem In.plain (h : l.In text) : Found (In text) l.plain := by
  refine h.savePlace.bind fun l hl => ?_
  have hstart : Yaml.Solid text [] := .inl List.nil_infix
  exact (readPlain_words _ _ _ hstart Gap.blank_nothing (.inl ⟨rfl, rfl⟩) hl.cursor).bind fun r hr =>
    .some (hl.next (.scalar r.1.text true) hr.1 hr.2 rfl rfl)

theorem In.step (h : l.In text) : Found (In text) l.step := by
  unfold Lexer.step
  refine (h.skipGaps _).forgetStale.bind fun l hl => ?_
  replace hl := hl.closeBlocks l.cursor.column
  generalize l.closeBlocks l.cursor.column = l at hl
  dsimp only
  split
  · exact hl.atEnd
  split
  · exact (found_directive hl.cursor).bind fun r hr => hl.outside _ hr.1 hr.2
  split
  · exact hl.outside .documentStart trivial (hl.cursor.skip 3)
  split
  · exact hl.outside .documentEnd trivial (hl.cursor.skip 3)
  split
  · exact hl.bracket .flowSequence trivial
  · exact hl.bracket .flowMapping trivial
  · exact hl.closing .flowSequenceEnd trivial
  · exact hl.closing .flowMappingEnd trivial
  · exact hl.comma
  · exact hl.name true
  · exact hl.name false
  · exact hl.tag
  · exact hl.quoted
  · exact hl.quoted
  split
  · exact hl.dash
  split
  · exact hl.questionMark
  split
  · exact hl.colon
  split
  · exact hl.block true
  split
  · exact hl.block false
  split
  · exact hl.plain
  · exact .none

theorem solid_decided (h : l.In text) : ∀ t ∈ l.decided, t.Solid text := fun t ht =>
  h.tokens t (List.mem_reverse.mp (List.mem_of_mem_take ht))

/-- By induction on the fuel, token by token. -/
theorem solid_finish (h : l.In text) (fuel : Nat) : ∀ t ∈ finish fuel l, t.Solid text := by
  induction fuel generalizing l with
  | zero => exact solid_decided h
  | succ fuel ih =>
    unfold finish
    split
    · exact fun t ht => h.tokens t (List.mem_reverse.mp ht)
    · split
      · exact solid_decided h
      · rename_i fresh hfresh
        have hin := h.forgetStale fresh hfresh
        cases hstep : fresh.step with
        | none => exact solid_decided hin
        | some next => exact ih (hin.step next hstep)

/-- **A plain scalar of a text stands in it, or has a gap in it.** -/
theorem solid_of_run (text : List Char) : ∀ t ∈ run text, t.Solid text := by
  have hmark : (if text.head? == some '\ufeff' then text.drop 1 else text) <:+ text := by
    split
    · exact List.drop_suffix _ _
    · exact List.suffix_refl _
  unfold run
  split
  · extract_lets start
    have hstart : In text { cursor := .start start } := ⟨hmark, nofun⟩
    exact solid_finish hstart _
  · nofun

end Lexer

/-! ## Pieces -/

/-- A scalar among the pieces is one of some tokens, or is not written at all. -/
def Piece.Of (tokens : List Token) : Piece → Prop
  | .scalar s _ => s.text = [] ∨ .scalar s.text s.plain ∈ tokens
  | _ => True

/-- What was found is made of tokens, and some of these are left. -/
structure Progress.Of (tokens : List Token) (p : Progress) : Prop where
  found : ∀ q ∈ p.1, q.Of tokens
  left : p.2.2 <:+ tokens

variable {tokens rest : List Token}

theorem Piece.Of.mono {q : Piece} (h : q.Of rest) (hrest : rest <:+ tokens) : q.Of tokens := by
  cases q with
  | scalar s anchor => exact h.imp_right fun hmem => hrest.subset hmem
  | _ => trivial

theorem Progress.Of.none {next : List Expect} (h : rest <:+ tokens) : Progress.Of tokens ([], next, rest) :=
  ⟨List.forall_mem_nil _, h⟩

theorem Progress.Of.one {q : Piece} {next : List Expect} (hq : q.Of tokens) (h : rest <:+ tokens) :
    Progress.Of tokens ([q], next, rest) :=
  ⟨List.forall_mem_singleton.mpr hq, h⟩

theorem Progress.Of.mono {p : Progress} (h : Progress.Of rest p) (hrest : rest <:+ tokens) : Progress.Of tokens p :=
  ⟨fun q hq => (h.found q hq).mono hrest, h.left.trans hrest⟩

theorem found_properties (handles : Handles) (tokens : List Token) :
    Found (fun r => r.2.2 <:+ tokens) (properties handles tokens) := by
  have htag (t : TagText) (name : Option (List Char)) {rest : List Token} (h : rest <:+ tokens) :
      Found (fun r => r.2.2 <:+ tokens) ((t.resolve handles).map fun t => (name, some t, rest)) :=
    .map (P := fun _ => True) (fun _ _ => trivial) fun _ _ => h
  unfold properties
  split
  · exact htag _ _ (List.suffix_append [_, _] _)
  · exact htag _ _ (List.suffix_append [_, _] _)
  · exact .some (List.suffix_cons _ _)
  · exact htag _ _ (List.suffix_cons _ _)
  · exact .some (List.suffix_refl _)

theorem found_stepNode (handles : Handles) (block indentless : Bool) (tokens : List Token) :
    Found (Progress.Of tokens) (stepNode handles block indentless tokens) := by
  unfold stepNode
  split
  · exact .some (.one trivial (List.suffix_cons _ _))
  · refine (found_properties handles tokens).bind fun ⟨anchor, tag, left⟩ hleft => ?_
    -- a node of which nothing but its properties is written
    have hempty : Found (Progress.Of tokens) (if (anchor.isSome || tag.isSome) = true then
        some ([.scalar ⟨[], true, tag⟩ anchor], [], left) else none) := by
      split
      · exact .some (.one (.inl rfl) hleft)
      · exact .none
    dsimp only at hleft ⊢
    split
    · split
      · exact .some (.one trivial hleft)
      · exact hempty
    · exact .some (.one (.inr (hleft.subset List.mem_cons_self)) ((List.suffix_cons _ _).trans hleft))
    · exact .some (.one trivial ((List.suffix_cons _ _).trans hleft))
    · exact .some (.one trivial ((List.suffix_cons _ _).trans hleft))
    · split
      · exact .some (.one trivial ((List.suffix_cons _ _).trans hleft))
      · exact hempty
    · split
      · exact .some (.one trivial ((List.suffix_cons _ _).trans hleft))
      · exact hempty
    · exact .none
    · exact hempty

theorem found_nodeUnless (ends : Token → Bool) (block indentless : Bool) (next : Expect) (h : rest <:+ tokens) :
    Found (Progress.Of tokens) (nodeUnless ends block indentless next rest) := by
  unfold nodeUnless
  split
  · exact .none
  · split
    · exact .some (.one (.inl rfl) h)
    · exact .some (.none h)

theorem found_stepFlowItem (h : rest <:+ tokens) : Found (Progress.Of tokens) (stepFlowItem rest) := by
  unfold stepFlowItem
  split
  · exact .some (.one trivial ((List.suffix_cons _ _).trans h))
  · exact .some (.one trivial ((List.suffix_cons _ _).trans h))
  · exact .none
  · exact .some (.none h)

theorem found_stepFlowKey (h : rest <:+ tokens) : Found (Progress.Of tokens) (stepFlowKey rest) := by
  unfold stepFlowKey
  split
  · exact .some (.one trivial ((List.suffix_cons _ _).trans h))
  · exact found_nodeUnless _ _ _ _ ((List.suffix_cons _ _).trans h)
  · exact .none
  · exact .some (.none h)

/-- One case for each of what may have to come. -/
theorem found_step (handles : Handles) (tokens : List Token) (e : Expect) :
    Found (Progress.Of tokens) (step handles tokens e) := by
  have hrefl := List.suffix_refl tokens
  unfold step
  split
  -- a node
  · exact found_stepNode handles _ _ tokens
  -- items of blocks
  · split
    · exact found_nodeUnless _ _ _ _ (List.suffix_cons _ _)
    · exact .some (.one trivial (List.suffix_cons _ _))
    · exact .none
  · split
    · exact found_nodeUnless _ _ _ _ (List.suffix_cons _ _)
    · exact .none
    · exact .some (.one trivial hrefl)
  -- keys and values in blocks
  · split
    · exact found_nodeUnless _ _ _ _ (List.suffix_cons _ _)
    · exact .some (.one trivial (List.suffix_cons _ _))
    · exact .none
  · split
    · exact found_nodeUnless _ _ _ _ (List.suffix_cons _ _)
    · exact .none
    · exact .some (.one (.inl rfl) hrefl)
  -- items within brackets, some of them mappings of one entry
  · split
    · exact found_stepFlowItem hrefl
    · exact found_stepFlowItem (List.suffix_cons _ _)
    · exact .some (.one trivial (List.suffix_cons _ _))
    · exact .none
  · split
    · exact .none
    · split
      · exact .some (.one (.inl rfl) (List.suffix_cons _ _))
      · exact .some (.none hrefl)
  · split
    · exact found_nodeUnless _ _ _ _ (List.suffix_cons _ _)
    · exact .none
    · exact .some (.one (.inl rfl) hrefl)
  · exact .some (.one trivial hrefl)
  -- keys and values within braces
  · split
    · exact found_stepFlowKey hrefl
    · exact found_stepFlowKey (List.suffix_cons _ _)
    · exact .some (.one trivial (List.suffix_cons _ _))
    · exact .none
  · split
    · exact .none
    · exact found_nodeUnless _ _ _ _ (List.suffix_cons _ _)
    · exact .some (.one (.inl rfl) hrefl)

/-- By induction on the fuel, step by step. -/
theorem found_readPieces (handles : Handles) (fuel : Nat) (expected : List Expect) (tokens : List Token) :
    Found (fun r => (∀ q ∈ r.1, q.Of tokens) ∧ r.2 <:+ tokens) (readPieces handles fuel expected tokens) := by
  have hnothing : (∀ q ∈ ([] : List Piece), q.Of tokens) ∧ tokens <:+ tokens := ⟨by simp, List.suffix_refl _⟩
  induction fuel generalizing expected tokens with
  | zero =>
    cases expected with
    | nil => exact .some hnothing
    | cons e stack => exact .none
  | succ fuel ih =>
    cases expected with
    | nil => exact .some hnothing
    | cons e stack =>
      refine (found_step handles tokens e).bind fun ⟨found, next, left⟩ hstep => ?_
      refine (ih (next ++ stack) left ⟨by simp, List.suffix_refl _⟩).bind fun ⟨more, behind⟩ hmore => .some ⟨?_, ?_⟩
      · exact List.forall_mem_append.mpr ⟨hstep.found, fun q hq => (hmore.1 q hq).mono hstep.left⟩
      · exact hmore.2.trans hstep.left

theorem found_readDirectives (hasVersion : Bool) (named : Handles) (tokens : List Token) :
    Found (fun r => r.2 <:+ tokens) (readDirectives hasVersion named tokens) := by
  induction tokens generalizing hasVersion named with
  | nil => exact .some (List.suffix_refl _)
  | cons t rest ih =>
    have hmore (hasVersion : Bool) (named : Handles) : Found (fun r => r.2 <:+ t :: rest)
        (readDirectives hasVersion named rest) := fun r hr => (ih hasVersion named r hr).trans (List.suffix_cons t rest)
    cases t with
    | version major minor =>
      unfold readDirectives
      split
      · exact .none
      · exact hmore _ _
    | handle name meaning =>
      unfold readDirectives
      split
      · exact .none
      · exact hmore _ _
    | _ => exact .some (List.suffix_refl _)

theorem of_ofRoot {handles : Handles} {pieces : List Piece} {alone : Bool} (hrest : rest <:+ tokens)
    (h : Page.ofRoot handles rest = .whole pieces alone) : ∀ q ∈ pieces, q.Of tokens := by
  unfold Page.ofRoot at h
  split at h
  · cases h
  · rename_i found _ hfound
    cases h
    exact fun q hq => ((found_readPieces handles _ _ rest _ hfound).1 q hq).mono hrest

/-- **The pieces of a document are made of its tokens.** -/
theorem of_ofTokens {pieces : List Piece} {alone : Bool} (h : Page.ofTokens tokens = .whole pieces alone) :
    ∀ q ∈ pieces, q.Of tokens := by
  unfold Page.ofTokens at h
  split at h
  case h_1 => cases h
  case h_2 | h_3 | h_4 =>
    split at h
    · rename_i hdirectives
      have hleft := (List.suffix_cons _ _).trans (found_readDirectives _ _ _ _ hdirectives)
      split at h
      · cases h
        exact List.forall_mem_singleton.mpr (.inl rfl)
      · exact of_ofRoot hleft h
    · cases h
  case h_5 => exact of_ofRoot (List.suffix_refl _) h

end Chronicle.Yaml

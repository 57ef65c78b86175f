import Chronicle.Document.Yaml.Reader
import Chronicle.Proofs.Document.Worded
import Chronicle.Proofs.Document.YamlPieces
import Chronicle.Proofs.Number.Numeral

/-!
# The numbers in what is read from YAML

A plain scalar is read as a number only if there is no gap in it (`Yaml.gapless_of_plainDocument`), so it stands in the
text as it is. **Each number in what is read from YAML stands in the text as a numeral, or a tag asks for it**
(`Yaml.numbers_of_read`).
-/

namespace Chronicle.Yaml

variable {text : List Char}

/-! ## Scalars that are numbers -/

/-- Numbers stand in a text without gaps. -/
def Gapless (cs : List Char) : Prop := ∀ x ∈ cs, isGap x = false

theorem isGap_of_digitValue {x : Char} {d : Nat} (h : Numeral.digitValue x = some d) : isGap x = false := by
  by_contra hgap
  simp only [isGap, isBlank, isBreakOrEnd, isBreak, isEnd, Bool.not_eq_false, Bool.or_eq_true, beq_iff_eq,
    or_assoc] at hgap
  obtain rfl | rfl | rfl | rfl | rfl | rfl | rfl | rfl := hgap <;> cases h

theorem gapless_cons {c : Char} {cs : List Char} (hc : isGap c = false) (h : Gapless cs) : Gapless (c :: cs) :=
  List.forall_mem_cons.mpr ⟨hc, h⟩

theorem gapless_of_natural {base n : Nat} {cs : List Char} (h : Numeral.natural? base cs = some n) : Gapless cs := by
  intro x hx
  obtain ⟨d, hd⟩ := Numeral.exists_digitValue_of_natural h x hx
  exact isGap_of_digitValue hd

theorem gapless_of_signed {cs : List Char} (h : Gapless (Numeral.signed cs).2) : Gapless cs := by
  unfold Numeral.signed at h
  split at h
  · exact gapless_cons rfl h
  · exact gapless_cons rfl h
  · exact h

theorem gapless_of_integer {base : Nat} {n : Int} {cs : List Char} (h : Numeral.integer? base cs = some n) :
    Gapless cs := by
  unfold Numeral.integer? at h
  obtain ⟨m, hm, _⟩ := Option.map_eq_some_iff.mp h
  obtain ⟨k, hk, _⟩ := Option.bind_eq_some_iff.mp hm
  exact gapless_of_signed (gapless_of_natural hk)

theorem gapless_of_power {e : Int} {cs : List Char} (h : Numeral.power? cs = some e) : Gapless cs := by
  unfold Numeral.power? at h
  split at h
  · exact List.forall_mem_nil _
  · split at h
    · rename_i hmark
      simp only [Bool.or_eq_true, beq_iff_eq] at hmark
      refine gapless_cons ?_ (gapless_of_integer h)
      obtain rfl | rfl := hmark <;> rfl
    · cases h

theorem gapless_of_decimal {x : Binary64} {cs : List Char} (h : Numeral.decimal? cs = some x) : Gapless cs := by
  unfold Numeral.decimal? at h
  dsimp -zeta only at h
  extract_lets whole after behind part tail at h
  have hbody : (Numeral.signed cs).2 = whole ++ after := List.takeWhile_append_dropWhile.symm
  split at h
  · rename_i n e hn he
    obtain ⟨hwhole, hpart⟩ := List.forall_mem_append.mp (gapless_of_natural hn)
    have htail := gapless_of_power he
    clear_value whole after
    refine gapless_of_signed (hbody ▸ List.forall_mem_append.mpr ⟨hwhole, ?_⟩)
    by_cases hpoint : ∃ rest, after = '.' :: rest
    · obtain ⟨rest, rfl⟩ := hpoint
      refine gapless_cons rfl ?_
      rw [← List.takeWhile_append_dropWhile (p := Char.isDigit) (l := rest)]
      exact List.forall_mem_append.mpr ⟨hpart, htail⟩
    · unfold tail at htail
      split at htail
      · exact absurd ⟨_, rfl⟩ hpoint
      · exact htail
  · cases h

theorem gapless_of_base {base : Nat} {cs digits : List Char} (h : baseOf cs = some (base, digits))
    (hdigits : Gapless digits) : Gapless cs := by
  unfold baseOf at h
  split at h <;> cases h <;> exact gapless_cons rfl (gapless_cons rfl hdigits)

theorem gapless_of_integerText {t : NumberText} {cs : List Char} (h : integerText cs = some t) : Gapless cs := by
  unfold integerText at h
  split at h
  · rename_i n hn
    unfold integerOf at hn
    obtain ⟨m, hm, _⟩ := Option.map_eq_some_iff.mp hn
    obtain ⟨k, hk, _⟩ := Option.bind_eq_some_iff.mp hm
    obtain hmarked | ⟨_, hplain⟩ := Option.or_eq_some_iff.mp hk
    · split at hmarked
      · exact gapless_of_signed (gapless_of_base ‹_› (gapless_of_natural hmarked))
      · cases hmarked
    · split at hplain
      · cases hplain
      · exact gapless_of_signed (gapless_of_natural hplain)
  · cases h

theorem gapless_of_named {names : List String} {cs : List Char} (h : names.contains (String.ofList cs) = true)
    (hnames : ∀ name ∈ names, Gapless name.toList) : Gapless cs := by
  have hname := hnames _ (List.contains_iff_mem.mp h)
  rwa [String.toList_ofList] at hname

theorem gapless_of_floatText {x : Binary64} {cs : List Char} (h : floatText cs = some x) : Gapless cs := by
  unfold floatText at h
  extract_lets unsigned at h
  have hunsigned (h : Gapless unsigned) : Gapless cs := by
    unfold unsigned at h
    split at h
    · exact gapless_cons rfl h
    · exact h
  split at h
  · cases h
  · split at h
    · exact hunsigned (gapless_of_named ‹_› (by simp [Gapless, isGap, isBlank, isBreakOrEnd, isBreak, isEnd]))
    · split at h
      · exact gapless_of_named ‹_› (by simp [Gapless, isGap, isBlank, isBreakOrEnd, isBreak, isEnd])
      · split at h
        · exact gapless_of_named ‹_› (by simp [Gapless, isGap, isBlank, isBreakOrEnd, isBreak, isEnd])
        · exact hunsigned (gapless_of_decimal (Option.filter_eq_some_iff.mp h).1)

/-- What a plain scalar without a tag stands for is a number only if it is written like one. -/
theorem gapless_of_plainDocument {v : Document} {cs : List Char} (h : plainDocument cs = some v) (hv : v.IsNumber) :
    Gapless cs := by
  unfold plainDocument at h
  dsimp only at h
  split at h
  · cases h
    exact hv.elim
  · split at h
    · cases h
      exact hv.elim
    · split at h
      · exact gapless_of_integerText ‹_›
      · split at h
        · rename_i hfloat
          split at hfloat
          · cases hfloat
          · exact gapless_of_floatText hfloat
        · cases h
          exact hv.elim

/-- A numeral stands in a text as a plain scalar without a tag, and is read as a number. -/
def Written (text cs : List Char) (v : Document) : Prop := cs <:+: text ∧ plainDocument cs = some v

/-- A tag asks for a number. -/
def Tagged (v : Document) : Prop := ∃ s : Scalar, s.tag.isSome = true ∧ s.document = some v

/-- A number of a document stands in a text as a numeral, or a tag asks for it. -/
def Stands (text : List Char) (v : Document) : Prop := (∃ cs, Written text cs v) ∨ Tagged v

theorem found_isScalar_number (t : NumberText) : Found Document.IsScalar t.document := by
  cases t with
  | integer n => exact .some trivial
  | tooLarge => exact .none
  | float x => exact .some trivial

theorem found_isScalar_plain (cs : List Char) : Found Document.IsScalar (plainDocument cs) := by
  unfold plainDocument
  dsimp only
  split
  · exact .some trivial
  · split
    · exact .some trivial
    · split
      · exact found_isScalar_number _
      · split <;> exact .some trivial

/-- A scalar is no collection. -/
theorem found_isScalar (s : Scalar) : Found Document.IsScalar s.document := by
  unfold Scalar.document
  dsimp only
  split
  · split
    · exact found_isScalar_plain s.text
    · exact .some trivial
  · split
    · exact .none
    · split
      · exact .map (P := fun _ => True) (fun _ _ => trivial) fun _ _ => trivial
      · exact .given fun t => found_isScalar_number t
      · exact .map (P := fun _ => True) (fun _ _ => trivial) fun _ _ => trivial
      · split
        · exact .some trivial
        · exact .none
      · exact .some trivial

theorem found_scalar {tokens : List Token} (htokens : ∀ t ∈ tokens, t.Solid text) {s : Scalar}
    {anchor : Option (List Char)} (h : Piece.Of tokens (.scalar s anchor)) :
    Found (Document.Numbers (Stands text)) s.document := by
  intro v hread
  refine .of_isScalar (found_isScalar s v hread) fun hv => ?_
  obtain ⟨cs, plain, tag⟩ := s
  cases tag with
  | some tag => exact .inr ⟨_, rfl, hread⟩
  | none =>
    cases plain with
    | false =>
      cases hread
      exact hv.elim
    | true =>
      have hplain : plainDocument cs = some v := hread
      refine .inl ⟨cs, ?_, hplain⟩
      obtain hempty | hmem := h
      · rw [show cs = [] from hempty]
        exact List.nil_infix
      · obtain hinfix | ⟨x, hx, hgap⟩ := htokens _ hmem
        · exact hinfix
        · rw [gapless_of_plainDocument hplain hv x hx] at hgap
          cases hgap

/-! ## Documents -/

theorem link_cons {a a' : Anchors} {place : Nat} {p : Piece} {rest : List Piece} {linked : List Linked}
    (h : link a place (p :: rest) = some (linked, a')) : ∃ first more b, linked = first :: more ∧
      link b (place + 1) rest = some (more, a') ∧ ∀ s, first = .scalar s → ∃ anchor, p = .scalar s anchor := by
  have hbind (first : Linked) {b : Anchors} (hfirst : ∀ s, first = .scalar s → ∃ anchor, p = .scalar s anchor)
      (h : ((link b (place + 1) rest).bind fun r => some (first :: r.1, r.2)) = some (linked, a')) :
      ∃ first more b, linked = first :: more ∧ link b (place + 1) rest = some (more, a') ∧
        ∀ s, first = .scalar s → ∃ anchor, p = .scalar s anchor := by
    obtain ⟨⟨more, c⟩, hmore, h⟩ := Option.bind_eq_some_iff.mp h
    cases h
    exact ⟨first, more, b, rfl, hmore, hfirst⟩
  cases p with
  | «alias» name =>
    obtain ⟨r, hr, h⟩ := Option.bind_eq_some_iff.mp h
    obtain ⟨n, _, rfl⟩ := Option.map_eq_some_iff.mp hr
    exact hbind (.alias n) nofun h
  | scalar s anchor =>
    refine hbind (.scalar s) ?_ h
    rintro _ ⟨⟩
    exact ⟨anchor, rfl⟩
  | sequence tag anchor => exact hbind (.sequence tag) nofun h
  | mapping tag anchor => exact hbind (.mapping tag) nofun h
  | close => exact hbind .close nofun h

theorem exists_of_link {a a' : Anchors} {place : Nat} {pieces : List Piece} {linked : List Linked}
    (h : link a place pieces = some (linked, a')) {s : Scalar} (hs : .scalar s ∈ linked) :
    ∃ anchor, .scalar s anchor ∈ pieces := by
  induction pieces generalizing a place linked with
  | nil =>
    cases h
    cases hs
  | cons p rest ih =>
    obtain ⟨first, more, b, rfl, hmore, hfirst⟩ := link_cons h
    obtain heq | hs := List.mem_cons.mp hs
    · obtain ⟨anchor, rfl⟩ := hfirst s heq.symm
      exact ⟨anchor, List.mem_cons_self⟩
    · obtain ⟨anchor, hmem⟩ := ih hmore hs
      exact ⟨anchor, List.mem_cons_of_mem p hmem⟩

section

variable {pieces : Array Linked} {places : List (Nat × Nat)} {P : Document → Prop} {room : Nat}

theorem found_readNode (h : ∀ r, Found (fun x => x.1.Numbers P) (readContent pieces places room r)) (r : Reading) :
    Found (fun x => x.1.Numbers P) (readNode pieces places room r) := by
  unfold readNode
  split
  · refine .given fun target => ?_
    split
    · exact .none
    · exact (h _).bind fun x hx => .some hx
  · exact h r

theorem found_readItems (h : ∀ r, Found (fun x => x.1.Numbers P) (readNode pieces places room r)) (left : Nat)
    (r : Reading) : Found (fun x => ∀ d ∈ x.1, d.Numbers P) (readItems pieces places room left r) := by
  induction left generalizing r with
  | zero =>
    unfold readItems
    split
    · exact .some (List.forall_mem_nil _)
    · rw [dif_pos rfl]
      exact .none
  | succ left ih =>
    unfold readItems
    split
    · exact .some (List.forall_mem_nil _)
    · rw [dif_neg (Nat.succ_ne_zero left)]
      exact (h r).bind fun x hx => (ih x.2).bind fun y hy => .some (List.forall_mem_cons.mpr ⟨hx, hy⟩)

theorem found_readEntries (h : ∀ r, Found (fun x => x.1.Numbers P) (readNode pieces places room r)) (left : Nat)
    (r : Reading) :
    Found (fun x => ∀ e ∈ x.1, e.1.Numbers P ∧ e.2.Numbers P) (readEntries pieces places room left r) := by
  induction left generalizing r with
  | zero =>
    unfold readEntries
    split
    · exact .some (List.forall_mem_nil _)
    · rw [dif_pos rfl]
      exact .none
  | succ left ih =>
    unfold readEntries
    split
    · exact .some (List.forall_mem_nil _)
    · rw [dif_neg (Nat.succ_ne_zero left)]
      exact (h r).bind fun x hx => (h x.2).bind fun y hy => (ih y.2).bind fun z hz =>
        .some (List.forall_mem_cons.mpr ⟨⟨hx, hy⟩, hz⟩)

/-- By induction on how deep collections may be. -/
theorem found_readContent (hscalars : ∀ s, .scalar s ∈ pieces → Found (Document.Numbers P) s.document) (room : Nat)
    (r : Reading) : Found (fun x => x.1.Numbers P) (readContent pieces places room r) := by
  induction room using Nat.strong_induction_on generalizing r with
  | h room ih =>
    -- what is within a collection
    have hnode (hroom : room ≠ 0) := found_readNode (ih (room - 1) (Nat.sub_one_lt hroom))
    unfold readContent
    split
    · exact (hscalars _ (Array.mem_of_getElem? ‹_›)).bind fun d hd => .some hd
    · split
      · exact .none
      · rename_i hroom
        exact (found_readItems (hnode fun h => hroom (.inl h)) _ _).bind fun x hx =>
          .some (Document.numbers_list.mpr hx)
    · split
      · exact .none
      · rename_i hroom
        exact (found_readEntries (hnode fun h => hroom (.inl h)) _ _).bind fun x hx =>
          .some (Document.numbers_map.mpr ⟨fun e he => (hx e he).1, fun e he => (hx e he).2⟩)
    · exact .none

end

/-- **Each number in what is read from YAML stands in the text, or a tag asks for it.** -/
theorem numbers_of_read {text : String} {result : Result} (h : read text = some result) :
    result.document.Numbers (Stands text.toList) := by
  unfold read at h
  split at h
  · cases h
    exact .null
  · cases h
  · rename_i pieces alone hpage
    obtain ⟨⟨linked, anchors⟩, hlink, h⟩ := Option.bind_eq_some_iff.mp h
    obtain ⟨⟨d, behind⟩, hnode, h⟩ := Option.bind_eq_some_iff.mp h
    cases h
    refine found_readNode (found_readContent ?_ _) _ _ hnode
    intro s hs
    obtain ⟨anchor, hmem⟩ := exists_of_link hlink (List.mem_toArray.mp hs)
    exact found_scalar (Lexer.solid_of_run text.toList) (of_ofTokens hpage _ hmem)

end Chronicle.Yaml

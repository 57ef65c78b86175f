import Chronicle.Proofs.Document.YamlNumbers

/-!
# Numerals in YAML

What a plain scalar is read as that is written like a number: with a point, a floating-point number that it is rounded
to (`Yaml.Written.decimal`), and as an integer of 64 bits, itself (`Yaml.Written.int`). Neither is taken for the name of
something else (`Yaml.plainDocument_eq`).
-/

namespace Chronicle.Yaml

open Numeral

variable {cs text : List Char} {v : Document}

/-- A sign, if any, and a digit. -/
def BeginsDigit (cs : List Char) : Prop := ∃ c more, (signed cs).2 = c :: more ∧ c.isDigit = true

/-- A name does not begin like a number. -/
def BeginsOther (name : String) : Prop := ∀ c, (signed name.toList).2.head? = some c → c.isDigit = false

theorem beginsDigit_toString (n : Int) : BeginsDigit (toString n).toList := by
  obtain ⟨c, more, hn, hdigits, _⟩ := exists_digits n.natAbs
  refine ⟨c, more, ?_, hdigits c List.mem_cons_self⟩
  rw [signed_toString, hn]

theorem beginsDigit_text (d : Decimal) : BeginsDigit d.text := by
  obtain ⟨c, more, hwhole, hdigits, _⟩ := d.exists_whole
  refine ⟨c, more ++ '.' :: d.part, ?_, hdigits c List.mem_cons_self⟩
  rw [d.signed_text, hwhole]
  rfl

theorem not_named {names : List String} (h : BeginsDigit cs) (hnames : ∀ name ∈ names, BeginsOther name) :
    names.contains (String.ofList cs) = false := by
  rw [Bool.eq_false_iff]
  intro hmem
  obtain ⟨c, more, hcs, hc⟩ := h
  have hother := hnames _ (List.contains_iff_mem.mp hmem) c (by rw [String.toList_ofList, hcs]; rfl)
  rw [hother] at hc
  cases hc

theorem plainDocument_eq (h : BeginsDigit cs) : plainDocument cs =
    match integerText cs with
    | some n => n.document
    | none =>
      match if isZeroPadded cs then none else floatText cs with
      | some x => some (.float x)
      | none => some (.text (String.ofList cs)) := by
  have hnull : isNullText (String.ofList cs) = false := not_named h (by simp [BeginsOther, signed])
  have htruth : truthOf (String.ofList cs) = none := by
    unfold truthOf
    rw [if_neg (by rw [not_named h (by simp [BeginsOther, signed])]; decide),
      if_neg (by rw [not_named h (by simp [BeginsOther, signed])]; decide)]
  have hne : cs.isEmpty = false := by
    obtain ⟨c, more, hcs, _⟩ := h
    cases cs with
    | nil => cases hcs
    | cons _ _ => rfl
  unfold plainDocument
  dsimp only
  rw [hnull, htruth, hne]
  rfl

theorem baseOf_eq_none (h : ∀ x ∈ cs, x ∉ ['x', 'o', 'b']) : baseOf cs = none := by
  unfold baseOf
  split
  · exact absurd (by simp) (h 'x' (by simp))
  · exact absurd (by simp) (h 'o' (by simp))
  · exact absurd (by simp) (h 'b' (by simp))
  · rfl

theorem mem_of_mem_signed {x : Char} (h : x ∈ (signed cs).2) : x ∈ cs := by
  unfold signed at h
  split at h
  · exact List.mem_cons_of_mem _ h
  · exact List.mem_cons_of_mem _ h
  · exact h

/-! ## Integers -/

theorem isZeroPadded_toString (n : Int) : isZeroPadded (toString n).toList = false := by
  unfold isZeroPadded
  rw [signed_toString]
  obtain ⟨c, more, hn, _, hzero⟩ := exists_digits n.natAbs
  dsimp only
  rw [hn, List.head?_cons]
  by_cases hc : c = '0'
  · rw [hzero hc, hc]
    rfl
  · simp [hc]

theorem integerOf_toString (n : Int) : integerOf (toString n).toList = some n := by
  have hbase : baseOf (signed (toString n).toList).2 = none :=
    baseOf_eq_none fun x hx => markless_toString n x (mem_of_mem_signed hx)
  rw [← integer?_toString n]
  unfold integerOf integer?
  dsimp only
  rw [hbase, isZeroPadded_toString]
  rfl

/-- An integer of 64 bits is read as itself. -/
theorem plainDocument_int {n : Int} (hlow : -(twoTo 63 : Int) ≤ n) (hhigh : n < twoTo 64) :
    plainDocument (toString n).toList = some (.int n) := by
  have hinteger : integerText (toString n).toList = some (.integer n) := by
    unfold integerText
    rw [integerOf_toString]
    dsimp only
    rw [if_pos (by simp [hlow, hhigh])]
  rw [plainDocument_eq (beginsDigit_toString n), hinteger]
  rfl

/-! ## Decimals -/

theorem integerText_text (d : Decimal) : integerText d.text = none := by
  have hbase : baseOf (signed d.text).2 = none :=
    baseOf_eq_none fun x hx => d.markless_text x (mem_of_mem_signed hx)
  have hpoint : natural? 10 (signed d.text).2 = none := by
    rw [Option.eq_none_iff_forall_ne_some]
    intro n hn
    obtain ⟨_, hdigit⟩ := exists_digitValue_of_natural hn '.' (by simp [d.signed_text])
    cases hdigit
  have hinteger : integerOf d.text = none := by
    unfold integerOf
    dsimp only
    rw [hbase, hpoint]
    simp
  unfold integerText
  rw [hinteger]

theorem isZeroPadded_text (d : Decimal) : isZeroPadded d.text = false := by
  have hpoint : Char.isDigit '.' = false := rfl
  unfold isZeroPadded
  rw [d.signed_text]
  simp [hpoint]

theorem floatText_text (d : Decimal) : floatText d.text = some (.ofDecimal d.negative d.digits (-d.places)) := by
  have hnamed {names : List String} (hnames : ∀ name ∈ names, BeginsOther name) :
      ¬ names.contains (String.ofList d.text) = true := by
    rw [not_named (beginsDigit_text d) hnames]
    decide
  unfold floatText
  extract_lets unsigned
  have hunsigned : unsigned = d.text := by
    unfold unsigned
    split
    · rename_i rest heq
      have hmem : '+' ∈ d.text := heq ▸ List.mem_cons_self
      obtain h | h | h := Decimal.mem_text hmem <;> cases h
    · rfl
  rw [hunsigned, if_neg (by simp), if_neg (hnamed (by simp [BeginsOther, signed])),
    if_neg (hnamed (by simp [BeginsOther, signed])), if_neg (hnamed (by simp [BeginsOther, signed])), decimal?_text,
    Option.filter_some, if_pos d.rounds_ofDecimal.isFinite]

/-- A decimal is read as a floating-point number that it is rounded to. -/
theorem plainDocument_text (d : Decimal) :
    plainDocument d.text = some (.float (.ofDecimal d.negative d.digits (-d.places))) := by
  rw [plainDocument_eq (beginsDigit_text d), integerText_text]
  dsimp only
  rw [isZeroPadded_text, floatText_text]
  rfl

/-! ## Numerals in a text -/

theorem Written.decimal {d : Decimal} (h : Written text d.text v) : ∃ x, v = .float x ∧ d.Rounds x := by
  cases (plainDocument_text d).symm.trans h.2
  exact ⟨_, rfl, d.rounds_ofDecimal⟩

theorem Written.int {n : Int} (h : Written text (toString n).toList v) (hlow : -(twoTo 63 : Int) ≤ n)
    (hhigh : n < twoTo 64) : v = .int n :=
  (Option.some.inj ((plainDocument_int hlow hhigh).symm.trans h.2)).symm

end Chronicle.Yaml

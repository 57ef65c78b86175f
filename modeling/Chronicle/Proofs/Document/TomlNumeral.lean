import Chronicle.Proofs.Document.Toml
import Chronicle.Proofs.Number.Numeral

/-!
# Numerals in TOML

What the reader of numbers makes of a numeral that it takes off a text, whatever stands behind it: a number with a
point is read as a floating-point number that it is rounded to (`Toml.Written.decimal`), and an integer as itself
(`Toml.Written.int`).

A reader of digits takes underscores and more digits with them. So each reader here takes just what it is given, or
leaves less than stands behind that (`Toml.readDigits_eq_some`); a numeral leaves nothing of what stands behind it out.
-/

namespace Chronicle.Toml

open Numeral

variable {cs ds more rest tail fraction text : List Char} {c : Char} {v : Document}

/-! ## Digits -/

theorem readMoreDigits_cons (hc : c.isDigit = true) (tail : List Char) : readMoreDigits Char.isDigit (c :: tail) =
    (readMoreDigits Char.isDigit tail).map fun r => (c :: r.1, r.2) := by
  conv_lhs => unfold readMoreDigits
  split
  case h_1 => contradiction
  case h_2 heq | h_3 heq =>
    obtain ⟨rfl, _⟩ := List.cons.inj heq
    cases hc
  case h_4 heq =>
    obtain ⟨rfl, rfl⟩ := List.cons.inj heq
    rw [if_pos hc]

/-- Digits are read with whatever is read behind them. -/
theorem readMoreDigits_append (h : AllDigits cs) (tail : List Char) : readMoreDigits Char.isDigit (cs ++ tail) =
    (readMoreDigits Char.isDigit tail).map fun r => (cs ++ r.1, r.2) := by
  induction cs with
  | nil => simp
  | cons c more ih =>
    obtain ⟨hc, hmore⟩ := List.forall_mem_cons.mp h
    rw [List.cons_append, readMoreDigits_cons hc, ih hmore, Option.map_map]
    rfl

theorem readMoreDigits_eq_some (h : readMoreDigits Char.isDigit cs = some (ds, rest)) :
    ds = [] ∧ rest = cs ∨ rest.length < cs.length := by
  have hmore {tail : List Char} {x : Char} (h : ((readMoreDigits Char.isDigit tail).map fun r => (x :: r.1, r.2)) =
      some (ds, rest)) : rest.length ≤ tail.length := by
    obtain ⟨r, hr, heq⟩ := Option.map_eq_some_iff.mp h
    cases heq
    exact (leaves_readMoreDigits _ (List.suffix_refl tail) _ _ hr).2.length_le
  unfold readMoreDigits at h
  split at h
  · cases h
    exact .inl ⟨rfl, rfl⟩
  · split at h
    · exact .inr (Nat.lt_of_le_of_lt (hmore h) (by simp))
    · cases h
  · cases h
  · split at h
    · exact .inr (Nat.lt_of_le_of_lt (hmore h) (by simp))
    · cases h
      exact .inl ⟨rfl, rfl⟩

theorem readDigits_append (hcs : AllDigits cs) (hne : cs ≠ []) (tail : List Char) :
    readDigits Char.isDigit (cs ++ tail) = (readMoreDigits Char.isDigit tail).map fun r => (cs ++ r.1, r.2) := by
  obtain ⟨c, more, rfl⟩ := List.exists_cons_of_ne_nil hne
  obtain ⟨hc, hmore⟩ := List.forall_mem_cons.mp hcs
  rw [List.cons_append, readDigits, if_pos hc, readMoreDigits_append hmore, Option.map_map]
  rfl

/-- Digits, and either nothing more or a part of what stands behind them. -/
theorem readDigits_eq_some (hcs : AllDigits cs) (hne : cs ≠ [])
    (h : readDigits Char.isDigit (cs ++ tail) = some (ds, rest)) :
    ds = cs ∧ rest = tail ∨ rest.length < tail.length := by
  rw [readDigits_append hcs hne] at h
  obtain ⟨⟨extra, behind⟩, hextra, heq⟩ := Option.map_eq_some_iff.mp h
  cases heq
  obtain ⟨rfl, rfl⟩ | hlt := readMoreDigits_eq_some hextra
  · exact .inl ⟨by simp, rfl⟩
  · exact .inr hlt

section

variable (hdigits : AllDigits (c :: more)) (hzero : c = '0' → more = [])

include hdigits hzero

theorem readWhole_eq_some (h : readWhole (c :: more ++ tail) = some (ds, rest)) :
    ds = c :: more ∧ rest = tail ∨ rest.length < tail.length := by
  unfold readWhole at h
  split at h
  · rename_i heq
    obtain ⟨rfl, rfl⟩ := List.cons.inj heq
    cases hzero rfl
    cases h
    exact .inl ⟨rfl, rfl⟩
  · exact readDigits_eq_some hdigits (List.cons_ne_nil c more) h

/-- The digits before a point end there. -/
theorem readWhole_point (tail : List Char) :
    readWhole (c :: more ++ '.' :: tail) = some (c :: more, '.' :: tail) := by
  have hstop : readMoreDigits Char.isDigit ('.' :: tail) = some ([], '.' :: tail) := by simp [readMoreDigits]
  unfold readWhole
  split
  · rename_i heq
    obtain ⟨rfl, rfl⟩ := List.cons.inj heq
    cases hzero rfl
    rfl
  · rw [readDigits_append hdigits (List.cons_ne_nil c more), hstop, Option.map_some, List.append_nil]

end

/-! ## Fractions -/

theorem readExponent_length {f : List Char → List Char}
    (h : (readExponent cs >>= fun r => some (f r.1, r.2)) = some (fraction, rest)) : rest.length ≤ cs.length := by
  obtain ⟨⟨e, left⟩, he, heq⟩ := Option.bind_eq_some_iff.mp h
  cases heq
  exact (leaves_readExponent (List.suffix_refl cs) _ _ he).2.length_le

/-- Digits stand behind a point, and either nothing more is read or a part of what stands behind them. -/
theorem readFraction_point (h : readFraction ('.' :: tail) = some (fraction, rest)) :
    ∃ ds behind, readDigits Char.isDigit tail = some (ds, behind) ∧
      (fraction = '.' :: ds ∧ rest = behind ∨ rest.length < behind.length) := by
  obtain ⟨⟨ds, behind⟩, hds, h⟩ := Option.bind_eq_some_iff.mp h
  refine ⟨ds, behind, hds, ?_⟩
  dsimp only at h
  split at h
  · exact .inr (Nat.lt_succ_of_le (readExponent_length (f := fun e => '.' :: ds ++ 'e' :: e) h))
  · exact .inr (Nat.lt_succ_of_le (readExponent_length (f := fun e => '.' :: ds ++ 'e' :: e) h))
  · cases h
    exact .inl ⟨rfl, rfl⟩

theorem readFraction_decimal (hcs : AllDigits cs) (hne : cs ≠ [])
    (h : readFraction ('.' :: (cs ++ tail)) = some (fraction, rest)) :
    fraction = '.' :: cs ∧ rest = tail ∨ rest.length < tail.length := by
  obtain ⟨ds, behind, hds, hfraction⟩ := readFraction_point h
  obtain ⟨rfl, rfl⟩ | hlt := readDigits_eq_some hcs hne hds
  · exact hfraction
  · refine .inr (Nat.lt_of_le_of_lt ?_ hlt)
    obtain ⟨_, rfl⟩ | hless := hfraction
    · exact le_rfl
    · exact hless.le

theorem readFraction_eq_some (h : readFraction tail = some (fraction, rest)) :
    fraction = [] ∧ rest = tail ∨ rest.length < tail.length := by
  unfold readFraction at h
  split at h
  · obtain ⟨ds, behind, hds, hfraction⟩ := readFraction_point h
    have hbehind := (leaves_readDigits Char.isDigit (List.suffix_refl _) _ _ hds).2.length_le
    refine .inr (Nat.lt_succ_of_le (Nat.le_trans ?_ hbehind))
    obtain ⟨_, rfl⟩ | hless := hfraction
    · exact le_rfl
    · exact hless.le
  · exact .inr (Nat.lt_succ_of_le (readExponent_length (f := fun e => 'e' :: e) h))
  · exact .inr (Nat.lt_succ_of_le (readExponent_length (f := fun e => 'e' :: e) h))
  · cases h
    exact .inl ⟨rfl, rfl⟩

/-! ## Numbers -/

/-- A sign, and a number behind it that begins with a digit. -/
theorem readDecimal_eq_some {negative : Bool} (hc : c.isDigit = true)
    (h : readDecimal (sign negative ++ c :: tail) = some (v, rest)) : ∃ whole behind fraction,
      readWhole (c :: tail) = some (whole, behind) ∧ readFraction behind = some (fraction, rest) ∧
      (fraction = [] → (integer? 10 (sign negative ++ whole)).bind word? = some v) ∧
      (fraction ≠ [] → ∃ x, decimal? (sign negative ++ whole ++ fraction) = some x ∧ v = .float x) := by
  unfold readDecimal at h
  rw [signed_sign negative hc] at h
  dsimp only at h
  split at h
  case h_1 heq | h_2 heq =>
    obtain ⟨rfl, _⟩ := List.cons.inj heq
    cases hc
  obtain ⟨⟨whole, behind⟩, hwhole, h⟩ := Option.bind_eq_some_iff.mp h
  obtain ⟨⟨fraction, left⟩, hfraction, h⟩ := Option.bind_eq_some_iff.mp h
  dsimp only at h hfraction
  split at h
  · rename_i hempty
    obtain ⟨n, hn, h⟩ := Option.bind_eq_some_iff.mp h
    obtain ⟨d, hd, h⟩ := Option.bind_eq_some_iff.mp h
    cases h
    refine ⟨whole, behind, fraction, hwhole, hfraction, fun _ => ?_, fun hne => absurd (List.isEmpty_iff.mp hempty) hne⟩
    rw [show integer? 10 (sign negative ++ whole) = some n from hn]
    exact hd
  · rename_i hempty
    obtain ⟨x, hx, h⟩ := Option.bind_eq_some_iff.mp h
    split at h
    · cases h
    · cases h
      exact ⟨whole, behind, fraction, hwhole, hfraction, fun hnil => absurd (List.isEmpty_iff.mpr hnil) hempty,
        fun _ => ⟨x, hx, rfl⟩⟩

/-- What is read behind the mark of a base is not read as the digits before it. -/
theorem readNumber_eq_some (hne : cs ≠ []) (hmarks : ∀ x ∈ cs, x ∉ ['x', 'o', 'b'])
    (h : readNumber (cs ++ tail) = some (v, tail)) : readDecimal (cs ++ tail) = some (v, tail) := by
  have hbased {mark : Char} {base : Nat} {behind : List Char} (heq : cs ++ tail = '0' :: mark :: behind)
      (hmark : mark ∈ ['x', 'o', 'b']) : readBased base behind ≠ some (v, tail) := by
    intro h
    have hle := (reading_readBased base (List.suffix_refl behind) _ _ h).2.length_le
    obtain ⟨c, more, rfl⟩ := List.exists_cons_of_ne_nil hne
    cases more with
    | nil =>
      obtain ⟨_, rfl⟩ := List.cons.inj heq
      simp at hle
    | cons x more =>
      obtain ⟨_, heq⟩ := List.cons.inj heq
      obtain ⟨rfl, _⟩ := List.cons.inj heq
      exact hmarks _ (by simp) hmark
  unfold readNumber at h
  split at h
  · exact absurd h (hbased ‹_› (by simp))
  · exact absurd h (hbased ‹_› (by simp))
  · exact absurd h (hbased ‹_› (by simp))
  · exact h

/-! ## Numerals in a text -/

theorem Written.exists_read (h : Written text cs v) : ∃ tail, readNumber (cs ++ tail) = some (v, tail) := by
  cases h with
  | intro _ hread => exact ⟨_, hread⟩

/-- A decimal in a text is read as a floating-point number that it is rounded to. -/
theorem Written.decimal {d : Decimal} (h : Written text d.text v) : ∃ x, v = .float x ∧ d.Rounds x := by
  obtain ⟨tail, hread⟩ := h.exists_read
  obtain ⟨c, more, hwhole, hdigits, hzero⟩ := d.exists_whole
  have htext : d.text ++ tail = sign d.negative ++ c :: (more ++ '.' :: (d.part ++ tail)) := by
    rw [Decimal.text, hwhole]
    simp
  replace hread := readNumber_eq_some (by simp [Decimal.text]) d.markless_text hread
  rw [htext] at hread
  obtain ⟨whole, behind, fraction, hbefore, hfraction, _, hfloat⟩ := readDecimal_eq_some (hdigits c List.mem_cons_self) hread
  cases (readWhole_point hdigits hzero _).symm.trans hbefore
  have hne : d.part ≠ [] := by simp [Decimal.part, padded_ne_nil]
  obtain ⟨rfl, _⟩ | hlt := readFraction_decimal d.allDigits_part hne hfraction
  · obtain ⟨x, hx, rfl⟩ := hfloat (by simp)
    rw [← hwhole, List.append_assoc] at hx
    cases (decimal?_text d).symm.trans hx
    exact ⟨_, rfl, d.rounds_ofDecimal⟩
  · exact absurd hlt (lt_irrefl _)

/-- An integer in a text is read as that integer. -/
theorem Written.int {n : Int} (h : Written text (toString n).toList v) : v = .int n := by
  obtain ⟨tail, hread⟩ := h.exists_read
  obtain ⟨c, more, hn, hdigits, hzero⟩ := exists_digits n.natAbs
  have htext : (toString n).toList = sign (decide (n < 0)) ++ c :: more := by rw [toList_toString, hn]
  replace hread := readNumber_eq_some (by rw [htext]; simp) (markless_toString n) hread
  rw [htext, List.append_assoc, List.cons_append] at hread
  obtain ⟨whole, behind, fraction, hbefore, hfraction, hinteger, _⟩ :=
    readDecimal_eq_some (hdigits c List.mem_cons_self) hread
  have hwhole := readWhole_eq_some hdigits hzero hbefore
  have hrest := readFraction_eq_some hfraction
  -- nothing was left out, so nothing more was read
  obtain ⟨rfl, rfl⟩ : whole = c :: more ∧ behind = tail := by
    refine hwhole.resolve_right fun hlt => ?_
    obtain ⟨_, rfl⟩ | hless := hrest
    · exact absurd hlt (lt_irrefl _)
    · omega
  obtain ⟨rfl, _⟩ := hrest.resolve_right (lt_irrefl _)
  have hword := hinteger rfl
  rw [← htext, integer?_toString, Option.bind_some] at hword
  unfold word? at hword
  split at hword
  · exact (Option.some.inj hword).symm
  · cases hword

end Chronicle.Toml

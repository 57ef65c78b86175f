import Chronicle.Proofs.Document.JsonBuilt
import Chronicle.Proofs.Number.Numeral

/-!
# Numerals in JSON

What the reader of numbers makes of a numeral that it takes off a text, whatever stands behind it: a number with a
point is read as a floating-point number that it is rounded to (`Json.Written.decimal`), and an integer of 64 bits as
itself (`Json.Written.int`).

The first takes two roundings, of the power of ten and of the quotient. **A decimal is short enough for its digits and
its power of ten to be exact**, so just the quotient is rounded (`Json.rounds_scaled`).
-/

namespace Chronicle.Json

open Binary64 Numeral Outcome

variable {cs more rest tail ds : List Char} {c : Char} {positive : Bool} {offset offset' : Nat} {v : Document}

/-- Two readers in a row answer when both do. -/
theorem run_bind_eq_ok {α β : Type} {m : Reader α} {f : α → Reader β} {cursor : Cursor} {r : β × Cursor} :
    (m >>= f).run cursor = .ok r ↔ ∃ a c', m.run cursor = .ok (a, c') ∧ (f a).run c' = .ok r := by
  rw [StateT.run_bind, bind_eq_ok, Prod.exists]

/-! ## Digits -/

theorem appendDigits_eq (h : AllDigits cs) {n : Nat} (hfits : Nat.ofDigitChars 10 cs n ≤ wordMax) :
    appendDigits n cs = (Nat.ofDigitChars 10 cs n, []) := by
  induction cs generalizing n with
  | nil => rfl
  | cons c more ih =>
    have hnext : n * 10 + digitValue c = 10 * n + (c.toNat - '0'.toNat) := by
      rw [Nat.mul_comm]
      rfl
    rw [Nat.ofDigitChars_cons, ← hnext] at hfits ⊢
    have hle : n * 10 + digitValue c ≤ Nat.ofDigitChars 10 more (n * 10 + digitValue c) := by
      rw [Nat.ofDigitChars_eq_ofDigitChars_zero]
      exact Nat.le_add_right_of_le (Nat.le_mul_of_pos_left _ (Nat.pow_pos (by decide)))
    simp only [appendDigits]
    rw [if_neg (by omega), ih (List.forall_mem_cons.mp h).2 hfits]

/-- Digits are read with the digits that stand behind them. -/
theorem digits_eq_ok {c' : Cursor} (hcs : AllDigits cs) (h : digits.run ⟨cs ++ tail, offset⟩ = .ok (ds, c')) :
    ∃ extra, AllDigits extra ∧ ds = cs ++ extra ∧ tail = extra ++ c'.rest := by
  have hall : cs.takeWhile Char.isDigit = cs := List.takeWhile_eq_self_iff.mpr hcs
  have htake : (cs ++ tail).takeWhile Char.isDigit = cs ++ tail.takeWhile Char.isDigit := by
    rw [List.takeWhile_append, hall, if_pos rfl]
  have hextra : tail.takeWhile Char.isDigit = tail.take (tail.takeWhile Char.isDigit).length :=
    List.prefix_iff_eq_take.mp (List.takeWhile_prefix _)
  cases h
  refine ⟨tail.takeWhile Char.isDigit, fun x hx => List.mem_takeWhile_imp hx, htake, ?_⟩
  show tail = tail.takeWhile Char.isDigit ++ (cs ++ tail).drop ((cs ++ tail).takeWhile Char.isDigit).length
  rw [htake, List.length_append, ← List.drop_drop, List.drop_left]
  conv_rhs => enter [1]; rw [hextra]
  exact (List.take_append_drop _ tail).symm

theorem wholeDigits_eq_ok {c' : Cursor} (hdigits : AllDigits (c :: more)) (hzero : c = '0' → more = [])
    (h : (wholeDigits c).run ⟨c :: more ++ tail, offset⟩ = .ok (ds, c')) :
    ∃ extra, AllDigits extra ∧ ds = c :: more ++ extra ∧ tail = extra ++ c'.rest := by
  unfold wholeDigits at h
  split at h
  · rename_i hc
    subst hc
    cases hzero rfl
    obtain ⟨_, _, hadvance, h⟩ := run_bind_eq_ok.mp h
    cases hadvance
    obtain ⟨_, _, hpeek, h⟩ := run_bind_eq_ok.mp h
    cases hpeek
    have hnothing : AllDigits [] := List.forall_mem_nil _
    split at h
    · split at h
      · cases h
      · cases h
        exact ⟨[], hnothing, rfl, rfl⟩
    · cases h
      exact ⟨[], hnothing, rfl, rfl⟩
  · exact digits_eq_ok hdigits h

/-! ## Parts of a number -/

theorem floating_eq_ok {significand : Nat} {exponent : Int} {cursor c' : Cursor}
    (h : (floating positive significand exponent).run cursor = .ok (v, c')) :
    c' = cursor ∧ ∃ x, scaleByTen 4 (.ofNat significand) exponent = some x ∧
      v = .float (if positive then x else x.negate) := by
  unfold floating at h
  split at h
  · cases h
    exact ⟨rfl, _, ‹_›, rfl⟩
  · cases h

/-- A reader that passes a character first does not leave all there was. -/
theorem advance_ne_ok {α : Type} {P : α → Prop} {m : Reader α} (hm : ∀ text, Reading text P m) {a : α} {mark : Char}
    {extra : List Char} {cursor : Cursor} (hmark : cursor.rest.head? = some mark) :
    (advance >>= fun _ => m).run cursor ≠ .ok (a, ⟨extra ++ cursor.rest, offset'⟩) := by
  intro h
  obtain ⟨rest, offset⟩ := cursor
  obtain ⟨tail, rfl⟩ : ∃ tail, rest = mark :: tail := List.head?_eq_some_iff.mp hmark
  obtain ⟨_, c'', hadvance, h⟩ := run_bind_eq_ok.mp h
  cases hadvance
  have hle := (hm tail _ (List.suffix_refl _) _ h).2.length_le
  simp only [List.length_append, List.length_cons] at hle
  omega

/-- Where no more is left than there was, nothing was read. -/
theorem eq_nil_of_rest {extra : List Char} {cursor : Cursor} (h : (⟨extra ++ cursor.rest, offset⟩ : Cursor) = cursor) :
    extra = [] := by
  have hlength := congrArg (fun c : Cursor => c.rest.length) h
  simp only [List.length_append] at hlength
  exact List.eq_nil_of_length_eq_zero (by omega)

/-- The digits behind the point, read to their end. -/
theorem fractionPart_eq_ok {significand : Nat} {start : Int} (hcs : AllDigits cs) (hne : cs ≠ [])
    (hfits : Nat.ofDigitChars 10 cs significand ≤ wordMax)
    (h : (fractionPart positive significand start).run ⟨cs ++ rest, offset⟩ = .ok (v, ⟨rest, offset'⟩)) :
    ∃ x, scaleByTen 4 (.ofNat (Nat.ofDigitChars 10 cs significand)) (start - cs.length) = some x ∧
      v = .float (if positive then x else x.negate) := by
  unfold fractionPart at h
  obtain ⟨ds, cursor, hdigits, h⟩ := run_bind_eq_ok.mp h
  obtain ⟨extra, _, rfl, rfl⟩ := digits_eq_ok hcs hdigits
  dsimp only at h
  rw [if_neg (by simp [hne])] at h
  obtain ⟨_, _, hpeek, h⟩ := run_bind_eq_ok.mp h
  cases hpeek
  -- an exponent would be read with the digits
  split at h
  · exact absurd h (advance_ne_ok (fun _ => reading_exponentPart _ _ _) ‹_›)
  · exact absurd h (advance_ne_ok (fun _ => reading_exponentPart _ _ _) ‹_›)
  · obtain ⟨hcursor, x, hx, rfl⟩ := floating_eq_ok h
    cases eq_nil_of_rest hcursor
    rw [List.append_nil, appendDigits_eq hcs hfits] at hx
    exact ⟨x, hx, rfl⟩

/-- A number with a point, read to its end. -/
theorem number_decimal_eq_ok {d : Decimal}
    (h : (number positive).run ⟨d.whole ++ '.' :: (d.part ++ rest), offset⟩ = .ok (v, ⟨rest, offset'⟩)) :
    ∃ x, scaleByTen 4 (.ofNat d.digits) (-d.places) = some x ∧ v = .float (if positive then x else x.negate) := by
  obtain ⟨c, more, hwhole, hdigits, hzero⟩ := d.exists_whole
  rw [hwhole, List.cons_append] at h
  unfold number at h
  obtain ⟨_, _, hpeek, h⟩ := run_bind_eq_ok.mp h
  cases hpeek
  dsimp only [List.head?_cons] at h
  rw [if_neg (by simp [hdigits c List.mem_cons_self])] at h
  obtain ⟨ds, cursor, hds, h⟩ := run_bind_eq_ok.mp h
  obtain ⟨extra, hextra, rfl, htail⟩ := wholeDigits_eq_ok hdigits hzero hds
  -- the point is no digit
  obtain rfl : extra = [] := by
    cases extra with
    | nil => rfl
    | cons x extra =>
      obtain ⟨rfl, _⟩ := List.cons.inj htail
      exact absurd (hextra _ List.mem_cons_self) (by decide)
  obtain ⟨behind, offset''⟩ := cursor
  cases htail
  have hfew : d.digits ≤ wordMax := le_trans d.few.le (by decide)
  have hfits : Nat.ofDigitChars 10 (c :: more) 0 ≤ wordMax := by
    rw [← hwhole, Decimal.whole, Nat.ofDigitChars_ten_toDigits]
    exact le_trans (Nat.div_le_self _ _) hfew
  have hpart : Nat.ofDigitChars 10 d.part (Nat.ofDigitChars 10 (c :: more) 0) = d.digits := hwhole ▸ d.ofDigitChars_part
  rw [List.append_nil, appendDigits_eq hdigits hfits] at h
  obtain ⟨_, _, hpeek, h⟩ := run_bind_eq_ok.mp h
  cases hpeek
  obtain ⟨_, _, hadvance, h⟩ := run_bind_eq_ok.mp h
  cases hadvance
  have hne : d.part ≠ [] := by simp [Decimal.part, Toml.padded_ne_nil]
  obtain ⟨x, hx, rfl⟩ := fractionPart_eq_ok d.allDigits_part hne (hpart ▸ hfew) h
  refine ⟨x, ?_, rfl⟩
  rwa [hpart, d.length_part, List.length_nil, Int.ofNat_zero, zero_sub] at hx

/-- A number without a point or an exponent, read to its end. -/
theorem number_integer_eq_ok {n : Nat} (hword : n ≤ wordMax)
    (h : (number positive).run ⟨Nat.toDigits 10 n ++ rest, offset⟩ = .ok (v, ⟨rest, offset'⟩)) :
    v = if positive then .int n
      else if n = 0 || twoTo 63 < n then .float (Binary64.ofNat n).negate else .int (-n) := by
  obtain ⟨c, more, hn, hdigits, hzero⟩ := exists_digits n
  rw [hn] at h
  unfold number at h
  obtain ⟨_, _, hpeek, h⟩ := run_bind_eq_ok.mp h
  cases hpeek
  dsimp only [List.cons_append, List.head?_cons] at h
  rw [if_neg (by simp [hdigits c List.mem_cons_self])] at h
  obtain ⟨ds, cursor, hds, h⟩ := run_bind_eq_ok.mp h
  obtain ⟨extra, _, rfl, rfl⟩ := wholeDigits_eq_ok hdigits hzero hds
  obtain ⟨_, _, hpeek, h⟩ := run_bind_eq_ok.mp h
  cases hpeek
  -- what follows the digits is not read
  split at h
  · exact absurd h (advance_ne_ok (fun _ => reading_fractionPart _ _ _) ‹_›)
  · exact absurd h (advance_ne_ok (fun _ => reading_exponentPart _ _ _) ‹_›)
  · exact absurd h (advance_ne_ok (fun _ => reading_exponentPart _ _ _) ‹_›)
  · have hsame : (⟨extra ++ cursor.rest, offset'⟩ : Cursor) = cursor := by
      split at h
      · split at h
        · exact (Prod.mk.inj (Except.ok.inj h)).2.symm
        · split at h
          · exact (Prod.mk.inj (Except.ok.inj h)).2.symm
          · exact (Prod.mk.inj (Except.ok.inj h)).2.symm
      · exact (floating_eq_ok h).1
    have hvalue : Nat.ofDigitChars 10 (c :: more) 0 = n := hn ▸ Nat.ofDigitChars_ten_toDigits
    cases eq_nil_of_rest hsame
    rw [List.append_nil, appendDigits_eq hdigits (hvalue ▸ hword), hvalue] at h
    dsimp only at h
    rw [if_pos List.isEmpty_nil] at h
    split at h
    · rw [if_pos ‹_›]
      exact (Prod.mk.inj (Except.ok.inj h)).1.symm
    · rw [if_neg ‹_›]
      split at h
      · rw [if_pos ‹_›]
        exact (Prod.mk.inj (Except.ok.inj h)).1.symm
      · rw [if_neg ‹_›]
        exact (Prod.mk.inj (Except.ok.inj h)).1.symm

/-! ## Scaling -/

theorem powerOfTen_eq {p : Nat} (hp : p ≤ 308) : powerOfTen p = .ofRatio false (tenTo p) 1 0 := by
  have hlength : (Nat.toDigits 10 1).length = 1 := rfl
  simp only [powerOfTen, Binary64.ofDecimal, hlength]
  rw [if_neg (by simp; omega), if_neg (by omega), Int.toNat_natCast, Int.toNat_neg_natCast, Nat.one_mul]
  rfl

theorem tenTo_pos (p : Nat) : 0 < tenTo p := Nat.pow_pos (by decide)

theorem cast_pow_ten (p : Nat) : (10 : ℚ) ^ p = tenTo p / (1 : Nat) * 2 ^ (0 : Int) := by
  rw [cast_tenTo]
  simp

theorem low_le_pow_ten (p : Nat) : (2 : ℚ) ^ (-1022 : Int) ≤ 10 ^ p :=
  (zpow_le_one_of_nonpos₀ one_le_two (by decide)).trans (one_le_pow₀ (by norm_num))

theorem pow_ten_lt {p : Nat} (hp : p < 308) : (10 : ℚ) ^ p < 2 ^ 1023 := by
  have hmost : 10 ^ 307 < 2 ^ 1023 := by decide +kernel
  calc (10 : ℚ) ^ p ≤ 10 ^ 307 := pow_le_pow_right₀ (by norm_num) (by omega)
    _ < 2 ^ 1023 := by exact_mod_cast hmost

/-- A power of ten that is divided by is finite, and is not zero. -/
theorem exists_powerOfTen {p : Nat} (hp : p ≤ 308) : ∃ m e, powerOfTen p = .finite false m e ∧ m ≠ 0 := by
  rcases Nat.lt_or_ge p 308 with hlt | hge
  · obtain ⟨m, e, heq, hm, _⟩ := @Binary64.ofRatio_spec false _ _ _ _ (tenTo_pos p) Nat.one_pos (cast_pow_ten p)
      (low_le_pow_ten p) (pow_ten_lt hlt)
    exact ⟨m, e, (powerOfTen_eq hp).trans heq, by omega⟩
  · obtain rfl := Nat.le_antisymm hp hge
    exact ⟨5010420900022432, 971, by decide +kernel, by decide⟩

/-- A small power of ten is rounded to itself. -/
theorem powerOfTen_exact {p : Nat} (hp : p < 19) :
    ∃ m e, powerOfTen p = .finite false m e ∧ 0 < m ∧ (m : ℚ) * 2 ^ e = 10 ^ p := by
  have hfew : 5 ^ p < 2 ^ 51 :=
    calc 5 ^ p ≤ 5 ^ 18 := Nat.pow_le_pow_right (by decide) (by omega)
      _ < 2 ^ 51 := by decide
  have hexact : (10 : ℚ) ^ p = (5 ^ p : Nat) * 2 ^ (p : Int) := by
    push_cast
    rw [zpow_natCast, ← mul_pow]
    norm_num
  obtain ⟨m, e, heq, hm, hvalue⟩ := @Binary64.ofRatio_exact false _ _ _ _ (tenTo_pos p) Nat.one_pos (cast_pow_ten p)
    (low_le_pow_ten p) (pow_ten_lt (by omega)) _ _ hfew hexact
  exact ⟨m, e, (powerOfTen_eq (by omega)).trans heq, hm, hvalue⟩

/-- So is a number of few digits. -/
theorem ofNat_exact {n : Nat} (hpos : 0 < n) (hn : n < 10 ^ 15) :
    ∃ m e, Binary64.ofNat n = .finite false m e ∧ 0 < m ∧ (m : ℚ) * 2 ^ e = n := by
  have hone : (1 : ℚ) ≤ n := by exact_mod_cast hpos
  have hlow : (2 : ℚ) ^ (-1022 : Int) ≤ n := (zpow_le_one_of_nonpos₀ one_le_two (by decide)).trans hone
  have hhigh : (n : ℚ) < 2 ^ 1023 :=
    calc (n : ℚ) < 10 ^ 15 := by exact_mod_cast hn
      _ < 2 ^ 1023 := pow_ten_lt (by decide)
  have hvalue : (n : ℚ) = n / (1 : Nat) * 2 ^ (0 : Int) := by simp
  exact @Binary64.ofRatio_exact false _ _ _ _ hpos Nat.one_pos hvalue hlow hhigh n 0 (lt_trans hn (by decide)) (by simp)

/-- **Scaling rounds just once**: the digits and the power of ten are exact, and their quotient is rounded. -/
theorem rounds_scaled {d : Decimal} {x : Binary64} (hd : d.negative = false)
    (h : scaleByTen 4 (.ofNat d.digits) (-d.places) = some x) : d.Rounds x := by
  have hpointed := d.pointed
  unfold scaleByTen at h
  rw [if_neg (by omega), Int.neg_neg, Int.toNat_natCast] at h
  rcases Nat.eq_zero_or_pos d.digits with hzero | hpos
  · have hx : x = .zero d.negative := by
      have hnat : Binary64.ofNat d.digits = .zero false := by
        rw [hzero]
        rfl
      rw [hnat] at h
      rw [hd]
      split at h
      · obtain ⟨m, e, hten, hm⟩ := exists_powerOfTen (p := d.places) (by omega)
        rw [hten] at h
        simp only [Binary64.zero, Binary64.dividedBy] at h
        rw [if_neg hm] at h
        exact (Option.some.inj h).symm
      · exact (Option.some.inj h).symm
    rw [hx]
    exact .zero hzero
  · have hplaces := d.places_lt hpos
    obtain ⟨m, e, hnat, hm, hmvalue⟩ := ofNat_exact hpos d.few
    obtain ⟨m', e', hten, hm', hm'value⟩ := powerOfTen_exact hplaces
    rw [if_pos (by omega), hnat, hten] at h
    simp only [Binary64.dividedBy] at h
    rw [if_neg hm'.ne'] at h
    have hvalue : d.value = m / m' * 2 ^ (e - e') := by
      rw [Decimal.value, ← hmvalue, ← hm'value, zpow_sub₀ two_ne_zero, mul_div_mul_comm]
    have hsign : x = .ofRatio d.negative m m' (e - e') := by
      rw [hd]
      exact (Option.some.inj h).symm
    rw [hsign]
    exact d.rounds_ofRatio hpos hm hm' hvalue

/-! ## Numerals in a text -/

variable {text : List Char}

theorem number_minus_ne_ok {r : Document × Cursor} : (number positive).run ⟨'-' :: tail, offset⟩ ≠ .ok r := by
  intro h
  cases h

/-- A sign that stands before digits is the sign of the numeral. -/
theorem Written.of_sign {negative : Bool} (hc : c.isDigit = true) (h : Written text (sign negative ++ c :: more) v) :
    ∃ rest offset offset', (number !negative).run ⟨c :: more ++ rest, offset⟩ = .ok (v, ⟨rest, offset'⟩) := by
  generalize hcs : sign negative ++ c :: more = cs at h
  cases h with
  | positive _ hread =>
    cases negative with
    | true =>
      subst hcs
      exact absurd hread number_minus_ne_ok
    | false =>
      subst hcs
      exact ⟨_, _, _, hread⟩
  | negative _ hread =>
    cases negative with
    | true =>
      cases hcs
      exact ⟨_, _, _, hread⟩
    | false =>
      obtain ⟨rfl, _⟩ := List.cons.inj hcs
      cases hc

/-- A decimal in a text is read as a floating-point number that it is rounded to. -/
theorem Written.decimal {d : Decimal} (h : Written text d.text v) : ∃ x, v = .float x ∧ d.Rounds x := by
  obtain ⟨c, more, hwhole, hdigits, _⟩ := d.exists_whole
  rw [Decimal.text, hwhole, List.cons_append] at h
  obtain ⟨rest, offset, offset', hread⟩ := h.of_sign (hdigits c List.mem_cons_self)
  rw [← List.cons_append, ← hwhole, List.append_assoc, List.cons_append] at hread
  obtain ⟨x, hx, rfl⟩ := number_decimal_eq_ok hread
  have hrounds : Decimal.Rounds { d with negative := false } x := rounds_scaled rfl hx
  refine ⟨_, rfl, ?_⟩
  obtain ⟨negative, digits, places, _, _, _⟩ := d
  cases negative with
  | true => exact hrounds.negate
  | false => exact hrounds

/-- An integer of 64 bits in a text is read as that integer. -/
theorem Written.int {n : Int} (h : Written text (toString n).toList v) (hlow : -(twoTo 63 : Int) ≤ n)
    (hhigh : n < twoTo 64) : v = .int n := by
  obtain ⟨c, more, hn, hdigits, _⟩ := exists_digits n.natAbs
  rw [toList_toString, hn] at h
  obtain ⟨rest, offset, offset', hread⟩ := h.of_sign (hdigits c List.mem_cons_self)
  have hword : wordMax = twoTo 64 - 1 := rfl
  have htwo : twoTo 64 = 18446744073709551616 := rfl
  have htwo' : twoTo 63 = 9223372036854775808 := rfl
  rw [← hn] at hread
  rw [number_integer_eq_ok (by omega) hread]
  by_cases hless : n < 0
  · have hmost : ¬ (n.natAbs = 0 || twoTo 63 < n.natAbs) = true := by
      simp
      omega
    simp only [hless, decide_true, Bool.not_true, Bool.false_eq_true, if_false]
    rw [if_neg hmost]
    congr 1
    omega
  · simp only [hless, decide_false, Bool.not_false, if_true]
    congr 1
    omega

end Chronicle.Json

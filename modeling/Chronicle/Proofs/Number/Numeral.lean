import Chronicle.Proofs.Number.Written
import Mathlib.Data.List.TakeWhile

/-!
# Reading decimals

What the readers of numerals make of a decimal: the number of its digits, and from this the floating-point number
that it is rounded to (`Numeral.decimal?_text`).
-/

namespace Chronicle

namespace Numeral

variable {cs : List Char} {n : Nat}

theorem digitValue_of_isDigit {c : Char} (h : c.isDigit = true) : digitValue c = some (c.toNat - '0'.toNat) := by
  have hbounds : ('0' ≤ c && c ≤ '9') = true := by
    simp only [Char.isDigit, Bool.and_eq_true, decide_eq_true_eq] at h ⊢
    exact h
  rw [digitValue, if_pos hbounds]

theorem extend_eq (h : AllDigits cs) (n : Nat) : extend 10 n cs = some (Nat.ofDigitChars 10 cs n) := by
  induction cs generalizing n with
  | nil => rfl
  | cons c rest ih =>
    obtain ⟨hc, hrest⟩ := List.forall_mem_cons.mp h
    have hless : c.toNat - '0'.toNat < 10 := by
      simp only [Char.isDigit, Bool.and_eq_true, decide_eq_true_eq] at hc
      have hle : c.toNat ≤ '9'.toNat := hc.2
      have hnine : '9'.toNat = '0'.toNat + 9 := rfl
      omega
    rw [extend, digitValue_of_isDigit hc, Option.bind_eq_bind, Option.bind_some, if_pos hless, ih hrest,
      Nat.ofDigitChars_cons, Nat.mul_comm]

theorem natural?_eq (h : AllDigits cs) (hne : cs ≠ []) : natural? 10 cs = some (Nat.ofDigitChars 10 cs 0) := by
  rw [natural?, if_neg (by simp [hne]), extend_eq h]

/-- A row of digits has nothing but digits in it. -/
theorem exists_digitValue {base n m : Nat} (h : extend base n cs = some m) : ∀ c ∈ cs, ∃ d, digitValue c = some d := by
  induction cs generalizing n with
  | nil => exact List.forall_mem_nil _
  | cons c rest ih =>
    obtain ⟨d, hd, h⟩ := Option.bind_eq_some_iff.mp h
    split at h
    · exact List.forall_mem_cons.mpr ⟨⟨d, hd⟩, ih h⟩
    · cases h

theorem exists_digitValue_of_natural {base m : Nat} (h : natural? base cs = some m) :
    ∀ c ∈ cs, ∃ d, digitValue c = some d := by
  unfold natural? at h
  split at h
  · cases h
  · exact exists_digitValue h

theorem natural?_toDigits (n : Nat) : natural? 10 (Nat.toDigits 10 n) = some n := by
  rw [natural?_eq (allDigits_toDigits n) Nat.toDigits_ne_nil, Nat.ofDigitChars_ten_toDigits]

/-- A number begins with a zero only if that is its one digit. By strong induction, the last digit first. -/
theorem eq_nil_of_zero {more : List Char} (h : Nat.toDigits 10 n = '0' :: more) : more = [] := by
  induction n using Nat.strong_induction_on generalizing more with
  | h n ih =>
    rcases Nat.lt_or_ge n 10 with hlt | hge
    · rw [Nat.toDigits_of_lt_base hlt] at h
      exact (List.cons.inj h).2.symm
    · obtain ⟨c, front, hfront⟩ := List.exists_cons_of_ne_nil (Nat.toDigits_ne_nil (n := n / 10) (b := 10))
      rw [Nat.toDigits_of_base_le (by decide) hge, hfront, List.cons_append] at h
      obtain ⟨rfl, _⟩ := List.cons.inj h
      have hvalue := Nat.ofDigitChars_ten_toDigits (n := n / 10)
      rw [hfront, ih (n / 10) (by omega) hfront] at hvalue
      have hzero : n / 10 = 0 := hvalue.symm
      omega

/-- A number is written with at least one digit, and begins with a zero only if that is the only one. -/
theorem exists_digits (n : Nat) :
    ∃ c more, Nat.toDigits 10 n = c :: more ∧ AllDigits (c :: more) ∧ (c = '0' → more = []) := by
  obtain ⟨c, more, hn⟩ := List.exists_cons_of_ne_nil (Nat.toDigits_ne_nil (n := n) (b := 10))
  refine ⟨c, more, hn, hn ▸ allDigits_toDigits n, ?_⟩
  rintro rfl
  exact eq_nil_of_zero hn

/-- An integer as it is written. -/
theorem toList_toString (n : Int) : (toString n).toList = sign (decide (n < 0)) ++ Nat.toDigits 10 n.natAbs := by
  cases n with
  | ofNat n =>
    have hsign : decide (Int.ofNat n < 0) = false := by simp
    rw [hsign]
    simp [sign, toString, Int.repr]
  | negSucc n => simp [sign, toString, Int.repr]

/-- The marks of bases are no digits. -/
theorem not_mark {x : Char} (h : x.isDigit = true) : x ∉ ['x', 'o', 'b'] := by
  intro hmark
  simp only [List.mem_cons, List.not_mem_nil, or_false] at hmark
  obtain rfl | rfl | rfl := hmark <;> cases h

theorem eq_of_mem_sign {negative : Bool} {x : Char} (h : x ∈ sign negative) : x = '-' := by
  cases negative with
  | true => exact List.mem_singleton.mp h
  | false => cases h

/-- What an integer is written with. -/
theorem mem_toString {n : Int} {x : Char} (h : x ∈ (toString n).toList) : x = '-' ∨ x.isDigit = true := by
  rw [toList_toString] at h
  exact (List.mem_append.mp h).imp eq_of_mem_sign (allDigits_toDigits _ x)

theorem markless_toString (n : Int) : ∀ x ∈ (toString n).toList, x ∉ ['x', 'o', 'b'] := by
  intro x hx
  obtain rfl | hdigit := mem_toString hx
  · decide
  · exact not_mark hdigit

/-- A digit is no sign. -/
theorem signed_of_isDigit {c : Char} (h : c.isDigit = true) (rest : List Char) : signed (c :: rest) = (false, c :: rest) := by
  unfold signed
  split
  · cases ‹_ :: _ = _ :: _›
    exact absurd h (by decide)
  · cases ‹_ :: _ = _ :: _›
    exact absurd h (by decide)
  · rfl

/-- The sign of a numeral is told from its digits. -/
theorem signed_sign (negative : Bool) {c : Char} (h : c.isDigit = true) (rest : List Char) :
    signed (sign negative ++ c :: rest) = (negative, c :: rest) := by
  cases negative with
  | true => rfl
  | false => exact signed_of_isDigit h rest

/-- An integer as it is written begins with its sign and a digit. -/
theorem signed_toString (n : Int) : signed (toString n).toList = (decide (n < 0), Nat.toDigits 10 n.natAbs) := by
  obtain ⟨c, more, hn, hdigits, _⟩ := exists_digits n.natAbs
  rw [toList_toString, hn]
  exact signed_sign _ (hdigits c List.mem_cons_self) more

theorem integer?_toString (n : Int) : integer? 10 (toString n).toList = some n := by
  unfold integer?
  rw [signed_toString]
  dsimp only
  rw [natural?_toDigits]
  by_cases hn : n < 0
  · have habs : -(n.natAbs : Int) = n := by omega
    simp only [hn, decide_true]
    exact congrArg some habs
  · have habs : (n.natAbs : Int) = n := by omega
    simp only [hn, decide_false]
    exact congrArg some habs

/-- Digits in front of something else. -/
theorem takeWhile_digits (h : AllDigits cs) (rest : List Char) (hrest : rest.takeWhile Char.isDigit = []) :
    (cs ++ rest).takeWhile Char.isDigit = cs ∧ (cs ++ rest).dropWhile Char.isDigit = rest := by
  have hall : cs.takeWhile Char.isDigit = cs := List.takeWhile_eq_self_iff.mpr h
  have hnone : cs.dropWhile Char.isDigit = [] := List.dropWhile_eq_nil_iff.mpr h
  have hdrop : rest.dropWhile Char.isDigit = rest := by
    have happend := List.takeWhile_append_dropWhile (p := Char.isDigit) (l := rest)
    rwa [hrest, List.nil_append] at happend
  rw [List.takeWhile_append, List.dropWhile_append, hall, hnone]
  simp [hrest, hdrop]

namespace Decimal

theorem allDigits_whole (d : Decimal) : AllDigits d.whole := allDigits_toDigits _

theorem allDigits_part (d : Decimal) : AllDigits d.part := Toml.allDigits_padded _ _

/-- A decimal begins with a digit, its sign apart. -/
theorem exists_whole (d : Decimal) :
    ∃ c more, d.whole = c :: more ∧ AllDigits (c :: more) ∧ (c = '0' → more = []) := exists_digits _

theorem signed_text (d : Decimal) : signed d.text = (d.negative, d.whole ++ '.' :: d.part) := by
  obtain ⟨c, more, hwhole, hdigits, _⟩ := d.exists_whole
  rw [text, hwhole, List.cons_append, signed_sign d.negative (hdigits c List.mem_cons_self)]

/-- What a decimal is written with. -/
theorem mem_text {d : Decimal} {x : Char} (h : x ∈ d.text) : x = '-' ∨ x = '.' ∨ x.isDigit = true := by
  obtain hsign | hmore := List.mem_append.mp h
  · exact .inl (eq_of_mem_sign hsign)
  · obtain hwhole | hpart := List.mem_append.mp hmore
    · exact .inr (.inr (d.allDigits_whole x hwhole))
    · exact .inr ((List.mem_cons.mp hpart).imp_right (d.allDigits_part x))

theorem markless_text (d : Decimal) : ∀ x ∈ d.text, x ∉ ['x', 'o', 'b'] := by
  intro x hx
  obtain rfl | rfl | hdigit := mem_text hx
  · decide
  · decide
  · exact not_mark hdigit

end Decimal

theorem decimal?_text (d : Decimal) : decimal? d.text = some (.ofDecimal d.negative d.digits (-d.places)) := by
  obtain ⟨hwhole, hafter⟩ := takeWhile_digits d.allDigits_whole ('.' :: d.part) rfl
  obtain ⟨hpart, hbehind⟩ := takeWhile_digits d.allDigits_part [] rfl
  rw [List.append_nil] at hpart hbehind
  have hdigits : natural? 10 (d.whole ++ d.part) = some d.digits := by
    have hall : AllDigits (d.whole ++ d.part) := List.forall_mem_append.mpr ⟨d.allDigits_whole, d.allDigits_part⟩
    have hne : d.whole ++ d.part ≠ [] := by simp [Decimal.part, Toml.padded_ne_nil]
    rw [natural?_eq hall hne, Nat.ofDigitChars_append, d.ofDigitChars_part]
  simp only [decimal?, d.signed_text, hwhole, hafter, hpart, hbehind, hdigits, power?, d.length_part, zero_sub]

/-- A decimal is told by what it is written with. -/
theorem Decimal.eq_of_text {d d' : Decimal} (h : d.text = d'.text) :
    d.negative = d'.negative ∧ d.digits = d'.digits ∧ d.places = d'.places := by
  have hsigned := congrArg signed h
  rw [d.signed_text, d'.signed_text, Prod.mk.injEq] at hsigned
  obtain ⟨hwhole, hafter⟩ := takeWhile_digits d.allDigits_whole ('.' :: d.part) rfl
  obtain ⟨hwhole', hafter'⟩ := takeWhile_digits d'.allDigits_whole ('.' :: d'.part) rfl
  have hwholes : d.whole = d'.whole := by rw [← hwhole, hsigned.2, hwhole']
  have hparts : d.part = d'.part := by
    have hpoints : '.' :: d.part = '.' :: d'.part := by rw [← hafter, hsigned.2, hafter']
    exact (List.cons.inj hpoints).2
  refine ⟨hsigned.1, ?_, ?_⟩
  · rw [← d.ofDigitChars_part, hwholes, hparts, d'.ofDigitChars_part]
  · rw [← d.length_part, hparts, d'.length_part]

/-- Numerals that are written as the number is: integers of 64 bits without zeros before them, and decimals in their
shortest form. -/
inductive Kept : List Char → Prop
  | int {n : Int} (hlow : -(twoTo 63 : Int) ≤ n) (hhigh : n < twoTo 64) : Kept (toString n).toList
  | decimal {d : Decimal} (h : d.Shortest) : Kept d.text

end Numeral

end Chronicle

import Chronicle.Document.Toml.Number
import Chronicle.Proofs.Number.Shortest
import Mathlib.Data.Nat.Factorization.Basic

/-!
# Decimals as they are written

A `Numeral.Decimal` is a number as it is written with a point, of at most 15 digits and not below `10 ^ -4`. It is
in its shortest form (`Numeral.Decimal.Shortest`) if no zero could be left out at its end. **A floating-point
number that a decimal is rounded to is written as the decimal in its shortest form**
(`Numeral.Decimal.Rounds.write_eq`): two such decimals are written alike only if they are the same number.
-/

namespace Chronicle

open Binary64 Number

/-! ## Rows of digits -/

/-- A row of digits. -/
def AllDigits (cs : List Char) : Prop := ∀ c ∈ cs, c.isDigit = true

theorem allDigits_toDigits (n : Nat) : AllDigits (Nat.toDigits 10 n) := fun _ h =>
  Nat.isDigit_of_mem_toDigits (by decide) (by decide) h

theorem toDigits_mul_pow {n : Nat} (hn : 0 < n) (t : Nat) :
    Nat.toDigits 10 (n * 10 ^ t) = Nat.toDigits 10 n ++ List.replicate t '0' := by
  induction t with
  | zero => simp
  | succ t ih =>
    have hpos : 0 < n * 10 ^ t := Nat.mul_pos hn (Nat.pow_pos (by decide))
    have happend := Nat.toDigits_append_toDigits (d := 0) (by decide : 1 < 10) hpos (by decide)
    rw [Nat.add_zero, ih, Nat.toDigits_zero] at happend
    rw [Nat.pow_succ, ← Nat.mul_assoc, Nat.mul_comm _ 10, ← happend, List.append_assoc, List.replicate_succ']

namespace Toml

theorem allDigits_padded (width n : Nat) : AllDigits (padded width n) := by
  intro c hc
  obtain hzero | hdigit := List.mem_append.mp hc
  · rw [List.eq_of_mem_replicate hzero]
    decide
  · exact allDigits_toDigits n c hdigit

theorem padded_ne_nil (width n : Nat) : padded width n ≠ [] := by
  simp [padded, Nat.toDigits_ne_nil]

theorem length_padded {width n : Nat} (hwidth : 0 < width) (hn : n < 10 ^ width) : (padded width n).length = width := by
  have hle := (Nat.length_toDigits_le_iff (by decide) hwidth).mpr hn
  rw [padded, List.length_append, List.length_replicate]
  omega

theorem padded_succ {width n d : Nat} (hwidth : 0 < width) (hd : d < 10) :
    padded (width + 1) (10 * n + d) = padded width n ++ [d.digitChar] := by
  have hone : Nat.toDigits 10 d = [d.digitChar] := Nat.toDigits_of_lt_base hd
  unfold padded
  rcases Nat.eq_zero_or_pos n with rfl | hn
  · obtain ⟨width, rfl⟩ := Nat.exists_eq_add_one.mpr hwidth
    simp [hone, List.replicate_succ']
  · rw [← Nat.toDigits_append_toDigits (by decide) hn hd, hone]
    simp [List.append_assoc]

end Toml

open Toml (padded padded_succ length_padded padded_ne_nil allDigits_padded)

/-- The digits before a place and those behind it. By induction on the place, the last digit first. -/
theorem toDigits_split {places n : Nat} (hplaces : 0 < places) (hn : 10 ^ places ≤ n) :
    Nat.toDigits 10 n = Nat.toDigits 10 (n / 10 ^ places) ++ padded places (n % 10 ^ places) := by
  obtain ⟨places, rfl⟩ := Nat.exists_eq_add_one.mpr hplaces
  clear hplaces
  have hlast : Nat.toDigits 10 (n % 10) = [(n % 10).digitChar] := Nat.toDigits_of_lt_base (Nat.mod_lt n (by decide))
  induction places generalizing n with
  | zero =>
    rw [Nat.zero_add, Nat.pow_one] at hn ⊢
    rw [Nat.toDigits_of_base_le (by decide) hn, padded, hlast]
    rfl
  | succ places ih =>
    have hquotient : 10 ^ (places + 1) ≤ n / 10 := by
      rw [Nat.le_div_iff_mul_le (by decide), ← Nat.pow_succ]
      exact hn
    have hbase : 10 ≤ n := le_trans (Nat.le_self_pow (by omega) 10) hn
    have hmod : n % 10 ^ (places + 1 + 1) = 10 * (n / 10 % 10 ^ (places + 1)) + n % 10 := by
      rw [Nat.pow_succ' (n := places + 1), Nat.mod_mul, Nat.add_comm]
    have hbefore := ih hquotient (Nat.toDigits_of_lt_base (Nat.mod_lt _ (by decide)))
    rw [Nat.toDigits_of_base_le (by decide) hbase, hbefore, Nat.div_div_eq_div_mul, ← Nat.pow_succ', hmod,
      padded_succ (Nat.succ_pos places) (Nat.mod_lt n (by decide)), List.append_assoc]

theorem ofDigitChars_padded {places n : Nat} (hplaces : 0 < places) (hn : n < 10 ^ places) (before : Nat) :
    Nat.ofDigitChars 10 (padded places n) before = before * 10 ^ places + n := by
  have hzero : Nat.ofDigitChars 10 (padded places n) 0 = n := by
    rw [padded, Nat.ofDigitChars_append, Nat.ofDigitChars_replicate_zero, Nat.mul_zero, Nat.ofDigitChars_ten_toDigits]
  rw [Nat.ofDigitChars_eq_ofDigitChars_zero, hzero, length_padded hplaces hn, Nat.mul_comm]

/-! ## Decimals -/

namespace Numeral

/-- A sign as it is written. -/
def sign (negative : Bool) : List Char := if negative then ['-'] else []

/-- A number that is written with a point, of at most 15 digits; at most three zeros stand between the point and
the first other digit. -/
structure Decimal where
  negative : Bool
  /-- The number without its point. -/
  digits : Nat
  /-- How many digits stand behind the point. -/
  places : Nat
  pointed : 0 < places
  few : digits < 10 ^ 15
  near : digits = 0 ∨ 10 ^ places ≤ 10 ^ 4 * digits

namespace Decimal

/-- The digits before the point. -/
def whole (d : Decimal) : List Char := Nat.toDigits 10 (d.digits / 10 ^ d.places)

/-- The digits behind the point. -/
def part (d : Decimal) : List Char := padded d.places (d.digits % 10 ^ d.places)

/-- A decimal as it is written. -/
def text (d : Decimal) : List Char := sign d.negative ++ (d.whole ++ '.' :: d.part)

/-- The number itself, without its sign. -/
def value (d : Decimal) : ℚ := d.digits / 10 ^ d.places

/-- No zero can be left out at the end; one digit stays behind the point. -/
def Shortest (d : Decimal) : Prop := d.places = 1 ∨ d.digits % 10 ≠ 0

variable {d d' : Decimal}

theorem length_part (d : Decimal) : d.part.length = d.places :=
  length_padded d.pointed (Nat.mod_lt _ (Nat.pow_pos (by decide)))

/-- Read without its point, a decimal is the number of its digits. -/
theorem ofDigitChars_part (d : Decimal) : Nat.ofDigitChars 10 d.part (Nat.ofDigitChars 10 d.whole 0) = d.digits := by
  rw [part, ofDigitChars_padded d.pointed (Nat.mod_lt _ (Nat.pow_pos (by decide))), whole, Nat.ofDigitChars_ten_toDigits,
    Nat.mul_comm, Nat.div_add_mod]

theorem places_lt (d : Decimal) (hpos : 0 < d.digits) : d.places < 19 := by
  have hlt : 10 ^ d.places < 10 ^ 19 := by
    have hnear := d.near.resolve_left hpos.ne'
    have hfew := d.few
    omega
  exact (Nat.pow_lt_pow_iff_right (by decide)).mp hlt

theorem value_eq_zero (h : d.digits = 0) : d.value = 0 := by
  rw [value, h, Nat.cast_zero, zero_div]

/-- Every decimal has a shortest form. By induction on the digits behind the point, of which the last one is left
out if it is a zero. -/
theorem exists_shortest (d : Decimal) : ∃ d' : Decimal, d'.Shortest ∧ d'.negative = d.negative ∧ d'.value = d.value := by
  obtain ⟨negative, digits, places, pointed, few, near⟩ := d
  induction places, Nat.succ_le_of_lt pointed using Nat.le_induction generalizing digits with
  | base => exact ⟨⟨negative, digits, 1, pointed, few, near⟩, .inl rfl, rfl, rfl⟩
  | succ places hplaces ih =>
    by_cases hlast : digits % 10 = 0
    · obtain ⟨n, rfl⟩ := Nat.dvd_of_mod_eq_zero hlast
      have hnear : n = 0 ∨ 10 ^ places ≤ 10 ^ 4 * n := by
        rw [Nat.pow_succ] at near
        omega
      obtain ⟨d', hshortest, hsign, hvalue⟩ := ih n hplaces (by omega) hnear
      refine ⟨d', hshortest, hsign, hvalue.trans ?_⟩
      have hten : (10 : ℚ) ≠ 0 := by norm_num
      simp only [value]
      rw [pow_succ', Nat.cast_mul, Nat.cast_ofNat, mul_div_mul_left _ _ hten]
    · exact ⟨⟨negative, digits, places + 1, pointed, few, near⟩, .inr hlast, rfl, rfl⟩

/-! ## Rounding and writing -/

/-- A floating-point number is a decimal, rounded. -/
inductive Rounds (d : Decimal) : Binary64 → Prop
  | zero (hzero : d.digits = 0) : Rounds d (.zero d.negative)
  | finite {m : Nat} {e : Int} (hpos : 0 < d.digits) (hmlow : 2 ^ 52 ≤ m) (hmhigh : m < 2 ^ 53)
      (helow : minExponent ≤ e) (hehigh : e ≤ 971) (hholds : (Interval.around m e).Holds d.value) :
      Rounds d (.finite d.negative m e)

theorem value_pos (hpos : 0 < d.digits) : 0 < d.value := div_pos (Nat.cast_pos.mpr hpos) (by positivity)

theorem value_bounds (hpos : 0 < d.digits) : 2 ^ (-1022 : Int) ≤ d.value ∧ d.value < 2 ^ 1023 := by
  have hplaces : (0 : ℚ) < 10 ^ d.places := by positivity
  have hnear : ((10 ^ d.places : Nat) : ℚ) ≤ (10 ^ 4 * d.digits : Nat) := by exact_mod_cast d.near.resolve_left hpos.ne'
  have hfew : (d.digits : ℚ) < 10 ^ 15 := by exact_mod_cast d.few
  have hone : (1 : ℚ) ≤ 10 ^ d.places := one_le_pow₀ (by norm_num)
  push_cast at hnear
  constructor
  · have hsmall : (2 : ℚ) ^ (-14 : Int) ≤ 1 / 10 ^ 4 := by norm_num
    refine (zpow_le_zpow_right₀ one_le_two (by decide)).trans (hsmall.trans ?_)
    rw [value, div_le_div_iff₀ (by norm_num) hplaces]
    linarith
  · rw [value, div_lt_iff₀ hplaces]
    calc (d.digits : ℚ) < 10 ^ 15 := hfew
      _ ≤ 2 ^ 50 := by norm_num
      _ ≤ 2 ^ 1023 := pow_le_pow_right₀ one_le_two (by decide)
      _ ≤ 2 ^ 1023 * 10 ^ d.places := le_mul_of_one_le_right (by positivity) hone

/-- A quotient of the value of a decimal is rounded to it. -/
theorem rounds_ofRatio {num den : Nat} {shift : Int} (hpos : 0 < d.digits) (hnum : 0 < num) (hden : 0 < den)
    (hvalue : d.value = num / den * 2 ^ shift) : d.Rounds (ofRatio d.negative num den shift) := by
  obtain ⟨hlow, hhigh⟩ := value_bounds hpos
  obtain ⟨m, e, heq, hmlow, hmhigh, helow, hehigh, hholds⟩ := ofRatio_spec hnum hden hvalue hlow hhigh
  rw [heq]
  exact .finite hpos hmlow hmhigh helow hehigh hholds

theorem rounds_ofDecimal (d : Decimal) : d.Rounds (ofDecimal d.negative d.digits (-d.places)) := by
  unfold ofDecimal
  rcases Nat.eq_zero_or_pos d.digits with hzero | hpos
  · rw [hzero]
    exact .zero hzero
  · have hlength : (Nat.toDigits 10 d.digits).length ≤ 15 := (Nat.length_toDigits_le_iff (by decide) (by decide)).mpr d.few
    have hplaces := places_lt d hpos
    dsimp only
    rw [if_neg (by simp [hpos.ne']; omega), if_neg (by omega), Int.neg_neg, Int.toNat_natCast, Int.toNat_neg_natCast]
    refine rounds_ofRatio hpos (Nat.mul_pos hpos (Nat.pow_pos (by decide))) (Nat.pow_pos (by decide)) ?_
    rw [value, cast_tenTo]
    simp [tenTo]

theorem Rounds.negate {x : Binary64} (h : d.Rounds x) :
    Rounds { d with negative := !d.negative } x.negate := by
  cases h with
  | zero hzero => exact .zero hzero
  | finite hpos hmlow hmhigh helow hehigh hholds => exact .finite hpos hmlow hmhigh helow hehigh hholds

theorem Rounds.isFinite {x : Binary64} (h : d.Rounds x) : x.isFinite = true := by cases h <;> rfl

theorem layout_zero (negative : Bool) :
    Layout.plain.write (.zero negative) = String.ofList (sign negative ++ ['0', '.', '0']) := by
  cases negative <;> rfl

/-- The digits of a number with the point among, before or after them. -/
theorem write_positional {negative : Bool} {m : Nat} {e : Int} {s : Digits} (hm : m ≠ 0) (hs : shortest m e = s)
    (hlow : -3 ≤ s.point) (hhigh : s.point ≤ 16) :
    Layout.plain.write (.finite negative m e) = String.ofList (sign negative ++ positional s) := by
  have hplace : Layout.plain.leastPoint ≤ s.point ∧ s.point ≤ Layout.plain.greatestPoint := ⟨hlow, hhigh⟩
  simp only [Layout.write]
  rw [if_neg hm, hs, if_pos hplace, String.ofList_append]
  cases negative <;> rfl

theorem positional_whole {n : Nat} (hn : 0 < n) (t : Nat) :
    positional ⟨n, (Nat.toDigits 10 n).length + t⟩ = Nat.toDigits 10 (n * 10 ^ t) ++ ['.', '0'] := by
  have hlength : 0 < (Nat.toDigits 10 n).length := Nat.length_toDigits_pos
  have hwhole : (((Nat.toDigits 10 n).length : Int) + t).toNat = (Nat.toDigits 10 n).length + t := by omega
  simp only [positional, digitText, hwhole]
  split
  · omega
  · rw [if_pos (Nat.le_add_right _ t), Nat.add_sub_cancel_left, toDigits_mul_pow hn]

theorem positional_part {n places : Nat} (hplaces : 0 < places) :
    positional ⟨n, (Nat.toDigits 10 n).length - places⟩ =
      Nat.toDigits 10 (n / 10 ^ places) ++ '.' :: padded places (n % 10 ^ places) := by
  have hlength := Nat.length_toDigits_le_iff (n := n) (by decide : 1 < 10) hplaces
  simp only [positional]
  split
  · -- nothing but zeros stands before the digits
    have hless : n < 10 ^ places := hlength.mp (by omega)
    have hzeros : (-((Nat.toDigits 10 n).length - places : Int)).toNat = places - (Nat.toDigits 10 n).length := by omega
    rw [Nat.div_eq_of_lt hless, Nat.mod_eq_of_lt hless, Nat.toDigits_zero, hzeros]
    rfl
  · have hmore : 10 ^ places ≤ n := by
      rw [← Nat.not_lt, ← hlength]
      omega
    have hwhole : ((Nat.toDigits 10 n).length - places : Int).toNat = (Nat.toDigits 10 n).length - places := by omega
    have hpart := length_padded hplaces (Nat.mod_lt n (Nat.pow_pos (by decide)))
    have hbefore : (Nat.toDigits 10 n).length - places = (Nat.toDigits 10 (n / 10 ^ places)).length := by
      rw [toDigits_split hplaces hmore, List.length_append, hpart, Nat.add_sub_cancel]
    rw [hwhole, if_neg (by rw [digitText]; omega), hbefore, digitText, toDigits_split hplaces hmore, List.take_left,
      List.drop_left]

theorem length_digits_le (d : Decimal) : (Nat.toDigits 10 d.digits).length ≤ 15 :=
  (Nat.length_toDigits_le_iff (by decide) (by decide)).mpr d.few

/-- At most three zeros stand between the point and the digits. -/
theorem places_lt_length (d : Decimal) (hpos : 0 < d.digits) : d.places < (Nat.toDigits 10 d.digits).length + 4 := by
  have hlt : d.digits < 10 ^ (Nat.toDigits 10 d.digits).length :=
    (Nat.length_toDigits_le_iff (by decide) Nat.length_toDigits_pos).mp le_rfl
  have hnear := d.near.resolve_left hpos.ne'
  have hpow : 10 ^ d.places < 10 ^ ((Nat.toDigits 10 d.digits).length + 4) := by
    rw [Nat.pow_add]
    omega
  exact (Nat.pow_lt_pow_iff_right (by decide)).mp hpow

section

variable {m : Nat} {e : Int} (hpos : 0 < d.digits) (hmlow : 2 ^ 52 ≤ m) (hmhigh : m < 2 ^ 53) (helow : minExponent ≤ e)
  (hehigh : e ≤ 971) (hholds : (Interval.around m e).Holds d.value)

include hpos hmlow hmhigh helow hehigh hholds

/-- A decimal that does not end in a zero has the digits that are found. -/
theorem write_part (hlast : d.digits % 10 ≠ 0) :
    Layout.plain.write (.finite d.negative m e) = String.ofList d.text := by
  have hvalue : d.value = d.digits * 10 ^ (-(d.places : Int)) := by
    rw [value, zpow_neg, zpow_natCast, div_eq_mul_inv]
  rw [hvalue] at hholds
  have hshort := shortest_eq hmlow hmhigh helow hehigh hlast d.few hholds
  have hlength := d.length_digits_le
  have hplaces := d.places_lt_length hpos
  rw [write_positional (by omega) hshort (by dsimp only; omega) (by dsimp only; omega), ← Int.sub_eq_add_neg,
    positional_part d.pointed]
  rfl

/-- Of a whole number the digits without the zeros at its end are found, and the zeros are put behind them. -/
theorem write_whole (hplaces : d.places = 1) (hlast : d.digits % 10 = 0) :
    Layout.plain.write (.finite d.negative m e) = String.ofList d.text := by
  obtain ⟨t, n, hn, hdigits⟩ := Nat.exists_eq_pow_mul_and_not_dvd hpos.ne' 10 (by decide)
  have hmod : n % 10 ≠ 0 := fun h => hn (Nat.dvd_of_mod_eq_zero h)
  have hnpos : 0 < n := Nat.pos_of_ne_zero fun h => hn (h ▸ Nat.dvd_zero 10)
  obtain ⟨t, rfl⟩ : ∃ u, t = u + 1 := by
    refine Nat.exists_eq_succ_of_ne_zero fun ht => hmod ?_
    rwa [hdigits, ht, Nat.pow_zero, Nat.one_mul] at hlast
  have htenth : d.digits / 10 ^ 1 = n * 10 ^ t := by
    rw [hdigits, Nat.pow_one, Nat.pow_succ', Nat.mul_assoc, Nat.mul_div_cancel_left _ (by decide), Nat.mul_comm]
  have hvalue : d.value = n * 10 ^ (t : Int) := by
    rw [value, hplaces, hdigits, zpow_natCast]
    push_cast
    ring
  rw [hvalue] at hholds
  have hfew : n < 10 ^ 15 := lt_of_le_of_lt (hdigits ▸ Nat.le_mul_of_pos_left n (Nat.pow_pos (by decide))) d.few
  have hshort := shortest_eq hmlow hmhigh helow hehigh hmod hfew hholds
  have hlength := d.length_digits_le
  rw [hdigits, Nat.mul_comm, toDigits_mul_pow hnpos, List.length_append, List.length_replicate] at hlength
  rw [write_positional (by omega) hshort (by dsimp only; omega) (by dsimp only; omega), positional_whole hnpos, text,
    whole, part, hplaces, htenth, Nat.pow_one, hlast]
  rfl

end

theorem Rounds.write_eq_text {x : Binary64} (h : d.Rounds x) (hshortest : d.Shortest) :
    Layout.plain.write x = String.ofList d.text := by
  cases h with
  | zero hzero =>
    have hplaces : d.places = 1 := hshortest.resolve_right (by simp [hzero])
    rw [layout_zero, text, whole, part, hzero, hplaces]
    rfl
  | finite hpos hmlow hmhigh helow hehigh hholds =>
    by_cases hlast : d.digits % 10 = 0
    · exact write_whole hpos hmlow hmhigh helow hehigh hholds (hshortest.resolve_right (not_not.mpr hlast)) hlast
    · exact write_part hpos hmlow hmhigh helow hehigh hholds hlast

/-- What is said of rounding is said of the number, however many zeros are written at its end. -/
theorem Rounds.congr {x : Binary64} (h : d.Rounds x) (hsign : d'.negative = d.negative) (hvalue : d'.value = d.value) :
    d'.Rounds x := by
  have hzero : d'.digits = 0 ↔ d.digits = 0 := by
    have hiff (d : Decimal) : d.digits = 0 ↔ d.value = 0 := by
      refine ⟨value_eq_zero, fun h => ?_⟩
      by_contra hne
      exact (value_pos (Nat.pos_of_ne_zero hne)).ne' h
    rw [hiff, hiff, hvalue]
  cases h with
  | zero hd =>
    rw [← hsign]
    exact .zero (hzero.mpr hd)
  | finite hpos hmlow hmhigh helow hehigh hholds =>
    rw [← hsign]
    refine .finite (Nat.pos_of_ne_zero fun h => ?_) hmlow hmhigh helow hehigh (hvalue ▸ hholds)
    rw [hzero] at h
    omega

/-- **What a decimal is rounded to is written as the decimal in its shortest form.** -/
theorem Rounds.write_eq {x : Binary64} (h : d.Rounds x) (hshortest : d'.Shortest) (hsign : d'.negative = d.negative)
    (hvalue : d'.value = d.value) : Layout.plain.write x = String.ofList d'.text :=
  (h.congr hsign hvalue).write_eq_text hshortest

end Decimal

end Numeral

end Chronicle

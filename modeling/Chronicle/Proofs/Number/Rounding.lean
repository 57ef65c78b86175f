import Chronicle.Number.Decimal
import Mathlib.Algebra.Order.Field.Basic
import Mathlib.Algebra.Order.Field.Power
import Mathlib.Data.Nat.Log
import Mathlib.Tactic.FieldSimp
import Mathlib.Tactic.GCongr
import Mathlib.Tactic.Linarith
import Mathlib.Tactic.Ring

/-!
# Rounding to binary floating point

The numbers that round to a value are an interval around it (`Number.Interval.Holds`, in rational numbers).
**A quotient in the range of full precision is rounded to a value whose interval it lies in**
(`Binary64.ofRatio_spec`): the mantissa has all of its 53 bits. So a number of fewer bits is not changed by rounding
(`Binary64.ofRatio_exact`). No other fact about rounding is used later.
-/

namespace Chronicle

open Binary64

/-! ## Powers -/

theorem cast_twoTo (n : Nat) : ((twoTo n : Nat) : ℚ) = 2 ^ n := by
  rw [show twoTo n = 2 ^ n from rfl, Nat.cast_pow, Nat.cast_ofNat]

theorem cast_tenTo (n : Nat) : ((tenTo n : Nat) : ℚ) = 10 ^ n := by
  rw [show tenTo n = 10 ^ n from rfl, Nat.cast_pow, Nat.cast_ofNat]

/-- A power with a sign is kept as two powers, one of which is 1. -/
theorem pow_toNat_div (b : ℚ) (d : Int) : b ^ d.toNat / b ^ (-d).toNat = b ^ d := by
  rcases le_total 0 d with hd | hd
  · obtain ⟨n, rfl⟩ := Int.eq_ofNat_of_zero_le hd
    simp
  · obtain ⟨n, hn⟩ := Int.eq_ofNat_of_zero_le (Int.neg_nonneg.mpr hd)
    obtain rfl : d = -(n : Int) := by omega
    simp

/-! ## Intervals -/

namespace Number.Interval

/-- The lower end of an interval. -/
def lowEnd (i : Interval) : ℚ := i.low / i.den

/-- The upper end of an interval. -/
def highEnd (i : Interval) : ℚ := i.high / i.den

/-- The number in the middle of an interval. -/
def middle (i : Interval) : ℚ := i.mid / i.den

/-- Whether a number lies in an interval. -/
def Holds (i : Interval) (v : ℚ) : Prop :=
  if i.closed then i.lowEnd ≤ v ∧ v ≤ i.highEnd else i.lowEnd < v ∧ v < i.highEnd

theorem Holds.le {i : Interval} {v : ℚ} (h : i.Holds v) : i.lowEnd ≤ v ∧ v ≤ i.highEnd := by
  unfold Holds at h
  split at h
  · exact h
  · exact ⟨h.1.le, h.2.le⟩

theorem holds_iff {i : Interval} (hi : 0 < i.den) {num den : Nat} (hden : 0 < den) :
    i.holds num den = true ↔ i.Holds (num / den) := by
  have hi' : (0 : ℚ) < i.den := Nat.cast_pos.mpr hi
  have hden' : (0 : ℚ) < den := Nat.cast_pos.mpr hden
  unfold holds Holds lowEnd highEnd
  rw [div_le_div_iff₀ hi' hden', div_le_div_iff₀ hden' hi', div_lt_div_iff₀ hi' hden', div_lt_div_iff₀ hden' hi']
  split <;> simp only [Bool.and_eq_true, decide_eq_true_eq] <;> norm_cast

section

variable (m : Nat) (e : Int)

theorem den_around_pos : 0 < (around m e).den := Nat.mul_pos (by decide) (Nat.two_pow_pos _)

/-- Numbers over the denominator of an interval. -/
theorem over_den (n : ℚ) : n * (twoTo e.toNat : Nat) / (around m e).den = n / 4 * 2 ^ e := by
  rw [← pow_toNat_div 2 e]
  simp only [around, Nat.cast_mul, Nat.cast_ofNat, cast_twoTo]
  field_simp

theorem middle_around : (around m e).middle = m * 2 ^ e := by
  have h := over_den m e (4 * m)
  rw [middle, show (around m e).mid = 4 * m * twoTo e.toNat from rfl]
  push_cast
  rw [h]
  ring

theorem highEnd_around : (around m e).highEnd = (m + 1 / 2) * 2 ^ e := by
  have h := over_den m e (4 * m + 2)
  rw [highEnd, show (around m e).high = (4 * m + 2) * twoTo e.toNat from rfl]
  push_cast
  rw [h]
  ring

variable {m}

/-- Below a mantissa of one bit the numbers stand twice as close, unless it belongs to the least of them. -/
theorem lowEnd_around (hm : 0 < m) : (around m e).lowEnd =
    (m - if m = twoTo 52 ∧ minExponent < e then 1 / 4 else 1 / 2) * 2 ^ e := by
  have hgap (gap : Nat) (hle : gap ≤ 4 * m) (hlow : (around m e).low = (4 * m - gap) * twoTo e.toNat) :
      (around m e).lowEnd = (m - gap / 4) * 2 ^ e := by
    have h := over_den m e (4 * m - gap)
    rw [lowEnd, hlow, Nat.cast_mul, Nat.cast_sub hle]
    push_cast
    rw [h]
    ring
  split
  · rename_i hleast
    rw [hgap 1 (by omega) (by rw [around, if_pos hleast])]
    push_cast
    rfl
  · rename_i hnot
    rw [hgap 2 (by omega) (by rw [around, if_neg hnot])]
    push_cast
    ring

end

end Number.Interval

/-! ## Rounding -/

namespace Binary64

open Number

/-- The quotient is at most a half away from the number it is rounded to, and less if that is odd. -/
theorem roundHalfEven_spec (num : Nat) {den : Nat} (hden : 0 < den) :
    (roundHalfEven num den - 1 / 2 : ℚ) ≤ num / den ∧ (num / den : ℚ) ≤ roundHalfEven num den + 1 / 2 ∧
      (roundHalfEven num den % 2 = 1 →
        (roundHalfEven num den - 1 / 2 : ℚ) < num / den ∧ (num / den : ℚ) < roundHalfEven num den + 1 / 2) := by
  have hden' : (0 : ℚ) < den := Nat.cast_pos.mpr hden
  have hrest := Nat.mod_lt num hden
  have hnum : (num : ℚ) = den * (num / den : Nat) + (num % den : Nat) := by
    exact_mod_cast (Nat.div_add_mod num den).symm
  have hquotient : (num : ℚ) / den = (num / den : Nat) + (num % den : Nat) / den := by
    rw [hnum]
    field_simp
  have hpos : (0 : ℚ) ≤ (num % den : Nat) / den := div_nonneg (Nat.cast_nonneg _) (Nat.cast_nonneg _)
  unfold roundHalfEven
  dsimp only
  rw [hquotient]
  generalize num / den = q at *
  generalize num % den = r at *
  split
  · rename_i hless
    have hhalf : (r : ℚ) / den < 1 / 2 := by
      rw [div_lt_iff₀ hden']
      have : (2 * r : ℚ) < den := by exact_mod_cast hless
      linarith
    exact ⟨by linarith, by linarith, fun _ => ⟨by linarith, by linarith⟩⟩
  · rename_i hnot
    split
    · rename_i hmore
      have hhalf : 1 / 2 < (r : ℚ) / den := by
        rw [lt_div_iff₀ hden']
        have : (den : ℚ) < 2 * r := by exact_mod_cast hmore
        linarith
      have hone : (r : ℚ) / den < 1 := by
        rw [div_lt_one hden']
        exact_mod_cast hrest
      push_cast
      exact ⟨by linarith, by linarith, fun _ => ⟨by linarith, by linarith⟩⟩
    · -- a half goes to the even neighbour
      rename_i hnot'
      have hhalf : (r : ℚ) / den = 1 / 2 := by
        rw [div_eq_iff hden'.ne']
        have heq : 2 * r = den := by omega
        rw [← heq]
        push_cast
        ring
      have hmod : q % 2 = 0 ∨ q % 2 = 1 := Nat.mod_two_eq_zero_or_one q
      rcases hmod with heven | hodd
      · rw [heven, Nat.add_zero, hhalf]
        exact ⟨by linarith, by linarith, fun h => by omega⟩
      · rw [hodd, hhalf]
        push_cast
        exact ⟨by linarith, by linarith, fun h => by omega⟩

theorem bitLength_spec {n : Nat} (hn : 0 < n) :
    (2 : ℚ) ^ ((bitLength n : Int) - 1) ≤ n ∧ (n : ℚ) < 2 ^ (bitLength n : Int) := by
  have hne : n ≠ 0 := hn.ne'
  have hlength : bitLength n = n.log2 + 1 := if_neg hne
  rw [hlength]
  push_cast
  rw [add_sub_cancel_right]
  refine ⟨?_, ?_⟩
  · have hlow : 2 ^ n.log2 ≤ n := Nat.log2_self_le hne
    exact_mod_cast hlow
  · have hhigh : n < 2 ^ (n.log2 + 1) := Nat.lt_log2_self
    exact_mod_cast hhigh

section

variable {negative : Bool} {num den : Nat} {shift e : Int} {v : ℚ}

/-- The quotient that is rounded, as a number of units of `2 ^ e`. -/
theorem scaled_eq (num den : Nat) (shift e : Int) :
    ((num * twoTo (shift - e).toNat : Nat) : ℚ) / (den * twoTo (e - shift).toNat : Nat) =
      num / den * 2 ^ shift / 2 ^ e := by
  have hpow := pow_toNat_div 2 (shift - e)
  rw [neg_sub] at hpow
  push_cast
  rw [cast_twoTo, cast_twoTo, mul_div_mul_comm, hpow, zpow_sub₀ two_ne_zero, mul_div_assoc]

theorem below_lt_iff (hden : 0 < den) (hv : v = num / den * 2 ^ shift) :
    num * twoTo (shift - e).toNat / (den * twoTo (e - shift).toNat) < twoTo 53 ↔ v / 2 ^ e < 2 ^ 53 := by
  have hpos : 0 < den * twoTo (e - shift).toNat := Nat.mul_pos hden (Nat.two_pow_pos _)
  have hpos' : (0 : ℚ) < (den * twoTo (e - shift).toNat : Nat) := Nat.cast_pos.mpr hpos
  rw [hv, ← scaled_eq, div_lt_iff₀ hpos', Nat.div_lt_iff_lt_mul hpos, ← Nat.cast_lt (α := ℚ), Nat.cast_mul (twoTo 53),
    cast_twoTo]

/-- The exponent that is tried first is near enough. -/
theorem rough_bounds (hnum : 0 < num) (hden : 0 < den) (hv : v = num / den * 2 ^ shift) {rough : Int}
    (hrough : rough = bitLength num - bitLength den + shift - 54) :
    2 ^ 53 ≤ v / 2 ^ rough ∧ v / 2 ^ rough < 2 ^ 55 := by
  obtain ⟨hnlow, hnhigh⟩ := bitLength_spec hnum
  obtain ⟨hdlow, hdhigh⟩ := bitLength_spec hden
  have hden' : (0 : ℚ) < den := Nat.cast_pos.mpr hden
  have hunits : v / 2 ^ rough = num * 2 ^ (bitLength den : Int) / (den * 2 ^ ((bitLength num : Int) - 54)) := by
    rw [hv, hrough, zpow_sub₀ two_ne_zero, zpow_add₀ two_ne_zero, zpow_sub₀ two_ne_zero, zpow_sub₀ two_ne_zero]
    field_simp
  have hpos : (0 : ℚ) < den * 2 ^ ((bitLength num : Int) - 54) := by positivity
  rw [hunits, le_div_iff₀ hpos, div_lt_iff₀ hpos]
  generalize (bitLength num : Int) = a at *
  generalize (bitLength den : Int) = b at *
  constructor
  · calc (2 : ℚ) ^ 53 * (den * 2 ^ (a - 54)) ≤ 2 ^ 53 * (2 ^ b * 2 ^ (a - 54)) := by gcongr
      _ = 2 ^ (a - 1) * 2 ^ b := by
        rw [show a - 1 = a - 54 + 53 by ring, zpow_add₀ two_ne_zero (a - 54) 53]
        norm_cast
        ring
      _ ≤ num * 2 ^ b := by gcongr
  · calc (num : ℚ) * 2 ^ b < 2 ^ a * 2 ^ b := by gcongr
      _ = 2 ^ 55 * (2 ^ (b - 1) * 2 ^ (a - 54)) := by
        rw [zpow_sub₀ two_ne_zero, zpow_sub₀ two_ne_zero]
        norm_num
        ring
      _ ≤ 2 ^ 55 * (den * 2 ^ (a - 54)) := by gcongr

/-- The exponent that is taken makes the number 53 bits long. -/
theorem exponent_bounds {start : Int} (hlow : 2 ^ 52 ≤ v / 2 ^ start) (hhigh : v / 2 ^ start < 2 ^ 55)
    (he : e = if v / 2 ^ start < 2 ^ 53 then start
      else if v / 2 ^ (start + 1) < 2 ^ 53 then start + 1 else start + 2) :
    2 ^ 52 ≤ v / 2 ^ e ∧ v / 2 ^ e < 2 ^ 53 ∧ start ≤ e := by
  have hone : v / 2 ^ (start + 1) = v / 2 ^ start / 2 := by
    rw [zpow_add₀ two_ne_zero, zpow_one, div_mul_eq_div_div]
  have htwo : v / 2 ^ (start + 2) = v / 2 ^ start / 4 := by
    rw [zpow_add₀ two_ne_zero, div_mul_eq_div_div]
    norm_num
  split_ifs at he with hfirst hsecond <;> rw [he]
  · exact ⟨hlow, hfirst, le_rfl⟩
  · rw [hone] at hsecond ⊢
    exact ⟨by linarith, hsecond, by omega⟩
  · rw [hone] at hsecond
    rw [htwo]
    exact ⟨by linarith, by linarith, by omega⟩

/-- A number of 53 bits is rounded to a mantissa of 53 bits, or to one bit more. -/
theorem roundHalfEven_bounds {a b : Nat} (hb : 0 < b) (hlow : (2 : ℚ) ^ 52 ≤ a / b) (hhigh : (a / b : ℚ) < 2 ^ 53) :
    2 ^ 52 ≤ roundHalfEven a b ∧ roundHalfEven a b ≤ 2 ^ 53 := by
  obtain ⟨hbelow, habove, _⟩ := roundHalfEven_spec a hb
  have hmore : ((2 ^ 52 : Nat) : ℚ) < roundHalfEven a b + 1 := by
    push_cast
    linarith
  have hless : (roundHalfEven a b : ℚ) < (2 ^ 53 + 1 : Nat) := by
    push_cast
    linarith
  exact ⟨Nat.lt_succ_iff.mp (by exact_mod_cast hmore), Nat.lt_succ_iff.mp (by exact_mod_cast hless)⟩

/-- What rounds to a mantissa lies in its interval, also if the mantissa has just one bit. -/
theorem holds_around {m : Nat} (hm : 2 ^ 52 ≤ m) (hbelow : (m - 1 / 2 : ℚ) ≤ v / 2 ^ e) (habove : v / 2 ^ e ≤ m + 1 / 2)
    (hodd : m % 2 = 1 → (m - 1 / 2 : ℚ) < v / 2 ^ e ∧ v / 2 ^ e < m + 1 / 2)
    (hleast : m = 2 ^ 52 → (m - 1 / 4 : ℚ) ≤ v / 2 ^ e) : (Interval.around m e).Holds v := by
  have he : (0 : ℚ) < 2 ^ e := zpow_pos two_pos e
  rw [le_div_iff₀ he] at hbelow hleast
  rw [div_le_iff₀ he] at habove
  rw [lt_div_iff₀ he, div_lt_iff₀ he] at hodd
  have hlow := Interval.lowEnd_around e (m := m) (by omega)
  unfold Interval.Holds
  rw [Interval.highEnd_around, hlow]
  split
  · refine ⟨?_, habove⟩
    split
    · rename_i hm
      exact hleast hm.1
    · exact hbelow
  · rename_i hopen
    have hmod : m % 2 = 1 := by
      have hne : (m % 2 == 0) ≠ true := hopen
      rw [Ne, beq_iff_eq] at hne
      omega
    have hne : ¬ (m = twoTo 52 ∧ minExponent < e) := by
      rintro ⟨rfl, _⟩
      exact absurd hmod (by decide)
    rw [if_neg hne]
    exact hodd hmod

/-- A mantissa is at most a half away from what rounds to it. -/
theorem near_of_holds {m : Nat} (hm : 0 < m) (h : (Interval.around m e).Holds v) :
    (m - 1 / 2 : ℚ) ≤ v / 2 ^ e ∧ v / 2 ^ e ≤ m + 1 / 2 := by
  have he : (0 : ℚ) < 2 ^ e := zpow_pos two_pos e
  obtain ⟨hlow, hhigh⟩ := h.le
  rw [Interval.lowEnd_around e hm, ← le_div_iff₀ he] at hlow
  rw [Interval.highEnd_around, ← div_le_iff₀ he] at hhigh
  refine ⟨le_trans ?_ hlow, hhigh⟩
  split
  · linarith
  · exact le_rfl

/-- **A number in the range of full precision rounds to a mantissa of 53 bits** whose interval it lies in. -/
theorem ofRatio_spec (hnum : 0 < num) (hden : 0 < den) (hv : v = num / den * 2 ^ shift)
    (hlow : 2 ^ (-1022 : Int) ≤ v) (hhigh : v < 2 ^ 1023) : ∃ m e, ofRatio negative num den shift = .finite negative m e ∧
      2 ^ 52 ≤ m ∧ m < 2 ^ 53 ∧ minExponent ≤ e ∧ e ≤ 971 ∧ (Interval.around m e).Holds v := by
  unfold ofRatio
  rw [if_neg hnum.ne']
  simp only [below_lt_iff hden hv]
  set rough : Int := bitLength num - bitLength den + shift - 54 with hrough
  obtain ⟨hrlow, hrhigh⟩ := rough_bounds hnum hden hv hrough
  have hpos : 0 < v := lt_of_lt_of_le (zpow_pos two_pos _) hlow
  have hstart : 2 ^ 52 ≤ v / 2 ^ max rough minExponent ∧ v / 2 ^ max rough minExponent < 2 ^ 55 := by
    rcases le_total minExponent rough with hle | hle
    · rw [max_eq_left hle]
      exact ⟨by linarith, hrhigh⟩
    · rw [max_eq_right hle]
      refine ⟨?_, lt_of_le_of_lt ?_ hrhigh⟩
      · rw [le_div_iff₀ (zpow_pos two_pos _)]
        calc (2 : ℚ) ^ 52 * 2 ^ minExponent = 2 ^ (-1022 : Int) := by
              rw [← zpow_natCast, ← zpow_add₀ two_ne_zero]
              rfl
          _ ≤ v := hlow
      · have hmono : (2 : ℚ) ^ rough ≤ 2 ^ minExponent := zpow_le_zpow_right₀ one_le_two hle
        exact div_le_div_of_nonneg_left hpos.le (zpow_pos two_pos _) hmono
  generalize he : (if v / 2 ^ max rough minExponent < 2 ^ 53 then max rough minExponent
    else if v / 2 ^ (max rough minExponent + 1) < 2 ^ 53 then max rough minExponent + 1
    else max rough minExponent + 2) = e
  obtain ⟨helow, hehigh, hleast⟩ := exponent_bounds hstart.1 hstart.2 he.symm
  have hb : 0 < den * twoTo (e - shift).toNat := Nat.mul_pos hden (Nat.two_pow_pos _)
  have hquotient := scaled_eq num den shift e
  rw [← hv] at hquotient
  generalize num * twoTo (shift - e).toNat = a at *
  generalize den * twoTo (e - shift).toNat = b at *
  obtain ⟨hbelow, habove, hodd⟩ := roundHalfEven_spec a hb
  obtain ⟨hmlow, hmhigh⟩ := roundHalfEven_bounds hb (by rwa [hquotient]) (by rwa [hquotient])
  rw [hquotient] at hbelow habove hodd
  generalize roundHalfEven a b = m at *
  -- the exponent is below the greatest one, as the number is below `2 ^ 1023`
  have hsmall : e < 971 := by
    have hgreatest : (2 : ℚ) ^ 1023 = 2 ^ 52 * 2 ^ (971 : Int) := by
      rw [← zpow_natCast, ← zpow_natCast, ← zpow_add₀ two_ne_zero]
      rfl
    have hpow : (2 : ℚ) ^ 52 * 2 ^ e < 2 ^ 52 * 2 ^ (971 : Int) := by
      rw [← hgreatest]
      exact lt_of_le_of_lt ((le_div_iff₀ (zpow_pos two_pos e)).mp helow) hhigh
    exact (zpow_lt_zpow_iff_right₀ one_lt_two).mp (lt_of_mul_lt_mul_left hpow (by positivity))
  have hexponent : (2 : ℚ) ^ (e + 1) = 2 ^ e * 2 := by rw [zpow_add₀ two_ne_zero, zpow_one]
  by_cases hm : m = twoTo 53
  · -- rounded up to one bit more, the mantissa is that of the next exponent
    refine ⟨twoTo 52, e + 1, ?_, le_rfl, by decide, by omega, by omega, holds_around le_rfl ?_ ?_ ?_ ?_⟩
    · rw [if_pos hm]
      dsimp only
      rw [if_neg (by omega)]
    all_goals
      rw [hexponent, div_mul_eq_div_div]
      have hm' : (m : ℚ) = 2 ^ 53 := by rw [hm, cast_twoTo]
      rw [cast_twoTo]
      rw [hm'] at hbelow
    · linarith
    · linarith
    · intro hmod
      exact absurd hmod (by decide)
    · intro _
      linarith
  · refine ⟨m, e, ?_, hmlow, lt_of_le_of_ne hmhigh hm, by omega, hsmall.le, holds_around hmlow hbelow habove hodd ?_⟩
    · rw [if_neg hm]
      dsimp only
      rw [if_neg (by omega)]
    · rintro rfl
      push_cast
      linarith

/-- A number of at most 51 bits is not changed by rounding, whatever power of two it is multiplied with. -/
theorem ofRatio_exact (hnum : 0 < num) (hden : 0 < den) (hv : v = num / den * 2 ^ shift)
    (hlow : 2 ^ (-1022 : Int) ≤ v) (hhigh : v < 2 ^ 1023) {n : Nat} {s : Int} (hn : n < 2 ^ 51) (hexact : v = n * 2 ^ s) :
    ∃ m e, ofRatio negative num den shift = .finite negative m e ∧ 0 < m ∧ m * 2 ^ e = v := by
  obtain ⟨m, e, heq, hmlow, _, _, _, hholds⟩ := @ofRatio_spec negative _ _ _ _ hnum hden hv hlow hhigh
  have hm : 0 < m := by omega
  refine ⟨m, e, heq, hm, ?_⟩
  have he : (0 : ℚ) < 2 ^ e := zpow_pos two_pos e
  obtain ⟨hbelow, habove⟩ := near_of_holds hm hholds
  -- the unit of the mantissa is finer than that of the number
  have hfiner : e ≤ s := by
    have hmlow' : (2 : ℚ) ^ 52 ≤ m := by exact_mod_cast hmlow
    have hn' : (n : ℚ) < 2 ^ 51 := by exact_mod_cast hn
    have hunits : (2 : ℚ) ^ 51 ≤ v / 2 ^ e := by linarith
    rw [le_div_iff₀ he, hexact] at hunits
    have hless : (2 : ℚ) ^ 51 * 2 ^ e < 2 ^ 51 * 2 ^ s :=
      lt_of_le_of_lt hunits (mul_lt_mul_of_pos_right hn' (zpow_pos two_pos s))
    exact ((zpow_lt_zpow_iff_right₀ one_lt_two).mp (lt_of_mul_lt_mul_left hless (by positivity))).le
  obtain ⟨t, ht⟩ := Int.eq_ofNat_of_zero_le (sub_nonneg.mpr hfiner)
  have hwhole : v / 2 ^ e = (n * 2 ^ t : Nat) := by
    rw [hexact, mul_div_assoc, ← zpow_sub₀ two_ne_zero, ht]
    push_cast
    rfl
  rw [hwhole] at hbelow habove
  have hleast : m ≤ n * 2 ^ t := by
    have hlt : (m : ℚ) < (n * 2 ^ t + 1 : Nat) := by
      push_cast at hbelow ⊢
      linarith
    exact Nat.lt_succ_iff.mp (by exact_mod_cast hlt)
  have hmost : n * 2 ^ t ≤ m := by
    have hlt : ((n * 2 ^ t : Nat) : ℚ) < (m + 1 : Nat) := by
      push_cast at habove ⊢
      linarith
    exact Nat.lt_succ_iff.mp (by exact_mod_cast hlt)
  rw [le_antisymm hleast hmost, ← hwhole, div_mul_cancel₀ v he.ne']

end

end Binary64

end Chronicle

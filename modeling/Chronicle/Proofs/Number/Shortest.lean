import Chronicle.Proofs.Number.Rounding
import Mathlib.Data.Nat.Cast.Order.Field
import Mathlib.Tactic.Positivity

/-!
# The fewest digits of a number

The digits of a number are looked for on one grid of decimals after the other, from coarse to fine. Where a
decimal of at most 15 digits rounds to a number, the interval around the number is shorter than the steps of the
decimal's grid: so the decimal is found there (`Number.Interval.onGrid_eq`), and on no coarser grid unless it ends
in a zero (`Number.Interval.onGrid_coarser`). **A decimal of at most 15 digits is the shortest one of the number
that it rounds to** (`Number.shortest_eq`).
-/

namespace Chronicle.Number

open Binary64

namespace Interval

variable {i : Interval} {k j : Int} {n d : Nat}

/-! ## One grid -/

/-- A point of a grid, as it is looked for. -/
theorem holds_grid (hi : 0 < i.den) (d : Nat) (k : Int) :
    i.holds (d * tenTo k.toNat) (tenTo (-k).toNat) = true ↔ i.Holds (d * 10 ^ k) := by
  have hpow : (10 : ℚ) ^ k.toNat / 10 ^ (-k).toNat = 10 ^ k := pow_toNat_div 10 k
  have hparts : 0 < tenTo (-k).toNat := Nat.pow_pos (by decide)
  rw [holds_iff hi hparts, Nat.cast_mul, cast_tenTo, cast_tenTo, mul_div_assoc, hpow]

/-- A point that is found lies in the interval. -/
theorem holds_of_onGrid (hi : 0 < i.den) (h : i.onGrid k = some d) : 0 < d ∧ i.Holds (d * 10 ^ k) := by
  unfold onGrid at h
  dsimp only at h
  generalize hbelow : i.mid * tenTo (-k).toNat / (i.den * tenTo k.toNat) = below at h
  have hlow (hin : (decide (0 < below) && i.holds (below * tenTo k.toNat) (tenTo (-k).toNat)) = true) :
      0 < below ∧ i.Holds (below * 10 ^ k) := by
    rw [Bool.and_eq_true, decide_eq_true_eq, holds_grid hi] at hin
    exact hin
  have hhigh (hin : i.holds ((below + 1) * tenTo k.toNat) (tenTo (-k).toNat) = true) :
      0 < below + 1 ∧ i.Holds ((below + 1 : Nat) * 10 ^ k) := ⟨Nat.succ_pos below, (holds_grid hi _ k).mp hin⟩
  split at h
  · rename_i hboth
    obtain ⟨hlowIn, hhighIn⟩ := Bool.and_eq_true_iff.mp hboth
    split at h
    · cases h
      exact hlow hlowIn
    · split at h
      · cases h
        exact hhigh hhighIn
      · cases h
        rcases Nat.mod_two_eq_zero_or_one below with hmod | hmod <;> rw [hmod]
        · exact hlow hlowIn
        · exact hhigh hhighIn
  · split at h
    · rename_i hlowIn
      cases h
      exact hlow hlowIn
    · split at h
      · rename_i hhighIn
        cases h
        exact hhigh hhighIn
      · cases h

/-- An interval that is shorter than the steps of a grid holds one point of it at most. -/
theorem eq_of_holds (hwidth : i.highEnd - i.lowEnd < 10 ^ k) (hn : i.Holds (n * 10 ^ k)) (hd : i.Holds (d * 10 ^ k)) :
    d = n := by
  have hstep : (0 : ℚ) < 10 ^ k := by positivity
  have hclose {a b : Nat} (ha : i.Holds (a * 10 ^ k)) (hb : i.Holds (b * 10 ^ k)) : a ≤ b := by
    have hlt : (a : ℚ) * 10 ^ k < (b + 1) * 10 ^ k := by linarith [ha.le.2, hb.le.1]
    have hlt' : (a : ℚ) < b + 1 := lt_of_mul_lt_mul_right hlt hstep.le
    exact Nat.lt_succ_iff.mp (by exact_mod_cast hlt')
  exact le_antisymm (hclose hd hn) (hclose hn hd)

/-- The one point of a grid in a short interval is found. -/
theorem onGrid_eq (hi : 0 < i.den) (hmiddle : i.lowEnd ≤ i.middle ∧ i.middle ≤ i.highEnd)
    (hwidth : i.highEnd - i.lowEnd < 10 ^ k) (hpos : 0 < n) (hn : i.Holds (n * 10 ^ k)) : i.onGrid k = some n := by
  have hstep : (0 : ℚ) < 10 ^ k := by positivity
  have hunits : 0 < i.den * tenTo k.toNat := Nat.mul_pos hi (Nat.pow_pos (by decide))
  have hunits' : (0 : ℚ) < (i.den * tenTo k.toNat : Nat) := Nat.cast_pos.mpr hunits
  have hquotient : ((i.mid * tenTo (-k).toNat : Nat) : ℚ) / (i.den * tenTo k.toNat : Nat) = i.middle / 10 ^ k := by
    rw [middle, ← pow_toNat_div 10 k, Nat.cast_mul, Nat.cast_mul, cast_tenTo, cast_tenTo]
    field_simp
  unfold onGrid
  dsimp only
  generalize i.mid * tenTo (-k).toNat % (i.den * tenTo k.toNat) = rest
  generalize hbelow : i.mid * tenTo (-k).toNat / (i.den * tenTo k.toNat) = below
  have hle : (below : ℚ) * 10 ^ k ≤ i.middle := by
    rw [← le_div_iff₀ hstep, ← hquotient, ← hbelow]
    exact Nat.cast_div_le
  have hlt : i.middle < (below + 1) * 10 ^ k := by
    rw [← div_lt_iff₀ hstep, ← hquotient, div_lt_iff₀ hunits']
    have hfloor : i.mid * tenTo (-k).toNat / (i.den * tenTo k.toNat) < below + 1 := by
      rw [hbelow]
      exact Nat.lt_succ_self below
    exact_mod_cast (Nat.div_lt_iff_lt_mul hunits).mp hfloor
  -- the point is one of the two beside the middle
  obtain ⟨hlow, hhigh⟩ := hn.le
  have hnear : n = below ∨ n = below + 1 := by
    have hmore : (below : ℚ) * 10 ^ k < (n + 1) * 10 ^ k := by linarith
    have hless : (n : ℚ) * 10 ^ k < (below + 2) * 10 ^ k := by linarith
    have hmore' : (below : ℚ) < n + 1 := lt_of_mul_lt_mul_right hmore hstep.le
    have hless' : (n : ℚ) < below + 2 := lt_of_mul_lt_mul_right hless hstep.le
    have h1 : below < n + 1 := by exact_mod_cast hmore'
    have h2 : n < below + 2 := by exact_mod_cast hless'
    omega
  have hother {d : Nat} (hd : d ≠ n) : i.holds (d * tenTo k.toNat) (tenTo (-k).toNat) = false := by
    rw [Bool.eq_false_iff, Ne, holds_grid hi]
    exact fun hin => hd (eq_of_holds hwidth hn hin)
  have hhere := (holds_grid hi n k).mpr hn
  rcases hnear with rfl | rfl
  · rw [hhere, hother (Nat.succ_ne_self n)]
    simp [hpos]
  · rw [hhere, hother (Nat.succ_ne_self below).symm]
    simp

/-- A point that does not end in a zero is on no coarser grid. -/
theorem onGrid_coarser (hi : 0 < i.den) (hwidth : i.highEnd - i.lowEnd < 10 ^ k) (hn : i.Holds (n * 10 ^ k))
    (hlast : n % 10 ≠ 0) (hj : k < j) : i.onGrid j = none := by
  rw [Option.eq_none_iff_forall_ne_some]
  intro d hd
  obtain ⟨_, hin⟩ := holds_of_onGrid hi hd
  -- on the finer grid it is the same point
  obtain ⟨t, ht⟩ := Int.eq_ofNat_of_zero_le (sub_nonneg.mpr hj.le)
  obtain rfl : j = t + k := by omega
  have hfine : (d : ℚ) * 10 ^ (t + k) = (d * 10 ^ t : Nat) * 10 ^ k := by
    rw [zpow_add₀ (by norm_num), zpow_natCast, Nat.cast_mul, Nat.cast_pow, Nat.cast_ofNat, mul_assoc]
  rw [hfine] at hin
  have hsame := eq_of_holds hwidth hn hin
  obtain ⟨t, rfl⟩ := Nat.exists_eq_succ_of_ne_zero (n := t) (by omega)
  rw [← hsame, Nat.pow_succ, ← Nat.mul_assoc, Nat.mul_mod_left] at hlast
  exact hlast rfl

/-! ## All grids -/

/-- By induction on the steps that are left: the search passes the coarser grids. -/
theorem firstGrid_eq (hhere : i.onGrid k = some n) (hcoarser : ∀ j, k < j → i.onGrid j = none) {steps : Nat}
    {start : Int} (hstart : k ≤ start) (hsteps : start < k + steps) : i.firstGrid steps start = some (n, k) := by
  induction steps generalizing start with
  | zero => omega
  | succ steps ih =>
    unfold firstGrid
    by_cases hk : start = k
    · rw [hk, hhere]
    · rw [hcoarser start (by omega)]
      exact ih (by omega) (by omega)

end Interval

/-! ## The shortest digits -/

theorem dropZeros_eq {n : Nat} (hlast : n % 10 ≠ 0) (fuel : Nat) : dropZeros fuel n = (n, 0) := by
  cases fuel with
  | zero => rfl
  | succ fuel => rw [dropZeros, if_neg (by simp [hlast])]

/-- The place of the first grid, for a number of `bits` bits before the point. -/
def firstPlace (bits : Int) : Int :=
  if 0 ≤ bits then bits * 30103 / 100000 + 1 else -((-bits) * 30103 / 100000) + 1

theorem powers_near : ∀ b < 1100, 10 ^ (b * 30103 / 100000) ≤ 10 * 2 ^ b ∧ 2 ^ b ≤ 10 * 10 ^ (b * 30103 / 100000) := by
  decide +kernel

/-- The place of the first grid is above the number, and not far above it. -/
theorem firstPlace_bounds {bits : Int} (hlow : -1100 < bits) (hhigh : bits < 1100) :
    (2 : ℚ) ^ bits ≤ 10 ^ firstPlace bits ∧ (10 : ℚ) ^ firstPlace bits ≤ 100 * 2 ^ bits := by
  unfold firstPlace
  split
  · obtain ⟨b, rfl⟩ := Int.eq_ofNat_of_zero_le (by assumption)
    obtain ⟨h10, h2⟩ := powers_near b (by omega)
    have hplace : ((b : Int) * 30103 / 100000 + 1 : Int) = (b * 30103 / 100000 + 1 : Nat) := by omega
    rw [hplace, zpow_natCast, zpow_natCast, pow_succ]
    have h10' : (10 : ℚ) ^ (b * 30103 / 100000) ≤ 10 * 2 ^ b := by exact_mod_cast h10
    have h2' : (2 : ℚ) ^ b ≤ 10 * 10 ^ (b * 30103 / 100000) := by exact_mod_cast h2
    exact ⟨by linarith, by linarith⟩
  · obtain ⟨b, hb⟩ := Int.eq_ofNat_of_zero_le (a := -bits) (by omega)
    obtain rfl : bits = -(b : Int) := by omega
    obtain ⟨h10, h2⟩ := powers_near b (by omega)
    have hplace : (-(-(-(b : Int)) * 30103 / 100000) + 1 : Int) = 1 - (b * 30103 / 100000 : Nat) := by
      rw [neg_neg]
      omega
    rw [hplace, zpow_sub₀ (by norm_num), zpow_neg, zpow_natCast, zpow_natCast, zpow_one]
    have h10' : (10 : ℚ) ^ (b * 30103 / 100000) ≤ 10 * 2 ^ b := by exact_mod_cast h10
    have h2' : (2 : ℚ) ^ b ≤ 10 * 10 ^ (b * 30103 / 100000) := by exact_mod_cast h2
    have hp10 : (0 : ℚ) < 10 ^ (b * 30103 / 100000) := by positivity
    have hp2 : (0 : ℚ) < 2 ^ b := by positivity
    rw [inv_eq_one_div, mul_one_div, div_le_div_iff₀ hp2 hp10, div_le_div_iff₀ hp10 hp2]
    exact ⟨by linarith, by linarith⟩

/-- How long the interval around a number is, and how far it is from nothing. -/
theorem around_bounds {m : Nat} (hm : 2 ^ 52 ≤ m) (e : Int) {v : ℚ} (h : (Interval.around m e).Holds v) :
    (Interval.around m e).highEnd - (Interval.around m e).lowEnd ≤ 2 ^ e ∧ 2 ^ (e + 51) ≤ v ∧
      v ≤ (m + 1 / 2) * 2 ^ e ∧ (Interval.around m e).lowEnd ≤ (Interval.around m e).middle ∧
      (Interval.around m e).middle ≤ (Interval.around m e).highEnd := by
  have he : (0 : ℚ) < 2 ^ e := zpow_pos two_pos e
  obtain ⟨hlow, hhigh⟩ := h.le
  have hm' : (2 : ℚ) ^ 52 ≤ m := by exact_mod_cast hm
  have hends := Interval.lowEnd_around e (m := m) (by omega)
  have hgap : (0 : ℚ) ≤ (if m = twoTo 52 ∧ minExponent < e then 1 / 4 else 1 / 2) ∧
      (if m = twoTo 52 ∧ minExponent < e then 1 / 4 else 1 / 2 : ℚ) ≤ 1 / 2 := by
    split <;> norm_num
  generalize (if m = twoTo 52 ∧ minExponent < e then 1 / 4 else 1 / 2 : ℚ) = gap at hends hgap
  rw [hends] at hlow ⊢
  rw [Interval.highEnd_around] at hhigh ⊢
  rw [Interval.middle_around]
  refine ⟨?_, ?_, hhigh, ?_, ?_⟩
  · nlinarith
  · rw [zpow_add₀ two_ne_zero]
    have hhalf : (2 : ℚ) ^ (51 : Int) ≤ m - gap := by
      norm_num
      linarith
    nlinarith
  · nlinarith
  · nlinarith

/-- **A decimal of at most 15 digits is the shortest** of the number that it rounds to. -/
theorem shortest_eq {m n : Nat} {e k : Int} (hmlow : 2 ^ 52 ≤ m) (hmhigh : m < 2 ^ 53) (helow : -1074 ≤ e)
    (hehigh : e ≤ 971) (hlast : n % 10 ≠ 0) (hn : n < 10 ^ 15) (h : (Interval.around m e).Holds (n * 10 ^ k)) :
    shortest m e = ⟨n, (Nat.toDigits 10 n).length + k⟩ := by
  obtain ⟨hlength, hlow, hhigh, hmiddle⟩ := around_bounds hmlow e h
  have hden := Interval.den_around_pos m e
  have he : (0 : ℚ) < 2 ^ e := zpow_pos two_pos e
  have hk : (0 : ℚ) < 10 ^ k := by positivity
  have hpos : 0 < n := Nat.pos_of_ne_zero fun h => hlast (by rw [h])
  have hn' : (n : ℚ) < 10 ^ 15 := by exact_mod_cast hn
  have hhalf : (2 : ℚ) ^ (e + 51) = 2 ^ e * 2 ^ 51 := by
    rw [zpow_add₀ two_ne_zero]
    norm_cast
  have hwidth : (Interval.around m e).highEnd - (Interval.around m e).lowEnd < 10 ^ k := by
    rw [hhalf] at hlow
    nlinarith
  have hbits : (bitLength m : Int) + e = e + 53 := by
    have hlog : m.log2 = 52 := (Nat.log2_eq_iff (by omega)).mpr ⟨hmlow, hmhigh⟩
    rw [bitLength, if_neg (by omega), hlog]
    omega
  -- the search begins above the decimal's grid and comes to it
  obtain ⟨habove, hbelow⟩ := firstPlace_bounds (show -1100 < e + 53 by omega) (by omega)
  have hfull : (2 : ℚ) ^ (e + 53) = 2 ^ e * 2 ^ 53 := by
    rw [zpow_add₀ two_ne_zero]
    norm_cast
  have hstart : k ≤ firstPlace (e + 53) := by
    have hone : (1 : ℚ) ≤ n := by exact_mod_cast hpos
    have hmant : (m : ℚ) + 1 ≤ 2 ^ 53 := by exact_mod_cast hmhigh
    have hlt : (10 : ℚ) ^ k < 10 ^ firstPlace (e + 53) := by
      calc (10 : ℚ) ^ k ≤ n * 10 ^ k := le_mul_of_one_le_left hk.le hone
        _ ≤ (m + 1 / 2) * 2 ^ e := hhigh
        _ < 2 ^ e * 2 ^ 53 := by nlinarith
        _ ≤ 10 ^ firstPlace (e + 53) := hfull ▸ habove
    exact ((zpow_lt_zpow_iff_right₀ (by norm_num)).mp hlt).le
  have hsteps : firstPlace (e + 53) < k + 25 := by
    have hlt : (10 : ℚ) ^ firstPlace (e + 53) < 10 ^ (k + 25) := by
      calc (10 : ℚ) ^ firstPlace (e + 53) ≤ 100 * 2 ^ (e + 53) := hbelow
        _ = 400 * 2 ^ (e + 51) := by
          rw [hfull, hhalf]
          ring
        _ ≤ 400 * (n * 10 ^ k) := by gcongr
        _ < 10 ^ k * 10 ^ 25 := by nlinarith
        _ = 10 ^ (k + 25) := by
          rw [zpow_add₀ (by norm_num)]
          norm_cast
    exact (zpow_lt_zpow_iff_right₀ (by norm_num)).mp hlt
  have hfound := Interval.firstGrid_eq (Interval.onGrid_eq hden hmiddle hwidth hpos h)
    (fun j hj => Interval.onGrid_coarser hden hwidth h hlast hj) hstart hsteps
  unfold shortest
  dsimp only
  rw [hbits]
  unfold firstPlace at hfound
  rw [hfound]
  dsimp only
  rw [dropZeros_eq hlast]
  simp

end Chronicle.Number

import Mathlib
import NoteFormula.Decimal.Shortest
import NoteFormula.Proofs.DoublePatterns

/-! # Decimals by their value

A decimal is rounded by its value alone: neither zeros at the end of the digits nor the cut-offs for exponents
far out of range change the double. A magnitude that doubles have is its own rounding, so the shortest decimal
of a double reads back as that double.
-/
namespace NoteFormula.Decimal

theorem roundDiv_mul {k : Nat} (hk : 0 < k) (n d : Nat) : roundDiv (k * n) (k * d) = roundDiv n d := by
  have hlt (a b : Nat) : k * a < k * b ↔ a < b := Nat.mul_lt_mul_left hk
  unfold roundDiv
  simp only [Nat.mul_div_mul_left _ _ hk, Nat.mul_mod_mul_left, Nat.mul_left_comm 2 k, hlt]

theorem nearestCode_mul {k : Nat} (hk : 0 < k) (n d : Nat) : nearestCode (k * n) (k * d) = nearestCode n d := by
  unfold nearestCode
  simp only [Nat.mul_div_mul_left _ _ hk, Nat.mul_assoc, roundDiv_mul hk]

theorem nearestCode_congr {n d n' d' : Nat} (hd : 0 < d) (hd' : 0 < d') (h : n * d' = n' * d) :
    nearestCode n d = nearestCode n' d' := by
  calc nearestCode n d = nearestCode (d' * n) (d' * d) := (nearestCode_mul hd' n d).symm
    _ = nearestCode (d * n') (d * d') := by rw [Nat.mul_comm d' n, h, Nat.mul_comm n' d, Nat.mul_comm d' d]
    _ = nearestCode n' d' := nearestCode_mul hd n' d'

theorem roundDiv_eq_zero {n d : Nat} (h : 2 * n < d) : roundDiv n d = 0 := by
  have hn : n < d := by omega
  unfold roundDiv
  rw [Nat.div_eq_of_lt hn, Nat.mod_eq_of_lt hn]
  exact if_pos h

theorem le_roundDiv (n d : Nat) : n / d ≤ roundDiv n d := by
  unfold roundDiv
  dsimp only
  split
  · exact Nat.le_refl _
  · split <;> omega

theorem roundDiv_mul_right {d : Nat} (hd : 0 < d) (n : Nat) : roundDiv (n * d) d = n := by
  unfold roundDiv
  rw [Nat.mul_div_cancel n hd, Nat.mul_mod_left]
  exact if_pos hd

theorem nearestCode_eq_zero {n d : Nat} (h : 2 * n < d) : nearestCode n d = 0 := by
  have hwhole : n / d = 0 := Nat.div_eq_of_lt (by omega)
  unfold nearestCode
  dsimp only
  rw [hwhole, if_pos (pow2_pos 53), pow2_eq 0, Nat.pow_zero, Nat.mul_one, roundDiv_eq_zero h, Nat.zero_mul]
  exact Nat.zero_min _

theorem nearestCode_of_large {n k : Nat} (h : 2 ^ 53 ≤ n) (hk : n.log2 = 52 + k) :
    nearestCode n 1 = min (k * 2 ^ 52 + roundDiv n (2 ^ k)) infiniteCode := by
  unfold nearestCode
  dsimp only
  rw [Nat.div_one, pow2_eq, if_neg (Nat.not_lt.mpr h), hk, Nat.add_sub_cancel_left, Nat.one_mul, pow2_eq, pow2_eq]

/-- Whatever has more than 1024 binary digits before the point is out of range. -/
theorem nearestCode_of_huge {n e : Nat} (he : 2098 ≤ e) (h : 2 ^ e ≤ n) : nearestCode n 1 = infiniteCode := by
  have hpos : 0 < n := Nat.lt_of_lt_of_le (Nat.two_pow_pos _) h
  have hlog : e ≤ n.log2 := (Nat.le_log2 (by omega)).mpr h
  obtain ⟨k, hk⟩ := Nat.exists_eq_add_of_le (show 52 ≤ n.log2 by omega)
  have hself : 2 ^ 52 * 2 ^ k ≤ n := by
    rw [← Nat.pow_add, ← hk]
    exact Nat.log2_self_le (by omega)
  have hround : 2 ^ 52 ≤ roundDiv n (2 ^ k) :=
    Nat.le_trans ((Nat.le_div_iff_mul_le (Nat.two_pow_pos k)).mpr hself) (le_roundDiv _ _)
  have hlarge : 2 ^ 53 ≤ n := Nat.le_trans (Nat.pow_le_pow_right (by decide) (by omega)) h
  rw [nearestCode_of_large hlarge hk, infiniteCode_eq]
  exact Nat.min_eq_right (by omega)

/-- A magnitude that doubles have is its own rounding. -/
theorem nearestCode_magnitude {mantissa shift : Nat} (h : IsMagnitude mantissa shift) :
    nearestCode (mantissa * 2 ^ shift) 1 = shift * 2 ^ 52 + mantissa := by
  have hfinite := Nat.min_eq_left (Nat.le_of_lt h.finite)
  by_cases hs : shift = 0
  · subst hs
    have hone : roundDiv mantissa 1 = mantissa := by simpa using roundDiv_mul_right Nat.one_pos mantissa
    unfold nearestCode
    dsimp only
    rw [Nat.pow_zero, Nat.mul_one, Nat.div_one, pow2_eq, if_pos h.small, pow2_eq, pow2_eq, Nat.pow_zero, Nat.mul_one,
      hone]
    exact hfinite
  · have hlead := h.leading hs
    have hpow := Nat.two_pow_pos shift
    have hlow : 2 ^ (52 + shift) ≤ mantissa * 2 ^ shift := by
      rw [Nat.pow_add]
      exact Nat.mul_le_mul_right _ hlead
    have hhigh : mantissa * 2 ^ shift < 2 ^ (52 + shift + 1) := by
      rw [show 52 + shift + 1 = 53 + shift by omega, Nat.pow_add]
      exact Nat.mul_lt_mul_of_pos_right h.small hpow
    have hlarge : 2 ^ 53 ≤ mantissa * 2 ^ shift :=
      Nat.le_trans (Nat.pow_le_pow_right (by decide) (by omega)) hlow
    rw [nearestCode_of_large hlarge (log2_eq_of_bounds hlow hhigh), roundDiv_mul_right hpow]
    exact hfinite

theorem pow10_eq (n : Nat) : pow10 n = 10 ^ n := rfl

theorem grainsPerOne_eq : grainsPerOne = 2 ^ 1074 := pow2_eq 1074

theorem grainsPerOne_pos : 0 < grainsPerOne := pow2_pos 1074

theorem pow10_ge (n : Nat) : 2 ^ (3 * n) ≤ 10 ^ n := by
  rw [Nat.pow_mul]
  exact Nat.pow_le_pow_left (by decide) n

theorem pow10_ge_range {n e : Nat} (h : 310 < n) (he : e ≤ 1024) : 2 ^ e ≤ 10 ^ n := by
  have hstep (k m : Nat) : 2 ^ (93 * k + 3 * m) ≤ 10 ^ (28 * k + m) := by
    rw [Nat.pow_add, Nat.pow_add, Nat.pow_mul 2 93, Nat.pow_mul 10 28]
    exact Nat.mul_le_mul (Nat.pow_le_pow_left (by decide) k) (pow10_ge m)
  obtain ⟨m, rfl⟩ := Nat.exists_eq_add_of_le (show 28 * 11 ≤ n by omega)
  exact Nat.le_trans (Nat.pow_le_pow_right (by decide) (by omega)) (hstep 11 m)

theorem nearestCode_of_range {n e : Nat} (he : 1024 ≤ e) (h : 2 ^ e ≤ n) :
    nearestCode (n * grainsPerOne) 1 = infiniteCode := by
  refine nearestCode_of_huge (e := e + 1074) (by omega) ?_
  calc
    2 ^ (e + 1074) = 2 ^ e * 2 ^ 1074 := pow_add 2 e 1074
    _ = 2 ^ e * grainsPerOne := by rw [grainsPerOne_eq]
    _ ≤ n * grainsPerOne := Nat.mul_le_mul_right _ h

/-- The cut-offs for exponents far out of range agree with the rounding. -/
theorem code_eq (d : Decimal) :
    d.code = nearestCode (d.digits * 10 ^ d.exponent.toNat * grainsPerOne) (10 ^ (-d.exponent).toNat) := by
  unfold code
  by_cases hzero : d.digits = 0
  · rw [if_pos hzero, hzero, Nat.zero_mul, Nat.zero_mul]
    exact (nearestCode_eq_zero (Nat.pow_pos (by decide))).symm
  have hpos : 1 ≤ d.digits := Nat.pos_of_ne_zero hzero
  rw [if_neg hzero]
  by_cases hhuge : 310 < d.exponent
  · rw [if_pos hhuge, show (-d.exponent).toNat = 0 by omega, Nat.pow_zero]
    have hten := pow10_ge_range (show 310 < d.exponent.toNat by omega) (Nat.le_refl 1024)
    exact (nearestCode_of_range (Nat.le_refl _) (Nat.le_trans hten (Nat.le_mul_of_pos_left _ hpos))).symm
  rw [if_neg hhuge]
  by_cases hwhole : 0 ≤ d.exponent
  · rw [if_pos hwhole, show (-d.exponent).toNat = 0 by omega, Nat.pow_zero, pow10_eq]
  rw [if_neg hwhole, show d.exponent.toNat = 0 by omega, Nat.pow_zero, Nat.mul_one]
  dsimp only
  generalize (-d.exponent).toNat = places
  by_cases htiny : d.digits.log2 + 1080 < 3 * places
  -- Three binary places for each decimal one put it below half a grain.
  · rw [if_pos htiny]
    refine (nearestCode_eq_zero ?_).symm
    have hdigits : d.digits * grainsPerOne < 2 ^ (d.digits.log2 + 1) * grainsPerOne :=
      Nat.mul_lt_mul_of_pos_right Nat.lt_log2_self grainsPerOne_pos
    have hten : 2 * (2 ^ (d.digits.log2 + 1) * grainsPerOne) ≤ 10 ^ places := by
      rw [grainsPerOne_eq]
      generalize hgrains : 1074 = grains
      rw [← Nat.pow_add, ← Nat.pow_succ']
      exact Nat.le_trans (Nat.pow_le_pow_right (by decide) (by omega)) (pow10_ge places)
    omega
  · rw [if_neg htiny, pow10_eq]

theorem code_le (d : Decimal) : d.code ≤ infiniteCode := by
  rw [code_eq]
  exact Nat.min_le_right _ _

theorem code_congr {a b : Decimal}
    (h : a.digits * 10 ^ a.exponent.toNat * 10 ^ (-b.exponent).toNat =
      b.digits * 10 ^ b.exponent.toNat * 10 ^ (-a.exponent).toNat) : a.code = b.code := by
  rw [code_eq, code_eq]
  refine nearestCode_congr (Nat.pow_pos (by decide)) (Nat.pow_pos (by decide)) ?_
  rw [Nat.mul_right_comm, h, Nat.mul_right_comm]

def value (d : Decimal) : ℚ := d.digits * 10 ^ d.exponent

theorem value_shift (digits k : Nat) (e : Int) : value ⟨digits * 10 ^ k, e⟩ = value ⟨digits, e + k⟩ := by
  unfold value
  push_cast
  rw [zpow_add₀ (by norm_num), zpow_natCast, mul_assoc, mul_comm ((10 : ℚ) ^ k)]

theorem value_eq_div (d : Decimal) :
    d.value = (d.digits * 10 ^ d.exponent.toNat : Nat) / (10 ^ (-d.exponent).toNat : Nat) := by
  have hcut : d.exponent = d.exponent.toNat - (-d.exponent).toNat := by omega
  unfold value
  push_cast
  conv_lhs => rw [hcut, zpow_sub₀ (by norm_num), zpow_natCast, zpow_natCast]
  rw [mul_div_assoc]

theorem code_of_value {a b : Decimal} (h : a.value = b.value) : a.code = b.code := by
  rw [value_eq_div, value_eq_div, div_eq_div_iff (by positivity) (by positivity)] at h
  exact code_congr (by exact_mod_cast h)

theorem exact_code (n : Nat) : (exact n).code = nearestCode n 1 := by
  rw [code_eq]
  refine nearestCode_congr (Nat.pow_pos (by decide)) Nat.one_pos ?_
  rw [show (exact n).digits = n * Nat.pow 5 1074 from rfl, show (exact n).exponent.toNat = 0 from rfl,
    show (-(exact n).exponent).toNat = 1074 from rfl, grainsPerOne_eq]
  generalize 1074 = grains
  rw [Nat.pow_eq, Nat.pow_zero, Nat.mul_one, Nat.mul_one, Nat.mul_assoc, ← Nat.mul_pow]

theorem onGrid_code {target n d : Nat} {exponent : Int} {found : Decimal}
    (h : onGrid? target n d exponent = some found) : found.code = target := by
  unfold onGrid? at h
  dsimp only at h
  split at h
  · split at h
    · rename_i hhigh
      cases h
      simp only [Bool.and_eq_true, decide_eq_true_eq] at hhigh
      exact hhigh.1
    · rename_i hlow _
      cases h
      exact hlow
  · split at h
    · rename_i hhigh
      cases h
      exact hhigh
    · cases h

theorem search_code {target n d : Nat} {position : Int} {count digits : Nat} {found : Decimal}
    (h : search target n d position count digits = some found) : found.code = target := by
  induction count generalizing digits with
  | zero => cases h
  | succ count ih =>
    unfold search at h
    split at h
    · rename_i hgrid
      cases h
      exact onGrid_code hgrid
    · exact ih h

/-- The shortest decimal of a magnitude reads back as its pattern. -/
theorem shortest_code {mantissa shift : Nat} (h : IsMagnitude mantissa shift) :
    (shortest mantissa shift).code = shift * 2 ^ 52 + mantissa := by
  unfold shortest
  dsimp only
  rw [pow2_eq]
  by_cases hzero : mantissa * 2 ^ shift = 0
  · have hmantissa : mantissa = 0 := by
      rcases Nat.mul_eq_zero.mp hzero with hm | hp
      · exact hm
      · exact absurd hp (Nat.ne_of_gt (Nat.two_pow_pos shift))
    have hshift : shift = 0 := Decidable.byContradiction fun hs => by
      have := h.leading hs
      omega
    rw [if_pos hzero, hmantissa, hshift]
    rfl
  rw [if_neg hzero]
  cases hsearch : search (shift * pow2 52 + mantissa) (mantissa * 2 ^ shift) grainsPerOne
      (pointPosition (mantissa * 2 ^ shift) grainsPerOne) 17 1 with
  | some found => exact search_code hsearch
  | none => exact (exact_code _).trans (nearestCode_magnitude h)

end NoteFormula.Decimal

import NoteFormula.Proofs.DecimalValues

/-! # Integers beyond the doubles

An integer rounds to no finite double when it reaches the middle between the greatest finite double and the
next power of two, `2 ^ 1024 - 2 ^ 970`. The exponents stay variables where powers of them are rewritten.
-/
namespace NoteFormula.Decimal

theorem roundDiv_le (n d : Nat) : roundDiv n d ≤ n / d + 1 := by
  unfold roundDiv
  dsimp only
  split
  · omega
  · split <;> omega

theorem le_roundDiv_iff {n d m : Nat} (hd : 0 < d) (he : m % 2 = 0) (hm : 0 < m) :
    m ≤ roundDiv n d ↔ (2 * m - 1) * d ≤ 2 * n := by
  have hn : n = n / d * d + n % d := (Nat.div_add_mod' n d).symm
  have hrest := Nat.mod_lt n hd
  have hlow := le_roundDiv n d
  have hhigh := roundDiv_le n d
  -- Only one above the whole part does the remainder decide, and there the half goes up to the even `m`.
  by_cases hq : m = n / d + 1
  · have hmul : (2 * m - 1) * d = 2 * (n / d * d) + d := by
      rw [hq, show 2 * (n / d + 1) - 1 = 2 * (n / d) + 1 by omega, Nat.add_mul, Nat.mul_assoc, Nat.one_mul]
    have hround : m ≤ roundDiv n d ↔ d ≤ 2 * (n % d) := by
      unfold roundDiv
      dsimp only
      split
      · omega
      · split <;> omega
    omega
  · by_cases hle : m ≤ n / d
    · have hmul : (2 * m - 1) * d ≤ 2 * (n / d) * d := Nat.mul_le_mul_right d (by omega)
      rw [Nat.mul_assoc] at hmul
      omega
    · have hmul : (2 * (n / d) + 2) * d ≤ (2 * m - 1) * d := Nat.mul_le_mul_right d (by omega)
      rw [Nat.add_mul, Nat.mul_assoc] at hmul
      omega

theorem nearestCode_lt {n k : Nat} (h : n < 2 ^ (53 + k)) (hk : k < 2045) : nearestCode n 1 < infiniteCode := by
  rw [infiniteCode_eq]
  by_cases hsmall : n < 2 ^ 53
  · have hone : roundDiv n 1 = n := by simpa using roundDiv_mul_right Nat.one_pos n
    unfold nearestCode
    dsimp only
    rw [Nat.div_one, pow2_eq, if_pos hsmall, pow2_eq 0, Nat.pow_zero, Nat.mul_one, hone, Nat.zero_mul, Nat.zero_add]
    exact Nat.lt_of_le_of_lt (Nat.min_le_left _ _) (by omega)
  · have hlarge := Nat.le_of_not_lt hsmall
    have hlow : 52 ≤ n.log2 := (Nat.le_log2 (by omega)).mpr (by omega)
    obtain ⟨j, hj⟩ := Nat.exists_eq_add_of_le hlow
    have hjk : j ≤ k := by
      have := (Nat.log2_lt (by omega)).mpr h
      omega
    have hquot : n / 2 ^ j < 2 ^ 53 := by
      refine (Nat.div_lt_iff_lt_mul (Nat.two_pow_pos j)).mpr ?_
      have hself := Nat.lt_log2_self (n := n)
      rwa [hj, show 52 + j + 1 = 53 + j by omega, Nat.pow_add] at hself
    have hround := roundDiv_le n (2 ^ j)
    rw [nearestCode_of_large hlarge hj]
    exact Nat.lt_of_le_of_lt (Nat.min_le_left _ _) (by omega)

theorem nearestCode_top {n k : Nat} (hk : k = 2045) (hlow : 2 ^ (52 + k) ≤ n) (hhigh : n < 2 ^ (53 + k)) :
    nearestCode n 1 = infiniteCode ↔ (2 ^ 54 - 1) * 2 ^ k ≤ 2 * n := by
  have hlarge : 2 ^ 53 ≤ n := Nat.le_trans (Nat.pow_le_pow_right (by decide) (by omega)) hlow
  have hlog : n.log2 = 52 + k := log2_eq_of_bounds hlow (by rwa [show 52 + k + 1 = 53 + k by omega])
  have hiff := le_roundDiv_iff (n := n) (m := 2 ^ 53) (Nat.two_pow_pos k) (by decide) (by decide)
  rw [nearestCode_of_large hlarge hlog, infiniteCode_eq]
  omega

theorem nearestCode_grains_iff {n g a : Nat} (hg : g = 1074) (ha : a = 970) :
    nearestCode (n * 2 ^ g) 1 = infiniteCode ↔ 2 ^ a * (2 ^ 54 - 1) ≤ n := by
  have hgrain := Nat.two_pow_pos g
  have hscale (e : Nat) : 2 ^ (e + g) = 2 ^ e * 2 ^ g := Nat.pow_add 2 e g
  rcases Nat.lt_or_ge n (2 ^ (a + 53)) with hsmall | hlow
  · have hbound : n * 2 ^ g < 2 ^ (53 + (a + g)) := by
      rw [show 53 + (a + g) = a + 53 + g by omega, hscale]
      exact Nat.mul_lt_mul_of_pos_right hsmall hgrain
    have hfinite := nearestCode_lt hbound (by omega)
    rw [Nat.pow_add] at hsmall
    omega
  rcases Nat.lt_or_ge n (2 ^ (a + 54)) with hmiddle | hlarge
  -- The last doubles before the end of the range, `2 ^ a` apart.
  · have hfrom : 2 ^ (52 + (a + g + 1)) ≤ n * 2 ^ g := by
      rw [show 52 + (a + g + 1) = a + 53 + g by omega, hscale]
      exact Nat.mul_le_mul_right _ hlow
    have hto : n * 2 ^ g < 2 ^ (53 + (a + g + 1)) := by
      rw [show 53 + (a + g + 1) = a + 54 + g by omega, hscale]
      exact Nat.mul_lt_mul_of_pos_right hmiddle hgrain
    have hdouble (m : Nat) : m * 2 ^ (a + g + 1) = 2 * (2 ^ a * m * 2 ^ g) := by
      rw [Nat.pow_succ, hscale]
      ac_rfl
    rw [nearestCode_top (by omega) hfrom hto, hdouble, Nat.mul_le_mul_left_iff (by decide),
      Nat.mul_le_mul_right_iff hgrain]
  · have hhuge : 2 ^ (a + 54 + g) ≤ n * 2 ^ g := by
      rw [hscale]
      exact Nat.mul_le_mul_right _ hlarge
    have hrange : 2 ^ a * (2 ^ 54 - 1) ≤ n := by
      rw [Nat.pow_add] at hlarge
      exact Nat.le_trans (Nat.mul_le_mul_left _ (by decide)) hlarge
    have he : 2098 ≤ a + 54 + g := by omega
    exact iff_of_true (nearestCode_of_huge he hhuge) hrange

theorem exceedsDouble_iff (n : Int) : exceedsDouble n = true ↔ 2 ^ 970 * (2 ^ 54 - 1) ≤ n.natAbs := by
  unfold exceedsDouble
  rw [beq_iff_eq, grainsPerOne_eq, nearestCode_grains_iff rfl rfl]

end NoteFormula.Decimal

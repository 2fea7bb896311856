import NoteFormula.Proofs.DoublePatterns

/-! # Signs of doubles

A finite double and its opposite differ in the sign alone, and the double of a sign and a magnitude is taken apart into
these two again. So a negative number is the negation of its magnitude, and nothing is rounded on the way.
-/
namespace NoteFormula.Decimal

theorem ofFloat_magnitude {mantissa shift : Nat} (negative : Bool) (h : IsMagnitude mantissa shift) :
    Binary.ofFloat (ofCode negative (shift * 2 ^ 52 + mantissa)) = .finite negative mantissa shift := by
  have hsmall := h.small
  have hleading := h.leading
  have hfinite := h.finite
  have hbits := toBits_ofCode negative (Nat.le_of_lt h.finite)
  obtain ⟨hsign, hbelow⟩ := signed_code negative (Nat.le_of_lt h.finite)
  generalize hcode : shift * 2 ^ 52 + mantissa = code at hbits hfinite hsign hbelow ⊢
  rw [infiniteCode_eq] at hfinite
  unfold Binary.ofFloat
  dsimp only
  rw [hbits, hsign, hbelow, infiniteCode_eq, pow2_eq, if_neg (by omega), if_neg (by omega)]
  by_cases hshift : shift = 0
  · by_cases hlow : mantissa < 2 ^ 52
    · rw [if_pos (by omega)]
      congr 1 <;> omega
    · rw [if_neg (by omega)]
      congr 1 <;> omega
  · have hlead := hleading hshift
    rw [if_neg (by omega)]
    congr 1 <;> omega

theorem ofFloat_zero {x : Float} {negative : Bool} {shift : Nat} (h : Binary.ofFloat x = .finite negative 0 shift) :
    x = ofCode negative 0 := by
  obtain ⟨hmagnitude, rfl⟩ := ofFloat_finite h
  have hshift : shift = 0 := by
    by_contra hne
    have hleading := hmagnitude.leading hne
    omega
  rw [hshift, Nat.zero_mul, Nat.zero_add]

section Negation

open Float.Model

/-- Patterns that differ in the sign alone are unpacked to opposite numbers. -/
theorem unpack_opposite {bits other : BitVec Format.binary64.numBits}
    (hexponent : UnpackedFloat.unpackExponent other = UnpackedFloat.unpackExponent bits)
    (hmantissa : UnpackedFloat.unpackMantissa other = UnpackedFloat.unpackMantissa bits)
    (hsign : UnpackedFloat.unpackSign other = 1#1 - UnpackedFloat.unpackSign bits) :
    UnpackedFloat.unpack Format.binary64 other = (UnpackedFloat.unpack Format.binary64 bits).neg := by
  have hopposite (bit : BitVec 1) :
      UnpackedFloat.Sign.ofBitVec (1#1 - bit) = -UnpackedFloat.Sign.ofBitVec bit := by
    rcases BitVec.eq_zero_or_eq_one bit with rfl | rfl <;> rfl
  unfold UnpackedFloat.unpack
  simp only [hexponent, hmantissa, hsign, hopposite]
  split_ifs <;> rfl

/-- The opposite double has the same pattern below the sign. -/
theorem neg_ofCode {code : Nat} (negative : Bool) (h : code ≤ infiniteCode) :
    -ofCode negative code = ofCode (!negative) code := by
  have hbits := toBits_ofCode negative h
  have hother := toBits_ofCode (!negative) h
  generalize ofCode negative code = x at hbits ⊢
  generalize ofCode (!negative) code = y at hother ⊢
  rw [infiniteCode_eq] at h
  rw [signBit_eq] at hbits hother
  have hunpack : UnpackedFloat.unpack Format.binary64 y.toBits.toBitVec =
      (UnpackedFloat.unpack Format.binary64 x.toBits.toBitVec).neg := by
    refine unpack_opposite (BitVec.eq_of_toNat_eq ?_) (BitVec.eq_of_toNat_eq ?_) (BitVec.eq_of_toNat_eq ?_)
    · change y.toBits.toNat >>> 52 % 2 ^ 11 = x.toBits.toNat >>> 52 % 2 ^ 11
      rw [hbits, hother, Nat.shiftRight_eq_div_pow, Nat.shiftRight_eq_div_pow]
      cases negative <;> simp <;> omega
    · change y.toBits.toNat >>> 0 % 2 ^ 52 = x.toBits.toNat >>> 0 % 2 ^ 52
      rw [hbits, hother, Nat.shiftRight_zero, Nat.shiftRight_zero]
      cases negative <;> simp <;> omega
    · change y.toBits.toNat >>> 63 % 2 ^ 1 = (2 ^ 1 - x.toBits.toNat >>> 63 % 2 ^ 1 + 1) % 2 ^ 1
      rw [hbits, hother, Nat.shiftRight_eq_div_pow, Nat.shiftRight_eq_div_pow]
      cases negative <;> simp <;> omega
  calc
    -x = .ofModel (.pack (UnpackedFloat.unpack Format.binary64 x.toBits.toBitVec).neg) := rfl
    _ = .ofModel (.pack (UnpackedFloat.unpack Format.binary64 y.toBits.toBitVec)) := by rw [hunpack]
    _ = .ofBits y.toBits := rfl
    _ = y := ofBits_toBits y

end Negation

theorem neg_finite {x : Float} {negative : Bool} {mantissa shift : Nat}
    (h : Binary.ofFloat x = .finite negative mantissa shift) :
    Binary.ofFloat (-x) = .finite (!negative) mantissa shift ∧ - -x = x := by
  obtain ⟨hmagnitude, rfl⟩ := ofFloat_finite h
  have hle := Nat.le_of_lt hmagnitude.finite
  rw [neg_ofCode negative hle, neg_ofCode _ hle, Bool.not_not]
  exact ⟨ofFloat_magnitude _ hmagnitude, rfl⟩

end NoteFormula.Decimal

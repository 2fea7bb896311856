import Mathlib
import NoteFormula.Decimal.Binary

/-! # Doubles and their bit patterns

A double is taken apart into sign, mantissa and shift, and put together again from the pattern these give. A
pattern of the shape that doubles have gives the double back, not a number apart.
-/
namespace NoteFormula.Decimal

section Patterns

open Float.Model Float.Model.UnpackedFloat

theorem joined_fields {bits : BitVec Format.binary64.numBits} {exponent : BitVec 11} {mantissa : BitVec 52}
    (he : unpackExponent bits = exponent) (hm : unpackMantissa bits = mantissa) :
    packComponents Format.binary64 (Sign.ofBitVec (unpackSign bits)) exponent mantissa = bits := by
  have hsign : (Sign.ofBitVec (unpackSign bits)).toBitVec = unpackSign bits := by
    generalize unpackSign bits = bit
    revert bit
    decide
  subst he hm
  unfold packComponents
  rw [hsign]
  ext i hi
  simp only [unpackSign, unpackExponent, unpackMantissa, BitVec.extractLsb]
  grind

theorem log2_eq_of_bounds {m k : Nat} (hl : 2 ^ k ≤ m) (hu : m < 2 ^ (k + 1)) : m.log2 = k :=
  (Nat.log2_eq_iff (by have := Nat.two_pow_pos k; omega)).mpr ⟨hl, hu⟩

/-- Without the leading bit the exponent field is zero. -/
theorem pack_subnormal {m : Nat} {e : Int} (sign : Sign) (hm : 0 < m) (hlt : m < 2 ^ 52) (he : e = -1074) :
    UnpackedFloat.pack Format.binary64 (.finite sign m e hm) =
      packComponents Format.binary64 sign 0#11 (BitVec.ofNat 52 m) := by
  have hlog : m.log2 < 52 := (Nat.log2_lt (by omega)).mpr hlt
  have hbias : ((e + Format.binary64.exponentBias + Format.binary64.mantissaBitsWithoutImplicit : Int)).toNat = 1 := by
    rw [he]
    rfl
  have hbits : m.log2 + 1 ≠ Format.binary64.mantissaBits := by
    change m.log2 + 1 ≠ 53
    omega
  unfold UnpackedFloat.pack
  dsimp only
  rw [hbias, if_neg (by decide), if_neg hbits]

/-- The leading bit is not written down; the field below it is. -/
theorem pack_normal {m exponent : Nat} {e : Int} (sign : Sign) (hm : 0 < 2 ^ 52 + m) (hlt : m < 2 ^ 52)
    (hfield : exponent < 2047) (he : e = exponent - 1075) :
    UnpackedFloat.pack Format.binary64 (.finite sign (2 ^ 52 + m) e hm) =
      packComponents Format.binary64 sign (BitVec.ofNat 11 exponent) (BitVec.ofNat 52 m) := by
  have hlog : (2 ^ 52 + m).log2 + 1 = Format.binary64.mantissaBits := by
    rw [log2_eq_of_bounds (k := 52) (by omega) (by omega)]
    rfl
  have hbias : ((e + Format.binary64.exponentBias + Format.binary64.mantissaBitsWithoutImplicit : Int)).toNat =
      exponent := by
    change ((e + (1023 : Nat) + (52 : Nat) : Int)).toNat = exponent
    omega
  have hword : BitVec.ofNat 52 (2 ^ 52 + m) = BitVec.ofNat 52 m := by
    apply BitVec.eq_of_toNat_eq
    simp only [BitVec.toNat_ofNat, Nat.add_mod_left]
  unfold UnpackedFloat.pack
  dsimp only
  rw [hbias, if_neg (by omega), if_pos hlog, hword]

/-- Nothing is lost when a double is unpacked. -/
theorem pack_unpack {bits : BitVec Format.binary64.numBits} (hv : Format.binary64.Valid bits) :
    UnpackedFloat.pack Format.binary64 (UnpackedFloat.unpack Format.binary64 bits) = bits := by
  have hlt : (unpackMantissa bits).toNat < 2 ^ 52 := (unpackMantissa bits).isLt
  have hword : unpackMantissa bits = BitVec.ofNat 52 (unpackMantissa bits).toNat := BitVec.eq_of_toNat_eq (by simp)
  unfold UnpackedFloat.unpack
  by_cases htop : unpackExponent bits = -1#11
  -- Infinities, and the one pattern that is valid for no number.
  · rw [if_pos htop]
    by_cases hzero : unpackMantissa bits = 0#52
    · rw [if_pos hzero]
      exact joined_fields htop hzero
    · rw [if_neg hzero]
      exact (hv.eq_packedNaN htop hzero).symm
  · rw [if_neg htop]
    by_cases hbottom : unpackExponent bits = 0#11
    · rw [if_pos hbottom]
      by_cases hzero : unpackMantissa bits = 0#52
      · rw [dif_pos hzero]
        exact joined_fields hbottom hzero
      · rw [dif_neg hzero, pack_subnormal _ _ hlt (by rw [hbottom]; rfl)]
        exact joined_fields hbottom hword
    · rw [if_neg hbottom]
      have hfield : (unpackExponent bits).toNat < 2047 := by
        have hne : (unpackExponent bits).toNat ≠ 2047 := fun h => htop (BitVec.eq_of_toNat_eq h)
        have : (unpackExponent bits).toNat < 2048 := (unpackExponent bits).isLt
        omega
      have hlead : (1#1 ++ unpackMantissa bits).toNat = 2 ^ 52 + (unpackMantissa bits).toNat := by
        rw [BitVec.toNat_append]
        exact (Nat.two_pow_add_eq_or_of_lt hlt 1).symm
      simp only [hlead]
      refine (pack_normal _ _ hlt hfield rfl).trans (joined_fields ?_ hword)
      exact BitVec.eq_of_toNat_eq (by simp)

theorem ofBits_toBits (x : Float) : Float.ofBits x.toBits = x := by
  rcases x with ⟨⟨bits, hv⟩⟩
  have hbits : UInt64.ofBitVec (UnpackedFloat.pack Format.binary64 (UnpackedFloat.unpack Format.binary64 bits.toBitVec)) =
      bits := by
    rw [pack_unpack hv]
  simpa only [Float.ofBits, Float.toBits, Float.Model.ofBits, Float.Model.pack, Float.ofModel.injEq,
    Float.Model.mk.injEq] using hbits

theorem toBits_ofBits {bits : UInt64} (hv : Format.binary64.Valid bits.toBitVec) : (Float.ofBits bits).toBits = bits :=
  UInt64.toBitVec_inj.mp (pack_unpack hv)

end Patterns

theorem pow2_eq (n : Nat) : pow2 n = 2 ^ n := rfl

theorem pow2_pos (n : Nat) : 0 < pow2 n := Nat.two_pow_pos n

theorem signBit_eq : signBit = 2 ^ 63 := rfl

theorem infiniteCode_eq : infiniteCode = 2047 * 2 ^ 52 := rfl

/-- The mantissas and shifts that doubles have: the leading bit is there, unless the shift is zero. -/
structure IsMagnitude (mantissa shift : Nat) : Prop where
  small : mantissa < 2 ^ 53
  leading : shift ≠ 0 → 2 ^ 52 ≤ mantissa
  finite : shift * 2 ^ 52 + mantissa < infiniteCode

theorem ofCode_self (x : Float) :
    ofCode (decide (signBit ≤ x.toBits.toNat)) (x.toBits.toNat % signBit) = x := by
  have hbits : x.toBits.toNat < 2 ^ 64 := x.toBits.toNat_lt
  have hback : Float.ofBits (UInt64.ofNat x.toBits.toNat) = x := by rw [UInt64.ofNat_toNat, ofBits_toBits]
  generalize x.toBits.toNat = bits at hbits hback ⊢
  have hsum : (if decide (signBit ≤ bits) = true then signBit else 0) + bits % signBit = bits := by
    rw [signBit_eq]
    by_cases hle : 2 ^ 63 ≤ bits
    · rw [if_pos (by simpa using hle)]
      omega
    · rw [if_neg (by simpa using hle)]
      omega
  rw [ofCode, hsum, hback]

theorem ofFloat_finite {x : Float} {negative : Bool} {mantissa shift : Nat}
    (h : Binary.ofFloat x = .finite negative mantissa shift) :
    IsMagnitude mantissa shift ∧ ofCode negative (shift * 2 ^ 52 + mantissa) = x := by
  have hself := ofCode_self x
  unfold Binary.ofFloat at h
  dsimp only at h
  generalize x.toBits.toNat % signBit = code at h hself
  have hsame {other : Nat} (hother : other = code) : ofCode (decide (signBit ≤ x.toBits.toNat)) other = x := by
    rw [hother, hself]
  by_cases hnan : infiniteCode < code
  · rw [if_pos hnan] at h
    cases h
  rw [if_neg hnan] at h
  by_cases hinf : code = infiniteCode
  · rw [if_pos hinf] at h
    cases h
  rw [if_neg hinf] at h
  have hcode : code < infiniteCode := by omega
  by_cases hlow : code / pow2 52 = 0
  · rw [if_pos hlow] at h
    cases h
    rw [pow2_eq] at hlow ⊢
    exact ⟨⟨by omega, by omega, by omega⟩, hsame (by omega)⟩
  · rw [if_neg hlow] at h
    cases h
    rw [pow2_eq] at hlow ⊢
    exact ⟨⟨by omega, by omega, by omega⟩, hsame (by omega)⟩

theorem ofFloat_infinite {x : Float} {negative : Bool} (h : Binary.ofFloat x = .infinite negative) :
    x = infinity negative := by
  have hself := ofCode_self x
  unfold Binary.ofFloat at h
  dsimp only at h
  split_ifs at h with hnan hinf
  cases h
  rw [hinf] at hself
  exact hself.symm

theorem ofFloat_nan {x : Float} (h : Binary.ofFloat x = .nan) : x = notANumber := by
  have hcode : infiniteCode < x.toBits.toNat % signBit := by
    unfold Binary.ofFloat at h
    dsimp only at h
    split_ifs at h with hnan
    exact hnan
  rw [infiniteCode_eq, signBit_eq] at hcode
  have hback := ofBits_toBits x
  rcases x with ⟨⟨bits, hv⟩⟩
  change 2047 * 2 ^ 52 < bits.toBitVec.toNat % 2 ^ 63 at hcode
  have hlt := bits.toBitVec.isLt
  have hexponent : @Float.Model.UnpackedFloat.unpackExponent .binary64 bits.toBitVec = -1#11 := by
    apply BitVec.eq_of_toNat_eq
    change (bits.toBitVec.toNat >>> 52) % 2 ^ 11 = 2047
    rw [Nat.shiftRight_eq_div_pow]
    omega
  have hmantissa : @Float.Model.UnpackedFloat.unpackMantissa .binary64 bits.toBitVec ≠ 0#52 := by
    intro hzero
    have hnat : (bits.toBitVec.toNat >>> 0) % 2 ^ 52 = 0 := congrArg BitVec.toNat hzero
    rw [Nat.shiftRight_zero] at hnat
    omega
  have hbits : bits = 0x7ff8000000000000 := by
    rw [← UInt64.ofBitVec_toBitVec bits, hv.eq_packedNaN hexponent hmantissa]
    rfl
  exact hback.symm.trans (congrArg Float.ofBits hbits)

/-- Up to the infinite one a pattern comes back from its double, below the sign. -/
theorem toBits_ofCode {code : Nat} (negative : Bool) (h : code ≤ infiniteCode) :
    (ofCode negative code).toBits.toNat = (if negative then signBit else 0) + code := by
  have hsmall : (if negative then signBit else 0) + code < 2 ^ 64 := by
    rw [infiniteCode_eq] at h
    rw [signBit_eq]
    split <;> omega
  -- The fields below the sign do not depend on it.
  have hfield : ((if negative then signBit else 0) + code) / 2 ^ 52 % 2 ^ 11 = code / 2 ^ 52 ∧
      ((if negative then signBit else 0) + code) % 2 ^ 52 = code % 2 ^ 52 := by
    rw [infiniteCode_eq] at h
    rw [signBit_eq]
    split <;> omega
  rw [infiniteCode_eq] at h
  unfold ofCode
  generalize (if negative = true then signBit else 0) + code = bits at hsmall hfield ⊢
  have hbits : (UInt64.ofNat bits).toBitVec.toNat = bits := Nat.mod_eq_of_lt hsmall
  rw [toBits_ofBits]
  · exact hbits
  · constructor
    intro hexponent hmantissa
    have htop : (UInt64.ofNat bits).toBitVec.toNat >>> 52 % 2 ^ 11 = 2047 := congrArg BitVec.toNat hexponent
    rw [hbits, Nat.shiftRight_eq_div_pow, hfield.1] at htop
    refine absurd (BitVec.eq_of_toNat_eq ?_) hmantissa
    change (UInt64.ofNat bits).toBitVec.toNat >>> 0 % 2 ^ 52 = 0
    rw [hbits, Nat.shiftRight_zero, hfield.2]
    omega

theorem signed_code {code : Nat} (negative : Bool) (h : code ≤ infiniteCode) :
    decide (signBit ≤ (if negative then signBit else 0) + code) = negative ∧
      ((if negative then signBit else 0) + code) % signBit = code := by
  have hsmall : code < signBit := Nat.lt_of_le_of_lt h (by decide)
  cases negative with
  | true => exact ⟨decide_eq_true (Nat.le_add_right _ _), (Nat.add_mod_left _ _).trans (Nat.mod_eq_of_lt hsmall)⟩
  | false =>
    refine ⟨decide_eq_false (by simpa using hsmall), ?_⟩
    exact (congrArg (· % signBit) (Nat.zero_add code)).trans (Nat.mod_eq_of_lt hsmall)

/-- A pattern is that of a finite number or of infinity, with the sign it is given. -/
theorem ofFloat_ofCode {code : Nat} (negative : Bool) (h : code ≤ infiniteCode) :
    (∃ mantissa shift, Binary.ofFloat (ofCode negative code) = .finite negative mantissa shift) ∨
      Binary.ofFloat (ofCode negative code) = .infinite negative := by
  obtain ⟨hsign, hcode⟩ := signed_code negative h
  unfold Binary.ofFloat
  dsimp only
  rw [toBits_ofCode negative h, hcode, hsign, if_neg (Nat.not_lt.mpr h)]
  split_ifs
  · exact Or.inr rfl
  · exact Or.inl ⟨_, _, rfl⟩
  · exact Or.inl ⟨_, _, rfl⟩

end NoteFormula.Decimal

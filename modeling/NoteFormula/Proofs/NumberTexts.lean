import NoteFormula.Proofs.CanonicalSource
import NoteFormula.Proofs.Numerals

/-! # Texts of numbers

Every layout writes a finite double as a numeral of one and the same decimal, the shortest one for the double. The place
of its point says between which powers of ten it lies, and so when an exponent is written. Layouts without tails write
no character that could be left out.
-/
namespace NoteFormula.Decimal

open Text

section Digits

variable {c : Char} {n : Nat} {digits : List Char}

theorem ten_dvd_ofDigits (hne : digits ≠ []) (hd : ∀ c ∈ digits, isDigit c) (h : 10 ∣ ofDigits digits) :
    digits.getLast? = some '0' := by
  obtain ⟨init, c, rfl⟩ := (List.eq_nil_or_concat' digits).resolve_left hne
  have hc := isDigit_iff.mp (hd c (by simp))
  rw [ofDigits_append, ofDigits_singleton, List.length_singleton, pow_one] at h
  have hzero : c.toNat = 48 := by omega
  rw [List.getLast?_concat]
  exact congrArg some (Char.toNat_inj.mp hzero)

theorem decimalDigits_bounds (h : n ≠ 0) :
    10 ^ ((decimalDigits n).length - 1) ≤ n ∧ n < 10 ^ (decimalDigits n).length := by
  have hpos : 0 < (decimalDigits n).length := Nat.length_toDigits_pos
  refine ⟨?_, (Nat.length_toDigits_le_iff (by decide) hpos).mp (Nat.le_refl _)⟩
  by_contra hsmall
  rcases Nat.eq_zero_or_pos ((decimalDigits n).length - 1) with hone | hmore
  · rw [hone] at hsmall
    omega
  · have hle : (decimalDigits n).length ≤ (decimalDigits n).length - 1 :=
      (Nat.length_toDigits_le_iff (by decide) hmore).mpr (Nat.lt_of_not_le hsmall)
    omega

end Digits

section Magnitude

variable {d : Decimal}

/-- The point stands where the powers of ten pass the decimal. -/
theorem value_bounds (h : d.digits ≠ 0) : (10 : ℚ) ^ (d.point - 1) ≤ d.value ∧ d.value < 10 ^ d.point := by
  obtain ⟨hlow, hhigh⟩ := decimalDigits_bounds h
  have hpos : 0 < (decimalDigits d.digits).length := Nat.length_toDigits_pos
  have hpower : (0 : ℚ) < 10 ^ d.exponent := zpow_pos (by norm_num) _
  unfold value point
  constructor
  · have hcut : ((decimalDigits d.digits).length : ℤ) + d.exponent - 1 =
        ((decimalDigits d.digits).length - 1 : ℕ) + d.exponent := by omega
    rw [hcut, zpow_add₀ (by norm_num), zpow_natCast]
    gcongr
    exact_mod_cast hlow
  · rw [zpow_add₀ (by norm_num), zpow_natCast]
    gcongr
    exact_mod_cast hhigh

theorem value_lt_iff (h : d.digits ≠ 0) (k : ℤ) : d.value < 10 ^ k ↔ d.point ≤ k := by
  obtain ⟨hlow, hhigh⟩ := value_bounds h
  constructor
  · intro hlt
    have := (zpow_lt_zpow_iff_right₀ (by norm_num : (1 : ℚ) < 10)).mp (hlow.trans_lt hlt)
    omega
  · intro hle
    exact hhigh.trans_le (zpow_le_zpow_right₀ (by norm_num) hle)

theorem value_pos (h : d.digits ≠ 0) : 0 < d.value :=
  (zpow_pos (by norm_num) _).trans_le (value_bounds h).1

end Magnitude

section Written

variable {L : Layout} {m : Mantissa} {negative : Bool}

def Layout.exponentParts (L : Layout) (power : Int) : Bool × List Char :=
  (decide (power < 0), padLeft L.exponentWidth (decimalDigits power.natAbs))

theorem exponentSpelling_exponentParts (power : Option Int) :
    Numeral.exponentSpelling (power.map L.exponentParts) = power.elim [] L.exponentText := by
  cases power with
  | none => rfl
  | some power => simp [Numeral.exponentSpelling, Layout.exponentParts, Layout.exponentText]

theorem power_exponentParts (power : Option Int) :
    (⟨negative, m, power.map L.exponentParts⟩ : Numeral).power = power.getD 0 := by
  cases power with
  | none => rfl
  | some power =>
    simp only [Numeral.power, Option.map_some, Layout.exponentParts, Option.getD_some, ofDigits_padLeft]
    by_cases hnegative : power < 0
    · simp only [hnegative, decide_true, if_true]
      omega
    · simp only [hnegative, decide_false, Bool.false_eq_true, if_false]
      omega

theorem wellFormed_exponentParts (hm : m.Plain) (power : Option Int) :
    (⟨negative, m, power.map L.exponentParts⟩ : Numeral).WellFormed where
  mantissa := hm.toWritten
  point := hm.point
  exponent := by
    rintro negative digits h
    obtain ⟨power, -, hparts⟩ := Option.map_eq_some_iff.mp h
    cases hparts
    exact ⟨padLeft_ne_nil _ _, padLeft_isDigit _ _⟩

/-- A layout that writes no character that could be left out: no tails, no padding, and one digit before the point
without an exponent. -/
structure Layout.Sparing (L : Layout) : Prop extends L.Bare where
  width : L.exponentWidth ≤ 1
  one : L.isPositional 1 = true

/-- A fraction that does not end with a zero belongs to no integer. -/
theorem Mantissa.Written.fraction_eq_none (hm : m.Written) (hpoint : m.fraction ≠ some [])
    (hlast : ∀ digits, m.fraction = some digits → digits.getLast? ≠ some '0') {k : ℤ}
    (h : (m.decimal 0).value = k) : m.fraction = none := by
  rcases m with ⟨whole, _ | digits⟩
  · rfl
  have hne : digits ≠ [] := fun hnil => hpoint (congrArg some hnil)
  have hlength : digits.length ≠ 0 := mt List.eq_nil_of_length_eq_zero hne
  have hwhole : (ofDigits (whole ++ digits) : ℤ) = k * 10 ^ digits.length := by
    have hscaled : (ofDigits (whole ++ digits) : ℚ) = k * 10 ^ digits.length := by
      rw [← h]
      simp [Mantissa.decimal, ofParts, value]
    exact_mod_cast hscaled
  have hten : (10 : ℤ) ∣ ofDigits (whole ++ digits) := by
    rw [hwhole]
    exact Dvd.dvd.mul_left (dvd_pow_self 10 hlength) k
  have hall : ∀ c ∈ whole ++ digits, isDigit c := List.forall_mem_append.mpr ⟨hm.whole, hm.fraction⟩
  have hzero := ten_dvd_ofDigits (by simp [hne]) hall (Int.natCast_dvd_natCast.mp hten)
  rw [List.getLast?_append_of_ne_nil _ hne] at hzero
  exact absurd hzero (hlast digits rfl)

variable {x : Float} {mantissa shift : Nat}

/-- The power of ten is written without padding, because the point is elsewhere than after the first digit. -/
theorem Layout.Sparing.exponent_leading (hL : L.Sparing) {point : Int} {digits : List Char}
    (h : (L.powerAt point).map L.exponentParts = some (negative, digits)) : digits.head? ≠ some '0' := by
  obtain ⟨power, hpower, hparts⟩ := Option.map_eq_some_iff.mp h
  cases hparts
  have hzero : power ≠ 0 := by
    rintro rfl
    unfold powerAt at hpower
    split at hpower
    · cases hpower
    · rename_i hpositional
      have hone : point = 1 := by
        have := Option.some.inj hpower
        omega
      rw [hone] at hpositional
      exact hpositional hL.one
  have hwidth : L.exponentWidth - (decimalDigits power.natAbs).length = 0 := by
    have hpos : 0 < (decimalDigits power.natAbs).length := Nat.length_toDigits_pos
    have hle := hL.width
    omega
  rw [padLeft, hwidth, List.replicate_zero, List.nil_append]
  exact decimalDigits_leading (by omega)

/-- A mantissa of a positive decimal that begins with a zero has a fraction. -/
theorem Mantissa.fraction_ne_none {power : Int} (h : 0 < (m.decimal power).value) (hwhole : m.whole = ['0']) :
    m.fraction ≠ none := by
  intro hnone
  have hzero : ofDigits ['0'] = 0 := rfl
  simp [decimal, ofParts, value, hwhole, hnone, hzero] at h

/-- A layout writes a finite double other than zero as a numeral of the shortest decimal, with an exponent where the
point stands too far away. -/
theorem Layout.write_numeral (hL : L.Numeric) (hx : Binary.ofFloat x = .finite negative mantissa shift)
    (hne : mantissa ≠ 0) : ∃ n : Numeral, n.WellFormed ∧ n.spelling = L.write x ∧
      n.value = (if negative then -1 else 1) * (shortest mantissa shift).value ∧
      (n.exponent = none ↔ L.isPositional (shortest mantissa shift).point = true) ∧ (L.Sparing → n.Tidy) := by
  obtain ⟨hmagnitude, -⟩ := ofFloat_finite hx
  have hdigits := shortest_digits_ne_zero hmagnitude hne
  have hwrite : L.write x = (if negative then ['-'] else []) ++ L.decimal (shortest mantissa shift) := by
    simp [L.write_finite hx, hne]
  obtain ⟨m, hsets, hshows, hcloses⟩ := decimal_shows hL (shortest mantissa shift)
  have hm := hsets.plain (shortest_leading hmagnitude hne)
  generalize shortest mantissa shift = d at *
  have hvalue : (⟨negative, m, (L.powerAt d.point).map L.exponentParts⟩ : Numeral).value =
      (if negative then -1 else 1) * d.value := by
    rw [Numeral.value, power_exponentParts, hshows.value]
  refine ⟨⟨negative, m, (L.powerAt d.point).map L.exponentParts⟩, wellFormed_exponentParts hm _, ?_, hvalue, ?_, ?_⟩
  · rw [Numeral.spelling, exponentSpelling_exponentParts, hwrite, hshows.spelling]
  · simp [powerAt]
  intro hsparing
  have hlast (digits : List Char) (hfraction : m.fraction = some digits) : digits.getLast? ≠ some '0' := by
    rw [hcloses hsparing.toBare digits hfraction]
    exact significant_getLast? hdigits
  refine ⟨?_, hlast, ?_, ?_⟩
  · intro hhead
    have hwhole := hm.leading.resolve_right fun hother => hother hhead
    exact ⟨hwhole, Mantissa.fraction_ne_none (hshows.value ▸ value_pos hdigits) hwhole⟩
  · rintro hnone ⟨k, hk⟩
    have hpower : L.powerAt d.point = none := Option.map_eq_none_iff.mp hnone
    have hplain : (m.decimal 0).value = d.value := by
      have hshown := hshows.value
      rwa [hpower, Option.getD_none] at hshown
    have hdecimal : (m.decimal 0).value = ((if negative then -1 else 1) * k : ℤ) := by
      rw [hvalue] at hk
      push_cast
      rw [hplain, ← hk]
      cases negative <;> simp
    exact hm.fraction_eq_none hm.point hlast hdecimal
  · intro sign digits hparts
    exact hsparing.exponent_leading hparts

/-- A sign that a layout leaves out is that of a zero. -/
theorem signed_shortest (L : Layout) (negative : Bool) (mantissa shift : Nat) :
    (if negative && (L.signedZero || mantissa != 0) then -1 else 1) * (shortest mantissa shift).value =
      (if negative then -1 else 1) * (shortest mantissa shift).value := by
  by_cases hzero : mantissa = 0
  · have hvalue : (shortest mantissa shift).value = 0 := by simp [shortest, hzero, value]
    rw [hvalue, mul_zero, mul_zero]
  · simp [hzero]

/-- Every layout writes a finite double, also a zero, as a numeral of its shortest decimal. -/
theorem Layout.write_spells (hL : L.Numeric) (hx : Binary.ofFloat x = .finite negative mantissa shift) :
    Spells (L.write x) ((if negative then -1 else 1) * (shortest mantissa shift).value) := by
  obtain ⟨m, power, text, hwrite, hm, hshows, -⟩ := write_shows hL hx
  refine ⟨⟨negative && (L.signedZero || mantissa != 0), m, power.map L.exponentParts⟩, wellFormed_exponentParts hm power,
    ?_, ?_⟩
  · rw [Numeral.spelling, exponentSpelling_exponentParts, hwrite, hshows.spelling]
  · rw [Numeral.value, power_exponentParts, hshows.value]
    exact signed_shortest L negative mantissa shift

end Written

section Texts

variable {x : Float} {negative : Bool} {mantissa shift : Nat}

theorem sparing_note : Layout.note.Sparing := ⟨bare_note, by decide, rfl⟩

theorem sparing_unfolded : Layout.unfolded.Sparing := ⟨⟨rfl, rfl⟩, by decide, rfl⟩

/-- The text of a finite double is read to its end and gives the double back, unless the sign of a zero is lost. -/
theorem numeral?_toText (hx : Binary.ofFloat x = .finite negative mantissa shift) (hne : mantissa ≠ 0) :
    numeral? (trimLeft (Value.toText (.float x)).toList) = some (x, []) := by
  have htext : (Value.toText (.float x)).toList = Layout.note.write x := by
    rw [Value.toText, String.toList_ofList, noteText_eq_write]
  obtain ⟨htrim, y, hread, hy⟩ := numeral?_write bare_note.numeric hx
  have hnonzero : (mantissa != 0) = true := bne_iff_ne.mpr hne
  rw [hnonzero, Bool.or_true, Bool.and_true] at hy
  rw [htext, htrim, hread, ← (ofFloat_finite hx).2, ← (ofFloat_finite hy).2]

theorem tokenize_source (hx : Binary.ofFloat x = .finite false mantissa shift) :
    ∃ t, Token.tokenize (String.ofList (Value.source (.float x))) = .ok [t, .eof] ∧ t.kind = .number ∧
      t.value = .float x := by
  have hsource : Value.source (.float x) = Layout.unfolded.write x := by
    rw [← formulaText_eq_write hx, Value.source, sourceFloat, hx]
  obtain ⟨m, hm, hspelling, hback⟩ := unfolded_write hx
  have hscanned : Token.Scanned m.spelling [Token.ofMantissa m] [] := Token.scanned_number hm (by simp)
  rw [hspelling] at hscanned
  refine ⟨Token.ofMantissa m, ?_, rfl, congrArg Value.float hback⟩
  rw [hsource]
  exact hscanned.tokenize

/-- A note's number has an exponent below a millionth and from the twenty-first power of ten on. -/
theorem note_positional_iff {d : Decimal} (h : d.digits ≠ 0) :
    Layout.note.isPositional d.point = true ↔ ¬ (d.value < 10 ^ (-6 : ℤ) ∨ 10 ^ (21 : ℤ) ≤ d.value) := by
  rw [note_isPositional, ← not_lt (a := d.value), value_lt_iff h, value_lt_iff h]
  omega

theorem abs_signed {r : ℚ} (h : 0 < r) : |(if negative then -1 else 1) * r| = r := by
  cases negative <;> simp [abs_of_pos h]

/-- The texts of a finite double other than zero spell one number, that of its text with a fraction: tidily in a note,
with an exponent exactly if it is tiny or huge, and never with one in a formula. -/
theorem number_texts_exact (hx : Binary.ofFloat x = .finite negative mantissa shift) (hne : mantissa ≠ 0) :
    ∃ R : ℚ, (∀ q, Spells (Value.floatText x).toList q ↔ q = R) ∧
      (∃ n : Numeral, n.WellFormed ∧ n.spelling = (Value.toText (.float x)).toList ∧ n.value = R ∧ n.Tidy ∧
        (n.exponent ≠ none ↔ |R| < 10 ^ (-6 : ℤ) ∨ 10 ^ (21 : ℤ) ≤ |R|)) ∧
      numeral? (trimLeft (Value.toText (.float x)).toList) = some (x, []) ∧
      ∃ text, (Formula.literal (.float x)).sourceString = .ok text ∧
        (∃ n : Numeral, n.WellFormed ∧ n.spelling = text.toList ∧ n.value = R ∧ n.exponent = none) ∧
        (negative = false → ∃ t, Token.tokenize text = .ok [t, .eof] ∧ t.kind = .number ∧ t.value = .float x) := by
  have hdigits := shortest_digits_ne_zero (ofFloat_finite hx).1 hne
  obtain ⟨plain, hplain, hplainText, hplainValue, -⟩ := Layout.write_numeral numeric_plain hx hne
  obtain ⟨note, hnote, hnoteText, hnoteValue, hexponent, htidy⟩ := Layout.write_numeral bare_note.numeric hx hne
  obtain ⟨whole, hwhole, hwholeText, hwholeValue, hnone, -⟩ := Layout.write_numeral sparing_unfolded.numeric hx hne
  generalize hR : (if negative then -1 else 1) * (shortest mantissa shift).value = R at *
  refine ⟨R, fun q => ?_, ⟨note, hnote, ?_, hnoteValue, htidy sparing_note, ?_⟩, numeral?_toText hx hne, _, rfl,
    ⟨whole, hwhole, ?_, hwholeValue, hnone.mpr rfl⟩, ?_⟩
  · have hspells : Spells (Value.floatText x).toList R := by
      refine ⟨plain, hplain, ?_, hplainValue⟩
      rw [hplainText, Value.floatText, String.toList_ofList]
    constructor
    · intro h
      exact h.unique hspells
    · rintro rfl
      exact hspells
  · rw [hnoteText, Value.toText, String.toList_ofList, noteText_eq_write]
  · rw [← hR, abs_signed (value_pos hdigits), ne_eq, hexponent, note_positional_iff hdigits, not_not]
  · rw [hwholeText, String.toList_ofList, ← formulaText_eq_write hx, Value.source, sourceFloat, hx]
  · rintro rfl
    exact tokenize_source hx

/-- The first power of ten with an exponent. -/
theorem exponent_from_sextillion :
    let x := Float.ofBits 0x444b1ae4d6e2ef50
    Binary.ofFloat x = .finite false (2 ^ 52 + 0xb1ae4d6e2ef50) 1091 ∧ 2 ^ 52 + 0xb1ae4d6e2ef50 ≠ 0 ∧
      ∃ n : Numeral, n.spelling = "1e+21".toList ∧ n.Tidy ∧ Spells (Value.floatText x).toList n.value ∧
        ∃ t, Token.tokenize "1000000000000000000000" = .ok [t, .eof] ∧ t.value = .float x := by
  intro x
  have hx : Binary.ofFloat x = .finite false (2 ^ 52 + 0xb1ae4d6e2ef50) 1091 := by decide +kernel
  have hne : 2 ^ 52 + 0xb1ae4d6e2ef50 ≠ 0 := by decide
  have hnote : (Value.toText (.float x)).toList = "1e+21".toList := by decide +kernel
  have hsource : Value.source (.float x) = "1000000000000000000000".toList := by decide +kernel
  obtain ⟨R, hR, ⟨n, -, hspelling, rfl, htidy, -⟩, -, text, htext, -, htoken⟩ := number_texts_exact hx hne
  obtain ⟨t, ht, -, hvalue⟩ := htoken rfl
  obtain rfl : "1000000000000000000000" = text := by
    have hsame := Except.ok.inj htext
    rw [hsource] at hsame
    exact hsame
  exact ⟨hx, hne, n, hspelling.trans hnote, htidy, (hR _).mpr rfl, t, ht, hvalue⟩

end Texts

end NoteFormula.Decimal

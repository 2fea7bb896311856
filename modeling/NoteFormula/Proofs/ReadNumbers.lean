import NoteFormula.Proofs.JsonNumbers
import NoteFormula.Proofs.LeadingNumbers
import NoteFormula.Proofs.SignedDoubles

/-! # Numbers read back

The text of a number is one numeral from end to end, and the number comes back from it: of an integer its nearest
double, of a finite double that double itself. Only the sign of a zero is lost where the layout does not show it.
-/
namespace NoteFormula.Decimal

open Text

variable {L : Layout} {m : Mantissa} {cs : List Char}

theorem trimLeft_signed (hm : m.Written) (negative : Bool) :
    trimLeft ((if negative then ['-'] else []) ++ (m.spelling ++ cs)) =
      (if negative then ['-'] else []) ++ (m.spelling ++ cs) := by
  obtain ⟨c, ds, hspelling, hc⟩ := hm.spelling_cons
  rw [hspelling]
  cases negative with
  | true => rfl
  | false => exact trimLeft_digit hc _

theorem sign_signed (hm : m.Written) (negative : Bool) :
    sign ((if negative then ['-'] else []) ++ (m.spelling ++ cs)) = (negative, m.spelling ++ cs) := by
  obtain ⟨c, ds, hspelling, hc⟩ := hm.spelling_cons
  cases negative with
  | true => rfl
  | false =>
    rw [hspelling]
    exact sign_cons (ne_of_isDigit hc rfl) (ne_of_isDigit hc rfl)

theorem read?_exponent (hm : m.Written) (power : Option Int) :
    Mantissa.read? (m.spelling ++ power.elim [] L.exponentText) = some (m, power.elim [] L.exponentText) := by
  apply hm.read?_spelling
  cases power with
  | none => simp
  | some power =>
    rintro d ⟨⟩
    decide

theorem exponentPart_elim (power : Option Int) : exponentPart (power.elim [] L.exponentText) = (power.getD 0, []) := by
  cases power with
  | none => rfl
  | some power =>
    have hwhole : exponentPart (L.exponentText power ++ []) = (power, []) := exponentPart_exponentText power (by simp)
    rwa [List.append_nil] at hwhole

/-- A mantissa with a sign before it and an exponent after it is read to its end. -/
theorem numeral?_signed (hm : m.Written) (negative : Bool) (power : Option Int) :
    numeral? ((if negative then ['-'] else []) ++ (m.spelling ++ power.elim [] L.exponentText)) =
      some ((m.decimal (power.getD 0)).toFloat negative, []) := by
  obtain ⟨c, cs, hspelling, hc⟩ := hm.spelling_cons
  have hword : "Infinity".toList.isPrefixOf (m.spelling ++ power.elim [] L.exponentText) = false := by
    have hne : 'I' ≠ c := (ne_of_isDigit hc rfl).symm
    rw [hspelling]
    simp [List.isPrefixOf, hne]
  rw [numeral?_eq, sign_signed hm, hword, read?_exponent hm, if_neg Bool.false_ne_true, Option.map_some]
  dsimp only
  rw [exponentPart_elim]

theorem parseNumber_signed (hm : m.Written) (negative : Bool) (power : Option Int) :
    Value.parseNumber (String.ofList ((if negative then ['-'] else []) ++ (m.spelling ++ power.elim [] L.exponentText))) =
      (m.decimal (power.getD 0)).toFloat negative := by
  unfold Value.parseNumber leadingNumber?
  rw [String.toList_ofList, trimLeft_signed hm, numeral?_signed hm]
  rfl

theorem decimalDigits_written (n : Nat) : (⟨decimalDigits n, none⟩ : Mantissa).Written where
  nonempty := Nat.toDigits_ne_nil
  whole := decimalDigits_isDigit
  fraction := by simp

theorem parseNumber_intText (n : Int) : Value.parseNumber (Value.intText n) = ofInt n := by
  have hread := parseNumber_signed (L := .plain) (decimalDigits_written n.natAbs) (decide (n < 0)) none
  have hdigits : ofDigits (decimalDigits n.natAbs) = n.natAbs := Nat.ofDigitChars_ten_toDigits
  have hcode : ((⟨decimalDigits n.natAbs, none⟩ : Mantissa).decimal 0).code =
      nearestCode (n.natAbs * grainsPerOne) 1 := by
    rw [code_eq]
    simp [Mantissa.decimal, ofParts, hdigits]
  rw [← decimalInt_eq] at hread
  rw [Value.intText, hread, toFloat, Option.getD_none, hcode]
  rfl

/-- The text of a finite double, in any layout, is read to its end, and as this double but for the sign of a zero. -/
theorem numeral?_write (hL : L.Numeric) {x : Float} {negative : Bool} {mantissa shift : Nat}
    (h : Binary.ofFloat x = .finite negative mantissa shift) :
    trimLeft (L.write x) = L.write x ∧ ∃ y, numeral? (L.write x) = some (y, []) ∧
      Binary.ofFloat y = .finite (negative && (L.signedZero || mantissa != 0)) mantissa shift := by
  obtain ⟨hmagnitude, -⟩ := ofFloat_finite h
  obtain ⟨m, power, text, hwrite, hm, hshows, -⟩ := Layout.write_shows hL h
  rw [hwrite, hshows.spelling, trimLeft_signed hm.toWritten, numeral?_signed hm.toWritten]
  refine ⟨rfl, _, rfl, ?_⟩
  rw [toFloat, code_of_value hshows.value, shortest_code hmagnitude, ofFloat_magnitude _ hmagnitude]

end NoteFormula.Decimal

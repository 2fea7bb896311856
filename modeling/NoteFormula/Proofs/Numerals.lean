import NoteFormula.Proofs.ReadNumbers

/-! # Numerals and what they spell

A decimal numeral by its parts, and the number that it spells. A text is the spelling of one numeral at most, so it
spells one number at most. Numerals with the fewest characters for their layout are tidy.
-/
namespace NoteFormula.Decimal

open Text

structure Numeral where
  negative : Bool
  mantissa : Mantissa
  exponent : Option (Bool × List Char)

namespace Numeral

def exponentSpelling : Option (Bool × List Char) → List Char
  | none => []
  | some (negative, digits) => 'e' :: (if negative then '-' else '+') :: digits

def spelling (n : Numeral) : List Char :=
  (if n.negative then ['-'] else []) ++ (n.mantissa.spelling ++ exponentSpelling n.exponent)

def power (n : Numeral) : Int :=
  match n.exponent with
  | none => 0
  | some (negative, digits) => if negative then -(ofDigits digits : Int) else ofDigits digits

def value (n : Numeral) : ℚ := (if n.negative then -1 else 1) * (n.mantissa.decimal n.power).value

structure WellFormed (n : Numeral) : Prop where
  mantissa : n.mantissa.Written
  point : n.mantissa.fraction ≠ some []
  exponent : ∀ negative digits, n.exponent = some (negative, digits) → digits ≠ [] ∧ ∀ c ∈ digits, isDigit c

/-- No character could be left out: no zero in front but one before the point, none at the end of a fraction, no
fraction of an integer that has no exponent, and no padding in an exponent. -/
structure Tidy (n : Numeral) : Prop where
  whole : n.mantissa.whole.head? = some '0' → n.mantissa.whole = ['0'] ∧ n.mantissa.fraction ≠ none
  fraction : ∀ digits, n.mantissa.fraction = some digits → digits.getLast? ≠ some '0'
  integral : n.exponent = none → (∃ k : ℤ, n.value = k) → n.mantissa.fraction = none
  exponent : ∀ negative digits, n.exponent = some (negative, digits) → digits.head? ≠ some '0'

variable {m n : Numeral}

theorem exponentSpelling_injective {a b : Option (Bool × List Char)} (h : exponentSpelling a = exponentSpelling b) :
    a = b := by
  rcases a with _ | ⟨negative, digits⟩ <;> rcases b with _ | ⟨negative', digits'⟩
  · rfl
  · cases h
  · cases h
  · simp only [exponentSpelling, List.cons.injEq, true_and] at h
    obtain ⟨hsign, rfl⟩ := h
    cases negative <;> cases negative' <;> first | rfl | cases hsign

/-- The spelling tells all parts of a numeral. -/
theorem spelling_injective (hm : m.WellFormed) (hn : n.WellFormed) (h : m.spelling = n.spelling) : m = n := by
  have hend (e : Option (Bool × List Char)) : ∀ c ∈ (exponentSpelling e).head?, ¬ isDigit c ∧ c ≠ '.' := by
    rcases e with _ | ⟨negative, digits⟩
    · simp [exponentSpelling]
    · rintro c ⟨⟩
      decide
  have hsign := congrArg sign h
  unfold spelling at hsign
  rw [sign_signed hm.mantissa, sign_signed hn.mantissa] at hsign
  obtain ⟨hnegative, hunsigned⟩ := Prod.mk.inj hsign
  have hread := congrArg Mantissa.read? hunsigned
  rw [hm.mantissa.read?_spelling (hend _), hn.mantissa.read?_spelling (hend _)] at hread
  obtain ⟨hmantissa, hexponent⟩ := Prod.mk.inj (Option.some.inj hread)
  rcases m with ⟨negative, mantissa, exponent⟩
  rcases n with ⟨negative', mantissa', exponent'⟩
  simp only at hnegative hmantissa hexponent
  rw [hnegative, hmantissa, exponentSpelling_injective hexponent]

end Numeral

def Spells (text : List Char) (value : ℚ) : Prop := ∃ n : Numeral, n.WellFormed ∧ n.spelling = text ∧ n.value = value

theorem Spells.unique {text : List Char} {a b : ℚ} (ha : Spells text a) (hb : Spells text b) : a = b := by
  obtain ⟨m, hm, hms, rfl⟩ := ha
  obtain ⟨n, hn, hns, rfl⟩ := hb
  rw [Numeral.spelling_injective hm hn (hms.trans hns.symm)]

end NoteFormula.Decimal

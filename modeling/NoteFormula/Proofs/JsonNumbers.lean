import NoteFormula.Json.Document
import NoteFormula.Proofs.WrittenNumbers

/-! # Numbers in JSON

A numeral as a layout writes it is read whole where a value ends: digits, a fraction and an exponent, each up to
the first character that cannot belong to it.
-/
namespace NoteFormula

namespace Decimal

variable {L : Layout} {rest : List Char}

theorem ofDigits_padLeft (width n : Nat) : Text.ofDigits (Text.padLeft width (Text.decimalDigits n)) = n := by
  have hread : Text.ofDigits (Text.decimalDigits n) = n := Nat.ofDigitChars_ten_toDigits
  rw [Text.padLeft, ofDigits_append, ofDigits_replicate_zero, Nat.zero_mul, Nat.zero_add, hread]

theorem padLeft_isDigit (width n : Nat) : ∀ c ∈ Text.padLeft width (Text.decimalDigits n), Text.isDigit c :=
  List.forall_mem_append.mpr ⟨zeros_isDigit _, decimalDigits_isDigit⟩

theorem padLeft_ne_nil (width n : Nat) : Text.padLeft width (Text.decimalDigits n) ≠ [] := by
  have hdigits : Text.decimalDigits n ≠ [] := Nat.toDigits_ne_nil
  simp [Text.padLeft, hdigits]

/-- The text of an integer has the digits of its size, as a layout writes them without a fraction. -/
theorem decimalInt_eq (L : Layout) (n : Int) : Text.decimalInt n = (if decide (n < 0) then ['-'] else []) ++
    ((⟨Text.decimalDigits n.natAbs, none⟩ : Mantissa).spelling ++ Option.elim none [] L.exponentText) := by
  unfold Text.decimalInt
  by_cases hnegative : n < 0 <;> simp [hnegative, Mantissa.spelling]

theorem exponentPart_exponentText (power : Int) (hr : ∀ c ∈ rest.head?, ¬ Text.isDigit c) :
    exponentPart (L.exponentText power ++ rest) = (power, rest) := by
  obtain ⟨htake, hdrop⟩ := run_followed (padLeft_isDigit L.exponentWidth power.natAbs) hr
  have hvalue := ofDigits_padLeft L.exponentWidth power.natAbs
  obtain ⟨d, ds, hcons⟩ := List.exists_cons_of_ne_nil (padLeft_ne_nil L.exponentWidth power.natAbs)
  unfold Layout.exponentText
  rw [hcons] at htake hdrop hvalue ⊢
  have hread (negative : Bool) (h : sign ((if power < 0 then '-' else '+') :: (d :: ds ++ rest)) =
      (negative, d :: ds ++ rest)) (hpower : (if negative then -(power.natAbs : Int) else power.natAbs) = power) :
      exponentPart ('e' :: (if power < 0 then '-' else '+') :: (d :: ds ++ rest)) = (power, rest) := by
    unfold exponentPart
    dsimp only
    rw [if_pos (show (decide ('e' = 'e') || decide ('e' = 'E')) = true from rfl), h]
    dsimp only
    rw [htake, hdrop]
    dsimp only
    rw [hvalue, hpower]
  by_cases hnegative : power < 0
  · exact hread true (by rw [if_pos hnegative]; rfl) (by rw [if_pos rfl]; omega)
  · exact hread false (by rw [if_neg hnegative]; rfl) (by rw [if_neg (by decide)]; omega)

theorem exponentPart_none (hr : ∀ c ∈ rest.head?, c ≠ 'e' ∧ c ≠ 'E') : exponentPart rest = (0, rest) := by
  cases rest with
  | nil => rfl
  | cons c rest =>
    obtain ⟨hlower, hupper⟩ := hr c rfl
    exact if_neg (by simp [hlower, hupper])

end Decimal

namespace Json

def Ends (rest : List Char) : Prop := ∀ c ∈ rest.head?, c = ',' ∨ c = ']' ∨ c = '\x7d'

variable {rest whole ds cs : List Char} {m : Decimal.Mantissa} {L : Decimal.Layout}

theorem Ends.not_numeral (h : Ends rest) :
    ∀ c ∈ rest.head?, ¬ Text.isDigit c ∧ c ≠ '.' ∧ c ≠ 'e' ∧ c ≠ 'E' := by
  intro c hc
  rcases h c hc with rfl | rfl | rfl <;> decide

theorem wholePart?_append (hne : whole ≠ []) (hd : ∀ c ∈ whole, Text.isDigit c)
    (hl : whole = ['0'] ∨ whole.head? ≠ some '0') (hr : ∀ c ∈ rest.head?, ¬ Text.isDigit c) :
    wholePart? (whole ++ rest) = some (whole, rest) := by
  rcases hl with rfl | hl
  · rfl
  obtain ⟨htake, hdrop⟩ := Decimal.run_followed hd hr
  unfold wholePart?
  split
  · rename_i hcons
    rw [← List.head?_append_of_ne_nil whole hne, hcons] at hl
    exact absurd rfl hl
  · rw [htake, hdrop]
    cases whole with
    | nil => exact absurd rfl hne
    | cons c whole => rfl

theorem fractionPart_none (hr : ∀ c ∈ rest.head?, c ≠ '.') : fractionPart rest = (none, rest) := by
  unfold fractionPart
  split
  · exact absurd rfl (hr '.' rfl)
  · rfl

theorem fractionPart_some (hne : ds ≠ []) (hd : ∀ c ∈ ds, Text.isDigit c)
    (hr : ∀ c ∈ rest.head?, ¬ Text.isDigit c) : fractionPart ('.' :: ds ++ rest) = (some ds, rest) := by
  obtain ⟨htake, hdrop⟩ := Decimal.run_followed hd hr
  obtain ⟨d, ds, rfl⟩ := List.exists_cons_of_ne_nil hne
  unfold fractionPart
  simp only [List.cons_append] at htake hdrop ⊢
  rw [htake, hdrop]

theorem number?_of_parts {before after : List Char} {fraction : Option (List Char)} {power : Int}
    (hsign : ∀ c ∈ cs.head?, c ≠ '-') (hwhole : wholePart? cs = some (whole, ds))
    (hfraction : fractionPart ds = (fraction, before)) (hexponent : Decimal.exponentPart before = (power, after))
    (negative : Bool) : number? ((if negative then ['-'] else []) ++ cs) =
      some (⟨negative, whole, fraction, if after.length < before.length then some power else none⟩, after) := by
  unfold number?
  cases negative with
  | true =>
    change ((wholePart? cs).bind fun p => _) = _
    simp only [hwhole, Option.bind_some, hfraction, hexponent]
    rfl
  | false =>
    split
    rename_i negative unsigned heq
    split at heq
    · rename_i hcons
      exact absurd rfl (hsign '-' (by rw [show cs = '-' :: _ from hcons]; rfl))
    · cases heq
      change ((wholePart? cs).bind fun p => _) = _
      simp only [hwhole, Option.bind_some, hfraction, hexponent]
      rfl

theorem number?_numeral (hm : m.Plain) (negative : Bool) (power : Option Int) (hr : Ends rest) :
    number? ((if negative then ['-'] else []) ++ (m.spelling ++ power.elim [] L.exponentText ++ rest)) =
      some (⟨negative, m.whole, m.fraction, power⟩, rest) := by
  have hend := hr.not_numeral
  have hexponent : Decimal.exponentPart (power.elim [] L.exponentText ++ rest) = (power.getD 0, rest) := by
    cases power with
    | none => exact Decimal.exponentPart_none fun c hc => ⟨(hend c hc).2.2.1, (hend c hc).2.2.2⟩
    | some power => exact Decimal.exponentPart_exponentText power fun c hc => (hend c hc).1
  have hpower : (if rest.length < (power.elim [] L.exponentText ++ rest).length then some (power.getD 0) else none) =
      power := by
    cases power with
    | none => exact if_neg (Nat.lt_irrefl _)
    | some power => exact if_pos (by simp [Decimal.Layout.exponentText]; omega)
  have hafter : ∀ c ∈ (power.elim [] L.exponentText ++ rest).head?, ¬ Text.isDigit c ∧ c ≠ '.' := by
    cases power with
    | none => exact fun c hc => ⟨(hend c hc).1, (hend c hc).2.1⟩
    | some power =>
      rintro c ⟨⟩
      decide
  have hsign : ∀ c ∈ (m.spelling ++ power.elim [] L.exponentText ++ rest).head?, c ≠ '-' := by
    obtain ⟨c, cs, hspelling, hdigit⟩ := hm.spelling_cons
    rw [hspelling]
    rintro c ⟨⟩ rfl
    cases hdigit
  suffices h : number? ((if negative then ['-'] else []) ++ (m.spelling ++ power.elim [] L.exponentText ++ rest)) =
      some (⟨negative, m.whole, m.fraction, if rest.length < (power.elim [] L.exponentText ++ rest).length
        then some (power.getD 0) else none⟩, rest) by rwa [hpower] at h
  rcases m with ⟨whole, _ | fraction⟩
  · have hwhole := wholePart?_append hm.nonempty hm.whole hm.leading fun c hc => (hafter c hc).1
    rw [← List.append_assoc] at hwhole
    exact number?_of_parts hsign hwhole (fractionPart_none fun c hc => (hafter c hc).2) hexponent negative
  · have hne : fraction ≠ [] := fun hnil => hm.point (congrArg some hnil)
    have hpart := fractionPart_some hne hm.fraction fun c hc => (hafter c hc).1
    have hwhole : wholePart? (whole ++ ('.' :: fraction ++ (power.elim [] L.exponentText ++ rest))) = some (whole, _) :=
      wholePart?_append hm.nonempty hm.whole hm.leading (by rintro c ⟨⟩; decide)
    refine number?_of_parts hsign ?_ hpart hexponent negative
    rw [← hwhole]
    simp [Decimal.Mantissa.spelling]

/-- No keyword begins with a digit, also after a minus. -/
theorem scalar?_signed {c : Char} (hc : Text.isDigit c) (negative : Bool) (cs : List Char) :
    scalar? ((if negative then ['-'] else []) ++ c :: cs) =
      (number? ((if negative then ['-'] else []) ++ c :: cs)).map fun (n, rest) => (number n, rest) := by
  have hne (d : Char) (hd : Text.isDigit d = false) : d ≠ c := by
    rintro rfl
    rw [hd] at hc
    cases hc
  unfold scalar?
  cases negative <;>
    simp [keyword?, hne 'n' rfl, hne 't' rfl, hne 'f' rfl, hne 'N' rfl, hne 'I' rfl, hne '-' rfl]

end Json

end NoteFormula

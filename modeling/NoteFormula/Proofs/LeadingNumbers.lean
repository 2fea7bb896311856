import NoteFormula.Proofs.LoweredTexts
import NoteFormula.Proofs.WrittenNumbers
import NoteFormula.Value.Coercion

/-! # Leading numbers

Where a number begins in a text: after blanks and a sign, with a digit, or with a point and a digit. So the lower-case
form of a text begins with a number when the text itself does, unless that number is spelled in letters. The texts of
numbers begin with one, and what is read is always a number.
-/
namespace NoteFormula.Decimal

open Text

variable {cs : List Char} {c : Char}

def opensDigits : List Char → Bool
  | [] => false
  | '.' :: cs => cs.head?.any isDigit
  | c :: _ => isDigit c

def opens (cs : List Char) : Bool := opensDigits (sign (trimLeft cs)).2

def opensInfinity (cs : List Char) : Bool := "Infinity".toList.isPrefixOf (sign (trimLeft cs)).2

theorem ne_of_isDigit {d : Char} (hc : isDigit c = true) (hd : isDigit d = false) : c ≠ d := by
  rintro rfl
  rw [hc] at hd
  cases hd

theorem opensDigits_cons (hpoint : c ≠ '.') : opensDigits (c :: cs) = isDigit c := by
  unfold opensDigits
  split
  · rename_i h
    cases h
  · rename_i h
    exact absurd (List.cons.inj h).1 hpoint
  · rename_i h
    rw [(List.cons.inj h).1]

theorem sign_cons (hminus : c ≠ '-') (hplus : c ≠ '+') : sign (c :: cs) = (false, c :: cs) := by
  unfold sign
  split
  · rename_i h
    exact absurd (List.cons.inj h).1 hminus
  · rename_i h
    exact absurd (List.cons.inj h).1 hplus
  · rfl

theorem takeWhile_isEmpty (p : Char → Bool) (cs : List Char) : (cs.takeWhile p).isEmpty = !cs.head?.any p := by
  cases cs with
  | nil => rfl
  | cons c cs =>
    rw [List.takeWhile_cons]
    cases h : p c <;> simp [h]

theorem Mantissa.read?_isSome (cs : List Char) : (Mantissa.read? cs).isSome = opensDigits cs := by
  cases cs with
  | nil => rfl
  | cons c cs =>
    have hempty := takeWhile_isEmpty isDigit (c :: cs)
    unfold Mantissa.read?
    by_cases hdigit : isDigit c = true
    · rw [opensDigits_cons (ne_of_isDigit hdigit rfl), hdigit]
      simp only [hempty, List.head?_cons, Option.any_some, hdigit]
      split <;> rfl
    · rw [Bool.not_eq_true] at hdigit
      simp only [hempty, List.head?_cons, Option.any_some, hdigit, List.dropWhile_cons]
      by_cases hpoint : c = '.'
      · subst hpoint
        simp only [opensDigits, takeWhile_isEmpty, Bool.false_eq_true, if_false]
        cases cs.head?.any isDigit <;> rfl
      · rw [opensDigits_cons hpoint, hdigit]
        simp [hpoint]

theorem numeral?_eq (cs : List Char) : numeral? cs =
    if "Infinity".toList.isPrefixOf (sign cs).2 then some (infinity (sign cs).1, (sign cs).2.drop 8)
    else (Mantissa.read? (sign cs).2).map fun (mantissa, rest) =>
      ((mantissa.decimal (exponentPart rest).1).toFloat (sign cs).1, (exponentPart rest).2) := by
  unfold numeral?
  generalize sign cs = signed
  dsimp only
  split
  · rfl
  · cases Mantissa.read? signed.2 <;> rfl

theorem numeral?_isSome (h : "Infinity".toList.isPrefixOf (sign cs).2 = false) :
    (numeral? cs).isSome = opensDigits (sign cs).2 := by
  rw [numeral?_eq, h, if_neg Bool.false_ne_true, Option.isSome_map, Mantissa.read?_isSome]

theorem ofFloat_ofCode_ne_nan (negative : Bool) {code : Nat} (h : code ≤ infiniteCode) :
    Binary.ofFloat (ofCode negative code) ≠ .nan := by
  rcases ofFloat_ofCode negative h with ⟨mantissa, shift, hfinite⟩ | hinfinite
  · rw [hfinite]
    exact Binary.noConfusion
  · rw [hinfinite]
    exact Binary.noConfusion

theorem numeral?_ne_nan {x : Float} {rest : List Char} (h : numeral? cs = some (x, rest)) :
    Binary.ofFloat x ≠ .nan := by
  rw [numeral?_eq] at h
  split at h
  · cases h
    exact ofFloat_ofCode_ne_nan _ (Nat.le_refl _)
  · obtain ⟨read, -, hread⟩ := Option.map_eq_some_iff.mp h
    cases hread
    exact ofFloat_ofCode_ne_nan _ (code_le _)

/-- A text that is not taken for infinity reads as no number exactly if it does not begin with digits. -/
theorem parseNumber_nan_iff {s : String} (h : opensInfinity s.toList = false) :
    Binary.ofFloat (Value.parseNumber s) = .nan ↔ opens s.toList = false := by
  have hread := numeral?_isSome h
  unfold Value.parseNumber leadingNumber? opens
  cases hnumeral : numeral? (trimLeft s.toList) with
  | none =>
    rw [hnumeral] at hread
    exact iff_of_true (by rfl) hread.symm
  | some read =>
    rw [hnumeral] at hread
    exact iff_of_false (numeral?_ne_nan hnumeral) (by rw [← hread]; exact Bool.noConfusion)

section Lowered

variable {p : Char → Bool} (before : List Char)

theorem head?_lowerFrom (hp : ∀ c, p c = true → isFixed c = true) (cs : List Char) :
    (lowerFrom before cs).head?.any p = cs.head?.any p := by
  cases cs with
  | nil => rfl
  | cons c cs =>
    rcases lowerFrom_cons before cs c with ⟨-, hlower⟩ | ⟨hc, d, ds, hd, hlower⟩
    · rw [hlower]
      rfl
    · have hnone {e : Char} (he : isFixed e = false) : p e = false :=
        Bool.eq_false_iff.mpr fun h => Bool.eq_false_iff.mp he (hp e h)
      rw [hlower]
      simp [hnone hc, hnone hd]

theorem trimLeft_lowerFrom (cs : List Char) : ∃ b, trimLeft (lowerFrom before cs) = lowerFrom b (trimLeft cs) := by
  induction cs generalizing before with
  | nil => exact ⟨before, rfl⟩
  | cons c cs ih =>
    have hblank (e : Char) (h : isBlank e = true) : isFixed e = true := by simp [isFixed, h]
    unfold trimLeft at ih ⊢
    by_cases hc : isBlank c = true
    · rcases lowerFrom_cons before cs c with ⟨-, hlower⟩ | ⟨hother, -⟩
      · rw [hlower, List.dropWhile_cons_of_pos hc, List.dropWhile_cons_of_pos hc]
        exact ih _
      · rw [hblank c hc] at hother
        cases hother
    · refine ⟨before, ?_⟩
      have hhead := head?_lowerFrom before hblank (c :: cs)
      rw [List.dropWhile_cons_of_neg hc]
      cases hlower : lowerFrom before (c :: cs) with
      | nil => rfl
      | cons d ds =>
        rw [hlower] at hhead
        simp only [List.head?_cons, Option.any_some] at hhead
        exact List.dropWhile_cons_of_neg (by rwa [hhead])

theorem sign_lowerFrom (cs : List Char) : ∃ b, (sign (lowerFrom before cs)).2 = lowerFrom b (sign cs).2 := by
  cases cs with
  | nil => exact ⟨before, rfl⟩
  | cons c cs =>
    rcases lowerFrom_cons before cs c with ⟨-, hlower⟩ | ⟨hc, d, ds, hd, hlower⟩
    · by_cases hminus : c = '-'
      · subst hminus
        exact ⟨_, by rw [hlower]; rfl⟩
      by_cases hplus : c = '+'
      · subst hplus
        exact ⟨_, by rw [hlower]; rfl⟩
      refine ⟨before, ?_⟩
      rw [sign_cons hminus hplus, hlower, sign_cons hminus hplus]
    · have hsigned {e : Char} {es : List Char} (he : isFixed e = false) : (sign (e :: es)).2 = e :: es := by
        rw [sign_cons]
        · rintro rfl
          cases he
        · rintro rfl
          cases he
      exact ⟨before, by rw [hlower, hsigned hd, hsigned hc, hlower]⟩

theorem opensDigits_lowerFrom (cs : List Char) : opensDigits (lowerFrom before cs) = opensDigits cs := by
  have hdigit (e : Char) (h : isDigit e = true) : isFixed e = true := by simp [isFixed, h]
  cases cs with
  | nil => rfl
  | cons c cs =>
    rcases lowerFrom_cons before cs c with ⟨-, hlower⟩ | ⟨hc, d, ds, hd, hlower⟩
    · rw [hlower]
      by_cases hpoint : c = '.'
      · subst hpoint
        exact head?_lowerFrom _ hdigit cs
      · rw [opensDigits_cons hpoint, opensDigits_cons hpoint]
    · have hnone {e : Char} {es : List Char} (he : isFixed e = false) : opensDigits (e :: es) = false := by
        rw [opensDigits_cons]
        · exact Bool.eq_false_iff.mpr fun h => Bool.eq_false_iff.mp he (hdigit e h)
        · rintro rfl
          cases he
      rw [hlower, hnone hd, hnone hc]

/-- Lower case neither makes a number in digits nor breaks one. -/
theorem opens_lowerFrom (cs : List Char) : opens (lowerFrom before cs) = opens cs := by
  unfold opens
  obtain ⟨b, htrim⟩ := trimLeft_lowerFrom before cs
  obtain ⟨b', hsign⟩ := sign_lowerFrom b (trimLeft cs)
  rw [htrim, hsign, opensDigits_lowerFrom]

end Lowered

theorem opens_of_lowercase {s t : String} (h : lowercase s = lowercase t) : opens s.toList = opens t.toList := by
  have hlists : lowerFrom [] s.toList = lowerFrom [] t.toList := String.ofList_injective h
  rw [← opens_lowerFrom [] s.toList, hlists, opens_lowerFrom]

theorem trimLeft_digit (h : isDigit c = true) (cs : List Char) : trimLeft (c :: cs) = c :: cs := by
  have hrange := isDigit_iff.mp h
  apply List.dropWhile_cons_of_neg
  simp only [isBlank, Bool.or_eq_true, Bool.and_eq_true, decide_eq_true_eq, beq_iff_eq]
  omega

theorem opens_digit (h : isDigit c = true) (cs : List Char) : opens (c :: cs) = true := by
  unfold opens
  rw [trimLeft_digit h, sign_cons (ne_of_isDigit h rfl) (ne_of_isDigit h rfl), opensDigits_cons (ne_of_isDigit h rfl),
    h]

theorem opens_minus (h : isDigit c = true) (cs : List Char) : opens ('-' :: c :: cs) = true := by
  change opensDigits (c :: cs) = true
  rw [opensDigits_cons (ne_of_isDigit h rfl), h]

theorem opens_decimalInt (n : Int) : opens (decimalInt n) = true := by
  obtain ⟨c, cs, hdigits⟩ := List.exists_cons_of_ne_nil (show decimalDigits n.natAbs ≠ [] from Nat.toDigits_ne_nil)
  have hc : isDigit c = true := decimalDigits_isDigit (n := n.natAbs) c (by rw [hdigits]; exact List.mem_cons_self)
  unfold decimalInt
  rw [hdigits]
  split
  · exact opens_minus hc cs
  · exact opens_digit hc cs

theorem opens_write {L : Layout} (hL : L.Numeric) {x : Float} {negative : Bool} {mantissa shift : Nat}
    (h : Binary.ofFloat x = .finite negative mantissa shift) : opens (L.write x) = true := by
  obtain ⟨m, power, text, hwrite, hm, hshows, -⟩ := Layout.write_shows hL h
  obtain ⟨c, cs, hspelling, hc⟩ := hm.toWritten.spelling_cons
  rw [hwrite, hshows.spelling, hspelling, List.cons_append]
  split
  · exact opens_minus hc _
  · exact opens_digit hc _

end NoteFormula.Decimal

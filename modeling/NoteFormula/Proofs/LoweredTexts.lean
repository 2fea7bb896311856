import NoteFormula.Text.Blank
import NoteFormula.Text.Digits
import NoteFormula.Text.Lowercase

/-! # Lowered texts

What lower case leaves of a text. Blanks, digits, signs and points stay as they are, and nothing else becomes one of
them, so a text and its lower-case form have the same shape as far as numbers go.
-/
namespace NoteFormula.Text

/-- What a numeral and the blanks in front of it are made of, letters apart. -/
def isFixed (c : Char) : Bool := isBlank c || isDigit c || c == '+' || c == '-' || c == '.'

variable {before after : List Char} {c : Char} {run : CaseRun}

theorem toLower_isFixed (h : c.toNat < 0x80) :
    isFixed c.toLower = isFixed c ∧ (isFixed c = true → c.toLower = c) := by
  have hall : ∀ n < 0x80, isFixed (Char.ofNat n).toLower = isFixed (Char.ofNat n) ∧
      (isFixed (Char.ofNat n) = true → (Char.ofNat n).toLower = Char.ofNat n) := by
    decide +kernel
  simpa only [Char.ofNat_toNat] using hall c.toNat h

def fixedSpans : List (Nat × Nat) := [
  (0x09, 0x0d), (0x1c, 0x20), (0x2b, 0x2b), (0x2d, 0x2e), (0x30, 0x39), (0x85, 0x85), (0xa0, 0xa0), (0x1680, 0x1680),
  (0x2000, 0x200a), (0x2028, 0x2029), (0x202f, 0x202f), (0x205f, 0x205f), (0x3000, 0x3000)]

theorem isFixed_of_apart (h : ∀ span ∈ fixedSpans, c.toNat < span.1 ∨ span.2 < c.toNat) : isFixed c = false := by
  have hcode (d : Char) : c = d ↔ c.toNat = d.toNat := by
    rw [← Char.val_inj, ← UInt32.toNat_inj]
    rfl
  have hplus : '+'.toNat = 0x2b := rfl
  have hminus : '-'.toNat = 0x2d := rfl
  have hpoint : '.'.toNat = 0x2e := rfl
  simp only [fixedSpans, List.forall_mem_cons] at h
  apply Bool.eq_false_iff.mpr
  intro hfixed
  simp only [isFixed, isBlank, Bool.or_eq_true, Bool.and_eq_true, decide_eq_true_eq, beq_iff_eq, isDigit_iff, hcode]
    at hfixed
  omega

/-- The runs of capitals miss the fixed characters, and so do their lower-case partners. -/
theorem lowerRuns_apart : ∀ run ∈ lowerRuns, ∀ span ∈ fixedSpans,
    (run.last < span.1 ∨ span.2 < run.first) ∧ (run.last + run.shift < span.1 ∨ span.2 < run.first + run.shift) := by
  decide +kernel

theorem find?_lowerRuns (h : lowerRuns.find? (·.holds c.toNat) = some run) :
    isFixed c = false ∧ isFixed (Char.ofNat (c.toNat + run.shift).toNat) = false := by
  have hrun := List.mem_of_find?_eq_some h
  have hholds := List.find?_some h
  simp only [CaseRun.holds, Bool.and_eq_true, decide_eq_true_eq] at hholds
  constructor
  · apply isFixed_of_apart
    intro span hspan
    have hapart := (lowerRuns_apart run hrun span hspan).1
    omega
  · apply isFixed_of_apart
    intro span hspan
    have hapart := (lowerRuns_apart run hrun span hspan).2
    -- A code that no character has stands for the character zero, which is not fixed.
    have hpositive : ∀ span ∈ fixedSpans, 0 < span.1 := by decide
    have hfirst := hpositive span hspan
    have hcode : (Char.ofNat (c.toNat + run.shift).toNat).toNat = (c.toNat + run.shift).toNat ∨
        (Char.ofNat (c.toNat + run.shift).toNat).toNat = 0 := by
      by_cases hvalid : (c.toNat + run.shift).toNat.isValidChar
      · exact Or.inl (by rw [Char.ofNat, dif_pos hvalid]; rfl)
      · exact Or.inr (by rw [Char.ofNat, dif_neg hvalid]; rfl)
    omega

theorem lowerAt_fixed (h : isFixed c = true) : lowerAt before c after = [c] := by
  have hsigma : c ≠ 'Σ' := by
    rintro rfl
    cases h
  have hdotted : c ≠ 'İ' := by
    rintro rfl
    cases h
  rw [lowerAt, if_neg hsigma, lowerChar, if_neg hdotted]
  split
  · rename_i hascii
    rw [(toLower_isFixed hascii).2 h]
  split
  · rename_i run hfind
    rw [(find?_lowerRuns hfind).1] at h
    cases h
  · rfl

/-- What is not fixed becomes something, and nothing fixed. -/
theorem lowerAt_other (h : isFixed c = false) :
    lowerAt before c after ≠ [] ∧ ∀ d ∈ lowerAt before c after, isFixed d = false := by
  unfold lowerAt
  split
  · split <;> exact ⟨List.cons_ne_nil _ _, List.forall_mem_singleton.mpr rfl⟩
  unfold lowerChar
  split
  · rename_i hascii
    simpa [(toLower_isFixed hascii).1] using h
  split
  · exact ⟨List.cons_ne_nil _ _, List.forall_mem_cons.mpr ⟨rfl, List.forall_mem_singleton.mpr rfl⟩⟩
  split
  · rename_i run hfind
    simpa using (find?_lowerRuns hfind).2
  · simpa using h

/-- A text and its lower-case form begin with the same fixed character, or neither of them begins with one. -/
theorem lowerFrom_cons (before cs : List Char) (c : Char) :
    isFixed c = true ∧ lowerFrom before (c :: cs) = c :: lowerFrom (c :: before) cs ∨
      isFixed c = false ∧ ∃ d ds, isFixed d = false ∧ lowerFrom before (c :: cs) = d :: ds := by
  rw [lowerFrom]
  cases h : isFixed c with
  | true =>
    rw [lowerAt_fixed h]
    exact Or.inl ⟨rfl, rfl⟩
  | false =>
    obtain ⟨hne, hother⟩ := @lowerAt_other before cs c h
    obtain ⟨d, ds, hlower⟩ := List.exists_cons_of_ne_nil hne
    rw [hlower] at hother ⊢
    exact Or.inr ⟨rfl, d, _, hother d List.mem_cons_self, rfl⟩

end NoteFormula.Text

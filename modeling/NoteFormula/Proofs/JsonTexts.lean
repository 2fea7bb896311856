import Mathlib.Algebra.Group.Nat.Defs
import Mathlib.Tactic.SplitIfs
import NoteFormula.Json.Document
import NoteFormula.Json.Quoted

/-! # Texts in JSON

What either writer puts between quotes is read as the text it was written for: a character escaped by one letter,
by a unit of four digits, or by two units where it lies beyond the basic plane.
-/
namespace NoteFormula

namespace Text

theorem digitValue?_digitChar {n : Nat} (h : n < 16) : digitValue? (Nat.digitChar n) = some n := by
  have hall : ∀ k : Fin 16, digitValue? (Nat.digitChar k) = some k.val := by decide
  exact hall ⟨n, h⟩

theorem ofBase_append (base : Nat) (cs : List Char) (c : Char) :
    ofBase base (cs ++ [c]) = ofBase base cs * base + (digitValue? c).getD 0 := by
  rw [ofBase, List.foldl_append]
  rfl

theorem ofBase_toDigits (n : Nat) : ofBase 16 (Nat.toDigits 16 n) = n := by
  induction n using Nat.strongRecOn with
  | _ n ih =>
    rw [Nat.toDigits_eq_if (by decide)]
    split
    · rename_i hsmall
      rw [← List.nil_append [Nat.digitChar n], ofBase_append, digitValue?_digitChar hsmall]
      exact Nat.zero_add n
    · rw [ofBase_append, ih (n / 16) (by omega), digitValue?_digitChar (Nat.mod_lt n (by decide))]
      exact Nat.div_add_mod' n 16

theorem isHexDigit_toDigits (n : Nat) : ∀ c ∈ Nat.toDigits 16 n, isHexDigit c := by
  have hdigit {k : Nat} (hk : k < 16) : isHexDigit (Nat.digitChar k) := by rw [isHexDigit, digitValue?_digitChar hk]; rfl
  induction n using Nat.strongRecOn with
  | _ n ih =>
    rw [Nat.toDigits_eq_if (by decide)]
    split
    · rename_i hsmall
      exact List.forall_mem_singleton.mpr (hdigit hsmall)
    · exact List.forall_mem_append.mpr
        ⟨ih (n / 16) (by omega), List.forall_mem_singleton.mpr (hdigit (Nat.mod_lt n (by decide)))⟩

theorem ofBase_replicate_zero (base k : Nat) (cs : List Char) :
    ofBase base (List.replicate k '0' ++ cs) = ofBase base cs := by
  induction k with
  | zero => rfl
  | succ k ih =>
    rw [List.replicate_succ, List.cons_append, ← ih]
    change List.foldl _ (0 * base + 0) _ = _
    rw [Nat.zero_mul]
    rfl

theorem ofBase_hex (width n : Nat) : ofBase 16 (hex width n) = n := by
  rw [hex, padLeft, ofBase_replicate_zero, ofBase_toDigits]

theorem isHexDigit_hex (width n : Nat) : ∀ c ∈ hex width n, isHexDigit c := by
  refine List.forall_mem_append.mpr ⟨fun c hc => ?_, isHexDigit_toDigits n⟩
  rw [List.eq_of_mem_replicate hc]
  rfl

theorem length_hex {width n : Nat} (hw : 0 < width) (h : n < 16 ^ width) : (hex width n).length = width := by
  have hle := (Nat.length_toDigits_le_iff (by decide) hw).mpr h
  rw [hex, padLeft, List.length_append, List.length_replicate]
  omega

end Text

namespace Json

theorem unit?_hex {n : Nat} (h : n < 0x10000) (rest : List Char) : unit? (Text.hex 4 n ++ rest) = some (n, rest) := by
  have hlength : (Text.hex 4 n).length = 4 := Text.length_hex (by decide) h
  have hdigits : (Text.hex 4 n).all Text.isHexDigit := List.all_eq_true.mpr (Text.isHexDigit_hex 4 n)
  have hvalue := Text.ofBase_hex 4 n
  generalize Text.hex 4 n = ds at hlength hdigits hvalue
  match ds with
  | [a, b, c, d] =>
    change (if _ then some (Text.ofBase 16 [a, b, c, d], rest) else none) = _
    rw [if_pos hdigits, hvalue]

/-- A unit that is no surrogate is the character by itself, whatever comes after it. -/
theorem unitChar_of_char (c : Char) (rest : List Char) : unitChar c.toNat rest = (c, rest) := by
  have hscalar : c.toNat < 0xd800 ∨ 0xdfff < c.toNat := by
    rcases c.valid with h | ⟨h, -⟩
    · exact Or.inl h
    · exact Or.inr h
  have hhigh : isHighUnit c.toNat = false := by
    simp only [isHighUnit, Bool.and_eq_false_iff, decide_eq_false_iff_not]
    omega
  have hself : charOfUnit c.toNat = c := by
    unfold charOfUnit
    rw [if_neg (by simp; omega), Char.ofNat_toNat]
  unfold unitChar
  rw [hself, hhigh]
  split <;> rfl

/-- A high unit and a low one are one character. -/
theorem unitChar_pair {high low : Nat} (hhigh : isHighUnit high) (hlow : isLowUnit low) (rest : List Char) :
    unitChar high (unitEscape low ++ rest) = (Char.ofNat (0x10000 + (high - 0xd800) * 0x400 + (low - 0xdc00)), rest) := by
  have hunit : unit? (Text.hex 4 low ++ rest) = some (low, rest) := by
    refine unit?_hex ?_ rest
    simp only [isLowUnit, Bool.and_eq_true, decide_eq_true_eq] at hlow
    omega
  unfold unitChar unitEscape
  simp only [List.cons_append, hhigh, hunit, hlow, if_true]

/-- No code point lies beyond the planes that two units reach. -/
theorem toNat_lt_beyond (c : Char) : c.toNat < 0x110000 := by
  rcases c.valid with h | ⟨-, h⟩
  · exact Nat.lt_trans h (by decide)
  · exact h

theorem textChar?_codeEscape (c : Char) (rest : List Char) :
    textChar? (codeEscape c.toNat ++ rest) = some (c, rest) := by
  have hread {n : Nat} (h : n < 0x10000) (rest : List Char) :
      textChar? (unitEscape n ++ rest) = some (unitChar n rest) := by
    change (unit? (Text.hex 4 n ++ rest) >>= fun p => pure (unitChar p.1 p.2)) = _
    rw [unit?_hex h]
    rfl
  have hmax := toNat_lt_beyond c
  unfold codeEscape
  split
  · rename_i hbasic
    rw [hread hbasic, unitChar_of_char]
  · rename_i hbeyond
    generalize hhigh : 0xd800 + (c.toNat - 0x10000) / 0x400 = high
    generalize hlow : 0xdc00 + (c.toNat - 0x10000) % 0x400 = low
    have hhighunit : isHighUnit high := by
      simp only [isHighUnit, Bool.and_eq_true, decide_eq_true_eq]
      omega
    have hlowunit : isLowUnit low := by
      simp only [isLowUnit, Bool.and_eq_true, decide_eq_true_eq]
      omega
    have hcode : 0x10000 + (high - 0xd800) * 0x400 + (low - 0xdc00) = c.toNat := by omega
    rw [List.append_assoc, hread (by omega), unitChar_pair hhighunit hlowunit, hcode, Char.ofNat_toNat]

/-- However a character is written, it is read as itself. -/
theorem textChar?_escaped (charset : Charset) (c : Char) (rest : List Char) :
    textChar? (escaped charset c ++ rest) = some (c, rest) := by
  unfold escaped
  split_ifs with hquote hslash hline hreturn htab hpage hback hcontrol hwide
  · rw [hquote]; rfl
  · rw [hslash]; rfl
  · rw [hline]; rfl
  · rw [hreturn]; rfl
  · rw [htab]; rfl
  · rw [hpage]; rfl
  · rw [hback]; rfl
  · exact textChar?_codeEscape c rest
  · exact textChar?_codeEscape c rest
  · rw [List.singleton_append]
    unfold textChar?
    split
    · rename_i hcons
      cases hcons
      exact absurd rfl hslash
    · rename_i hcons
      cases hcons
      exact absurd rfl hslash
    · rename_i hcons
      cases hcons
      exact if_neg (by simp [hslash, hcontrol])
    · rename_i hcons
      cases hcons

/-- No character is written with a quote first. -/
theorem escaped_cons (charset : Charset) (c : Char) : ∃ d ds, escaped charset c = d :: ds ∧ d ≠ '"' := by
  have hcode (n : Nat) : ∃ d ds, codeEscape n = d :: ds ∧ d ≠ '"' := by
    unfold codeEscape
    split <;> exact ⟨'\\', _, rfl, by decide⟩
  unfold escaped
  split_ifs with hquote hslash hline hreturn htab hpage hback hcontrol hwide
  case neg => exact ⟨c, [], rfl, hquote⟩
  all_goals first | exact hcode _ | exact ⟨'\\', _, rfl, by decide⟩

theorem textBody?_escaped (charset : Charset) (s rest : List Char) {count : Nat} (h : s.length < count) :
    textBody? count (s.flatMap (escaped charset) ++ '"' :: rest) = some (s, rest) := by
  induction s generalizing count with
  | nil =>
    obtain ⟨k, rfl⟩ := Nat.exists_eq_succ_of_ne_zero (Nat.ne_of_gt h)
    rfl
  | cons c s ih =>
    obtain ⟨k, rfl⟩ := Nat.exists_eq_succ_of_ne_zero (Nat.ne_zero_of_lt h)
    have hchar := textChar?_escaped charset c (s.flatMap (escaped charset) ++ '"' :: rest)
    obtain ⟨d, ds, hescaped, hquote⟩ := escaped_cons charset c
    rw [List.flatMap_cons, List.append_assoc]
    rw [hescaped, List.cons_append] at hchar ⊢
    rw [textBody?]
    · rw [hchar]
      dsimp only [bind, Option.bind]
      rw [ih (Nat.lt_of_succ_lt_succ h)]
      rfl
    · rintro cs hcons
      cases hcons
      exact absurd rfl hquote

end Json

end NoteFormula

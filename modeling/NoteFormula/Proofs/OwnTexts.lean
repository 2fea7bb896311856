import NoteFormula.Proofs.LooseEquality
import NoteFormula.Proofs.ReadNumbers

/-! # Values and their own texts

A value is loosely equal to its own text, except for one kind of value. An integer is compared without being rounded,
but its text is read as a double, so the two differ exactly if no double holds the integer.
-/
namespace NoteFormula

open Decimal

namespace Decimal

def IsShort (n : Nat) : Prop := ∃ m k : Nat, m < 2 ^ 53 ∧ n = m * 2 ^ k

variable {n m k mantissa shift e : Nat}

theorem isShort_of_scaled (hsmall : mantissa < 2 ^ 53) (h : mantissa * 2 ^ shift = n * 2 ^ k) : IsShort n := by
  rcases Nat.le_total k shift with hle | hle
  · obtain ⟨more, rfl⟩ := Nat.exists_eq_add_of_le hle
    refine ⟨mantissa, more, hsmall, Nat.eq_of_mul_eq_mul_right (Nat.two_pow_pos k) ?_⟩
    rw [← h, Nat.pow_add, Nat.mul_right_comm, Nat.mul_assoc]
  · obtain ⟨more, rfl⟩ := Nat.exists_eq_add_of_le hle
    have hmantissa : mantissa = n * 2 ^ more := by
      refine Nat.eq_of_mul_eq_mul_right (Nat.two_pow_pos shift) ?_
      rw [h, Nat.pow_add, Nat.mul_assoc, Nat.mul_comm (2 ^ shift)]
    have hle : n ≤ mantissa := hmantissa ▸ Nat.le_mul_of_pos_right n (Nat.two_pow_pos more)
    exact ⟨n, 0, Nat.lt_of_le_of_lt hle hsmall, by simp⟩

/-- A short number within the finite range is a magnitude once its leading bit is put in place. -/
theorem exists_magnitude (hm : m < 2 ^ 53) (hk : 52 ≤ k) (he : e ≤ 2098) (hrange : m * 2 ^ k < 2 ^ e) :
    ∃ mantissa shift, IsMagnitude mantissa shift ∧ mantissa * 2 ^ shift = m * 2 ^ k := by
  rcases Nat.eq_zero_or_pos m with rfl | hpos
  · exact ⟨0, 0, ⟨by decide, by simp, by decide⟩, by simp⟩
  have hlog : m.log2 < 53 := (Nat.log2_lt (by omega)).mpr hm
  obtain ⟨lift, hlift⟩ := Nat.exists_eq_add_of_le (show m.log2 ≤ 52 by omega)
  obtain ⟨shift, rfl⟩ := Nat.exists_eq_add_of_le (show lift ≤ k by omega)
  have hvalue : m * 2 ^ lift * 2 ^ shift = m * 2 ^ (lift + shift) := by rw [Nat.mul_assoc, ← Nat.pow_add]
  have hlow : 2 ^ 52 ≤ m * 2 ^ lift := by
    rw [hlift, Nat.pow_add]
    exact Nat.mul_le_mul_right _ (Nat.log2_self_le (by omega))
  have hhigh : m * 2 ^ lift < 2 ^ 53 := by
    calc
      m * 2 ^ lift < 2 ^ (m.log2 + 1) * 2 ^ lift := Nat.mul_lt_mul_of_pos_right Nat.lt_log2_self (Nat.two_pow_pos lift)
      _ = 2 ^ 53 := by rw [← Nat.pow_add]; congr 1; omega
  have hfinite : 52 + shift < e := by
    refine (Nat.pow_lt_pow_iff_right (show 1 < 2 by decide)).mp (Nat.lt_of_le_of_lt ?_ hrange)
    rw [Nat.pow_add, ← hvalue]
    exact Nat.mul_le_mul_right _ hlow
  refine ⟨m * 2 ^ lift, shift, ⟨hhigh, fun _ => hlow, ?_⟩, hvalue⟩
  rw [infiniteCode_eq]
  omega

theorem grains_natAbs (negative : Bool) (mantissa shift : Nat) :
    (grains negative mantissa shift).natAbs = mantissa * 2 ^ shift := by
  unfold grains
  rw [pow2_eq]
  cases negative with
  | true => exact (Int.natAbs_neg _).trans (Int.natAbs_natCast _)
  | false => exact Int.natAbs_natCast _

theorem grains_sign {n : Int} (h : mantissa * 2 ^ shift = n.natAbs * grainsPerOne) :
    grains (decide (n < 0)) mantissa shift = intGrains n := by
  unfold grains intGrains
  rw [pow2_eq, h]
  push_cast
  by_cases hn : n < 0
  · rw [decide_eq_true hn, if_pos rfl, abs_of_neg hn, neg_mul, neg_neg]
  · rw [decide_eq_false hn, if_neg Bool.false_ne_true, abs_of_nonneg (not_lt.mp hn)]

/-- A double equals no other integers than short ones. -/
theorem isShort_of_ofFloat {x : Float} {n : Int} (h : Exact.ofFloat x = .ofInt n) : IsShort n.natAbs := by
  have habs : (intGrains n).natAbs = n.natAbs * 2 ^ 1074 := by
    rw [intGrains, Int.natAbs_mul, Int.natAbs_natCast, grainsPerOne_eq]
  unfold Exact.ofFloat Exact.ofInt at h
  generalize intGrains n = whole at h habs
  split at h
  · cases h
  · cases h
  · rename_i negative mantissa shift hfinite
    cases h
    rw [grains_natAbs] at habs
    exact isShort_of_scaled (ofFloat_finite hfinite).1.small habs

/-- Of the integers in the range of the doubles the short ones are those that the nearest double equals. -/
theorem ofFloat_ofInt_iff {n : Int} (hrange : exceedsDouble n = false) :
    Exact.ofFloat (ofInt n) = .ofInt n ↔ IsShort n.natAbs := by
  refine ⟨isShort_of_ofFloat, ?_⟩
  rintro ⟨m, k, hm, hn⟩
  have hgrains := grainsPerOne_eq
  generalize hg : 1074 = g at hgrains
  have hscaled : m * 2 ^ (k + g) = n.natAbs * grainsPerOne := by rw [hn, hgrains, Nat.mul_assoc, ← Nat.pow_add]
  have hbound : m * 2 ^ (k + g) < 2 ^ (1024 + g) := by
    by_contra hlarge
    rw [hscaled] at hlarge
    have hhuge := nearestCode_of_huge (by omega) (Nat.le_of_not_lt hlarge)
    rw [exceedsDouble, hhuge, beq_self_eq_true] at hrange
    cases hrange
  obtain ⟨mantissa, shift, hmagnitude, hvalue⟩ := exists_magnitude hm (by omega) (by omega) hbound
  have hint : ofInt n = ofCode (decide (n < 0)) (shift * 2 ^ 52 + mantissa) := by
    rw [ofInt, nearest, ← hscaled, ← hvalue, nearestCode_magnitude hmagnitude]
  rw [hint, Exact.ofFloat, ofFloat_magnitude _ hmagnitude, Exact.ofInt]
  exact congrArg _ (grains_sign (hvalue.trans hscaled))

end Decimal

namespace Value

variable {v w : Value}

/-- A number is read from the text of a double as it is seen in the double itself: also from `NaN`, which is no number,
from the word for infinity, and from the zero that negative zero is written as. -/
theorem ofFloat_parseNumber_toText (x : Float) : Exact.ofFloat (parseNumber (toText (.float x))) = .ofFloat x := by
  have htext : toText (.float x) = String.ofList (Layout.note.write x) := by rw [toText, noteText_eq_write]
  rw [htext]
  unfold parseNumber leadingNumber?
  rw [String.toList_ofList]
  cases hx : Binary.ofFloat x with
  | nan =>
    obtain rfl := ofFloat_nan hx
    rfl
  | infinite negative =>
    obtain rfl := ofFloat_infinite hx
    cases negative <;> rfl
  | finite negative mantissa shift =>
    obtain ⟨htrim, y, hread, hy⟩ := numeral?_write bare_note.numeric hx
    rw [htrim, hread, Option.map_some, Option.getD_some, Exact.ofFloat, Exact.ofFloat, hx, hy]
    change Exact.finite _ = Exact.finite _
    congr 1
    by_cases hzero : mantissa = 0
    · subst hzero
      simp [grains]
    · have hnonzero : (mantissa != 0) = true := bne_iff_ne.mpr hzero
      simp [hnonzero]

theorem asExact_text (s : String) : (text s).asExact = .ofFloat (parseNumber s) := rfl

theorem asExact_toText (h : ∀ n, v ≠ .int n) : (text v.toText).asExact = v.asExact := by
  rw [asExact_text]
  cases v with
  | int n => exact absurd rfl (h n)
  | float x => exact ofFloat_parseNumber_toText x
  | _ => rw [asExact_other (fun _ => Value.noConfusion) (fun _ => Value.noConfusion)]

/-- Values with one text differ only if both are numbers, and different ones. -/
theorem looselyEqual_of_toText (hv : v.isAbsent = false) (hw : w.isAbsent = false) (hvr : ¬ v.Oversized)
    (hwr : ¬ w.Oversized) (h : v.toText = w.toText) :
    v.looselyEqual w = .ok (decide (v.asExact = .nan ∨ w.asExact = .nan ∨ v.asExact = w.asExact)) := by
  have hsame : sameText v w = true := by simp [sameText, h]
  rw [looselyEqual_present hv hw, readsNan_eq hvr, readsNan_eq hwr, hsame]
  change (if _ then _ else if _ then _ else _) = _
  by_cases hleft : v.asExact = .nan
  · simp [hleft]
  · by_cases hright : w.asExact = .nan
    · simp [hright]
    · simp [hleft, hright, beq_eq_decide]

/-- A value and its own text are compared alike from both sides, and they are equal unless the value is an integer that
no double holds. -/
theorem looselyEqual_own_text (v : Value) (hv : v.isAbsent = false) (hr : ¬ v.Oversized) :
    ∃ b, v.looselyEqual (text v.toText) = .ok b ∧ (text v.toText).looselyEqual v = .ok b ∧
      (b = true ↔ ∀ n, v = .int n → IsShort n.natAbs) := by
  have htext : (text v.toText).toText = v.toText := rfl
  refine ⟨_, looselyEqual_of_toText hv rfl hr (not_oversized_text _) htext.symm, ?_, ?_⟩
  · rw [looselyEqual_of_toText rfl hv (not_oversized_text _) hr htext]
    congr 2
    apply propext
    rw [or_left_comm, eq_comm (a := v.asExact) (b := (text v.toText).asExact)]
  · rw [decide_eq_true_eq]
    rcases v.int_or_other with ⟨n, rfl⟩ | hother
    · have hrange : exceedsDouble n = false := by
        apply Bool.eq_false_iff.mpr
        intro hn
        exact hr ⟨n, rfl, (exceedsDouble_iff n).mp hn⟩
      have hread : (text (toText (.int n))).asExact = .ofFloat (ofInt n) := by
        rw [asExact_text, ← parseNumber_intText]
        rfl
      have hnumber : Exact.ofFloat (ofInt n) ≠ .nan := by
        rw [ne_eq, Exact.ofFloat_nan_iff]
        exact ofFloat_ofCode_ne_nan _ (Nat.min_le_right _ _)
      have hself : (int n).asExact = .ofInt n := rfl
      rw [hread, hself, or_iff_right Exact.noConfusion, or_iff_right hnumber, eq_comm, ofFloat_ofInt_iff hrange]
      constructor
      · rintro hshort m ⟨⟩
        exact hshort
      · intro hshort
        exact hshort n rfl
    · have hequal := asExact_toText hother
      exact iff_of_true (Or.inr (Or.inr hequal.symm)) fun n hn => absurd hn (hother n)

/-- Above `2 ^ 53` the even integers are doubles. -/
theorem even_integer_equals_own_text :
    let v : Value := .int 9007199254740994
    v.isAbsent = false ∧ ¬ v.Oversized ∧ v.looselyEqual (text "9007199254740994") = .ok true := by
  intro v
  have hr : ¬ v.Oversized := by
    rw [← readsNan_error_iff]
    decide +kernel
  have htext : v.toText = "9007199254740994" := by decide +kernel
  obtain ⟨b, hequal, -, hb⟩ := looselyEqual_own_text v rfl hr
  rw [htext] at hequal
  refine ⟨rfl, hr, hequal.trans (congrArg Except.ok (hb.mpr ?_))⟩
  intro n hn
  obtain rfl := Value.int.inj hn
  exact ⟨4503599627370497, 1, by decide, by decide⟩

/-- Above `2 ^ 53` the text of an odd integer is read as one of its neighbours. -/
theorem odd_integer_differs_from_own_text :
    let v : Value := .int 9007199254740993
    v.toText = "9007199254740993" ∧ v.looselyEqual (text "9007199254740993") = .ok false ∧
      (text "9007199254740993").looselyEqual v = .ok false := by
  decide +kernel

end Value

end NoteFormula

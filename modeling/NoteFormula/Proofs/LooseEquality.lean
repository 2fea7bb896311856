import NoteFormula.Proofs.NumberLayouts
import NoteFormula.Proofs.OverflowingFormulas

/-! # Loose equality

Loose equality compares some pairs as numbers and the other ones as lower-case texts. The way is chosen for each pair
anew, and yet it comes to one comparison: every value has a face of its own, and equal values are those with equal
faces. For this no value that reads as a number may have the lower-case text of one that does not. Only infinity breaks
it, because it is spelled in letters.
-/
namespace NoteFormula

open Decimal

/-- What loose equality sees of a value, whatever the value is compared with. -/
inductive Face where
  | absent
  | number (x : Exact)
  | text (lowered : String)
deriving DecidableEq

theorem Exact.ofFloat_nan_iff {x : Float} : Exact.ofFloat x = .nan ↔ Binary.ofFloat x = .nan := by
  unfold Exact.ofFloat
  cases Binary.ofFloat x <;> simp

namespace Value

variable {v w : Value}

def face (v : Value) : Face :=
  if v.isAbsent then .absent
  else if v.asExact = .nan then .text (Text.lowercase v.toText)
  else .number v.asExact

/-- A value that is no integer beyond the doubles, and whose text does not begin with a numeral for infinity. The word
in another letter case is no numeral, so a text that begins with it may be compared like any other. -/
structure Comparable (v : Value) : Prop where
  inRange : ¬ v.Oversized
  finite : opensInfinity v.toText.toList = false

theorem not_oversized_text (s : String) : ¬ (text s).Oversized := by
  rintro ⟨n, hn, -⟩
  cases hn

theorem comparable_text {s : String} (h : opensInfinity s.toList = false) : (text s).Comparable where
  inRange := not_oversized_text s
  finite := h

theorem asExact_other (hint : ∀ n, v ≠ .int n) (hfloat : ∀ x, v ≠ .float x) :
    v.asExact = .ofFloat (parseNumber v.toText) := by
  unfold asExact
  split
  · exact absurd rfl (hint _)
  · exact absurd rfl (hfloat _)
  · rfl

/-- Whether a value reads as a number is told by its text, also where the value is a number itself. -/
theorem Comparable.asExact_nan_iff (h : v.Comparable) : v.asExact = .nan ↔ opens v.toText.toList = false := by
  have hfinite := h.finite
  cases v with
  | int n =>
    have hopens : opens (toText (.int n)).toList = true := by
      unfold toText intText
      rw [String.toList_ofList]
      exact opens_decimalInt n
    rw [hopens]
    exact iff_of_false Exact.noConfusion Bool.noConfusion
  | float x =>
    have htext : (toText (.float x)).toList = Layout.note.write x := by
      unfold toText
      rw [String.toList_ofList, noteText_eq_write]
    change Exact.ofFloat x = .nan ↔ _
    rw [htext] at hfinite ⊢
    rw [Exact.ofFloat_nan_iff]
    cases hx : Binary.ofFloat x with
    | nan =>
      unfold Layout.write
      rw [hx]
      exact iff_of_true rfl rfl
    | infinite negative =>
      unfold Layout.write at hfinite
      rw [hx] at hfinite
      cases negative <;> cases hfinite
    | finite negative mantissa shift =>
      rw [opens_write bare_note.numeric hx]
      exact iff_of_false Binary.noConfusion Bool.noConfusion
  | _ =>
    rw [asExact_other (fun _ => Value.noConfusion) (fun _ => Value.noConfusion), Exact.ofFloat_nan_iff]
    exact parseNumber_nan_iff hfinite

theorem readsNan_eq (h : ¬ v.Oversized) : v.readsNan = .ok (decide (v.asExact = .nan)) := by
  cases hread : v.readsNan with
  | error fault =>
    cases fault
    exact absurd (readsNan_error_iff.mp hread) h
  | ok b =>
    congr 1
    apply Bool.eq_iff_iff.mpr
    rw [readsNan_ok hread, decide_eq_true_eq]

/-- A text is never the lower-case twin of another one if only one of the two reads as a number. -/
theorem Comparable.nan_of_sameText (hv : v.Comparable) (hw : w.Comparable)
    (h : Text.lowercase v.toText = Text.lowercase w.toText) : v.asExact = .nan ↔ w.asExact = .nan := by
  rw [hv.asExact_nan_iff, hw.asExact_nan_iff, opens_of_lowercase h]

theorem face_present (h : v.isAbsent = false) :
    v.face = if v.asExact = .nan then .text (Text.lowercase v.toText) else .number v.asExact := by
  unfold face
  rw [h]
  rfl

theorem face_absent_iff : v.face = .absent ↔ v.isAbsent = true := by
  unfold face
  split
  · simp_all
  · split <;> simp_all

theorem Comparable.looselyEqual_eq (hv : v.Comparable) (hw : w.Comparable) :
    v.looselyEqual w = .ok (decide (v.face = w.face)) := by
  by_cases habsent : v.isAbsent = true ∨ w.isAbsent = true
  · have hface : v.face = w.face ↔ (v.isAbsent && w.isAbsent) = true := by
      rw [← face_absent_iff, ← face_absent_iff] at habsent
      rw [Bool.and_eq_true, ← face_absent_iff, ← face_absent_iff]
      rcases habsent with h | h <;> simp [h, eq_comm]
    rw [looselyEqual_absent habsent]
    congr 1
    apply Bool.eq_iff_iff.mpr
    rw [decide_eq_true_eq, hface]
  · simp only [not_or, Bool.not_eq_true] at habsent
    obtain ⟨hl, hr⟩ := habsent
    have htwin := hv.nan_of_sameText hw
    rw [looselyEqual_present hl hr, readsNan_eq hv.inRange, readsNan_eq hw.inRange, face_present hl, face_present hr]
    change (if _ then _ else if _ then _ else _) = _
    unfold sameText
    -- The texts decide unless both sides are numbers, and they differ if one side alone is.
    by_cases hleft : v.asExact = .nan <;> by_cases hright : w.asExact = .nan
    · simp [hleft, hright, beq_eq_decide]
    · have hdiffer : Text.lowercase v.toText ≠ Text.lowercase w.toText := fun h => hright ((htwin h).mp hleft)
      simp [hleft, hright, hdiffer]
    · have hdiffer : Text.lowercase v.toText ≠ Text.lowercase w.toText := fun h => hleft ((htwin h).mpr hright)
      simp [hleft, hright, hdiffer]
    · simp [hleft, hright, beq_eq_decide]

/-- Loose equality always answers on comparable values, and it is an equivalence of them. -/
theorem looselyEqual_equivalence :
    (∀ v w : Value, v.Comparable → w.Comparable → ∃ b, v.looselyEqual w = .ok b) ∧
      Equivalence fun v w : {v : Value // v.Comparable} => v.1.looselyEqual w.1 = .ok true := by
  have hface (v w : {v : Value // v.Comparable}) : v.1.looselyEqual w.1 = .ok true ↔ v.1.face = w.1.face := by
    rw [v.2.looselyEqual_eq w.2, Except.ok.injEq, decide_eq_true_eq]
  refine ⟨fun v w hv hw => ⟨_, hv.looselyEqual_eq hw⟩, ⟨?_, ?_, ?_⟩⟩
  · intro v
    exact (hface v v).mpr rfl
  · intro v w h
    exact (hface w v).mpr ((hface v w).mp h).symm
  · intro u v w huv hvw
    exact (hface u w).mpr (((hface u v).mp huv).trans ((hface v w).mp hvw))

/-- Two spellings of one number are equal because both equal the number, though neither text contains the other. -/
theorem spellings_equal_through_number :
    Comparable (text " +1.0 kg") ∧ Comparable (int 1) ∧ Comparable (text "01") ∧
      (∃ b, looselyEqual (text "01") (int 1) = .ok b) ∧
      looselyEqual (text " +1.0 kg") (text "01") = .ok true := by
  have hspaced : Comparable (text " +1.0 kg") := comparable_text rfl
  have hpadded : Comparable (text "01") := comparable_text rfl
  have hone : Comparable (int 1) := by
    refine ⟨?_, rfl⟩
    rw [← readsNan_error_iff]
    decide +kernel
  have hleft : looselyEqual (text " +1.0 kg") (int 1) = .ok true := by decide +kernel
  have hright : looselyEqual (int 1) (text "01") = .ok true := by decide +kernel
  refine ⟨hspaced, hone, hpadded, looselyEqual_equivalence.1 _ _ hpadded hone, ?_⟩
  exact looselyEqual_equivalence.2.trans (x := ⟨_, hspaced⟩) (y := ⟨_, hone⟩) (z := ⟨_, hpadded⟩) hleft hright

end Value

end NoteFormula

import NoteFormula.Proofs.EvaluationSteps

/-! # Contained texts

A text is looked for in another one by the lower-case forms of the two, and each of these is made on its own. Lower
case goes character by character, but the form of a capital sigma depends on the characters around it. So a text that
stands in another one is found there if its sigmas have the form that they have where the text stands alone.
-/
namespace NoteFormula

namespace Text

variable {before after cs : List Char}

def closesWord (before after : List Char) : Bool := meetsCase before && !meetsCase after

/-- The lower-case form of a text that stands between others; the one before it is given from its end. -/
def lowerBetween (before after : List Char) : List Char → List Char
  | [] => []
  | c :: cs => lowerAt before c (cs ++ after) ++ lowerBetween (c :: before) after cs

/-- Every capital sigma of a text has the same form where the text stands between others and where it stands alone. -/
def SigmasKept (before after cs : List Char) : Prop :=
  ∀ left right, cs = left ++ 'Σ' :: right →
    closesWord (left.reverse ++ before) (right ++ after) = closesWord left.reverse right

theorem lowerAt_sigma (before after : List Char) :
    lowerAt before 'Σ' after = [if closesWord before after then 'ς' else 'σ'] := rfl

theorem lowerAt_other_than_sigma {c : Char} (h : c ≠ 'Σ') : lowerAt before c after = lowerChar c := if_neg h

theorem lowerFrom_append (before cs ds : List Char) :
    lowerFrom before (cs ++ ds) = lowerBetween before ds cs ++ lowerFrom (cs.reverse ++ before) ds := by
  induction cs generalizing before with
  | nil => rfl
  | cons c cs ih => simp [lowerFrom, lowerBetween, ih]

/-- Behind what has been lowered, one character after the other has the same lower case in both places. -/
theorem lowerBetween_behind {left : List Char} (h : SigmasKept before after (left ++ cs)) :
    lowerBetween (left.reverse ++ before) after cs = lowerFrom left.reverse cs := by
  induction cs generalizing left with
  | nil => rfl
  | cons c cs ih =>
    have hrest : lowerBetween (c :: (left.reverse ++ before)) after cs = lowerFrom (c :: left.reverse) cs := by
      have hnext : SigmasKept before after ((left ++ [c]) ++ cs) := by
        rw [List.append_assoc]
        exact h
      simpa using ih hnext
    have hhead : lowerAt (left.reverse ++ before) c (cs ++ after) = lowerAt left.reverse c cs := by
      by_cases hsigma : c = 'Σ'
      · subst hsigma
        rw [lowerAt_sigma, lowerAt_sigma, h left cs rfl]
      · rw [lowerAt_other_than_sigma hsigma, lowerAt_other_than_sigma hsigma]
    rw [lowerBetween, lowerFrom, hhead, hrest]

theorem lowerBetween_eq (h : SigmasKept before after cs) : lowerBetween before after cs = lowerFrom [] cs :=
  @lowerBetween_behind before after cs [] h

theorem sigmasKept_of_not_mem (h : 'Σ' ∉ cs) : SigmasKept before after cs := by
  intro left right hcs
  exact absurd (by rw [hcs]; simp) h

/-- The lower-case form of a part is a part of the whole one if the sigmas are kept. -/
theorem lowercase_part {s t : String} (h : s.toList = before ++ t.toList ++ after)
    (hkept : SigmasKept before.reverse after t.toList) : (lowercase t).toList <:+: (lowercase s).toList := by
  unfold lowercase
  rw [String.toList_ofList, String.toList_ofList, h, List.append_assoc, lowerFrom_append, lowerFrom_append,
    List.append_nil, lowerBetween_eq hkept]
  exact List.infix_append' _ _ _

end Text

theorem Value.isInfix_iff (needle hay : List Char) : isInfix needle hay = true ↔ needle <:+: hay := by
  induction hay with
  | nil => simp [isInfix]
  | cons c cs ih => rw [isInfix, Bool.or_eq_true, List.isPrefixOf_iff_prefix, ih, List.infix_cons_iff]

open Text

/-- A formula that looks for a value in a text always answers. It finds the value's text exactly if the lower-case form
of it stands in that of the other text. A text that is literally there is found if its sigmas are kept. -/
theorem contained_text_found (context : Context) (h n : Formula) (hay : String) (needle : Value)
    (before after : List Char) (hhay : h.evaluate context = .ok (.text hay)) (hneedle : n.evaluate context = .ok needle)
    (hpresent : needle.isAbsent = false) (hthere : hay.toList = before ++ needle.toText.toList ++ after) :
    ∃ found, (Formula.contains h n).evaluate context = .ok (.bool found) ∧
      (found = true ↔ (lowercase needle.toText).toList <:+: (lowercase hay).toList) ∧
      (SigmasKept before.reverse after needle.toText.toList → found = true) := by
  have hiff := Value.isInfix_iff (lowercase needle.toText).toList (lowercase hay).toList
  refine ⟨Value.isInfix (lowercase needle.toText).toList (lowercase hay).toList, ?_, hiff, ?_⟩
  · rw [Formula.evaluate_contains, hhay, hneedle]
    change (if needle.isAbsent then _ else _ : Run Bool).outcome >>= _ = _
    rw [hpresent]
    rfl
  · intro hkept
    exact hiff.mpr (lowercase_part hthere hkept)

/-- At the end of the text that is looked for the sigma takes its final form; inside the other text it does not. -/
theorem final_sigma_missed :
    (Formula.contains (.literal (.text "ΑΣΑ")) (.literal (.text "ΑΣ"))).evaluate (Context.ofEntries []) =
        .ok (.bool false) ∧
      (Formula.contains (.literal (.text "ΑΣΑ")) (.literal (.text "Α"))).evaluate (Context.ofEntries []) =
        .ok (.bool true) := by
  constructor
  · obtain ⟨found, hanswer, hfound, -⟩ := contained_text_found (Context.ofEntries []) (.literal (.text "ΑΣΑ"))
      (.literal (.text "ΑΣ")) "ΑΣΑ" (.text "ΑΣ") [] ['Α'] rfl rfl rfl rfl
    have hapart : ¬ (lowercase "ΑΣ").toList <:+: (lowercase "ΑΣΑ").toList := by
      rw [← Value.isInfix_iff]
      decide +kernel
    have hmissed : found = false := Bool.eq_false_iff.mpr (mt hfound.mp hapart)
    rw [hanswer, hmissed]
  · obtain ⟨found, hanswer, -, hkept⟩ := contained_text_found (Context.ofEntries []) (.literal (.text "ΑΣΑ"))
      (.literal (.text "Α")) "ΑΣΑ" (.text "Α") ['Α', 'Σ'] [] rfl rfl rfl rfl
    have hnone : 'Σ' ∉ "Α".toList := by decide
    rw [hanswer, hkept (sigmasKept_of_not_mem hnone)]

end NoteFormula

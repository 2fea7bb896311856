import NoteFormula.Formula.Source
import NoteFormula.Proofs.CompleteFormulas
import NoteFormula.Proofs.EvaluationSteps

/-! # Replaced literals

A formula in which other formulas take the places of the literals. Where these are written like the literals, so is the
whole formula, and where they come to the same values, so does the whole.
-/
namespace NoteFormula.Formula

def replaced (g : Value → Formula) : Formula → Formula
  | absent => absent
  | literal v => g v
  | reference space path => reference space path
  | unary op f => unary op (f.replaced g)
  | binary op e f => binary op (e.replaced g) (f.replaced g)
  | conditional c t e => conditional (c.replaced g) (t.replaced g) (e.replaced g)
  | contains e f => contains (e.replaced g) (f.replaced g)
  | length f => length (f.replaced g)

/-- What takes the places of literals is written like them, and for a truth value only where one stood. -/
structure WrittenAlike (g : Value → Formula) : Prop where
  source : ∀ v, (g v).source = .ok v.source
  isBool : ∀ v b, (g v).isBool b = (literal v).isBool b

variable {g h : Value → Formula} {f : Formula}

theorem replaced_literal (f : Formula) : f.replaced literal = f := by
  induction f with
  | absent | literal | reference => rfl
  | unary op f ih => rw [replaced, ih]
  | binary op e f ihe ihf => rw [replaced, ihe, ihf]
  | conditional c t e ihc iht ihe => rw [replaced, ihc, iht, ihe]
  | contains e f ihe ihf => rw [replaced, ihe, ihf]
  | length f ih => rw [replaced, ih]

theorem not_absent_of_source {cs : List Char} (hs : f.source = .ok cs) : f.isAbsent = false := by
  cases f with
  | absent => cases hs
  | _ => rfl

theorem replaced_isAbsent (hg : ∀ v, (g v).isAbsent = false) (f : Formula) :
    (f.replaced g).isAbsent = f.isAbsent := by
  cases f with
  | literal v => exact hg v
  | _ => rfl

theorem WrittenAlike.replaced_isBool (hg : WrittenAlike g) (b : Bool) (f : Formula) :
    (f.replaced g).isBool b = f.isBool b := by
  cases f with
  | literal v => exact hg.isBool v b
  | _ => rfl

/-- What is written like the literals does not show in the text. -/
theorem WrittenAlike.replaced_source (hg : WrittenAlike g) (f : Formula) : (f.replaced g).source = f.source := by
  induction f with
  | absent | reference => rfl
  | literal v => exact hg.source v
  | unary op f ih => rw [replaced, Formula.source, Formula.source, ih]
  | binary op e f ihe ihf => rw [replaced, Formula.source, Formula.source, ihe, ihf]
  | conditional c t e ihc iht ihe =>
    have habsent := replaced_isAbsent (fun v => not_absent_of_source (hg.source v)) e
    rw [replaced, Formula.source, Formula.source, ihc, iht, ihe, hg.replaced_isBool, hg.replaced_isBool, habsent]
  | contains e f ihe ihf => rw [replaced, Formula.source, Formula.source, ihe, ihf]
  | length f ih => rw [replaced, Formula.source, Formula.source, ih]

theorem replaced_evaluate {context : Context} (hg : ∀ v, (g v).isAbsent = false) (hh : ∀ v, (h v).isAbsent = false)
    (heq : ∀ v, (g v).evaluate context = (h v).evaluate context) (f : Formula) :
    (f.replaced g).evaluate context = (f.replaced h).evaluate context := by
  induction f with
  | absent | reference => rfl
  | literal v => exact heq v
  | unary op f ih => rw [replaced, replaced, evaluate_unary, evaluate_unary, ih]
  | binary op e f ihe ihf => rw [replaced, replaced, evaluate_binary, evaluate_binary, ihe, ihf]
  | conditional c t e ihc iht ihe =>
    rw [replaced, replaced, evaluate_conditional, evaluate_conditional, ihc, iht, ihe, replaced_isAbsent hg,
      replaced_isAbsent hh]
  | contains e f ihe ihf => rw [replaced, replaced, evaluate_contains, evaluate_contains, ihe, ihf]
  | length f ih => rw [replaced, replaced, evaluate_length, evaluate_length, ih]

theorem Complete.replaced {l l' : Value → Prop} {r : Namespace → Value → Prop} (hf : f.Complete l r)
    (hg : ∀ v, l v → (g v).Complete l' r) : (f.replaced g).Complete l' r := by
  induction hf with
  | literal hv => exact hg _ hv
  | reference hp => exact .reference hp
  | unary _ ih => exact .unary ih
  | binary _ _ ihe ihf => exact .binary ihe ihf
  | guarded _ _ ihc ihf => exact .guarded ihc ihf
  | choice _ _ _ ihc ihe ihf => exact .choice ihc ihe ihf
  | contains _ _ ihe ihf => exact .contains ihe ihf
  | length _ ih => exact .length ih

/-- Nothing changes where each literal takes its own place. -/
theorem Complete.replaced_eq {l : Value → Prop} {r : Namespace → Value → Prop} (hf : f.Complete l r)
    (hg : ∀ v, l v → g v = .literal v) : f.replaced g = f := by
  induction hf with
  | literal hv => exact hg _ hv
  | reference => rfl
  | unary _ ih => rw [Formula.replaced, ih]
  | binary _ _ ihe ihf => rw [Formula.replaced, ihe, ihf]
  | guarded _ _ ihc ihf => rw [Formula.replaced, ihc, ihf, Formula.replaced]
  | choice _ _ _ ihc ihe ihf => rw [Formula.replaced, ihc, ihe, ihf]
  | contains _ _ ihe ihf => rw [Formula.replaced, ihe, ihf]
  | length _ ih => rw [Formula.replaced, ih]

end NoteFormula.Formula

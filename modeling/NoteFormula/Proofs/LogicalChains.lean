import NoteFormula.Proofs.RecursiveEvaluation

/-! # Logical chains

A chain of operands under one of the operators that pass an operand on. However it is bracketed, it runs its operands
from the left, up to the first one whose value is wanted, and comes to that value; if there is none, to the value of the
last one.
-/
namespace NoteFormula

/-- What an operator that passes an operand on looks for in it. -/
def BinaryOp.wanted? : BinaryOp → Option (Value → Bool)
  | or => some fun v => v.truthy
  | and => some fun v => !v.truthy
  | nullish => some fun v => !v.isAbsent
  | _ => none

namespace Formula

inductive Bracketed (op : BinaryOp) : List Formula → Formula → Prop
  | operand (e : Formula) : Bracketed op [e] e
  | join {es gs f g} : Bracketed op es f → Bracketed op gs g → Bracketed op (es ++ gs) (.binary op f g)

def pick (context : Context) (wanted : Value → Bool) : List Formula → Run Value
  | [] => pure .absent
  | [e] => e.run context
  | e :: g :: es => do
    let v ← e.run context
    if wanted v then return v else pick context wanted (g :: es)

variable {op : BinaryOp} {wanted : Value → Bool} {context : Context} {e f g : Formula} {es gs : List Formula}
  {v : Value}

theorem Bracketed.ne_nil (h : Bracketed op es f) : es ≠ [] := by
  induction h with
  | operand => simp
  | join _ _ ihf _ => simp [ihf]

theorem pick_cons (h : es ≠ []) : pick context wanted (e :: es) =
    e.run context >>= fun v => if wanted v then pure v else pick context wanted es := by
  cases es with
  | nil => exact absurd rfl h
  | cons g es => rfl

/-- Once a value is wanted, all that comes after it is passed over. -/
theorem pick_append (he : es ≠ []) (hg : gs ≠ []) : pick context wanted (es ++ gs) =
    pick context wanted es >>= fun v => if wanted v then pure v else pick context wanted gs := by
  induction es with
  | nil => exact absurd rfl he
  | cons e es ih =>
    by_cases hes : es = []
    · subst hes
      exact pick_cons hg
    · rw [List.cons_append, pick_cons (by simp [hes]), pick_cons hes, Run.bind_assoc]
      refine congrArg _ (funext fun v => ?_)
      cases hv : wanted v with
      | true =>
        change pure v = if wanted v then pure v else pick context wanted gs
        rw [hv]
        rfl
      | false => exact ih hes

/-- The operators pass the wanted operand on, and the right one if the left one is not wanted. -/
theorem run_wanted (hop : op.wanted? = some wanted) : (binary op f g).run context =
    f.run context >>= fun v => if wanted v then pure v else g.run context := by
  have hright (left : Value) : (g.run context >>= op.combine left) = g.run context := by
    cases op <;> cases hop <;> exact (g.run context).bind_pure
  have hsettles : op.settles = wanted := by
    cases op <;> cases hop <;> rfl
  rw [run_binary]
  refine congrArg _ (funext fun left => ?_)
  rw [BinaryOp.apply, hright, hsettles]

theorem Bracketed.run_eq (hop : op.wanted? = some wanted) (h : Bracketed op es f) :
    f.run context = pick context wanted es := by
  induction h with
  | operand => rfl
  | join hf hg ihf ihg => rw [run_wanted hop, ihf, ihg, pick_append hf.ne_nil hg.ne_nil]

/-- What is picked is an operand. Those before it are not wanted, and it is wanted unless it is the last. -/
theorem pick_ok (he : es ≠ []) (h : (pick context wanted es).outcome = .ok v) :
    ∃ passed e rest, es = passed ++ e :: rest ∧
      (∀ g ∈ passed, ∃ u, g.evaluate context = .ok u ∧ wanted u = false) ∧
      e.evaluate context = .ok v ∧ (wanted v = true ∨ rest = []) ∧
      (pick context wanted es).reads = (passed ++ [e]).flatMap fun g => (g.run context).reads := by
  induction es with
  | nil => exact absurd rfl he
  | cons e es ih =>
    by_cases hes : es = []
    · subst hes
      exact ⟨[], e, [], rfl, by simp, h, Or.inr rfl, by simp [pick]⟩
    · rw [pick_cons hes] at h ⊢
      obtain ⟨u, hu, hnext, hreads⟩ := Run.bind_ok h
      cases hwanted : wanted u with
      | true =>
        rw [hwanted] at hnext hreads
        cases hnext
        have hsilent : (pure v : Run Value).reads = [] := rfl
        exact ⟨[], e, es, rfl, by simp, hu, Or.inl hwanted, by simp [hreads, hsilent]⟩
      | false =>
        rw [hwanted] at hnext hreads
        obtain ⟨passed, e', rest, rfl, hpassed, hv, hend, hrest⟩ := ih hes hnext
        refine ⟨e :: passed, e', rest, rfl, ?_, hv, hend, ?_⟩
        · exact List.forall_mem_cons.mpr ⟨⟨u, hu, hwanted⟩, hpassed⟩
        · rw [hreads, List.cons_append, List.flatMap_cons, ← hrest]
          rfl

/-- Whatever the bracketing, a chain comes to the first operand that its operator wants, or to the last one, and reads
what the operands up to it read. All bracketings of the same operands run alike, be it to a fault. -/
theorem logical_chain_picks (op : BinaryOp) (wanted : Value → Bool) (hop : op.wanted? = some wanted)
    (es : List Formula) (f : Formula) (h : Bracketed op es f) (context : Context) :
    (∀ g, Bracketed op es g → g.run context = f.run context) ∧
    ∀ v, f.evaluate context = .ok v → ∃ passed e rest, es = passed ++ e :: rest ∧
      (∀ g ∈ passed, ∃ u, g.evaluate context = .ok u ∧ wanted u = false) ∧
      e.evaluate context = .ok v ∧ (wanted v = true ∨ rest = []) ∧
      (f.run context).reads = (passed ++ [e]).flatMap fun g => (g.run context).reads := by
  constructor
  · intro g hg
    rw [hg.run_eq hop, h.run_eq hop]
  · intro v hv
    unfold evaluate at hv
    rw [h.run_eq hop] at hv ⊢
    exact pick_ok h.ne_nil hv

/-- The third of four is the first that is not absent, and the fourth is not read. -/
theorem third_of_four_picked :
    let context := Context.ofEntries [(.text "c", .int 0), (.text "d", .int 1)]
    let ask (path : String) := reference .note (.text path)
    let es := [ask "a", ask "b", ask "c", ask "d"]
    let f := binary .nullish (binary .nullish (ask "a") (ask "b")) (binary .nullish (ask "c") (ask "d"))
    let g := binary .nullish (ask "a") (binary .nullish (binary .nullish (ask "b") (ask "c")) (ask "d"))
    BinaryOp.wanted? .nullish = some (fun v => !v.isAbsent) ∧ Bracketed .nullish es f ∧
      g.run context = f.run context ∧ f.evaluate context = .ok (.int 0) ∧
      (f.run context).reads = [.text "a", .text "b", .text "c"] := by
  intro context ask es f g
  have hf : Bracketed .nullish es f := .join (.join (.operand _) (.operand _)) (.join (.operand _) (.operand _))
  have hg : Bracketed .nullish es g :=
    .join (.operand _) (.join (.join (.operand _) (.operand _)) (.operand _))
  obtain ⟨halike, -⟩ := logical_chain_picks .nullish _ rfl es f hf context
  exact ⟨rfl, hf, halike g hg, rfl, rfl⟩

end Formula

end NoteFormula

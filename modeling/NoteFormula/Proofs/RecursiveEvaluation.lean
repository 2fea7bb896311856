import NoteFormula.Proofs.EvaluationSteps

/-! # Evaluation by recursion

The walk with a stack of pending operators is compared with plain recursion on the parts of a formula. Both come
to the same outcome and ask for the same paths in the same order.
-/
namespace NoteFormula

namespace Run

variable {α β : Type}

theorem bind_pure (run : Run α) : run >>= pure = run := by
  change Run.bind run Run.pure = run
  rcases run with ⟨fault | a, reads⟩
  · rfl
  · change Run.mk (.ok a) (reads ++ []) = _
    rw [List.append_nil]

end Run

namespace Formula

/-- The run of a formula by recursion on its parts. Three operators come to their right side only when the left
side does not settle them; all others need both sides. -/
def recursiveRun (context : Context) : Formula → Run Value
  | absent => .fail (.notFormula {})
  | literal v => pure v
  | reference _ path => .ask context path
  | unary op f => do return op.apply (← f.recursiveRun context)
  | binary op f g => do
    let left ← f.recursiveRun context
    match op with
    | .and => if left.truthy then g.recursiveRun context else return left
    | .or => if left.truthy then return left else g.recursiveRun context
    | .nullish => if left.isAbsent then g.recursiveRun context else return left
    | op => op.combine left (← g.recursiveRun context)
  | conditional c t e => do
    if (← c.recursiveRun context).truthy then t.recursiveRun context
    else if e.isAbsent then return .bool false
    else e.recursiveRun context
  | contains h n => do
    let haystack ← h.recursiveRun context
    let needle ← n.recursiveRun context
    return .bool (← haystack.holds needle)
  | length f => do return .int (← f.recursiveRun context).size

/-- What is below the binary operators of a left spine, and the operators with their right sides, innermost
first. -/
def leftSpine : Formula → Formula × List (BinaryOp × Formula)
  | binary op f g => (f.leftSpine.1, f.leftSpine.2 ++ [(op, g)])
  | f => (f, [])

variable {context : Context} {f g : Formula}

/-- Each operator goes on to its right side exactly when recursion does. -/
theorem apply_eq (op : BinaryOp) (left : Value) (right : Run Value) : op.apply left (fun _ => right) =
    match op with
    | .and => if left.truthy then right else pure left
    | .or => if left.truthy then pure left else right
    | .nullish => if left.isAbsent then right else pure left
    | op => right >>= op.combine left := by
  cases op with
  | and =>
    have hright : right >>= BinaryOp.and.combine left = right := right.bind_pure
    cases hleft : left.truthy <;> simp [BinaryOp.apply, BinaryOp.settles, hleft, hright]
  | or =>
    have hright : right >>= BinaryOp.or.combine left = right := right.bind_pure
    cases hleft : left.truthy <;> simp [BinaryOp.apply, BinaryOp.settles, hleft, hright]
  | nullish =>
    have hright : right >>= BinaryOp.nullish.combine left = right := right.bind_pure
    cases hleft : left.isAbsent <;> simp [BinaryOp.apply, BinaryOp.settles, hleft, hright]
  | _ => rfl

theorem recursiveRun_binary (op : BinaryOp) : (binary op f g).recursiveRun context =
    f.recursiveRun context >>= fun left => op.apply left fun _ => g.recursiveRun context := by
  rw [recursiveRun]
  exact congrArg _ (funext fun left => (apply_eq op left _).symm)

/-- The walk with pending operators is plain recursion, in what it comes to and in what it reads. -/
theorem run_eq_recursiveRun (context : Context) (f : Formula) : f.run context = f.recursiveRun context := by
  induction f with
  | absent | literal | reference => rfl
  | unary op f ih =>
    change (f.run context >>= fun v => pure (op.apply v)) = _
    rw [ih]
    rfl
  | binary op f g ihf ihg => rw [run_binary, recursiveRun_binary, ihf, ihg]
  | conditional c t e ihc iht ihe =>
    change (c.run context >>= fun v =>
      if v.truthy then t.run context else if e.isAbsent then pure (Value.bool false) else e.run context) = _
    rw [ihc, iht, ihe]
    rfl
  | contains h n ihh ihn =>
    change (h.run context >>= fun haystack => n.run context >>= fun needle =>
      haystack.holds needle >>= fun found => pure (Value.bool found)) = _
    rw [ihh, ihn]
    rfl
  | length f ih =>
    change (f.run context >>= fun v => pure (Value.int v.size)) = _
    rw [ih]
    rfl

/-- A chain of operators may be folded from the inside out, whatever operators it mixes: a side that an inner
operator leaves unread stays unread, and its value goes on to the outer ones. -/
theorem recursiveRun_eq_foldl (context : Context) (f : Formula) : f.recursiveRun context =
    f.leftSpine.2.foldl (fun run (op, g) => run >>= fun left => op.apply left fun _ => g.recursiveRun context)
      (f.leftSpine.1.recursiveRun context) := by
  induction f with
  | binary op f g ihf _ =>
    rw [recursiveRun_binary, leftSpine, List.foldl_append, ← ihf]
    rfl
  | _ => rfl

/-- Plain recursion is what is run, in outcome and in the order of the paths read. -/
theorem evaluation_is_recursive (context : Context) (f : Formula) :
    f.evaluate context = (f.recursiveRun context).outcome ∧ (f.run context).reads = (f.recursiveRun context).reads := by
  rw [evaluate, run_eq_recursiveRun]
  exact ⟨rfl, rfl⟩

end Formula

end NoteFormula

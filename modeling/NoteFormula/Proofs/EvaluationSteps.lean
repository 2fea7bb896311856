import NoteFormula.Formula.Evaluate

/-! # Steps of the evaluation

The walk down a left spine, with the operators that wait kept on a stack, runs a formula as its parts say: each
kind of formula has one equation for its run, and from it one for its outcome.
-/
namespace NoteFormula

namespace Run

variable {α β γ : Type}

theorem outcome_bind (run : Run α) (next : α → Run β) :
    (run >>= next).outcome = run.outcome >>= fun a => (next a).outcome := by
  change (Run.bind run next).outcome = _
  unfold Run.bind
  cases run.outcome <;> rfl

theorem reads_bind (run : Run α) (next : α → Run β) : (run >>= next).reads =
    match run.outcome with
    | .error _ => run.reads
    | .ok a => run.reads ++ (next a).reads := by
  change (Run.bind run next).reads = _
  unfold Run.bind
  cases run.outcome <;> rfl

theorem bind_assoc (run : Run α) (next : α → Run β) (last : β → Run γ) :
    run >>= next >>= last = run >>= fun a => next a >>= last := by
  obtain ⟨fault | a, reads⟩ := run
  · rfl
  · change Run.bind ⟨(next a).outcome, reads ++ (next a).reads⟩ last =
      ⟨(Run.bind (next a) last).outcome, reads ++ (Run.bind (next a) last).reads⟩
    unfold Run.bind
    cases (next a).outcome with
    | error => rfl
    | ok b => simp only [List.append_assoc]

theorem bind_ok {run : Run α} {next : α → Run β} {b : β} (h : (run >>= next).outcome = .ok b) :
    ∃ a, run.outcome = .ok a ∧ (next a).outcome = .ok b ∧
      (run >>= next).reads = run.reads ++ (next a).reads := by
  rw [outcome_bind] at h
  rw [reads_bind]
  cases hrun : run.outcome with
  | error fault =>
    rw [hrun] at h
    cases h
  | ok a =>
    rw [hrun] at h
    exact ⟨a, rfl, h, rfl⟩

end Run

namespace Formula

variable {context : Context} {f g c h n t e : Formula}

/-- The operators that wait above a formula see nothing but its run. -/
theorem evaluateUnder_eq (context : Context) (f : Formula) (pending : List (Value → Run Value)) :
    f.evaluateUnder context pending = unwind (f.run context) pending := by
  induction f generalizing pending with
  | binary op f g ihf ihg =>
    unfold run
    rw [evaluateUnder, evaluateUnder, ihf, ihf]
    rfl
  | _ => rfl

theorem run_binary (op : BinaryOp) : (binary op f g).run context =
    f.run context >>= fun left => op.apply left fun _ => g.run context := by
  unfold run
  rw [evaluateUnder, evaluateUnder_eq]
  rfl

theorem evaluate_literal (v : Value) : (literal v).evaluate context = .ok v := rfl

theorem evaluate_reference (space : Namespace) (path : Value) :
    (reference space path).evaluate context = (context path).mapError .context := rfl

theorem evaluate_unary (op : UnaryOp) :
    (unary op f).evaluate context = f.evaluate context >>= fun v => .ok (op.apply v) :=
  Run.outcome_bind ..

theorem evaluate_length : (length f).evaluate context = f.evaluate context >>= fun v => .ok (.int v.size) :=
  Run.outcome_bind ..

theorem evaluate_binary (op : BinaryOp) : (binary op f g).evaluate context =
    f.evaluate context >>= fun left => if op.settles left then .ok left
      else g.evaluate context >>= fun right => (op.combine left right).outcome := by
  have hstep (left : Value) : (op.apply left fun _ => g.run context).outcome =
      if op.settles left then .ok left else g.evaluate context >>= fun right => (op.combine left right).outcome := by
    unfold BinaryOp.apply
    split
    · rfl
    · exact Run.outcome_bind ..
  unfold evaluate
  rw [run_binary, Run.outcome_bind]
  exact congrArg _ (funext hstep)

theorem evaluate_conditional : (conditional c t e).evaluate context =
    c.evaluate context >>= fun v => if v.truthy then t.evaluate context
      else if e.isAbsent then .ok (.bool false) else e.evaluate context := by
  refine (Run.outcome_bind ..).trans (congrArg _ (funext fun v => ?_))
  split
  · rfl
  · split <;> rfl

theorem evaluate_contains : (contains h n).evaluate context =
    h.evaluate context >>= fun haystack => n.evaluate context >>= fun needle =>
      (haystack.holds needle).outcome >>= fun found => .ok (.bool found) := by
  refine (Run.outcome_bind ..).trans (congrArg _ (funext fun haystack => ?_))
  refine (Run.outcome_bind ..).trans (congrArg _ (funext fun needle => ?_))
  exact Run.outcome_bind ..

end Formula

end NoteFormula

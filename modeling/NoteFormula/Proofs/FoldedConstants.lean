import NoteFormula.Proofs.RecursiveEvaluation

/-! # Folded constants

A part of a formula may be replaced by the literal of its value, wherever it stands: the formula comes to the same, and
nothing is read that was not read before. What an operator, a call or a branch makes of a part depends on its run alone,
so what holds of the part is carried through each of them up to the whole.
-/
namespace NoteFormula

/-- The first run comes to what the second one does, and asks for no more. -/
structure Run.Abridges {α : Type} (short long : Run α) : Prop where
  outcome : short.outcome = long.outcome
  reads : short.reads.Sublist long.reads

namespace Run

variable {α β : Type} {short long : Run α} {next next' : α → Run β}

theorem Abridges.refl (run : Run α) : run.Abridges run := ⟨rfl, List.Sublist.refl _⟩

theorem Abridges.bind (h : short.Abridges long) (hnext : ∀ a, (next a).Abridges (next' a)) :
    (short >>= next).Abridges (long >>= next') := by
  constructor
  · rw [outcome_bind, outcome_bind, h.outcome]
    exact congrArg _ (funext fun a => (hnext a).outcome)
  · rw [reads_bind, reads_bind, h.outcome]
    cases long.outcome with
    | error fault => exact h.reads
    | ok a => exact h.reads.append (hnext a).reads

theorem Abridges.andThen (h : short.Abridges long) (next : α → Run β) : (short >>= next).Abridges (long >>= next) :=
  h.bind fun a => .refl (next a)

theorem Abridges.after (run : Run α) (hnext : ∀ a, (next a).Abridges (next' a)) :
    (run >>= next).Abridges (run >>= next') :=
  (Abridges.refl run).bind hnext

end Run

namespace Formula

/-- A place in a formula: the way down to one of its parts, with all that stands beside the way. -/
inductive Position where
  | here
  | operand (op : UnaryOp) (place : Position)
  | left (op : BinaryOp) (place : Position) (right : Formula)
  | right (op : BinaryOp) (left : Formula) (place : Position)
  | condition (place : Position) (thenBranch elseBranch : Formula)
  | thenBranch (condition : Formula) (place : Position) (elseBranch : Formula)
  | elseBranch (condition thenBranch : Formula) (place : Position)
  | haystack (place : Position) (needle : Formula)
  | needle (haystack : Formula) (place : Position)
  | measured (place : Position)

def Position.fill (part : Formula) : Position → Formula
  | here => part
  | operand op p => .unary op (p.fill part)
  | left op p g => .binary op (p.fill part) g
  | right op f p => .binary op f (p.fill part)
  | condition p t e => .conditional (p.fill part) t e
  | thenBranch c p e => .conditional c (p.fill part) e
  | elseBranch c t p => .conditional c t (p.fill part)
  | haystack p n => .contains (p.fill part) n
  | needle h p => .contains h (p.fill part)
  | measured p => .length (p.fill part)

variable {context : Context} {short long : Formula}

theorem Position.fill_isAbsent (h : short.isAbsent = long.isAbsent) (p : Position) :
    (p.fill short).isAbsent = (p.fill long).isAbsent := by
  cases p with
  | here => exact h
  | _ => rfl

/-- A right side is come to only if the left one does not settle the operator. -/
theorem apply_abridges (op : BinaryOp) (left : Value) {short long : Run Value} (h : short.Abridges long) :
    (op.apply left fun _ => short).Abridges (op.apply left fun _ => long) := by
  unfold BinaryOp.apply
  split
  · exact .refl _
  · exact h.andThen _

/-- A part that is abridged abridges the whole. -/
theorem Position.abridges (hruns : (short.recursiveRun context).Abridges (long.recursiveRun context))
    (habsent : short.isAbsent = long.isAbsent) (p : Position) :
    ((p.fill short).recursiveRun context).Abridges ((p.fill long).recursiveRun context) := by
  induction p with
  | here => exact hruns
  | operand op p ih => exact ih.andThen _
  | left op p g ih =>
    rw [fill, fill, recursiveRun_binary, recursiveRun_binary]
    exact ih.andThen _
  | right op f p ih =>
    rw [fill, fill, recursiveRun_binary, recursiveRun_binary]
    exact .after _ fun left => apply_abridges op left ih
  | condition p t e ih => exact ih.andThen _
  | thenBranch c p e ih =>
    refine .after _ fun v => ?_
    split
    · exact ih
    · exact .refl _
  | elseBranch c t p ih =>
    refine .after _ fun v => ?_
    split
    · exact .refl _
    · rw [p.fill_isAbsent habsent]
      split
      · exact .refl _
      · exact ih
  | haystack p n ih => exact ih.andThen _
  | needle h p ih => exact .after _ fun haystack => ih.andThen _
  | measured p ih => exact ih.andThen _

/-- Where a part comes to a value, the literal of this value may take its place, whatever the place: the formula comes
to the same value or to the same fault, and reads no more than before. -/
theorem constant_folded (p : Position) (part : Formula) (v : Value) (context : Context)
    (h : part.evaluate context = .ok v) :
    (p.fill (literal v)).evaluate context = (p.fill part).evaluate context ∧
      ((p.fill (literal v)).run context).reads.Sublist ((p.fill part).run context).reads := by
  have hpresent : (literal v).isAbsent = part.isAbsent := by
    cases part with
    | absent => cases h
    | _ => rfl
  have hruns : ((literal v).recursiveRun context).Abridges (part.recursiveRun context) := by
    constructor
    · rw [← run_eq_recursiveRun context part]
      exact h.symm
    · exact List.nil_sublist _
  have hwhole := p.abridges hruns hpresent
  rw [← run_eq_recursiveRun, ← run_eq_recursiveRun] at hwhole
  exact ⟨hwhole.outcome, hwhole.reads⟩

/-- The disjunction at the bottom of a left spine is folded, and its paths are read no more. -/
theorem disjunction_folded :
    let context := Context.ofEntries [(.text "b", .text "x"), (.text "c", .bool true)]
    let ask (path : String) := reference .note (.text path)
    let part := binary .or (ask "a") (ask "b")
    let whole := (Position.left .add .here (ask "c")).fill part
    let folded := (Position.left .add .here (ask "c")).fill (literal (.text "x"))
    part.evaluate context = .ok (.text "x") ∧ folded.evaluate context = whole.evaluate context ∧
      whole.evaluate context = .ok (.text "xtrue") ∧
      (whole.run context).reads = [.text "a", .text "b", .text "c"] ∧ (folded.run context).reads = [.text "c"] := by
  intro context ask part whole folded
  have hpart : part.evaluate context = .ok (.text "x") := rfl
  obtain ⟨hsame, -⟩ := constant_folded (.left .add .here (ask "c")) part (.text "x") context hpart
  exact ⟨hpart, hsame, rfl, rfl, rfl⟩

end Formula

end NoteFormula

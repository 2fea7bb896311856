import NoteFormula.Formula.Basic
import NoteFormula.Frontmatter
import NoteFormula.Value.Equality

/-! # Evaluation

A run yields an outcome and the paths that the context was asked for, in order and with repeats, also when it
fails. Chains of binary operators lean left; their left spine is descended with the pending operators on a
stack and then folded back.
-/
namespace NoteFormula

inductive EvalFault where
  | notFormula (fault : NotFormula)
  | context (fault : ContextFault)
  | equality (fault : Value.EqualityFault)

def EvalFault.message : EvalFault → String
  | notFormula fault => fault.message
  | context fault => fault.message
  | equality .integerTooLarge => "int too large to convert to float"

structure Run (α : Type) where
  outcome : Except EvalFault α
  reads : List Value

namespace Run

protected def pure (a : α) : Run α := ⟨.ok a, []⟩

def fail (fault : EvalFault) : Run α := ⟨.error fault, []⟩

protected def bind (run : Run α) (next : α → Run β) : Run β :=
  match run.outcome with
  | .error fault => ⟨.error fault, run.reads⟩
  | .ok a =>
    let after := next a
    ⟨after.outcome, run.reads ++ after.reads⟩

instance : Monad Run where
  pure := Run.pure
  bind := Run.bind

def ask (context : Context) (path : Value) : Run Value :=
  ⟨(context path).mapError .context, [path]⟩

def looselyEqual (left right : Value) : Run Bool :=
  ⟨(left.looselyEqual right).mapError .equality, []⟩

end Run

namespace Value

/-- Texts are joined, with an absent side left empty; everything else is added as numbers. -/
def add (left right : Value) : Value :=
  match left, right with
  | text a, right => text (a ++ if right.isAbsent then "" else right.toText)
  | left, text b => text ((if left.isAbsent then "" else left.toText) ++ b)
  | left, right => float (left.toNumber + right.toNumber)

/-- Whether any item is loosely equal to the needle; the search stops at the first. -/
def anyLooselyEqual (needle : Value) : List Value → Run Bool
  | [] => pure false
  | item :: rest => do
    if ← Run.looselyEqual item needle then return true
    anyLooselyEqual needle rest

def isInfix (needle hay : List Char) : Bool :=
  match hay with
  | [] => needle.isEmpty
  | c :: cs => needle.isPrefixOf (c :: cs) || isInfix needle cs

/-- A list holds what is loosely equal to one of its items, a text what occurs in it in any letter case. -/
def holds (haystack needle : Value) : Run Bool :=
  match haystack with
  | list items | tuple items => anyLooselyEqual needle items
  | text s =>
    if needle.isAbsent then pure false
    else pure (isInfix (Text.lowercase needle.toText).toList (Text.lowercase s).toList)
  | _ => pure false

def size : Value → Nat
  | text s => s.length
  | list items | tuple items => items.length
  | _ => 0

end Value

namespace BinaryOp

def combine (op : BinaryOp) (left right : Value) : Run Value :=
  match op with
  | and | or | nullish => pure right
  | equals => return .bool (← Run.looselyEqual left right)
  | notEquals => return .bool !(← Run.looselyEqual left right)
  | greater => pure (.bool (decide (left.toNumber > right.toNumber)))
  | greaterEqual => pure (.bool (decide (left.toNumber ≥ right.toNumber)))
  | less => pure (.bool (decide (left.toNumber < right.toNumber)))
  | lessEqual => pure (.bool (decide (left.toNumber ≤ right.toNumber)))
  | add => pure (left.add right)
  | subtract => pure (.float (left.toNumber - right.toNumber))
  | multiply => pure (.float (left.toNumber * right.toNumber))
  | divide => pure (.float (left.toNumber / right.toNumber))

def settles (op : BinaryOp) (left : Value) : Bool :=
  match op with
  | and => !left.truthy
  | or => left.truthy
  | nullish => !left.isAbsent
  | _ => false

def apply (op : BinaryOp) (left : Value) (right : Unit → Run Value) : Run Value :=
  if op.settles left then pure left
  else right () >>= op.combine left

end BinaryOp

def UnaryOp.apply (op : UnaryOp) (operand : Value) : Value :=
  match op with
  | not => .bool !operand.truthy
  | negate => .float (-operand.toNumber)

namespace Formula

/-- Passes a value up through the operators that wait for it, innermost first. -/
def unwind (value : Run Value) (pending : List (Value → Run Value)) : Run Value :=
  pending.foldl (fun run operator => run >>= operator) value

/-- The value of a formula under the operators of the spine above it. -/
def evaluateUnder (context : Context) : Formula → List (Value → Run Value) → Run Value
  | absent, pending => unwind (.fail (.notFormula {})) pending
  | literal v, pending => unwind (pure v) pending
  | reference _ path, pending => unwind (.ask context path) pending
  | unary op f, pending =>
    unwind (do return op.apply (← evaluateUnder context f [])) pending
  | binary op f g, pending =>
    evaluateUnder context f ((fun left => op.apply left fun _ => evaluateUnder context g []) :: pending)
  | conditional c t e, pending =>
    unwind (do
      if (← evaluateUnder context c []).truthy then evaluateUnder context t []
      else if e.isAbsent then return .bool false
      else evaluateUnder context e []) pending
  | contains h n, pending =>
    unwind (do
      let haystack ← evaluateUnder context h []
      let needle ← evaluateUnder context n []
      return .bool (← haystack.holds needle)) pending
  | length f, pending =>
    unwind (do return .int (← evaluateUnder context f []).size) pending

def run (context : Context) (f : Formula) : Run Value := f.evaluateUnder context []

def evaluate (context : Context) (f : Formula) : Except EvalFault Value := (f.run context).outcome

end Formula

end NoteFormula

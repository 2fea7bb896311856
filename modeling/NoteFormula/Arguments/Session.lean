import NoteFormula.Arguments.Answer

/-! # Sessions

A run of steps over one front matter that is written to between evaluations. A step that fails writes nothing.
-/
namespace NoteFormula

inductive Step where
  /-- Evaluate a text and write its value under a name. -/
  | assign (name source : String) (limit : Int)
  /-- Evaluate arguments and write their texts under their names. -/
  | batch (args : Arguments) (limit : Int)

inductive StepAnswer where
  | assigned (answer : Answer)
  | batched (texts : ArgumentTexts)

namespace Step

def answer (entries : Value.Entries) : Step → Except ArgumentFault StepAnswer
  | assign _ source limit => return .assigned (← Answer.ofText (Context.ofEntries entries) limit source)
  | batch args limit => return .batched (← ArgumentTexts.ofArguments (Context.ofEntries entries) limit args)

def write (entries : Value.Entries) : Step → StepAnswer → Value.Entries
  | assign name _ _, .assigned answer => Value.setEntry entries name answer.value
  | _, .batched texts => texts.texts.foldl (fun es (name, s) => Value.setEntry es name (.text s)) entries
  | _, _ => entries

def next (entries : Value.Entries) (step : Step) : Except ArgumentFault StepAnswer × Value.Entries :=
  match step.answer entries with
  | .ok answer => (.ok answer, step.write entries answer)
  | .error fault => (.error fault, entries)

def runAll : Value.Entries → List Step → List (Except ArgumentFault StepAnswer)
  | _, [] => []
  | entries, step :: rest =>
    let (answer, entries) := step.next entries
    answer :: runAll entries rest

end Step

end NoteFormula

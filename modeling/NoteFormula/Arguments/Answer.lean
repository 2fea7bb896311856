import NoteFormula.Formula.Evaluate
import NoteFormula.Formula.Parser
import NoteFormula.Json.Compact
import NoteFormula.Token.Lexer
import NoteFormula.Token.References

/-! # Arguments

An argument text is evaluated when it is a formula and stands for itself when it is not. The referenced keys
are told from its tokens, so a text that does not parse still reports them, and one that does not scan reports
none.
-/
namespace NoteFormula

inductive ArgumentFault where
  | parse (fault : ParseFault)
  | context (fault : ContextFault)
  | eval (fault : EvalFault)

def ArgumentFault.message : ArgumentFault → String
  | parse fault => fault.message
  | context fault => fault.message
  | eval fault => fault.message

/-- Faults of the caller, which do not make a text plain. -/
def ParseFault.isMisuse : ParseFault → Bool
  | limitTooLow _ | unknownBinary _ | unknownUnary _ => true
  | _ => false

structure Answer where
  value : Value
  keys : Keys
  /-- Why the text was taken as it stands, if it was. -/
  remark : Option String

namespace Answer

def remarkOn (source reason : String) : String := "Treating " ++ Text.quoted source ++ " as plain text: " ++ reason

def plain (source : String) (keys : Keys) (reason : String) : Answer :=
  ⟨.text source, keys, some (remarkOn source reason)⟩

def checkLimit (limit : Int) : Except ArgumentFault Unit :=
  if limit < 1 then .error (.parse (.limitTooLow limit)) else .ok ()

def ofText (context : Context) (limit : Int) (source : String) : Except ArgumentFault Answer := do
  checkLimit limit
  match Token.tokenize source with
  | .error unexpected => return plain source {} unexpected.message
  | .ok tokens =>
    let keys := Token.references tokens
    match parse tokens limit with
    | .error fault => if fault.isMisuse then throw (.parse fault) else return plain source keys fault.message
    | .ok f => return ⟨← (f.evaluate context).mapError .eval, keys, none⟩

def ofTextIn (context : Value) (limit : Int) (source : String) : Except ArgumentFault Answer := do
  checkLimit limit
  ofText (← (Context.ofValue? context).mapError .context) limit source

end Answer

abbrev Arguments := List (String × String)

structure ArgumentTexts where
  texts : Arguments := []
  keys : Keys := {}
  remarks : List String := []

namespace ArgumentTexts

def add (sofar : ArgumentTexts) (name : String) (answer : Answer) : ArgumentTexts where
  texts := sofar.texts ++ [(name, answer.value.argumentText)]
  keys := sofar.keys.merge answer.keys
  remarks := sofar.remarks ++ answer.remark.toList

def ofArguments (context : Context) (limit : Int) (args : Arguments) : Except ArgumentFault ArgumentTexts := do
  Answer.checkLimit limit
  args.foldlM (fun sofar (name, source) => return sofar.add name (← Answer.ofText context limit source)) {}

def ofArgumentsIn (context : Value) (limit : Int) (args : Arguments) : Except ArgumentFault ArgumentTexts := do
  Answer.checkLimit limit
  ofArguments (← (Context.ofValue? context).mapError .context) limit args

end ArgumentTexts

end NoteFormula

import NoteFormula.Formula.Metrics
import NoteFormula.Token.Basic

/-! # References in a token list

The paths that a text mentions can be told from its tokens, whether or not they form a formula.
-/
namespace NoteFormula.Token

def addReference (keys : Keys) (token : Token) : Keys :=
  match token.kind with
  | .noteRef => keys.add .note token.value
  | .fileRef => keys.add .file token.value
  | _ => keys

def references (tokens : List Token) : Keys := tokens.foldl addReference {}

end NoteFormula.Token

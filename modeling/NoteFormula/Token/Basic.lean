import NoteFormula.Value.Basic

/-! # Tokens

A token is a kind, a value and the text it stands for. Lists made by hand may pair them freely: the kind
decides the grammar, the text names the operator, the value is what literals and references carry.
-/
namespace NoteFormula

inductive TokenKind where
  | number | text | boolean
  | word | noteRef | fileRef
  | plus | minus | star | slash
  | eq | neq | gt | lt | gte | lte
  | and | or | not | nullish
  | lparen | rparen | comma
  | ifWord | containsWord | lengthWord
  | eof
deriving DecidableEq, Repr

structure Token where
  kind : TokenKind
  value : Value
  raw : String

namespace Token

def eof : Token := ⟨.eof, .text "", ""⟩

/-- A token whose value is the text it stands for. -/
def spelled (kind : TokenKind) (cs : List Char) : Token := ⟨kind, .text (String.ofList cs), String.ofList cs⟩

instance : Inhabited Token := ⟨eof⟩

end Token

end NoteFormula

import NoteFormula.Value.Basic

/-! # Formulas

The tree that an argument text stands for. A record read from outside may leave a part out; such a part is
`absent`. Only the last branch of a conditional may be absent in a tree that a text stands for.
-/
namespace NoteFormula

inductive BinaryOp where
  | and | or | nullish
  | equals | notEquals
  | greater | greaterEqual | less | lessEqual
  | add | subtract | multiply | divide
deriving DecidableEq, Repr

namespace BinaryOp

def symbol : BinaryOp → String
  | and => "&&"
  | or => "||"
  | nullish => "??"
  | equals => "=="
  | notEquals => "!="
  | greater => ">"
  | greaterEqual => ">="
  | less => "<"
  | lessEqual => "<="
  | add => "+"
  | subtract => "-"
  | multiply => "*"
  | divide => "/"

def all : List BinaryOp :=
  [and, or, nullish, equals, notEquals, greater, greaterEqual, less, lessEqual, add, subtract, multiply, divide]

def ofSymbol? (s : String) : Option BinaryOp := all.find? fun op => op.symbol == s

end BinaryOp

inductive UnaryOp where
  | not | negate
deriving DecidableEq, Repr

namespace UnaryOp

def symbol : UnaryOp → String
  | not => "!"
  | negate => "-"

def all : List UnaryOp := [not, negate]

def ofSymbol? (s : String) : Option UnaryOp := all.find? fun op => op.symbol == s

end UnaryOp

/-- The list a reference is reported in. Both are looked up in the same context. -/
inductive Namespace where
  | note | file
deriving DecidableEq, Repr

namespace Namespace

def symbol : Namespace → String
  | note => "fm"
  | file => "file"

def all : List Namespace := [note, file]

def ofSymbol? (s : String) : Option Namespace := all.find? fun n => n.symbol == s

end Namespace

inductive Formula where
  | absent
  | literal (value : Value)
  | reference (space : Namespace) (path : Value)
  | unary (op : UnaryOp) (operand : Formula)
  | binary (op : BinaryOp) (left right : Formula)
  | conditional (condition thenBranch elseBranch : Formula)
  | contains (haystack needle : Formula)
  | length (operand : Formula)

/-- Something that is no formula stands where one is needed; an absent part, unless another value is named. -/
structure NotFormula where
  kind : String := Value.absent.kindPhrase

def NotFormula.message (f : NotFormula) : String := "Unsupported Expression type: " ++ f.kind

namespace Formula

instance : Inhabited Formula := ⟨absent⟩

def isAbsent : Formula → Bool
  | absent => true
  | _ => false

def children : Formula → Except NotFormula (List Formula)
  | absent => .error {}
  | literal _ | reference .. => .ok []
  | unary _ f | length f => .ok [f]
  | binary _ f g | contains f g => .ok [f, g]
  | conditional c t e => .ok (if e.isAbsent then [c, t] else [c, t, e])

end Formula

end NoteFormula

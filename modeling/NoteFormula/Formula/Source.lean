import NoteFormula.Decimal.NoteText
import NoteFormula.Formula.Basic
import NoteFormula.Value.Inspect

/-! # Canonical source text

A formula written so that it reads back: every binary operation in parentheses, every text in double quotes,
numbers without exponents. Numbers that have no literal form are written as the operations that yield them.
-/
namespace NoteFormula

def sourceEscape : Char → List Char
  | '\\' => ['\\', '\\']
  | '"' => ['\\', '"']
  | '\n' => ['\\', 'n']
  | '\t' => ['\\', 't']
  | '\r' => ['\\', 'r']
  | c => [c]

def sourceText (s : String) : List Char := '"' :: s.toList.flatMap sourceEscape ++ ['"']

def sourceFloat (x : Float) : List Char :=
  match Decimal.Binary.ofFloat x with
  | .nan => "(0 / 0)".toList
  | .infinite negative => (if negative then "(-1 / 0)" else "(1 / 0)").toList
  | .finite .. => Decimal.formulaText x

def Value.source : Value → List Char
  | absent => "null".toList
  | bool b => (if b then "true" else "false").toList
  | int n => Text.decimalInt n
  | float x => sourceFloat x
  | v => sourceText v.shown

namespace Formula

def isBool (b : Bool) : Formula → Bool
  | literal (.bool b') => b == b'
  | _ => false

def commas (parts : List (List Char)) : List Char := [',', ' '].intercalate parts

def call (name : String) (arguments : List (List Char)) : List Char :=
  name.toList ++ '(' :: commas arguments ++ [')']

def source : Formula → Except NotFormula (List Char)
  | absent => .error {}
  | literal v => .ok v.source
  | reference space path => .ok (space.symbol.toList ++ '.' :: path.shown.toList)
  | unary op f => do return op.symbol.toList ++ (← source f)
  | binary op f g => do
    let left ← source f
    let right ← source g
    return '(' :: left ++ ' ' :: op.symbol.toList ++ ' ' :: right ++ [')']
  | conditional c t e => do
    let condition ← source c
    if t.isBool true && e.isBool false then return call "if" [condition]
    let thenText ← source t
    if e.isAbsent then return call "if" [condition, thenText]
    return call "if" [condition, thenText, ← source e]
  | contains h n => do
    let haystack ← source h
    return call "contains" [haystack, ← source n]
  | length f => do return call "length" [← source f]

def sourceString (f : Formula) : Except NotFormula String := f.source.map String.ofList

end Formula

end NoteFormula

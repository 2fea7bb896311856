import NoteFormula.Decimal.Basic
import NoteFormula.Text.Blank

/-! # Numerals in text

Reading of the longest numeral at the start of a text. A half-written exponent is left unread.
-/
namespace NoteFormula.Decimal

/-- An optional sign; `true` is minus. -/
def sign : List Char → Bool × List Char
  | '-' :: cs => (true, cs)
  | '+' :: cs => (false, cs)
  | cs => (false, cs)

/-- Digits with an optional point, or a point and digits. -/
structure Mantissa where
  whole : List Char
  fraction : Option (List Char)

namespace Mantissa

def spelling (m : Mantissa) : List Char :=
  match m.fraction with
  | some fraction => m.whole ++ '.' :: fraction
  | none => m.whole

def decimal (m : Mantissa) (exponent : Int) : Decimal := ofParts m.whole (m.fraction.getD []) exponent

/-- The longest mantissa a text begins with, and the rest. -/
def read? (cs : List Char) : Option (Mantissa × List Char) :=
  let whole := cs.takeWhile Text.isDigit
  match cs.dropWhile Text.isDigit with
  | '.' :: after =>
    let fraction := after.takeWhile Text.isDigit
    if whole.isEmpty && fraction.isEmpty then none
    else some (⟨whole, some fraction⟩, after.dropWhile Text.isDigit)
  | rest => if whole.isEmpty then none else some (⟨whole, none⟩, rest)

end Mantissa

def exponentPart (cs : List Char) : Int × List Char :=
  match cs with
  | [] => (0, [])
  | e :: after =>
    if e = 'e' || e = 'E' then
      let (negative, digits) := sign after
      match digits.takeWhile Text.isDigit with
      | [] => (0, cs)
      | ds =>
        let power : Int := Text.ofDigits ds
        (if negative then -power else power, digits.dropWhile Text.isDigit)
    else (0, cs)

def numeral? (cs : List Char) : Option (Float × List Char) :=
  let (negative, unsigned) := sign cs
  if "Infinity".toList.isPrefixOf unsigned then
    some (infinity negative, unsigned.drop 8)
  else do
    let (mantissa, rest) ← Mantissa.read? unsigned
    let (exponent, rest) := exponentPart rest
    return ((mantissa.decimal exponent).toFloat negative, rest)

def leadingNumber? (cs : List Char) : Option Float := (numeral? (Text.trimLeft cs)).map (·.1)

end NoteFormula.Decimal

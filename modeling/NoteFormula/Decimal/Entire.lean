import NoteFormula.Decimal.Numeral
import NoteFormula.Text.ScriptDigits

/-! # Texts that are numbers

A number that fills a text from end to end, margins apart. The digits of every script are digits here, and
blanks beyond ASCII are margins like the space and the line breaks.
-/
namespace NoteFormula.Decimal

/-- A character as a number is read: a digit of any script as the ASCII one, a blank beyond ASCII as a space. -/
def asciiOf (c : Char) : Char :=
  if c.toNat < 0x7f then c
  else if Text.isBlank c then ' '
  else match Text.scriptDigit? c with
    | some d => Nat.digitChar d
    | none => c

/-- The space, the tab and what ends a line or a page. -/
def isMargin (c : Char) : Bool := c = ' ' || ('\t' ≤ c && c ≤ '\r')

def withoutMargins (cs : List Char) : List Char :=
  (((cs.map asciiOf).dropWhile isMargin).reverse.dropWhile isMargin).reverse

def baseLetter? (base : Nat) : Option Char :=
  if base = 2 then some 'b' else if base = 8 then some 'o' else if base = 16 then some 'x' else none

/-- Takes off a zero and the letter of the base, if both are there. -/
def withoutBase (base : Nat) (cs : List Char) : List Char :=
  match cs with
  | '0' :: letter :: rest => if baseLetter? base = some letter.toLower then rest else cs
  | _ => cs

def isDigitOf (base : Nat) (c : Char) : Bool := (Text.digitValue? c).any (· < base)

def entireInt? (base : Nat) (cs : List Char) : Option Int :=
  let (negative, unsigned) := sign (withoutMargins cs)
  let digits := withoutBase base unsigned
  if !digits.isEmpty && digits.all (isDigitOf base) then
    let size : Int := Text.ofBase base digits
    some (if negative then -size else size)
  else none

/-- The double that a text is, in digits or by one of the words for those without. -/
def entireFloat? (cs : List Char) : Option Float :=
  let (negative, unsigned) := sign (withoutMargins cs)
  let word := unsigned.map Char.toLower
  if word = "inf".toList || word = "infinity".toList then some (infinity negative)
  else if word = "nan".toList then some notANumber
  else do
    let (mantissa, rest) ← Mantissa.read? unsigned
    let (exponent, rest) := exponentPart rest
    if rest.isEmpty then some ((mantissa.decimal exponent).toFloat negative) else none

end NoteFormula.Decimal

import NoteFormula.Decimal.Layout
import NoteFormula.Decimal.Numeral

/-! # Texts of numbers in notes

The text of a double in a note is made from the text that always shows a double: the digits are cut out of it and set
anew around the same point. A formula has the text of a note, spread out where that text has an exponent.
-/
namespace NoteFormula.Decimal

/-- The digits of a written magnitude on both sides of its point, and the power of ten after them. -/
structure Parts where
  whole : List Char
  fraction : List Char
  power : Int

def Parts.ofText (text : List Char) : Parts :=
  let mantissa := text.takeWhile (· ≠ 'e')
  ⟨mantissa.takeWhile (· ≠ '.'), (mantissa.dropWhile (· ≠ '.')).drop 1, (exponentPart (text.dropWhile (· ≠ 'e'))).1⟩

/-- Zeros in front are dropped one by one, and the point moves along. A lone zero stays. -/
def withoutZeros : List Char → Int → List Char × Int
  | '0' :: d :: digits, point => withoutZeros (d :: digits) (point - 1)
  | digits, point => (digits, point)

/-- Sets significant digits as a note shows them: with an exponent only below a millionth and from 1e21 on. -/
def setInNote (digits : List Char) (point : Int) : List Char :=
  let count : Int := digits.length
  if count ≤ point ∧ point ≤ 21 then digits ++ List.replicate (point - count).toNat '0'
  else if 0 < point ∧ point ≤ 21 then digits.take point.toNat ++ '.' :: digits.drop point.toNat
  else if -6 < point ∧ point ≤ 0 then '0' :: '.' :: List.replicate (-point).toNat '0' ++ digits
  else
    let power := point - 1
    let head := match digits with
      | d :: e :: rest => d :: '.' :: e :: rest
      | _ => digits
    head ++ 'e' :: (if 0 ≤ power then '+' else '-') :: Text.decimalDigits power.natAbs

def noteText (x : Float) : List Char :=
  match Binary.ofFloat x with
  | .nan => "NaN".toList
  | .infinite negative => if negative then "-Infinity".toList else "Infinity".toList
  | .finite negative mantissa _ =>
    if mantissa = 0 then ['0']
    else
      let parts := Parts.ofText (Layout.plain.write (if negative then -x else x))
      let (digits, point) := withoutZeros (parts.whole ++ parts.fraction) (parts.whole.length + parts.power)
      (if negative then ['-'] else []) ++ setInNote (significant digits) point

/-- All digits of a decimal, with zeros up to the point or down to it. -/
def spread (d : Decimal) : List Char :=
  let digits := Text.decimalDigits (d.digits * pow10 d.exponent.toNat)
  let places := (-d.exponent).toNat
  if places = 0 then digits
  else if places < digits.length then
    digits.take (digits.length - places) ++ '.' :: digits.drop (digits.length - places)
  else '0' :: '.' :: List.replicate (places - digits.length) '0' ++ digits

def spreadText (text : List Char) : List Char :=
  let (negative, unsigned) := sign text
  let parts := Parts.ofText unsigned
  (if negative then ['-'] else []) ++ (ofParts parts.whole parts.fraction parts.power).spread

/-- The text of a finite number in a formula, where exponents cannot be read. -/
def formulaText (x : Float) : List Char :=
  let text := noteText x
  if 'e' ∈ text then spreadText (Layout.plain.write x) else text

end NoteFormula.Decimal

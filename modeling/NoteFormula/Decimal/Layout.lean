import NoteFormula.Decimal.Shortest

/-! # Layout of numbers

How the digits of a double are set: where positional notation ends, and how the exponent is written. A layout
is one record; the digits are always the shortest ones that read back.
-/
namespace NoteFormula.Decimal

structure Layout where
  /-- The range of point positions that are written without an exponent; `none` is every position. -/
  positional : Option (Int × Int)
  /-- Written after a whole number that has no exponent. -/
  wholeTail : List Char
  /-- Written after a single digit that has an exponent. -/
  mantissaTail : List Char
  exponentWidth : Nat
  signedZero : Bool
  nan : String
  infinity : String

def Layout.isPositional (L : Layout) (point : Int) : Bool :=
  match L.positional with
  | none => true
  | some (least, greatest) => least ≤ point && point ≤ greatest

/-- Digits without zeros at the end; a lone zero stays. -/
def significant (digits : List Char) : List Char :=
  match (digits.reverse.dropWhile (· = '0')).reverse with
  | [] => ['0']
  | ds => ds

def Layout.exponentText (L : Layout) (power : Int) : List Char :=
  'e' :: (if power < 0 then '-' else '+') :: Text.padLeft L.exponentWidth (Text.decimalDigits power.natAbs)

/-- Sets significant digits with the point at `point` places from their left end. -/
def Layout.set (L : Layout) (digits : List Char) (point : Int) : List Char :=
  if L.isPositional point then
    if digits.length ≤ point then digits ++ List.replicate (point - digits.length).toNat '0' ++ L.wholeTail
    else if 0 < point then digits.take point.toNat ++ '.' :: digits.drop point.toNat
    else '0' :: '.' :: List.replicate (-point).toNat '0' ++ digits
  else
    match digits with
    | [] => []
    | [d] => d :: L.mantissaTail ++ L.exponentText (point - 1)
    | d :: ds => d :: '.' :: ds ++ L.exponentText (point - 1)

def Layout.decimal (L : Layout) (d : Decimal) : List Char :=
  let digits := Text.decimalDigits d.digits
  L.set (significant digits) (digits.length + d.exponent)

def Layout.write (L : Layout) (x : Float) : List Char :=
  match Binary.ofFloat x with
  | .nan => L.nan.toList
  | .infinite negative => if negative then '-' :: L.infinity.toList else L.infinity.toList
  | .finite negative mantissa shift =>
    let text := L.decimal (shortest mantissa shift)
    if negative && (L.signedZero || mantissa != 0) then '-' :: text else text

/-- The text of a double that always shows it is one: `14.0`, `1e-07`, `-0.0`. -/
def Layout.plain : Layout where
  positional := some (-3, 16)
  wholeTail := ['.', '0']
  mantissaTail := []
  exponentWidth := 2
  signedZero := true
  nan := "nan"
  infinity := "inf"

end NoteFormula.Decimal

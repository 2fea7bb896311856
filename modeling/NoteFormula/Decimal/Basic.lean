import NoteFormula.Decimal.Binary
import NoteFormula.Text.Digits

/-! # Decimal magnitudes

The nonnegative number `digits * 10 ^ exponent`, and the double that it rounds to. Exponents far outside the
range of doubles are decided by size alone, so that no huge power is ever formed.
-/
namespace NoteFormula

structure Decimal where
  digits : Nat
  exponent : Int
deriving DecidableEq, Repr

namespace Decimal

def pow10 (n : Nat) : Nat := Nat.pow 10 n

/-- The number spelled by digits with a point between `whole` and `fraction`, times a power of ten. -/
def ofParts (whole fraction : List Char) (exponent : Int) : Decimal :=
  ⟨Text.ofDigits (whole ++ fraction), exponent - fraction.length⟩

/-- The bit pattern, without sign, of the double nearest to the decimal. -/
def code (d : Decimal) : Nat :=
  if d.digits = 0 then 0
  else if 310 < d.exponent then infiniteCode
  else if 0 ≤ d.exponent then nearestCode (d.digits * pow10 d.exponent.toNat * grainsPerOne) 1
  else
    let places := (-d.exponent).toNat
    if d.digits.log2 + 1080 < 3 * places then 0
    else nearestCode (d.digits * grainsPerOne) (pow10 places)

def toFloat (negative : Bool) (d : Decimal) : Float := ofCode negative d.code

end Decimal

end NoteFormula

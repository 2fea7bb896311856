import NoteFormula.Decimal.Basic

/-! # Shortest decimals

The fewest digits that read back as a given double and, among those, the nearest to it; of two equally near
the even one. For each number of digits the two neighbours of the value on that decimal grid are tried.
-/
namespace NoteFormula.Decimal

/-- The position of the decimal point before the first digit of `n / d`: `10 ^ (p - 1) ≤ n / d < 10 ^ p`. -/
def pointPosition (n d : Nat) : Int :=
  if d ≤ n then (Text.decimalDigits (n / d)).length
  else 1 - (Text.decimalDigits ((d - 1) / n)).length

/-- `n / d` in units of `10 ^ exponent`, as a quotient. -/
def scaled (n d : Nat) (exponent : Int) : Nat × Nat :=
  if 0 ≤ exponent then (n, d * pow10 exponent.toNat) else (n * pow10 (-exponent).toNat, d)

/-- The neighbour of `n / d` on the grid of `10 ^ exponent` that reads back as `target`, the nearer one if both
do. -/
def onGrid? (target n d : Nat) (exponent : Int) : Option Decimal :=
  let (n', d') := scaled n d exponent
  let low : Decimal := ⟨n' / d', exponent⟩
  let high : Decimal := ⟨n' / d' + 1, exponent⟩
  if low.code = target then
    if high.code = target && roundDiv n' d' == high.digits then some high else some low
  else if high.code = target then some high
  else none

def exact (n : Nat) : Decimal := ⟨n * Nat.pow 5 1074, -1074⟩

/-- The grids with one digit, two digits, … up to `count` are tried in turn. -/
def search (target n d : Nat) (position : Int) : (count : Nat) → (digits : Nat) → Option Decimal
  | 0, _ => none
  | count + 1, digits => match onGrid? target n d (position - digits) with
    | some found => some found
    | none => search target n d position count (digits + 1)

/-- The shortest decimal that reads back as `mantissa * 2 ^ shift` grains. -/
def shortest (mantissa shift : Nat) : Decimal :=
  let n := mantissa * pow2 shift
  if n = 0 then ⟨0, 0⟩
  else
    (search (shift * pow2 52 + mantissa) n grainsPerOne (pointPosition n grainsPerOne) 17 1).getD (exact n)

end NoteFormula.Decimal

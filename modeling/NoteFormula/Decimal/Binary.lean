/-! # Binary doubles as exact integers

Every finite double is a whole number of *grains* of size `2 ^ -1074`: `mantissa * 2 ^ shift` of them. The bit
pattern without its sign is the number `shift * 2 ^ 52 + mantissa`, so magnitudes are ordered like their
patterns, and a mantissa that rounds up to `2 ^ 53` carries into the shift by itself.
-/
namespace NoteFormula.Decimal

def pow2 (n : Nat) : Nat := Nat.pow 2 n

def grainsPerOne : Nat := pow2 1074

inductive Binary where
  | nan
  | infinite (negative : Bool)
  | finite (negative : Bool) (mantissa shift : Nat)
deriving DecidableEq

def signBit : Nat := pow2 63

/-- The pattern of the infinities, without sign: the first one that is no finite magnitude. -/
def infiniteCode : Nat := 2047 * pow2 52

def Binary.ofFloat (x : Float) : Binary :=
  let bits := x.toBits.toNat
  let negative := signBit ≤ bits
  let code := bits % signBit
  let exponent := code / pow2 52
  let fraction := code % pow2 52
  if infiniteCode < code then .nan
  else if code = infiniteCode then .infinite negative
  else if exponent = 0 then .finite negative fraction 0
  else .finite negative (pow2 52 + fraction) (exponent - 1)

def ofCode (negative : Bool) (code : Nat) : Float :=
  Float.ofBits (UInt64.ofNat ((if negative then signBit else 0) + code))

/-- The quotient rounded to the nearest integer, a half to the even neighbour. -/
def roundDiv (n d : Nat) : Nat :=
  let low := n / d
  let rest := 2 * (n % d)
  if rest < d then low else if d < rest then low + 1 else low + low % 2

/-- The pattern of the double nearest to `n / d` grains; whatever exceeds the finite range is infinite. -/
def nearestCode (n d : Nat) : Nat :=
  let whole := n / d
  let shift := if whole < pow2 53 then 0 else whole.log2 - 52
  min (shift * pow2 52 + roundDiv n (d * pow2 shift)) infiniteCode

def notANumber : Float := Float.ofBits 0x7ff8000000000000

def infinity (negative : Bool) : Float := ofCode negative infiniteCode

def nearest (negative : Bool) (n d : Nat) : Float := ofCode negative (nearestCode (n * grainsPerOne) d)

def ofInt (n : Int) : Float := nearest (n < 0) n.natAbs 1

def exceedsDouble (n : Int) : Bool := nearestCode (n.natAbs * grainsPerOne) 1 == infiniteCode

def grains (negative : Bool) (mantissa shift : Nat) : Int :=
  let magnitude : Int := (mantissa * pow2 shift : Nat)
  if negative then -magnitude else magnitude

def intGrains (n : Int) : Int := n * grainsPerOne

end NoteFormula.Decimal

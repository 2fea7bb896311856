import NoteFormula.Decimal.Entire
import NoteFormula.Text.Lowercase
import NoteFormula.Text.Split
import NoteFormula.Value.Basic
import NoteFormula.Yaml.Place

/-! # Numbers of scalars

Integers in four bases and doubles, both also in sexagesimal places. Underscores group the digits and count for
nothing. Behind the sign of the whole number each part is a number by itself, so it may bring a sign and margins.
-/
namespace NoteFormula.Yaml

def dropUnderscores (cs : List Char) : List Char := cs.filter (· ≠ '_')

def integerOf (base : Nat) (cs : List Char) : Except Fault Int :=
  match Decimal.entireInt? base cs with
  | some n => .ok n
  | none => .error (.badInteger base (String.ofList cs))

def sexagesimal (places : List Int) : Int := places.foldl (fun n d => n * 60 + d) 0

/-- The integer behind the sign: binary or hexadecimal after its mark, octal after another zero. -/
def unsignedInt (cs : List Char) : Except Fault Int :=
  match cs with
  | [] => .error .noDigits
  | '0' :: 'b' :: ds => integerOf 2 ds
  | '0' :: 'x' :: ds => integerOf 16 ds
  | '0' :: _ => integerOf 8 cs
  | _ =>
    if cs.contains ':' then do return sexagesimal (← (Text.splitAt ':' cs).mapM (integerOf 10))
    else integerOf 10 cs

def readInt (cs : List Char) : Except Fault Value := do
  let (negative, size) := Decimal.sign (dropUnderscores cs)
  let n ← unsignedInt size
  return .int (if negative then -n else n)

def floatOf (cs : List Char) : Except Fault Float :=
  match Decimal.entireFloat? cs with
  | some x => .ok x
  | none => .error (.badFloat (String.ofList cs))

/-- Sexagesimal places added up, the lowest first; the first has the weight that is given. A weight beyond the
doubles is a fault, whatever stands in its place. -/
def sexagesimalFloat (sum : Float) (weight : Int) : List Float → Except Fault Float
  | [] => .ok sum
  | d :: ds =>
    if Decimal.exceedsDouble weight then .error .tooLarge
    else sexagesimalFloat (sum + d * Decimal.ofInt weight) (weight * 60) ds

def unsignedFloat (cs : List Char) : Except Fault Float :=
  if cs = ".inf".toList then .ok (Decimal.infinity false)
  else if cs = ".nan".toList then .ok Decimal.notANumber
  else if cs.contains ':' then do
    let places ← (Text.splitAt ':' cs).mapM floatOf
    sexagesimalFloat 0 1 places.reverse
  else floatOf cs

def lowerWord (cs : List Char) : List Char := (Text.lowercase (String.ofList (dropUnderscores cs))).toList

def isNanWord (cs : List Char) : Bool := (Decimal.sign (lowerWord cs)).2 = ".nan".toList

def readFloat (cs : List Char) : Except Fault Value := do
  let word := lowerWord cs
  if word.isEmpty then throw .noDigits
  let (negative, size) := Decimal.sign word
  let x ← unsignedFloat size
  return .float (if negative then -x else x)

end NoteFormula.Yaml

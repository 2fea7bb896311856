import NoteFormula.Decimal.NoteText
import NoteFormula.Text.Lowercase
import NoteFormula.Value.Inspect

/-! # Coercions

Every value has a truth value, a number and a text. Operators see their operands only through these three
and through loose equality.
-/
namespace NoteFormula.Value

def falsyTexts : List String := ["undefined", "null", "false", "0"]

def isZero (x : Float) : Bool :=
  match Decimal.Binary.ofFloat x with
  | .finite _ mantissa _ => mantissa == 0
  | _ => false

def truthy : Value → Bool
  | absent => false
  | bool b => b
  | int n => n != 0
  | float x => !isZero x
  | text s => s != "" && !falsyTexts.contains (Text.lowercase s)
  | _ => true

def parseNumber (s : String) : Float := (Decimal.leadingNumber? s.toList).getD Decimal.notANumber

def toNumber : Value → Float
  | bool b => if b then 1 else 0
  | int n => Decimal.ofInt n
  | float x => x
  | text s => (Decimal.leadingNumber? s.toList).getD 0
  | _ => 0

mutual

/-- The text of a value: list items are joined by commas, an absent item is empty. -/
def toText : Value → String
  | absent => "undefined"
  | bool b => if b then "true" else "false"
  | int n => intText n
  | float x => String.ofList (Decimal.noteText x)
  | text s => s
  | bytes content => Text.quotedBytes content
  | list items | tuple items => ",".intercalate (itemTexts items)
  | map _ => "[object Object]"
  | date d => d.iso
  | moment m => m.written " "
  | v => v.inspect

def itemTexts : List Value → List String
  | [] => []
  | v :: rest => (if v.isAbsent then "" else toText v) :: itemTexts rest

end

end NoteFormula.Value

import NoteFormula.Decimal.Layout
import NoteFormula.Text.Base64
import NoteFormula.Value.Basic
import NoteFormula.Yaml.Fold

/-! # Written scalars

The text that is written of a value without parts. Numbers, words and times are plain, a text is quoted where it
has to be, and bytes are a block of lines in base 64 under the name of their type.
-/
namespace NoteFormula.Yaml

def floatLayout : Decimal.Layout :=
  { Decimal.Layout.plain with mantissaTail := ['.', '0'], nan := ".nan", infinity := ".inf" }

inductive ScalarForm where
  /-- A plain form whose type has a short name of some length. -/
  | typed (nameLength : Nat)
  | text
  | bytes
deriving DecidableEq

structure Scalar where
  text : List Char
  form : ScalarForm

def scalar? : Value → Option Scalar
  | .absent => some ⟨"null".toList, .typed 6⟩
  | .bool b => some ⟨(if b then "true" else "false").toList, .typed 6⟩
  | .int n => some ⟨Text.decimalInt n, .typed 5⟩
  | .float x => some ⟨floatLayout.write x, .typed 7⟩
  | .text s => some ⟨s.toList, .text⟩
  | .bytes content => some ⟨Text.toBase64 content, .bytes⟩
  | .date d => some ⟨d.iso.toList, .typed 11⟩
  | .moment m => some ⟨(m.written " ").toList, .typed 11⟩
  | _ => none

/-- Lines of a length, the last one perhaps shorter; `count` bounds their number. -/
def linesOf (length : Nat) : (count : Nat) → List Char → List (List Char)
  | 0, _ => []
  | count + 1, cs => if cs.isEmpty then [] else cs.take length :: linesOf length count (cs.drop length)

def bytesBlock (indent : Nat) (cs : List Char) : List Char :=
  "!!binary ".toList ++
    if cs.isEmpty then ['"', '"'] else '|' :: (linesOf 76 cs.length cs).flatMap (newLine indent ++ ·)

def Scalar.write (s : Scalar) (f : Folding) (column : Nat) : List Char :=
  match s.form with
  | .typed _ => plainFrom f column 0 s.text
  | .text => scalarText f column s.text
  | .bytes => bytesBlock f.indent s.text

def endsLine (c : Char) : Bool := c = '\n' || c = '\u0085' || c = '\u2028' || c = '\u2029'

/-- Whether a key is written before its colon on one line: if it is short, not empty, and has no line breaks. Its
anchor, if it has one, counts too. -/
def Scalar.isSimpleKey (s : Scalar) (anchorLength : Nat) : Bool :=
  match s.form with
  | .typed nameLength => anchorLength + s.text.length + nameLength < 128
  | .text => s.text.length + 5 < 128 && !s.text.isEmpty && !s.text.any endsLine
  | .bytes => false

end NoteFormula.Yaml

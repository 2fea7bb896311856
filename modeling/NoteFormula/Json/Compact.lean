import NoteFormula.Json.Quoted
import NoteFormula.Value.Coercion

/-! # Values as compact JSON

The text of a list or a map in an argument: entries in their own order, no blanks, numbers as in a
note. Numbers without a JSON form become `null`, and keys that are no texts are shown as messages show them.
-/
namespace NoteFormula.Value

open Json (quoted)

def compactFloat (x : Float) : List Char :=
  match Decimal.Binary.ofFloat x with
  | .finite .. => Decimal.noteText x
  | _ => "null".toList

mutual

def compact : Value → List Char
  | absent => "null".toList
  | bool b => if b then "true".toList else "false".toList
  | int n => Text.decimalInt n
  | float x => compactFloat x
  | text s => quoted .unicode s.toList
  | list items | tuple items => '[' :: [','].intercalate (compactItems items) ++ [']']
  | map entries => '\x7b' :: [','].intercalate (compactEntries entries) ++ ['\x7d']
  | date d => quoted .ascii d.iso.toList
  | moment m => quoted .ascii (m.written "T").toList
  | v => quoted .unicode v.inspect.toList

def compactItems : List Value → List (List Char)
  | [] => []
  | v :: rest => compact v :: compactItems rest

def compactEntries : List (Value × Value) → List (List Char)
  | [] => []
  | (k, v) :: rest => (quoted .unicode k.shown.toList ++ ':' :: compact v) :: compactEntries rest

end

/-- The text of a value as an argument: containers as JSON, everything else as its plain text. -/
def argumentText (v : Value) : String :=
  match v with
  | list _ | tuple _ | map _ => String.ofList v.compact
  | v => v.toText

end NoteFormula.Value

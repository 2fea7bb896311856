import NoteFormula.Value.Calendar

/-! # Values

What a note's front matter can hold and what a formula can yield. A map keeps its entries in the order they
were written; its keys are distinct, and nearly always texts.
-/
namespace NoteFormula

inductive Value where
  | absent
  | bool (b : Bool)
  | int (n : Int)
  | float (x : Float)
  | text (s : String)
  | bytes (content : List UInt8)
  | list (items : List Value)
  /-- A list of fixed length, such as an entry of an ordered map. -/
  | tuple (items : List Value)
  | set (items : List Value)
  | map (entries : List (Value × Value))
  | date (d : Date)
  | moment (m : Moment)
  /-- The map, or else the list, that this place lies in. -/
  | enclosing (isMap : Bool)
  /-- An object known by its text alone. -/
  | foreign (shown : String)

instance : Inhabited Value := ⟨.absent⟩

namespace Value

abbrev Entries := List (Value × Value)

def kind : Value → String
  | absent => "NoneType"
  | bool _ => "bool"
  | int _ => "int"
  | float _ => "float"
  | text _ => "str"
  | bytes _ => "bytes"
  | list _ => "list"
  | tuple _ => "tuple"
  | set _ => "set"
  | map _ => "dict"
  | date _ => "date"
  | moment _ => "datetime"
  | enclosing isMap => if isMap then "dict" else "list"
  | foreign _ => "Opaque"

/-- The kind's name with the family it belongs to. -/
def fullKind : Value → String
  | date _ => "datetime.date"
  | moment _ => "datetime.datetime"
  | v => v.kind

def kindPhrase (v : Value) : String := "<class '" ++ v.fullKind ++ "'>"

def isAbsent : Value → Bool
  | absent => true
  | _ => false

def hasKey (key : String) : Value × Value → Bool
  | (text k, _) => k == key
  | _ => false

def field? (entries : Entries) (key : String) : Option Value :=
  (entries.find? (hasKey key)).map (·.2)

/-- Writes the entry of a text key: an old entry keeps its place, a new one goes to the end. -/
def setEntry (entries : Entries) (key : String) (value : Value) : Entries :=
  match entries with
  | [] => [(text key, value)]
  | e :: rest => if hasKey key e then (e.1, value) :: rest else e :: setEntry rest key value

end Value

end NoteFormula

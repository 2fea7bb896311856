import NoteFormula.Json.Quoted
import NoteFormula.Value.Sort

/-! # Values as spaced JSON

The JSON text of a record: keys in order, a blank after commas and colons, everything outside ASCII escaped,
doubles always shown as doubles. Dates, bytes, sets and foreign objects have no JSON form.
-/
namespace NoteFormula

inductive JsonFault where
  | unwritable (kind : String)
  | unwritableKey (kind : String)
  | unorderedKeys (keys : Value.Incomparable)
  | endless

def JsonFault.message : JsonFault → String
  | unwritable kind => "Object of type " ++ kind ++ " is not JSON serializable"
  | unwritableKey kind => "keys must be str, int, float, bool or None, not " ++ kind
  | unorderedKeys keys => keys.message
  | endless => "Circular reference detected"

namespace Value

def recordLayout : Decimal.Layout := { Decimal.Layout.plain with nan := "NaN", infinity := "Infinity" }

/-- The name of an entry; keys that are no texts are written like the values they are. -/
def jsonKey : Value → Except JsonFault (List Char)
  | text s => .ok s.toList
  | absent => .ok "null".toList
  | bool b => .ok (if b then "true" else "false").toList
  | int n => .ok (Text.decimalInt n)
  | float x => .ok (recordLayout.write x)
  | v => .error (.unwritableKey v.fullKind)

/-- Puts written entries in the order of their keys; the first one that could not be written decides. -/
def inKeyOrder (entries : List (Keyed (Except JsonFault (List Char)))) : Except JsonFault (List (List Char)) := do
  (← (sortKeyed entries).mapError .unorderedKeys).mapM (·.2)

mutual

def spaced : Value → Except JsonFault (List Char)
  | absent => .ok "null".toList
  | bool b => .ok (if b then "true" else "false").toList
  | int n => .ok (Text.decimalInt n)
  | float x => .ok (recordLayout.write x)
  | text s => .ok (Json.quoted .ascii s.toList)
  | list items | tuple items => do return '[' :: [',', ' '].intercalate (← spacedItems items) ++ [']']
  | map entries => do
    return '\x7b' :: [',', ' '].intercalate (← inKeyOrder (spacedEntries entries)) ++ ['\x7d']
  | enclosing _ => .error .endless
  | v => .error (.unwritable v.kind)

def spacedItems : List Value → Except JsonFault (List (List Char))
  | [] => .ok []
  | v :: rest => do
    let first ← spaced v
    return first :: (← spacedItems rest)

def spacedEntries : List (Value × Value) → List (Value × Except JsonFault (List Char))
  | [] => []
  | (k, v) :: rest =>
    (k, do
      let name ← jsonKey k
      return Json.quoted .ascii name ++ ':' :: ' ' :: (← spaced v)) :: spacedEntries rest

end

end Value

end NoteFormula

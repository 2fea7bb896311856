import NoteFormula.Value.SetOrder
import NoteFormula.Yaml.Content

/-! # Values with their nodes

The value of a document as a tree in which every part that is an object of its own knows the node it was read
from. Parts of one node are one object; forgetting the nodes leaves the plain value.
-/
namespace NoteFormula.Yaml

inductive Held where
  /-- A scalar; dates, moments and what equals nothing but itself have a node. -/
  | scalar (node : Option Ref) (value : Value)
  | list (node : Option Ref) (items : List Held)
  | tuple (items : List Held)
  | set (node : Option Ref) (items : List Held)
  | map (node : Option Ref) (entries : List (Held × Held))
  /-- The map, or else the list, of a node, inside itself. -/
  | enclosing (node : Ref) (isMap : Bool)

instance : Inhabited Held := ⟨.scalar none .absent⟩

namespace Held

mutual

def value : Held → Value
  | scalar _ v => v
  | list _ items => .list (values items)
  | tuple items => .tuple (values items)
  | set _ items => .set (values items)
  | map _ entries => .map (entryValues entries)
  | enclosing _ isMap => .enclosing isMap

def values : List Held → List Value
  | [] => []
  | h :: rest => value h :: values rest

def entryValues : List (Held × Held) → List (Value × Value)
  | [] => []
  | (k, v) :: rest => (value k, value v) :: entryValues rest

end

mutual

def ofValue : Value → Held
  | .list items => list none (ofValues items)
  | .tuple items => tuple (ofValues items)
  | .set items => set none (ofValues items)
  | .map entries => map none (ofEntries entries)
  | v => scalar none v

def ofValues : List Value → List Held
  | [] => []
  | v :: rest => ofValue v :: ofValues rest

def ofEntries : List (Value × Value) → List (Held × Held)
  | [] => []
  | (k, v) :: rest => (ofValue k, ofValue v) :: ofEntries rest

end

mutual

/-- Whether a number that is none occurs that equals nothing but itself. -/
def hasUnlike : Held → Bool
  | scalar node v => node.isSome && isNan v
  | list _ items | tuple items | set _ items => anyUnlike items
  | map _ entries => anyUnlikeEntry entries
  | enclosing .. => false

def anyUnlike : List Held → Bool
  | [] => false
  | h :: rest => hasUnlike h || anyUnlike rest

def anyUnlikeEntry : List (Held × Held) → Bool
  | [] => false
  | (k, v) :: rest => hasUnlike k || hasUnlike v || anyUnlikeEntry rest

end

def isTime : Value → Bool
  | .date _ | .moment _ => true
  | _ => false

def ofPart (parts : Parts) : (count : Nat) → (path : List Ref) → Ref → Held
  | 0, _, _ => default
  | count + 1, path, r =>
    let inner := ofPart parts count (r :: path)
    match parts.part? r with
    | none => default
    | some (.scalar v unlike) => scalar (if isTime v || unlike then some r else none) v
    | some (.list items) => if path.contains r then enclosing r false else list (some r) (items.map inner)
    | some (.pairs entries) =>
      if path.contains r then enclosing r false
      else list (some r) (entries.map fun (k, v) => tuple [inner k, inner v])
    | some (.set keys) => set (some r) (Value.setOrder value (keys.map inner))
    | some (.map entries) =>
      if path.contains r then enclosing r true else map (some r) (entries.map fun (k, v) => (inner k, inner v))

end Held

end NoteFormula.Yaml

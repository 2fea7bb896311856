import NoteFormula.Value.Sort
import NoteFormula.Yaml.Held
import NoteFormula.Yaml.Scalar

/-! # Drafts

A value laid out for writing: every scalar as its text, the entries of maps and sets in the order of their keys
where these compare. An object that comes more than once needs an anchor; anchors are numbered in the order in
which their objects come for the second time.
-/
namespace NoteFormula

inductive YamlWriteFault where
  | unwritable (kind : String)

def YamlWriteFault.message : YamlWriteFault → String
  | unwritable kind => "cannot represent an object: " ++ kind

namespace Yaml

/-- Entries in the order of their keys, or in their own where some keys do not compare. -/
def inOrder (entries : List (Value.Keyed α)) : List (Value.Keyed α) :=
  match Value.sortKeyed entries with
  | .ok sorted => sorted
  | .error _ => entries

inductive Draft where
  | scalar (node : Option Ref) (s : Scalar)
  | list (node : Option Ref) (items : List Draft)
  | map (node : Option Ref) (isSet : Bool) (entries : List (Draft × Draft))
  | enclosing (node : Ref)

namespace Draft

def null : Draft := scalar none ⟨"null".toList, .typed 6⟩

mutual

def ofHeld : Held → Except YamlWriteFault Draft
  | .scalar node v =>
    match scalar? v with
    | some s => .ok (scalar (if Held.isTime v then node else none) s)
    | none => .error (.unwritable v.kind)
  | .list node items => return list node (← ofItems items)
  | .tuple items => return list none (← ofItems items)
  | .set node items => do
    let keys := inOrder ((items.map Held.value).zip (← ofItems items))
    return map node true (keys.map fun (_, key) => (key, null))
  | .map node entries => return map node false ((inOrder (← ofEntries entries)).map (·.2))
  | .enclosing node _ => return enclosing node

def ofItems : List Held → Except YamlWriteFault (List Draft)
  | [] => return []
  | h :: rest => do
    let first ← ofHeld h
    return first :: (← ofItems rest)

def ofEntries : List (Held × Held) → Except YamlWriteFault (List (Value × Draft × Draft))
  | [] => return []
  | (k, v) :: rest => do
    let key ← ofHeld k
    let value ← ofHeld v
    return (k.value, key, value) :: (← ofEntries rest)

end

/-- The nodes that have been come by, and those come by again, in the order in which that happened. -/
structure Census where
  met : List Ref := []
  repeated : List Ref := []

/-- Comes by a node; tells whether it is a new one. What has none is always new. -/
def note (node : Option Ref) : StateM Census Bool := do
  match node with
  | none => return true
  | some r =>
    let census ← get
    if !census.met.contains r then
      set { census with met := r :: census.met }
      return true
    else
      if !census.repeated.contains r then set { census with repeated := census.repeated ++ [r] }
      return false

mutual

def count : Draft → StateM Census Unit
  | scalar node _ => do let _ ← note node
  | list node items => do if ← note node then countItems items
  | map node _ entries => do if ← note node then countEntries entries
  | enclosing node => do let _ ← note (some node)

def countItems : List Draft → StateM Census Unit
  | [] => return ()
  | d :: rest => do
    count d
    countItems rest

def countEntries : List (Draft × Draft) → StateM Census Unit
  | [] => return ()
  | (k, v) :: rest => do
    count k
    count v
    countEntries rest

end

/-- The nodes that need an anchor, in the order of their numbers. -/
def anchored (d : Draft) : List Ref := ((count d).run {}).2.repeated

end Draft

end Yaml

end NoteFormula

import NoteFormula.Formula.Basic
import NoteFormula.Value.Equality

/-! # Measures of a formula

Depth, number of parts and referenced paths, each gathered by a walk over a stack of formulas still to be
visited.
-/
namespace NoteFormula

/-- Paths by namespace, each in order of first appearance. -/
structure Keys where
  note : List Value := []
  file : List Value := []

namespace Keys

/-- Adds a key at the end unless an equal one is there. -/
def insert (keys : List Value) (key : Value) : List Value :=
  if keys.any (·.same true key) then keys else keys ++ [key]

def add (keys : Keys) (space : Namespace) (path : Value) : Keys :=
  match space with
  | .note => { keys with note := insert keys.note path }
  | .file => { keys with file := insert keys.file path }

def merge (keys more : Keys) : Keys :=
  ⟨more.note.foldl insert keys.note, more.file.foldl insert keys.file⟩

def isEmpty (keys : Keys) : Bool := keys.note.isEmpty && keys.file.isEmpty

end Keys

namespace Formula

/-- The number of formulas in a tree, absent parts included. -/
def weight : Formula → Nat
  | absent | literal _ | reference .. => 1
  | unary _ f | length f => 1 + weight f
  | binary _ f g | contains f g => 1 + weight f + weight g
  | conditional c t e => 1 + weight c + weight t + weight e

def pendingWeight : List Formula → Nat
  | [] => 0
  | f :: stack => weight f + pendingWeight stack

theorem pendingWeight_append (fs gs : List Formula) :
    pendingWeight (fs ++ gs) = pendingWeight fs + pendingWeight gs := by
  induction fs with
  | nil => simp [pendingWeight]
  | cons f fs ih => simp [pendingWeight, ih, Nat.add_assoc]

theorem pendingWeight_reverse (fs : List Formula) : pendingWeight fs.reverse = pendingWeight fs := by
  induction fs with
  | nil => rfl
  | cons f fs ih => simp [pendingWeight_append, pendingWeight, ih, Nat.add_comm]

theorem children_weight {f : Formula} {parts : List Formula} (h : f.children = .ok parts) :
    pendingWeight parts < f.weight := by
  cases f with
  | absent => cases h
  | conditional c t e =>
    cases h
    simp only [weight]
    split <;> simp only [pendingWeight] <;> omega
  | _ => cases h; simp only [pendingWeight, weight]; omega

/-- The greatest depth met while the formulas on the stack, each with its depth, are visited. -/
def depthFrom (deepest : Nat) : List (Formula × Nat) → Except NotFormula Nat
  | [] => .ok deepest
  | (f, depth) :: stack =>
    match _h : f.children with
    | .error fault => .error fault
    | .ok parts => depthFrom (max deepest depth) (parts.reverse.map (·, depth + 1) ++ stack)
termination_by stack => pendingWeight (stack.map (·.1))
decreasing_by
  have := children_weight _h
  simp only [List.map_append, List.map_map, List.map_cons, Function.comp_def, List.map_id', pendingWeight_append,
    pendingWeight_reverse, pendingWeight]
  omega

def depth (f : Formula) : Except NotFormula Nat := depthFrom 0 [(f, 1)]

def countFrom (count : Nat) : List Formula → Except NotFormula Nat
  | [] => .ok count
  | f :: stack =>
    match _h : f.children with
    | .error fault => .error fault
    | .ok parts => countFrom (count + 1) (parts.reverse ++ stack)
termination_by stack => pendingWeight stack
decreasing_by
  have := children_weight _h
  simp only [pendingWeight_append, pendingWeight_reverse, pendingWeight]
  omega

def count (f : Formula) : Except NotFormula Nat := countFrom 0 [f]

def keysFrom (keys : Keys) : List Formula → Except NotFormula Keys
  | [] => .ok keys
  | f :: stack =>
    match _h : f.children with
    | .error fault => .error fault
    | .ok parts =>
      keysFrom (match f with
        | reference space path => keys.add space path
        | _ => keys) (parts ++ stack)
termination_by stack => pendingWeight stack
decreasing_by
  have := children_weight _h
  simp only [pendingWeight_append, pendingWeight]
  omega

def keys (f : Formula) : Except NotFormula Keys := keysFrom {} [f]

/-- The measures of a tree; an absent one measures nothing. -/
structure Metrics where
  depth : Nat := 0
  count : Nat := 0
  keys : Keys := {}

def metrics : Formula → Except NotFormula Metrics
  | absent => .ok {}
  | f => do
    let count ← f.count
    let keys ← f.keys
    return { depth := ← f.depth, count, keys }

end Formula

end NoteFormula

import NoteFormula.Formula.Basic
import NoteFormula.Value.Inspect
import NoteFormula.Value.Equality

/-! # Formulas as records

A formula as nested maps, each with a `type` entry. Reading takes the entries in a fixed order, so the first
problem met decides the fault; entries that are not asked for are passed over.
-/
namespace NoteFormula

inductive RecordFault where
  /-- A value that is no map stands where a record is needed. -/
  | notRecord (kind : String)
  | missing (entry : String)
  | unknownUnary (found : Value)
  | unknownBinary (found : Value)
  | unknownNamespace (found : Value)
  | unknownType (found : Value)

def RecordFault.message : RecordFault → String
  | notRecord kind => "'" ++ kind ++ "' object has no attribute 'get'"
  | missing entry => Text.quoted entry
  | unknownUnary v => v.inspect ++ " is not a valid UnaryOperator"
  | unknownBinary v => v.inspect ++ " is not a valid BinaryOperator"
  | unknownNamespace v => v.inspect ++ " is not a valid Namespace"
  | unknownType v => "Unsupported expression dict type: " ++ v.shown

namespace Formula

def entries (fields : List (String × Value)) : Value := .map (fields.map fun (k, v) => (.text k, v))

def toRecord : Formula → Value
  | absent => .absent
  | literal v => entries [("type", .text "lit"), ("value", v)]
  | reference space path =>
    entries [("type", .text "ref"), ("namespace", .text space.symbol), ("path", path)]
  | unary op f => entries [("type", .text "unary"), ("operator", .text op.symbol), ("operand", toRecord f)]
  | binary op f g =>
    entries [("type", .text "binary"), ("operator", .text op.symbol), ("left", toRecord f), ("right", toRecord g)]
  | conditional c t e =>
    entries [("type", .text "if"), ("condition", toRecord c), ("then", toRecord t), ("else", toRecord e)]
  | contains h n => entries [("type", .text "contains"), ("haystack", toRecord h), ("needle", toRecord n)]
  | length f => entries [("type", .text "length"), ("operand", toRecord f)]

def required (record : Value.Entries) (name : String) : Except RecordFault Value :=
  match Value.field? record name with
  | some v => .ok v
  | none => .error (.missing name)

def named (find : String → Option α) (fault : Value → RecordFault) (v : Value) : Except RecordFault α :=
  match v with
  | .text s => match find s with
    | some a => .ok a
    | none => .error (fault v)
  | _ => .error (fault v)

theorem field?_sizeOf {record : Value.Entries} {name : String} {v : Value}
    (h : Value.field? record name = some v) : sizeOf v < sizeOf record := by
  unfold Value.field? at h
  obtain ⟨e, he, rfl⟩ := Option.map_eq_some_iff.mp h
  have := List.sizeOf_lt_of_mem (List.mem_of_find?_eq_some he)
  cases e
  simp at *
  omega

def ofRequired (record : Value.Entries) (name : String)
    (read : (v : Value) → sizeOf v < sizeOf record → Except RecordFault Formula) : Except RecordFault Formula :=
  match h : Value.field? record name with
  | some v => read v (field?_sizeOf h)
  | none => .error (.missing name)

def ofOptional (record : Value.Entries) (name : String)
    (read : (v : Value) → sizeOf v < sizeOf record → Except RecordFault Formula) : Except RecordFault Formula :=
  match h : Value.field? record name with
  | some v => read v (field?_sizeOf h)
  | none => .ok absent

def ofRecord (v : Value) : Except RecordFault Formula :=
  match v with
  | .absent => .ok absent
  | .map record =>
    let read (part : Value) (_h : sizeOf part < sizeOf record) := ofRecord part
    match (Value.field? record "type").getD .absent with
    | .text "lit" => .ok (literal ((Value.field? record "value").getD .absent))
    | .text "ref" => do
      let space ← named Namespace.ofSymbol? .unknownNamespace (← required record "namespace")
      return reference space (← required record "path")
    | .text "unary" => do
      let op ← named UnaryOp.ofSymbol? .unknownUnary (← required record "operator")
      return unary op (← ofRequired record "operand" read)
    | .text "binary" => do
      let op ← named BinaryOp.ofSymbol? .unknownBinary (← required record "operator")
      let left ← ofRequired record "left" read
      return binary op left (← ofRequired record "right" read)
    | .text "if" => do
      let condition ← ofRequired record "condition" read
      let thenBranch ← ofRequired record "then" read
      return conditional condition thenBranch (← ofOptional record "else" read)
    | .text "contains" => do
      let haystack ← ofRequired record "haystack" read
      return contains haystack (← ofRequired record "needle" read)
    | .text "length" => do return length (← ofRequired record "operand" read)
    | other => .error (.unknownType other)
  | v => .error (.notRecord v.fullKind)
termination_by sizeOf v
decreasing_by simp; omega

def same (itself : Bool) : Formula → Formula → Bool
  | absent, absent => true
  | literal v, literal w => v.same itself w
  | reference s p, reference s' p' => s == s' && p.same itself p'
  | unary op f, unary op' f' => op == op' && same itself f f'
  | binary op f g, binary op' f' g' => op == op' && same itself f f' && same itself g g'
  | conditional c t e, conditional c' t' e' => same itself c c' && same itself t t' && same itself e e'
  | contains h n, contains h' n' => same itself h h' && same itself n n'
  | length f, length f' => same itself f f'
  | _, _ => false

end Formula

end NoteFormula

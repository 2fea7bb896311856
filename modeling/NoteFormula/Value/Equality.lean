import NoteFormula.Value.Coercion

/-! # Equality of values

Loose equality compares as numbers when both sides read as numbers, and the lower-case texts otherwise.
Integers and doubles are compared exactly, without rounding the integer. Plain equality, used for whole
formulas, compares numbers in the same way but never reads a text as one.
-/
namespace NoteFormula

/-- A number as it is compared: doubles and integers alike are whole numbers of grains. -/
inductive Exact where
  | nan
  | infinite (negative : Bool)
  | finite (grains : Int)
deriving DecidableEq

def Exact.ofFloat (x : Float) : Exact :=
  match Decimal.Binary.ofFloat x with
  | .nan => .nan
  | .infinite negative => .infinite negative
  | .finite negative mantissa shift => .finite (Decimal.grains negative mantissa shift)

def Exact.ofInt (n : Int) : Exact := .finite (Decimal.intGrains n)

namespace Value

/-- An integer is too large to be tested for being a number. -/
inductive EqualityFault where
  | integerTooLarge
deriving DecidableEq

/-- The number that loose equality sees in a value, or `nan`. -/
def asExact : Value → Exact
  | int n => .ofInt n
  | float x => .ofFloat x
  | v => .ofFloat (parseNumber v.toText)

/-- Whether a value reads as no number. The test fails on an integer beyond the range of doubles. -/
def readsNan (v : Value) : Except EqualityFault Bool :=
  match v with
  | int n => if Decimal.exceedsDouble n then throw .integerTooLarge else pure false
  | v => pure (v.asExact == .nan)

def sameText (left right : Value) : Bool := Text.lowercase left.toText == Text.lowercase right.toText

def looselyEqual (left right : Value) : Except EqualityFault Bool :=
  match left, right with
  | absent, right => pure right.isAbsent
  | _, absent => pure false
  | left, right => do
    if ← left.readsNan then return sameText left right
    if ← right.readsNan then return sameText left right
    return left.asExact == right.asExact

def plainNumber? : Value → Option Exact
  | bool b => some (.ofInt (if b then 1 else 0))
  | int n => some (.ofInt n)
  | float x => some (.ofFloat x)
  | _ => none

mutual

/-- Plain equality. What equals nothing but itself is the same on both sides only if `itself` says so: numbers
that are none, foreign objects, and what a place lies in. -/
def same (itself : Bool) : Value → Value → Bool
  | absent, absent => true
  | text a, text b => a == b
  | date a, date b => a == b
  | moment a, moment b => a.same b
  | bytes a, bytes b => a == b
  | foreign a, foreign b => itself && a == b
  | enclosing a, enclosing b => itself && a == b
  | list xs, list ys => sameItems itself xs ys
  | tuple xs, tuple ys => sameItems itself xs ys
  | set xs, set ys => xs.length == ys.length && isWithin itself xs ys
  | map xs, map ys => xs.length == ys.length && sameEntries itself xs ys
  | a, b => match a.plainNumber?, b.plainNumber? with
    | some .nan, some .nan => itself
    | some m, some n => m == n
    | _, _ => false

def sameItems (itself : Bool) : List Value → List Value → Bool
  | [], [] => true
  | x :: xs, y :: ys => same itself x y && sameItems itself xs ys
  | _, _ => false

def isWithin (itself : Bool) : List Value → List Value → Bool
  | [], _ => true
  | x :: xs, ys => ys.any (same itself x ·) && isWithin itself xs ys

def sameEntries (itself : Bool) : List (Value × Value) → List (Value × Value) → Bool
  | [], _ => true
  | (k, v) :: rest, ys =>
    (match ys.find? (fun e => same itself k e.1) with
      | some e => same itself v e.2
      | none => false) && sameEntries itself rest ys

end

end Value

end NoteFormula

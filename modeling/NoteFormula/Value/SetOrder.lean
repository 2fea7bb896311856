import NoteFormula.Value.Equality

/-! # Order of sets

A set of numbers is shown in the order of the slots that its numbers take, one after another, in a table of more
than twice their count. A set that holds anything else is shown in the order in which it was written.
-/
namespace NoteFormula.Value

open Decimal (pow2)

def residuePrime : Nat := pow2 61 - 1

/-- The residue of a number, fractions included, with its sign. The grains of one are `2 ^ 1074`, and `2 ^ 61` counts
as one, so a grain counts as `2 ^ 24`. One residue is set apart. -/
def residue? (v : Value) : Option Int :=
  match v.plainNumber? with
  | some (.finite grains) =>
    let size : Int := (grains.natAbs * pow2 24) % residuePrime
    let residue := if grains < 0 then -size else size
    some (if residue = -1 then -2 else residue)
  | some (.infinite negative) => some (if negative then -314159 else 314159)
  | _ => none

/-- The slots that are looked at from one place on: it and, if the table goes on so far, nine more. -/
def slotRun (size place : Nat) : List Nat :=
  List.range' place (if place + 9 < size then 10 else 1)

/-- The first slot that is free. From a run without any the search goes on at a place that all digits of the
residue have a part in. -/
def freeSlot (size : Nat) (taken : List Nat) : (count rest place : Nat) → Nat
  | 0, _, place => place
  | count + 1, rest, place =>
    match (slotRun size place).find? (!taken.contains ·) with
    | some slot => slot
    | none =>
      let rest := rest / 32
      freeSlot size taken count rest ((place * 5 + 1 + rest) % size)

/-- Eight slots hold four numbers; otherwise there are more than twice as many slots as numbers. -/
def slotCount (count : Nat) : Nat := if count < 5 then 8 else pow2 ((2 * count).log2 + 1)

/-- The slots of residues that come one after another. -/
def slotsFrom (size : Nat) (taken : List Nat) : List Int → List Nat
  | [] => []
  | residue :: rest =>
    let bits := (residue % (pow2 64 : Int)).toNat
    let slot := freeSlot size taken (size + 16) bits (bits % size)
    slot :: slotsFrom size (slot :: taken) rest

def setOrder (valueOf : α → Value) (items : List α) : List α :=
  match items.mapM fun item => residue? (valueOf item) with
  | none => items
  | some residues =>
    let slots := slotsFrom (slotCount items.length) [] residues
    ((slots.zip items).mergeSort fun a b => a.1 ≤ b.1).map (·.2)

end NoteFormula.Value

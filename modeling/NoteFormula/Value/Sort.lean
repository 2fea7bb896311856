import NoteFormula.Value.Order

/-! # Sorting by keys

Entries are cut into runs that rise or fall already. A short run is filled up by insertion, and neighbouring runs
are merged, the deeper ones of a balanced tree first. The order of the comparisons decides which two keys are told
to be incomparable.
-/
namespace NoteFormula.Value

abbrev Keyed (α : Type) := Value × α

/-- The entries that go on falling, or go on not falling, after `last`, and the rest. -/
def runFrom (falling : Bool) (last : Value) :
    List (Keyed α) → Except Incomparable (List (Keyed α) × List (Keyed α))
  | [] => .ok ([], [])
  | entry :: rest => do
    if (← comesBefore entry.1 last) = falling then
      let (run, rest) ← runFrom falling entry.1 rest
      return (entry :: run, rest)
    else return ([], entry :: rest)

def firstRun : List (Keyed α) → Except Incomparable (List (Keyed α) × List (Keyed α))
  | first :: second :: rest => do
    let falling ← comesBefore second.1 first.1
    let (run, rest) ← runFrom falling second.1 rest
    let run := first :: second :: run
    return (if falling then run.reverse else run, rest)
  | entries => .ok (entries, [])

/-- The place of a key among sorted entries, found by halving the `count` of them from `low` on. -/
def placeOf (key : Value) (sorted : List (Keyed α)) (low count : Nat) : Except Incomparable Nat :=
  if _h : count = 0 then .ok low
  else match sorted[low + count / 2]? with
    | none => .ok low
    | some middle => do
      if ← comesBefore key middle.1 then placeOf key sorted low (count / 2)
      else placeOf key sorted (low + count / 2 + 1) (count - count / 2 - 1)
termination_by count

def insertKeyed (sorted : List (Keyed α)) (entry : Keyed α) : Except Incomparable (List (Keyed α)) := do
  return sorted.insertIdx (← placeOf entry.1 sorted 0 sorted.length) entry

/-- A sorted run of the entries, where it starts, and how deep in the tree of merges its right end lies. -/
structure Stretch (α : Type) where
  start : Nat
  entries : List (Keyed α)
  depth : Nat := 0

/-- The least length of a run: all of a short list, and for others such that the runs are nearly a power of two. -/
def leastRun (length : Nat) : Nat :=
  let halvings := length.log2 - 5
  if length < 64 then length
  else length / Decimal.pow2 halvings + if length % Decimal.pow2 halvings = 0 then 0 else 1

def filledRun (least : Nat) (entries : List (Keyed α)) :
    Except Incomparable (List (Keyed α) × List (Keyed α)) := do
  let (run, rest) ← firstRun entries
  let more := least - run.length
  return (← (rest.take more).foldlM insertKeyed run, rest.drop more)

/-- The depth of the boundary between two runs: the first binary place in which their middles differ, `low` and
`high` being twice those middles in a list of `length`. -/
def boundaryDepth (length : Nat) : (count low high : Nat) → Nat
  | 0, _, _ => 0
  | count + 1, low, high =>
    if length ≤ low then 1 + boundaryDepth length count (2 * (low - length)) (2 * (high - length))
    else if length ≤ high then 1
    else 1 + boundaryDepth length count (2 * low) (2 * high)

/-- Merges two neighbouring runs. Keys of one run all compare, so the first comparison tells whether the others can
be made. -/
def mergeRuns (left right : Stretch α) : Except Incomparable (Stretch α) := do
  if let (a :: _, b :: _) := (left.entries, right.entries) then
    let _ ← comesBefore b.1 a.1
  let inOrder (a b : Keyed α) : Bool := less? b.1 a.1 != some true
  return { left with entries := left.entries.merge right.entries inOrder }

/-- Merges the pending runs, the last one first, whose boundary lies deeper than a new one. -/
def mergeDeeper (depth : Nat) : List (Stretch α) → Except Incomparable (List (Stretch α))
  | last :: before :: rest => do
    if depth < before.depth then mergeDeeper depth ((← mergeRuns before last) :: rest)
    else return { last with depth } :: before :: rest
  | [last] => return [{ last with depth }]
  | [] => return []
termination_by runs => runs.length

def mergeAll : List (Stretch α) → Except Incomparable (List (Keyed α))
  | last :: before :: first :: rest => do
    if first.entries.length < last.entries.length then mergeAll (last :: (← mergeRuns first before) :: rest)
    else mergeAll ((← mergeRuns before last) :: first :: rest)
  | [last, before] => return (← mergeRuns before last).entries
  | [last] => return last.entries
  | [] => return []
termination_by runs => runs.length

/-- Cuts entries into runs, up to `count` of them, and merges on the way. -/
def sortRuns (length : Nat) : (count : Nat) → (pending : List (Stretch α)) → List (Keyed α) →
    Except Incomparable (List (Keyed α))
  | 0, pending, _ => mergeAll pending
  | count + 1, pending, entries =>
    if entries.isEmpty then mergeAll pending
    else do
      let (found, rest) ← filledRun (leastRun length) entries
      let start := length - entries.length
      let pending ← match pending with
        | [] => pure []
        | last :: _ =>
          let low := last.start + start
          let depth := boundaryDepth length (length.log2 + 3) low (low + last.entries.length + found.length)
          mergeDeeper depth pending
      sortRuns length count (⟨start, found, 0⟩ :: pending) rest

/-- The entries in the order of their keys; what has the same key keeps its order. -/
def sortKeyed (entries : List (Keyed α)) : Except Incomparable (List (Keyed α)) :=
  sortRuns entries.length entries.length [] entries

end NoteFormula.Value

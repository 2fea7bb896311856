import NoteFormula.Yaml.Graph
import NoteFormula.Yaml.Place

/-! # Merged entries

A mapping is settled before its entries are read. The mappings under its merge keys are settled first, and their
entries come before its own; of a sequence of mappings the earlier ones count more and so come later. A key with
the tag of default values becomes a text, wherever else it is used.
-/
namespace NoteFormula.Yaml.Graph

/-- Takes out the first entry under a merge key: what it merges in, and the other entries. -/
def takeMerge? (g : Graph) : List RefEntry → Option (Ref × List RefEntry)
  | [] => none
  | (key, value) :: rest =>
    if g.tag key = .merge then some (value, rest)
    else (takeMerge? g rest).map fun (found, others) => (found, (key, value) :: others)

def textKey (g : Graph) (entry : RefEntry) : Graph :=
  if g.tag entry.1 = .default then g.put entry.1 ((g.node entry.1).withTag .text) else g

/-- The mappings that a node under a merge key merges in, the one that counts least first. -/
def mergedMappings (g : Graph) (r : Ref) : Except Fault (List Ref) :=
  match g.node r with
  | .scalar .. => .error .construct
  | .mapping .. => .ok [r]
  | .sequence _ items => .ok items

def isMapping (g : Graph) (r : Ref) : Bool :=
  match g.node r with
  | .mapping .. => true
  | _ => false

/-- Settles a mapping that has `merged` entries already. Each step takes out a merge key, and `count` bounds their
number. -/
def settleFrom : (count : Nat) → (merged : List RefEntry) → Ref → Graph → Except Fault Graph
  | 0, _, _, g => .ok g
  | count + 1, merged, r, g =>
    let tag := g.tag r
    let entries := (g.node r).entries
    match takeMerge? g entries with
    | none => .ok ((entries.foldl textKey g).put r (.mapping tag (merged ++ entries)))
    | some (source, others) => do
      let g := g.put r (.mapping tag others)
      let sources ← g.mergedMappings source
      let step (state : List (List RefEntry) × Graph) (s : Ref) : Except Fault (List (List RefEntry) × Graph) := do
        if !state.2.isMapping s then throw .construct
        let g ← settleFrom count [] s state.2
        return ((g.node s).entries :: state.1, g)
      let (found, g) ← sources.foldlM step ([], g)
      settleFrom count (merged ++ found.flatten) r g

def settle (g : Graph) (r : Ref) : Except Fault Graph :=
  settleFrom (g.nodes.foldl (fun n node => n + node.entries.length) 1) [] r g

end NoteFormula.Yaml.Graph

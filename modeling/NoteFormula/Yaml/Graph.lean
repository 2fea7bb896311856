import NoteFormula.Yaml.Plain

/-! # Graphs of nodes

A YAML document is a graph: scalars with their text, sequences and mappings, each with its tag. Collections name
their parts by reference, so a node with an anchor can be a part of several others, and of itself.
-/
namespace NoteFormula.Yaml

inductive Tag where
  | scalar (type : ScalarType)
  | sequence
  | mapping
  | set
  /-- A sequence of mappings that have one entry each. -/
  | pairs
  | unknown
deriving DecidableEq

namespace Tag

def isCollection : Tag → Bool
  | sequence | mapping | set | pairs => true
  | _ => false

def merge : Tag := .scalar .merge

def default : Tag := .scalar .default

def text : Tag := .scalar .text

def standardTags : List (String × Tag) :=
  [("null", .scalar .null), ("bool", .scalar .bool), ("int", .scalar .int), ("float", .scalar .float),
    ("timestamp", .scalar .timestamp), ("str", text), ("binary", .scalar .bytes), ("merge", merge),
    ("value", default), ("seq", sequence), ("map", mapping), ("set", set), ("pairs", pairs), ("omap", pairs)]

def standardStart : List Char := "tag:yaml.org,2002:".toList

def ofName (name : List Char) : Tag :=
  match standardTags.find? fun (short, _) => standardStart ++ short.toList = name with
  | some (_, tag) => tag
  | none => unknown

end Tag

abbrev Ref := Nat

abbrev RefEntry := Ref × Ref

inductive Node where
  | scalar (tag : Tag) (text : List Char)
  | sequence (tag : Tag) (items : List Ref)
  | mapping (tag : Tag) (entries : List RefEntry)

instance : Inhabited Node := ⟨.scalar (.scalar .null) []⟩

namespace Node

def tag : Node → Tag
  | scalar tag _ | sequence tag _ | mapping tag _ => tag

def withTag (tag : Tag) : Node → Node
  | scalar _ text => scalar tag text
  | sequence _ items => sequence tag items
  | mapping _ entries => mapping tag entries

def entries : Node → List RefEntry
  | mapping _ entries => entries
  | _ => []

end Node

structure Graph where
  nodes : Array Node := #[]

namespace Graph

def size (g : Graph) : Nat := g.nodes.size

def node (g : Graph) (r : Ref) : Node := g.nodes[r]?.getD default

def tag (g : Graph) (r : Ref) : Tag := (g.node r).tag

def put (g : Graph) (r : Ref) (node : Node) : Graph := ⟨g.nodes.setIfInBounds r node⟩

def push (g : Graph) (node : Node) : Graph := ⟨g.nodes.push node⟩

def textFrom? (g : Graph) : (count : Nat) → Ref → Option (List Char)
  | 0, _ => none
  | count + 1, r =>
    match g.node r with
    | .scalar _ text => some text
    | .sequence .. => none
    | .mapping _ entries => do
      let (_, value) ← entries.find? fun (key, _) => g.tag key = .default
      textFrom? g count value

def text? (g : Graph) (r : Ref) : Option (List Char) := g.textFrom? (g.size + 1) r

end Graph

end NoteFormula.Yaml

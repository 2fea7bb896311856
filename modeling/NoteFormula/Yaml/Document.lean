import NoteFormula.Yaml.Graph
import NoteFormula.Yaml.TokenStream

/-! # Documents

The tokens of a text are read as one document, a graph with a root. A collection is in the graph before its parts,
so that they can name it. An anchor is taken once in a document.
-/
namespace NoteFormula.Yaml

abbrev Handles := List (List Char × List Char)

def defaultHandles : Handles := [(['!'], ['!']), (['!', '!'], Tag.standardStart)]

structure Reader where
  tokens : List Token
  fault : Option Fault
  handles : Handles := defaultHandles
  graph : Graph := {}
  anchors : List (List Char × Ref) := []

abbrev Read := StateT Reader (Except Fault)

namespace Read

/-- The next token. Past the last one lies the fault that ended them. -/
def peek : Read Token := do
  let r ← get
  match r.tokens, r.fault with
  | token :: _, _ => return token
  | [], some fault => throw fault
  | [], none => return .streamEnd

def advance : Read Unit := modify fun r => { r with tokens := r.tokens.tail }

def failParse : Read α := throw .parse

structure Properties where
  anchor : Option (List Char) := none
  tag : Option (Option (List Char) × List Char) := none

def properties : Read Properties := do
  match ← peek with
  | .anchor name =>
    advance
    match ← peek with
    | .tag handle suffix => advance; return ⟨some name, some (handle, suffix)⟩
    | _ => return ⟨some name, none⟩
  | .tag handle suffix =>
    advance
    match ← peek with
    | .anchor name => advance; return ⟨some name, some (handle, suffix)⟩
    | _ => return ⟨none, some (handle, suffix)⟩
  | _ => return {}

def tagName (tag : Option (Option (List Char) × List Char)) : Read (Option (List Char)) := do
  match tag with
  | none => return none
  | some (none, suffix) => return some suffix
  | some (some handle, suffix) =>
    match (← get).handles.find? (·.1 = handle) with
    | some (_, start) => return some (start ++ suffix)
    | none => failParse

def isMark (name : List Char) : Bool := name = ['!']

def collectionTag (name : Option (List Char)) (default : Tag) : Tag :=
  match name with
  | none => default
  | some name => if isMark name then default else .ofName name

/-- The tag of a scalar: a plain one without a tag has the type of its form. -/
def scalarTag (name : Option (List Char)) (plain : Bool) (text : List Char) : Tag :=
  match name with
  | none => .scalar (if plain then plainType text else .text)
  | some name => if isMark name then .scalar (plainType text) else .ofName name

def newNode (anchor : Option (List Char)) (node : Node) : Read Ref := do
  let r ← get
  let ref := r.graph.size
  match anchor with
  | none => set { r with graph := r.graph.push node }
  | some name =>
    if r.anchors.any (·.1 = name) then throw .compose
    else set { r with graph := r.graph.push node, anchors := (name, ref) :: r.anchors }
  return ref

def aliased (name : List Char) : Read Ref := do
  match (← get).anchors.find? (·.1 = name) with
  | some (_, ref) => return ref
  | none => throw .compose

/-- A sequence, whose items are read once it is there. -/
def newSequence (anchor : Option (List Char)) (tag : Tag) (items : Read (List Ref)) : Read Ref := do
  let ref ← newNode anchor (.sequence tag [])
  let found ← items
  modify fun r => { r with graph := r.graph.put ref (.sequence tag found) }
  return ref

def newMapping (anchor : Option (List Char)) (tag : Tag) (entries : Read (List RefEntry)) : Read Ref := do
  let ref ← newNode anchor (.mapping tag [])
  let found ← entries
  modify fun r => { r with graph := r.graph.put ref (.mapping tag found) }
  return ref

def emptyNode : Read Ref := newNode none default

def endsItem : Token → Bool
  | .blockEntry | .blockEnd => true
  | _ => false

def endsBareItem : Token → Bool
  | .blockEntry | .key | .value | .blockEnd => true
  | _ => false

def endsPart : Token → Bool
  | .key | .value | .blockEnd => true
  | _ => false

def endsFlowKey : Token → Bool
  | .value | .flowEntry | .flowSequenceEnd => true
  | _ => false

def endsFlowItem : Token → Bool
  | .flowEntry | .flowSequenceEnd => true
  | _ => false

def endsMapKey : Token → Bool
  | .value | .flowEntry | .flowMappingEnd => true
  | _ => false

def endsMapValue : Token → Bool
  | .flowEntry | .flowMappingEnd => true
  | _ => false

/-- Where a node stands: which collections may begin there without brackets. -/
inductive Position where
  | flow
  | block
  | blockOrBareSequence
deriving DecidableEq

mutual

def node : (count : Nat) → Position → Read Ref
  | 0, _ => failParse
  | count + 1, position => do
    if let .alias name ← peek then
      advance
      return ← aliased name
    let found ← properties
    let name ← tagName found.tag
    let inBlock := position != .flow
    let sequenceTag := collectionTag name .sequence
    let mappingTag := collectionTag name .mapping
    match ← peek with
    | .blockEntry =>
      if position = .blockOrBareSequence then newSequence found.anchor sequenceTag (bareItems count)
      else missing found name
    | .scalar text plain =>
      advance
      newNode found.anchor (.scalar (scalarTag name plain text) text)
    | .flowSequence =>
      advance
      newSequence found.anchor sequenceTag (flowItems count true)
    | .flowMapping =>
      advance
      newMapping found.anchor mappingTag (flowEntries count true)
    | .blockSequence =>
      if inBlock then
        advance
        newSequence found.anchor sequenceTag (blockItems count)
      else missing found name
    | .blockMapping =>
      if inBlock then
        advance
        newMapping found.anchor mappingTag (blockEntries count)
      else missing found name
    | _ => missing found name

/-- A node without content is empty if it has an anchor or a tag, and a fault otherwise. -/
def missing (found : Properties) (name : Option (List Char)) : Read Ref := do
  if found.anchor.isNone && name.isNone then failParse
  else newNode found.anchor (.scalar (scalarTag name true []) [])

/-- A node, or an empty one where a token that ends it stands. -/
def nodeUnless : (count : Nat) → (Token → Bool) → Position → Read Ref
  | 0, _, _ => failParse
  | count + 1, ends, position => do
    if ends (← peek) then emptyNode else node count position

def blockItems : (count : Nat) → Read (List Ref)
  | 0 => failParse
  | count + 1 => do
    match ← peek with
    | .blockEntry =>
      advance
      let item ← nodeUnless count endsItem .block
      return item :: (← blockItems count)
    | .blockEnd => advance; return []
    | _ => failParse

def bareItems : (count : Nat) → Read (List Ref)
  | 0 => failParse
  | count + 1 => do
    match ← peek with
    | .blockEntry =>
      advance
      let item ← nodeUnless count endsBareItem .block
      return item :: (← bareItems count)
    | _ => return []

def blockEntries : (count : Nat) → Read (List RefEntry)
  | 0 => failParse
  | count + 1 => do
    match ← peek with
    | .key =>
      advance
      let key ← nodeUnless count endsPart .blockOrBareSequence
      let value ← blockValue count
      return (key, value) :: (← blockEntries count)
    | .blockEnd => advance; return []
    | _ => failParse

def blockValue : (count : Nat) → Read Ref
  | 0 => failParse
  | count + 1 => do
    match ← peek with
    | .value =>
      advance
      nodeUnless count endsPart .blockOrBareSequence
    | _ => emptyNode

/-- The items of a bracketed sequence; after the first one a comma comes before each. -/
def flowItems : (count : Nat) → (first : Bool) → Read (List Ref)
  | 0, _ => failParse
  | count + 1, first => do
    if let .flowSequenceEnd ← peek then
      advance
      return []
    if !first then
      match ← peek with
      | .flowEntry => advance
      | _ => failParse
    match ← peek with
    | .key =>
      advance
      let entry := do return [(← nodeUnless count endsFlowKey .flow, ← flowValue count endsFlowItem)]
      let item ← newMapping none .mapping entry
      return item :: (← flowItems count false)
    | .flowSequenceEnd => advance; return []
    | _ =>
      let item ← node count .flow
      return item :: (← flowItems count false)

def flowValue : (count : Nat) → (Token → Bool) → Read Ref
  | 0, _ => failParse
  | count + 1, ends => do
    match ← peek with
    | .value => advance; nodeUnless count ends .flow
    | _ => emptyNode

def flowEntries : (count : Nat) → (first : Bool) → Read (List RefEntry)
  | 0, _ => failParse
  | count + 1, first => do
    if let .flowMappingEnd ← peek then
      advance
      return []
    if !first then
      match ← peek with
      | .flowEntry => advance
      | _ => failParse
    match ← peek with
    | .key =>
      advance
      let key ← nodeUnless count endsMapKey .flow
      let value ← flowValue count endsMapValue
      return (key, value) :: (← flowEntries count false)
    | .flowMappingEnd => advance; return []
    | _ =>
      let key ← node count .flow
      let value ← emptyNode
      return (key, value) :: (← flowEntries count false)

end

def directives : (count : Nat) → (versioned : Bool) → Handles → Read Handles
  | 0, _, _ => failParse
  | count + 1, versioned, handles => do
    match ← peek with
    | .directive (.version major) =>
      advance
      if versioned || major ≠ 1 then failParse else directives count true handles
    | .directive (.tag handle start) =>
      advance
      if handles.any (·.1 = handle) then failParse else directives count versioned ((handle, start) :: handles)
    | .directive .other => advance; directives count versioned handles
    | _ => return handles ++ defaultHandles

def skipDocumentEnds : (count : Nat) → Read Unit
  | 0 => return ()
  | count + 1 => do
    if let .documentEnd ← peek then
      advance
      skipDocumentEnds count

/-- The start of a document that announces itself; `false` at the end of the text. -/
def documentStart (count : Nat) : Read Bool := do
  skipDocumentEnds count
  if let .streamEnd ← peek then return false
  let handles ← directives count false []
  match ← peek with
  | .documentStart =>
    advance
    modify fun r => { r with handles }
    return true
  | _ => failParse

/-- The content of a document that has announced itself may be empty. -/
def documentContent (count : Nat) : Read Ref := do
  match ← peek with
  | .directive _ | .documentStart | .documentEnd | .streamEnd => emptyNode
  | _ => node count .block

def firstDocument (count : Nat) : Read (Option Ref) := do
  match ← peek with
  | .directive _ | .documentStart | .streamEnd =>
    if ← documentStart count then return some (← documentContent count) else return none
  | _ => return some (← node count .block)

def onlyDocument (count : Nat) : Read (Option Ref) := do
  match ← firstDocument count with
  | none => return none
  | some node =>
    if let .documentEnd ← peek then advance
    if ← documentStart count then throw .compose else return some node

end Read

structure Document where
  graph : Graph
  root : Ref

def Document.ofText? (cs : List Char) : Except Fault (Option Document) := do
  let stream ← TokenStream.ofText cs
  let reader : Reader := { tokens := stream.tokens, fault := stream.fault }
  let (root?, reader) ← Read.onlyDocument (4 * stream.tokens.length + 8) reader
  return root?.map fun root => ⟨reader.graph, root⟩

end NoteFormula.Yaml

import NoteFormula.Text.Base64
import NoteFormula.Text.Quoted
import NoteFormula.Value.Equality
import NoteFormula.Yaml.Document
import NoteFormula.Yaml.Merge
import NoteFormula.Yaml.Number
import NoteFormula.Yaml.Timestamp

/-! # Contents of nodes

What the nodes of a document hold. Scalars are read by the rules of their type. Collections are told from their
tags where they are met, and filled later, the one met first before the others; the first fault on that way counts.
-/
namespace NoteFormula.Yaml

/-- Of a form that is no integer a message shows so many characters. -/
def shownInteger : Nat := 200

def Fault.message : Fault → String
  | badInteger base text =>
    "invalid literal for int() with base " ++ String.ofList (Text.decimalDigits base) ++ ": " ++
      String.ofList ((Text.quoted text).toList.take shownInteger)
  | badFloat text => "could not convert string to float: " ++ Text.quoted text
  | tooLarge => "int too large to convert to float"
  | badBool word => Text.quoted word
  | badTimestamp => "'NoneType' object has no attribute 'groupdict'"
  | notText => "expected string or bytes-like object, got 'list'"
  | badDate reason => reason
  | badZone minutes =>
    "offset must be a timedelta strictly between -timedelta(hours=24) and timedelta(hours=24), not " ++
      Value.inspectSpan minutes ++ "."
  | noSuchCharacter => "chr() arg not in range(0x110000)"
  | codeTooLarge => "Python int too large to convert to C int"
  | noDigits => "string index out of range"
  | _ => ""

def readBool (cs : List Char) : Except Fault Value :=
  let word := Text.lowercase (String.ofList cs)
  if ["yes", "true", "on"].contains word then .ok (.bool true)
  else if ["no", "false", "off"].contains word then .ok (.bool false)
  else .error (.badBool word)

def readBytes (cs : List Char) : Except Fault Value :=
  match if cs.all (·.toNat < 0x80) then Text.base64? cs else none with
  | some content => .ok (.bytes content)
  | none => .error .construct

def readScalar (type : ScalarType) (cs : List Char) : Except Fault Value :=
  match type with
  | .null => .ok .absent
  | .bool => readBool cs
  | .int => readInt cs
  | .float => readFloat cs
  | .timestamp => readTimestamp cs
  | .text => .ok (.text (String.ofList cs))
  | .bytes => readBytes cs
  | .merge | .default | .reserved => .error .construct

/-- What a node holds. Parts are named by their nodes. -/
inductive Part where
  /-- A scalar, and whether its value equals nothing but itself. -/
  | scalar (value : Value) (unlike : Bool)
  | list (items : List Ref)
  | pairs (entries : List RefEntry)
  | map (entries : List RefEntry)
  | set (keys : List Ref)

def isNan (v : Value) : Bool := v.plainNumber? == some .nan

/-- The scalar that a node stands for. A mapping stands for the text of its default entry, but not for a timestamp.
The word for what is no number means the same thing everywhere; other forms of it are their own. -/
def scalarPart (g : Graph) (r : Ref) (type : ScalarType) : Except Fault Part :=
  match g.text? r with
  | none => .error .construct
  | some text => do
    if type = .timestamp && g.isMapping r then throw .notText
    let value ← readScalar type text
    return .scalar value (isNan value && !isNanWord text)

structure Parts where
  known : Array (Option Part)

namespace Parts

def size (p : Parts) : Nat := p.known.size

def part? (p : Parts) (r : Ref) : Option Part := (p.known[r]?).join

def put (p : Parts) (r : Ref) (part : Part) : Parts := ⟨p.known.setIfInBounds r (some part)⟩

end Parts

structure Filling where
  graph : Graph
  parts : Parts
  /-- The collections that have been met and not filled. -/
  waiting : List Ref := []

abbrev Fill := StateT Filling (Except Fault)

namespace Fill

def setPart (r : Ref) (part : Part) : Fill Unit :=
  modify fun f => { f with parts := f.parts.put r part }

/-- Meets a node: a scalar is read, a collection has to wait. -/
def meet (r : Ref) : Fill Unit := do
  let f ← get
  if (f.parts.part? r).isSome then return
  match f.graph.tag r with
  | .scalar type => setPart r (← scalarPart f.graph r type)
  | .unknown => throw .construct
  | _ =>
    setPart r (.list [])
    modify fun f => { f with waiting := f.waiting ++ [r] }

def partOf (r : Ref) : Fill (Option Part) := return (← get).parts.part? r

/-- Whether two nodes are equal keys. A node equals itself. -/
def isSameKey (r s : Ref) : Fill Bool := do
  match ← partOf r, ← partOf s with
  | some (.scalar v unlike), some (.scalar w unlike') =>
    return r == s || Value.same (!unlike && !unlike') v w
  | _, _ => return r == s

/-- Writes an entry: an equal key keeps its place and takes the new value. -/
def putEntry (entry : RefEntry) : List RefEntry → Fill (List RefEntry)
  | [] => return [entry]
  | e :: rest => do
    if ← isSameKey e.1 entry.1 then return (e.1, entry.2) :: rest
    else return e :: (← putEntry entry rest)

def meetEntry (entries : List RefEntry) (entry : RefEntry) : Fill (List RefEntry) := do
  meet entry.1
  if ((← get).graph.tag entry.1).isCollection then throw .construct
  meet entry.2
  putEntry entry entries

def meetPair (item : Ref) : Fill RefEntry := do
  match (← get).graph.node item with
  | .mapping _ [(key, value)] =>
    meet key
    meet value
    return (key, value)
  | _ => throw .construct

def entriesOf (r : Ref) : Fill (List RefEntry) := do
  let graph ← (← get).graph.settle r
  modify fun f => { f with graph }
  (graph.node r).entries.foldlM meetEntry []

def fill (r : Ref) : Fill Unit := do
  match (← get).graph.node r with
  | .sequence .sequence items =>
    items.forM meet
    setPart r (.list items)
  | .sequence .pairs items => setPart r (.pairs (← items.mapM meetPair))
  | .mapping .mapping _ => setPart r (.map (← entriesOf r))
  | .mapping .set _ => setPart r (.set ((← entriesOf r).map (·.1)))
  | _ => throw .construct

def fillAll : (count : Nat) → Fill Unit
  | 0 => return ()
  | count + 1 => do
    match (← get).waiting with
    | [] => return ()
    | r :: rest =>
      modify fun f => { f with waiting := rest }
      fill r
      fillAll count

end Fill

def Document.parts (d : Document) : Except Fault Parts := do
  let filling : Filling := { graph := d.graph, parts := ⟨Array.replicate d.graph.size none⟩ }
  let ((), filling) ← (do Fill.meet d.root; Fill.fillAll (d.graph.size + 1) : Fill Unit) filling
  return filling.parts

end NoteFormula.Yaml

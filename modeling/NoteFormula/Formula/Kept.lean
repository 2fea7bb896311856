import NoteFormula.Formula.Record
import NoteFormula.Yaml.Held

/-! # What a formula keeps of a document

A formula that is read from YAML keeps the very literals and paths of the document, so they go out with the nodes
that they came from. The maps around them are made anew, with the entries of a formula and no others.
-/
namespace NoteFormula.Yaml

def keptEntries (type : String) : List (String × Bool) :=
  if type = "lit" then [("value", false)]
  else if type = "ref" then [("namespace", false), ("path", false)]
  else if type = "unary" then [("operator", false), ("operand", true)]
  else if type = "binary" then [("operator", false), ("left", true), ("right", true)]
  else if type = "if" then [("condition", true), ("then", true), ("else", true)]
  else if type = "contains" then [("haystack", true), ("needle", true)]
  else if type = "length" then [("operand", true)]
  else []

/-- The entry that may be left out of a record, and is absent then. -/
def optionalEntry (type : String) : List String :=
  if type = "lit" then ["value"] else if type = "if" then ["else"] else []

def Parts.textOf? (parts : Parts) (r : Ref) : Option String :=
  match parts.part? r with
  | some (.scalar (.text s) _) => some s
  | _ => none

def Parts.field? (parts : Parts) (entries : List RefEntry) (name : String) : Option Ref :=
  (entries.find? fun e => parts.textOf? e.1 == some name).map (·.2)

def Parts.held (parts : Parts) (r : Ref) : Held := .ofPart parts (parts.size + 1) [] r

/-- The record of a formula, inside the nodes of `path`; `count` bounds its depth. -/
def Parts.recordFrom (parts : Parts) : (count : Nat) → (path : List Ref) → Ref → Held
  | 0, _, r => parts.held r
  | count + 1, path, r =>
    match parts.part? r with
    | some (.map entries) =>
      if path.contains r then .enclosing r true
      else
        let type := ((parts.field? entries "type").bind parts.textOf?).getD ""
        let missing := (optionalEntry type).filter fun name => (parts.field? entries name).isNone
        let found := (("type", false) :: keptEntries type).filterMap fun (name, isFormula) =>
          (parts.field? entries name).map fun v =>
            let part := if isFormula then recordFrom parts count (r :: path) v else parts.held v
            (Held.ofValue (.text name), part)
        .map none (found ++ missing.map fun name => (.ofValue (.text name), .ofValue .absent))
    | _ => parts.held r

def Held.recordOfText (s : String) : Except Fault Held := do
  match ← Document.ofText? s.toList with
  | none => return default
  | some document =>
    let parts ← document.parts
    return parts.recordFrom (parts.size + 1) [] document.root

end NoteFormula.Yaml

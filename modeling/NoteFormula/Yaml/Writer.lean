import NoteFormula.Yaml.Draft

/-! # Values as YAML

Maps and lists in block form, two blanks deeper at each level, lists at the indentation of the key that holds
them; empty ones in flow form. An object with an anchor is written where it comes first, and named from then on.
-/
namespace NoteFormula.Yaml

abbrev Write := StateM (List Ref)

/-- How a value begins: with its anchor, if it has one, or with nothing but the name of an anchor. -/
inductive Opening where
  | anchor (mark : List Char)
  | alias (mark : List Char)

def idOf (anchors : List Ref) (r : Ref) : List Char :=
  'i' :: 'd' :: Text.padLeft 3 (Text.decimalDigits (anchors.idxOf r + 1))

def opening (anchors : List Ref) (node : Option Ref) : Write Opening := do
  match node with
  | none => return .anchor []
  | some r =>
    if !anchors.contains r then return .anchor []
    else if (← get).contains r then return .alias ('*' :: idOf anchors r)
    else
      modify (r :: ·)
      return .anchor ('&' :: idOf anchors r)

def spaced (mark : List Char) : List Char := if mark.isEmpty then [] else ' ' :: mark

/-- What stands before a value: the colon of a key on its line, a colon on a line of its own, or the dash of an
item. -/
inductive Lead where
  | colon | loneColon | dash
deriving DecidableEq

/-- A block after what stands before it. Without marks it begins on the line of a dash or a lone colon. -/
def placed (lead : Lead) (marks : List Char) (indent : Nat) (parts : List (List Char)) : List Char :=
  let block := (newLine indent).intercalate parts
  if marks.isEmpty && lead ≠ .colon then ' ' :: block else marks ++ newLine indent ++ block

/-- The indentation of a list: that of the map around it, unless it begins on the line of its lead or is an item. -/
def listIndent (lead : Lead) (marks : List Char) (indent : Nat) : Nat :=
  if lead = .dash || (lead = .loneColon && marks.isEmpty) then indent + 2 else indent

namespace Draft

mutual

/-- A value after its lead, which ends at `column`; `indent` is the indentation of the block that holds it. -/
def write (anchors : List Ref) (indent column : Nat) (lead : Lead) : Draft → Write (List Char)
  | enclosing r => return ' ' :: '*' :: idOf anchors r
  | scalar node s => do
    match ← opening anchors node with
    | .alias mark => return spaced mark
    | .anchor mark =>
      let mark := spaced mark
      return mark ++ ' ' :: s.write ⟨indent + 2, true⟩ (column + mark.length + 1)
  | list node items => do
    match ← opening anchors node with
    | .alias mark => return spaced mark
    | .anchor mark =>
      let marks := spaced mark
      if items.isEmpty then return marks ++ [' ', '[', ']']
      let indent := listIndent lead marks indent
      return placed lead marks indent (← writeItems anchors indent items)
  | map node isSet entries => do
    match ← opening anchors node with
    | .alias mark => return spaced mark
    | .anchor mark =>
      let marks := spaced mark ++ if isSet then " !!set".toList else []
      if entries.isEmpty then return marks ++ [' ', '\x7b', '\x7d']
      return placed lead marks (indent + 2) (← writeEntries anchors (indent + 2) entries)

def writeItems (anchors : List Ref) (indent : Nat) : List Draft → Write (List (List Char))
  | [] => return []
  | d :: rest => do
    let item ← write anchors indent (indent + 1) .dash d
    return ('-' :: item) :: (← writeItems anchors indent rest)

def writeEntries (anchors : List Ref) (indent : Nat) : List (Draft × Draft) → Write (List (List Char))
  | [] => return []
  | (k, v) :: rest => do
    let key ← writeKey anchors indent k
    match key with
    | .inl key =>
      let value ← write anchors indent (indent + key.length + 1) .colon v
      return (key ++ ':' :: value) :: (← writeEntries anchors indent rest)
    | .inr key =>
      let value ← write anchors indent (indent + 1) .loneColon v
      return ('?' :: key ++ newLine indent ++ ':' :: value) :: (← writeEntries anchors indent rest)

def writeKey (anchors : List Ref) (indent : Nat) : Draft → Write (List Char ⊕ List Char)
  | scalar node s => do
    match ← opening anchors node with
    | .alias mark => return .inl mark
    | .anchor mark =>
      let gap := if mark.isEmpty then [] else [' ']
      if s.isSimpleKey (mark.length - 1) then return .inl (mark ++ gap ++ s.write ⟨indent + 2, false⟩ indent)
      else
        let mark := spaced mark
        return .inr (mark ++ ' ' :: s.write ⟨indent + 2, true⟩ (indent + mark.length + 2))
  | d => return .inr (← write anchors indent (indent + 1) .loneColon d)

end

/-- Whether a document that is one scalar needs a mark at its end: a plain scalar could go on. -/
def endMark (s : Scalar) : List Char :=
  match s.form with
  | .typed _ => ['.', '.', '.', '\n']
  | .text => if styleOf s.text = .plain then ['.', '.', '.', '\n'] else []
  | .bytes => []

def document (d : Draft) : List Char :=
  let anchors := d.anchored
  let lines (parts : Write (List (List Char))) : List Char := ['\n'].intercalate ((parts.run []).1)
  match d with
  | scalar _ s => s.write ⟨2, true⟩ 0 ++ '\n' :: endMark s
  | list _ [] => ['[', ']', '\n']
  | map _ _ [] => ['\x7b', '\x7d', '\n']
  | list _ items => lines (writeItems anchors 0 items) ++ ['\n']
  | map _ _ entries => lines (writeEntries anchors 0 entries) ++ ['\n']
  | enclosing _ => []

end Draft

def document (h : Held) : Except YamlWriteFault (List Char) := (Draft.ofHeld h).map (·.document)

end NoteFormula.Yaml

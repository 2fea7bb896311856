import NoteFormula.Text.Digits
import NoteFormula.Text.Split
import NoteFormula.Value.Inspect

/-! # Lookup of dotted paths

A path is walked one segment at a time: through a map by key, through a list by canonical index, and to the
length of a list or a text by the word `length`. Whatever cannot be walked is absent.
-/
namespace NoteFormula

def segments (path : String) : List (List Char) := Text.splitAt '.' path.toList

/-- The index that a segment spells: decimal digits without a leading zero. -/
def index? (segment : List Char) : Option Nat :=
  if segment.all Text.isDigit && !segment.isEmpty && (segment = ['0'] || segment.head? ≠ some '0') then
    some (Text.ofDigits segment)
  else none

namespace Value

def lengthWord : List Char := "length".toList

def child (v : Value) (segment : List Char) : Value :=
  match v with
  | map entries => (field? entries (String.ofList segment)).getD absent
  | list items | tuple items => match index? segment with
    | some i => (items[i]?).getD absent
    | none => if segment = lengthWord then int items.length else absent
  | text s => if segment = lengthWord then int s.length else absent
  | _ => absent

def resolve (v : Value) (path : String) : Value := (segments path).foldl child v

end Value

inductive ContextFault where
  | unsupported (kind : String)
  | pathNotText (kind : String)
  /-- Bytes are cut at bytes alone, not at a character. -/
  | pathIsBytes

def ContextFault.message : ContextFault → String
  | unsupported kind => "Unsupported context type: " ++ kind
  | pathNotText kind => "'" ++ kind ++ "' object has no attribute 'split'"
  | pathIsBytes => "a bytes-like object is required, not 'str'"

abbrev Context := Value → Except ContextFault Value

namespace Context

def ofEntries (entries : Value.Entries) : Context
  | .text path => .ok ((Value.map entries).resolve path)
  | .bytes _ => .error .pathIsBytes
  | path => .error (.pathNotText path.fullKind)

def empty : Context := ofEntries []

/-- The context that a caller means by a value: a map is front matter, an absent one is empty. -/
def ofValue? : Value → Except ContextFault Context
  | .absent => .ok empty
  | .map entries => .ok (ofEntries entries)
  | v => .error (.unsupported v.kind)

def describe (frontmatter : Value) : String :=
  "FrontmatterContext(" ++ (if frontmatter.isAbsent then Value.map [] else frontmatter).inspect ++ ")"

end Context

end NoteFormula

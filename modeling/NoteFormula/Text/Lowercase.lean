import NoteFormula.Text.Lowercase.Table
import NoteFormula.Text.Printable

/-! # Lower case

The full lower-case mapping of a text. Only two characters need more than a table row: the dotted capital
`İ` becomes two characters, and a capital sigma that closes a word becomes the final form `ς`.
-/
namespace NoteFormula.Text

def CaseRun.holds (run : CaseRun) (n : Nat) : Bool :=
  run.first ≤ n && n ≤ run.last && (n - run.first) % run.step == 0

def lowerChar (c : Char) : List Char :=
  if c.toNat < 0x80 then [c.toLower]
  else if c = 'İ' then ['i', '\u0307']
  else match lowerRuns.find? (·.holds c.toNat) with
    | some run => [Char.ofNat (c.toNat + run.shift).toNat]
    | none => [c]

def meetsCase : List Char → Bool
  | [] => false
  | c :: cs => if covers caseIgnorableRuns c.toNat then meetsCase cs else covers casedRuns c.toNat

/-- A capital sigma takes its final form after a cased character when no cased character follows. -/
def lowerAt (before : List Char) (c : Char) (after : List Char) : List Char :=
  if c = 'Σ' then [if meetsCase before && !meetsCase after then 'ς' else 'σ'] else lowerChar c

def lowerFrom (before : List Char) : List Char → List Char
  | [] => []
  | c :: after => lowerAt before c after ++ lowerFrom (c :: before) after

def lowercase (s : String) : String := String.ofList (lowerFrom [] s.toList)

end NoteFormula.Text

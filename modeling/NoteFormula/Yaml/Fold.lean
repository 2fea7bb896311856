import NoteFormula.Text.Digits
import NoteFormula.Yaml.Style

/-! # Folding of long scalars

A scalar that runs past the width is broken at single blanks; its further lines are indented. In double quotes
a break is marked by a backslash, and one more keeps a blank at the start of the next line.
-/
namespace NoteFormula.Yaml

def width : Nat := 80

def newLine (indent : Nat) : List Char := '\n' :: List.replicate indent ' '

/-- Where further lines of a scalar begin, and whether there may be any. -/
structure Folding where
  indent : Nat
  allowed : Bool

def Folding.breaksAt (f : Folding) (column : Nat) : Bool := f.allowed && width < column

def plainFrom (f : Folding) (column blanks : Nat) : List Char → List Char
  | [] => List.replicate blanks ' '
  | c :: cs =>
    if c = ' ' then plainFrom f column (blanks + 1) cs
    else if blanks = 1 && f.breaksAt column then newLine f.indent ++ c :: plainFrom f (f.indent + 1) 0 cs
    else List.replicate blanks ' ' ++ c :: plainFrom f (column + blanks + 1) 0 cs

inductive Pending where
  | blanks (count : Nat) (atStart : Bool)
  | breaks (count : Nat)

/-- A line break inside quotes is written as an empty line. -/
def breakLines (count indent : Nat) : List Char :=
  if count = 0 then [] else List.replicate count '\n' ++ newLine indent

/-- The pending blanks or breaks before further text, and the column after them. -/
def Pending.write (f : Folding) (column : Nat) : Pending → List Char × Nat
  | blanks count atStart =>
    if count = 1 && f.breaksAt column && !atStart then (newLine f.indent, f.indent)
    else (List.replicate count ' ', column + count)
  | breaks count => if count = 0 then ([], column) else (breakLines count f.indent, f.indent)

def singleFrom (f : Folding) (column : Nat) (start : Bool) : Pending → List Char → List Char
  | pending, [] =>
    match pending with
    | .blanks count _ => List.replicate count ' ' ++ ['\'']
    | .breaks count => breakLines count f.indent ++ ['\'']
  | pending, c :: cs =>
    if c = ' ' then match pending with
      | .blanks count atStart =>
        singleFrom f column false (.blanks (count + 1) (if count = 0 then start else atStart)) cs
      | .breaks _ =>
        let (text, column) := pending.write f column
        text ++ singleFrom f column false (.blanks 1 false) cs
    else if c = '\n' then match pending with
      | .breaks count => singleFrom f column false (.breaks (count + 1)) cs
      | .blanks _ _ =>
        let (text, column) := pending.write f column
        text ++ singleFrom f column false (.breaks 1) cs
    else
      let (text, column) := pending.write f column
      let written := if c = '\'' then ['\'', '\''] else [c]
      text ++ written ++ singleFrom f (column + written.length) false (.blanks 0 false) cs

def escapeWord? (c : Char) : Option Char :=
  ([('\x00', '0'), ('\x07', 'a'), ('\x08', 'b'), ('\t', 't'), ('\n', 'n'), ('\x0b', 'v'), ('\x0c', 'f'),
    ('\r', 'r'), ('\x1b', 'e'), ('"', '"'), ('\\', '\\'), ('\u0085', 'N'), ('\u00a0', '_'), ('\u2028', 'L'),
    ('\u2029', 'P')].find? (·.1 = c)).map (·.2)

def upperHex (count n : Nat) : List Char := (Text.hex count n).map Char.toUpper

def escapeOf (c : Char) : List Char :=
  match escapeWord? c with
  | some w => ['\\', w]
  | none =>
    if c.toNat ≤ 0xff then '\\' :: 'x' :: upperHex 2 c.toNat
    else if c.toNat ≤ 0xffff then '\\' :: 'u' :: upperHex 4 c.toNat
    else '\\' :: 'U' :: upperHex 8 c.toNat

def needsEscape (c : Char) : Bool := c = '"' || c = '\\' || !isPrintableAscii c

/-- The backslash that keeps a blank at the start of a line. -/
def keepBlank (c : Option Char) : List Char := if c = some ' ' then ['\\'] else []

/-- Text in double quotes from `column` on, after text that is not written yet, up to the closing quote. A line
is never broken before the first character has been passed, nor before the last one. -/
def doubleFrom (f : Folding) (column : Nat) (start : Bool) (unwritten : List Char) : List Char → List Char
  | [] => unwritten ++ ['"']
  | c :: cs =>
    let inside := !start && !cs.isEmpty
    if needsEscape c then
      let text := unwritten ++ escapeOf c
      let after := column + text.length
      if inside && f.breaksAt (after - 1) then
        let keep := keepBlank cs.head?
        text ++ '\\' :: newLine f.indent ++ keep ++ doubleFrom f (f.indent + keep.length) false [] cs
      else text ++ doubleFrom f after false [] cs
    else if inside && (c = ' ' || unwritten.isEmpty) && f.breaksAt (column + unwritten.length) then
      let keep := keepBlank (some c)
      unwritten ++ '\\' :: newLine f.indent ++ keep ++ doubleFrom f (f.indent + keep.length) false [c] cs
    else doubleFrom f column false (unwritten ++ [c]) cs

def scalarText (f : Folding) (column : Nat) (cs : List Char) : List Char :=
  match styleOf cs with
  | .plain => plainFrom f column 0 cs
  | .single => '\'' :: singleFrom f (column + 1) true (.blanks 0 false) cs
  | .double => '"' :: doubleFrom f (column + 1) true [] cs

end NoteFormula.Yaml

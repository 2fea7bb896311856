import NoteFormula.Yaml.Place

/-! # Texts of scalars

How the characters of a quoted, plain or block scalar become its text: escapes are resolved and lines folded.
-/
namespace NoteFormula.Yaml

abbrev Scanned := Except Fault (List Char × Place)

/-- A line break inside a scalar: alone it is a blank, and further ones stand for themselves. -/
def foldedBreak (lineBreak breaks : List Char) : List Char :=
  (if lineBreak ≠ ['\n'] then lineBreak else if breaks.isEmpty then [' '] else []) ++ breaks

def quotedBreaks : (count : Nat) → Place → Scanned
  | 0, _ => .error .scan
  | count + 1, p =>
    if p.atAnyMarker then .error .scan
    else
      let p := p.skipWhile fun c => c = ' ' || c = '\t'
      if isBreak p.peek then do
        let (text, p) := p.lineBreak
        let (more, p) ← quotedBreaks count p
        return (text ++ more, p)
      else return ([], p)

def simpleEscapes : List (Char × Char) :=
  [('0', '\x00'), ('a', '\x07'), ('b', '\x08'), ('t', '\t'), ('\t', '\t'), ('n', '\n'), ('v', '\x0b'),
    ('f', '\x0c'), ('r', '\r'), ('e', '\x1b'), (' ', ' '), ('"', '"'), ('\\', '\\'), ('/', '/'), ('N', '\u0085'),
    ('_', '\u00a0'), ('L', '\u2028'), ('P', '\u2029')]

/-- The number of digits after an escape that names a character by its code. -/
def codeLength? (c : Char) : Option Nat :=
  if c = 'x' then some 2 else if c = 'u' then some 4 else if c = 'U' then some 8 else none

def codeChar (n : Nat) : Except Fault Char :=
  if 0x80000000 ≤ n then .error .codeTooLarge
  else if 0x110000 ≤ n then .error .noSuchCharacter
  else .ok (if 0xd800 ≤ n && n ≤ 0xdfff then '\ufffd' else Char.ofNat n)

def escape (p : Place) : Scanned :=
  let c := p.peek
  match simpleEscapes.find? (·.1 = c) with
  | some (_, meant) => .ok ([meant], p.next)
  | none => match codeLength? c with
    | some length =>
      let p := p.next
      let digits := p.rest.take length
      if digits.length = length && digits.all Text.isHexDigit then do
        return ([← codeChar (Text.ofBase 16 digits)], p.skip length)
      else .error .scan
    | none =>
      if isBreak c then quotedBreaks (p.rest.length + 1) p.lineBreak.2 else .error .scan

def isQuotedPlain (c : Char) : Bool :=
  !(c = '\'' || c = '"' || c = '\\' || c = endMark || c = ' ' || c = '\t' || isBreak c)

def quotedGap (p : Place) : Scanned :=
  let (blanks, p) := p.takeWhile fun c => c = ' ' || c = '\t'
  if p.peek = endMark then .error .scan
  else if isBreak p.peek then do
    let (lineBreak, p) := p.lineBreak
    let (breaks, p) ← quotedBreaks (p.rest.length + 1) p
    return (foldedBreak lineBreak breaks, p)
  else .ok (blanks, p)

def quotedText (quote : Char) : (count : Nat) → Place → Scanned
  | 0, _ => .error .scan
  | count + 1, p => do
    let c := p.peek
    if isQuotedPlain c then
      let (word, p) := p.takeWhile isQuotedPlain
      let (more, p) ← quotedText quote count p
      return (word ++ more, p)
    else if c = quote then
      if quote = '\'' && p.peekAt 1 = '\'' then
        let (more, p) ← quotedText quote count (p.skip 2)
        return ('\'' :: more, p)
      else return ([], p.next)
    else if c = '\\' && quote = '"' then
      let (text, p) ← escape p.next
      let (more, p) ← quotedText quote count p
      return (text ++ more, p)
    else if c = '\'' || c = '"' || c = '\\' then
      let (more, p) ← quotedText quote count p.next
      return (c :: more, p)
    else
      let (gap, p) ← quotedGap p
      let (more, p) ← quotedText quote count p
      return (gap ++ more, p)

def quotedScalar (p : Place) : Scanned := quotedText p.peek (p.rest.length + 1) p.next

def isFlowMark (c : Char) : Bool := c = ',' || c = '[' || c = ']' || c = '\x7b' || c = '\x7d'

def endsPlain (inFlow : Bool) (c next : Char) : Bool :=
  isStopOrTab c || (c = ':' && (isStopOrTab next || (inFlow && isFlowMark next))) ||
    (inFlow && (c = '?' || isFlowMark c))

def plainWord (inFlow : Bool) : List Char → List Char
  | [] => []
  | c :: cs => if endsPlain inFlow c (cs.headD endMark) then [] else c :: plainWord inFlow cs

/-- Empty lines inside a plain scalar; `none` if a document marker follows. -/
def plainBreaks : (count : Nat) → Place → Option (List Char × Place)
  | 0, _ => none
  | count + 1, p =>
    if p.peek = ' ' then plainBreaks count p.next
    else if isBreak p.peek then
      let (text, p) := p.lineBreak
      if p.atAnyMarker then none
      else (plainBreaks count p).map fun (more, p) => (text ++ more, p)
    else some ([], p)

/-- The gap after a word of a plain scalar: its text, the place after it, and whether a line ended. -/
def plainGap (p : Place) : List Char × Place × Bool :=
  let (blanks, p) := p.takeWhile (· = ' ')
  if isBreak p.peek then
    let (lineBreak, q) := p.lineBreak
    if q.atAnyMarker then ([], q, true)
    else match plainBreaks (q.rest.length + 1) q with
      | some (breaks, q) => (foldedBreak lineBreak breaks, q, true)
      | none => ([], markerAfter (q.rest.length + 1) q, true)
  else (blanks, p, false)
where
  /-- The next line that a document marker begins. -/
  markerAfter : Nat → Place → Place
    | 0, p => p
    | count + 1, p =>
      if p.peek = ' ' then markerAfter count p.next
      else if isBreak p.peek then
        let q := p.lineBreak.2
        if q.atAnyMarker then q else markerAfter count q
      else p

/-- A plain scalar whose further lines are indented by at least `indent`: its text, the place after it, and
whether a line ended after its last word. -/
def plainScalar (inFlow : Bool) (indent : Int) : (count : Nat) → Place → List Char × Place × Bool
  | 0, p => ([], p, false)
  | count + 1, p =>
    let word := if p.peek = '#' then [] else plainWord inFlow p.rest
    let p := p.skip word.length
    let (gap, q, ended) := plainGap p
    if gap.isEmpty || q.peek = '#' || (!inFlow && q.column < indent) then (word, q, ended)
    else if (plainWord inFlow q.rest).isEmpty then (word, q, ended)
    else
      let (more, q, ended) := plainScalar inFlow indent count q
      (word ++ gap ++ more, q, ended)

inductive Chomping where
  | clip | strip | keep
deriving DecidableEq

def chomping? (c : Char) : Option Chomping :=
  if c = '+' then some .keep else if c = '-' then some .strip else none

def isIncrement (c : Char) : Bool := '1' ≤ c && c ≤ '9'

/-- The chomping and the indentation that the head of a block scalar asks for. -/
def blockHead (p : Place) : Except Fault ((Chomping × Option Nat) × Place) :=
  let digit (p : Place) : Option Nat × Place :=
    if isIncrement p.peek then (some (p.peek.toNat - '0'.toNat), p.next) else (none, p)
  let (head, p) := match chomping? p.peek with
    | some chomping =>
      let (increment, p) := digit p.next
      ((chomping, increment), p)
    | none =>
      let (increment, p) := digit p
      match chomping? p.peek with
      | some chomping => if increment.isSome then ((chomping, increment), p.next) else ((.clip, increment), p)
      | none => ((.clip, increment), p)
  if isStop p.peek then .ok (head, p) else .error .scan

/-- Empty lines before the first line of a block scalar, and the widest blank among them and it. -/
def blockIndentation (widest : Nat) : (count : Nat) → Place → List Char × Nat × Place
  | 0, p => ([], widest, p)
  | count + 1, p =>
    if p.peek = ' ' then blockIndentation (max widest p.next.column) count p.next
    else if isBreak p.peek then
      let (text, q) := p.lineBreak
      let (more, widest, q) := blockIndentation widest count q
      (text ++ more, widest, q)
    else ([], widest, p)

def skipIndent (indent : Nat) (p : Place) : Place :=
  p.skip (min (p.rest.takeWhile (· = ' ')).length (indent - p.column))

def blockBreaks (indent : Nat) : (count : Nat) → Place → List Char × Place
  | 0, p => ([], p)
  | count + 1, p =>
    let p := skipIndent indent p
    if isBreak p.peek then
      let (text, p) := p.lineBreak
      let (more, p) := blockBreaks indent count p
      (text ++ more, p)
    else ([], p)

def isBlankChar (c : Char) : Bool := c = ' ' || c = '\t'

def blockLines (folded : Bool) (indent : Nat) (chomping : Chomping) (lineBreak before : List Char) :
    (count : Nat) → Place → List Char × Place
  | 0, p => ([], p)
  | count + 1, p =>
    if p.column = indent && p.peek ≠ endMark then
      let spaced := isBlankChar p.peek
      let (line, p) := p.takeWhile (!isEndOrBreak ·)
      let (lineBreak, p) := p.lineBreak
      let (breaks, p) := blockBreaks indent (p.rest.length + 1) p
      let goesOn := p.column = indent && p.peek ≠ endMark
      let joint :=
        if !goesOn then []
        else if folded && lineBreak = ['\n'] && !spaced && !isBlankChar p.peek then
          (if breaks.isEmpty then [' '] else [])
        else lineBreak
      let (more, p) := blockLines folded indent chomping lineBreak breaks count p
      (before ++ line ++ joint ++ more, p)
    else
      ((if chomping = .strip then [] else lineBreak) ++ (if chomping = .keep then before else []), p)

def blockScalar (folded : Bool) (indent : Int) (p : Place) : Scanned := do
  let ((chomping, increment), p) ← blockHead p.next
  let p ← p.endLine
  let least := (max (indent + 1) 1).toNat
  let (breaks, indent, p) := match increment with
    | none =>
      let (breaks, widest, p) := blockIndentation 0 (p.rest.length + 1) p
      (breaks, max least widest, p)
    | some increment =>
      let indent := least + increment - 1
      let (breaks, p) := blockBreaks indent (p.rest.length + 1) p
      (breaks, indent, p)
  return blockLines folded indent chomping [] breaks (p.rest.length + 2) p

end NoteFormula.Yaml

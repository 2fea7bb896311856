import NoteFormula.Text.Digits

/-! # Places in a YAML text

A place is what is left of the text and where that begins. The NUL character, which no readable text holds,
stands for the end.
-/
namespace NoteFormula.Yaml

inductive Fault where
  | unreadable
  | scan
  | parse
  | compose
  | construct
  | noSuchCharacter
  /-- A code that is not even in the range of codes. -/
  | codeTooLarge
  | noDigits
  | badInteger (base : Nat) (text : String)
  | badFloat (text : String)
  | tooLarge
  | badBool (word : String)
  | badTimestamp
  | notText
  | badDate (reason : String)
  /-- A zone a day or more from the zero meridian. -/
  | badZone (minutes : Int)
deriving DecidableEq

def isBreak (c : Char) : Bool := c = '\n' || c = '\r' || c = '\u0085' || c = '\u2028' || c = '\u2029'

def endMark : Char := '\x00'

def isEndOrBreak (c : Char) : Bool := c = endMark || isBreak c

def isStop (c : Char) : Bool := c = ' ' || isEndOrBreak c

def isStopOrTab (c : Char) : Bool := c = '\t' || isStop c

structure Place where
  rest : List Char
  index : Nat
  line : Nat
  column : Nat

namespace Place

def ofText (cs : List Char) : Place := ⟨cs, 0, 0, 0⟩

def peekAt (p : Place) (n : Nat) : Char := p.rest[n]?.getD endMark

def peek (p : Place) : Char := p.peekAt 0

/-- The place one character on. A carriage return before a line feed does not end the line by itself. -/
def next (p : Place) : Place :=
  match p.rest with
  | [] => p
  | c :: rest =>
    if isBreak c && !(c = '\r' && rest.head? = some '\n') then ⟨rest, p.index + 1, p.line + 1, 0⟩
    else ⟨rest, p.index + 1, p.line, if c = '\ufeff' then p.column else p.column + 1⟩

def skip : Nat → Place → Place
  | 0, p => p
  | n + 1, p => skip n p.next

def skipWhile (test : Char → Bool) (p : Place) : Place := p.skip (p.rest.takeWhile test).length

def takeWhile (test : Char → Bool) (p : Place) : List Char × Place :=
  let cs := p.rest.takeWhile test
  (cs, p.skip cs.length)

/-- Reads a line break; all but two kinds of it are read as a line feed. -/
def lineBreak (p : Place) : List Char × Place :=
  let c := p.peek
  if c = '\r' && p.peekAt 1 = '\n' then (['\n'], p.skip 2)
  else if c = '\u2028' || c = '\u2029' then ([c], p.next)
  else if isBreak c then (['\n'], p.next)
  else ([], p)

/-- Whether three dashes or three dots, and then a stop, stand here. -/
def atMarker (marker : Char) (p : Place) : Bool :=
  p.peek = marker && p.peekAt 1 = marker && p.peekAt 2 = marker && isStopOrTab (p.peekAt 3)

def atAnyMarker (p : Place) : Bool := p.atMarker '-' || p.atMarker '.'

def skipComment (p : Place) : Place :=
  let p := p.skipWhile (· = ' ')
  if p.peek = '#' then p.skipWhile (!isEndOrBreak ·) else p

def endLine (p : Place) : Except Fault Place :=
  let p := p.skipComment
  if isEndOrBreak p.peek then .ok p.lineBreak.2 else .error .scan

end Place

end NoteFormula.Yaml

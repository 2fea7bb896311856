import NoteFormula.Yaml.Plain

/-! # Styles of written text

A text is written plain where it reads back as the same text, in single quotes where only its type or its
first characters forbid that, and in double quotes where it needs escapes.
-/
namespace NoteFormula.Yaml

inductive Style where
  | plain | single | double
deriving DecidableEq, Repr

def isPrintableAscii (c : Char) : Bool := ' ' ≤ c && c ≤ '~'

def isGap (c : Char) : Bool := c = ' ' || c = '\t' || c = '\r' || c = '\n'

def gapNext : List Char → Bool
  | [] => true
  | c :: _ => isGap c

def isLeadingIndicator (c : Char) : Bool := "#,[]\x7b\x7d&*!|>'\"%@\x60".toList.contains c

def startsWithIndicator : List Char → Bool
  | [] => false
  | c :: cs => isLeadingIndicator c || ((c = '?' || c = ':' || c = '-') && gapNext cs)

/-- Whether, after the first character, a colon ends a word or a hash begins one. -/
def hasInnerIndicator : List Char → Bool
  | a :: b :: cs => (b = ':' && gapNext cs) || (b = '#' && isGap a) || hasInnerIndicator (b :: cs)
  | _ => false

def startsLikeMarker (cs : List Char) : Bool :=
  ['-', '-', '-'].isPrefixOf cs || ['.', '.', '.'].isPrefixOf cs

/-- A blank beside a line break is lost in single quotes. -/
def hasBlankAtBreak : List Char → Bool
  | ' ' :: '\n' :: _ => true
  | '\n' :: ' ' :: _ => true
  | _ :: cs => hasBlankAtBreak cs
  | [] => false

def isEdge (c : Option Char) : Bool := c = some ' ' || c = some '\n'

def allowsSingle (cs : List Char) : Bool :=
  cs.all (fun c => isPrintableAscii c || c = '\n') && !hasBlankAtBreak cs

def allowsPlain (cs : List Char) : Bool :=
  cs.all isPrintableAscii && !isEdge cs.head? && !isEdge cs.getLast? && !startsLikeMarker cs &&
    !startsWithIndicator cs && !hasInnerIndicator cs

def styleOf (cs : List Char) : Style :=
  if plainType cs = .text && allowsPlain cs then .plain
  else if allowsSingle cs then .single
  else .double

end NoteFormula.Yaml

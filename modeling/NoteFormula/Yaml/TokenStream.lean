import NoteFormula.Yaml.ScalarText
import NoteFormula.Yaml.Token

/-! # Token streams

A text becomes a list of tokens, which may stop at a fault. A key on one line is known as a key only by the
colon after it, so every token that could begin such a key is remembered, and the marks that open a block and
announce the key are put in front of it later. A fault hides every token that is not settled when it shows.
-/
namespace NoteFormula.Yaml

/-- A token that may turn out to begin a key. -/
structure KeyStart where
  level : Nat
  number : Nat
  required : Bool
  index : Nat
  line : Nat
  column : Nat

structure Scan where
  place : Place
  tokens : List Token := []
  /-- The indentation of the block at hand, and those around it. -/
  indent : Int := -1
  outer : List Int := []
  flow : Nat := 0
  keyStarts : List KeyStart := []
  keyAllowed : Bool := true

structure TokenStream where
  tokens : List Token
  fault : Option Fault

namespace Scan

abbrev Next := Except Fault Scan

def push (s : Scan) (token : Token) : Scan := { s with tokens := s.tokens ++ [token] }

def inFlow (s : Scan) : Bool := s.flow != 0

def unwind (column : Int) : (count : Nat) → Scan → Scan
  | 0, s => s
  | count + 1, s =>
    if s.inFlow || s.indent ≤ column then s
    else
      let left := { s with indent := s.outer.headD (-1), outer := s.outer.tail }
      unwind column count (left.push .blockEnd)

def unwindTo (column : Int) (s : Scan) : Scan := unwind column (s.outer.length + 1) s

/-- Forgets the starts of keys that the colon can no longer follow. -/
def dropStale (s : Scan) : Next :=
  let isStale (k : KeyStart) : Bool := k.line != s.place.line || 1024 < s.place.index - k.index
  if s.keyStarts.any fun k => isStale k && k.required then .error .scan
  else .ok { s with keyStarts := s.keyStarts.filter (!isStale ·) }

def dropKeyStart (s : Scan) : Next :=
  if s.keyStarts.any fun k => k.level = s.flow && k.required then .error .scan
  else .ok { s with keyStarts := s.keyStarts.filter (·.level ≠ s.flow) }

def markKeyStart (s : Scan) : Next :=
  if s.keyAllowed then do
    let p := s.place
    let required := !s.inFlow && s.indent = p.column
    let s ← s.dropKeyStart
    return { s with keyStarts := ⟨s.flow, s.tokens.length, required, p.index, p.line, p.column⟩ :: s.keyStarts }
  else .ok s

def skipToToken : (count : Nat) → Scan → Scan
  | 0, s => s
  | count + 1, s =>
    let p := s.place.skipComment
    if isBreak p.peek then
      skipToToken count { s with place := p.lineBreak.2, keyAllowed := s.keyAllowed || !s.inFlow }
    else { s with place := p }

def skipByteOrderMark (s : Scan) : Scan :=
  if s.place.index = 0 && s.place.peek = '\ufeff' then { s with place := s.place.next } else s

def openBlock (s : Scan) (column : Int) (token : Token) (position : Nat) : Scan :=
  if s.indent < column then
    { s with
      indent := column
      outer := s.indent :: s.outer
      tokens := s.tokens.insertIdx position token }
  else s

def single (s : Scan) (token : Token) : Scan := { s with place := s.place.next }.push token

/-- A mark at the start of a line that leaves every block. -/
def atMargin (s : Scan) (read : Scan → Except Fault (Token × Place)) : Next := do
  let s ← (s.unwindTo (-1)).dropKeyStart
  let (token, p) ← read s
  return { s with place := p, keyAllowed := false }.push token

def openFlow (s : Scan) (token : Token) : Next := do
  let s ← s.markKeyStart
  return { s with flow := s.flow + 1, keyAllowed := true }.single token

def closeFlow (s : Scan) (token : Token) : Next := do
  let s ← s.dropKeyStart
  return { s with flow := s.flow - 1, keyAllowed := false }.single token

def flowEntry (s : Scan) : Next := do
  let s ← s.dropKeyStart
  return { s with keyAllowed := true }.single .flowEntry

/-- An entry of a block that begins here if it is deeper than the one at hand. -/
def openEntry (s : Scan) (block : Token) : Next :=
  if s.inFlow then .ok s
  else if s.keyAllowed then .ok (s.openBlock s.place.column block s.tokens.length)
  else .error .scan

def blockEntry (s : Scan) : Next := do
  let s ← { ← s.openEntry .blockSequence with keyAllowed := true }.dropKeyStart
  return s.single .blockEntry

def explicitKey (s : Scan) : Next := do
  let s ← s.openEntry .blockMapping
  let s ← { s with keyAllowed := !s.inFlow }.dropKeyStart
  return s.single .key

/-- A colon: it settles the start of a key at its level, or follows a key that was announced. -/
def value (s : Scan) : Next :=
  match s.keyStarts.find? (·.level = s.flow) with
  | some k =>
    let s := { s with
      keyStarts := s.keyStarts.filter (·.level ≠ s.flow)
      tokens := s.tokens.insertIdx k.number .key
      keyAllowed := false }
    let s := if s.inFlow then s else s.openBlock k.column .blockMapping k.number
    .ok (s.single .value)
  | none => do
    let s ← s.openEntry .blockMapping
    let s ← { s with keyAllowed := !s.inFlow }.dropKeyStart
    return s.single .value

def content (s : Scan) (read : Place → Except Fault (Token × Place)) : Next := do
  let s ← s.markKeyStart
  let (token, p) ← read s.place
  return { s with place := p, keyAllowed := false }.push token

def blockText (s : Scan) (folded : Bool) : Next := do
  let s ← { s with keyAllowed := true }.dropKeyStart
  let (text, p) ← blockScalar folded s.indent s.place
  return { s with place := p }.push (.scalar text false)

def plainText (s : Scan) : Next := do
  let s ← s.markKeyStart
  let (text, p, ended) := plainScalar s.inFlow (s.indent + 1) (s.place.rest.length + 1) s.place
  return { s with place := p, keyAllowed := ended }.push (.scalar text true)

def readQuoted (p : Place) : Except Fault (Token × Place) := do
  let (text, p) ← quotedScalar p
  return (.scalar text false, p)

def readAnchor (token : List Char → Token) (p : Place) : Except Fault (Token × Place) := do
  let (name, p) ← anchorName p
  return (token name, p)

def isIndicator (c : Char) : Bool := "-?:,[]\x7b\x7d#&*!|>'\"%@\x60".toList.contains c

def startsPlain (inFlow : Bool) (c next : Char) : Bool :=
  (!isStopOrTab c && !isIndicator c) ||
    (!isStopOrTab next && (c = '-' || (!inFlow && (c = '?' || c = ':'))))

def token (s : Scan) : Next :=
  let p := s.place
  let c := p.peek
  let gap := isStopOrTab (p.peekAt 1)
  let marker (t : Token) (s : Scan) : Except Fault (Token × Place) := .ok (t, s.place.skip 3)
  if c = '%' && p.column = 0 then s.atMargin fun s => directiveToken s.place
  else if p.column = 0 && p.atMarker '-' then s.atMargin (marker .documentStart)
  else if p.column = 0 && p.atMarker '.' then s.atMargin (marker .documentEnd)
  else if c = '[' then s.openFlow .flowSequence
  else if c = '\x7b' then s.openFlow .flowMapping
  else if c = ']' then s.closeFlow .flowSequenceEnd
  else if c = '\x7d' then s.closeFlow .flowMappingEnd
  else if c = ',' then s.flowEntry
  else if c = '-' && gap then s.blockEntry
  else if c = '?' && (s.inFlow || gap) then s.explicitKey
  else if c = ':' && (s.inFlow || gap) then s.value
  else if c = '*' then s.content (readAnchor .alias)
  else if c = '&' then s.content (readAnchor .anchor)
  else if c = '!' then s.content tagToken
  else if (c = '|' || c = '>') && !s.inFlow then s.blockText (c = '>')
  else if c = '\'' || c = '"' then s.content readQuoted
  else if startsPlain s.inFlow c (p.peekAt 1) then s.plainText
  else .error .scan

/-- The tokens that are settled: none that may still turn out to begin a key, nor any after it. -/
def settled (s : Scan) : List Token :=
  s.tokens.take (s.keyStarts.foldl (fun n k => min n k.number) s.tokens.length)

def finish (s : Scan) : Next := do
  let s ← (s.unwindTo (-1)).dropKeyStart
  return s.push .streamEnd

def run : (count : Nat) → Scan → TokenStream
  | 0, s => ⟨s.settled, some .scan⟩
  | count + 1, s =>
    match s.dropStale with
    | .error fault => ⟨s.settled, some fault⟩
    | .ok s =>
      match ((s.skipByteOrderMark).skipToToken (s.place.rest.length + 1)).dropStale with
      | .error fault => ⟨s.settled, some fault⟩
      | .ok ahead =>
        let ahead := ahead.unwindTo ahead.place.column
        if ahead.place.peek = endMark then
          match ahead.finish with
          | .ok done => ⟨done.tokens, none⟩
          | .error fault => ⟨s.settled, some fault⟩
        else match ahead.token with
          | .ok after => run count after
          | .error fault => ⟨s.settled, some fault⟩

end Scan

def isReadable (c : Char) : Bool :=
  let n := c.toNat
  c = '\t' || c = '\n' || c = '\r' || (0x20 ≤ n && n ≤ 0x7e) || n == 0x85 || (0xa0 ≤ n && n ≤ 0xd7ff) ||
    (0xe000 ≤ n && n ≤ 0xfffd) || 0x10000 ≤ n

def TokenStream.ofText (cs : List Char) : Except Fault TokenStream :=
  if cs.all isReadable then .ok (Scan.run (cs.length + 1) { place := .ofText cs }) else .error .unreadable

end NoteFormula.Yaml

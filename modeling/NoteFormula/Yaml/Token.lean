import NoteFormula.Yaml.Place

/-! # YAML tokens

The marks of a YAML text. Indentation shows as the starts and ends of blocks, so that what follows needs no
columns. A tag is a handle, if it has one, and a suffix.
-/
namespace NoteFormula.Yaml

inductive Directive where
  | version (major : Nat)
  | tag (handle start : List Char)
  | other

inductive Token where
  | streamEnd
  | directive (d : Directive)
  | documentStart | documentEnd
  | blockSequence | blockMapping | blockEnd
  | flowSequence | flowSequenceEnd
  | flowMapping | flowMappingEnd
  | key | value | blockEntry | flowEntry
  | alias (name : List Char)
  | anchor (name : List Char)
  | tag (handle : Option (List Char)) (suffix : List Char)
  | scalar (text : List Char) (plain : Bool)

def isNameChar (c : Char) : Bool :=
  Text.isDigit c || ('A' ≤ c && c ≤ 'Z') || ('a' ≤ c && c ≤ 'z') || c = '-' || c = '_'

def mayFollowName (c : Char) : Bool := isStopOrTab c || "?:,]\x7d%@\x60".toList.contains c

def anchorName (p : Place) : Except Fault (List Char × Place) :=
  let (name, p) := p.next.takeWhile isNameChar
  if name.isEmpty || !mayFollowName p.peek then .error .scan else .ok (name, p)

def isUriChar (c : Char) : Bool := isNameChar c || ";/?:@&=+$,.!~*'()[]%".toList.contains c

def escapedBytes : (count : Nat) → Place → Except Fault (List UInt8 × Place)
  | 0, p => .ok ([], p)
  | count + 1, p =>
    if p.peek = '%' then
      let digits := (p.next.rest).take 2
      if digits.length = 2 && digits.all Text.isHexDigit then do
        let (bytes, p) ← escapedBytes count (p.skip 3)
        return ((Text.ofBase 16 digits).toUInt8 :: bytes, p)
      else .error .scan
    else .ok ([], p)

def uriChars : (count : Nat) → Place → Except Fault (List Char × Place)
  | 0, p => .ok ([], p)
  | count + 1, p =>
    if p.peek = '%' then do
      let (bytes, p) ← escapedBytes (p.rest.length + 1) p
      match String.fromUTF8? ⟨bytes.toArray⟩ with
      | some s =>
        let (more, p) ← uriChars count p
        return (s.toList ++ more, p)
      | none => .error .scan
    else if isUriChar p.peek then do
      let (more, q) ← uriChars count p.next
      return (p.peek :: more, q)
    else .ok ([], p)

def uri (p : Place) : Except Fault (List Char × Place) := do
  let (cs, q) ← uriChars (p.rest.length + 1) p
  if q.index = p.index then .error .scan else return (cs, q)

/-- A handle: a mark alone before a blank, or a name between two marks. -/
def tagHandle (p : Place) : Except Fault (List Char × Place) :=
  if p.peek ≠ '!' then .error .scan
  else if p.peekAt 1 = ' ' then .ok (['!'], p.next)
  else
    let (name, q) := p.next.takeWhile isNameChar
    if q.peek = '!' then .ok ('!' :: name ++ ['!'], q.next) else .error .scan

/-- Whether a second mark, before any stop, makes the beginning of a tag a handle. -/
def hasHandle (p : Place) : Bool :=
  (p.next.rest.takeWhile fun c => !isStop c).contains '!'

def tagToken (p : Place) : Except Fault (Token × Place) := do
  let (token, p) ←
    if p.peekAt 1 = '<' then do
      let (suffix, q) ← uri (p.skip 2)
      if q.peek = '>' then pure (Token.tag none suffix, q.next) else .error .scan
    else if isStopOrTab (p.peekAt 1) then pure (Token.tag none ['!'], p.next)
    else do
      let (handle, q) ← if hasHandle p then tagHandle p else pure (['!'], p.next)
      let (suffix, q) ← uri q
      pure (Token.tag (some handle) suffix, q)
  if isStop p.peek then return (token, p) else .error .scan

def number (p : Place) : Except Fault (Nat × Place) :=
  let (digits, q) := p.takeWhile Text.isDigit
  if digits.isEmpty then .error .scan else .ok (Text.ofDigits digits, q)

def versionDirective (p : Place) : Except Fault (Directive × Place) := do
  let (major, p) ← number (p.skipWhile (· = ' '))
  if p.peek ≠ '.' then .error .scan
  else
    let (_, p) ← number p.next
    if isStop p.peek then return (.version major, p) else .error .scan

def tagDirective (p : Place) : Except Fault (Directive × Place) := do
  let (handle, p) ← tagHandle (p.skipWhile (· = ' '))
  if p.peek ≠ ' ' then .error .scan
  else
    let (start, p) ← uri (p.skipWhile (· = ' '))
    if isStop p.peek then return (.tag handle start, p) else .error .scan

def directiveToken (p : Place) : Except Fault (Token × Place) := do
  let (name, p) := p.next.takeWhile isNameChar
  if name.isEmpty || !isStop p.peek then .error .scan
  else
    let (directive, p) ←
      if name = "YAML".toList then versionDirective p
      else if name = "TAG".toList then tagDirective p
      else pure (.other, p.skipWhile (!isEndOrBreak ·))
    return (.directive directive, ← p.endLine)

end NoteFormula.Yaml

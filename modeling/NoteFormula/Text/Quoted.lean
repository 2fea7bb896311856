import NoteFormula.Text.Digits
import NoteFormula.Text.Printable

/-! # Quoted text

The form in which a message shows a text: single quotes, unless the text holds a single quote and no double
one. Backslashes, the quote in use and characters without a printed form are escaped.
-/
namespace NoteFormula.Text

def quoteFor (cs : List Char) : Char :=
  if cs.contains '\'' && !cs.contains '"' then '"' else '\''

/-- Escapes by code point, in the shortest of the two, four and eight digit forms. -/
def codeEscape (c : Char) : List Char :=
  if c.toNat ≤ 0xff then '\\' :: 'x' :: hex 2 c.toNat
  else if c.toNat ≤ 0xffff then '\\' :: 'u' :: hex 4 c.toNat
  else '\\' :: 'U' :: hex 8 c.toNat

def quotedChar (quote c : Char) : List Char :=
  if c = quote || c = '\\' then ['\\', c]
  else if c = '\n' then ['\\', 'n']
  else if c = '\r' then ['\\', 'r']
  else if c = '\t' then ['\\', 't']
  else if isPrintable c then [c]
  else codeEscape c

def quoted (s : String) : String :=
  let quote := quoteFor s.toList
  String.ofList (quote :: s.toList.flatMap (quotedChar quote) ++ [quote])

/-- Bytes in the same form, with a letter in front; what is not ASCII is escaped. -/
def quotedBytes (bytes : List UInt8) : String :=
  let cs := bytes.map fun b => Char.ofNat b.toNat
  let quote := quoteFor cs
  let shown (c : Char) : List Char := if c.toNat < 0x80 then quotedChar quote c else codeEscape c
  String.ofList ('b' :: quote :: cs.flatMap shown ++ [quote])

end NoteFormula.Text

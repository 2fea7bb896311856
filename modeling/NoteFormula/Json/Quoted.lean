import NoteFormula.Text.Digits

/-! # Quoted text in JSON

Both writers escape quotes, backslashes and control characters; the narrow one also writes everything outside
printable ASCII as four-digit units, two of them beyond the basic plane.
-/
namespace NoteFormula.Json

inductive Charset where
  | unicode
  | ascii
deriving DecidableEq

def unitEscape (n : Nat) : List Char := '\\' :: 'u' :: Text.hex 4 n

def codeEscape (n : Nat) : List Char :=
  if n < 0x10000 then unitEscape n
  else unitEscape (0xd800 + (n - 0x10000) / 0x400) ++ unitEscape (0xdc00 + (n - 0x10000) % 0x400)

def escaped (charset : Charset) (c : Char) : List Char :=
  if c = '"' then ['\\', '"']
  else if c = '\\' then ['\\', '\\']
  else if c = '\n' then ['\\', 'n']
  else if c = '\r' then ['\\', 'r']
  else if c = '\t' then ['\\', 't']
  else if c = '\x0c' then ['\\', 'f']
  else if c = '\x08' then ['\\', 'b']
  else if c.toNat < 0x20 then codeEscape c.toNat
  else if charset = .ascii && 0x7f ≤ c.toNat then codeEscape c.toNat
  else [c]

def quoted (charset : Charset) (s : List Char) : List Char :=
  '"' :: s.flatMap (escaped charset) ++ ['"']

end NoteFormula.Json

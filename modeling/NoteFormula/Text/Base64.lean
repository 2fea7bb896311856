/-! # Bytes in base 64

Four characters of the alphabet stand for three bytes. In reading, whatever is not in the alphabet is passed over,
and padding ends the text where it completes a group of four.
-/
namespace NoteFormula.Text

def sextet? (c : Char) : Option Nat :=
  if 'A' ≤ c && c ≤ 'Z' then some (c.toNat - 'A'.toNat)
  else if 'a' ≤ c && c ≤ 'z' then some (c.toNat - 'a'.toNat + 26)
  else if '0' ≤ c && c ≤ '9' then some (c.toNat - '0'.toNat + 52)
  else if c = '+' then some 62
  else if c = '/' then some 63
  else none

/-- The bytes of a text from inside a group: `filled` characters of it have come, `left` holds their bits that are
no byte yet, and `pads` marks of padding came after them. A group that is left open stands for no bytes. -/
def base64From? (filled left pads : Nat) : List Char → Option (List UInt8)
  | [] => if filled = 0 then some [] else none
  | c :: cs =>
    if c = '=' then
      if 2 ≤ filled && 4 ≤ filled + pads + 1 then some []
      else base64From? filled left (if 2 ≤ filled then pads + 1 else pads) cs
    else match sextet? c with
      | none => base64From? filled left pads cs
      | some n =>
        if filled = 0 then base64From? 1 n 0 cs
        else if filled = 1 then (base64From? 2 (n % 16) 0 cs).map ((left * 4 + n / 16).toUInt8 :: ·)
        else if filled = 2 then (base64From? 3 (n % 4) 0 cs).map ((left * 16 + n / 4).toUInt8 :: ·)
        else (base64From? 0 0 0 cs).map ((left * 64 + n).toUInt8 :: ·)

def base64? (cs : List Char) : Option (List UInt8) := base64From? 0 0 0 cs

def alphabet : List Char :=
  "ABCDEFGHIJKLMNOPQRSTUVWXYZabcdefghijklmnopqrstuvwxyz0123456789+/".toList

def sextetChar (n : Nat) : Char := alphabet[n % 64]?.getD '='

def toBase64 : List UInt8 → List Char
  | [] => []
  | [a] =>
    let n := a.toNat * 16
    [sextetChar (n / 64), sextetChar n, '=', '=']
  | [a, b] =>
    let n := (a.toNat * 256 + b.toNat) * 4
    [sextetChar (n / 4096), sextetChar (n / 64), sextetChar n, '=']
  | a :: b :: c :: rest =>
    let n := (a.toNat * 256 + b.toNat) * 256 + c.toNat
    sextetChar (n / 262144) :: sextetChar (n / 4096) :: sextetChar (n / 64) :: sextetChar n :: toBase64 rest

end NoteFormula.Text

import NoteFormula.Decimal.Numeral
import NoteFormula.Value.Basic

/-! # JSON documents

Reading of JSON text, with the three words for numbers that have no digits. A number keeps its spelling until
it becomes a value: without fraction and exponent it is an integer of any size, else the nearest double.
-/
namespace NoteFormula

structure Json.Numeral where
  negative : Bool
  whole : List Char
  fraction : Option (List Char)
  exponent : Option Int

inductive Json where
  | null
  | bool (b : Bool)
  | number (n : Json.Numeral)
  | special (x : Float)
  | text (s : List Char)
  | array (items : List Json)
  | object (entries : List (List Char × Json))

namespace Json

instance : Inhabited Json := ⟨null⟩

structure Malformed where

def isSpace (c : Char) : Bool := c = ' ' || c = '\t' || c = '\n' || c = '\r'

def skipSpace (cs : List Char) : List Char := cs.dropWhile isSpace

def unit? : List Char → Option (Nat × List Char)
  | a :: b :: c :: d :: rest =>
    if [a, b, c, d].all Text.isHexDigit then some (Text.ofBase 16 [a, b, c, d], rest) else none
  | _ => none

def isHighUnit (n : Nat) : Bool := 0xd800 ≤ n && n ≤ 0xdbff

def isLowUnit (n : Nat) : Bool := 0xdc00 ≤ n && n ≤ 0xdfff

/-- A surrogate unit without its partner has no character. -/
def replacement : Char := '\ufffd'

def charOfUnit (n : Nat) : Char := if 0xd800 ≤ n && n ≤ 0xdfff then replacement else Char.ofNat n

/-- The character after a unit escape: two units may form one character. -/
def unitChar (n : Nat) (rest : List Char) : Char × List Char :=
  match rest with
  | '\\' :: 'u' :: after =>
    if isHighUnit n then
      match unit? after with
      | some (low, rest') =>
        if isLowUnit low then (Char.ofNat (0x10000 + (n - 0xd800) * 0x400 + (low - 0xdc00)), rest')
        else (charOfUnit n, rest)
      | none => (charOfUnit n, rest)
    else (charOfUnit n, rest)
  | rest => (charOfUnit n, rest)

def simpleEscape? : Char → Option Char
  | '"' => some '"'
  | '\\' => some '\\'
  | '/' => some '/'
  | 'b' => some '\x08'
  | 'f' => some '\x0c'
  | 'n' => some '\n'
  | 'r' => some '\r'
  | 't' => some '\t'
  | _ => none

def textChar? : List Char → Option (Char × List Char)
  | '\\' :: 'u' :: cs => do
    let (n, rest) ← unit? cs
    return unitChar n rest
  | '\\' :: c :: cs => (simpleEscape? c).map (·, cs)
  | c :: cs => if c = '\\' || c.toNat < 0x20 then none else some (c, cs)
  | [] => none

def textBody? : (count : Nat) → List Char → Option (List Char × List Char)
  | 0, _ => none
  | _ + 1, '"' :: cs => some ([], cs)
  | count + 1, cs => do
    let (c, rest) ← textChar? cs
    let (body, rest) ← textBody? count rest
    return (c :: body, rest)

def wholePart? : List Char → Option (List Char × List Char)
  | '0' :: cs => some (['0'], cs)
  | cs => match cs.takeWhile Text.isDigit with
    | [] => none
    | ds => some (ds, cs.dropWhile Text.isDigit)

def fractionPart : List Char → Option (List Char) × List Char
  | '.' :: cs => match cs.takeWhile Text.isDigit with
    | [] => (none, '.' :: cs)
    | ds => (some ds, cs.dropWhile Text.isDigit)
  | cs => (none, cs)

def number? (cs : List Char) : Option (Numeral × List Char) := do
  let (negative, unsigned) := match cs with
    | '-' :: rest => (true, rest)
    | _ => (false, cs)
  let (whole, rest) ← wholePart? unsigned
  let (fraction, rest) := fractionPart rest
  let (power, after) := Decimal.exponentPart rest
  return (⟨negative, whole, fraction, if after.length < rest.length then some power else none⟩, after)

def keyword? (word : String) (cs : List Char) : Option (List Char) :=
  if word.toList.isPrefixOf cs then some (cs.drop word.length) else none

def scalar? (cs : List Char) : Option (Json × List Char) :=
  match keyword? "null" cs, keyword? "true" cs, keyword? "false" cs with
  | some rest, _, _ => some (null, rest)
  | _, some rest, _ => some (bool true, rest)
  | _, _, some rest => some (bool false, rest)
  | none, none, none =>
    match keyword? "NaN" cs, keyword? "Infinity" cs, keyword? "-Infinity" cs with
    | some rest, _, _ => some (special Decimal.notANumber, rest)
    | _, some rest, _ => some (special (Decimal.infinity false), rest)
    | _, _, some rest => some (special (Decimal.infinity true), rest)
    | none, none, none => (number? cs).map fun (n, rest) => (number n, rest)

mutual

/-- One document and what follows it; `count` bounds the characters it may take. -/
def document? : (count : Nat) → List Char → Option (Json × List Char)
  | 0, _ => none
  | count + 1, cs =>
    match cs with
    | '"' :: rest => (textBody? rest.length rest).map fun (s, rest) => (text s, rest)
    | '[' :: rest =>
      match skipSpace rest with
      | ']' :: rest => some (array [], rest)
      | rest => (items? count rest).map fun (items, rest) => (array items, rest)
    | '\x7b' :: rest =>
      match skipSpace rest with
      | '\x7d' :: rest => some (object [], rest)
      | rest => (entries? count rest).map fun (entries, rest) => (object entries, rest)
    | _ => scalar? cs

def items? : (count : Nat) → List Char → Option (List Json × List Char)
  | 0, _ => none
  | count + 1, cs => do
    let (item, rest) ← document? count cs
    match skipSpace rest with
    | ']' :: rest => return ([item], rest)
    | ',' :: rest =>
      let (items, rest) ← items? count (skipSpace rest)
      return (item :: items, rest)
    | _ => none

def entries? : (count : Nat) → List Char → Option (List (List Char × Json) × List Char)
  | 0, _ => none
  | count + 1, cs => do
    match cs with
    | '"' :: rest =>
      let (key, rest) ← textBody? rest.length rest
      match skipSpace rest with
      | ':' :: rest =>
        let (value, rest) ← document? count (skipSpace rest)
        match skipSpace rest with
        | '\x7d' :: rest => return ([(key, value)], rest)
        | ',' :: rest =>
          let (entries, rest) ← entries? count (skipSpace rest)
          return ((key, value) :: entries, rest)
        | _ => none
      | _ => none
    | _ => none

end

def ofText (s : String) : Except Malformed Json :=
  match document? (s.length + 1) (skipSpace s.toList) with
  | some (json, rest) => if (skipSpace rest).isEmpty then .ok json else .error {}
  | none => .error {}

def Numeral.toValue (n : Numeral) : Value :=
  match n.fraction, n.exponent with
  | none, none =>
    let size : Int := Text.ofDigits n.whole
    .int (if n.negative then -size else size)
  | fraction, exponent =>
    .float ((Decimal.ofParts n.whole (fraction.getD []) (exponent.getD 0)).toFloat n.negative)

mutual

/-- The value of a document; of entries with one name the last one counts. -/
def toValue : Json → Value
  | null => .absent
  | bool b => .bool b
  | number n => n.toValue
  | special x => .float x
  | text s => .text (String.ofList s)
  | array items => .list (itemValues items)
  | object entries => .map (entryValues [] entries)

def itemValues : List Json → List Value
  | [] => []
  | j :: rest => toValue j :: itemValues rest

def entryValues (before : Value.Entries) : List (List Char × Json) → Value.Entries
  | [] => before
  | (key, j) :: rest => entryValues (Value.setEntry before (String.ofList key) (toValue j)) rest

end

end Json

end NoteFormula

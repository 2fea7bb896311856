import NoteFormula.Text.Digits
import NoteFormula.Text.Split

/-! # Types of plain scalars

An unquoted scalar is read as the first type whose form it has, and as text if it has none. Numbers may be
grouped by underscores and written in sexagesimal places; a date stands alone or with a time of day.
-/
namespace NoteFormula.Yaml

inductive ScalarType where
  | null | bool | int | float | timestamp | text
  /-- Bytes in base 64, a type that no form has. -/
  | bytes
  | merge
  | default
  | reserved
deriving DecidableEq, Repr

def nullWords : List String := ["", "~", "null", "Null", "NULL"]

def trueWords : List String := ["yes", "Yes", "YES", "true", "True", "TRUE", "on", "On", "ON"]

def falseWords : List String := ["no", "No", "NO", "false", "False", "FALSE", "off", "Off", "OFF"]

def isGrouped (p : Char → Bool) (cs : List Char) : Bool := cs.all fun c => p c || c = '_'

def isOctal (c : Char) : Bool := '0' ≤ c && c ≤ '7'

def isBinary (c : Char) : Bool := c = '0' || c = '1'

def unsigned : List Char → List Char
  | '+' :: cs => cs
  | '-' :: cs => cs
  | cs => cs

def isPlace : List Char → Bool
  | [d] => Text.isDigit d
  | [t, d] => '0' ≤ t && t ≤ '5' && Text.isDigit d
  | _ => false

def isGroupedNumber : List Char → Bool
  | d :: ds => Text.isDigit d && isGrouped Text.isDigit ds
  | [] => false

def hasInt (cs : List Char) : Bool :=
  match unsigned cs with
  | ['0'] => true
  | '0' :: 'b' :: ds => !ds.isEmpty && isGrouped isBinary ds
  | '0' :: 'x' :: ds => !ds.isEmpty && isGrouped Text.isHexDigit ds
  | '0' :: ds => isGrouped isOctal ds
  | ds => match Text.splitAt ':' ds with
    | high :: places => high.head? != some '0' && isGroupedNumber high && places.all isPlace
    | [] => false

def isExponentTail : List Char → Bool
  | [] => true
  | e :: sign :: ds => (e = 'e' || e = 'E') && (sign = '+' || sign = '-') && !ds.isEmpty && ds.all Text.isDigit
  | _ => false

def isFractionTail (cs : List Char) : Bool :=
  isExponentTail (cs.dropWhile fun c => Text.isDigit c || c = '_')

def infinityWords : List String := [".inf", ".Inf", ".INF"]

def nanWords : List String := [".nan", ".NaN", ".NAN"]

def hasFloat (cs : List Char) : Bool :=
  nanWords.contains (String.ofList cs) || infinityWords.contains (String.ofList (unsigned cs)) ||
  match cs with
  | '.' :: d :: ds => Text.isDigit d && isFractionTail ds
  | _ =>
    let whole := (unsigned cs).takeWhile (· ≠ '.')
    match (unsigned cs).dropWhile (· ≠ '.') with
    | '.' :: fraction => match Text.splitAt ':' whole with
      | [high] => isGroupedNumber high && isFractionTail fraction
      | high :: places => isGroupedNumber high && places.all isPlace && isGrouped Text.isDigit fraction
      | [] => false
    | _ => false

/-- The written parts of a date, and of the time of day if there is one. -/
structure Timestamp where
  year : List Char
  month : List Char
  day : List Char
  time : Option (List Char × List Char × List Char × List Char)
  /-- The sign, hours and minutes of the zone; no sign is the zero meridian. -/
  zone : Option (Option (Bool × List Char × List Char))

def digits? (least greatest : Nat) (cs : List Char) : Option (List Char × List Char) :=
  let ds := (cs.takeWhile Text.isDigit).take greatest
  if least ≤ ds.length then some (ds, cs.drop ds.length) else none

def char? (c : Char) : List Char → Option (List Char)
  | d :: cs => if c = d then some cs else none
  | [] => none

def isTabOrSpace (c : Char) : Bool := c = ' ' || c = '\t'

def dateGap? : List Char → Option (List Char)
  | 'T' :: cs => some cs
  | 't' :: cs => some cs
  | c :: cs => if isTabOrSpace c then some (cs.dropWhile isTabOrSpace) else none
  | [] => none

def zone? (cs : List Char) : Option (Option (Option (Bool × List Char × List Char))) :=
  match cs.dropWhile isTabOrSpace with
  | [] => if cs.isEmpty then some none else none
  | ['Z'] => some (some none)
  | sign :: rest =>
    if sign = '+' || sign = '-' then do
      let (hours, rest) ← digits? 1 2 rest
      match rest with
      | [] => return some (some (sign == '-', hours, []))
      | ':' :: rest =>
        let (minutes, rest) ← digits? 2 2 rest
        if rest.isEmpty then return some (some (sign == '-', hours, minutes)) else none
      | _ => none
    else none

def timestamp? (cs : List Char) : Option Timestamp := do
  let (year, rest) ← digits? 4 4 cs
  let (month, rest) ← digits? 1 2 (← char? '-' rest)
  let (day, rest) ← digits? 1 2 (← char? '-' rest)
  if rest.isEmpty then return ⟨year, month, day, none, none⟩
  let (hour, rest) ← digits? 1 2 (← dateGap? rest)
  let (minute, rest) ← digits? 2 2 (← char? ':' rest)
  let (second, rest) ← digits? 2 2 (← char? ':' rest)
  let (fraction, rest) := match rest with
    | '.' :: rest => (rest.takeWhile Text.isDigit, rest.dropWhile Text.isDigit)
    | rest => ([], rest)
  return ⟨year, month, day, some (hour, minute, second, fraction), ← zone? rest⟩

def hasTimestamp (cs : List Char) : Bool :=
  match timestamp? cs with
  | some t => t.time.isSome || (t.month.length = 2 && t.day.length = 2)
  | none => false

/-- A line feed after a form counts for nothing. -/
def withoutLastBreak (cs : List Char) : List Char :=
  if cs.length ≠ 1 && cs.getLast? = some '\n' then cs.dropLast else cs

def reservedWords : List String := ["!", "&", "*"]

def plainType (cs : List Char) : ScalarType :=
  let cs := withoutLastBreak cs
  let s := String.ofList cs
  if nullWords.contains s then .null
  else if trueWords.contains s || falseWords.contains s then .bool
  else if hasFloat cs then .float
  else if hasInt cs then .int
  else if s = "<<" then .merge
  else if hasTimestamp cs then .timestamp
  else if s = "=" then .default
  else if reservedWords.contains s then .reserved
  else .text

end NoteFormula.Yaml

import NoteFormula.Decimal.Layout
import NoteFormula.Text.Quoted
import NoteFormula.Value.Basic

/-! # Values in messages

The form in which messages and reports show a value. Inside lists and maps texts are quoted; a text that
stands alone is shown as it is.
-/
namespace NoteFormula.Value

def floatText (x : Float) : String := String.ofList (Decimal.Layout.plain.write x)

def intText (n : Int) : String := String.ofList (Text.decimalInt n)

def natText (n : Nat) : String := String.ofList (Text.decimalDigits n)

def commaList (parts : List String) : String := ", ".intercalate parts

def inspectDate (d : Date) : String :=
  "datetime.date(" ++ commaList ([d.year, d.month, d.day].map natText) ++ ")"

/-- A span of minutes: whole days, and the seconds of the day that is left. -/
def inspectSpan (minutes : Int) : String :=
  let days := minutes.fdiv 1440
  let seconds := minutes.fmod 1440 * 60
  let parts := (if days = 0 then [] else ["days=" ++ intText days]) ++
    (if seconds = 0 then [] else ["seconds=" ++ intText seconds])
  "datetime.timedelta(" ++ commaList (if parts.isEmpty then ["0"] else parts) ++ ")"

def inspectZone (minutes : Int) : String :=
  if minutes = 0 then "datetime.timezone.utc" else "datetime.timezone(" ++ inspectSpan minutes ++ ")"

/-- Seconds and microseconds are left out from the right while they are zero. -/
def inspectMoment (m : Moment) : String :=
  let d := m.date
  let parts := [d.year, d.month, d.day, m.hour, m.minute] ++
    (if m.microsecond ≠ 0 then [m.second, m.microsecond] else if m.second ≠ 0 then [m.second] else [])
  "datetime.datetime(" ++
    commaList (parts.map natText ++ (m.zone.map fun minutes => "tzinfo=" ++ inspectZone minutes).toList) ++ ")"

mutual

def inspect : Value → String
  | absent => "None"
  | bool b => if b then "True" else "False"
  | int n => intText n
  | float x => floatText x
  | text s => Text.quoted s
  | bytes content => Text.quotedBytes content
  | tuple items => "(" ++ commaList (inspectItems items) ++ ")"
  | set [] => "set()"
  | set items => "\x7b" ++ commaList (inspectItems items) ++ "\x7d"
  | list items => "[" ++ commaList (inspectItems items) ++ "]"
  | map entries => "\x7b" ++ commaList (inspectEntries entries) ++ "\x7d"
  | date d => inspectDate d
  | moment m => inspectMoment m
  | enclosing isMap => if isMap then "\x7b...\x7d" else "[...]"
  | foreign s => s

def inspectItems : List Value → List String
  | [] => []
  | v :: rest => inspect v :: inspectItems rest

def inspectEntries : List (Value × Value) → List String
  | [] => []
  | (k, v) :: rest => (inspect k ++ ": " ++ inspect v) :: inspectEntries rest

end

def shown : Value → String
  | text s => s
  | date d => d.iso
  | moment m => m.written " "
  | v => inspect v

def inspectTexts (texts : List String) : String := inspect (list (texts.map text))

end NoteFormula.Value

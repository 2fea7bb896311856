import NoteFormula.Value.Basic
import NoteFormula.Yaml.Place
import NoteFormula.Yaml.Plain

/-! # Dates and moments of scalars

A date is one of the calendar, a time one of the day, and a zone lies less than a day from the zero meridian. Of
several faults that of the zone comes first, then that of the date.
-/
namespace NoteFormula.Yaml

def dateOf (year month day : Nat) : Except Fault Date :=
  if year = 0 then .error (.badDate "year 0 is out of range")
  else if month = 0 || 12 < month then .error (.badDate "month must be in 1..12")
  else if day = 0 || Date.daysIn year month < day then .error (.badDate "day is out of range for month")
  else .ok ⟨year, month, day⟩

def microseconds (fraction : List Char) : Nat :=
  Text.ofDigits ((fraction ++ List.replicate 6 '0').take 6)

/-- Minutes east of the zero meridian. -/
def zoneOffset (zone : Option (Bool × List Char × List Char)) : Except Fault Int :=
  match zone with
  | none => .ok 0
  | some (west, hours, minutes) =>
    let size : Int := Text.ofDigits hours * 60 + Text.ofDigits minutes
    let offset := if west then -size else size
    if 1440 ≤ size then .error (.badZone offset) else .ok offset

def momentOf (date : Except Fault Date) (hour minute second microsecond : Nat) (zone : Option Int) :
    Except Fault Moment := do
  let date ← date
  if 23 < hour then throw (.badDate "hour must be in 0..23")
  else if 59 < minute then throw (.badDate "minute must be in 0..59")
  else if 59 < second then throw (.badDate "second must be in 0..59")
  else return ⟨date, hour, minute, second, microsecond, zone⟩

def readTimestamp (cs : List Char) : Except Fault Value :=
  match timestamp? (withoutLastBreak cs) with
  | none => .error .badTimestamp
  | some t => do
    let date := dateOf (Text.ofDigits t.year) (Text.ofDigits t.month) (Text.ofDigits t.day)
    match t.time with
    | none => return .date (← date)
    | some (hour, minute, second, fraction) =>
      let zone ← t.zone.mapM zoneOffset
      let moment ← momentOf date (Text.ofDigits hour) (Text.ofDigits minute) (Text.ofDigits second)
        (microseconds fraction) zone
      return .moment moment

end NoteFormula.Yaml

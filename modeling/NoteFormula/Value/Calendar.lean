import NoteFormula.Text.Digits

/-! # Dates and moments

Days of the calendar, and moments of a day down to the microsecond, with their written forms.
-/
namespace NoteFormula

structure Date where
  year : Nat
  month : Nat
  day : Nat
deriving DecidableEq, Repr

structure Moment where
  date : Date
  hour : Nat
  minute : Nat
  second : Nat
  microsecond : Nat
  /-- Minutes east of the zero meridian, where the moment says so. -/
  zone : Option Int
deriving DecidableEq, Repr

open Text (decimalDigits padLeft)

def padded (width n : Nat) : String := String.ofList (padLeft width (decimalDigits n))

def Date.iso (d : Date) : String :=
  padded 4 d.year ++ "-" ++ padded 2 d.month ++ "-" ++ padded 2 d.day

def zoneText (minutes : Int) : String :=
  (if minutes < 0 then "-" else "+") ++ padded 2 (minutes.natAbs / 60) ++ ":" ++ padded 2 (minutes.natAbs % 60)

def Moment.clock (m : Moment) : String :=
  padded 2 m.hour ++ ":" ++ padded 2 m.minute ++ ":" ++ padded 2 m.second ++
    (if m.microsecond = 0 then "" else "." ++ padded 6 m.microsecond) ++
    (match m.zone with
      | some minutes => zoneText minutes
      | none => "")

def Moment.written (separator : String) (m : Moment) : String := m.date.iso ++ separator ++ m.clock

def Date.daysBefore (year : Nat) : Nat :=
  let past := year - 1
  past * 365 + past / 4 - past / 100 + past / 400

def Date.isLeap (year : Nat) : Bool := year % 4 == 0 && (year % 100 != 0 || year % 400 == 0)

def Date.daysIn (year month : Nat) : Nat :=
  if month = 2 then (if isLeap year then 29 else 28)
  else if month = 4 || month = 6 || month = 9 || month = 11 then 30 else 31

/-- The number of a day, counted from the first day of the year one. -/
def Date.number (d : Date) : Nat :=
  daysBefore d.year + (List.range (d.month - 1)).foldl (fun n m => n + daysIn d.year (m + 1)) 0 + d.day

/-- Microseconds from the first midnight, by the clock of the moment's own zone. -/
def Moment.clockTime (m : Moment) : Int :=
  (((m.date.number * 24 + m.hour) * 60 + m.minute) * 60 + m.second) * 1000000 + m.microsecond

/-- Microseconds from the first midnight at the zero meridian, where the zone is told. -/
def Moment.instant? (m : Moment) : Option Int := m.zone.map fun minutes => m.clockTime - minutes * 60000000

/-- Two moments are the same by their clocks if neither tells its zone, and by the instant if both do. -/
def Moment.same (a b : Moment) : Bool :=
  match a.instant?, b.instant? with
  | some i, some j => i == j
  | none, none => a.clockTime == b.clockTime
  | _, _ => false

end NoteFormula

import NoteFormula.Value.Equality

/-! # Order of keys

Records are written with their keys in order: texts by code point, numbers by size, dates by the calendar. Keys
of kinds that do not compare have no order, and then the first two that were compared in vain are known.
-/
namespace NoteFormula

def Exact.less : Exact → Exact → Bool
  | .finite m, .finite n => m < n
  | .infinite true, .finite _ | .infinite true, .infinite false | .finite _, .infinite false => true
  | _, _ => false

def Moment.less? (a b : Moment) : Option Bool :=
  match a.instant?, b.instant? with
  | some i, some j => some (i < j)
  | none, none => some (a.clockTime < b.clockTime)
  | _, _ => none

namespace Value

/-- Whether the first key comes before the second; `none` where they do not compare. -/
def less? : Value → Value → Option Bool
  | text a, text b => some (decide (a < b))
  | bytes a, bytes b => some (decide (a < b))
  | date a, date b => some (a.number < b.number)
  | moment a, moment b => a.less? b
  | a, b => match a.plainNumber?, b.plainNumber? with
    | some m, some n => some (m.less n)
    | _, _ => none

structure Incomparable where
  left : Value
  right : Value

def Incomparable.message (p : Incomparable) : String :=
  match p.left, p.right with
  | date _, moment _ | moment _, date _ => "can't compare datetime.datetime to datetime.date"
  | moment _, moment _ => "can't compare offset-naive and offset-aware datetimes"
  | left, right =>
    "'<' not supported between instances of '" ++ left.fullKind ++ "' and '" ++ right.fullKind ++ "'"

def comesBefore (left right : Value) : Except Incomparable Bool :=
  match less? left right with
  | some less => .ok less
  | none => .error ⟨left, right⟩

end Value

end NoteFormula

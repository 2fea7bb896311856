import NoteFormula.Arguments.Tour

/-! # The tour on the terminal -/

def main : IO UInt32 := do
  match NoteFormula.Tour.lines with
  | .ok lines =>
    lines.forM IO.println
    return 0
  | .error _ => return 1

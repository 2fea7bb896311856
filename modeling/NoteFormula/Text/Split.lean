/-! # Parts of a text -/
namespace NoteFormula.Text

/-- The parts between the occurrences of a character; there is always at least one. -/
def splitAt (separator : Char) : List Char → List (List Char)
  | [] => [[]]
  | c :: cs =>
    if c = separator then [] :: splitAt separator cs
    else match splitAt separator cs with
      | [] => [[c]]
      | part :: rest => (c :: part) :: rest

end NoteFormula.Text

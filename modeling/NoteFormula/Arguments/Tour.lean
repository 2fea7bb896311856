import NoteFormula.Arguments.Report
import NoteFormula.Formula.Form

/-! # A tour of the library

The lines of a short tour: the arguments of a component are evaluated against the front matter of a daily note,
analysed, and one of them is shown as a tree.
-/
namespace NoteFormula.Tour

def frontmatter : Value :=
  Formula.entries [
    ("title", .text "Daily Note 2026-01-12"),
    ("status", .text "active"),
    ("count", .int 15),
    ("tags", .list [.text "journal", .text "work"]),
    ("user", Formula.entries [("name", .text "Alice")])]

def label : String := "if(fm.status == \"active\", \"Open\", \"Closed\")"

def arguments : Arguments := [
  ("path", "/daily/notes"),
  ("limit", "fm.count ?? 10"),
  ("label", label),
  ("owner", "fm.user.name || \"nobody\""),
  ("isWork", "contains(fm.tags, \"work\")"),
  ("date", "2026-01-12"),
  ("enabled", "length(fm.tags) > 1")]

def padRight (width : Nat) (s : String) : String :=
  s ++ String.ofList (List.replicate (width - s.length) ' ')

def row (source text : String × String) : String :=
  "  " ++ padRight 10 text.1 ++ " " ++ padRight 45 (Text.quoted source.2) ++ " -> " ++ text.2

def evaluated (t : ArgumentTexts) : List String :=
  [Report.ruler, "EVALUATED ARGUMENTS", Report.ruler] ++ List.zipWith row arguments t.texts ++
    ["", "  Watched fm keys:   " ++ (Value.list t.keys.note).inspect,
      "  Watched file keys: " ++ (Value.list t.keys.file).inspect]

def single : String := "fm.count * 2 + 1"

def answered (a : Answer) : String :=
  single ++ " -> " ++ a.value.shown ++ " (keys: " ++ (Value.list a.keys.note).inspect ++ ")"

inductive Fault where
  | argument (fault : ArgumentFault)
  | report (fault : ReportFault)
  | load (fault : LoadFault)
  | write (fault : YamlWriteFault)

def lines : Except Fault (List String) := do
  let limit := Parser.defaultLimit
  let texts ← (ArgumentTexts.ofArgumentsIn frontmatter limit arguments).mapError .argument
  let report ← (Report.ofArguments limit arguments).mapError .report
  let tree ← (Formula.ofSource label limit).mapError .load
  let yaml ← tree.toYaml.mapError .write
  let answer ← (Answer.ofTextIn frontmatter limit single).mapError .argument
  return evaluated texts ++ report.lines ++ ["AST for the label argument (YAML):", yaml, answered answer]

end NoteFormula.Tour

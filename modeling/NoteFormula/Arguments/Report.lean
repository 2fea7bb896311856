import NoteFormula.Arguments.Answer
import NoteFormula.Formula.Source

/-! # Reports on arguments

Which arguments are formulas and which stand for themselves, how large the formulas are, and warnings about
texts that probably do not do what was meant.
-/
namespace NoteFormula

structure Report where
  total : Nat := 0
  formulas : List String := []
  literals : List String := []
  normalized : Arguments := []
  keys : Keys := {}
  greatestDepth : Nat := 0
  totalCount : Nat := 0
  warnings : List String := []

inductive ReportFault where
  | parse (fault : ParseFault)
  | notFormula (fault : NotFormula)

def ReportFault.message : ReportFault → String
  | parse fault => fault.message
  | notFormula fault => fault.message

namespace Report

def warn (report : Report) (warning : String) : Report :=
  if report.warnings.contains warning then report else { report with warnings := report.warnings ++ [warning] }

def warnIf (report : Report) (condition : Bool) (warning : String) : Report :=
  if condition then report.warn warning else report

/-- Four digits, two and two, with dashes between them. -/
def looksLikeDate (s : String) : Bool :=
  match s.toList with
  | [a, b, c, d, m, e, f, n, g, h] => m == '-' && n == '-' && [a, b, c, d, e, f, g, h].all Text.isDigit
  | _ => false

def addLiteral (report : Report) (name : String) : Report :=
  { report with literals := report.literals ++ [name] }

def bareWords (tokens : List Token) : List String :=
  (tokens.filter (·.kind = .word)).map (·.value.shown)

def addFormula (report : Report) (name source : String) (tokens : List Token) (f : Formula) :
    Except NotFormula Report := do
  let canonical ← f.sourceString
  let metrics ← f.metrics
  let words := bareWords tokens
  let trimmed := Text.trim source
  let measured := { report with
    formulas := report.formulas ++ [name]
    normalized := report.normalized ++ [(name, canonical)]
    greatestDepth := max report.greatestDepth metrics.depth
    totalCount := report.totalCount + metrics.count }
  let dated := measured.warnIf (looksLikeDate trimmed)
    (name ++ ": unquoted date " ++ Text.quoted trimmed ++ " evaluates as subtraction; quote it")
  return dated.warnIf (!words.isEmpty && 1 < metrics.count)
    (name ++ ": bare words treated as text: " ++ Value.commaList words)

def add (limit : Int) (report : Report) (name source : String) : Except ReportFault Report := do
  match Token.tokenize source with
  | .error _ => return report.addLiteral name
  | .ok tokens =>
    let found := Token.references tokens
    let report := { report with keys := report.keys.merge found }
    match parse tokens limit with
    | .error fault =>
      let warning := name ++ ": references context keys but is not a valid expression (" ++ fault.message ++ ")"
      if fault.isMisuse then throw (.parse fault)
      else return (report.addLiteral name).warnIf (!found.isEmpty) warning
    | .ok f => (report.addFormula name source tokens f).mapError .notFormula

def ofArguments (limit : Int) (args : Arguments) : Except ReportFault Report :=
  args.foldlM (fun report (name, source) => report.add limit name source) { total := args.length }

def warningsAfter (report : Report) : List String → List (List String)
  | [] => []
  | w :: ws => let report := report.warn w; report.warnings :: warningsAfter report ws

def ruler : String := String.ofList (List.replicate 70 '=')

def lines (report : Report) : List String :=
  ["", ruler, "ARGUMENT ANALYSIS", ruler,
    "  Total Args:            " ++ Value.natText report.total,
    "  Expressions:           " ++ Value.inspectTexts report.formulas,
    "  Plain Text:            " ++ Value.inspectTexts report.literals,
    "  fm keys:               " ++ (Value.list report.keys.note).inspect,
    "  Max Expression Depth:  " ++ Value.natText report.greatestDepth, ""] ++
  (if report.normalized.isEmpty then []
    else "  Normalized:" :: report.normalized.map (fun (name, text) => "    " ++ name ++ ": " ++ text) ++ [""]) ++
  (if report.warnings.isEmpty then []
    else ("  Warnings (" ++ Value.natText report.warnings.length ++ "):") ::
      report.warnings.map ("    - " ++ ·)) ++
  [""]

end Report

end NoteFormula

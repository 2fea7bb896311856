import NoteFormula.Formula.Evaluate
import NoteFormula.Formula.Kept
import NoteFormula.Formula.Parser
import NoteFormula.Formula.Record
import NoteFormula.Json.Document
import NoteFormula.Json.Spaced
import NoteFormula.Token.Lexer
import NoteFormula.Yaml.Writer

/-! # Forms of a formula

A formula arrives as source text, as JSON or YAML text, as a record, or as a bare value in the place of one; it
leaves as JSON or YAML text. A bare value that is not absent is refused where it is used, not where it arrives.
-/
namespace NoteFormula

inductive Form where
  | source (text : String) (limit : Int)
  | json (text : String)
  | yaml (text : String)
  | record (value : Value)
  | bare (value : Value)

inductive TextFormat where
  | json | yaml
deriving DecidableEq

inductive LoadFault where
  | lex (fault : Token.Unexpected)
  | parse (fault : ParseFault)
  | json
  | yaml (fault : Yaml.Fault)
  | record (fault : RecordFault)

inductive Subject where
  | formula (f : Formula)
  | other (v : Value)

namespace Subject

def ofValue (v : Value) : Subject := if v.isAbsent then formula .absent else other v

def formula? : Subject → Except NotFormula Formula
  | formula f => .ok f
  | other v => .error ⟨v.kindPhrase⟩

def same (itself : Bool) : Subject → Subject → Bool
  | formula f, formula g => f.same itself g
  | other v, other w => v.same false w
  | _, _ => false

end Subject

def Formula.ofSource (text : String) (limit : Int) : Except LoadFault Formula := do
  (parse (← (Token.tokenize text).mapError .lex) limit).mapError .parse

def Formula.ofJson (text : String) : Except LoadFault Formula := do
  (Formula.ofRecord (← (Json.ofText text).mapError fun _ => .json).toValue).mapError .record

def Formula.ofYaml (text : String) : Except LoadFault Formula := do
  (Formula.ofRecord (← (Yaml.Held.recordOfText text).mapError .yaml).value).mapError .record

def Formula.toJson (f : Formula) : Except JsonFault String := f.toRecord.spaced.map String.ofList

def Formula.toYaml (f : Formula) : Except YamlWriteFault String :=
  (Yaml.document (.ofValue f.toRecord)).map String.ofList

namespace Form

def load : Form → Except LoadFault Subject
  | source text limit => return .formula (← Formula.ofSource text limit)
  | json text => return .formula (← Formula.ofJson text)
  | yaml text => return .formula (← Formula.ofYaml text)
  | record v => return .formula (← (Formula.ofRecord v).mapError .record)
  | bare v => return .ofValue v

def record? : Form → Option Yaml.Held
  | yaml text => (Yaml.Held.recordOfText text).toOption
  | _ => none

/-- The text format whose not-a-number a form brings. Each format has one, which is the same wherever it is
read; in any other form each one is its own. -/
def format? (form : Form) : Option TextFormat :=
  match form with
  | json _ => some .json
  | yaml _ => if form.record?.any (·.hasUnlike) then none else some .yaml
  | _ => none

def same (a b : Form) : Except LoadFault Bool := do
  let left ← a.load
  return left.same (a.format?.isSome && a.format? == b.format?) (← b.load)

end Form

inductive TripFault where
  | notFormula (fault : NotFormula)
  | writeJson (fault : JsonFault)
  | writeYaml (fault : YamlWriteFault)
  | load (fault : LoadFault)

/-- Whether a formula comes back from each form it can be written in. -/
structure RoundTrip where
  record : Bool
  json : Bool
  yaml : Bool

/-- The round trips of a formula that came from a text format, or from none. A record holds the very literals of
the formula; from text they are read anew. -/
def Formula.roundTrip (source : Option TextFormat) (f : Formula) : Except TripFault RoundTrip := do
  let fromRecord ← (Formula.ofRecord f.toRecord).mapError fun fault => .load (.record fault)
  let fromJson ← (Formula.ofJson (← f.toJson.mapError .writeJson)).mapError .load
  let fromYaml ← (Formula.ofYaml (← f.toYaml.mapError .writeYaml)).mapError .load
  return ⟨f.same true fromRecord, f.same (source == some .json) fromJson, f.same (source == some .yaml) fromYaml⟩

def Form.roundTrip (form : Form) : Except TripFault RoundTrip := do
  let f ← (← form.load.mapError .load).formula?.mapError .notFormula
  f.roundTrip form.format?

/-- The formula of a form as YAML text. Objects that the form shares go out as shared ones. -/
def Form.toYaml (form : Form) : Except TripFault String := do
  let f ← (← form.load.mapError .load).formula?.mapError .notFormula
  match form.record? with
  | some held => ((Yaml.document held).map String.ofList).mapError .writeYaml
  | none => f.toYaml.mapError .writeYaml

end NoteFormula

import NoteFormula.Arguments.Report
import NoteFormula.Proofs.ReadFormulas

/-! # Reports

A report is made of any arguments within a limit that allows anything. Each argument that is a formula adds its
name, its canonical source and its measures, and every other argument only its name.
-/
namespace NoteFormula

open Token

variable {limit : Int} {source : String} {f : Formula}

namespace Report

def canonical? (limit : Int) (arg : String × String) : Option (String × String) :=
  (Formula.ofSource? limit arg.2).bind fun f => f.sourceString.toOption.map (arg.1, ·)

theorem canonical?_eq_some_iff {arg out : String × String} : canonical? limit arg = some out ↔
    out.1 = arg.1 ∧ ∃ f, Formula.ofSource? limit arg.2 = some f ∧ f.sourceString = .ok out.2 := by
  obtain ⟨name, canonical⟩ := out
  unfold canonical?
  rw [Option.bind_eq_some_iff]
  constructor
  · rintro ⟨f, hf, hout⟩
    obtain ⟨text, htext, hpair⟩ := Option.map_eq_some_iff.mp hout
    cases hpair
    cases hs : f.sourceString with
    | error fault =>
      rw [hs] at htext
      cases htext
    | ok canonical =>
      rw [hs] at htext
      cases htext
      exact ⟨rfl, f, hf, hs⟩
  · rintro ⟨rfl, f, hf, hs⟩
    exact ⟨f, hf, by rw [hs]; rfl⟩

theorem canonical_names (limit : Int) (args : Arguments) :
    ((args.filterMap (canonical? limit)).map (·.1)).Sublist (args.map (·.1)) := by
  induction args with
  | nil => exact .slnil
  | cons arg args ih =>
    cases hout : canonical? limit arg with
    | none =>
      rw [List.filterMap_cons_none hout]
      exact .cons _ ih
    | some out =>
      rw [List.filterMap_cons_some hout, List.map_cons, List.map_cons, (canonical?_eq_some_iff.mp hout).1]
      exact .cons_cons _ ih

theorem warnIf_eq (report : Report) (condition : Bool) (warning : String) :
    ∃ warnings, report.warnIf condition warning = { report with warnings } := by
  unfold warnIf warn
  split
  · split
    · exact ⟨report.warnings, rfl⟩
    · exact ⟨_, rfl⟩
  · exact ⟨report.warnings, rfl⟩

theorem warnIf_warnIf_eq (report : Report) (condition other : Bool) (warning more : String) :
    ∃ warnings, (report.warnIf condition warning).warnIf other more = { report with warnings } := by
  obtain ⟨warnings, hfirst⟩ := report.warnIf_eq condition warning
  rw [hfirst]
  exact warnIf_eq _ other more

theorem addFormula_ok {literal : Value → Prop} {reference : Namespace → Value → Prop} {canonical : String}
    (h : f.Complete literal reference) (hs : f.sourceString = .ok canonical) (report : Report) (name source : String)
    (tokens : List Token) : ∃ warnings, report.addFormula name source tokens f = .ok { report with
      formulas := report.formulas ++ [name]
      normalized := report.normalized ++ [(name, canonical)]
      greatestDepth := max report.greatestDepth f.height
      totalCount := report.totalCount + f.size
      warnings := warnings } := by
  unfold addFormula
  rw [hs, h.metrics_eq]
  exact (warnIf_warnIf_eq _ _ _ _ _).imp fun _ hwarned => congrArg Except.ok hwarned

theorem add_formula (hl : 1 ≤ limit) (h : Formula.ofSource? limit source = some f) (report : Report) (name : String) :
    ∃ canonical warnings, f.sourceString = .ok canonical ∧ report.add limit name source = .ok { report with
      formulas := report.formulas ++ [name]
      normalized := report.normalized ++ [(name, canonical)]
      keys := report.keys.merge (Answer.reportedKeys source)
      greatestDepth := max report.greatestDepth f.height
      totalCount := report.totalCount + f.size
      warnings := warnings } := by
  obtain ⟨canonical, hs, -⟩ := Formula.ofSource?_canonical hl h
  obtain ⟨tokens, ht, hparse⟩ := Formula.of_ofSource? h
  have hkeys : Answer.reportedKeys source = references tokens := by rw [Answer.reportedKeys, ht]
  obtain ⟨warnings, hadded⟩ := addFormula_ok (Formula.ofSource?_complete hl h) hs
    { report with keys := report.keys.merge (references tokens) } name source tokens
  refine ⟨canonical, warnings, hs, ?_⟩
  unfold add
  rw [ht]
  dsimp only
  rw [hparse]
  dsimp only
  rw [hadded, hkeys]
  rfl

theorem add_literal (hl : 1 ≤ limit) (h : Formula.ofSource? limit source = none) (report : Report) (name : String) :
    ∃ warnings, report.add limit name source = .ok { report with
      literals := report.literals ++ [name]
      keys := report.keys.merge (Answer.reportedKeys source)
      warnings := warnings } := by
  unfold add Answer.reportedKeys
  cases ht : tokenize source with
  | error fault => exact ⟨report.warnings, rfl⟩
  | ok tokens =>
    rw [Formula.ofSource?_ok ht] at h
    cases hparse : parse tokens limit with
    | ok f =>
      rw [hparse] at h
      cases h
    | error fault =>
      have hmisuse : fault.isMisuse = false := by
        obtain ⟨body, rfl, hb⟩ := tokenize_ok ht
        exact isMisuse_of_parse hl hb hparse
      dsimp only
      rw [hparse]
      dsimp only
      rw [hmisuse, if_neg (by decide)]
      exact (warnIf_eq _ _ _).imp fun _ hwarned => congrArg Except.ok hwarned

theorem foldlM_add (hl : 1 ≤ limit) (args : Arguments) (report : Report) :
    ∃ last, args.foldlM (fun report (name, source) => report.add limit name source) report = .ok last ∧
      last.normalized = report.normalized ++ args.filterMap (canonical? limit) ∧
      last.formulas = report.formulas ++ (args.filterMap (canonical? limit)).map (·.1) := by
  induction args generalizing report with
  | nil => exact ⟨report, rfl, (List.append_nil _).symm, (List.append_nil _).symm⟩
  | cons arg args ih =>
    obtain ⟨name, source⟩ := arg
    rw [List.foldlM_cons]
    cases hf : Formula.ofSource? limit source with
    | none =>
      have hnone : canonical? limit (name, source) = none := by rw [canonical?, hf, Option.bind_none]
      obtain ⟨warnings, hadd⟩ := add_literal hl hf report name
      dsimp only
      rw [hadd, List.filterMap_cons_none hnone]
      exact ih _
    | some f =>
      obtain ⟨canonical, warnings, hs, hadd⟩ := add_formula hl hf report name
      have hsome : canonical? limit (name, source) = some (name, canonical) :=
        canonical?_eq_some_iff.mpr ⟨rfl, f, hf, hs⟩
      dsimp only
      rw [hadd, List.filterMap_cons_some hsome]
      obtain ⟨last, hlast, hnormalized, hformulas⟩ := ih _
      refine ⟨last, hlast, ?_, ?_⟩
      · rw [hnormalized, List.append_assoc]
        rfl
      · rw [hformulas, List.append_assoc]
        rfl

/-- The canonical sources stand in the order of the arguments, under the names of those that are formulas. -/
theorem ofArguments_ok (hl : 1 ≤ limit) (args : Arguments) :
    ∃ report, ofArguments limit args = .ok report ∧ report.normalized = args.filterMap (canonical? limit) ∧
      report.formulas = report.normalized.map (·.1) := by
  obtain ⟨report, hreport, hnormalized, hformulas⟩ := foldlM_add hl args { total := args.length }
  refine ⟨report, hreport, hnormalized, ?_⟩
  rw [hformulas, hnormalized]
  rfl

end Report

end NoteFormula

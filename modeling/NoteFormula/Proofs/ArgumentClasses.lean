import NoteFormula.Proofs.NormalizedArguments

/-! # Classes of arguments

The report and the answers take the same arguments for formulas and report the same keys. What a report says is an
invariant of its steps, as a function of the arguments so far; the answers are then looked up argument by argument.
-/
namespace NoteFormula

open Token

theorem Answer.value_of_formula {context : Context} {limit : Int} {source : String} {f : Formula} {answer : Answer}
    (hl : 1 ≤ limit) (hf : Formula.ofSource? limit source = some f) (h : ofText context limit source = .ok answer) :
    f.evaluate context = .ok answer.value := by
  rw [ofText_formula hl hf] at h
  cases hv : f.evaluate context with
  | error fault =>
    rw [hv] at h
    cases h
  | ok v =>
    rw [hv] at h
    cases h
    rfl

namespace Report

def trees (limit : Int) (args : Arguments) : List (String × Formula) :=
  args.filterMap fun arg => (Formula.ofSource? limit arg.2).map (arg.1, ·)

def plain (limit : Int) (args : Arguments) : Arguments :=
  args.filter fun arg => (Formula.ofSource? limit arg.2).isNone

def unparsedWarning (name : String) (fault : ParseFault) : String :=
  name ++ ": references context keys but is not a valid expression (" ++ fault.message ++ ")"

def Warns (limit : Int) (report : Report) (arg : String × String) : Prop := ∃ tokens fault,
  tokenize arg.2 = .ok tokens ∧ parse tokens limit = .error fault ∧ unparsedWarning arg.1 fault ∈ report.warnings

structure Covers (limit : Int) (args : Arguments) (report : Report) : Prop where
  formulas : report.formulas = (trees limit args).map (·.1)
  literals : report.literals = (plain limit args).map (·.1)
  normalized : report.normalized.map (·.1) = report.formulas
  keys : report.keys = ArgumentTexts.reportedKeys args
  greatestDepth : report.greatestDepth = ((trees limit args).map (·.2.height)).foldl max 0
  totalCount : report.totalCount = ((trees limit args).map (·.2.size)).sum
  warned : ∀ arg ∈ plain limit args, (Answer.reportedKeys arg.2).isEmpty = false → report.Warns limit arg

variable {limit : Int} {args : Arguments} {arg : String × String} {report next : Report} {name source : String}
  {f : Formula}

theorem mem_warn (report : Report) (warning : String) : warning ∈ (report.warn warning).warnings := by
  unfold warn
  split
  · rename_i hmem
    exact List.contains_iff_mem.mp hmem
  · exact List.mem_append_right _ (List.mem_singleton.mpr rfl)

theorem subset_warnIf {ws : List String} (h : ws ⊆ report.warnings) (condition : Bool) (warning : String) :
    ws ⊆ (report.warnIf condition warning).warnings := by
  unfold warnIf warn
  split
  · split
    · exact h
    · exact List.Subset.trans h (List.subset_append_left _ _)
  · exact h

theorem addFormula_warnings {tokens : List Token} (h : report.addFormula name source tokens f = .ok next) :
    report.warnings ⊆ next.warnings := by
  unfold addFormula at h
  cases hs : f.sourceString with
  | error fault =>
    rw [hs] at h
    cases h
  | ok canonical =>
    cases hm : f.metrics with
    | error fault =>
      rw [hs, hm] at h
      cases h
    | ok metrics =>
      rw [hs, hm] at h
      dsimp only [bind, Except.bind, pure, Except.pure] at h
      rw [← Except.ok.inj h]
      refine subset_warnIf (subset_warnIf ?_ _ _) _ _
      exact List.Subset.refl _

theorem add_warnings (h : report.add limit name source = .ok next) : report.warnings ⊆ next.warnings := by
  unfold add at h
  split at h
  · cases h
    exact List.Subset.refl _
  · split at h
    · dsimp only at h
      split at h
      · cases h
      · rw [← Except.ok.inj h]
        refine subset_warnIf ?_ _ _
        exact List.Subset.refl _
    · rename_i tokens _ _ f _
      dsimp only at h
      generalize hadded : addFormula _ _ _ _ _ = added at h
      cases added with
      | error fault => cases h
      | ok last =>
        cases h
        have hgrown := addFormula_warnings hadded
        exact hgrown

theorem add_warns (hl : 1 ≤ limit) (hf : Formula.ofSource? limit source = none)
    (hk : (Answer.reportedKeys source).isEmpty = false) (h : report.add limit name source = .ok next) :
    next.Warns limit (name, source) := by
  cases ht : tokenize source with
  | error fault =>
    rw [Answer.reportedKeys, ht] at hk
    cases hk
  | ok tokens =>
    rw [Answer.reportedKeys, ht] at hk
    rw [Formula.ofSource?_ok ht] at hf
    cases hp : parse tokens limit with
    | ok f =>
      rw [hp] at hf
      cases hf
    | error fault =>
      have hmisuse : fault.isMisuse = false := by
        obtain ⟨body, rfl, hb⟩ := tokenize_ok ht
        exact isMisuse_of_parse hl hb hp
      unfold add at h
      rw [ht] at h
      dsimp only at h hk
      rw [hp] at h
      dsimp only at h
      rw [hmisuse, hk, if_neg (by decide)] at h
      refine ⟨tokens, fault, ht, hp, ?_⟩
      rw [← Except.ok.inj h]
      exact mem_warn _ _

theorem Warns.mono (h : report.Warns limit arg) (hw : report.warnings ⊆ next.warnings) : next.Warns limit arg := by
  obtain ⟨tokens, fault, ht, hp, hmem⟩ := h
  exact ⟨tokens, fault, ht, hp, hw hmem⟩

theorem trees_append (limit : Int) (args : Arguments) (arg : String × String) :
    trees limit (args ++ [arg]) = trees limit args ++ trees limit [arg] := List.filterMap_append

theorem plain_append (limit : Int) (args : Arguments) (arg : String × String) :
    plain limit (args ++ [arg]) = plain limit args ++ plain limit [arg] := List.filter_append _ _

theorem classes_formula (h : Formula.ofSource? limit source = some f) (name : String) (args : Arguments) :
    trees limit ((name, source) :: args) = (name, f) :: trees limit args ∧
      plain limit ((name, source) :: args) = plain limit args := by
  simp [trees, plain, h]

theorem classes_plain (h : Formula.ofSource? limit source = none) (name : String) (args : Arguments) :
    trees limit ((name, source) :: args) = trees limit args ∧
      plain limit ((name, source) :: args) = (name, source) :: plain limit args := by
  simp [trees, plain, h]

theorem Covers.keys_append (h : Covers limit args report) (name source : String) :
    ArgumentTexts.reportedKeys (args ++ [(name, source)]) = report.keys.merge (Answer.reportedKeys source) := by
  rw [h.keys]
  exact List.foldl_append

theorem Covers.formula {canonical : String} {warnings : List String} (h : Covers limit args report)
    (hf : Formula.ofSource? limit source = some f) (hw : report.warnings ⊆ warnings) :
    Covers limit (args ++ [(name, source)]) { report with
      formulas := report.formulas ++ [name]
      normalized := report.normalized ++ [(name, canonical)]
      keys := report.keys.merge (Answer.reportedKeys source)
      greatestDepth := max report.greatestDepth f.height
      totalCount := report.totalCount + f.size
      warnings := warnings } := by
  obtain ⟨htree, hplain⟩ := classes_formula hf name []
  have htrees : trees limit (args ++ [(name, source)]) = trees limit args ++ [(name, f)] := by
    rw [trees_append, htree]
    rfl
  have hplains : plain limit (args ++ [(name, source)]) = plain limit args := by
    rw [plain_append, hplain]
    exact List.append_nil _
  exact {
    formulas := by simp [htrees, h.formulas]
    literals := by simp [hplains, h.literals]
    normalized := by simp [h.normalized]
    keys := (h.keys_append name source).symm
    greatestDepth := by simp [htrees, h.greatestDepth]
    totalCount := by simp [htrees, h.totalCount]
    warned := by
      rw [hplains]
      exact fun arg harg hk => (h.warned arg harg hk).mono hw }

theorem Covers.literal {warnings : List String} (h : Covers limit args report)
    (hf : Formula.ofSource? limit source = none) (hw : report.warnings ⊆ warnings)
    (hwarns : (Answer.reportedKeys source).isEmpty = false → Warns limit { report with warnings } (name, source)) :
    Covers limit (args ++ [(name, source)]) { report with
      literals := report.literals ++ [name]
      keys := report.keys.merge (Answer.reportedKeys source)
      warnings := warnings } := by
  obtain ⟨htree, hplain⟩ := classes_plain hf name []
  have htrees : trees limit (args ++ [(name, source)]) = trees limit args := by
    rw [trees_append, htree]
    exact List.append_nil _
  have hplains : plain limit (args ++ [(name, source)]) = plain limit args ++ [(name, source)] := by
    rw [plain_append, hplain]
    rfl
  exact {
    formulas := by simp [htrees, h.formulas]
    literals := by simp [hplains, h.literals]
    normalized := h.normalized
    keys := (h.keys_append name source).symm
    greatestDepth := by simp [htrees, h.greatestDepth]
    totalCount := by simp [htrees, h.totalCount]
    warned := by
      rw [hplains]
      refine List.forall_mem_append.mpr ⟨fun arg harg hk => (h.warned arg harg hk).mono hw, ?_⟩
      exact List.forall_mem_singleton.mpr hwarns }

theorem Covers.add (h : Covers limit args report) (hl : 1 ≤ limit) (name source : String) :
    ∃ next, report.add limit name source = .ok next ∧ Covers limit (args ++ [(name, source)]) next := by
  cases hf : Formula.ofSource? limit source with
  | none =>
    obtain ⟨warnings, hadd⟩ := add_literal hl hf report name
    have hgrown : report.warnings ⊆ warnings := add_warnings hadd
    have hwarns := fun hk => add_warns hl hf hk hadd
    exact ⟨_, hadd, h.literal hf hgrown hwarns⟩
  | some f =>
    obtain ⟨canonical, warnings, -, hadd⟩ := add_formula hl hf report name
    have hgrown : report.warnings ⊆ warnings := add_warnings hadd
    exact ⟨_, hadd, h.formula hf hgrown⟩

theorem covers_ofArguments (hl : 1 ≤ limit) (args : Arguments) :
    ∃ report, ofArguments limit args = .ok report ∧ Covers limit args report := by
  have hstart (total : Nat) : Covers limit [] { total } := by
    constructor <;> first | rfl | simp [plain]
  unfold ofArguments
  -- The total is settled at the start, so the induction leaves it alone.
  generalize args.length = total
  induction args using List.reverseRecOn with
  | nil => exact ⟨_, rfl, hstart total⟩
  | append_singleton args arg ih =>
    obtain ⟨report, hreport, hcovers⟩ := ih
    obtain ⟨next, hnext, hlast⟩ := hcovers.add hl arg.1 arg.2
    refine ⟨next, ?_, hlast⟩
    rw [List.foldlM_append, hreport]
    change (report.add limit arg.1 arg.2 >>= pure) = _
    rw [bind_pure, hnext]

theorem classes_perm (limit : Int) (args : Arguments) :
    ((trees limit args).map (·.1) ++ (plain limit args).map (·.1)).Perm (args.map (·.1)) := by
  induction args with
  | nil => exact .nil
  | cons arg args ih =>
    obtain ⟨name, source⟩ := arg
    cases hf : Formula.ofSource? limit source with
    | none =>
      obtain ⟨htrees, hplain⟩ := classes_plain hf name args
      rw [htrees, hplain]
      exact List.perm_middle.trans (ih.cons name)
    | some f =>
      obtain ⟨htrees, hplain⟩ := classes_formula hf name args
      rw [htrees, hplain]
      exact ih.cons name

theorem trees_sublist (limit : Int) (args : Arguments) : ((trees limit args).map (·.1)).Sublist (args.map (·.1)) := by
  induction args with
  | nil => exact .slnil
  | cons arg args ih =>
    obtain ⟨name, source⟩ := arg
    cases hf : Formula.ofSource? limit source with
    | none =>
      rw [(classes_plain hf name args).1]
      exact .cons _ ih
    | some f =>
      rw [(classes_formula hf name args).1]
      exact .cons_cons _ ih

end Report

open Report

/-- Where the arguments are answered, the report names the same keys and takes for formulas those that are answered
by evaluating one. The others are answered by their own texts, each with its warning if it has keys. -/
theorem arguments_classified_alike (context : Context) (limit : Int) (hl : 1 ≤ limit) (args : Arguments)
    (hn : (args.map (·.1)).Nodup) (texts : ArgumentTexts)
    (h : ArgumentTexts.ofArguments context limit args = .ok texts) :
    ∃ report, Report.ofArguments limit args = .ok report ∧ report.keys = texts.keys ∧
      report.formulas.Sublist (args.map (·.1)) ∧ report.literals.Sublist (args.map (·.1)) ∧
      report.formulas.Disjoint report.literals ∧ (report.formulas ++ report.literals).Perm (args.map (·.1)) ∧
      report.normalized.map (·.1) = report.formulas ∧
      (∀ name ∈ report.literals, ∃ source answer, args.lookup name = some source ∧
        texts.texts.lookup name = some source ∧ Answer.ofText context limit source = .ok answer ∧
        (answer.keys.isEmpty = false → report.Warns limit (name, source))) ∧
      ∃ trees : List (String × Formula), trees.map (·.1) = report.formulas ∧
        (∀ tree ∈ trees, ∃ source answer, args.lookup tree.1 = some source ∧
          Formula.ofSource? limit source = some tree.2 ∧ Answer.ofText context limit source = .ok answer ∧
          tree.2.evaluate context = .ok answer.value ∧ texts.texts.lookup tree.1 = some answer.value.argumentText ∧
          tree.2.depth = .ok tree.2.height ∧ tree.2.count = .ok tree.2.size) ∧
        report.greatestDepth = (trees.map (·.2.height)).foldl max 0 ∧
        report.totalCount = (trees.map (·.2.size)).sum := by
  obtain ⟨report, hreport, hcovers⟩ := covers_ofArguments hl args
  have hkeys := ArgumentTexts.keys_eq h
  rw [ArgumentTexts.ofArguments_eq hl] at h
  have hnames : (texts.texts.map (·.1)).Nodup := by
    rw [(ArgumentTexts.foldlM_ok h).1]
    exact hn
  have hanswered := (ArgumentTexts.mem_of_foldlM h).2
  have hperm : (report.formulas ++ report.literals).Perm (args.map (·.1)) := by
    rw [hcovers.formulas, hcovers.literals]
    exact classes_perm limit args
  refine ⟨report, hreport, hcovers.keys.trans hkeys.symm, ?_, ?_, ?_, hperm, hcovers.normalized, ?_,
    trees limit args, hcovers.formulas.symm, ?_, hcovers.greatestDepth, hcovers.totalCount⟩
  · rw [hcovers.formulas]
    exact trees_sublist limit args
  · rw [hcovers.literals]
    exact List.filter_sublist.map _
  · exact List.disjoint_of_nodup_append (hperm.nodup_iff.mpr hn)
  · intro name hname
    rw [hcovers.literals, List.mem_map] at hname
    obtain ⟨⟨name, source⟩, hplain, rfl⟩ := hname
    obtain ⟨harg, hnone⟩ := List.mem_filter.mp hplain
    obtain ⟨answer, ha, htext⟩ := hanswered _ harg
    obtain ⟨reason, hself⟩ := Answer.ofText_plain hl (Option.isNone_iff_eq_none.mp hnone)
    obtain rfl := Except.ok.inj ((hself context).symm.trans ha)
    refine ⟨source, _, Arguments.lookup_of_mem hn harg, Arguments.lookup_of_mem hnames htext, ha, ?_⟩
    exact hcovers.warned _ hplain
  · rintro ⟨name, f⟩ htree
    obtain ⟨⟨_, source⟩, harg, hsome⟩ := List.mem_filterMap.mp htree
    obtain ⟨g, hf, hpair⟩ := Option.map_eq_some_iff.mp hsome
    cases hpair
    obtain ⟨answer, ha, htext⟩ := hanswered _ harg
    have hcomplete := Formula.ofSource?_complete hl hf
    exact ⟨source, answer, Arguments.lookup_of_mem hn harg, hf, ha, Answer.value_of_formula hl hf ha,
      Arguments.lookup_of_mem hnames htext, hcomplete.depth_eq, hcomplete.count_eq⟩

/-- A sum without its second part is a literal that is warned of. -/
theorem unfinished_sum_is_literal :
    let context := Context.ofEntries [(.text "x", .text "yes")]
    let args := [("a", "fm.x"), ("b", "fm.y +")]
    (1 : Int) ≤ 4 ∧ (args.map (·.1)).Nodup ∧ ∃ texts report, ArgumentTexts.ofArguments context 4 args = .ok texts ∧
      Report.ofArguments 4 args = .ok report ∧ report.keys = texts.keys ∧ report.formulas = ["a"] ∧
      report.literals = ["b"] ∧ report.Warns 4 ("b", "fm.y +") := by
  intro context args
  let f : Formula := .reference .note (.text "x")
  have hword : tokenize "fm.x" = .ok [ofWord "fm.x".toList, eof] := by cbv
  have hsum : tokenize "fm.y +" = .ok [ofWord "fm.y".toList, spelled .plus ['+'], eof] := by cbv
  have hf : Formula.ofSource? 4 "fm.x" = some f := by
    rw [Formula.ofSource?_ok hword]
    rfl
  have hnone : Formula.ofSource? 4 "fm.y +" = none := by
    rw [Formula.ofSource?_ok hsum]
    rfl
  have hl : (1 : Int) ≤ 4 := by decide
  have hn : (args.map (·.1)).Nodup := by decide
  have hanswer : Answer.ofText context 4 "fm.x" = .ok ⟨.text "yes", Answer.reportedKeys "fm.x", none⟩ := by
    rw [Answer.ofText_formula hl hf]
    rfl
  obtain ⟨reason, hself⟩ := Answer.ofText_plain hl hnone
  have hanswers : ∃ texts, ArgumentTexts.ofArguments context 4 args = .ok texts := by
    rw [ArgumentTexts.ofArguments_eq hl]
    simp only [args, List.foldlM_cons, List.foldlM_nil, ArgumentTexts.addAnswer, hanswer, hself]
    exact ⟨_, rfl⟩
  obtain ⟨texts, htexts⟩ := hanswers
  obtain ⟨report, hreport, hkeys, -, -, -, -, -, hliterals, -⟩ :=
    arguments_classified_alike context 4 hl args hn texts htexts
  obtain ⟨report', hreport', hcovers⟩ := covers_ofArguments hl args
  obtain rfl := Except.ok.inj (hreport.symm.trans hreport')
  have hformula : report.formulas = ["a"] := by
    rw [hcovers.formulas]
    simp [Report.trees, args, hf, hnone]
  have hliteral : report.literals = ["b"] := by
    rw [hcovers.literals]
    simp [plain, args, hf, hnone]
  obtain ⟨source, answer, hsource, -, hanswer, hwarns⟩ := hliterals "b" (by rw [hliteral]; exact List.mem_cons_self)
  cases hsource
  refine ⟨hl, hn, texts, report, htexts, hreport, hkeys, hformula, hliteral, hwarns ?_⟩
  rw [Answer.keys_eq hanswer, Answer.reportedKeys, hsum]
  rfl

end NoteFormula

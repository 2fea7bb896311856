import NoteFormula.Proofs.AnswerTotality
import NoteFormula.Proofs.ReportedFormulas

/-! # Normalized arguments

A report gives the canonical source of each argument that is a formula. Within the same limit that source is
answered as the argument is, unless its parentheses nest deeper than the limit allows; then it stands for itself.
-/
namespace NoteFormula

open Token

variable {context : Context} {limit : Int} {source canonical name : String} {f : Formula} {answer : Answer}
  {args : Arguments}

theorem Answer.ofText_canonical (hl : 1 ≤ limit) (h : Formula.ofSource? limit source = some f)
    (hs : f.sourceString = .ok canonical) (ha : ofText context limit source = .ok answer) :
    ∃ again, ofText context limit canonical = .ok again ∧
      again.value = if f.spelledOut.height ≤ limit then answer.value else .text canonical := by
  obtain ⟨_, hs', hback⟩ := Formula.ofSource?_canonical hl h
  obtain rfl := Except.ok.inj (hs.symm.trans hs')
  rw [ofText_formula hl h] at ha
  split at hback
  · rename_i hle
    have hagain := ofText_formula hl hback context
    rw [Formula.spelledOut_evaluate] at hagain
    cases hv : f.evaluate context with
    | error fault =>
      rw [hv] at ha
      cases ha
    | ok v =>
      rw [hv] at ha hagain
      cases ha
      exact ⟨_, hagain, (if_pos hle).symm⟩
  · rename_i hgt
    obtain ⟨reason, hplain⟩ := ofText_plain hl hback
    exact ⟨_, hplain context, (if_neg hgt).symm⟩

theorem Arguments.lookup_of_mem {text : String} (hn : (args.map (·.1)).Nodup) (h : (name, text) ∈ args) :
    args.lookup name = some text := by
  induction args with
  | nil => cases h
  | cons arg args ih =>
    rw [List.map_cons, List.nodup_cons] at hn
    rcases List.mem_cons.mp h with rfl | h
    · exact List.lookup_cons_self
    · have hne : name ≠ arg.1 := by
        rintro rfl
        exact hn.1 (List.mem_map.mpr ⟨_, h, rfl⟩)
      rw [List.lookup_cons, beq_eq_false_iff_ne.mpr hne]
      exact ih hn.2 h

namespace ArgumentTexts

variable {sofar r : ArgumentTexts}

theorem mem_of_foldlM (h : args.foldlM (addAnswer context limit) sofar = .ok r) :
    sofar.texts ⊆ r.texts ∧ ∀ arg ∈ args, ∃ answer, Answer.ofText context limit arg.2 = .ok answer ∧
      (arg.1, answer.value.argumentText) ∈ r.texts := by
  induction args generalizing sofar with
  | nil =>
    cases h
    exact ⟨List.Subset.refl _, by simp⟩
  | cons arg args ih =>
    rw [List.foldlM_cons, addAnswer] at h
    cases ha : Answer.ofText context limit arg.2 with
    | error fault =>
      rw [ha] at h
      cases h
    | ok answer =>
      rw [ha] at h
      obtain ⟨hsofar, hall⟩ := ih h
      obtain ⟨hbefore, hlast⟩ := List.append_subset.mp hsofar
      exact ⟨hbefore, List.forall_mem_cons.mpr ⟨⟨answer, ha, hlast List.mem_cons_self⟩, hall⟩⟩

theorem ofArguments_single (hl : 1 ≤ limit) (ha : Answer.ofText context limit source = .ok answer) (name : String) :
    ∃ r, ofArguments context limit [(name, source)] = .ok r ∧ r.texts = [(name, answer.value.argumentText)] := by
  rw [ofArguments_eq hl, List.foldlM_cons, addAnswer, ha]
  exact ⟨_, rfl, rfl⟩

end ArgumentTexts

/-- Every argument that is a formula has a canonical source in the report. In the same context and within the same
limit it comes to the text of the argument if the limit allows the height of the formula it spells out, and to
itself if not. -/
theorem normalized_argument_text (value : Value) (entries : Value.Entries)
    (hc : value = .map entries ∨ value = .absent ∧ entries = []) (limit : Int) (hl : 1 ≤ limit) (args : Arguments)
    (hn : (args.map (·.1)).Nodup) (texts : ArgumentTexts)
    (hargs : ArgumentTexts.ofArgumentsIn value limit args = .ok texts) :
    ∃ report, Report.ofArguments limit args = .ok report ∧ report.formulas = report.normalized.map (·.1) ∧
      ∀ name ∈ report.formulas, ∃ source f canonical text again,
        args.lookup name = some source ∧ Formula.ofSource? limit source = some f ∧
        report.normalized.lookup name = some canonical ∧ texts.texts.lookup name = some text ∧
        ArgumentTexts.ofArgumentsIn value limit [(name, canonical)] = .ok again ∧
        again.texts = [(name, if f.spelledOut.height ≤ limit then text else canonical)] := by
  have hv := Context.ofValue?_frontmatter hc
  rw [ArgumentTexts.ofArgumentsIn_eq hl hv, ArgumentTexts.ofArguments_eq hl] at hargs
  obtain ⟨report, hreport, hnormalized, hformulas⟩ := Report.ofArguments_ok hl args
  have hnames : (texts.texts.map (·.1)).Nodup := by
    rw [(ArgumentTexts.foldlM_ok hargs).1]
    exact hn
  have hcanonical : (report.normalized.map (·.1)).Nodup := by
    rw [hnormalized]
    exact hn.sublist (Report.canonical_names limit args)
  refine ⟨report, hreport, hformulas, fun name hname => ?_⟩
  rw [hformulas, List.mem_map] at hname
  obtain ⟨⟨name, canonical⟩, hout, rfl⟩ := hname
  have hmem := hout
  rw [hnormalized, List.mem_filterMap] at hmem
  obtain ⟨⟨_, source⟩, harg, hsome⟩ := hmem
  obtain ⟨rfl, f, hf, hs⟩ := Report.canonical?_eq_some_iff.mp hsome
  obtain ⟨answer, ha, htext⟩ := (ArgumentTexts.mem_of_foldlM hargs).2 _ harg
  obtain ⟨again, hagain, hvalue⟩ := Answer.ofText_canonical hl hf hs ha
  obtain ⟨r, hr, hrtexts⟩ := ArgumentTexts.ofArguments_single hl hagain name
  refine ⟨source, f, canonical, answer.value.argumentText, r, Arguments.lookup_of_mem hn harg, hf,
    Arguments.lookup_of_mem hcanonical hout, Arguments.lookup_of_mem hnames htext, ?_, ?_⟩
  · rw [ArgumentTexts.ofArgumentsIn_eq hl hv, hr]
  · rw [hrtexts, hvalue, apply_ite Value.argumentText]
    rfl

/-- One operator nests no group, but its canonical source is one. -/
theorem canonical_disjunction_refused :
    let value : Value := .map [(.text "a", .text "yes")]
    let args := [("x", "fm.a || fm.b")]
    let canonical := "(fm.a || fm.b)"
    ∃ texts report again, ArgumentTexts.ofArgumentsIn value 1 args = .ok texts ∧ texts.texts = [("x", "yes")] ∧
      Report.ofArguments 1 args = .ok report ∧ report.normalized = [("x", canonical)] ∧
      ArgumentTexts.ofArgumentsIn value 1 [("x", canonical)] = .ok again ∧ again.texts = [("x", canonical)] := by
  intro value args canonical
  let f : Formula := .binary .or (.reference .note (.text "a")) (.reference .note (.text "b"))
  have htokens : tokenize "fm.a || fm.b" = .ok [ofWord "fm.a".toList, spelled .or ['|', '|'],
      ofWord "fm.b".toList, eof] := by cbv
  have hf : Formula.ofSource? 1 "fm.a || fm.b" = some f := by
    rw [Formula.ofSource?_ok htokens]
    rfl
  have hnames : (args.map (·.1)).Nodup := List.nodup_singleton _
  have hv : Context.ofValue? value = .ok (Context.ofEntries [(.text "a", .text "yes")]) := rfl
  have hanswer : Answer.ofText (Context.ofEntries [(.text "a", .text "yes")]) 1 "fm.a || fm.b" =
      .ok ⟨.text "yes", Answer.reportedKeys "fm.a || fm.b", none⟩ := by
    rw [Answer.ofText_formula (by decide) hf]
    rfl
  obtain ⟨texts, htexts, hyes⟩ := ArgumentTexts.ofArguments_single (by decide) hanswer "x"
  rw [← ArgumentTexts.ofArgumentsIn_eq (by decide) hv] at htexts
  obtain ⟨report, hreport, hformulas, hall⟩ :=
    normalized_argument_text value _ (Or.inl rfl) 1 (by decide) args hnames texts htexts
  have hnormalized : report.normalized = [("x", canonical)] := by
    obtain ⟨report', hreport', hnormalized, -⟩ := Report.ofArguments_ok (show (1 : Int) ≤ 1 by decide) args
    obtain rfl := Except.ok.inj (hreport.symm.trans hreport')
    have hcanonical : Report.canonical? 1 ("x", "fm.a || fm.b") = some ("x", canonical) :=
      Report.canonical?_eq_some_iff.mpr ⟨rfl, f, hf, rfl⟩
    rw [hnormalized, List.filterMap_cons_some hcanonical]
    rfl
  obtain ⟨source, g, _, text, again, hsource, hg, hlookup, -, hagain, htext⟩ :=
    hall "x" (by rw [hformulas, hnormalized]; exact List.mem_cons_self)
  rw [hnormalized] at hlookup
  cases hlookup
  cases hsource
  obtain rfl := Option.some.inj (hf.symm.trans hg)
  have hdeep : ¬ ((f.spelledOut.height : Nat) : Int) ≤ 1 := by decide
  rw [if_neg hdeep] at htext
  exact ⟨texts, report, again, htexts, hyes, hreport, hnormalized, hagain, htext⟩

end NoteFormula

import NoteFormula.Arguments.Answer
import NoteFormula.Proofs.Acceptance
import NoteFormula.Proofs.CompleteFormulas
import NoteFormula.Proofs.EvaluationSteps
import NoteFormula.Proofs.ReportedKeys

/-! # Answers to texts

A text that stands for a formula within the limit is answered by what that formula comes to; every other text
is answered by itself. Either way the keys are told from the tokens alone, and they are all that the answer
depends on: every reference in the formula comes from a token.
-/
namespace NoteFormula

open Token

def Formula.ofSource? (limit : Int) (source : String) : Option Formula :=
  match tokenize source with
  | .ok tokens => (parse tokens limit).toOption
  | .error _ => none

def Answer.reportedKeys (source : String) : Keys :=
  match tokenize source with
  | .ok tokens => references tokens
  | .error _ => {}

variable {context c₁ c₂ : Context} {limit : Int} {source : String} {f : Formula}

theorem Formula.ofSource?_ok {tokens : List Token} (ht : tokenize source = .ok tokens) :
    ofSource? limit source = (parse tokens limit).toOption := by
  unfold ofSource?
  rw [ht]

theorem Formula.ofSource?_error {fault : Unexpected} (ht : tokenize source = .error fault) :
    ofSource? limit source = none := by
  unfold ofSource?
  rw [ht]

theorem Formula.of_ofSource? (h : ofSource? limit source = some f) :
    ∃ tokens, tokenize source = .ok tokens ∧ parse tokens limit = .ok f := by
  cases ht : tokenize source with
  | error fault =>
    rw [ofSource?_error ht] at h
    cases h
  | ok tokens =>
    rw [ofSource?_ok ht] at h
    refine ⟨tokens, rfl, ?_⟩
    cases hp : parse tokens limit with
    | error fault =>
      rw [hp] at h
      cases h
    | ok g =>
      rw [hp] at h
      cases h
      rfl

/-- In the formula of a text every reference is to a reported key. -/
theorem Formula.ofSource?_complete (hl : 1 ≤ limit) (h : ofSource? limit source = some f) :
    f.Complete (fun _ => True) fun _ path => (Answer.reportedKeys source).Has path := by
  obtain ⟨tokens, ht, hparse⟩ := of_ofSource? h
  have hpath := path_of_tokenize ht
  obtain ⟨body, rfl, hb⟩ := tokenize_ok ht
  obtain ⟨n, -, hd⟩ := derives_of_parse hl hb hparse
  have hkeys : Answer.reportedKeys source = references (body ++ [eof]) := by
    unfold Answer.reportedKeys
    rw [ht]
  refine hd.complete (fun _ => trivial) (fun _ _ _ => trivial) fun t hbody space hspace => ?_
  have hmem : t ∈ body ++ [eof] := List.mem_append_left _ hbody
  obtain ⟨s, hs⟩ := hpath t hmem space hspace
  rw [hkeys]
  exact references_has hmem hspace hs

namespace Answer

theorem reportedKeys_text {p : Value} (h : (reportedKeys source).Has p) : ∃ s, p = .text s := by
  unfold reportedKeys at h
  cases ht : tokenize source with
  | error fault =>
    rw [ht] at h
    rcases h with h | h <;> cases h
  | ok tokens =>
    rw [ht] at h
    obtain ⟨t, hmem, ⟨space, hspace⟩, rfl⟩ := of_references_has h
    exact path_of_tokenize ht t hmem space hspace

theorem checkLimit_ok (hl : 1 ≤ limit) : checkLimit limit = .ok () := if_neg (Int.not_lt.mpr hl)

theorem checkLimit_low (hl : limit < 1) : checkLimit limit = .error (.parse (.limitTooLow limit)) := if_pos hl

theorem ofText_formula (hl : 1 ≤ limit) (h : Formula.ofSource? limit source = some f) (context : Context) :
    ofText context limit source =
      (f.evaluate context).mapError .eval >>= fun v => .ok ⟨v, reportedKeys source, none⟩ := by
  obtain ⟨tokens, ht, hparse⟩ := Formula.of_ofSource? h
  unfold ofText reportedKeys
  rw [checkLimit_ok hl, ht]
  dsimp only [bind, Except.bind]
  rw [hparse]
  rfl

theorem ofText_plain (hl : 1 ≤ limit) (h : Formula.ofSource? limit source = none) :
    ∃ reason, ∀ context, ofText context limit source = .ok (plain source (reportedKeys source) reason) := by
  cases ht : tokenize source with
  | error fault =>
    refine ⟨fault.message, fun context => ?_⟩
    unfold ofText reportedKeys
    rw [checkLimit_ok hl, ht]
    rfl
  | ok tokens =>
    rw [Formula.ofSource?_ok ht] at h
    cases hparse : parse tokens limit with
    | ok f =>
      rw [hparse] at h
      cases h
    | error fault =>
      have hmisuse : fault.isMisuse = false := by
        obtain ⟨body, rfl, hb⟩ := tokenize_ok ht
        exact isMisuse_of_parse hl hb hparse
      refine ⟨fault.message, fun context => ?_⟩
      unfold ofText reportedKeys
      rw [checkLimit_ok hl, ht]
      dsimp only [bind, Except.bind]
      rw [hparse]
      dsimp only
      rw [hmisuse]
      rfl

theorem ofText_low (hl : limit < 1) (context : Context) :
    ofText context limit source = .error (.parse (.limitTooLow limit)) := by
  unfold ofText
  rw [checkLimit_low hl]
  rfl

theorem keys_eq {answer : Answer} (h : ofText context limit source = .ok answer) :
    answer.keys = reportedKeys source := by
  rcases Int.lt_or_le limit 1 with hl | hl
  · rw [ofText_low hl] at h
    cases h
  cases hf : Formula.ofSource? limit source with
  | none =>
    obtain ⟨reason, hplain⟩ := ofText_plain hl hf
    rw [hplain] at h
    cases h
    rfl
  | some f =>
    rw [ofText_formula hl hf] at h
    cases hv : f.evaluate context with
    | error fault =>
      rw [hv] at h
      cases h
    | ok v =>
      rw [hv] at h
      cases h
      rfl

end Answer

def Context.AgreesOn (c₁ c₂ : Context) (keys : Keys) : Prop := ∀ p, keys.Has p → c₁ p = c₂ p

/-- What a complete formula comes to depends on the context only through the paths it refers to. -/
theorem Formula.Complete.evaluate_congr {literal : Value → Prop}
    (h : f.Complete literal fun _ path => c₁ path = c₂ path) : f.evaluate c₁ = f.evaluate c₂ := by
  induction h with
  | literal => rfl
  | reference hp => rw [evaluate_reference, evaluate_reference, hp]
  | unary _ ih => rw [evaluate_unary, evaluate_unary, ih]
  | binary _ _ ihf ihg => rw [evaluate_binary, evaluate_binary, ihf, ihg]
  | guarded _ _ ihc ihf =>
    rw [evaluate_conditional, evaluate_conditional, ihc, ihf]
    rfl
  | choice _ _ _ ihc ihf ihg => rw [evaluate_conditional, evaluate_conditional, ihc, ihf, ihg]
  | contains _ _ ihf ihg => rw [evaluate_contains, evaluate_contains, ihf, ihg]
  | length _ ih => rw [evaluate_length, evaluate_length, ih]

theorem Answer.ofText_congr (h : c₁.AgreesOn c₂ (reportedKeys source)) :
    ofText c₁ limit source = ofText c₂ limit source := by
  rcases Int.lt_or_le limit 1 with hl | hl
  · rw [ofText_low hl, ofText_low hl]
  cases hf : Formula.ofSource? limit source with
  | none =>
    obtain ⟨reason, hplain⟩ := ofText_plain hl hf
    rw [hplain, hplain]
  | some f =>
    have hcomplete := (Formula.ofSource?_complete hl hf).mono (fun _ h => h) fun _ path hp => h path hp
    rw [ofText_formula hl hf, ofText_formula hl hf, hcomplete.evaluate_congr]

namespace ArgumentTexts

variable {args : Arguments} {sofar r : ArgumentTexts}

def reportedKeys (args : Arguments) : Keys :=
  args.foldl (fun keys arg => keys.merge (Answer.reportedKeys arg.2)) {}

def addAnswer (context : Context) (limit : Int) (sofar : ArgumentTexts) (arg : String × String) :
    Except ArgumentFault ArgumentTexts := (Answer.ofText context limit arg.2).map (sofar.add arg.1)

theorem ofArguments_eq (hl : 1 ≤ limit) (context : Context) (args : Arguments) :
    ofArguments context limit args = args.foldlM (addAnswer context limit) {} := by
  unfold ofArguments
  rw [Answer.checkLimit_ok hl]
  rfl

theorem ofArguments_low (hl : limit < 1) (context : Context) (args : Arguments) :
    ofArguments context limit args = .error (.parse (.limitTooLow limit)) := by
  unfold ofArguments
  rw [Answer.checkLimit_low hl]
  rfl

/-- Each argument that is answered leaves its name and its keys. -/
theorem foldlM_ok (h : args.foldlM (addAnswer context limit) sofar = .ok r) :
    r.texts.map (·.1) = sofar.texts.map (·.1) ++ args.map (·.1) ∧
      r.keys = args.foldl (fun keys arg => keys.merge (Answer.reportedKeys arg.2)) sofar.keys := by
  induction args generalizing sofar with
  | nil =>
    cases h
    exact ⟨(List.append_nil _).symm, rfl⟩
  | cons arg args ih =>
    rw [List.foldlM_cons, addAnswer] at h
    cases ha : Answer.ofText context limit arg.2 with
    | error fault =>
      rw [ha] at h
      cases h
    | ok answer =>
      rw [ha] at h
      obtain ⟨htexts, hkeys⟩ := ih h
      constructor
      · rw [htexts, add, List.map_append, List.append_assoc]
        rfl
      · rw [hkeys, List.foldl_cons, ← Answer.keys_eq ha]
        rfl

theorem foldlM_congr
    (h : ∀ arg ∈ args, Answer.ofText c₁ limit arg.2 = Answer.ofText c₂ limit arg.2) (sofar : ArgumentTexts) :
    args.foldlM (addAnswer c₁ limit) sofar = args.foldlM (addAnswer c₂ limit) sofar := by
  induction args generalizing sofar with
  | nil => rfl
  | cons arg args ih =>
    obtain ⟨hhead, htail⟩ := List.forall_mem_cons.mp h
    rw [List.foldlM_cons, List.foldlM_cons, addAnswer, addAnswer, hhead]
    exact congrArg _ (funext fun sofar => ih htail sofar)

theorem foldl_merge_has {keys : Keys} {p : Value} (h : keys.Has p) (args : Arguments) :
    (args.foldl (fun keys arg => keys.merge (Answer.reportedKeys arg.2)) keys).Has p := by
  induction args generalizing keys with
  | nil => exact h
  | cons arg args ih => exact ih (h.merge_left _)

theorem reportedKeys_has {arg : String × String} {p : Value} (ha : arg ∈ args)
    (hp : (Answer.reportedKeys arg.2).Has p) : (reportedKeys args).Has p := by
  unfold reportedKeys
  generalize ({} : Keys) = keys
  induction args generalizing keys with
  | nil => cases ha
  | cons first args ih =>
    rcases List.mem_cons.mp ha with rfl | ha
    · obtain ⟨s, rfl⟩ := Answer.reportedKeys_text hp
      exact foldl_merge_has (hp.merge_right keys) args
    · exact ih ha _

theorem keys_eq (h : ofArguments context limit args = .ok r) : r.keys = reportedKeys args := by
  rcases Int.lt_or_le limit 1 with hl | hl
  · rw [ofArguments_low hl] at h
    cases h
  · rw [ofArguments_eq hl] at h
    exact (foldlM_ok h).2

theorem ofArguments_congr (h : c₁.AgreesOn c₂ (reportedKeys args)) :
    ofArguments c₁ limit args = ofArguments c₂ limit args := by
  rcases Int.lt_or_le limit 1 with hl | hl
  · rw [ofArguments_low hl, ofArguments_low hl]
  · rw [ofArguments_eq hl, ofArguments_eq hl]
    exact foldlM_congr (fun arg ha => Answer.ofText_congr fun p hp => h p (reportedKeys_has ha hp)) {}

end ArgumentTexts

/-- The reported keys are the same in every context, and contexts that agree on them give the same outcome, be it
for one text or for a list of arguments. -/
theorem outcome_depends_on_reportedKeys (limit : Int) :
    (∀ source, (∀ context answer, Answer.ofText context limit source = .ok answer →
        answer.keys = Answer.reportedKeys source) ∧
      ∀ c₁ c₂ : Context, c₁.AgreesOn c₂ (Answer.reportedKeys source) →
        Answer.ofText c₁ limit source = Answer.ofText c₂ limit source) ∧
    (∀ args, (∀ context texts, ArgumentTexts.ofArguments context limit args = .ok texts →
        texts.keys = ArgumentTexts.reportedKeys args) ∧
      ∀ c₁ c₂ : Context, c₁.AgreesOn c₂ (ArgumentTexts.reportedKeys args) →
        ArgumentTexts.ofArguments c₁ limit args = ArgumentTexts.ofArguments c₂ limit args) :=
  ⟨fun _ => ⟨fun _ _ => Answer.keys_eq, fun _ _ => Answer.ofText_congr⟩,
    fun _ => ⟨fun _ _ => ArgumentTexts.keys_eq, fun _ _ => ArgumentTexts.ofArguments_congr⟩⟩

/-- An entry that no key leads to makes no difference. -/
theorem unmentioned_entry_ignored :
    let c₁ := Context.ofEntries [(.text "a", .int 1)]
    let c₂ := Context.ofEntries [(.text "a", .int 1), (.text "c", .int 2)]
    let args := [("x", "fm.a || file.b"), ("y", "fm.a || file.b")]
    c₁.AgreesOn c₂ (Answer.reportedKeys "fm.a || file.b") ∧
    Answer.ofText c₁ 5 "fm.a || file.b" = Answer.ofText c₂ 5 "fm.a || file.b" ∧
    c₁.AgreesOn c₂ (ArgumentTexts.reportedKeys args) ∧
    ArgumentTexts.ofArguments c₁ 5 args = ArgumentTexts.ofArguments c₂ 5 args := by
  intro c₁ c₂ args
  have htokens : tokenize "fm.a || file.b" = .ok [ofWord "fm.a".toList, spelled .or ['|', '|'],
      ofWord "file.b".toList, eof] := by cbv
  have hsource : Answer.reportedKeys "fm.a || file.b" = ⟨[.text "a"], [.text "b"]⟩ := by
    unfold Answer.reportedKeys
    rw [htokens]
    rfl
  have hargs : ArgumentTexts.reportedKeys args = ⟨[.text "a"], [.text "b"]⟩ := by
    simp only [args, ArgumentTexts.reportedKeys, List.foldl_cons, List.foldl_nil, hsource]
    cbv
  have hagree : c₁.AgreesOn c₂ ⟨[.text "a"], [.text "b"]⟩ := by
    rintro p (hp | hp)
    · rw [List.mem_singleton.mp hp]
      rfl
    · rw [List.mem_singleton.mp hp]
      rfl
  have hsame := outcome_depends_on_reportedKeys 5
  exact ⟨hsource ▸ hagree, (hsame.1 _).2 c₁ c₂ (hsource ▸ hagree), hargs ▸ hagree,
    (hsame.2 args).2 c₁ c₂ (hargs ▸ hagree)⟩

end NoteFormula

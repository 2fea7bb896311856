import Mathlib.Data.List.Perm.Basic
import NoteFormula.Proofs.NormalizedArguments
import NoteFormula.Proofs.ReferenceOrder

/-! # Batches of answers

The arguments of a batch are answered in one loop that gathers texts and keys. Each of them is answered as it is alone:
a text that is no formula, or has no tokens, changes nothing for the others. The keys are those of all texts, each where
it comes first. So the order of the arguments matters for the order of what is gathered and for nothing else.
-/
namespace NoteFormula

open Token

variable {context : Context} {limit : Int} {args args' : Arguments}

def Answer.paths? (space : Namespace) (source : String) : Option (List String) :=
  (tokenize source).toOption.map fun tokens => (tokens.filterMap (pathIn? space)).eraseDups

theorem Answer.reportedKeys_of (space : Namespace) (source : String) :
    (reportedKeys source).of space = ((paths? space source).getD []).map .text := by
  unfold reportedKeys paths?
  cases ht : tokenize source with
  | error fault => cases space <;> rfl
  | ok tokens => exact references_of (path_of_tokenize ht) space

theorem eraseDups_perm {paths others : List String} (h : paths.Perm others) :
    paths.eraseDups.Perm others.eraseDups := by
  apply (List.perm_ext_iff_of_nodup (eraseDups_nodup paths) (eraseDups_nodup others)).mpr
  intro path
  rw [List.mem_eraseDups, List.mem_eraseDups, h.mem_iff]

/-- What is found under a name that stands once does not depend on the order. -/
theorem Arguments.lookup_perm (h : args'.Perm args) (hn : (args.map (·.1)).Nodup) (name : String) :
    args'.lookup name = args.lookup name := by
  cases hfound : args.lookup name with
  | none =>
    rw [List.lookup_eq_none_iff] at hfound ⊢
    exact fun arg harg => hfound arg (h.mem_iff.mp harg)
  | some text =>
    obtain ⟨before, after, rfl, -⟩ := List.lookup_eq_some_iff.mp hfound
    have hmem : (name, text) ∈ args' := h.mem_iff.mpr (by simp)
    exact lookup_of_mem ((h.map _).nodup_iff.mpr hn) hmem

namespace ArgumentTexts

/-- The name of an argument with the text of its answer, which is made of this argument alone. -/
def TextOf (context : Context) (limit : Int) (arg text : String × String) : Prop :=
  text.1 = arg.1 ∧ ∃ answer, Answer.ofText context limit arg.2 = .ok answer ∧ text.2 = answer.value.argumentText

/-- What the loop comes to adds a text for each argument, in their order. -/
theorem texts_of_foldlM {sofar r : ArgumentTexts} (h : args.foldlM (addAnswer context limit) sofar = .ok r) :
    ∃ texts, r.texts = sofar.texts ++ texts ∧ List.Forall₂ (TextOf context limit) args texts := by
  induction args generalizing sofar with
  | nil =>
    cases h
    exact ⟨[], (List.append_nil _).symm, .nil⟩
  | cons arg args ih =>
    rw [List.foldlM_cons, addAnswer] at h
    cases ha : Answer.ofText context limit arg.2 with
    | error fault =>
      rw [ha] at h
      cases h
    | ok answer =>
      rw [ha] at h
      obtain ⟨texts, htexts, hanswers⟩ := ih h
      refine ⟨(arg.1, answer.value.argumentText) :: texts, ?_, .cons ⟨rfl, answer, ha, rfl⟩ hanswers⟩
      rw [htexts, add, List.append_assoc]
      rfl

theorem foldlM_of_texts {texts : Arguments} (h : List.Forall₂ (TextOf context limit) args texts)
    (sofar : ArgumentTexts) :
    ∃ r, args.foldlM (addAnswer context limit) sofar = .ok r ∧ r.texts = sofar.texts ++ texts := by
  induction h generalizing sofar with
  | nil => exact ⟨sofar, rfl, (List.append_nil _).symm⟩
  | @cons arg text args texts ha _ ih =>
    obtain ⟨hname, answer, hanswer, htext⟩ := ha
    obtain ⟨r, hr, htexts⟩ := ih (sofar.add arg.1 answer)
    refine ⟨r, ?_, ?_⟩
    · rw [List.foldlM_cons, addAnswer, hanswer]
      exact hr
    · rw [htexts, add, List.append_assoc, ← htext, ← hname]
      rfl

theorem merge_of (keys more : Keys) (space : Namespace) :
    (keys.merge more).of space = (more.of space).foldl Keys.insert (keys.of space) := by
  cases space <;> rfl

/-- Each text with tokens adds its keys after those so far, and a text without tokens adds none. -/
theorem foldl_merge_of (args : Arguments) (keys : Keys) (space : Namespace) :
    (args.foldl (fun keys arg => keys.merge (Answer.reportedKeys arg.2)) keys).of space =
      ((args.filterMap fun arg => Answer.paths? space arg.2).flatten.map Value.text).foldl Keys.insert
        (keys.of space) := by
  induction args generalizing keys with
  | nil => rfl
  | cons arg args ih =>
    rw [List.foldl_cons, ih, merge_of, Answer.reportedKeys_of, List.filterMap_cons]
    cases Answer.paths? space arg.2 with
    | none => rfl
    | some paths =>
      dsimp only
      rw [List.flatten_cons, List.map_append, List.foldl_append]
      rfl

/-- The keys of a batch are those of its texts one after the other, each where it comes first. -/
theorem keys_of {r : ArgumentTexts} (h : ofArguments context limit args = .ok r) (space : Namespace) :
    r.keys.of space = (args.filterMap fun arg => Answer.paths? space arg.2).flatten.eraseDups.map .text := by
  rw [keys_eq h, reportedKeys, foldl_merge_of, ← Keys.foldl_insert_texts]
  cases space <;> rfl

theorem limit_of_ofArguments {r : ArgumentTexts} (h : ofArguments context limit args = .ok r) : 1 ≤ limit := by
  by_contra hlow
  rw [ofArguments_low (Int.not_le.mp hlow)] at h
  cases h

/-- A batch is answered with the texts that its arguments have, each alone. -/
theorem ofArguments_iff (hl : 1 ≤ limit) (texts : Arguments) :
    (∃ r, ofArguments context limit args = .ok r ∧ r.texts = texts) ↔
      List.Forall₂ (TextOf context limit) args texts := by
  rw [ofArguments_eq hl]
  constructor
  · rintro ⟨r, hr, rfl⟩
    obtain ⟨texts, htexts, hanswers⟩ := texts_of_foldlM hr
    rwa [htexts]
  · intro h
    exact foldlM_of_texts h {}

end ArgumentTexts

open ArgumentTexts

/-- Each argument of a batch has the text that it has alone. The keys are those of all texts that have tokens, one text
after the other, each key where it comes first. In any other order of the arguments each name has the same text, and the
keys are the same up to their order. -/
theorem batch_answered_one_by_one (context : Context) (limit : Int) (args : Arguments)
    (hn : (args.map (·.1)).Nodup) (r : ArgumentTexts) (h : ofArguments context limit args = .ok r) :
    List.Forall₂ (TextOf context limit) args r.texts ∧
      (∀ space, (∀ source answer, Answer.ofText context limit source = .ok answer →
          answer.keys.of space = ((Answer.paths? space source).getD []).map .text) ∧
        r.keys.of space = (args.filterMap fun arg => Answer.paths? space arg.2).flatten.eraseDups.map .text) ∧
      ∀ args', args'.Perm args → ∃ r', ofArguments context limit args' = .ok r' ∧
        (∀ name, r'.texts.lookup name = r.texts.lookup name) ∧ ∀ space, (r'.keys.of space).Perm (r.keys.of space) := by
  have hl := limit_of_ofArguments h
  have htexts := (ofArguments_iff hl r.texts).mp ⟨r, h, rfl⟩
  refine ⟨htexts, fun space => ⟨fun source answer ha => ?_, keys_of h space⟩, fun args' hperm => ?_⟩
  · rw [Answer.keys_eq ha, Answer.reportedKeys_of]
  · obtain ⟨texts, htexts', hsame⟩ := List.perm_comp_forall₂ hperm htexts
    obtain ⟨r', h', rfl⟩ := (ofArguments_iff hl texts).mpr htexts'
    have hnames : (r.texts.map (·.1)).Nodup := by
      rw [ofArguments_eq hl] at h
      rwa [(foldlM_ok h).1]
    refine ⟨r', h', Arguments.lookup_perm hsame hnames, fun space => ?_⟩
    rw [keys_of h, keys_of h']
    exact (eraseDups_perm (hperm.filterMap _).flatten).map _

/-- A text that breaks off and one that has no tokens stand for themselves; the first one still has its key, which comes
last where the arguments are reversed. -/
theorem faulty_texts_disturb_nothing :
    let context := Context.ofEntries [(.text "x", .text "yes")]
    let args := [("a", "fm.y +"), ("b", "fm.z?"), ("c", "fm.x || fm.y")]
    (args.map (·.1)).Nodup ∧ args.reverse.Perm args ∧ ∃ r r', ofArguments context 4 args = .ok r ∧
      ofArguments context 4 args.reverse = .ok r' ∧ r.texts = [("a", "fm.y +"), ("b", "fm.z?"), ("c", "yes")] ∧
      r.keys.note = [.text "y", .text "x"] ∧ r'.texts.lookup "c" = some "yes" ∧
      r'.keys.note = [.text "x", .text "y"] := by
  intro context args
  have hl : (1 : Int) ≤ 4 := by decide
  have hn : (args.map (·.1)).Nodup := by decide
  have hperm : args.reverse.Perm args := List.reverse_perm args
  have hsum : tokenize "fm.y +" = .ok [ofWord "fm.y".toList, spelled .plus ['+'], eof] := by cbv
  have hmark : tokenize "fm.z?" = .error ⟨'?', 4⟩ := by cbv
  have hchoice : tokenize "fm.x || fm.y" = .ok [ofWord "fm.x".toList, spelled .or ['|', '|'], ofWord "fm.y".toList,
      eof] := by cbv
  have hplain (name source : String) (h : Formula.ofSource? 4 source = none) :
      TextOf context 4 (name, source) (name, source) := by
    obtain ⟨reason, hself⟩ := Answer.ofText_plain hl h
    exact ⟨rfl, _, hself context, rfl⟩
  have hvalue : TextOf context 4 ("c", "fm.x || fm.y") ("c", "yes") := by
    have hf : Formula.ofSource? 4 "fm.x || fm.y" = some (.binary .or (.reference .note (.text "x"))
        (.reference .note (.text "y"))) := by
      rw [Formula.ofSource?_ok hchoice]
      rfl
    exact ⟨rfl, _, Answer.ofText_formula hl hf context, rfl⟩
  have htexts : List.Forall₂ (TextOf context 4) args [("a", "fm.y +"), ("b", "fm.z?"), ("c", "yes")] := by
    refine .cons (hplain _ _ ?_) (.cons (hplain _ _ ?_) (.cons hvalue .nil))
    · rw [Formula.ofSource?_ok hsum]
      rfl
    · rw [Formula.ofSource?_error hmark]
  obtain ⟨r, hr, hall⟩ := (ofArguments_iff hl _).mpr htexts
  obtain ⟨-, hkeys, hreordered⟩ := batch_answered_one_by_one context 4 args hn r hr
  obtain ⟨r', hr', hlookup, -⟩ := hreordered args.reverse hperm
  have hpaths : Answer.paths? .note "fm.y +" = some ["y"] ∧ Answer.paths? .note "fm.z?" = none ∧
      Answer.paths? .note "fm.x || fm.y" = some ["x", "y"] := by
    simp only [Answer.paths?, hsum, hmark, hchoice]
    decide
  obtain ⟨hfirst, hsecond, hthird⟩ := hpaths
  refine ⟨hn, hperm, r, r', hr, hr', hall, (hkeys .note).2.trans ?_, ?_, (keys_of hr' .note).trans ?_⟩
  · simp only [args, List.filterMap_cons, List.filterMap_nil, hfirst, hsecond, hthird]
    rfl
  · rw [hlookup, hall]
    rfl
  · simp only [args, List.reverse_cons, List.reverse_nil, List.nil_append, List.cons_append, List.filterMap_cons,
      List.filterMap_nil, hfirst, hsecond, hthird]
    rfl

end NoteFormula

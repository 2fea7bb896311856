import NoteFormula.Proofs.Answers
import NoteFormula.Proofs.OverflowingFormulas
import NoteFormula.Proofs.ScannedPieces

/-! # Every text is answered, or an integer is too large

With front matter or without, a text is answered unless it stands for a formula that overflows there, and then
the integer that is too large is the fault that is reported. The same holds of a list of arguments.
-/
namespace NoteFormula

open Token

def Answer.Overtaxed (context : Context) (limit : Int) (source : String) : Prop :=
  ∃ f, Formula.ofSource? limit source = some f ∧ f.Overflows context

def ArgumentFault.tooLarge : ArgumentFault := .eval (.equality .integerTooLarge)

variable {context : Context} {limit : Int} {source : String} {args : Arguments}

theorem Context.ofEntries_text (entries : Value.Entries) (s : String) :
    ∃ v, ofEntries entries (.text s) = .ok v := ⟨_, rfl⟩

theorem Answer.ofText_cases (hl : 1 ≤ limit) (ht : ∀ s, ∃ v, context (.text s) = .ok v) (source : String) :
    (¬ Overtaxed context limit source ∧ ∃ answer, ofText context limit source = .ok answer) ∨
      (Overtaxed context limit source ∧ ofText context limit source = .error .tooLarge) := by
  cases hf : Formula.ofSource? limit source with
  | none =>
    obtain ⟨reason, hplain⟩ := ofText_plain hl hf
    refine Or.inl ⟨?_, _, hplain context⟩
    rintro ⟨f, hsome, -⟩
    rw [hf] at hsome
    cases hsome
  | some f =>
    have hcomplete := Formula.ofSource?_complete hl hf
    have hsettled : Settled (f.evaluate context) := hcomplete.settled fun space path hp => by
      obtain ⟨s, rfl⟩ := reportedKeys_text hp
      exact ht s
    have hfails := failsExactly context f
    rw [ofText_formula hl hf]
    rcases hsettled with ⟨v, hv⟩ | herror
    · refine Or.inl ⟨?_, _, by rw [hv]; rfl⟩
      rintro ⟨g, hsome, hover⟩
      rw [hf] at hsome
      cases hsome
      rw [hfails.mpr hover] at hv
      cases hv
    · exact Or.inr ⟨⟨f, hf, hfails.mp herror⟩, by rw [herror]; rfl⟩

namespace ArgumentTexts

/-- The arguments are answered one by one up to the first that is not. -/
theorem foldlM_cases {fault : ArgumentFault}
    (h : ∀ arg ∈ args, (∃ answer, Answer.ofText context limit arg.2 = .ok answer) ∨
      Answer.ofText context limit arg.2 = .error fault) (sofar : ArgumentTexts) :
    ((∀ arg ∈ args, ∃ answer, Answer.ofText context limit arg.2 = .ok answer) ∧
        ∃ r, args.foldlM (addAnswer context limit) sofar = .ok r) ∨
      ((∃ arg ∈ args, Answer.ofText context limit arg.2 = .error fault) ∧
        args.foldlM (addAnswer context limit) sofar = .error fault) := by
  induction args generalizing sofar with
  | nil => exact Or.inl ⟨by simp, sofar, rfl⟩
  | cons arg args ih =>
    obtain ⟨hhead, htail⟩ := List.forall_mem_cons.mp h
    rw [List.foldlM_cons, addAnswer]
    rcases hhead with ⟨answer, ha⟩ | herror
    · rw [ha]
      rcases ih htail (sofar.add arg.1 answer) with ⟨hall, hr⟩ | ⟨⟨other, hother, herror⟩, hr⟩
      · exact Or.inl ⟨List.forall_mem_cons.mpr ⟨⟨answer, ha⟩, hall⟩, hr⟩
      · exact Or.inr ⟨⟨other, List.mem_cons_of_mem _ hother, herror⟩, hr⟩
    · rw [herror]
      exact Or.inr ⟨⟨arg, List.mem_cons_self, herror⟩, rfl⟩

theorem ofArguments_cases (hl : 1 ≤ limit) (ht : ∀ s, ∃ v, context (.text s) = .ok v) (args : Arguments) :
    ((∀ arg ∈ args, ¬ Answer.Overtaxed context limit arg.2) ∧
        ∃ r, ofArguments context limit args = .ok r ∧ r.texts.map (·.1) = args.map (·.1)) ∨
      ((∃ arg ∈ args, Answer.Overtaxed context limit arg.2) ∧ ofArguments context limit args = .error .tooLarge) := by
  have hcases (arg : String × String) := Answer.ofText_cases hl ht arg.2
  have hanswers : ∀ arg ∈ args, (∃ answer, Answer.ofText context limit arg.2 = .ok answer) ∨
      Answer.ofText context limit arg.2 = .error .tooLarge :=
    fun arg _ => (hcases arg).imp And.right And.right
  rw [ofArguments_eq hl]
  rcases foldlM_cases hanswers {} with ⟨hall, r, hr⟩ | ⟨⟨arg, ha, herror⟩, hr⟩
  · refine Or.inl ⟨fun arg ha hover => ?_, r, hr, (foldlM_ok hr).1⟩
    obtain ⟨answer, hanswer⟩ := hall arg ha
    rcases hcases arg with ⟨hfine, -⟩ | ⟨-, herror⟩
    · exact hfine hover
    · rw [hanswer] at herror
      cases herror
  · refine Or.inr ⟨⟨arg, ha, ?_⟩, hr⟩
    rcases hcases arg with ⟨-, answer, hanswer⟩ | ⟨hover, -⟩
    · rw [hanswer] at herror
      cases herror
    · exact hover

end ArgumentTexts

theorem Context.ofValue?_frontmatter {value : Value} {entries : Value.Entries}
    (hc : value = .map entries ∨ value = .absent ∧ entries = []) : ofValue? value = .ok (ofEntries entries) := by
  rcases hc with rfl | ⟨rfl, rfl⟩ <;> rfl

theorem Answer.ofTextIn_eq {value : Value} (hl : 1 ≤ limit) (hc : Context.ofValue? value = .ok context)
    (source : String) : ofTextIn value limit source = ofText context limit source := by
  unfold ofTextIn
  rw [checkLimit_ok hl, hc]
  rfl

theorem ArgumentTexts.ofArgumentsIn_eq {value : Value} (hl : 1 ≤ limit) (hc : Context.ofValue? value = .ok context)
    (args : Arguments) : ofArgumentsIn value limit args = ofArguments context limit args := by
  unfold ofArgumentsIn
  rw [Answer.checkLimit_ok hl, hc]
  rfl

/-- Front matter of any contents, or none: each text is answered and each argument gets a text, unless equality is
asked about an integer beyond the doubles, which is the one fault there is. -/
theorem answered_iff_not_overtaxed (value : Value) (entries : Value.Entries)
    (hc : value = .map entries ∨ value = .absent ∧ entries = []) (limit : Int) (hl : 1 ≤ limit) :
    (∀ source,
      ((∃ answer, Answer.ofTextIn value limit source = .ok answer) ↔
        ¬ Answer.Overtaxed (Context.ofEntries entries) limit source) ∧
      (Answer.Overtaxed (Context.ofEntries entries) limit source →
        Answer.ofTextIn value limit source = .error .tooLarge)) ∧
    (∀ args,
      ((∃ r, ArgumentTexts.ofArgumentsIn value limit args = .ok r ∧ r.texts.map (·.1) = args.map (·.1)) ↔
        ∀ arg ∈ args, ¬ Answer.Overtaxed (Context.ofEntries entries) limit arg.2) ∧
      ((∃ arg ∈ args, Answer.Overtaxed (Context.ofEntries entries) limit arg.2) →
        ArgumentTexts.ofArgumentsIn value limit args = .error .tooLarge)) := by
  have hv := Context.ofValue?_frontmatter hc
  have ht := Context.ofEntries_text entries
  constructor
  · intro source
    rw [Answer.ofTextIn_eq hl hv]
    rcases Answer.ofText_cases hl ht source with ⟨hfine, hanswer⟩ | ⟨hover, herror⟩
    · exact ⟨iff_of_true hanswer hfine, fun hover => absurd hover hfine⟩
    · rw [herror]
      refine ⟨iff_of_false ?_ (not_not_intro hover), fun _ => rfl⟩
      rintro ⟨answer, ⟨⟩⟩
  · intro args
    rw [ArgumentTexts.ofArgumentsIn_eq hl hv]
    rcases ArgumentTexts.ofArguments_cases hl ht args with ⟨hfine, hr⟩ | ⟨⟨arg, ha, hover⟩, herror⟩
    · refine ⟨iff_of_true hr hfine, ?_⟩
      rintro ⟨arg, ha, hover⟩
      exact absurd hover (hfine arg ha)
    · rw [herror]
      refine ⟨iff_of_false ?_ fun hfine => hfine arg ha hover, fun _ => rfl⟩
      rintro ⟨r, ⟨⟩, -⟩

/-- The least power of two that no double holds, compared with one. -/
theorem large_integer_overtaxes :
    let n : Value := .int (2 ^ 970 * 2 ^ 54 : Nat)
    Answer.Overtaxed (Context.ofEntries [(.text "n", n)]) 32 "fm.n == 1" ∧
    Answer.ofTextIn (.map [(.text "n", n)]) 32 "fm.n == 1" = .error .tooLarge ∧
    ArgumentTexts.ofArgumentsIn (.map [(.text "n", n)]) 32 [("x", "fm.n == 1")] = .error .tooLarge := by
  intro n
  have hlarge : n.Oversized := Value.oversized_scaled (m := 2 ^ 54) (by decide)
  have htokens : tokenize "fm.n == 1" = .ok [ofWord "fm.n".toList, spelled .eq ['=', '='],
      ofMantissa ⟨['1'], none⟩, eof] := by
    have hword : Scanned "fm.n".toList [ofWord "fm.n".toList] [' ', '=', '=', ' ', '1'] :=
      scanned_word (c := 'f') rfl (List.all_eq_true.mp rfl) (by rintro d ⟨⟩; decide)
    have hop : Scanned ['=', '='] [spelled .eq ['=', '=']] [' ', '1'] := scanned_pair rfl rfl _
    have hone : Scanned ['1'] [ofMantissa ⟨['1'], none⟩] [] :=
      scanned_number (m := ⟨['1'], none⟩) ⟨by decide, List.all_eq_true.mp rfl, by rintro d ⟨⟩⟩ (by rintro d ⟨⟩)
    have hspace (rest : List Char) : Scanned [' '] [] rest := scanned_blank rfl rest
    have hright : Scanned [' ', '1'] [ofMantissa ⟨['1'], none⟩] [] := (hspace ['1']).append hone
    have htail : Scanned [' ', '=', '=', ' ', '1'] [spelled .eq ['=', '='], ofMantissa ⟨['1'], none⟩] [] :=
      (hspace ['=', '=', ' ', '1']).append (hop.append hright)
    have htext : String.ofList ("fm.n".toList ++ [' ', '=', '=', ' ', '1']) = "fm.n == 1" := rfl
    have hall := (hword.append htail).tokenize
    rw [htext] at hall
    exact hall
  have hover : Answer.Overtaxed (Context.ofEntries [(.text "n", n)]) 32 "fm.n == 1" := by
    refine ⟨.binary .equals (.reference .note (.text "n")) (.literal (ofMantissa ⟨['1'], none⟩).value), ?_, ?_⟩
    · rw [Formula.ofSource?_ok htokens]
      rfl
    · exact .equality (Or.inl rfl) (v := n) rfl rfl ⟨rfl, rfl, Or.inl hlarge⟩
  have hmain := answered_iff_not_overtaxed (.map [(.text "n", n)]) _ (Or.inl rfl) 32 (by decide)
  exact ⟨hover, (hmain.1 _).2 hover, (hmain.2 _).2 ⟨_, List.mem_cons_self, hover⟩⟩

end NoteFormula

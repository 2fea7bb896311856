import NoteFormula.Proofs.RecursiveEvaluation
import NoteFormula.Proofs.ReferenceOrder

/-! # Paths that are read

What the context is asked for while a formula is evaluated. A part that is passed over leaves its paths out, and no part
is evaluated twice or before its turn. So the paths that are read are some of those the formula refers to, from left to
right, and these stand in the text in the same order.
-/
namespace NoteFormula

open Token

namespace Run

variable {α β : Type} {run : Run α} {next : α → Run β} {first second : List Value}

/-- What comes after a run reads after it, if it is reached. -/
theorem reads_bind_sublist (hrun : run.reads.Sublist first) (hnext : ∀ a, (next a).reads.Sublist second) :
    (run >>= next).reads.Sublist (first ++ second) := by
  rw [reads_bind]
  split
  · exact hrun.trans (List.sublist_append_left first second)
  · exact hrun.append (hnext _)

theorem reads_bind_silent (hnext : ∀ a, (next a).reads = []) : (run >>= next).reads = run.reads := by
  rw [reads_bind]
  split
  · rfl
  · rw [hnext, List.append_nil]

end Run

open Run

theorem Value.anyLooselyEqual_reads (needle : Value) (items : List Value) :
    (needle.anyLooselyEqual items).reads = [] := by
  induction items with
  | nil => rfl
  | cons item items ih =>
    refine reads_bind_silent fun found => ?_
    split
    · rfl
    · exact ih

theorem Value.holds_reads (haystack needle : Value) : (haystack.holds needle).reads = [] := by
  cases haystack with
  | list items => exact anyLooselyEqual_reads needle items
  | tuple items => exact anyLooselyEqual_reads needle items
  | text s => exact (apply_ite reads ..).trans (ite_self [])
  | _ => rfl

theorem BinaryOp.combine_reads (op : BinaryOp) (left right : Value) : (op.combine left right).reads = [] := by
  cases op with
  | equals => exact reads_bind_silent fun _ => rfl
  | notEquals => exact reads_bind_silent fun _ => rfl
  | _ => rfl

/-- The right side is read at most once, after the left side. -/
theorem BinaryOp.apply_reads_sublist (op : BinaryOp) (left : Value) {right : Run Value} {paths : List Value}
    (h : right.reads.Sublist paths) : (op.apply left fun _ => right).reads.Sublist paths := by
  unfold apply
  split
  · exact List.nil_sublist paths
  · rwa [reads_bind_silent (op.combine_reads left)]

namespace Formula

def paths (f : Formula) : List Value := f.referred.map (·.2)

/-- Each part is evaluated at most once, and from left to right. -/
theorem recursiveRun_reads_sublist (context : Context) (f : Formula) :
    (f.recursiveRun context).reads.Sublist f.paths := by
  induction f with
  | absent | literal | reference => exact List.Sublist.refl _
  | unary op f ih =>
    change (f.recursiveRun context >>= fun v => pure (op.apply v)).reads.Sublist f.paths
    rwa [reads_bind_silent fun _ => rfl]
  | binary op f g ihf ihg =>
    have hpaths : (binary op f g).paths = f.paths ++ g.paths := List.map_append
    rw [recursiveRun_binary, hpaths]
    exact reads_bind_sublist ihf fun left => op.apply_reads_sublist left ihg
  | conditional c t e ihc iht ihe =>
    have hpaths : (conditional c t e).paths = c.paths ++ (t.paths ++ e.paths) := by
      simp [paths, referred]
    rw [hpaths]
    refine reads_bind_sublist ihc fun v => ?_
    split
    · exact iht.trans (List.sublist_append_left _ _)
    · split
      · exact List.nil_sublist _
      · exact ihe.trans (List.sublist_append_right _ _)
  | contains h n ihh ihn =>
    have hpaths : (contains h n).paths = h.paths ++ n.paths := List.map_append
    rw [hpaths]
    refine reads_bind_sublist ihh fun haystack => ?_
    rw [reads_bind_silent]
    · exact ihn
    · intro needle
      rw [reads_bind_silent fun _ => rfl, haystack.holds_reads]
  | length f ih =>
    change (f.recursiveRun context >>= fun v => pure (Value.int v.size)).reads.Sublist f.paths
    rwa [reads_bind_silent fun _ => rfl]

end Formula

/-- What is read, be it that the evaluation fails or not, are values of reference tokens, each once at most and in the
order of the text. -/
theorem reads_in_source_order (source : String) (tokens : List Token) (limit : Int) (f : Formula)
    (ht : tokenize source = .ok tokens) (hf : parse tokens limit = .ok f) (context : Context) :
    (f.run context).reads.Sublist ((tokens.filterMap reference?).map (·.2)) := by
  have hl := limit_of_parse hf
  obtain ⟨body, rfl, hb⟩ := tokenize_ok ht
  obtain ⟨n, -, hd⟩ := derives_of_parse hl hb hf
  have hbody : (body.filterMap reference?).map (·.2) = f.paths := by rw [← hd.referred_eq, Formula.paths]
  have hend : [eof].filterMap reference? = [] := rfl
  rw [List.filterMap_append, hend, List.append_nil, hbody, Formula.run_eq_recursiveRun]
  exact f.recursiveRun_reads_sublist context

/-- The branch not taken is passed over, and the paths after it are still read in their turn. -/
theorem branch_passed_over :
    let context := Context.ofEntries [(.text "a", .bool true), (.text "b", .int 1), (.text "c", .int 2)]
    let tokens := [ofWord "if".toList, spelled .lparen ['('], ofWord "fm.a".toList, spelled .comma [','],
      ofWord "file.b".toList, spelled .comma [','], ofWord "fm.a".toList, spelled .rparen [')'], spelled .plus ['+'],
      ofWord "fm.c".toList, eof]
    tokenize "if(fm.a, file.b, fm.a) + fm.c" = .ok tokens ∧ ∃ f, parse tokens 2 = .ok f ∧
      (f.run context).reads = [.text "a", .text "b", .text "c"] ∧
      (f.run context).reads.Sublist [.text "a", .text "b", .text "a", .text "c"] := by
  intro context tokens
  have ht : tokenize "if(fm.a, file.b, fm.a) + fm.c" = .ok tokens := by cbv
  exact ⟨ht, _, rfl, rfl, reads_in_source_order _ _ 2 _ ht rfl context⟩

end NoteFormula

import NoteFormula.Proofs.CompleteFormulas
import NoteFormula.Proofs.EvaluationSteps
import NoteFormula.Proofs.IntegerRange

/-! # Formulas that overflow

The evaluation of a formula has one way to fail: loose equality tests an integer that no double can hold for
being a number. Which formulas come to that in which context is told by their parts, in the order in which they
are evaluated.
-/
namespace NoteFormula

theorem bind_eq_error_iff {ε α β : Type} {r : Except ε α} {next : α → Except ε β} {fault : ε} :
    (r >>= next) = .error fault ↔ r = .error fault ∨ ∃ a, r = .ok a ∧ next a = .error fault := by
  cases r with
  | error other =>
    change Except.error other = Except.error fault ↔ _
    simp
  | ok a =>
    change next a = Except.error fault ↔ _
    simp

namespace Value

def Oversized (v : Value) : Prop := ∃ n : Int, v = .int n ∧ 2 ^ 970 * (2 ^ 54 - 1) ≤ n.natAbs

theorem oversized_scaled {m : Nat} (h : 2 ^ 54 - 1 ≤ m) : (int (2 ^ 970 * m : Nat)).Oversized :=
  ⟨_, rfl, by rw [Int.natAbs_natCast]; exact Nat.mul_le_mul_left _ h⟩

/-- Loose equality of the two comes to test an oversized integer: the left side always, the right side only if
the left one reads as a number, and neither if one of them is absent. -/
def Overtaxes (left right : Value) : Prop :=
  left.isAbsent = false ∧ right.isAbsent = false ∧ (left.Oversized ∨ left.asExact ≠ .nan ∧ right.Oversized)

variable {v left right : Value}

theorem readsNan_int (n : Int) :
    (int n).readsNan = if Decimal.exceedsDouble n then .error .integerTooLarge else .ok false := rfl

theorem readsNan_other (h : ∀ n, v ≠ int n) : v.readsNan = .ok (v.asExact == .nan) := by
  unfold readsNan
  split
  · rename_i n
    exact absurd rfl (h n)
  · rfl

theorem int_or_other (v : Value) : (∃ n, v = int n) ∨ ∀ n, v ≠ int n := by
  cases v with
  | int n => exact Or.inl ⟨n, rfl⟩
  | _ => exact Or.inr fun _ => Value.noConfusion

theorem readsNan_error_iff : v.readsNan = .error .integerTooLarge ↔ v.Oversized := by
  rcases v.int_or_other with ⟨n, rfl⟩ | hv
  · rw [readsNan_int]
    constructor
    · intro h
      split at h
      · rename_i hn
        exact ⟨n, rfl, (Decimal.exceedsDouble_iff n).mp hn⟩
      · cases h
    · rintro ⟨m, hm, hlarge⟩
      cases hm
      exact if_pos ((Decimal.exceedsDouble_iff n).mpr hlarge)
  · rw [readsNan_other hv]
    constructor
    · intro h
      cases h
    · rintro ⟨n, hn, -⟩
      exact absurd hn (hv n)

theorem readsNan_ok {b : Bool} (h : v.readsNan = .ok b) : b = true ↔ v.asExact = .nan := by
  rcases v.int_or_other with ⟨n, rfl⟩ | hv
  · rw [readsNan_int] at h
    split at h
    · cases h
    · cases h
      exact iff_of_false Bool.false_ne_true Exact.noConfusion
  · rw [readsNan_other hv] at h
    rw [← Except.ok.inj h]
    exact beq_iff_eq

theorem looselyEqual_present (hl : left.isAbsent = false) (hr : right.isAbsent = false) :
    left.looselyEqual right = left.readsNan >>= fun leftNan =>
      if leftNan then .ok (sameText left right) else right.readsNan >>= fun rightNan =>
        if rightNan then .ok (sameText left right) else .ok (left.asExact == right.asExact) := by
  unfold looselyEqual
  split
  · cases hl
  · cases hr
  · rfl

theorem looselyEqual_absent (h : left.isAbsent = true ∨ right.isAbsent = true) :
    left.looselyEqual right = .ok (left.isAbsent && right.isAbsent) := by
  rcases h with h | h
  · cases left with
    | absent => rfl
    | _ => cases h
  · cases right with
    | absent => cases left <;> rfl
    | _ => cases h

theorem looselyEqual_error_iff : left.looselyEqual right = .error .integerTooLarge ↔ left.Overtaxes right := by
  by_cases hpresent : left.isAbsent = false ∧ right.isAbsent = false
  · obtain ⟨hl, hr⟩ := hpresent
    rw [looselyEqual_present hl hr, bind_eq_error_iff, readsNan_error_iff, Overtaxes]
    simp only [hl, hr, true_and]
    -- The right side is tested only if the left one passes.
    by_cases hoversized : left.Oversized
    · exact iff_of_true (Or.inl hoversized) (Or.inl hoversized)
    rw [or_iff_right hoversized, or_iff_right hoversized]
    constructor
    · rintro ⟨leftNan, hleft, hrest⟩
      cases leftNan with
      | true => cases hrest
      | false =>
        rcases bind_eq_error_iff.mp hrest with hright | ⟨rightNan, -, hrest⟩
        · exact ⟨fun h => Bool.false_ne_true ((readsNan_ok hleft).mpr h), readsNan_error_iff.mp hright⟩
        · cases rightNan <;> cases hrest
    · rintro ⟨hnumber, hlarge⟩
      cases hleft : left.readsNan with
      | error fault =>
        cases fault
        exact absurd (readsNan_error_iff.mp hleft) hoversized
      | ok leftNan =>
        cases leftNan with
        | true => exact absurd ((readsNan_ok hleft).mp rfl) hnumber
        | false => exact ⟨false, rfl, bind_eq_error_iff.mpr (Or.inl (readsNan_error_iff.mpr hlarge))⟩
  · have habsent : left.isAbsent = true ∨ right.isAbsent = true := by
      cases hl : left.isAbsent <;> cases hr : right.isAbsent <;> simp_all
    rw [looselyEqual_absent habsent]
    exact ⟨fun h => (by cases h), fun h => absurd ⟨h.1, h.2.1⟩ hpresent⟩

end Value

namespace Formula

inductive Overflows (context : Context) : Formula → Prop
  | operand {op f} : Overflows context f → Overflows context (.unary op f)
  | left {op f g} : Overflows context f → Overflows context (.binary op f g)
  | right {op f g v} : f.evaluate context = .ok v → op.settles v = false → Overflows context g →
      Overflows context (.binary op f g)
  | equality {op f g v w} : op = .equals ∨ op = .notEquals → f.evaluate context = .ok v →
      g.evaluate context = .ok w → v.Overtaxes w → Overflows context (.binary op f g)
  | condition {c t e} : Overflows context c → Overflows context (.conditional c t e)
  | thenBranch {c t e v} : c.evaluate context = .ok v → v.truthy = true → Overflows context t →
      Overflows context (.conditional c t e)
  | elseBranch {c t e v} : c.evaluate context = .ok v → v.truthy = false → Overflows context e →
      Overflows context (.conditional c t e)
  | haystack {h n} : Overflows context h → Overflows context (.contains h n)
  | needle {h n v} : h.evaluate context = .ok v → Overflows context n → Overflows context (.contains h n)
  /-- The items are compared from the first to the first that is equal. -/
  | member {h n v w items before item after} : h.evaluate context = .ok v → v = .list items ∨ v = .tuple items →
      n.evaluate context = .ok w → items = before ++ item :: after →
      (∀ u ∈ before, u.looselyEqual w = .ok false) → item.Overtaxes w → Overflows context (.contains h n)
  | length {f} : Overflows context f → Overflows context (.length f)

end Formula

open Formula

variable {context : Context} {f g h n c t e : Formula}

theorem Run.looselyEqual_error_iff {left right : Value} :
    (Run.looselyEqual left right).outcome = .error (.equality .integerTooLarge) ↔ left.Overtaxes right := by
  rw [← Value.looselyEqual_error_iff]
  change (left.looselyEqual right).mapError EvalFault.equality = _ ↔ _
  cases left.looselyEqual right with
  | ok b => exact iff_of_false (fun h => by cases h) (fun h => by cases h)
  | error fault => cases fault; exact iff_of_true rfl rfl

theorem Run.looselyEqual_ok_iff {left right : Value} {b : Bool} :
    (Run.looselyEqual left right).outcome = .ok b ↔ left.looselyEqual right = .ok b := by
  change (left.looselyEqual right).mapError EvalFault.equality = _ ↔ _
  cases left.looselyEqual right with
  | ok c => exact Iff.intro (fun h => by cases h; rfl) (fun h => by cases h; rfl)
  | error fault => exact iff_of_false (fun h => by cases h) (fun h => by cases h)

theorem BinaryOp.combine_error_iff {op : BinaryOp} {left right : Value} :
    (op.combine left right).outcome = .error (.equality .integerTooLarge) ↔
      (op = .equals ∨ op = .notEquals) ∧ left.Overtaxes right := by
  cases op with
  | equals | notEquals =>
    refine Iff.trans ?_ (and_iff_right (by simp)).symm
    rw [← Run.looselyEqual_error_iff, combine, Run.outcome_bind, bind_eq_error_iff]
    exact or_iff_left (by rintro ⟨_, _, h⟩; cases h)
  | _ => exact iff_of_false (fun h => by cases h) (fun h => by simp at h)

theorem anyLooselyEqual_cons (needle item : Value) (items : List Value) :
    (Value.anyLooselyEqual needle (item :: items)).outcome = (Run.looselyEqual item needle).outcome >>= fun found =>
      if found then .ok true else (Value.anyLooselyEqual needle items).outcome := by
  refine (Run.outcome_bind ..).trans (congrArg _ (funext fun found => ?_))
  cases found <;> rfl

/-- The search fails at the first item that makes the test fail, unless it has ended before. -/
theorem anyLooselyEqual_error_iff {needle : Value} {items : List Value} :
    (Value.anyLooselyEqual needle items).outcome = .error (.equality .integerTooLarge) ↔
      ∃ before item after, items = before ++ item :: after ∧ (∀ u ∈ before, u.looselyEqual needle = .ok false) ∧
        item.Overtaxes needle := by
  induction items with
  | nil =>
    refine iff_of_false (fun h => by cases h) ?_
    rintro ⟨before, item, after, h, -⟩
    simp at h
  | cons first items ih =>
    rw [anyLooselyEqual_cons, bind_eq_error_iff, Run.looselyEqual_error_iff]
    constructor
    · rintro (htaxed | ⟨found, hfirst, hrest⟩)
      · exact ⟨[], first, items, rfl, by simp, htaxed⟩
      · cases found with
        | true => cases hrest
        | false =>
          obtain ⟨before, item, after, rfl, hbefore, htaxed⟩ := ih.mp hrest
          refine ⟨first :: before, item, after, rfl, List.forall_mem_cons.mpr ⟨?_, hbefore⟩, htaxed⟩
          exact Run.looselyEqual_ok_iff.mp hfirst
    · rintro ⟨before, item, after, hitems, hbefore, htaxed⟩
      cases before with
      | nil =>
        cases hitems
        exact Or.inl htaxed
      | cons u before =>
        cases hitems
        obtain ⟨hfirst, hbefore⟩ := List.forall_mem_cons.mp hbefore
        exact Or.inr ⟨false, Run.looselyEqual_ok_iff.mpr hfirst, ih.mpr ⟨before, item, after, rfl, hbefore, htaxed⟩⟩

theorem holds_error_iff {haystack needle : Value} :
    (haystack.holds needle).outcome = .error (.equality .integerTooLarge) ↔
      ∃ items, (haystack = .list items ∨ haystack = .tuple items) ∧
        (Value.anyLooselyEqual needle items).outcome = .error (.equality .integerTooLarge) := by
  unfold Value.holds
  split
  · simp
  · simp
  · refine iff_of_false (fun h => ?_) (by simp)
    split at h <;> cases h
  · rename_i hlist htuple _
    refine iff_of_false (fun h => by cases h) ?_
    rintro ⟨items, rfl | rfl, -⟩
    · exact hlist items rfl
    · exact htuple items rfl

section Parts

def FailsExactly (context : Context) (f : Formula) : Prop :=
  f.evaluate context = .error (.equality .integerTooLarge) ↔ f.Overflows context

theorem FailsExactly.reference (space : Namespace) (path : Value) : FailsExactly context (.reference space path) := by
  refine iff_of_false (fun h => ?_) (fun h => by cases h)
  rw [evaluate_reference] at h
  cases hp : context path <;> rw [hp] at h <;> cases h

theorem FailsExactly.unary (hf : FailsExactly context f) (op : UnaryOp) : FailsExactly context (.unary op f) := by
  unfold FailsExactly at hf ⊢
  rw [evaluate_unary, bind_eq_error_iff, hf]
  constructor
  · rintro (hf | ⟨v, -, hv⟩)
    · exact .operand hf
    · cases hv
  · intro h
    cases h with
    | operand hf => exact Or.inl hf

theorem FailsExactly.length (hf : FailsExactly context f) : FailsExactly context (.length f) := by
  unfold FailsExactly at hf ⊢
  rw [evaluate_length, bind_eq_error_iff, hf]
  constructor
  · rintro (hf | ⟨v, -, hv⟩)
    · exact .length hf
    · cases hv
  · intro h
    cases h with
    | length hf => exact Or.inl hf

theorem FailsExactly.binary (hf : FailsExactly context f) (hg : FailsExactly context g) (op : BinaryOp) :
    FailsExactly context (.binary op f g) := by
  unfold FailsExactly at hf hg ⊢
  rw [evaluate_binary, bind_eq_error_iff, hf]
  constructor
  · rintro (hf | ⟨v, hv, hrest⟩)
    · exact .left hf
    · split at hrest
      · cases hrest
      · rename_i hopen
        rcases bind_eq_error_iff.mp hrest with hright | ⟨w, hw, hcombine⟩
        · exact .right hv (Bool.eq_false_iff.mpr hopen) (hg.mp hright)
        · obtain ⟨hop, htaxed⟩ := BinaryOp.combine_error_iff.mp hcombine
          exact .equality hop hv hw htaxed
  · intro h
    cases h with
    | left hf => exact Or.inl hf
    | right hv hopen hright =>
      refine Or.inr ⟨_, hv, ?_⟩
      rw [hopen]
      exact bind_eq_error_iff.mpr (Or.inl (hg.mpr hright))
    | @equality _ _ _ v w hop hv hw htaxed =>
      have hopen : op.settles v = false := by rcases hop with rfl | rfl <;> rfl
      refine Or.inr ⟨v, hv, ?_⟩
      rw [hopen]
      exact bind_eq_error_iff.mpr (Or.inr ⟨w, hw, BinaryOp.combine_error_iff.mpr ⟨hop, htaxed⟩⟩)

theorem FailsExactly.conditional (hc : FailsExactly context c) (ht : FailsExactly context t)
    (he : FailsExactly context e) : FailsExactly context (.conditional c t e) := by
  unfold FailsExactly at hc ht he ⊢
  rw [evaluate_conditional, bind_eq_error_iff, hc]
  constructor
  · rintro (hc | ⟨v, hv, hrest⟩)
    · exact .condition hc
    · split at hrest
      · rename_i htrue
        exact .thenBranch hv htrue (ht.mp hrest)
      · rename_i hfalse
        split at hrest
        · cases hrest
        · exact .elseBranch hv (Bool.eq_false_iff.mpr hfalse) (he.mp hrest)
  · intro h
    cases h with
    | condition hc => exact Or.inl hc
    | thenBranch hv htrue hthen =>
      refine Or.inr ⟨_, hv, ?_⟩
      rw [htrue]
      exact ht.mpr hthen
    | elseBranch hv hfalse helse =>
      have hpresent : e.isAbsent = false := by
        cases e with
        | absent => cases helse
        | _ => rfl
      refine Or.inr ⟨_, hv, ?_⟩
      rw [hfalse, hpresent]
      exact he.mpr helse

theorem FailsExactly.contains (hh : FailsExactly context h) (hn : FailsExactly context n) :
    FailsExactly context (.contains h n) := by
  unfold FailsExactly at hh hn ⊢
  rw [evaluate_contains, bind_eq_error_iff, hh]
  constructor
  · rintro (hh | ⟨v, hv, hrest⟩)
    · exact .haystack hh
    · rcases bind_eq_error_iff.mp hrest with hneedle | ⟨w, hw, hrest⟩
      · exact .needle hv (hn.mp hneedle)
      · rcases bind_eq_error_iff.mp hrest with hholds | ⟨found, -, hdone⟩
        · obtain ⟨items, hitems, hany⟩ := holds_error_iff.mp hholds
          obtain ⟨before, item, after, hsplit, hbefore, htaxed⟩ := anyLooselyEqual_error_iff.mp hany
          exact .member hv hitems hw hsplit hbefore htaxed
        · cases hdone
  · intro hover
    cases hover with
    | haystack hh => exact Or.inl hh
    | needle hv hneedle => exact Or.inr ⟨_, hv, bind_eq_error_iff.mpr (Or.inl (hn.mpr hneedle))⟩
    | member hv hitems hw hsplit hbefore htaxed =>
      have hany := anyLooselyEqual_error_iff.mpr ⟨_, _, _, hsplit, hbefore, htaxed⟩
      have hholds := holds_error_iff.mpr ⟨_, hitems, hany⟩
      exact Or.inr ⟨_, hv, bind_eq_error_iff.mpr (Or.inr ⟨_, hw, bind_eq_error_iff.mpr (Or.inl hholds)⟩)⟩

theorem failsExactly (context : Context) (f : Formula) : FailsExactly context f := by
  induction f with
  | absent => exact iff_of_false (fun h => by cases h) (fun h => by cases h)
  | literal v => exact iff_of_false (fun h => by cases h) (fun h => by cases h)
  | reference space path => exact .reference space path
  | unary op f ih => exact ih.unary op
  | binary op f g ihf ihg => exact ihf.binary ihg op
  | conditional c t e ihc iht ihe => exact ihc.conditional iht ihe
  | contains h n ihh ihn => exact ihh.contains ihn
  | length f ih => exact ih.length

end Parts

def Settled {α : Type} (outcome : Except EvalFault α) : Prop :=
  (∃ a, outcome = .ok a) ∨ outcome = .error (.equality .integerTooLarge)

theorem Settled.bind {α β : Type} {outcome : Except EvalFault α} {next : α → Except EvalFault β} (h : Settled outcome)
    (hnext : ∀ a, Settled (next a)) : Settled (outcome >>= next) := by
  rcases h with ⟨a, rfl⟩ | rfl
  · exact hnext a
  · exact Or.inr rfl

theorem settled_ok {α : Type} (a : α) : Settled (.ok a : Except EvalFault α) := Or.inl ⟨a, rfl⟩

theorem Run.looselyEqual_settled (left right : Value) : Settled (Run.looselyEqual left right).outcome := by
  change Settled ((left.looselyEqual right).mapError EvalFault.equality)
  cases left.looselyEqual right with
  | ok b => exact settled_ok b
  | error fault => cases fault; exact Or.inr rfl

theorem BinaryOp.combine_settled (op : BinaryOp) (left right : Value) : Settled (op.combine left right).outcome := by
  cases op with
  | equals | notEquals =>
    rw [combine, Run.outcome_bind]
    exact (Run.looselyEqual_settled left right).bind fun b => settled_ok _
  | _ => exact settled_ok _

theorem holds_settled (haystack needle : Value) : Settled (haystack.holds needle).outcome := by
  have hany (items : List Value) : Settled (Value.anyLooselyEqual needle items).outcome := by
    induction items with
    | nil => exact settled_ok false
    | cons item items ih =>
      rw [anyLooselyEqual_cons]
      refine (Run.looselyEqual_settled item needle).bind fun found => ?_
      cases found with
      | true => exact settled_ok true
      | false => exact ih
  unfold Value.holds
  split
  · exact hany _
  · exact hany _
  · split <;> exact settled_ok _
  · exact settled_ok _

/-- A complete formula whose references are answered has no other failure. -/
theorem Formula.Complete.settled {literal : Value → Prop} {reference : Namespace → Value → Prop}
    (h : f.Complete literal reference) (hr : ∀ space path, reference space path → ∃ v, context path = .ok v) :
    Settled (f.evaluate context) := by
  induction h with
  | literal => exact settled_ok _
  | reference hp =>
    obtain ⟨v, hv⟩ := hr _ _ hp
    rw [evaluate_reference, hv]
    exact settled_ok v
  | unary _ ih =>
    rw [evaluate_unary]
    exact ih.bind fun v => settled_ok _
  | binary _ _ ihf ihg =>
    rw [evaluate_binary]
    refine ihf.bind fun v => ?_
    split
    · exact settled_ok v
    · exact ihg.bind fun w => BinaryOp.combine_settled _ v w
  | guarded _ _ ihc ihf =>
    rw [evaluate_conditional]
    refine ihc.bind fun v => ?_
    split
    · exact ihf
    · exact settled_ok _
  | @choice c f g _ _ hg ihc ihf ihg =>
    rw [evaluate_conditional]
    refine ihc.bind fun v => ?_
    rw [hg.not_absent]
    split
    · exact ihf
    · exact ihg
  | contains _ _ ihf ihg =>
    rw [evaluate_contains]
    exact ihf.bind fun haystack => ihg.bind fun needle => (holds_settled haystack needle).bind fun _ => settled_ok _
  | length _ ih =>
    rw [evaluate_length]
    exact ih.bind fun v => settled_ok _

end NoteFormula

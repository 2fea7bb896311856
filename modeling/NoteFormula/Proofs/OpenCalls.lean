import NoteFormula.Proofs.RecursiveEvaluation
import NoteFormula.Proofs.ReferenceOrder

/-! # Open calls

How deep the evaluation nests. Every part that is evaluated takes a call of its own, only a left spine is folded within
one. A metered walk keeps the greatest number of calls that are open at once beside its run. Within a level of nesting
the tiers of the grammar open seven, one inside the other, so a formula that is read within a limit needs no more than
seven calls for each level of it, however long its chains are.
-/
namespace NoteFormula

open Token

/-- A run, and the greatest number of calls that are open at once in it. -/
structure Metered (α : Type) where
  run : Run α
  depth : Nat

namespace Metered

variable {α β : Type}

def still (run : Run α) : Metered α := ⟨run, 0⟩

def call (m : Metered α) : Metered α := ⟨m.run, m.depth + 1⟩

protected def bind (m : Metered α) (next : α → Metered β) : Metered β where
  run := m.run >>= fun a => (next a).run
  depth := match m.run.outcome with
    | .error _ => m.depth
    | .ok a => max m.depth (next a).depth

instance : Monad Metered where
  pure a := still (pure a)
  bind := Metered.bind

/-- Passes a value up through the operators that wait for it. Under them it takes a call of its own. -/
def unwind (value : Metered Value) : List (Value → Metered Value) → Metered Value
  | [] => value
  | operator :: pending => (operator :: pending).foldl (fun m operator => m >>= operator) value.call

end Metered

open Metered

def BinaryOp.metered (op : BinaryOp) (left : Value) (right : Unit → Metered Value) : Metered Value :=
  if op.settles left then pure left
  else right () >>= fun value => still (op.combine left value)

namespace Formula

/-- The walk of the evaluation with its calls. To go down a left spine takes none. -/
def meteredUnder (context : Context) : Formula → List (Value → Metered Value) → Metered Value
  | absent, pending => (still (.fail (.notFormula {}))).unwind pending
  | literal v, pending => (still (pure v)).unwind pending
  | reference _ path, pending => (still (.ask context path)).unwind pending
  | unary op f, pending =>
    Metered.unwind (do return op.apply (← (meteredUnder context f []).call)) pending
  | binary op f g, pending =>
    meteredUnder context f ((fun left => op.metered left fun _ => (meteredUnder context g []).call) :: pending)
  | conditional c t e, pending =>
    Metered.unwind (do
      if (← (meteredUnder context c []).call).truthy then (meteredUnder context t []).call
      else if e.isAbsent then return .bool false
      else (meteredUnder context e []).call) pending
  | contains h n, pending =>
    Metered.unwind (do
      let haystack ← (meteredUnder context h []).call
      let needle ← (meteredUnder context n []).call
      return .bool (← still (haystack.holds needle))) pending
  | length f, pending =>
    Metered.unwind (do return .int (← (meteredUnder context f []).call).size) pending

def metered (context : Context) (f : Formula) : Metered Value := (f.meteredUnder context []).call

def meteredLeft (context : Context) : Formula → Metered Value
  | binary op f g => (binary op f g).meteredUnder context []
  | f => f.metered context

end Formula

namespace Metered

variable {α β : Type} {m : Metered α} {next : α → Metered β} {bound : Nat}

theorem run_foldl (pending : List (Value → Metered Value)) (m : Metered Value) :
    (pending.foldl (fun m operator => m >>= operator) m).run =
      Formula.unwind m.run (pending.map fun operator v => (operator v).run) := by
  induction pending generalizing m with
  | nil => rfl
  | cons operator pending ih => exact ih (m >>= operator)

theorem run_unwind (value : Metered Value) (pending : List (Value → Metered Value)) :
    (value.unwind pending).run = Formula.unwind value.run (pending.map fun operator v => (operator v).run) := by
  cases pending with
  | nil => rfl
  | cons operator pending => exact run_foldl (operator :: pending) value.call

theorem depth_bind_le (hm : m.depth ≤ bound) (hnext : ∀ a, (next a).depth ≤ bound) : (m >>= next).depth ≤ bound := by
  change (match m.run.outcome with | .error _ => m.depth | .ok a => max m.depth (next a).depth) ≤ bound
  split
  · exact hm
  · exact max_le hm (hnext _)

theorem depth_still_le (run : Run α) : (still run).depth ≤ bound := Nat.zero_le bound

theorem depth_apply_le {op : BinaryOp} {left : Value} {right : Metered Value} (h : right.depth ≤ bound) :
    (op.metered left fun _ => right).depth ≤ bound := by
  unfold BinaryOp.metered
  split
  · exact depth_still_le _
  · exact depth_bind_le h fun _ => depth_still_le _

end Metered

namespace Formula

variable {context : Context} {f g c t e : Formula} {bound : Nat}

/-- The meter does not show: the walk runs as it does without. -/
theorem run_meteredUnder (context : Context) (f : Formula) (pending : List (Value → Metered Value)) :
    (f.meteredUnder context pending).run =
      f.evaluateUnder context (pending.map fun operator v => (operator v).run) := by
  induction f generalizing pending with
  | absent | literal | reference => exact run_unwind _ pending
  | unary op f ih =>
    have hf : (f.meteredUnder context []).run = f.evaluateUnder context [] := ih []
    rw [meteredUnder, run_unwind, evaluateUnder, ← hf]
    rfl
  | binary op f g ihf ihg =>
    have hg : (g.meteredUnder context []).run = g.evaluateUnder context [] := ihg []
    have hoperator (left : Value) : (op.metered left fun _ => (g.meteredUnder context []).call).run =
        op.apply left fun _ => g.evaluateUnder context [] := by
      rw [← hg, BinaryOp.metered, BinaryOp.apply]
      split <;> rfl
    rw [meteredUnder, ihf, evaluateUnder, List.map_cons, funext hoperator]
  | conditional c t e ihc iht ihe =>
    have hc : (c.meteredUnder context []).run = c.evaluateUnder context [] := ihc []
    have ht : (t.meteredUnder context []).run = t.evaluateUnder context [] := iht []
    have he : (e.meteredUnder context []).run = e.evaluateUnder context [] := ihe []
    have hbranch (v : Value) : (if v.truthy then (t.meteredUnder context []).call
          else if e.isAbsent then pure (Value.bool false) else (e.meteredUnder context []).call : Metered Value).run =
        if v.truthy then t.evaluateUnder context []
          else if e.isAbsent then pure (Value.bool false) else e.evaluateUnder context [] := by
      rw [← ht, ← he]
      split
      · rfl
      · split <;> rfl
    rw [meteredUnder, run_unwind, evaluateUnder, ← hc, ← funext hbranch]
    rfl
  | contains h n ihh ihn =>
    have hh : (h.meteredUnder context []).run = h.evaluateUnder context [] := ihh []
    have hn : (n.meteredUnder context []).run = n.evaluateUnder context [] := ihn []
    rw [meteredUnder, run_unwind, evaluateUnder, ← hh, ← hn]
    rfl
  | length f ih =>
    have hf : (f.meteredUnder context []).run = f.evaluateUnder context [] := ih []
    rw [meteredUnder, run_unwind, evaluateUnder, ← hf]
    rfl

theorem run_metered (context : Context) (f : Formula) : (f.metered context).run = f.run context :=
  run_meteredUnder context f []

/-- Operators that wait get what is left of them, whether it is more of the spine or what is below it. -/
theorem meteredUnder_cons (f : Formula) (operator : Value → Metered Value) (pending : List (Value → Metered Value)) :
    f.meteredUnder context (operator :: pending) =
      (operator :: pending).foldl (fun m operator => m >>= operator) (f.meteredLeft context) := by
  induction f generalizing operator pending with
  | binary op f g ihf _ =>
    rw [meteredLeft, meteredUnder, ihf, meteredUnder, ihf]
    rfl
  | _ => rfl

theorem meteredLeft_binary (op : BinaryOp) : (binary op f g).meteredLeft context =
    f.meteredLeft context >>= fun left => op.metered left fun _ => g.metered context := by
  rw [meteredLeft, meteredUnder, meteredUnder_cons]
  rfl

theorem depth_meteredLeft_le (context : Context) (f : Formula) :
    (f.meteredLeft context).depth ≤ (f.metered context).depth := by
  cases f with
  | binary => exact Nat.le_succ _
  | _ => exact Nat.le_refl _

/-- As a left side a formula saves its own call at most. -/
theorem depth_metered_le (context : Context) (f : Formula) :
    (f.metered context).depth ≤ (f.meteredLeft context).depth + 1 := by
  cases f with
  | binary => exact Nat.le_refl _
  | _ => exact Nat.le_succ _

theorem depth_left_le (op : BinaryOp) (hf : (f.meteredLeft context).depth ≤ bound)
    (hg : (g.metered context).depth ≤ bound) : ((binary op f g).meteredLeft context).depth ≤ bound := by
  rw [meteredLeft_binary]
  exact depth_bind_le hf fun left => depth_apply_le hg

theorem depth_unary_le (op : UnaryOp) (hf : (f.metered context).depth ≤ bound) :
    ((unary op f).metered context).depth ≤ bound + 1 :=
  Nat.succ_le_succ (depth_bind_le hf fun _ => depth_still_le _)

theorem depth_length_le (hf : (f.metered context).depth ≤ bound) :
    ((length f).metered context).depth ≤ bound + 1 :=
  Nat.succ_le_succ (depth_bind_le hf fun _ => depth_still_le _)

theorem depth_contains_le (hf : (f.metered context).depth ≤ bound) (hg : (g.metered context).depth ≤ bound) :
    ((contains f g).metered context).depth ≤ bound + 1 := by
  refine Nat.succ_le_succ (depth_bind_le hf fun haystack => depth_bind_le hg fun needle => ?_)
  exact depth_bind_le (depth_still_le _) fun _ => depth_still_le _

theorem depth_conditional_le (hc : (c.metered context).depth ≤ bound) (ht : (t.metered context).depth ≤ bound)
    (he : e.isAbsent = false → (e.metered context).depth ≤ bound) :
    ((conditional c t e).metered context).depth ≤ bound + 1 := by
  refine Nat.succ_le_succ (depth_bind_le hc fun v => ?_)
  split
  · exact ht
  · split
    · exact depth_still_le _
    · rename_i hpresent
      exact he (Bool.eq_false_of_not_eq_true hpresent)

/-- A left spine takes one call, whatever operators it mixes. -/
theorem depth_spine_le (hbase : (f.leftSpine.1.metered context).depth ≤ bound)
    (hsides : ∀ side ∈ f.leftSpine.2, (side.2.metered context).depth ≤ bound) :
    (f.meteredLeft context).depth ≤ bound := by
  induction f with
  | binary op f g ihf _ =>
    rw [leftSpine] at hbase hsides
    simp only [List.forall_mem_append, List.forall_mem_singleton] at hsides
    exact depth_left_le op (ihf hbase hsides.1) hsides.2
  | _ => exact hbase

end Formula

open Formula

/-- The calls that a formula of a category may take if it nests that deep: seven for each level, and one for each tier
from its own down to the operands. As the left side of an operator it has one less. -/
def Category.Allows (context : Context) (f : Formula) : Category → Nat → Prop
  | whole, n => (f.metered context).depth ≤ 7 * n
  | tier level, n => (f.metered context).depth + level ≤ 7 * n + 7 ∧
      (level < 6 → (f.meteredLeft context).depth + level ≤ 7 * n + 6)

theorem Category.allows_operand {context : Context} {f : Formula} {n : Nat}
    (h : (f.metered context).depth ≤ 7 * n + 1) : (Category.tier 6).Allows context f n :=
  ⟨by omega, fun hlt => absurd hlt (by decide)⟩

/-- The operators of a tier fold their left sides within one call, and their right sides are of the next tier. -/
theorem Derives.depth_le {category : Category} {ts : List Token} {f : Formula} {n : Nat}
    (h : Derives category ts f n) (context : Context) : category.Allows context f n := by
  induction h with
  | @whole _ f n _ ih =>
    obtain ⟨hcall, -⟩ := ih
    change (f.metered context).depth ≤ 7 * (n + 1)
    omega
  | @tighter level _ f n hlevel _ ih =>
    obtain ⟨hcall, -⟩ := ih
    have hleft := depth_meteredLeft_le context f
    exact ⟨by omega, fun _ => by omega⟩
  | @chain level op t _ _ f g m n hop _ _ ihf ihg =>
    have hlevel := TokenKind.binary?_level_lt hop
    obtain ⟨-, hleft⟩ := ihf
    obtain ⟨hright, -⟩ := ihg
    have hf := hleft hlevel
    have hspine : ((Formula.binary op f g).meteredLeft context).depth ≤ 7 * max m n + 6 - level :=
      depth_left_le op (by omega) (by omega)
    have hcall := depth_metered_le context (binary op f g)
    exact ⟨by omega, fun _ => by omega⟩
  | @unary op _ _ f n _ _ ih =>
    obtain ⟨hf, -⟩ := ih
    have hcall : ((Formula.unary op f).metered context).depth ≤ (7 * n + 1) + 1 := depth_unary_le op (by omega)
    exact Category.allows_operand (by omega)
  | literal => exact Category.allows_operand (Nat.le_refl 1)
  | reference => exact Category.allows_operand (Nat.le_refl 1)
  | group _ _ _ ih => exact Category.allows_operand (Nat.le_succ_of_le ih)
  | @test _ _ _ _ _ n _ _ hc _ ih =>
    have hpos := hc.nesting_pos
    have hbranch (b : Bool) : ((Formula.literal (.bool b)).metered context).depth ≤ 7 * n := by
      change 1 ≤ 7 * n
      omega
    exact Category.allows_operand (depth_conditional_le ih (hbranch true) fun _ => hbranch false)
  | @guarded _ _ _ _ _ _ c f m n _ _ _ _ _ _ ihc ihf =>
    change (c.metered context).depth ≤ 7 * m at ihc
    change (f.metered context).depth ≤ 7 * n at ihf
    refine Category.allows_operand (depth_conditional_le (by omega) (by omega) ?_)
    rintro ⟨⟩
  | @choice _ _ _ _ _ _ _ _ c f g k m n _ _ _ _ _ _ _ _ ihc ihf ihg =>
    change (c.metered context).depth ≤ 7 * k at ihc
    change (f.metered context).depth ≤ 7 * m at ihf
    change (g.metered context).depth ≤ 7 * n at ihg
    exact Category.allows_operand (depth_conditional_le (by omega) (by omega) fun _ => by omega)
  | @contains _ _ _ _ _ _ f g m n _ _ _ _ _ _ ihf ihg =>
    change (f.metered context).depth ≤ 7 * m at ihf
    change (g.metered context).depth ≤ 7 * n at ihg
    exact Category.allows_operand (depth_contains_le (by omega) (by omega))
  | length _ _ _ _ ih => exact Category.allows_operand (depth_length_le ih)

/-- A formula that is read within a limit is evaluated with at most seven open calls for each level of the limit. The
metered walk is the one that runs, and in any formula a left spine takes one call more than what it joins. -/
theorem open_calls_within_limit (source : String) (tokens : List Token) (limit : Int) (f : Formula)
    (ht : tokenize source = .ok tokens) (hf : parse tokens limit = .ok f) (context : Context) :
    (f.metered context).run = f.run context ∧ (f.metered context).depth ≤ 7 * limit ∧
    ∀ (g : Formula) (bound : Nat), (g.leftSpine.1.metered context).depth ≤ bound →
      (∀ side ∈ g.leftSpine.2, (side.2.metered context).depth ≤ bound) → (g.metered context).depth ≤ bound + 1 := by
  have hl := limit_of_parse hf
  obtain ⟨body, rfl, hb⟩ := tokenize_ok ht
  obtain ⟨n, hn, hd⟩ := derives_of_parse hl hb hf
  have hdepth : (f.metered context).depth ≤ 7 * n := hd.depth_le context
  refine ⟨run_metered context f, by omega, fun g bound hbase hsides => ?_⟩
  exact (depth_metered_le context g).trans (Nat.succ_le_succ (depth_spine_le hbase hsides))

/-- One level of nesting and an operator of each tier: seven calls are open when the last factor is evaluated. -/
theorem six_tiers_open_seven :
    let yes := ofWord "true".toList
    let tokens := [ofWord "false".toList, spelled .or ['|', '|'], yes, spelled .and ['&', '&'], yes,
      spelled .eq ['=', '='], yes, spelled .gt ['>'], yes, spelled .plus ['+'], yes, spelled .star ['*'], yes, eof]
    let true' := literal (.bool true)
    let f := binary .or (literal (.bool false)) (binary .and true' (binary .equals true' (binary .greater true'
      (binary .add true' (binary .multiply true' true')))))
    tokenize "false || true && true == true > true + true * true" = .ok tokens ∧ parse tokens 1 = .ok f ∧
      (f.metered .empty).run = f.run .empty ∧ (f.metered .empty).depth ≤ (7 * 1 : Int) ∧
      (f.metered .empty).depth = 7 := by
  intro yes tokens true' f
  have ht : tokenize "false || true && true == true > true + true * true" = .ok tokens := by cbv
  have hf : parse tokens 1 = .ok f := rfl
  obtain ⟨hrun, hdepth, -⟩ := open_calls_within_limit _ _ 1 f ht hf .empty
  refine ⟨ht, hf, hrun, hdepth, ?_⟩
  rfl

end NoteFormula

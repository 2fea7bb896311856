import NoteFormula.Formula.Metrics
import NoteFormula.Proofs.Grammar

/-! # Formulas without missing parts

In a formula that a text stands for no part is missing, except that a conditional may lack its last branch.
Its depth, the number of its parts and its references, found by walks over a stack, are those of the recursion on its
parts.
-/
namespace NoteFormula

namespace Formula

/-- No part is missing but last branches, and each literal and each reference is of the given kind. -/
inductive Complete (literal : Value → Prop) (reference : Namespace → Value → Prop) : Formula → Prop
  | literal {v} : literal v → Complete literal reference (.literal v)
  | reference {space path} : reference space path → Complete literal reference (.reference space path)
  | unary {op f} : Complete literal reference f → Complete literal reference (.unary op f)
  | binary {op f g} : Complete literal reference f → Complete literal reference g →
      Complete literal reference (.binary op f g)
  | guarded {c f} : Complete literal reference c → Complete literal reference f →
      Complete literal reference (.conditional c f .absent)
  | choice {c f g} : Complete literal reference c → Complete literal reference f → Complete literal reference g →
      Complete literal reference (.conditional c f g)
  | contains {f g} : Complete literal reference f → Complete literal reference g →
      Complete literal reference (.contains f g)
  | length {f} : Complete literal reference f → Complete literal reference (.length f)

/-- The number of formulas on the longest way down; a missing part has none. -/
def height : Formula → Nat
  | absent => 0
  | literal _ | reference .. => 1
  | unary _ f | length f => height f + 1
  | binary _ f g | contains f g => max (height f) (height g) + 1
  | conditional c t e => max (height c) (max (height t) (height e)) + 1

def size : Formula → Nat
  | absent => 0
  | literal _ | reference .. => 1
  | unary _ f | length f => size f + 1
  | binary _ f g | contains f g => size f + size g + 1
  | conditional c t e => size c + size t + size e + 1

def referred : Formula → List (Namespace × Value)
  | absent | literal _ => []
  | reference space path => [(space, path)]
  | unary _ f | length f => referred f
  | binary _ f g | contains f g => referred f ++ referred g
  | conditional c t e => referred c ++ (referred t ++ referred e)

def addReferred (keys : Keys) (paths : List (Namespace × Value)) : Keys :=
  paths.foldl (fun keys r => keys.add r.1 r.2) keys

theorem addReferred_append (keys : Keys) (rs more : List (Namespace × Value)) :
    addReferred keys (rs ++ more) = addReferred (addReferred keys rs) more :=
  List.foldl_append

variable {literal : Value → Prop} {reference : Namespace → Value → Prop} {f : Formula}

theorem Complete.height_pos (h : f.Complete literal reference) : 1 ≤ f.height := by
  cases h <;> exact Nat.le_add_left 1 _

theorem Complete.not_absent (h : f.Complete literal reference) : f.isAbsent = false := by
  cases h <;> rfl

theorem Complete.children_choice {g : Formula} (hg : g.Complete literal reference) (c f : Formula) :
    (conditional c f g).children = .ok [c, f, g] := by
  rw [children, hg.not_absent, if_neg (by decide)]

theorem Complete.mono {literal' : Value → Prop} {reference' : Namespace → Value → Prop}
    (h : f.Complete literal reference) (hl : ∀ v, literal v → literal' v)
    (hr : ∀ space path, reference space path → reference' space path) : f.Complete literal' reference' := by
  induction h with
  | literal h => exact .literal (hl _ h)
  | reference h => exact .reference (hr _ _ h)
  | unary _ ih => exact .unary ih
  | binary _ _ ihf ihg => exact .binary ihf ihg
  | guarded _ _ ihc ihf => exact .guarded ihc ihf
  | choice _ _ _ ihc ihf ihg => exact .choice ihc ihf ihg
  | contains _ _ ihf ihg => exact .contains ihf ihg
  | length _ ih => exact .length ih

theorem depthFrom_cons {parts : List Formula} (h : f.children = .ok parts) (deepest depth : Nat)
    (stack : List (Formula × Nat)) : depthFrom deepest ((f, depth) :: stack) =
      depthFrom (max deepest depth) (parts.reverse.map (·, depth + 1) ++ stack) := by
  rw [depthFrom]
  split
  · rename_i hc
    rw [h] at hc
    cases hc
  · rename_i hc
    rw [h] at hc
    cases hc
    rfl

theorem max_part (deepest depth m : Nat) :
    max (max deepest (depth + 1)) (depth + 1 + m) = max deepest (depth + (m + 1)) := by
  omega

theorem max_next_part (deepest depth m n : Nat) :
    max (max deepest (depth + (m + 1))) (depth + 1 + n) = max deepest (depth + (max n m + 1)) := by
  omega

/-- By the time the stack below a formula is reached, all of its height has been met. -/
theorem Complete.depthFrom (h : f.Complete literal reference) (deepest depth : Nat) (stack : List (Formula × Nat)) :
    depthFrom deepest ((f, depth + 1) :: stack) = depthFrom (max deepest (depth + f.height)) stack := by
  induction h generalizing deepest depth stack with
  | literal | reference =>
    rw [depthFrom_cons rfl]
    rfl
  | @unary op f _ ih | @length f _ ih =>
    rw [depthFrom_cons rfl]
    change Formula.depthFrom _ ((f, depth + 1 + 1) :: stack) = _
    rw [ih, max_part]
    rfl
  | @binary op f g _ _ ihf ihg | @contains f g _ _ ihf ihg =>
    rw [depthFrom_cons rfl]
    change Formula.depthFrom _ ((g, depth + 1 + 1) :: (f, depth + 1 + 1) :: stack) = _
    rw [ihg, ihf, max_part, max_next_part]
    rfl
  | @guarded c f _ _ ihc ihf =>
    rw [depthFrom_cons rfl]
    change Formula.depthFrom _ ((f, depth + 1 + 1) :: (c, depth + 1 + 1) :: stack) = _
    rw [ihf, ihc, max_part, max_next_part, height, height, Nat.max_zero]
  | @choice c f g _ _ hg ihc ihf ihg =>
    rw [depthFrom_cons (hg.children_choice c f)]
    change Formula.depthFrom _ ((g, depth + 1 + 1) :: (f, depth + 1 + 1) :: (c, depth + 1 + 1) :: stack) = _
    rw [ihg, ihf, ihc, max_part, max_next_part, max_next_part]
    rfl

theorem countFrom_cons {parts : List Formula} (h : f.children = .ok parts) (count : Nat) (stack : List Formula) :
    countFrom count (f :: stack) = countFrom (count + 1) (parts.reverse ++ stack) := by
  rw [countFrom]
  split
  · rename_i hc
    rw [h] at hc
    cases hc
  · rename_i hc
    rw [h] at hc
    cases hc
    rfl

theorem Complete.countFrom (h : f.Complete literal reference) (count : Nat) (stack : List Formula) :
    countFrom count (f :: stack) = countFrom (count + f.size) stack := by
  induction h generalizing count stack with
  | literal | reference =>
    rw [countFrom_cons rfl]
    rfl
  | @unary op f _ ih | @length f _ ih =>
    rw [countFrom_cons rfl]
    change Formula.countFrom _ (f :: stack) = _
    rw [ih, size]
    congr 1
    omega
  | @binary op f g _ _ ihf ihg | @contains f g _ _ ihf ihg =>
    rw [countFrom_cons rfl]
    change Formula.countFrom _ (g :: f :: stack) = _
    rw [ihg, ihf, size]
    congr 1
    omega
  | @guarded c f _ _ ihc ihf =>
    rw [countFrom_cons rfl]
    change Formula.countFrom _ (f :: c :: stack) = _
    rw [ihf, ihc, size, size]
    congr 1
    omega
  | @choice c f g _ _ hg ihc ihf ihg =>
    rw [countFrom_cons (hg.children_choice c f)]
    change Formula.countFrom _ (g :: f :: c :: stack) = _
    rw [ihg, ihf, ihc, size]
    congr 1
    omega

theorem keysFrom_cons {parts : List Formula} (h : f.children = .ok parts) (keys : Keys) (stack : List Formula) :
    keysFrom keys (f :: stack) = keysFrom (match f with
      | Formula.reference space path => keys.add space path
      | _ => keys) (parts ++ stack) := by
  rw [keysFrom]
  split
  · rename_i hc
    rw [h] at hc
    cases hc
  · rename_i hc
    rw [h] at hc
    cases hc
    rfl

theorem Complete.keysFrom (h : f.Complete literal reference) (keys : Keys) (stack : List Formula) :
    keysFrom keys (f :: stack) = keysFrom (addReferred keys f.referred) stack := by
  induction h generalizing keys stack with
  | literal | reference =>
    rw [keysFrom_cons rfl]
    rfl
  | @unary op f _ ih | @length f _ ih =>
    rw [keysFrom_cons rfl]
    exact ih keys stack
  | @binary op f g _ _ ihf ihg | @contains f g _ _ ihf ihg =>
    rw [keysFrom_cons rfl]
    change Formula.keysFrom keys (f :: g :: stack) = _
    rw [ihf, ihg, ← addReferred_append]
    rfl
  | @guarded c f _ _ ihc ihf =>
    rw [keysFrom_cons rfl]
    change Formula.keysFrom keys (c :: f :: stack) = _
    rw [ihc, ihf, ← addReferred_append, referred, referred, List.append_nil]
  | @choice c f g _ _ hg ihc ihf ihg =>
    rw [keysFrom_cons (hg.children_choice c f)]
    change Formula.keysFrom keys (c :: f :: g :: stack) = _
    rw [ihc, ihf, ihg, ← addReferred_append, ← addReferred_append]
    rfl

theorem Complete.depth_eq (h : f.Complete literal reference) : f.depth = .ok f.height := by
  rw [depth, h.depthFrom, Formula.depthFrom, Nat.zero_add, Nat.zero_max]

theorem Complete.count_eq (h : f.Complete literal reference) : f.count = .ok f.size := by
  rw [count, h.countFrom, Formula.countFrom, Nat.zero_add]

theorem Complete.keys_eq (h : f.Complete literal reference) : f.keys = .ok (addReferred {} f.referred) := by
  rw [keys, h.keysFrom, Formula.keysFrom]

/-- The walks over a stack gather what the recursion on the parts does. -/
theorem Complete.metrics_eq (h : f.Complete literal reference) :
    f.metrics = .ok ⟨f.height, f.size, addReferred {} f.referred⟩ := by
  unfold metrics
  split
  · exact absurd h.not_absent (by decide)
  · rw [h.count_eq, h.keys_eq, h.depth_eq]
    rfl

end Formula

variable {literal : Value → Prop} {reference : Namespace → Value → Prop}

/-- What a derivation puts into a formula it takes from its tokens, apart from the truth values of a test. -/
theorem Derives.complete {category : Category} {ts : List Token} {f : Formula} {n : Nat}
    (h : Derives category ts f n) (hb : ∀ b, literal (.bool b))
    (hl : ∀ t ∈ ts, t.kind.isLiteral → literal t.value)
    (hr : ∀ t ∈ ts, ∀ space, t.kind.space? = some space → reference space t.value) :
    f.Complete literal reference := by
  induction h with
  | whole _ ih => exact ih hl hr
  | tighter _ _ ih => exact ih hl hr
  | chain _ _ _ ihf ihg =>
    simp only [List.forall_mem_append, List.forall_mem_cons] at hl hr
    exact .binary (ihf hl.1 hr.1) (ihg hl.2.2 hr.2.2)
  | unary _ _ ih =>
    exact .unary (ih (List.forall_mem_cons.mp hl).2 (List.forall_mem_cons.mp hr).2)
  | literal hk => exact .literal (hl _ List.mem_cons_self hk)
  | reference hk => exact .reference (hr _ List.mem_cons_self _ hk)
  | group _ _ _ ih =>
    simp only [List.forall_mem_append, List.forall_mem_cons] at hl hr
    exact ih hl.1.2 hr.1.2
  | test _ _ _ _ ih =>
    simp only [List.forall_mem_append, List.forall_mem_cons] at hl hr
    exact .choice (ih hl.1.2.2 hr.1.2.2) (.literal (hb true)) (.literal (hb false))
  | guarded _ _ _ _ _ _ ihc ihf =>
    simp only [List.forall_mem_append, List.forall_mem_cons] at hl hr
    exact .guarded (ihc hl.1.1.2.2 hr.1.1.2.2) (ihf hl.1.2.2 hr.1.2.2)
  | choice _ _ _ _ _ _ _ _ ihc ihf ihg =>
    simp only [List.forall_mem_append, List.forall_mem_cons] at hl hr
    exact .choice (ihc hl.1.1.1.2.2 hr.1.1.1.2.2) (ihf hl.1.1.2.2 hr.1.1.2.2) (ihg hl.1.2.2 hr.1.2.2)
  | contains _ _ _ _ _ _ ihf ihg =>
    simp only [List.forall_mem_append, List.forall_mem_cons] at hl hr
    exact .contains (ihf hl.1.1.2.2 hr.1.1.2.2) (ihg hl.1.2.2 hr.1.2.2)
  | length _ _ _ _ ih =>
    simp only [List.forall_mem_append, List.forall_mem_cons] at hl hr
    exact .length (ih hl.1.2.2 hr.1.2.2)

end NoteFormula

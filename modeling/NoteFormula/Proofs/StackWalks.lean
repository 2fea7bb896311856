import Mathlib.Algebra.BigOperators.Group.List.Basic
import NoteFormula.Proofs.ReferenceOrder

/-! # Walks over a stack

Three loops measure a formula, each over a stack of its own. A round takes the formula on top away and puts its parts in
its place. So the stack may grow, but what is pending, with all parts of parts, is one less after each round: whatever a
walk notes and in whichever order it puts the parts, it ends after as many rounds as the formula has parts, itself
counted. What the three walks end with is what the recursion on the parts gives.
-/
namespace NoteFormula.Formula

abbrev WellFormed (f : Formula) : Prop := f.Complete (fun _ => True) fun _ path => ∃ s, path = .text s

def mentions (space : Namespace) : Formula → List String
  | absent | literal _ => []
  | reference other path => match path with
    | .text s => if other = space then [s] else []
    | _ => []
  | unary _ f | length f => mentions space f
  | binary _ f g | contains f g => mentions space f ++ mentions space g
  | conditional c t e => mentions space c ++ (mentions space t ++ mentions space e)

/-- A loop over a stack of items that hold a formula each: what is noted of the item on top, and the items that take
its place, one for each part. -/
structure Walk (ι σ : Type) where
  formula : ι → Formula
  note : σ → ι → σ
  replace : ι → List Formula → List ι
  replace_perm : ∀ i parts, ((replace i parts).map formula).Perm parts

namespace Walk

variable {ι σ : Type}

/-- The loop comes from one state to another in `n` rounds. It has ended when the stack is empty. -/
inductive Rounds (w : Walk ι σ) : Nat → σ → List ι → σ → List ι → Prop
  | none {s : σ} {stack : List ι} : Rounds w 0 s stack s stack
  | round {n : Nat} {s t : σ} {i : ι} {stack last : List ι} {parts : List Formula} :
      (w.formula i).children = .ok parts → Rounds w n (w.note s i) (w.replace i parts ++ stack) t last →
      Rounds w (n + 1) s (i :: stack) t last

structure Computes (w : Walk ι σ) (run : σ → List ι → Except NotFormula σ) : Prop where
  ended : ∀ s, run s [] = .ok s
  round : ∀ {i parts}, (w.formula i).children = .ok parts → ∀ s stack,
    run s (i :: stack) = run (w.note s i) (w.replace i parts ++ stack)

def pending (w : Walk ι σ) (stack : List ι) : Nat := (stack.map fun i => (w.formula i).size).sum

end Walk

def depthWalk : Walk (Formula × Nat) Nat where
  formula i := i.1
  note deepest i := max deepest i.2
  replace i parts := parts.reverse.map (·, i.2 + 1)
  replace_perm i parts := by simp [Function.comp_def]

def countWalk : Walk Formula Nat where
  formula f := f
  note count _ := count + 1
  replace _ parts := parts.reverse
  replace_perm _ parts := by simp

def keysWalk : Walk Formula Keys where
  formula f := f
  note keys f := match f with
    | reference space path => keys.add space path
    | _ => keys
  replace _ parts := parts
  replace_perm _ parts := by simp

section Parts

variable {literal : Value → Prop} {reference : Namespace → Value → Prop} {f : Formula}

structure Parts (literal : Value → Prop) (reference : Namespace → Value → Prop) (f : Formula) (parts : List Formula) :
    Prop where
  children : f.children = .ok parts
  complete : ∀ part ∈ parts, part.Complete literal reference
  height : f.height = (parts.map Formula.height).foldl max 0 + 1
  size : f.size = (parts.map Formula.size).sum + 1

theorem Complete.parts (h : f.Complete literal reference) : ∃ parts, Parts literal reference f parts := by
  cases h with
  | literal | reference => exact ⟨[], rfl, by simp, rfl, rfl⟩
  | @unary op f h => exact ⟨[f], rfl, by simp [h], by simp [height], by simp [size]⟩
  | @length f h => exact ⟨[f], rfl, by simp [h], by simp [height], by simp [size]⟩
  | @binary op f g hf hg => exact ⟨[f, g], rfl, by simp [hf, hg], by simp [height], by simp [size]⟩
  | @contains f g hf hg => exact ⟨[f, g], rfl, by simp [hf, hg], by simp [height], by simp [size]⟩
  | @guarded c f hc hf => exact ⟨[c, f], rfl, by simp [hc, hf], by simp [height], by simp [size]⟩
  | @choice c f g hc hf hg =>
    refine ⟨[c, f, g], hg.children_choice c f, by simp [hc, hf, hg], ?_, ?_⟩
    · simp [height, Nat.max_assoc]
    · simp [size, Nat.add_assoc]

end Parts

namespace Walk

variable {literal : Value → Prop} {reference : Namespace → Value → Prop} {ι σ : Type} {w : Walk ι σ} {i : ι}
  {stack last : List ι} {n : Nat}

/-- A round leaves one formula less to be visited, although the stack may be longer after it. -/
theorem pending_round {parts : List Formula} (h : Parts literal reference (w.formula i) parts) (stack : List ι) :
    w.pending (i :: stack) = w.pending (w.replace i parts ++ stack) + 1 := by
  have hreplaced : ((w.replace i parts).map fun j => (w.formula j).size).sum = (parts.map size).sum := by
    have hsum := ((w.replace_perm i parts).map size).sum_eq
    rwa [List.map_map] at hsum
  have hsize := h.size
  simp only [pending, List.map_cons, List.sum_cons, List.map_append, List.sum_append]
  omega

/-- A walk over complete formulas ends after as many rounds as there are formulas to be visited. -/
theorem ends (h : ∀ i ∈ stack, (w.formula i).Complete literal reference) (s : σ) :
    ∃ t, Rounds w (w.pending stack) s stack t [] := by
  generalize hn : w.pending stack = n
  induction n generalizing s stack with
  | zero =>
    cases stack with
    | nil => exact ⟨s, .none⟩
    | cons i stack =>
      obtain ⟨parts, hparts⟩ := (h i List.mem_cons_self).parts
      rw [pending_round hparts] at hn
      cases hn
  | succ n ih =>
    cases stack with
    | nil => cases hn
    | cons i stack =>
      obtain ⟨hi, hstack⟩ := List.forall_mem_cons.mp h
      obtain ⟨parts, hparts⟩ := hi.parts
      rw [pending_round hparts] at hn
      have hnext : ∀ j ∈ w.replace i parts ++ stack, (w.formula j).Complete literal reference := by
        refine List.forall_mem_append.mpr ⟨fun j hj => ?_, hstack⟩
        exact hparts.complete _ ((w.replace_perm i parts).mem_iff.mp (List.mem_map_of_mem hj))
      obtain ⟨t, ht⟩ := ih hnext (w.note s i) (Nat.succ.inj hn)
      exact ⟨t, .round hparts.children ht⟩

variable {run : σ → List ι → Except NotFormula σ}

theorem Computes.along (hrun : w.Computes run) {s t : σ} (h : w.Rounds n s stack t last) :
    run s stack = run t last := by
  induction h with
  | none => rfl
  | round hparts _ ih => exact (hrun.round hparts _ _).trans ih

/-- What a function computes for one item is what the loop ends with, after as many rounds as its formula has parts. -/
theorem Computes.ends_with (hrun : w.Computes run) (h : (w.formula i).Complete literal reference) {s t : σ}
    (hresult : run s [i] = .ok t) : w.Rounds (w.formula i).size s [i] t [] := by
  obtain ⟨last, hrounds⟩ := w.ends (List.forall_mem_singleton.mpr h) s
  have hlast : run s [i] = .ok last := (hrun.along hrounds).trans (hrun.ended last)
  obtain rfl := Except.ok.inj (hresult.symm.trans hlast)
  simpa [pending] using hrounds

end Walk

theorem depthWalk_computes : depthWalk.Computes depthFrom where
  ended s := by rw [depthFrom]
  round hparts s stack := depthFrom_cons hparts s _ stack

theorem countWalk_computes : countWalk.Computes countFrom where
  ended s := by rw [countFrom]
  round hparts s stack := countFrom_cons hparts s stack

theorem keysWalk_computes : keysWalk.Computes keysFrom where
  ended s := by rw [keysFrom]
  round {f} _ hparts s stack := by
    refine (keysFrom_cons hparts s stack).trans ?_
    cases f <;> rfl

theorem pathsOf_append (space : Namespace) (rs more : List (Namespace × Value)) :
    pathsOf space (rs ++ more) = pathsOf space rs ++ pathsOf space more := by
  simp [pathsOf]

theorem WellFormed.pathsOf_referred {f : Formula} (h : f.WellFormed) (space : Namespace) :
    pathsOf space f.referred = (f.mentions space).map .text := by
  induction h with
  | literal => rfl
  | @reference other path hp =>
    obtain ⟨s, rfl⟩ := hp
    by_cases hother : other = space <;> simp [pathsOf, referred, mentions, hother]
  | unary _ ih | length _ ih => exact ih
  | binary _ _ ihf ihg | contains _ _ ihf ihg => rw [referred, mentions, pathsOf_append, ihf, ihg, List.map_append]
  | guarded _ _ ihc ihf =>
    rw [referred, mentions, pathsOf_append, pathsOf_append, ihc, ihf, List.map_append, List.map_append]
    rfl
  | choice _ _ _ ihc ihf ihg =>
    rw [referred, mentions, pathsOf_append, pathsOf_append, ihc, ihf, ihg, List.map_append, List.map_append]

theorem WellFormed.keys_of {f : Formula} (h : f.WellFormed) (space : Namespace) :
    (addReferred {} f.referred).of space = (f.mentions space).eraseDups.map .text := by
  rw [addReferred_of, h.pathsOf_referred, ← Keys.foldl_insert_texts]
  cases space <;> rfl

/-- For a formula of any shape the three walks end, after a round for each part, with what the recursion on its parts
gives: a depth of one more than that of its deepest part, a count of one more than those of its parts together, and in
each namespace the paths of its references from left to right, each where it comes first. -/
theorem walks_are_recursions (f : Formula) (h : f.WellFormed) :
    ∃ parts keys, f.children = .ok parts ∧ (∀ part ∈ parts, part.WellFormed) ∧
      (depthWalk.Rounds f.size 0 [(f, 1)] f.height [] ∧ f.depth = .ok f.height ∧
        f.height = (parts.map height).foldl max 0 + 1) ∧
      (countWalk.Rounds f.size 0 [f] f.size [] ∧ f.count = .ok f.size ∧ f.size = (parts.map size).sum + 1) ∧
      (keysWalk.Rounds f.size {} [f] keys [] ∧ f.keys = .ok keys ∧
        ∀ space, keys.of space = (f.mentions space).eraseDups.map .text) ∧
      f.metrics = .ok ⟨f.height, f.size, keys⟩ := by
  obtain ⟨parts, hparts⟩ := h.parts
  have hdepth : depthWalk.Rounds f.size 0 [(f, 1)] f.height [] := depthWalk_computes.ends_with h h.depth_eq
  have hcount : countWalk.Rounds f.size 0 [f] f.size [] := countWalk_computes.ends_with h h.count_eq
  have hkeys : keysWalk.Rounds f.size {} [f] (addReferred {} f.referred) [] := keysWalk_computes.ends_with h h.keys_eq
  exact ⟨parts, _, hparts.children, hparts.complete, ⟨hdepth, h.depth_eq, hparts.height⟩,
    ⟨hcount, h.count_eq, hparts.size⟩, ⟨hkeys, h.keys_eq, WellFormed.keys_of h⟩, h.metrics_eq⟩

/-- A path that is mentioned twice is a key once, where it comes first, and a missing branch counts nothing. -/
theorem repeated_path_gathered_once :
    let ask (space : Namespace) (path : String) := reference space (.text path)
    let f := binary .or (conditional (ask .note "b") (unary .not (ask .note "a")) absent)
      (contains (ask .note "b") (ask .file "a"))
    f.WellFormed ∧ f.depth = .ok 4 ∧ f.count = .ok 8 ∧
      ∃ keys, f.keys = .ok keys ∧ keys.note = [.text "b", .text "a"] ∧ keys.file = [.text "a"] := by
  intro ask f
  have hask (space : Namespace) (path : String) : (ask space path).WellFormed := .reference ⟨path, rfl⟩
  have hf : f.WellFormed := .binary (.guarded (hask _ _) (.unary (hask _ _))) (.contains (hask _ _) (hask _ _))
  obtain ⟨parts, keys, -, -, ⟨-, hdepth, -⟩, ⟨-, hcount, -⟩, ⟨-, hkeys, hof⟩, -⟩ := walks_are_recursions f hf
  exact ⟨hf, hdepth, hcount, keys, hkeys, (hof .note).trans rfl, (hof .file).trans rfl⟩

end NoteFormula.Formula

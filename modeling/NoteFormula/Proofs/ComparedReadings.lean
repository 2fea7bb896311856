import NoteFormula.Proofs.ReadingComplete

/-! # Readings side by side

Two readings of lists that begin alike, the second one with at least as much room under its limit. Until the first
comes to where the lists differ, the second does the same, unless the first is refused at its limit. Nothing is
asked of the tokens: kinds, values and texts may be paired in any way.
-/
namespace NoteFormula

open EStateM (Result)

def ParseFault.isTooDeep : ParseFault → Bool
  | tooDeep .. => true
  | _ => false

structure Comparison where
  limit : Nat
  limit₂ : Nat
  tail : List Token
  tail₂ : List Token

namespace Comparison

/-- The second cursor stands in its list where the first does, if that is before the tails. -/
structure Aligned (σ : Comparison) (c c₂ : Cursor) : Prop where
  room : σ.limit + c₂.depth ≤ σ.limit₂ + c.depth
  rest : ∀ q, q ≠ [] → c.rest = q ++ σ.tail → c₂.rest = q ++ σ.tail₂

/-- How two readings end that were begun at these cursors. The first one has taken tokens, but no end token; it
leaves the depth as it was, or one deeper where it is refused, and `lead` tokens more than levels were read before
that. The second one ends in the same way if tokens before the tails are left. -/
inductive Course {α : Type} (σ : Comparison) (lead : Nat) (c c₂ : Cursor) :
    Result ParseFault Cursor α → Result ParseFault Cursor α → Prop
  | ok (taken : List Token) {a rest r} : c.rest = taken ++ rest → (∀ t ∈ taken, t.kind ≠ .eof) →
      (∀ q, q ≠ [] → rest = q ++ σ.tail → r = .ok a ⟨q ++ σ.tail₂, c₂.depth⟩) →
      Course σ lead c c₂ (.ok a ⟨rest, c.depth⟩) r
  | fault (taken : List Token) {fault rest r} : c.rest = taken ++ rest → (∀ t ∈ taken, t.kind ≠ .eof) →
      fault.isTooDeep = false →
      (∀ q, q ≠ [] → rest = q ++ σ.tail → r = .error fault ⟨q ++ σ.tail₂, c₂.depth⟩) →
      Course σ lead c c₂ (.error fault ⟨rest, c.depth⟩) r
  | refused (taken : List Token) {rest r} : c.rest = taken ++ rest → (∀ t ∈ taken, t.kind ≠ .eof) →
      σ.limit + lead ≤ c.depth + taken.length →
      (∀ q, q ≠ [] → rest = q ++ σ.tail → σ.limit + c₂.depth = σ.limit₂ + c.depth →
        r = .error (.tooDeep σ.limit₂ (rest.headD .eof)) ⟨q ++ σ.tail₂, c₂.depth + 1⟩) →
      Course σ lead c c₂ (.error (.tooDeep σ.limit (rest.headD .eof)) ⟨rest, c.depth + 1⟩) r

variable {α β : Type} {σ : Comparison} {lead lead' n n₂ : Nat} {c c₂ : Cursor} {rest : List Token}
  {r r₂ : Result ParseFault Cursor α}

theorem headD_before {q : List Token} (hq : q ≠ []) (tail tail₂ : List Token) :
    (q ++ tail).headD .eof = (q ++ tail₂).headD .eof := by
  cases q with
  | nil => exact absurd rfl hq
  | cons t q => rfl

/-- Where the first reading stands at the tails or in them, nothing is said of the second. -/
theorem Course.beyond (h : Course σ lead c c₂ r r₂) (hb : ∀ q, q ≠ [] → c.rest ≠ q ++ σ.tail) (c₃ : Cursor)
    (r₃ : Result ParseFault Cursor α) : Course σ lead c c₃ r r₃ := by
  have hnever {taken rest q : List Token} (hc : c.rest = taken ++ rest) (hq : q ≠ []) (hrest : rest = q ++ σ.tail) :
      False := by
    have hne : taken ++ q ≠ [] := by simp [hq]
    exact hb _ hne (by rw [hc, hrest, List.append_assoc])
  cases h with
  | ok taken hc ht _ => exact .ok taken hc ht fun q hq hrest => (hnever hc hq hrest).elim
  | fault taken hc ht hf _ => exact .fault taken hc ht hf fun q hq hrest => (hnever hc hq hrest).elim
  | refused taken hc ht hlead _ => exact .refused taken hc ht hlead fun q hq hrest _ => (hnever hc hq hrest).elim

theorem Course.after (taken : List Token) (hc : c.rest = taken ++ rest) (ht : ∀ t ∈ taken, t.kind ≠ .eof)
    (hlead : lead ≤ lead' + taken.length) {rest₂ : List Token}
    (h : Course σ lead' ⟨rest, c.depth⟩ ⟨rest₂, c₂.depth⟩ r r₂) : Course σ lead c c₂ r r₂ := by
  have hjoin {more left : List Token} (hrest : rest = more ++ left) : c.rest = (taken ++ more) ++ left := by
    rw [hc, hrest, List.append_assoc]
  have hall {more : List Token} (hmore : ∀ t ∈ more, t.kind ≠ .eof) : ∀ t ∈ taken ++ more, t.kind ≠ .eof :=
    List.forall_mem_append.mpr ⟨ht, hmore⟩
  cases h with
  | ok more hrest hmore hsecond => exact .ok _ (hjoin hrest) (hall hmore) hsecond
  | fault more hrest hmore hf hsecond => exact .fault _ (hjoin hrest) (hall hmore) hf hsecond
  | refused more hrest hmore hdeep hsecond =>
    refine .refused _ (hjoin hrest) (hall hmore) ?_ hsecond
    rw [List.length_append]
    dsimp only at hdeep
    omega

theorem Course.mono (h : Course σ lead' c c₂ r r₂) (hlead : lead ≤ lead') : Course σ lead c c₂ r r₂ :=
  .after [] rfl (by simp) hlead h

/-- The token that is next in the first list is next in the second, where that is before the tails. -/
theorem Aligned.next {t : Token} {us q : List Token} {depth : Nat} (ha : σ.Aligned ⟨t :: us, depth⟩ c₂) (hq : q ≠ [])
    (hrest : t :: us = q ++ σ.tail) : ∃ us₂, c₂ = ⟨t :: us₂, c₂.depth⟩ := by
  have hrest₂ := ha.rest q hq hrest
  cases q with
  | nil => exact absurd rfl hq
  | cons u q =>
    obtain ⟨rfl, -⟩ := List.cons.inj hrest
    exact ⟨q ++ σ.tail₂, congrArg (Cursor.mk · c₂.depth) hrest₂⟩

def Lockstep (σ : Comparison) (lead n n₂ : Nat) (r r₂ : Reading α) : Prop :=
  ∀ c c₂, σ.Aligned c c₂ → c.rest.length ≤ n → c₂.rest.length ≤ n₂ → Course σ lead c c₂ (r c) (r₂ c₂)

theorem Lockstep.mono {n' n₂' : Nat} {r r₂ : Reading α} (h : Lockstep σ lead' n' n₂' r r₂) (hlead : lead ≤ lead')
    (hn : n ≤ n') (hn₂ : n₂ ≤ n₂') : Lockstep σ lead n n₂ r r₂ :=
  fun c c₂ ha hc hc₂ => (h c c₂ ha (Nat.le_trans hc hn) (Nat.le_trans hc₂ hn₂)).mono hlead

/-- When nothing is left of the second list, it does not matter what is done with it. -/
theorem Lockstep.exhausted {r r₂ : Reading α} (h : Lockstep σ lead n n₂ r r₂) (r₃ : Reading α) :
    Lockstep σ lead n 0 r r₃ := by
  intro c c₂ ha hn hn₂
  have hcourse := h c c₂ ha hn (Nat.le_trans hn₂ (Nat.zero_le _))
  refine hcourse.beyond (fun q hq hrest => ?_) _ _
  have hrest₂ := ha.rest q hq hrest
  rw [List.length_eq_zero_iff.mp (Nat.le_zero.mp hn₂)] at hrest₂
  exact hq (List.append_eq_nil_iff.mp hrest₂.symm).1

end Comparison

namespace Reading

open Comparison

variable {α β : Type} {σ : Comparison} {lead n n₂ : Nat} {c c₂ : Cursor}

theorem pure_lockstep (a : α) : Lockstep σ lead n n₂ (pure a) (pure a) := by
  intro c c₂ ha _ _
  refine .ok [] rfl (by simp) fun q hq hrest => ?_
  rw [← ha.rest q hq hrest]
  rfl

theorem throw_lockstep {fault : ParseFault} (hf : fault.isTooDeep = false) :
    Lockstep σ lead n n₂ (throw fault : Reading α) (throw fault) := by
  intro c c₂ ha _ _
  refine .fault [] rfl (by simp) hf fun q hq hrest => ?_
  rw [← ha.rest q hq hrest]
  rfl

theorem bind_lockstep {r r₂ : Reading α} {k k₂ : α → Reading β} (hr : Lockstep σ lead n n₂ r r₂)
    (hk : ∀ a, Lockstep σ lead n n₂ (k a) (k₂ a)) : Lockstep σ lead n n₂ (r >>= k) (r₂ >>= k₂) := by
  intro c c₂ ha hn hn₂
  have h := hr c c₂ ha hn hn₂
  rw [bind_apply, bind_apply]
  generalize r c = x at h ⊢
  generalize hy : r₂ c₂ = y at h ⊢
  cases h with
  | @ok taken a rest _ hrest ht hsecond =>
    have hlength : rest.length ≤ n := by
      rw [hrest, List.length_append] at hn
      omega
    by_cases hs : ∃ q, q ≠ [] ∧ rest = q ++ σ.tail
    · obtain ⟨q, hq, rfl⟩ := hs
      obtain rfl := hsecond q hq rfl
      have hrest₂ : c₂.rest = taken ++ (q ++ σ.tail₂) := by
        rw [← List.append_assoc]
        exact ha.rest _ (by simp [hq]) (by rw [hrest, List.append_assoc])
      have hnext : σ.Aligned ⟨q ++ σ.tail, c.depth⟩ ⟨q ++ σ.tail₂, c₂.depth⟩ :=
        ⟨ha.room, fun p _ hp => by rw [List.append_cancel_right hp]⟩
      refine .after taken hrest ht (Nat.le_add_right _ _) (hk a _ _ hnext hlength ?_)
      rw [hrest₂, List.length_append] at hn₂
      dsimp only
      omega
    · have hnext : σ.Aligned ⟨rest, c.depth⟩ ⟨[], c₂.depth⟩ := ⟨ha.room, fun q hq hp => absurd ⟨q, hq, hp⟩ hs⟩
      have hfirst := hk a _ _ hnext hlength (Nat.zero_le _)
      have hbeyond := hfirst.beyond (fun q hq hp => hs ⟨q, hq, hp⟩) ⟨[], c₂.depth⟩
      exact .after taken hrest ht (Nat.le_add_right _ _) (hbeyond _)
  | fault taken hrest ht hf hsecond =>
    refine .fault taken hrest ht hf fun q hq hp => ?_
    rw [hsecond q hq hp]
  | refused taken hrest ht hlead hsecond =>
    refine .refused taken hrest ht hlead fun q hq hp heven => ?_
    rw [hsecond q hq hp heven]

theorem peek_lockstep {k k₂ : Token → Reading α} (hk : ∀ t, Lockstep σ lead n n₂ (k t) (k₂ t)) :
    Lockstep σ lead n n₂ (peek >>= k) (peek >>= k₂) := by
  intro c c₂ ha hn hn₂
  have h := hk (c.rest.headD .eof) c c₂ ha hn hn₂
  rw [bind_ok (peek_apply c), bind_ok (peek_apply c₂)]
  by_cases hs : ∃ q, q ≠ [] ∧ c.rest = q ++ σ.tail
  · obtain ⟨q, hq, hrest⟩ := hs
    rw [ha.rest q hq hrest, ← headD_before hq σ.tail, ← hrest]
    exact h
  · exact h.beyond (fun q hq hp => hs ⟨q, hq, hp⟩) _ _

theorem accept_lockstep (kinds : List TokenKind) : Lockstep σ lead n n₂ (accept kinds) (accept kinds) := by
  intro c c₂ ha _ _
  by_cases hk : (c.rest.headD .eof).kind ≠ .eof ∧ kinds.contains (c.rest.headD .eof).kind
  · rcases c with ⟨_ | ⟨t, rest⟩, depth⟩
    · exact absurd rfl hk.1
    · have hk : t.kind ≠ .eof ∧ kinds.contains t.kind := hk
      rw [accept_some rest depth hk.1 hk.2]
      refine .ok [t] rfl (by simpa using hk.1) fun q hq hrest => ?_
      have hrest₂ : c₂.rest = t :: (q ++ σ.tail₂) := ha.rest (t :: q) (by simp) (by rw [hrest]; rfl)
      rcases c₂ with ⟨_, depth₂⟩
      dsimp only at hrest₂
      rw [hrest₂]
      exact accept_some _ _ hk.1 hk.2
  · rw [accept_eq, if_neg hk]
    refine .ok [] rfl (by simp) fun q hq hrest => ?_
    have hrest₂ := ha.rest q hq hrest
    rw [hrest, headD_before hq σ.tail σ.tail₂] at hk
    rw [accept_eq, hrest₂, if_neg hk, ← hrest₂]

theorem expect_lockstep (kind : TokenKind) (symbol place : String) :
    Lockstep σ lead n n₂ (expect kind symbol place) (expect kind symbol place) := by
  unfold expect
  refine bind_lockstep (accept_lockstep _) fun accepted => ?_
  cases accepted with
  | some t => exact pure_lockstep ()
  | none => exact peek_lockstep fun t => throw_lockstep rfl

theorem binaryOp_lockstep (t : Token) : Lockstep σ lead n n₂ (binaryOp t) (binaryOp t) := by
  unfold binaryOp
  split
  · exact pure_lockstep _
  · split
    · exact pure_lockstep _
    · exact throw_lockstep rfl

theorem unaryOp_lockstep (t : Token) : Lockstep σ lead n n₂ (unaryOp t) (unaryOp t) := by
  unfold unaryOp
  split
  · exact pure_lockstep _
  · exact throw_lockstep rfl

/-- A first token that both take without looking farther is one token more than levels. -/
theorem take_course {r r₂ k k₂ : Reading α} {t : Token} {us : List Token} {depth : Nat} (he : t.kind ≠ .eof)
    (hr : ∀ us depth, r ⟨t :: us, depth⟩ = k ⟨us, depth⟩) (hr₂ : ∀ us depth, r₂ ⟨t :: us, depth⟩ = k₂ ⟨us, depth⟩)
    (hk : Lockstep σ lead n n₂ k k₂) (ha : σ.Aligned ⟨t :: us, depth⟩ c₂) (hn : (t :: us).length ≤ n + 1)
    (hn₂ : c₂.rest.length ≤ n₂ + 1) :
    Course σ (lead + 1) ⟨t :: us, depth⟩ c₂ (r ⟨t :: us, depth⟩) (r₂ c₂) := by
  have hnext : σ.Aligned ⟨us, depth⟩ ⟨c₂.rest.tail, c₂.depth⟩ := by
    refine ⟨ha.room, fun q hq hp => ?_⟩
    dsimp only at hp
    rw [ha.rest (t :: q) (by simp) (by rw [hp]; rfl)]
    rfl
  have h := hk _ _ hnext (Nat.le_of_succ_le_succ hn) (by rw [List.length_tail]; omega)
  have hfirst : Course σ (lead + 1) ⟨t :: us, depth⟩ c₂ (k ⟨us, depth⟩) (k₂ ⟨c₂.rest.tail, c₂.depth⟩) :=
    .after [t] rfl (by simpa using he) (Nat.le_refl _) h
  rw [hr]
  by_cases hs : ∃ q, q ≠ [] ∧ t :: us = q ++ σ.tail
  · obtain ⟨q, hq, hrest⟩ := hs
    obtain ⟨us₂, hc₂⟩ := ha.next hq hrest
    rw [hc₂] at hfirst ⊢
    rwa [hr₂]
  · exact hfirst.beyond (fun q hq hp => hs ⟨q, hq, hp⟩) _ _

theorem stop_course {r r₂ : Reading α} (fault : ParseFault) {t : Token} {us : List Token} {depth : Nat}
    (hf : fault.isTooDeep = false)
    (hr : ∀ us depth, r ⟨t :: us, depth⟩ = .error fault ⟨t :: us, depth⟩)
    (hr₂ : ∀ us depth, r₂ ⟨t :: us, depth⟩ = .error fault ⟨t :: us, depth⟩) (ha : σ.Aligned ⟨t :: us, depth⟩ c₂) :
    Course σ lead ⟨t :: us, depth⟩ c₂ (r ⟨t :: us, depth⟩) (r₂ c₂) := by
  rw [hr]
  refine .fault [] rfl (by simp) hf fun q hq hrest => ?_
  obtain ⟨us₂, hc₂⟩ := ha.next hq hrest
  rw [← ha.rest q hq hrest, hc₂]
  exact hr₂ us₂ _

/-- An operator that is taken is one token more than levels. -/
theorem accept_bind_lockstep {kinds : List TokenKind} {k k₂ : Option Token → Reading α}
    (hnone : Lockstep σ (lead + 1) (n + 1) (n₂ + 1) (k none) (k₂ none))
    (hsome : ∀ t, Lockstep σ lead n n₂ (k (some t)) (k₂ (some t))) :
    Lockstep σ (lead + 1) (n + 1) (n₂ + 1) (accept kinds >>= k) (accept kinds >>= k₂) := by
  intro c c₂ ha hn hn₂
  rcases c with ⟨_ | ⟨t, us⟩, depth⟩
  · have h := hnone _ _ ha hn hn₂
    exact h.beyond (fun q hq hp => hq (List.append_eq_nil_iff.mp hp.symm).1) _ _
  · by_cases hk : t.kind ≠ .eof ∧ kinds.contains t.kind
    · exact take_course hk.1 (fun us depth => bind_ok (accept_some us depth hk.1 hk.2) k)
        (fun us depth => bind_ok (accept_some us depth hk.1 hk.2) k₂) (hsome t) ha hn hn₂
    · have hskip (us : List Token) (depth : Nat) : accept kinds ⟨t :: us, depth⟩ = .ok none ⟨t :: us, depth⟩ := by
        rw [accept_eq, List.headD_cons, if_neg hk]
      have h := hnone _ _ ha hn hn₂
      rw [bind_ok (hskip us depth)]
      by_cases hs : ∃ q, q ≠ [] ∧ t :: us = q ++ σ.tail
      · obtain ⟨q, hq, hrest⟩ := hs
        obtain ⟨us₂, hc₂⟩ := ha.next hq hrest
        rw [hc₂] at h ⊢
        rwa [bind_ok (hskip us₂ _)]
      · exact h.beyond (fun q hq hp => hs ⟨q, hq, hp⟩) _ _

theorem nested_lockstep {r r₂ : Reading Formula} (hr : Lockstep σ 1 n n₂ r r₂) :
    Lockstep σ 0 n n₂ (nested σ.limit r) (nested σ.limit₂ r₂) := by
  intro c c₂ ha hn hn₂
  have hroom := ha.room
  have hdeeper : σ.Aligned ⟨c.rest, c.depth + 1⟩ ⟨c₂.rest, c₂.depth + 1⟩ := ⟨by dsimp only; omega, ha.rest⟩
  unfold nested
  dsimp only
  by_cases hdeep : σ.limit < c.depth + 1
  · rw [if_pos hdeep]
    refine .refused [] rfl (by simp) (Nat.le_of_lt_succ hdeep) fun q hq hrest heven => ?_
    have hrest₂ := ha.rest q hq hrest
    rw [if_pos (show σ.limit₂ < c₂.depth + 1 by omega), hrest₂, hrest, headD_before hq σ.tail]
  · rw [if_neg hdeep]
    have h := hr _ _ hdeeper hn hn₂
    have hfits : ¬ σ.limit₂ < c₂.depth + 1 := by omega
    generalize r ⟨c.rest, c.depth + 1⟩ = x at h ⊢
    rw [if_neg hfits]
    generalize r₂ ⟨c₂.rest, c₂.depth + 1⟩ = y at h ⊢
    cases h with
    | ok taken hrest ht hsecond =>
      refine .ok taken hrest ht fun q hq hp => ?_
      rw [hsecond q hq hp]
      rfl
    | fault taken hrest ht hf hsecond =>
      refine .fault taken hrest ht hf fun q hq hp => ?_
      rw [hsecond q hq hp]
      rfl
    | refused taken hrest ht hlead hsecond =>
      dsimp only at hlead hsecond
      refine .refused taken hrest ht (by omega) fun q hq hp heven => ?_
      rw [hsecond q hq hp (by omega)]
      rfl

/-- The counts are no bound on the operands as long as they are not less than the tokens that are left. -/
theorem chain_lockstep {operand operand₂ : Reading Formula} (ho : Lockstep σ 1 n n₂ operand operand₂)
    (kinds : List TokenKind) {m m₂ : Nat} (hm : m ≤ n) (hm₂ : m₂ ≤ n₂) (left : Formula) :
    Lockstep σ 1 m m₂ (chain operand kinds m left) (chain operand₂ kinds m₂ left) := by
  induction m generalizing m₂ left with
  | zero =>
    intro c c₂ ha hn hn₂
    refine .ok [] rfl (by simp) fun q hq hrest => ?_
    rw [List.length_eq_zero_iff.mp (Nat.le_zero.mp hn)] at hrest
    exact absurd (List.append_eq_nil_iff.mp hrest.symm).1 hq
  | succ m ih =>
    have hstep {m₂ : Nat} (hm₂ : m₂ ≤ n₂) :
        Lockstep σ 1 (m + 1) (m₂ + 1) (chain operand kinds (m + 1) left) (chain operand₂ kinds (m₂ + 1) left) := by
      refine accept_bind_lockstep (pure_lockstep left) fun t => bind_lockstep (binaryOp_lockstep t) fun op => ?_
      refine bind_lockstep (ho.mono (Nat.zero_le 1) (Nat.le_of_succ_le hm) hm₂) fun right => ?_
      exact (ih (Nat.le_of_succ_le hm) hm₂ _).mono (Nat.zero_le 1) (Nat.le_refl _) (Nat.le_refl _)
    cases m₂ with
    | zero => exact (hstep (Nat.zero_le n₂)).exhausted _
    | succ m₂ => exact hstep (Nat.le_of_succ_le hm₂)

theorem tiered_lockstep {operand operand₂ : Reading Formula} (ho : Lockstep σ 1 n n₂ operand operand₂)
    (levels : List (List TokenKind)) : Lockstep σ 1 n n₂ (tiered operand levels) (tiered operand₂ levels) := by
  induction levels with
  | nil => exact ho
  | cons kinds tighter ih =>
    refine bind_lockstep ih fun left c c₂ ha hn hn₂ => ?_
    rw [bind_ok (remaining_apply _), bind_ok (remaining_apply _)]
    exact chain_lockstep ih kinds hn hn₂ left c c₂ ha (Nat.le_refl _) (Nat.le_refl _)

section Calls
variable {formula formula₂ : Reading Formula}

theorem conditional_lockstep (hf : Lockstep σ 0 n n₂ formula formula₂) :
    Lockstep σ 0 n n₂ (conditional formula) (conditional formula₂) := by
  have hclose (f : Formula) : Lockstep σ 0 n n₂ (do expect .rparen ")" "if arguments"; return f)
      (do expect .rparen ")" "if arguments"; return f) :=
    bind_lockstep (expect_lockstep _ _ _) fun _ => pure_lockstep f
  refine bind_lockstep (expect_lockstep _ _ _) fun _ => bind_lockstep hf fun c => ?_
  refine bind_lockstep (accept_lockstep _) fun accepted => ?_
  cases accepted with
  | none => exact hclose _
  | some p =>
    refine bind_lockstep hf fun f => bind_lockstep (accept_lockstep _) fun accepted => ?_
    cases accepted with
    | none => exact hclose _
    | some q => exact bind_lockstep hf fun g => hclose _

theorem containment_lockstep (hf : Lockstep σ 0 n n₂ formula formula₂) :
    Lockstep σ 0 n n₂ (containment formula) (containment formula₂) := by
  refine bind_lockstep (expect_lockstep _ _ _) fun _ => bind_lockstep hf fun f => ?_
  refine bind_lockstep (expect_lockstep _ _ _) fun _ => bind_lockstep hf fun g => ?_
  exact bind_lockstep (expect_lockstep _ _ _) fun _ => pure_lockstep _

theorem lengthCall_lockstep (hf : Lockstep σ 0 n n₂ formula formula₂) :
    Lockstep σ 0 n n₂ (lengthCall formula) (lengthCall formula₂) := by
  refine bind_lockstep (expect_lockstep _ _ _) fun _ => bind_lockstep hf fun f => ?_
  exact bind_lockstep (expect_lockstep _ _ _) fun _ => pure_lockstep _

theorem group_lockstep (hf : Lockstep σ 0 n n₂ formula formula₂) : Lockstep σ 0 n n₂
    (do let inner ← formula; expect .rparen ")" "expression"; return inner : Reading Formula)
    (do let inner ← formula₂; expect .rparen ")" "expression"; return inner : Reading Formula) :=
  bind_lockstep hf fun _ => bind_lockstep (expect_lockstep _ _ _) fun _ => pure_lockstep _

theorem primary_lockstep (hf : Lockstep σ 0 n n₂ formula formula₂) :
    Lockstep σ 1 (n + 1) (n₂ + 1) (primary formula) (primary formula₂) := by
  intro c c₂ ha hn hn₂
  rcases c with ⟨_ | ⟨t, us⟩, depth⟩
  · refine .fault [] rfl (by simp) rfl fun q hq hrest => ?_
    exact absurd (List.append_eq_nil_iff.mp hrest.symm).1 hq
  · rcases t with ⟨kind, value, raw⟩
    have take {k k₂ : Reading Formula} (he : kind ≠ .eof)
        (hr : ∀ us depth, primary formula ⟨⟨kind, value, raw⟩ :: us, depth⟩ = k ⟨us, depth⟩)
        (hr₂ : ∀ us depth, primary formula₂ ⟨⟨kind, value, raw⟩ :: us, depth⟩ = k₂ ⟨us, depth⟩)
        (hk : Lockstep σ 0 n n₂ k k₂) := take_course he hr hr₂ hk ha hn hn₂
    cases kind with
    | ifWord => exact take (by decide) (fun _ _ => rfl) (fun _ _ => rfl) (conditional_lockstep hf)
    | containsWord => exact take (by decide) (fun _ _ => rfl) (fun _ _ => rfl) (containment_lockstep hf)
    | lengthWord => exact take (by decide) (fun _ _ => rfl) (fun _ _ => rfl) (lengthCall_lockstep hf)
    | lparen => exact take (by decide) (fun _ _ => rfl) (fun _ _ => rfl) (group_lockstep hf)
    | boolean | number | text | word =>
      exact take (by decide) (fun _ _ => rfl) (fun _ _ => rfl) (pure_lockstep (.literal value))
    | noteRef => exact take (by decide) (fun _ _ => rfl) (fun _ _ => rfl) (pure_lockstep (.reference .note value))
    | fileRef => exact take (by decide) (fun _ _ => rfl) (fun _ _ => rfl) (pure_lockstep (.reference .file value))
    | eof => exact stop_course (.endOfInput _) rfl (fun _ _ => rfl) (fun _ _ => rfl) ha
    | _ => exact stop_course (.unexpected _) rfl (fun _ _ => rfl) (fun _ _ => rfl) ha

end Calls

theorem operand_lockstep (σ : Comparison) (n n₂ : Nat) :
    Lockstep σ 1 n n₂ (operand σ.limit n) (operand σ.limit₂ n₂) := by
  induction n generalizing n₂ with
  | zero =>
    intro c c₂ ha hn hn₂
    have hnil := List.length_eq_zero_iff.mp (Nat.le_zero.mp hn)
    refine .fault [] rfl (by simp) rfl fun q hq hrest => ?_
    rw [hnil] at hrest
    exact absurd (List.append_eq_nil_iff.mp hrest.symm).1 hq
  | succ n ih =>
    have hstep (n₂ : Nat) :
        Lockstep σ 1 (n + 1) (n₂ + 1) (operand σ.limit (n + 1)) (operand σ.limit₂ (n₂ + 1)) := by
      refine accept_bind_lockstep (primary_lockstep (nested_lockstep (tiered_lockstep (ih n₂) tiers))) fun t => ?_
      refine bind_lockstep (unaryOp_lockstep t) fun op => ?_
      exact bind_lockstep (nested_lockstep (ih n₂)) fun f => pure_lockstep _
    cases n₂ with
    | zero => exact (hstep 0).exhausted _
    | succ n₂ => exact hstep n₂

theorem whole_lockstep (σ : Comparison) (n n₂ : Nat) :
    Lockstep σ 0 n n₂ (whole σ.limit (operand σ.limit n)) (whole σ.limit₂ (operand σ.limit₂ n₂)) :=
  nested_lockstep (tiered_lockstep (operand_lockstep σ n n₂) tiers)

theorem complete_course (σ : Comparison) (ha : σ.Aligned c c₂) :
    Course σ 0 c c₂ (complete σ.limit c) (complete σ.limit₂ c₂) := by
  unfold complete
  rw [bind_ok (remaining_apply _), bind_ok (remaining_apply _)]
  have hwhole := whole_lockstep σ c.rest.length c₂.rest.length
  refine bind_lockstep hwhole (fun f => peek_lockstep fun t => ?_) c c₂ ha (Nat.le_refl _) (Nat.le_refl _)
  split
  · exact pure_lockstep f
  · exact throw_lockstep rfl

end Reading

end NoteFormula

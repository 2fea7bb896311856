import NoteFormula.Proofs.ReadingSound

/-! # Readings are complete

What a derivation says is read: in front of any tokens that cannot extend it, its formula comes out if its
nesting fits under the limit, and the refusal at the limit does if it does not. The induction is over the
derivation. A chain is derived from the left, so its case speaks of what a reading still has to do after the
part that has been derived.
-/
namespace NoteFormula

open EStateM (Result)

variable {limit depth m n : Nat} {rest : List Token}

/-- What a reading comes to that nests `n` deep: the result `s` under the limit, and the refusal beyond it. -/
structure Within (limit depth n : Nat) (r s : Result ParseFault Cursor Formula) : Prop where
  fits : depth + n ≤ limit → r = s
  refused : limit < depth + n → ∃ found c, r = .error (.tooDeep limit found) c

theorem Within.trans {r s t : Result ParseFault Cursor Formula} (h : Within limit depth m r s)
    (h' : Within limit depth n s t) : Within limit depth (max m n) r t := by
  constructor
  · intro hle
    exact (h.fits (by omega)).trans (h'.fits (by omega))
  · intro hlt
    by_cases hm : depth + m ≤ limit
    · rw [h.fits hm]
      exact h'.refused (by omega)
    · exact h.refused (Nat.lt_of_not_le hm)

theorem Within.of_eq {r s : Result ParseFault Cursor Formula} (hd : depth ≤ limit) (h : r = s) :
    Within limit depth 0 r s :=
  ⟨fun _ => h, fun hlt => absurd hd (Nat.not_le_of_lt hlt)⟩

def Ends (level : Nat) (rest : List Token) : Prop :=
  ∀ {k op}, (rest.headD .eof).kind.binary? = some (k, op) → k < level

theorem Ends.mono {level level' : Nat} (h : Ends level rest) (hle : level ≤ level') : Ends level' rest :=
  fun hk => Nat.lt_of_lt_of_le (h hk) hle

theorem Ends.of_kind {t : Token} (h : t.kind.binary? = none) (level : Nat) : Ends level (t :: rest) :=
  fun hk => by rw [List.headD_cons, h] at hk; cases hk

def Category.Ends : Category → List Token → Prop
  | whole, rest => NoteFormula.Ends 0 rest
  | tier level, rest => NoteFormula.Ends (level + 1) rest

namespace Reading

theorem bind_within {r : Reading Formula} {k : Formula → Reading Formula} {c c' : Cursor} {f : Formula}
    {s : Result ParseFault Cursor Formula} (h : Within limit depth n (r c) (.ok f c')) (hk : k f c' = s) :
    Within limit depth n ((r >>= k) c) s := by
  constructor
  · intro hle
    rw [bind_ok (h.fits hle), hk]
  · intro hlt
    obtain ⟨found, c', he⟩ := h.refused hlt
    exact ⟨found, c', bind_error he k⟩

theorem nested_within {r : Reading Formula} {k : Formula → Reading Formula} {f : Formula} {ts us : List Token}
    {s : Result ParseFault Cursor Formula}
    (h : depth + 1 ≤ limit → Within limit (depth + 1) n (r ⟨ts, depth + 1⟩) (.ok f ⟨us, depth + 1⟩))
    (hk : k f ⟨us, depth⟩ = s) :
    Within limit depth (n + 1) ((nested limit r >>= k) ⟨ts, depth⟩) s := by
  refine bind_within ⟨fun hle => ?_, fun hlt => ?_⟩ hk
  · unfold nested
    dsimp only
    rw [if_neg (by omega), (h (by omega)).fits (by omega)]
    rfl
  · unfold nested
    dsimp only
    by_cases hd : limit < depth + 1
    · rw [if_pos hd]
      exact ⟨_, _, rfl⟩
    · obtain ⟨found, c, he⟩ := (h (by omega)).refused (by omega)
      rw [if_neg hd, he]
      exact ⟨_, _, rfl⟩

/-- A chain that may go on for as long as there are tokens goes on as far as it can. -/
theorem chain_count {operand : Reading Formula} {level : Nat} {kinds : List TokenKind}
    {tighter : List (List TokenKind)} (hl : tiers.drop level = kinds :: tighter)
    (ho : Sound limit (.tier (level + 1)) operand) (hd : depth ≤ limit) (count count' : Nat) (left : Formula)
    (hs : AllSpelled rest) (hc : rest.length ≤ count) (hc' : rest.length ≤ count') :
    chain operand kinds count left ⟨rest, depth⟩ = chain operand kinds count' left ⟨rest, depth⟩ := by
  induction count generalizing rest count' left with
  | zero =>
    obtain rfl := List.length_eq_zero_iff.mp (Nat.le_zero.mp hc)
    cases count' <;> rfl
  | succ count ih =>
    cases count' with
    | zero =>
      obtain rfl := List.length_eq_zero_iff.mp (Nat.le_zero.mp hc')
      rfl
    | succ count' =>
      unfold chain
      rcases accept_cases kinds ⟨rest, depth⟩ with h | ⟨t, us, hrest, _, hk, h⟩
      · rw [bind_ok h, bind_ok h]
      · dsimp only at hrest
        subst hrest
        obtain ⟨op, hop⟩ := (contains_tier hl t.kind).mp hk
        rw [bind_ok h, bind_ok h]
        dsimp only
        rw [bind_ok (binaryOp_ok (hs t List.mem_cons_self) hop _),
          bind_ok (binaryOp_ok (hs t List.mem_cons_self) hop _), bind_apply, bind_apply]
        have hg := ho us depth hs.tail hd
        cases hr : operand ⟨us, depth⟩ with
        | error fault c => rfl
        | ok g c =>
          rw [hr] at hg
          obtain ⟨ts, n, hus, hdepth, _, _⟩ := hg
          rcases c with ⟨vs, d⟩
          dsimp only at hus hdepth
          subst hus hdepth
          simp only [List.length_cons, List.length_append] at hc hc'
          exact ih count' _ hs.tail.right (by omega) (by omega)

def ofCategory (limit count : Nat) : Category → Reading Formula
  | .whole => whole limit (operand limit count)
  | .tier level => tiered (operand limit count) (tiers.drop level)

/-- What that reading still does once it has read a formula: a chain goes on. -/
def goOn (limit count : Nat) : Category → Formula → Reading Formula
  | .whole, f => return f
  | .tier level, f => match tiers.drop level with
    | [] => return f
    | kinds :: tighter => do chain (tiered (operand limit count) tighter) kinds (← remaining) f

variable {count level : Nat} {f : Formula}

theorem ofCategory_tier (h : level < 6) :
    ofCategory limit count (.tier level) =
      ofCategory limit count (.tier (level + 1)) >>= goOn limit count (.tier level) := by
  interval_cases level <;> rfl

theorem goOn_apply {kinds : List TokenKind} {tighter : List (List TokenKind)}
    (hl : tiers.drop level = kinds :: tighter) :
    goOn limit count (.tier level) f ⟨rest, depth⟩ =
      chain (ofCategory limit count (.tier (level + 1))) kinds rest.length f ⟨rest, depth⟩ := by
  have hnext : tiers.drop (level + 1) = tighter := by rw [← List.tail_drop, hl, List.tail_cons]
  simp only [goOn, hl, ofCategory, hnext]
  rfl

theorem goOn_ends (h : Ends level rest) :
    goOn limit count (.tier level) f ⟨rest, depth⟩ = .ok f ⟨rest, depth⟩ := by
  cases hl : tiers.drop level with
  | nil => simp only [goOn, hl]; rfl
  | cons kinds tighter =>
    rw [goOn_apply hl]
    cases rest with
    | nil => rfl
    | cons t us =>
      have hk : kinds.contains t.kind = false := by
        refine Bool.eq_false_iff.mpr fun hk => ?_
        obtain ⟨op, hop⟩ := (contains_tier hl t.kind).mp hk
        exact Nat.lt_irrefl level (h hop)
      rw [List.length_cons]
      unfold chain
      rw [bind_ok (accept_none hk)]
      rfl

theorem operand_prefix {t : Token} {op : UnaryOp} (ht : t.Spelled) (h : t.kind.unary? = some op)
    (rest : List Token) (depth : Nat) :
    operand limit (count + 1) ⟨t :: rest, depth⟩ =
      (nested limit (operand limit count) >>= fun f => return .unary op f) ⟨rest, depth⟩ := by
  have he : t.kind ≠ .eof := by intro he; rw [he] at h; cases h
  rw [operand, bind_ok (accept_some rest depth he ((contains_unary t.kind).mpr ⟨op, h⟩))]
  exact bind_ok (unaryOp_ok ht h _) _

theorem operand_primary {t : Token} (h : t.kind.unary? = none) (rest : List Token) (depth : Nat) :
    operand limit (count + 1) ⟨t :: rest, depth⟩ =
      primary (ofCategory limit count .whole) ⟨t :: rest, depth⟩ := by
  have hk : [TokenKind.not, .minus].contains t.kind = false := by
    refine Bool.eq_false_iff.mpr fun hk => ?_
    obtain ⟨op, hop⟩ := (contains_unary t.kind).mp hk
    rw [h] at hop
    cases hop
  rw [operand, bind_ok (accept_none hk)]
  rfl

section Primary
variable {formula : Reading Formula} {t : Token}

theorem primary_literal (h : t.kind.isLiteral) (rest : List Token) (depth : Nat) :
    primary formula ⟨t :: rest, depth⟩ = .ok (.literal t.value) ⟨rest, depth⟩ := by
  rcases t with ⟨kind, value, raw⟩
  cases kind <;> first | rfl | cases h

theorem primary_reference {space : Namespace} (h : t.kind.space? = some space) (rest : List Token) (depth : Nat) :
    primary formula ⟨t :: rest, depth⟩ = .ok (.reference space t.value) ⟨rest, depth⟩ := by
  rcases t with ⟨kind, value, raw⟩
  cases kind <;> cases h <;> rfl

theorem primary_group (h : t.kind = .lparen) (rest : List Token) (depth : Nat) :
    primary formula ⟨t :: rest, depth⟩ =
      (formula >>= fun f => expect .rparen ")" "expression" >>= fun _ => return f) ⟨rest, depth⟩ := by
  rcases t with ⟨kind, value, raw⟩
  cases h
  rfl

theorem primary_conditional (h : t.kind = .ifWord) (rest : List Token) (depth : Nat) :
    primary formula ⟨t :: rest, depth⟩ = conditional formula ⟨rest, depth⟩ := by
  rcases t with ⟨kind, value, raw⟩
  cases h
  rfl

theorem primary_containment (h : t.kind = .containsWord) (rest : List Token) (depth : Nat) :
    primary formula ⟨t :: rest, depth⟩ = containment formula ⟨rest, depth⟩ := by
  rcases t with ⟨kind, value, raw⟩
  cases h
  rfl

theorem primary_lengthCall (h : t.kind = .lengthWord) (rest : List Token) (depth : Nat) :
    primary formula ⟨t :: rest, depth⟩ = lengthCall formula ⟨rest, depth⟩ := by
  rcases t with ⟨kind, value, raw⟩
  cases h
  rfl

end Primary

section Calls
variable {formula : Reading Formula} {l p q r : Token} {ts us vs : List Token} {c g : Formula} {k : Nat}

theorem group_within (hf : Within limit depth n (formula ⟨ts ++ r :: rest, depth⟩) (.ok f ⟨r :: rest, depth⟩))
    (hr : r.kind = .rparen) :
    Within limit depth n
      ((formula >>= fun f => expect .rparen ")" "expression" >>= fun _ => return f) ⟨ts ++ r :: rest, depth⟩)
      (.ok f ⟨rest, depth⟩) :=
  bind_within hf (by rw [bind_ok (expect_ok _ _ rest depth (by decide) hr)]; rfl)

theorem lengthCall_within (hl : l.kind = .lparen)
    (hf : Within limit depth n (formula ⟨ts ++ r :: rest, depth⟩) (.ok f ⟨r :: rest, depth⟩))
    (hr : r.kind = .rparen) :
    Within limit depth n (lengthCall formula ⟨l :: (ts ++ r :: rest), depth⟩) (.ok (.length f) ⟨rest, depth⟩) := by
  unfold lengthCall
  rw [bind_ok (expect_ok _ _ _ depth (by decide) hl)]
  exact bind_within hf (by rw [bind_ok (expect_ok _ _ rest depth (by decide) hr)]; rfl)

theorem containment_within (hl : l.kind = .lparen)
    (hf : Within limit depth m (formula ⟨ts ++ p :: (us ++ r :: rest), depth⟩)
      (.ok f ⟨p :: (us ++ r :: rest), depth⟩))
    (hp : p.kind = .comma)
    (hg : Within limit depth n (formula ⟨us ++ r :: rest, depth⟩) (.ok g ⟨r :: rest, depth⟩))
    (hr : r.kind = .rparen) :
    Within limit depth (max m n) (containment formula ⟨l :: (ts ++ p :: (us ++ r :: rest)), depth⟩)
      (.ok (.contains f g) ⟨rest, depth⟩) := by
  unfold containment
  rw [bind_ok (expect_ok _ _ _ depth (by decide) hl)]
  refine (bind_within hf (bind_ok (expect_ok _ _ _ depth (by decide) hp) _)).trans ?_
  exact bind_within hg (by rw [bind_ok (expect_ok _ _ rest depth (by decide) hr)]; rfl)

theorem conditional_test_within (hl : l.kind = .lparen)
    (hc : Within limit depth n (formula ⟨ts ++ r :: rest, depth⟩) (.ok c ⟨r :: rest, depth⟩))
    (hr : r.kind = .rparen) :
    Within limit depth n (conditional formula ⟨l :: (ts ++ r :: rest), depth⟩)
      (.ok (.conditional c (.literal (.bool true)) (.literal (.bool false))) ⟨rest, depth⟩) := by
  unfold conditional
  rw [bind_ok (expect_ok _ _ _ depth (by decide) hl)]
  refine bind_within hc ?_
  rw [bind_ok (accept_none (by rw [List.headD_cons, hr]; rfl))]
  dsimp only
  rw [bind_ok (expect_ok _ _ rest depth (by decide) hr)]
  rfl

theorem conditional_guarded_within (hl : l.kind = .lparen)
    (hc : Within limit depth m (formula ⟨ts ++ p :: (us ++ r :: rest), depth⟩)
      (.ok c ⟨p :: (us ++ r :: rest), depth⟩))
    (hp : p.kind = .comma)
    (hf : Within limit depth n (formula ⟨us ++ r :: rest, depth⟩) (.ok f ⟨r :: rest, depth⟩))
    (hr : r.kind = .rparen) :
    Within limit depth (max m n) (conditional formula ⟨l :: (ts ++ p :: (us ++ r :: rest)), depth⟩)
      (.ok (.conditional c f .absent) ⟨rest, depth⟩) := by
  unfold conditional
  rw [bind_ok (expect_ok _ _ _ depth (by decide) hl)]
  refine (bind_within hc (bind_ok (accept_some _ depth (by rw [hp]; decide) (by rw [hp]; rfl)) _)).trans ?_
  refine bind_within hf ?_
  rw [bind_ok (accept_none (by rw [List.headD_cons, hr]; rfl))]
  exact bind_ok (expect_ok _ _ rest depth (by decide) hr) _

theorem conditional_choice_within (hl : l.kind = .lparen)
    (hc : Within limit depth k (formula ⟨ts ++ p :: (us ++ q :: (vs ++ r :: rest)), depth⟩)
      (.ok c ⟨p :: (us ++ q :: (vs ++ r :: rest)), depth⟩))
    (hp : p.kind = .comma)
    (hf : Within limit depth m (formula ⟨us ++ q :: (vs ++ r :: rest), depth⟩)
      (.ok f ⟨q :: (vs ++ r :: rest), depth⟩))
    (hq : q.kind = .comma)
    (hg : Within limit depth n (formula ⟨vs ++ r :: rest, depth⟩) (.ok g ⟨r :: rest, depth⟩))
    (hr : r.kind = .rparen) :
    Within limit depth (max k (max m n))
      (conditional formula ⟨l :: (ts ++ p :: (us ++ q :: (vs ++ r :: rest))), depth⟩)
      (.ok (.conditional c f g) ⟨rest, depth⟩) := by
  unfold conditional
  rw [bind_ok (expect_ok _ _ _ depth (by decide) hl)]
  refine (bind_within hc (bind_ok (accept_some _ depth (by rw [hp]; decide) (by rw [hp]; rfl)) _)).trans ?_
  refine (bind_within hf (bind_ok (accept_some _ depth (by rw [hq]; decide) (by rw [hq]; rfl)) _)).trans ?_
  exact bind_within hg (bind_ok (expect_ok _ _ rest depth (by decide) hr) _)

end Calls

end Reading

open Reading

def ReadsAs (category : Category) (ts : List Token) (f : Formula) (n : Nat) : Prop :=
  ∀ (limit depth count : Nat) (rest : List Token), depth ≤ limit → (ts ++ rest).length ≤ count →
    AllSpelled (ts ++ rest) → category.Ends rest →
    Within limit depth n (ofCategory limit count category ⟨ts ++ rest, depth⟩)
      (goOn limit count category f ⟨rest, depth⟩)

namespace ReadsAs
variable {ts us vs : List Token} {c f g : Formula} {k level : Nat} {w l p q r t : Token}

theorem whole (h : ReadsAs (.tier 0) ts f n) : ReadsAs .whole ts f (n + 1) := by
  intro limit depth count rest hd hc hs he
  have hin : Within limit depth (n + 1)
      ((nested limit (ofCategory limit count (.tier 0)) >>= pure) ⟨ts ++ rest, depth⟩) (.ok f ⟨rest, depth⟩) :=
    nested_within (fun hd' => goOn_ends he ▸ h _ _ _ _ hd' hc hs (he.mono (Nat.zero_le 1))) rfl
  rwa [bind_pure] at hin

theorem tighter (hl : level < 6) (h : ReadsAs (.tier (level + 1)) ts f n) : ReadsAs (.tier level) ts f n := by
  intro limit depth count rest hd hc hs he
  rw [ofCategory_tier hl]
  exact bind_within (goOn_ends he ▸ h _ _ _ _ hd hc hs (he.mono (Nat.le_succ _))) rfl

theorem chain {op : BinaryOp} (hop : t.kind.binary? = some (level, op)) (hf : ReadsAs (.tier level) ts f m)
    (hg : ReadsAs (.tier (level + 1)) us g n) :
    ReadsAs (.tier level) (ts ++ t :: us) (.binary op f g) (max m n) := by
  intro limit depth count rest hd hc hs he
  rw [List.append_assoc, List.cons_append] at hc hs ⊢
  have hlt := TokenKind.binary?_level_lt hop
  obtain ⟨kinds, tighter, hl⟩ := List.exists_cons_of_ne_nil (l := tiers.drop level)
    (List.drop_eq_nil_iff.not.mpr (Nat.not_le_of_lt hlt))
  have hnt : t.kind ≠ .eof := by intro hk; rw [hk] at hop; cases hop
  have hleft := hf _ _ _ _ hd hc hs fun {k _} hk => by
    rw [List.headD_cons, hop] at hk
    cases hk
    exact Nat.lt_succ_self level
  -- The left part is read, and the chain goes on at its operator.
  rw [goOn_apply hl, List.length_cons] at hleft
  refine hleft.trans ?_
  rw [Reading.chain, bind_ok (accept_some _ depth hnt ((contains_tier hl t.kind).mpr ⟨op, hop⟩))]
  dsimp only
  rw [bind_ok (binaryOp_ok (hs.right t List.mem_cons_self) hop _)]
  have hlen : (us ++ rest).length ≤ count := by
    simp only [List.length_append, List.length_cons] at hc ⊢
    omega
  have hright := hg _ _ _ _ hd hlen hs.right.tail (he.mono (Nat.le_succ _))
  rw [goOn_ends he] at hright
  refine bind_within hright ?_
  -- It was started with a count for the longer rest, which makes no difference.
  rw [goOn_apply hl]
  exact chain_count hl (tier_sound limit count hlt) hd _ _ _ hs.right.tail.right
    (by rw [List.length_append]; omega) (Nat.le_refl _)

theorem operand {ts : List Token} (h : ∀ limit depth count rest, depth ≤ limit → (ts ++ rest).length ≤ count →
      AllSpelled (t :: ts ++ rest) →
      Within limit depth n (Reading.operand limit (count + 1) ⟨t :: ts ++ rest, depth⟩) (.ok f ⟨rest, depth⟩)) :
    ReadsAs (.tier 6) (t :: ts) f n := by
  intro limit depth count rest hd hc hs _
  cases count with
  | zero => cases hc
  | succ count => exact h limit depth count rest hd (Nat.le_of_succ_le_succ hc) hs

theorem unary {op : UnaryOp} (hop : t.kind.unary? = some op) (h : ReadsAs (.tier 6) ts f n) :
    ReadsAs (.tier 6) (t :: ts) (.unary op f) (n + 1) := by
  refine operand fun limit depth count rest hd hc hs => ?_
  rw [List.cons_append, operand_prefix (hs t List.mem_cons_self) hop]
  exact nested_within (fun hd' => h _ _ _ _ hd' hc hs.tail fun hk => Nat.lt_succ_of_lt (TokenKind.binary?_level_lt hk)) rfl

/-- What stands between brackets and commas is read up to the next of them. -/
theorem inner (h : ReadsAs .whole ts f n) {limit depth count : Nat} (hd : depth ≤ limit)
    (hc : (ts ++ t :: rest).length ≤ count) (hs : AllSpelled (ts ++ t :: rest)) (ht : t.kind.binary? = none) :
    Within limit depth n (ofCategory limit count .whole ⟨ts ++ t :: rest, depth⟩) (.ok f ⟨t :: rest, depth⟩) :=
  h limit depth count (t :: rest) hd hc hs (Ends.of_kind ht 0)

theorem literal (h : t.kind.isLiteral) : ReadsAs (.tier 6) [t] (.literal t.value) 0 := by
  refine operand fun limit depth count rest hd _ _ => .of_eq hd ?_
  rw [List.cons_append, operand_primary (by cases hk : t.kind <;> simp_all [TokenKind.isLiteral, TokenKind.unary?])]
  exact primary_literal h rest depth

theorem reference {space : Namespace} (h : t.kind.space? = some space) :
    ReadsAs (.tier 6) [t] (.reference space t.value) 0 := by
  refine operand fun limit depth count rest hd _ _ => .of_eq hd ?_
  rw [List.cons_append, operand_primary (by cases hk : t.kind <;> simp_all [TokenKind.space?, TokenKind.unary?])]
  exact primary_reference h rest depth

theorem group (hl : l.kind = .lparen) (h : ReadsAs .whole ts f n) (hr : r.kind = .rparen) :
    ReadsAs (.tier 6) (l :: ts ++ [r]) f n := by
  rw [List.cons_append]
  refine operand fun limit depth count rest hd hc hs => ?_
  simp only [List.cons_append, List.append_assoc, List.nil_append] at hc hs ⊢
  rw [operand_primary (by rw [hl]; rfl), primary_group hl]
  exact group_within (h.inner hd hc hs.tail (by rw [hr]; rfl)) hr

theorem length (hw : w.kind = .lengthWord) (hl : l.kind = .lparen) (h : ReadsAs .whole ts f n)
    (hr : r.kind = .rparen) : ReadsAs (.tier 6) (w :: l :: ts ++ [r]) (.length f) n := by
  rw [List.cons_append, List.cons_append]
  refine operand fun limit depth count rest hd hc hs => ?_
  simp only [List.cons_append, List.append_assoc, List.nil_append, List.length_cons] at hc hs ⊢
  rw [operand_primary (by rw [hw]; rfl), primary_lengthCall hw]
  exact lengthCall_within hl (h.inner hd (Nat.le_of_succ_le hc) hs.tail.tail (by rw [hr]; rfl)) hr

theorem contains (hw : w.kind = .containsWord) (hl : l.kind = .lparen) (hf : ReadsAs .whole ts f m)
    (hp : p.kind = .comma) (hg : ReadsAs .whole us g n) (hr : r.kind = .rparen) :
    ReadsAs (.tier 6) (w :: l :: ts ++ p :: us ++ [r]) (.contains f g) (max m n) := by
  simp only [List.cons_append, List.append_assoc]
  refine operand fun limit depth count rest hd hc hs => ?_
  simp only [List.cons_append, List.append_assoc, List.nil_append, List.length_cons, List.length_append] at hc hs ⊢
  rw [operand_primary (by rw [hw]; rfl), primary_containment hw]
  have hs := hs.tail.tail
  refine containment_within hl (hf.inner hd ?_ hs (by rw [hp]; rfl)) hp
    (hg.inner hd ?_ hs.right.tail (by rw [hr]; rfl)) hr
  all_goals simp only [List.length_append, List.length_cons]; omega

theorem test (hw : w.kind = .ifWord) (hl : l.kind = .lparen) (h : ReadsAs .whole ts c n) (hr : r.kind = .rparen) :
    ReadsAs (.tier 6) (w :: l :: ts ++ [r])
      (.conditional c (.literal (.bool true)) (.literal (.bool false))) n := by
  rw [List.cons_append, List.cons_append]
  refine operand fun limit depth count rest hd hc hs => ?_
  simp only [List.cons_append, List.append_assoc, List.nil_append, List.length_cons] at hc hs ⊢
  rw [operand_primary (by rw [hw]; rfl), primary_conditional hw]
  exact conditional_test_within hl (h.inner hd (Nat.le_of_succ_le hc) hs.tail.tail (by rw [hr]; rfl)) hr

theorem guarded (hw : w.kind = .ifWord) (hl : l.kind = .lparen) (hc : ReadsAs .whole ts c m)
    (hp : p.kind = .comma) (hf : ReadsAs .whole us f n) (hr : r.kind = .rparen) :
    ReadsAs (.tier 6) (w :: l :: ts ++ p :: us ++ [r]) (.conditional c f .absent) (max m n) := by
  simp only [List.cons_append, List.append_assoc]
  refine operand fun limit depth count rest hd hlen hs => ?_
  simp only [List.cons_append, List.append_assoc, List.nil_append, List.length_cons, List.length_append] at hlen hs ⊢
  rw [operand_primary (by rw [hw]; rfl), primary_conditional hw]
  have hs := hs.tail.tail
  refine conditional_guarded_within hl (hc.inner hd ?_ hs (by rw [hp]; rfl)) hp
    (hf.inner hd ?_ hs.right.tail (by rw [hr]; rfl)) hr
  all_goals simp only [List.length_append, List.length_cons]; omega

theorem choice (hw : w.kind = .ifWord) (hl : l.kind = .lparen) (hc : ReadsAs .whole ts c k)
    (hp : p.kind = .comma) (hf : ReadsAs .whole us f m) (hq : q.kind = .comma) (hg : ReadsAs .whole vs g n)
    (hr : r.kind = .rparen) :
    ReadsAs (.tier 6) (w :: l :: ts ++ p :: us ++ q :: vs ++ [r]) (.conditional c f g) (max k (max m n)) := by
  simp only [List.cons_append, List.append_assoc]
  refine operand fun limit depth count rest hd hlen hs => ?_
  simp only [List.cons_append, List.append_assoc, List.nil_append, List.length_cons, List.length_append] at hlen hs ⊢
  rw [operand_primary (by rw [hw]; rfl), primary_conditional hw]
  have hs := hs.tail.tail
  refine conditional_choice_within hl (hc.inner hd ?_ hs (by rw [hp]; rfl)) hp
    (hf.inner hd ?_ hs.right.tail (by rw [hq]; rfl)) hq
    (hg.inner hd ?_ hs.right.tail.right.tail (by rw [hr]; rfl)) hr
  all_goals simp only [List.length_append, List.length_cons]; omega

end ReadsAs

/-- Whatever the grammar derives is read. -/
theorem Derives.readsAs {category : Category} {ts : List Token} {f : Formula} (h : Derives category ts f n) :
    ReadsAs category ts f n := by
  induction h with
  | whole _ ih => exact ih.whole
  | tighter hl _ ih => exact ih.tighter hl
  | chain hop _ _ ihf ihg => exact ihf.chain hop ihg
  | unary hop _ ih => exact ih.unary hop
  | literal h => exact .literal h
  | reference h => exact .reference h
  | group hl _ hr ih => exact ih.group hl hr
  | test hw hl _ hr ih => exact ih.test hw hl hr
  | guarded hw hl _ hp _ hr ihc ihf => exact ihc.guarded hw hl hp ihf hr
  | choice hw hl _ hp _ hq _ hr ihc ihf ihg => exact ihc.choice hw hl hp ihf hq ihg hr
  | contains hw hl _ hp _ hr ihf ihg => exact ihf.contains hw hl hp ihg hr
  | length hw hl _ hr ih => exact ih.length hw hl hr

theorem Reading.complete_within {ts : List Token} {f : Formula} (h : Derives .whole ts f n) (limit : Nat)
    (hs : AllSpelled (ts ++ [.eof])) :
    Within limit 0 n (complete limit ⟨ts ++ [.eof], 0⟩) (.ok f ⟨[.eof], 0⟩) := by
  have hr : Within limit 0 n (whole limit (operand limit (ts ++ [Token.eof]).length) ⟨ts ++ [.eof], 0⟩)
      (.ok f ⟨[.eof], 0⟩) :=
    h.readsAs _ _ _ _ (Nat.zero_le _) (Nat.le_refl _) hs (Ends.of_kind rfl 0)
  rw [complete, bind_ok (remaining_apply _)]
  exact bind_within hr rfl

end NoteFormula

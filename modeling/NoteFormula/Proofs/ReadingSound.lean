import NoteFormula.Arguments.Answer
import NoteFormula.Proofs.ReadingSteps

/-! # Readings are sound

Whatever a reading makes of spelled tokens, the tokens it has taken derive the formula within the nesting that
was left, and any fault is one of the text. The notion carries the tokens that were read before, so that each
step hands on to the next what it has taken.
-/
namespace NoteFormula

open EStateM (Result)

variable {limit depth : Nat} {category : Category} {before rest : List Token}

/-- Together with the tokens read before, those taken from `rest` derive the formula. -/
def Explains (limit : Nat) (category : Category) (before rest : List Token) (depth : Nat) :
    Result ParseFault Cursor Formula → Prop
  | .ok f c => ∃ ts n, rest = ts ++ c.rest ∧ c.depth = depth ∧ depth + n ≤ limit ∧
      Derives category (before ++ ts) f n
  | .error fault _ => fault.isMisuse = false

theorem Explains.done {f : Formula} {n : Nat} (h : Derives category before f n) (hn : depth + n ≤ limit) :
    Explains limit category before rest depth (.ok f ⟨rest, depth⟩) :=
  ⟨[], n, rfl, rfl, hn, by rwa [List.append_nil]⟩

theorem Explains.after {ts us : List Token} {r : Result ParseFault Cursor Formula}
    (h : Explains limit category (before ++ ts) us depth r) :
    Explains limit category before (ts ++ us) depth r := by
  cases r with
  | ok f c =>
    obtain ⟨vs, n, hrest, hdepth, hn, hd⟩ := h
    exact ⟨ts ++ vs, n, by rw [hrest, List.append_assoc], hdepth, hn, by rwa [← List.append_assoc]⟩
  | error fault c => exact h

def AllSpelled (ts : List Token) : Prop := ∀ t ∈ ts, t.Spelled

theorem AllSpelled.right {ts us : List Token} (h : AllSpelled (ts ++ us)) : AllSpelled us :=
  fun t ht => h t (List.mem_append_right _ ht)

theorem AllSpelled.tail {t : Token} {ts : List Token} (h : AllSpelled (t :: ts)) : AllSpelled ts :=
  fun u hu => h u (List.mem_cons_of_mem _ hu)

namespace Reading

def Sound (limit : Nat) (category : Category) (r : Reading Formula) : Prop :=
  ∀ rest depth, AllSpelled rest → depth ≤ limit → Explains limit category [] rest depth (r ⟨rest, depth⟩)

/-- A sound reading hands its formula on, or its fault ends the matter. -/
theorem Sound.bind {inner : Category} {r : Reading Formula} (hr : Sound limit inner r)
    (hs : AllSpelled rest) (hd : depth ≤ limit) {k : Formula → Reading Formula}
    (hk : ∀ ts us f n, AllSpelled us → Derives inner ts f n → depth + n ≤ limit →
      Explains limit category (before ++ ts) us depth (k f ⟨us, depth⟩)) :
    Explains limit category before rest depth ((r >>= k) ⟨rest, depth⟩) := by
  have h := hr rest depth hs hd
  rw [bind_apply]
  cases hc : r ⟨rest, depth⟩ with
  | error fault c => rwa [hc] at h
  | ok f c =>
    rw [hc] at h
    obtain ⟨ts, n, hrest, hdepth, hn, hder⟩ := h
    rcases c with ⟨us, d⟩
    dsimp only at hrest hdepth
    subst hrest hdepth
    exact (hk ts us f n hs.right hder hn).after

theorem expect_explains {kind : TokenKind} {symbol place : String} (hs : AllSpelled rest)
    {k : Unit → Reading Formula}
    (hk : ∀ t us, AllSpelled us → t.kind = kind →
      Explains limit category (before ++ [t]) us depth (k () ⟨us, depth⟩)) :
    Explains limit category before rest depth ((expect kind symbol place >>= k) ⟨rest, depth⟩) := by
  rcases expect_cases kind symbol place ⟨rest, depth⟩ with h | ⟨t, us, hrest, ht, h⟩
  · rw [bind_error h]
    rfl
  · dsimp only at hrest
    subst hrest
    rw [bind_ok h]
    exact (hk t us hs.tail ht).after

theorem accept_explains {kinds : List TokenKind} (hs : AllSpelled rest) {k : Option Token → Reading Formula}
    (hnone : Explains limit category before rest depth (k none ⟨rest, depth⟩))
    (hsome : ∀ t us, AllSpelled us → t.Spelled → kinds.contains t.kind →
      Explains limit category (before ++ [t]) us depth (k (some t) ⟨us, depth⟩)) :
    Explains limit category before rest depth ((accept kinds >>= k) ⟨rest, depth⟩) := by
  rcases accept_cases kinds ⟨rest, depth⟩ with h | ⟨t, us, hrest, _, ht, h⟩
  · rwa [bind_ok h]
  · dsimp only at hrest
    subst hrest
    rw [bind_ok h]
    exact (hsome t us hs.tail (hs t List.mem_cons_self) ht).after

theorem nested_explains {inner : Category} {r : Reading Formula} (hr : Sound limit inner r)
    (hs : AllSpelled rest) {k : Formula → Reading Formula}
    (hk : ∀ ts us f n, AllSpelled us → Derives inner ts f n → depth + (n + 1) ≤ limit →
      Explains limit category (before ++ ts) us depth (k f ⟨us, depth⟩)) :
    Explains limit category before rest depth ((nested limit r >>= k) ⟨rest, depth⟩) := by
  rw [bind_apply]
  unfold nested
  dsimp only
  by_cases hlt : limit < depth + 1
  · rw [if_pos hlt]
    rfl
  · rw [if_neg hlt]
    have h := hr rest (depth + 1) hs (Nat.le_of_not_lt hlt)
    cases hc : r ⟨rest, depth + 1⟩ with
    | error fault c => rwa [hc] at h
    | ok f c =>
      rw [hc] at h
      obtain ⟨ts, n, hrest, hdepth, hn, hder⟩ := h
      rcases c with ⟨us, d⟩
      dsimp only at hrest hdepth
      subst hrest hdepth
      exact (hk ts us f n hs.right hder (by omega)).after

theorem whole_sound {operand : Reading Formula} (h : Sound limit (.tier 0) (tiered operand tiers)) :
    Sound limit .whole (whole limit operand) := by
  intro rest depth hs _
  have hw : Explains limit .whole [] rest depth ((nested limit (tiered operand tiers) >>= pure) ⟨rest, depth⟩) :=
    nested_explains h hs fun ts us f n _ hder hn => .done (.whole hder) hn
  rwa [bind_pure] at hw

/-- Each further operand makes the tokens read so far one longer chain. -/
theorem chain_explains {operand : Reading Formula} {level : Nat} {kinds : List TokenKind}
    {tighter : List (List TokenKind)} (hl : tiers.drop level = kinds :: tighter)
    (ho : Sound limit (.tier (level + 1)) operand) (count : Nat) {left : Formula} {m : Nat}
    (hs : AllSpelled rest) (hd : depth ≤ limit) (hleft : Derives (.tier level) before left m)
    (hm : depth + m ≤ limit) :
    Explains limit (.tier level) before rest depth (chain operand kinds count left ⟨rest, depth⟩) := by
  induction count generalizing before rest left m with
  | zero => exact .done hleft hm
  | succ count ih =>
    unfold chain
    refine accept_explains hs (.done hleft hm) fun t us hus ht hk => ?_
    obtain ⟨op, hop⟩ := (contains_tier hl t.kind).mp hk
    dsimp only
    rw [bind_ok (binaryOp_ok ht hop _)]
    refine ho.bind hus hd fun ts vs g n hvs hg hn => ?_
    rw [List.append_assoc, List.singleton_append]
    exact ih hvs (.chain hop hleft hg) (by omega)

theorem tiered_sound {operand : Reading Formula} (ho : Sound limit (.tier 6) operand) :
    ∀ (tighter : List (List TokenKind)) (level : Nat), level ≤ 6 → tiers.drop level = tighter →
      Sound limit (.tier level) (tiered operand tighter)
  | [], level, hle, hl => by
    have h : 6 ≤ level := List.drop_eq_nil_iff.mp hl
    rwa [Nat.le_antisymm hle h]
  | kinds :: tighter, level, hle, hl => by
    have hlt : level < 6 := Nat.lt_of_le_of_ne hle fun h => by subst h; cases hl
    have hnext : tiers.drop (level + 1) = tighter := by rw [← List.tail_drop, hl, List.tail_cons]
    have ih := tiered_sound ho tighter (level + 1) hlt hnext
    intro rest depth hs hd
    unfold tiered
    refine ih.bind hs hd fun ts us f n hus hf hn => ?_
    rw [bind_ok (remaining_apply _)]
    exact chain_explains hl ih _ hus hd (.tighter hlt hf) hn

section Calls
variable {formula : Reading Formula} {w : Token}

theorem conditional_explains (hf : Sound limit .whole formula) (hw : w.kind = .ifWord)
    (hs : AllSpelled rest) (hd : depth ≤ limit) :
    Explains limit (.tier 6) [w] rest depth (conditional formula ⟨rest, depth⟩) := by
  unfold conditional
  refine expect_explains hs fun l us hus hl => ?_
  refine hf.bind hus hd fun ts vs c n hvs hc hn => ?_
  refine accept_explains hvs ?_ fun p xs hxs _ hp => ?_
  · refine expect_explains hvs fun r xs _ hr => .done ?_ hn
    simpa using Derives.test hw hl hc hr
  · refine hf.bind hxs hd fun ts' ys f n' hys hf' hn' => ?_
    have hp : p.kind = .comma := by simpa using hp
    refine accept_explains hys ?_ fun q zs hzs _ hq => ?_
    · refine expect_explains hys fun r zs _ hr => .done (n := max n n') ?_ (by omega)
      simpa using Derives.guarded hw hl hc hp hf' hr
    · refine hf.bind hzs hd fun ts'' as g n'' has hg hn'' => ?_
      have hq : q.kind = .comma := by simpa using hq
      refine expect_explains has fun r bs _ hr => .done (n := max n (max n' n'')) ?_ (by omega)
      simpa using Derives.choice hw hl hc hp hf' hq hg hr

theorem containment_explains (hf : Sound limit .whole formula) (hw : w.kind = .containsWord)
    (hs : AllSpelled rest) (hd : depth ≤ limit) :
    Explains limit (.tier 6) [w] rest depth (containment formula ⟨rest, depth⟩) := by
  unfold containment
  refine expect_explains hs fun l us hus hl => ?_
  refine hf.bind hus hd fun ts vs f n hvs hf' hn => ?_
  refine expect_explains hvs fun p xs hxs hp => ?_
  refine hf.bind hxs hd fun ts' ys g n' hys hg hn' => ?_
  refine expect_explains hys fun r zs _ hr => .done (n := max n n') ?_ (by omega)
  simpa using Derives.contains hw hl hf' hp hg hr

theorem lengthCall_explains (hf : Sound limit .whole formula) (hw : w.kind = .lengthWord)
    (hs : AllSpelled rest) (hd : depth ≤ limit) :
    Explains limit (.tier 6) [w] rest depth (lengthCall formula ⟨rest, depth⟩) := by
  unfold lengthCall
  refine expect_explains hs fun l us hus hl => ?_
  refine hf.bind hus hd fun ts vs f n hvs hf' hn => ?_
  refine expect_explains hvs fun r xs _ hr => .done ?_ hn
  simpa using Derives.length hw hl hf' hr

theorem group_explains (hf : Sound limit .whole formula) (hw : w.kind = .lparen)
    (hs : AllSpelled rest) (hd : depth ≤ limit) :
    Explains limit (.tier 6) [w] rest depth
      ((do let inner ← formula; expect .rparen ")" "expression"; return inner : Reading Formula) ⟨rest, depth⟩) := by
  refine hf.bind hs hd fun ts us f n hus hf' hn => ?_
  refine expect_explains hus fun r vs _ hr => .done ?_ hn
  simpa using Derives.group hw hf' hr

theorem primary_sound (hf : Sound limit .whole formula) : Sound limit (.tier 6) (primary formula) := by
  intro rest depth hs hd
  cases rest with
  | nil => rfl
  | cons t rest =>
    have take {r} (h : Explains limit (.tier 6) ([] ++ [t]) rest depth r) :
        Explains limit (.tier 6) [] ([t] ++ rest) depth r := h.after
    rcases t with ⟨kind, value, raw⟩
    cases kind with
    | ifWord => exact take (conditional_explains hf rfl hs.tail hd)
    | containsWord => exact take (containment_explains hf rfl hs.tail hd)
    | lengthWord => exact take (lengthCall_explains hf rfl hs.tail hd)
    | lparen => exact take (group_explains hf rfl hs.tail hd)
    | boolean | number | text | word => exact take (.done (.literal rfl) hd)
    | noteRef | fileRef => exact take (.done (.reference rfl) hd)
    | _ => rfl

end Calls

theorem operand_sound (limit count : Nat) : Sound limit (.tier 6) (operand limit count) := by
  induction count with
  | zero => exact fun rest depth _ _ => rfl
  | succ count ih =>
    intro rest depth hs hd
    unfold operand
    refine accept_explains hs ?_ fun t us hus ht hk => ?_
    · exact primary_sound (whole_sound (tiered_sound ih tiers 0 (Nat.zero_le 6) rfl)) rest depth hs hd
    · obtain ⟨op, hop⟩ := (contains_unary t.kind).mp hk
      dsimp only
      rw [bind_ok (unaryOp_ok ht hop _)]
      refine nested_explains ih hus fun ts vs f n _ hf hn => .done ?_ hn
      simpa using Derives.unary hop hf

theorem tier_sound (limit count : Nat) {level : Nat} (hl : level ≤ 6) :
    Sound limit (.tier level) (tiered (operand limit count) (tiers.drop level)) :=
  tiered_sound (operand_sound limit count) _ level hl rfl

theorem ofWhole_sound (limit count : Nat) : Sound limit .whole (whole limit (operand limit count)) :=
  whole_sound (tier_sound limit count (Nat.zero_le 6))

theorem complete_ok {f : Formula} {c : Cursor} (hs : AllSpelled rest)
    (h : complete limit ⟨rest, 0⟩ = .ok f c) :
    ∃ ts n, rest = ts ++ c.rest ∧ (c.rest.headD .eof).kind = .eof ∧ n ≤ limit ∧ Derives .whole ts f n := by
  have hw := ofWhole_sound limit rest.length rest 0 hs (Nat.zero_le _)
  rw [complete, bind_ok (remaining_apply _), bind_apply] at h
  cases hr : whole limit (operand limit rest.length) ⟨rest, 0⟩ with
  | error fault c => rw [hr] at h; cases h
  | ok g c' =>
    rw [hr] at hw h
    obtain ⟨ts, n, hrest, _, hn, hd⟩ := hw
    dsimp only at h
    rw [bind_ok (peek_apply c')] at h
    split at h
    · rename_i he
      cases h
      exact ⟨ts, n, hrest, he, by omega, hd⟩
    · cases h

theorem complete_error {fault : ParseFault} {c : Cursor} (hs : AllSpelled rest)
    (h : complete limit ⟨rest, 0⟩ = .error fault c) : fault.isMisuse = false := by
  have hw := ofWhole_sound limit rest.length rest 0 hs (Nat.zero_le _)
  rw [complete, bind_ok (remaining_apply _), bind_apply] at h
  cases hr : whole limit (operand limit rest.length) ⟨rest, 0⟩ with
  | error fault c =>
    rw [hr] at hw h
    cases h
    exact hw
  | ok g c' =>
    rw [hr] at h
    dsimp only at h
    rw [bind_ok (peek_apply c')] at h
    split at h <;> cases h
    rfl

end Reading

end NoteFormula

import NoteFormula.Proofs.NestingLimits

/-! # Repeated calls of a parser

A parser that is asked again goes on from where it stopped. It never takes an end token, so what follows the first
one is never looked at. A refusal at the limit leaves the parser one level deeper, and nothing else does: each call
is that of a new parser over the remaining tokens, with a limit lower by the refusals so far.
-/
namespace NoteFormula

open EStateM (Result)
open Reading

def ParseFault.unnumbered : ParseFault → ParseFault
  | tooDeep _ found => tooDeep 0 found
  | fault => fault

def Reading.isRefused : Except ParseFault Formula → Bool
  | .ok _ => false
  | .error fault => fault.isTooDeep

variable {tokens : List Token}

def firstEnd (tokens : List Token) : Nat := tokens.findIdx fun t => t.kind = .eof

theorem Closed.firstEnd_lt (h : Closed tokens) : firstEnd tokens < tokens.length := by
  obtain ⟨e, hlast, he⟩ := h
  exact List.findIdx_lt_length_of_exists ⟨e, List.mem_of_getLast? hlast, by simpa using he⟩

theorem firstEnd_kind (h : firstEnd tokens < tokens.length) : tokens[firstEnd tokens].kind = .eof := by
  have hend := List.findIdx_getElem (w := h)
  exact of_decide_eq_true hend

namespace Parser

def after : Nat → Parser → Parser
  | 0, p => p
  | calls + 1, p => after calls p.next.2

variable {p p' : Parser} {limit : Nat}

theorem after_succ (p : Parser) (calls : Nat) : p.after (calls + 1) = (p.after calls).next.2 := by
  induction calls generalizing p with
  | zero => rfl
  | succ calls ih => exact ih p.next.2

theorem outcomes_succ (p : Parser) (calls : Nat) :
    p.outcomes (calls + 1) = p.outcomes calls ++ [(p.after calls).next.1] := by
  induction calls generalizing p with
  | zero => rfl
  | succ calls ih =>
    have hnext := ih p.next.2
    change p.next.1 :: p.next.2.outcomes (calls + 1) = p.next.1 :: p.next.2.outcomes calls ++ [_]
    rw [hnext]
    rfl

theorem next_tokens (p : Parser) : p.next.2.tokens = p.tokens ∧ p.next.2.limit = p.limit := by
  rw [next_eq]
  exact ⟨rfl, rfl⟩

theorem next_cursor (p : Parser) : ∃ taken, p.cursor.rest = taken ++ p.next.2.cursor.rest ∧
    (∀ t ∈ taken, t.kind ≠ .eof) ∧
    p.next.2.cursor.depth = p.cursor.depth + [p.next.1].countP isRefused := by
  have hcourse := complete_course _ (Comparison.aligned_rest (Nat.le_refl (p.limit + p.cursor.depth)) p.cursor.rest)
  rw [next_eq]
  dsimp only at hcourse ⊢
  generalize complete p.limit p.cursor = x at hcourse ⊢
  cases hcourse with
  | ok taken hrest ht hsecond => exact ⟨taken, hrest, ht, rfl⟩
  | fault taken hrest ht hf hsecond =>
    refine ⟨taken, hrest, ht, ?_⟩
    simp [outcome, stop, isRefused, hf]
  | refused taken hrest ht hlead hsecond => exact ⟨taken, hrest, ht, rfl⟩

/-- A call with room for a level is the first call of a new parser over what is left, whose limit is that room. -/
theorem next_fresh (h : Closed p.cursor.rest) {room : Int} (hroom : 1 ≤ room) (heq : p.limit = p.cursor.depth + room) :
    p.next.1.mapError ParseFault.unnumbered = (parse p.cursor.rest room).mapError ParseFault.unnumbered := by
  have hle : p.limit + 0 ≤ room.toNat + p.cursor.depth := by omega
  have hcourse := complete_course _ (Comparison.aligned_rest hle p.cursor.rest)
  rw [next_eq, parse_eq_outcome hroom h]
  rcases hcourse.again h with hsame | ⟨found, hdeep, hfresh⟩
  · exact congrArg _ hsame.symm
  · have heven : p.limit + 0 = room.toNat + p.cursor.depth := by omega
    have hrefused := hfresh heven
    dsimp only at hdeep hrefused ⊢
    rw [hdeep, hrefused]
    rfl

/-- A call without such room is refused before it has taken anything. -/
theorem next_refused (h : p.limit ≤ p.cursor.depth) :
    p.next.1 = .error (.tooDeep p.limit (p.cursor.rest.headD .eof)) ∧ p.next.2.cursor.rest = p.cursor.rest := by
  have hwhole (r : Reading Formula) : nested p.limit r p.cursor =
      .error (.tooDeep p.limit (p.cursor.rest.headD .eof)) ⟨p.cursor.rest, p.cursor.depth + 1⟩ :=
    if_pos (Nat.lt_succ_of_le h)
  rw [next_eq, complete, bind_ok (remaining_apply _)]
  dsimp only
  rw [whole, bind_error (hwhole _)]
  exact ⟨rfl, rfl⟩

structure Stands (p : Parser) : Prop where
  rest : p.cursor.rest = p.tokens.drop p.position
  taken : ∀ t ∈ p.tokens.take p.position, t.kind ≠ .eof

theorem stands_of (taken : List Token) (h : p.tokens = taken ++ p.cursor.rest) (ht : ∀ t ∈ taken, t.kind ≠ .eof) :
    p.Stands ∧ p.position = taken.length := by
  have hposition : p.position = taken.length := by
    rw [position, h, List.length_append, Nat.add_sub_cancel]
  refine ⟨⟨?_, ?_⟩, hposition⟩
  · rw [hposition, h, List.drop_left]
  · rw [hposition, h, List.take_left]
    exact ht

theorem Stands.next (h : p.Stands) : p.next.2.Stands ∧ p.position ≤ p.next.2.position := by
  obtain ⟨more, hrest, hmore, -⟩ := p.next_cursor
  have hjoined : p.next.2.tokens = (p.tokens.take p.position ++ more) ++ p.next.2.cursor.rest := by
    rw [p.next_tokens.1, List.append_assoc, ← hrest, h.rest, List.take_append_drop]
  obtain ⟨hstands, hposition⟩ := stands_of _ hjoined (List.forall_mem_append.mpr ⟨h.taken, hmore⟩)
  refine ⟨hstands, ?_⟩
  have hle : p.position ≤ p.tokens.length := Nat.sub_le _ _
  rw [hposition, List.length_append, List.length_take, Nat.min_eq_left hle]
  exact Nat.le_add_right _ _

theorem Stands.position_le (h : p.Stands) : p.position ≤ firstEnd p.tokens := by
  refine Nat.le_of_not_lt fun hlt => ?_
  have hlength : firstEnd p.tokens < p.tokens.length := Nat.lt_of_lt_of_le hlt (Nat.sub_le _ _)
  have hmem : p.tokens[firstEnd p.tokens] ∈ p.tokens.take p.position :=
    List.mem_take_iff_getElem.mpr ⟨_, Nat.lt_min.mpr ⟨hlt, hlength⟩, rfl⟩
  exact h.taken _ hmem (firstEnd_kind hlength)

/-- What any number of calls leaves as it is, and what it counts. -/
theorem after_spec (h : p.Stands) (calls : Nat) : (p.after calls).Stands ∧
    (p.after calls).tokens = p.tokens ∧ (p.after calls).limit = p.limit ∧
    (p.after calls).cursor.depth = p.cursor.depth + (p.outcomes calls).countP isRefused := by
  induction calls with
  | zero => exact ⟨h, rfl, rfl, rfl⟩
  | succ calls ih =>
    obtain ⟨hstands, htokens, hlimit, hdepth⟩ := ih
    obtain ⟨-, -, -, hnext⟩ := (p.after calls).next_cursor
    have hsame := (p.after calls).next_tokens
    rw [after_succ, outcomes_succ, List.countP_append, hnext, hdepth, Nat.add_assoc]
    exact ⟨hstands.next.1, hsame.1.trans htokens, hsame.2.trans hlimit, rfl⟩

theorem after_start (hp : ⟨tokens, limit, ⟨tokens, 0⟩⟩ = p) (calls : Nat) : (p.after calls).Stands ∧
    (p.after calls).tokens = tokens ∧ (p.after calls).limit = limit ∧
    (p.after calls).cursor.depth = (p.outcomes calls).countP isRefused := by
  subst hp
  obtain ⟨hstart, -⟩ := stands_of (p := ⟨tokens, limit, ⟨tokens, 0⟩⟩) [] rfl (by simp)
  obtain ⟨hstands, htokens, hlimit, hdepth⟩ := after_spec hstart calls
  exact ⟨hstands, htokens, hlimit, hdepth.trans (Nat.zero_add _)⟩

structure Alike (p p' : Parser) : Prop where
  limit : p'.limit = p.limit
  depth : p'.cursor.depth = p.cursor.depth
  rest : ∃ q tail tail', p.cursor.rest = q ++ tail ∧ p'.cursor.rest = q ++ tail' ∧ ∃ e ∈ q, e.kind = .eof

theorem Alike.next (h : p.Alike p') : p'.next.1 = p.next.1 ∧ p.next.2.Alike p'.next.2 := by
  obtain ⟨q, tail, tail', hrest, hrest', e, he, hend⟩ := h.rest
  have haligned : (Comparison.mk p.limit p'.limit tail tail').Aligned p.cursor p'.cursor := by
    refine ⟨by rw [h.limit, h.depth], fun q' _ hq' => ?_⟩
    rw [hrest] at hq'
    rw [hrest', List.append_cancel_right hq']
  have hcourse := complete_course _ haligned
  -- No end token is taken, so the one in the common part is still there.
  have hleft {taken rest : List Token} (hc : p.cursor.rest = taken ++ rest) (ht : ∀ t ∈ taken, t.kind ≠ .eof) :
      ∃ left, left ≠ [] ∧ rest = left ++ tail ∧ e ∈ left := by
    rw [hrest] at hc
    rcases List.append_eq_append_iff.mp hc with ⟨more, rfl, -⟩ | ⟨left, rfl, hleft⟩
    · exact absurd hend (ht e (List.mem_append_left _ he))
    · have hmem := (List.mem_append.mp he).resolve_left fun htaken => ht e htaken hend
      exact ⟨left, List.ne_nil_of_mem hmem, hleft, hmem⟩
  rw [next_eq, next_eq]
  dsimp only at hcourse ⊢
  generalize complete p.limit p.cursor = x at hcourse ⊢
  cases hcourse with
  | ok taken hc ht hsecond =>
    obtain ⟨left, hne, hrest, hmem⟩ := hleft hc ht
    rw [hsecond left hne hrest]
    exact ⟨rfl, h.limit, h.depth, left, tail, tail', hrest, rfl, e, hmem, hend⟩
  | fault taken hc ht hf hsecond =>
    obtain ⟨left, hne, hrest, hmem⟩ := hleft hc ht
    rw [hsecond left hne hrest]
    exact ⟨rfl, h.limit, h.depth, left, tail, tail', hrest, rfl, e, hmem, hend⟩
  | refused taken hc ht hlead hsecond =>
    obtain ⟨left, hne, hrest, hmem⟩ := hleft hc ht
    rw [hsecond left hne hrest (by rw [h.limit, h.depth])]
    exact ⟨by rw [h.limit]; rfl, h.limit, congrArg (· + 1) h.depth, left, tail, tail', hrest, rfl, e, hmem, hend⟩

theorem Alike.outcomes_eq (h : p.Alike p') (calls : Nat) : p'.outcomes calls = p.outcomes calls := by
  induction calls generalizing p p' with
  | zero => rfl
  | succ calls ih =>
    obtain ⟨hsame, hnext⟩ := h.next
    change p'.next.1 :: p'.next.2.outcomes calls = p.next.1 :: p.next.2.outcomes calls
    rw [hsame, ih hnext]

end Parser

/-- Each call of a parser stays before the first end token and never goes back, the depth counts the calls that were
refused, and each call is the first of a new parser over what is left, with a limit lower by that count. What comes
after the first end token makes no difference. -/
theorem repeated_calls (tokens : List Token) (h : Closed tokens) (limit : Int) (hl : 1 ≤ limit) :
    firstEnd tokens < tokens.length ∧ ∃ p, Parser.ofTokens tokens limit = .ok p ∧
      (∀ calls : Nat,
        let now := p.after calls
        let refusals := (p.outcomes calls).countP isRefused
        let room := limit - refusals
        now.position ≤ firstEnd tokens ∧
        now.position ≤ (p.after (calls + 1)).position ∧
        now.cursor = ⟨tokens.drop now.position, refusals⟩ ∧
        p.outcomes (calls + 1) = p.outcomes calls ++ [now.next.1] ∧
        (1 ≤ room → now.next.1.mapError ParseFault.unnumbered =
          (parse (tokens.drop now.position) room).mapError ParseFault.unnumbered) ∧
        (room < 1 → now.next.1 = .error (.tooDeep limit.toNat ((tokens.drop now.position).headD .eof)) ∧
          (p.after (calls + 1)).position = now.position)) ∧
      ∀ tokens', Closed tokens' → tokens'.take (firstEnd tokens + 1) = tokens.take (firstEnd tokens + 1) →
        ∃ p', Parser.ofTokens tokens' limit = .ok p' ∧ ∀ calls, p'.outcomes calls = p.outcomes calls := by
  refine ⟨h.firstEnd_lt, _, Parser.ofTokens_closed hl h, fun calls => ?_, fun tokens' h' htake => ?_⟩
  · generalize hp : (⟨tokens, limit.toNat, ⟨tokens, 0⟩⟩ : Parser) = p
    obtain ⟨hstands, htokens, hlimit, hdepth⟩ := Parser.after_start hp calls
    intro now refusals room
    have hrest : now.cursor.rest = tokens.drop now.position := by rw [hstands.rest, htokens]
    have hposition := hstands.position_le
    have hclosed : Closed now.cursor.rest := by
      rw [← List.take_append_drop now.position tokens, ← hrest] at h
      exact (h.left (htokens ▸ hstands.taken)).2
    have hcursor : now.cursor = ⟨tokens.drop now.position, refusals⟩ := by
      rw [← hrest]
      exact congrArg (Cursor.mk _) hdepth
    have hroom : (now.limit : Int) = now.cursor.depth + room := by
      have hlevel : (limit.toNat : Int) = limit := Int.toNat_of_nonneg (Int.le_trans (by decide) hl)
      rw [hlimit, hdepth, hlevel]
      exact (add_sub_cancel _ _).symm
    refine ⟨htokens ▸ hposition, ?_, hcursor, p.outcomes_succ calls, fun hlevel => ?_, fun hlevel => ?_⟩
    · rw [Parser.after_succ]
      exact hstands.next.2
    · rw [← hrest]
      exact Parser.next_fresh hclosed hlevel hroom
    · obtain ⟨hsame, hstay⟩ := Parser.next_refused (p := now) (by omega)
      rw [hrest, hlimit] at hsame
      refine ⟨hsame, ?_⟩
      rw [Parser.after_succ, Parser.position, hstay, now.next_tokens.1]
      rfl
  · refine ⟨_, Parser.ofTokens_closed hl h', Parser.Alike.outcomes_eq ⟨rfl, rfl, ?_⟩⟩
    have hlt := h.firstEnd_lt
    have hend : tokens[firstEnd tokens] ∈ tokens.take (firstEnd tokens + 1) :=
      List.mem_take_iff_getElem.mpr ⟨_, Nat.lt_min.mpr ⟨Nat.lt_succ_self _, hlt⟩, rfl⟩
    refine ⟨_, _, tokens'.drop (firstEnd tokens + 1), (List.take_append_drop (firstEnd tokens + 1) tokens).symm, ?_,
      _, hend, firstEnd_kind hlt⟩
    rw [← htake]
    exact (List.take_append_drop _ _).symm

open Token in
/-- The refusal after one prefix leaves room for one level, the second call uses it, and the third stands at the end
that the second has seen. -/
theorem prefixes_then_end :
    let a := spelled .word ['a']
    let rest := [a, eof, spelled .word ['b'], eof]
    let tokens := spelled .minus ['-'] :: spelled .minus ['-'] :: rest
    Closed tokens ∧ (1 : Int) ≤ 2 ∧ ∃ p, Parser.ofTokens tokens 2 = .ok p ∧
      p.outcomes 3 = [.error (.tooDeep 2 a), .ok (.literal (.text "a")), .error (.endOfInput eof)] ∧
      (parse rest 1).mapError ParseFault.unnumbered = .ok (.literal (.text "a")) ∧ (p.after 3).position ≤ 3 := by
  intro a rest tokens
  have hclosed : Closed tokens := closed_append_end [_, _, _, _, _]
  obtain ⟨-, p, hp, hcalls, -⟩ := repeated_calls tokens hclosed 2 (by decide)
  have hthird : (p.after 3).position ≤ firstEnd tokens := (hcalls 3).1
  cases hp
  obtain ⟨-, -, -, -, hfresh, -⟩ := hcalls 1
  exact ⟨hclosed, by decide, _, rfl, rfl, (hfresh (by decide)).symm, hthird⟩

end NoteFormula

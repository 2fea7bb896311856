import Mathlib.Tactic.IntervalCases
import NoteFormula.Proofs.Grammar

/-! # Single steps of a reading

What each step of a reading does to the cursor, so that the readings built from them need not be unfolded
down to the state.
-/
namespace NoteFormula

open EStateM (Result)

namespace BinaryOp

theorem ofSymbol?_symbol (op : BinaryOp) : ofSymbol? op.symbol = some op := by
  cases op <;> rfl

end BinaryOp

namespace UnaryOp

theorem ofSymbol?_symbol (op : UnaryOp) : ofSymbol? op.symbol = some op := by
  cases op <;> rfl

end UnaryOp

namespace Reading
variable {α β : Type}

theorem bind_apply (r : Reading α) (k : α → Reading β) (c : Cursor) :
    (r >>= k) c = match r c with
      | .ok a c' => k a c'
      | .error fault c' => .error fault c' := by
  change EStateM.bind r k c = _
  unfold EStateM.bind
  cases r c <;> rfl

theorem bind_ok {r : Reading α} {a : α} {c c' : Cursor} (h : r c = .ok a c') (k : α → Reading β) :
    (r >>= k) c = k a c' := by rw [bind_apply, h]

theorem bind_error {r : Reading α} {fault : ParseFault} {c c' : Cursor} (h : r c = .error fault c')
    (k : α → Reading β) : (r >>= k) c = .error fault c' := by rw [bind_apply, h]

@[simp] theorem peek_apply (c : Cursor) : peek c = .ok (c.rest.headD .eof) c := rfl
@[simp] theorem remaining_apply (c : Cursor) : remaining c = .ok c.rest.length c := rfl

theorem accept_eq (kinds : List TokenKind) (c : Cursor) :
    accept kinds c =
      if (c.rest.headD .eof).kind ≠ .eof ∧ kinds.contains (c.rest.headD .eof).kind then
        .ok (some (c.rest.headD .eof)) ⟨c.rest.tail, c.depth⟩
      else .ok none c := by
  unfold accept
  rw [bind_ok (peek_apply c)]
  simp only [bne_iff_ne, Bool.and_eq_true]
  split <;> rfl

theorem accept_some {kinds : List TokenKind} {t : Token} (rest : List Token) (depth : Nat)
    (he : t.kind ≠ .eof) (hk : kinds.contains t.kind) :
    accept kinds ⟨t :: rest, depth⟩ = .ok (some t) ⟨rest, depth⟩ := by
  rw [accept_eq, List.headD_cons, if_pos ⟨he, hk⟩]
  rfl

theorem accept_none {kinds : List TokenKind} {c : Cursor}
    (h : kinds.contains (c.rest.headD .eof).kind = false) : accept kinds c = .ok none c := by
  rw [accept_eq, if_neg fun hk => by rw [h] at hk; exact Bool.false_ne_true hk.2]

theorem accept_cases (kinds : List TokenKind) (c : Cursor) :
    accept kinds c = .ok none c ∨
    ∃ t rest, c.rest = t :: rest ∧ t.kind ≠ .eof ∧ kinds.contains t.kind ∧
      accept kinds c = .ok (some t) ⟨rest, c.depth⟩ := by
  rcases c with ⟨_ | ⟨t, rest⟩, depth⟩
  · exact Or.inl (by rw [accept_eq]; rfl)
  · by_cases h : t.kind ≠ .eof ∧ kinds.contains t.kind
    · exact Or.inr ⟨t, rest, rfl, h.1, h.2, accept_some rest depth h.1 h.2⟩
    · exact Or.inl (by rw [accept_eq, List.headD_cons, if_neg h])

theorem expect_ok {kind : TokenKind} {t : Token} (symbol place : String) (rest : List Token) (depth : Nat)
    (he : kind ≠ .eof) (hk : t.kind = kind) :
    expect kind symbol place ⟨t :: rest, depth⟩ = .ok () ⟨rest, depth⟩ := by
  unfold expect
  rw [bind_ok (accept_some rest depth (hk ▸ he) (by simp [hk]))]
  rfl

theorem expect_cases (kind : TokenKind) (symbol place : String) (c : Cursor) :
    expect kind symbol place c = .error (.expected symbol place (c.rest.headD .eof)) c ∨
    ∃ t rest, c.rest = t :: rest ∧ t.kind = kind ∧ expect kind symbol place c = .ok () ⟨rest, c.depth⟩ := by
  unfold expect
  rcases accept_cases [kind] c with h | ⟨t, rest, hc, _, hk, h⟩
  · exact Or.inl (by rw [bind_ok h]; exact bind_ok (peek_apply c) _)
  · exact Or.inr ⟨t, rest, hc, by simpa using hk, by rw [bind_ok h]; rfl⟩

theorem binaryOp_ok {t : Token} {level : Nat} {op : BinaryOp} (ht : t.Spelled)
    (h : t.kind.binary? = some (level, op)) (c : Cursor) : binaryOp t c = .ok op c := by
  unfold binaryOp
  split
  · rename_i hand
    rw [hand] at h
    cases h
    rfl
  · rw [ht.binary h, BinaryOp.ofSymbol?_symbol]
    rfl

theorem unaryOp_ok {t : Token} {op : UnaryOp} (ht : t.Spelled) (h : t.kind.unary? = some op) (c : Cursor) :
    unaryOp t c = .ok op c := by
  unfold unaryOp
  rw [ht.unary h, UnaryOp.ofSymbol?_symbol]
  rfl

theorem contains_tier {level : Nat} {kinds : List TokenKind} {tighter : List (List TokenKind)}
    (h : tiers.drop level = kinds :: tighter) (kind : TokenKind) :
    kinds.contains kind ↔ ∃ op, kind.binary? = some (level, op) := by
  have hl : level < 6 := by
    refine Nat.lt_of_not_le fun hn => ?_
    rw [List.drop_eq_nil_of_le hn] at h
    cases h
  interval_cases level <;> cases h <;> cases kind <;> simp [TokenKind.binary?]

theorem contains_unary (kind : TokenKind) :
    [TokenKind.not, TokenKind.minus].contains kind ↔ ∃ op, kind.unary? = some op := by
  cases kind <;> simp [TokenKind.unary?]

end Reading

end NoteFormula

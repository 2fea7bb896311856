import Mathlib.Tactic.SplitIfs
import NoteFormula.Proofs.Grammar
import NoteFormula.Token.Lexer

/-! # The tokens of a text

A list of tokens made by hand may pair kinds, values and texts as it likes. What the tokens of a text have in
common is collected here: operators are spelled as they are written, references carry a text as their path, and
the end comes once, at the end.
-/
namespace NoteFormula.Token

structure Lexical (t : Token) : Prop extends t.Spelled where
  not_end : t.kind ≠ .eof
  path : ∀ {space}, t.kind.space? = some space → ∃ s, t.value = .text s

/-- A token that shows its text is as a text has it if its kind means no other operator. -/
theorem lexical_spelled {kind : TokenKind} {cs : List Char}
    (hb : ∀ {level op}, kind.binary? = some (level, op) → String.ofList cs = op.symbol)
    (hu : ∀ {op}, kind.unary? = some op → String.ofList cs = op.symbol) (he : kind ≠ .eof) :
    (spelled kind cs).Lexical where
  binary := hb
  unary := hu
  not_end := he
  path _ := ⟨_, rfl⟩

theorem lexical_pair {c d : Char} {kind : TokenKind} (h : pairKind? c d = some kind) :
    (spelled kind [c, d]).Lexical := by
  unfold pairKind? at h
  split at h <;> cases h <;>
    exact lexical_spelled (by rintro _ _ ⟨⟩; rfl) (by rintro _ ⟨⟩) (by decide)

theorem lexical_single {c : Char} {kind : TokenKind} (h : singleKind? c = some kind) :
    (spelled kind [c]).Lexical := by
  unfold singleKind? at h
  split at h <;> cases h <;>
    exact lexical_spelled (by rintro _ _ ⟨⟩ <;> rfl) (by rintro _ ⟨⟩ <;> rfl) (by decide)

/-- A kind that means no operator may be spelled in any way. -/
theorem lexical_plain {t : Token} (hb : t.kind.binary? = none) (hu : t.kind.unary? = none) (he : t.kind ≠ .eof)
    (hv : t.kind.space? = none ∨ ∃ s, t.value = .text s) : t.Lexical where
  binary h := by rw [hb] at h; cases h
  unary h := by rw [hu] at h; cases h
  not_end := he
  path h := by
    rcases hv with hv | hv
    · rw [hv] at h
      cases h
    · exact hv

theorem lexical_word (w : List Char) : (ofWord w).Lexical := by
  unfold ofWord
  split
  · exact lexical_plain rfl rfl (by simp) (Or.inr ⟨_, rfl⟩)
  · exact lexical_plain rfl rfl (by simp) (Or.inr ⟨_, rfl⟩)
  · split_ifs <;> exact lexical_plain rfl rfl (by simp [spelled]) (Or.inl rfl)

theorem lexical_operator {cs : List Char} {p : Piece} (h : operator? cs = some p) :
    ∀ t ∈ p.token, t.Lexical := by
  unfold operator? at h
  split at h
  · split at h
    · rename_i kind hk
      cases h
      rintro t ⟨⟩
      exact lexical_pair hk
    · obtain ⟨kind, hk, rfl⟩ := Option.map_eq_some_iff.mp h
      rintro t ⟨⟩
      exact lexical_single hk
  · obtain ⟨kind, hk, rfl⟩ := Option.map_eq_some_iff.mp h
    rintro t ⟨⟩
    exact lexical_single hk
  · cases h

theorem lexical_number {cs : List Char} {p : Piece} (h : number? cs = some p) : ∀ t ∈ p.token, t.Lexical := by
  obtain ⟨⟨mantissa, rest⟩, _, rfl⟩ := Option.map_eq_some_iff.mp h
  rintro t ⟨⟩
  exact lexical_plain rfl rfl (by simp [ofMantissa]) (Or.inl rfl)

theorem lexical_piece {cs : List Char} {p : Piece} (h : piece? cs = some p) : ∀ t ∈ p.token, t.Lexical := by
  unfold piece? at h
  split at h
  · cases h
  · split at h
    · cases h
      rintro t ⟨⟩
    · split at h
      · rename_i hop
        cases h
        exact lexical_operator hop
      · split at h
        · cases h
          rintro t ⟨⟩
          exact lexical_plain rfl rfl (by simp [ofText]) (Or.inl rfl)
        · split at h
          · rename_i hnum
            cases h
            exact lexical_number hnum
          · split at h
            · cases h
              rintro t ⟨⟩
              exact lexical_word _
            · cases h

/-- The list is closed by the end, and what stands before it comes from a text. -/
theorem scan_ok {cs : List Char} {tokens : List Token} (h : scan cs = .ok tokens) :
    ∃ body, tokens = body ++ [eof] ∧ ∀ t ∈ body, t.Lexical := by
  fun_induction scan cs generalizing tokens with
  | case1 =>
    cases h
    exact ⟨[], rfl, by simp⟩
  | case2 => cases h
  | case3 c cs piece hp ih =>
    cases hr : scan piece.rest with
    | error stop => rw [hr] at h; cases h
    | ok after =>
      rw [hr] at h
      cases h
      obtain ⟨body, rfl, hbody⟩ := ih hr
      refine ⟨piece.token.toList ++ body, by rw [List.append_assoc], fun t ht => ?_⟩
      rcases List.mem_append.mp ht with ht | ht
      · exact lexical_piece hp t (Option.mem_toList.mp ht)
      · exact hbody t ht

theorem tokenize_ok {source : String} {tokens : List Token} (h : tokenize source = .ok tokens) :
    ∃ body, tokens = body ++ [eof] ∧ ∀ t ∈ body, t.Lexical := by
  unfold tokenize at h
  cases hs : scan source.toList with
  | error stop => rw [hs] at h; cases h
  | ok after =>
    rw [hs] at h
    cases h
    exact scan_ok hs

theorem path_of_tokenize {source : String} {tokens : List Token} (h : tokenize source = .ok tokens) :
    ∀ t ∈ tokens, ∀ space, t.kind.space? = some space → ∃ s, t.value = .text s := by
  obtain ⟨body, rfl, hb⟩ := tokenize_ok h
  intro t ht space hspace
  rcases List.mem_append.mp ht with ht | ht
  · exact (hb t ht).path hspace
  · rw [List.mem_singleton.mp ht] at hspace
    cases hspace

end NoteFormula.Token

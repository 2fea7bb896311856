import NoteFormula.Proofs.LexicalRules
import NoteFormula.Proofs.LexicalTokens

/-! # Tokens by maximal munch

The scanner is the lexical rules applied from left to right: the pieces of a text follow each other with nothing
between them, each as long as any rule lets it be, and the scan stops where no rule applies.
-/
namespace NoteFormula.Token

inductive Cut (rest : List Char) : List Char → List Token → Prop
  | done : Cut rest [] []
  | piece {text more : List Char} {t : Option Token} {ts : List Token} : IsPiece text (more ++ rest) t →
      Cut rest more ts → Cut rest (text ++ more) (t.toList ++ ts)

def Stuck (cs : List Char) : Prop := ∀ text rest t, cs = text ++ rest → ¬ Lexeme text rest t

/-- What becomes of a text: all of it is cut, or the cut comes to a character that no rule starts at. -/
inductive Tokenized (source : List Char) : Except Unexpected (List Token) → Prop
  | tokens {ts : List Token} : Cut [] source ts → Tokenized source (.ok (ts ++ [eof]))
  | unexpected {before after : List Char} {c : Char} {ts : List Token} : source = before ++ c :: after →
      Cut (c :: after) before ts → Stuck (c :: after) → Tokenized source (.error ⟨c, before.length⟩)

structure Munched (text rest : List Char) (t : Token) : Prop where
  not_end : t.kind ≠ .eof
  raw : t.kind ≠ .text → t.raw = String.ofList text
  single : ∀ c d, text = [c] → d ∈ rest.head? → pairKind? c d = none
  number : ∀ m : Decimal.Mantissa, m.IsNumeral → text = m.spelling →
    ∀ d ∈ rest.head?, ¬ Text.isDigit d ∧ (m.fraction = none → d ≠ '.')
  word : ∀ c cs, text = c :: cs → isLetter c → (∀ d ∈ cs, isWordChar d) → ∀ d ∈ rest.head?, ¬ isWordChar d

section Pieces

variable {text rest cs : List Char} {c d : Char} {m : Decimal.Mantissa}

theorem isPiece_iff {t : Option Token} : IsPiece text rest t ↔ piece? (text ++ rest) = some ⟨t, rest⟩ := by
  rw [piece?_eq_some_iff]
  constructor
  · intro h
    exact ⟨text, rfl, h⟩
  · rintro ⟨other, heq, h⟩
    rwa [List.append_cancel_right heq]

theorem IsPiece.not_extendable {t u : Option Token} (h : IsPiece text (d :: rest) t) :
    ¬ Lexeme (text ++ [d]) rest u := by
  intro hlonger
  have hle := h.longest (by rw [List.append_assoc, List.singleton_append]) hlonger
  rw [List.length_append, List.length_singleton] at hle
  omega

theorem WordToken.raw_eq {t : Token} (h : WordToken text t) : t.raw = String.ofList text := by
  cases h <;> rfl

theorem Lexeme.raw_eq {t : Token} (h : Lexeme text rest (some t)) (ht : t.kind ≠ .text) :
    t.raw = String.ofList text := by
  cases h with
  | pair | single | number => rfl
  | closed | unclosed | dangling => exact absurd rfl ht
  | word _ _ hword => exact hword.raw_eq

/-- One more digit makes a longer numeral, and so does a point if there is none. -/
theorem numeral_extended (h : m.IsNumeral) (hd : Text.isDigit d ∨ m.fraction = none ∧ d = '.') :
    ∃ longer : Decimal.Mantissa, longer.IsNumeral ∧ longer.spelling = m.spelling ++ [d] := by
  rcases m with ⟨whole, _ | fraction⟩
  · have hwhole : whole ≠ [] := by simpa using h.nonempty
    rcases hd with hd | ⟨-, rfl⟩
    · exact ⟨⟨whole ++ [d], none⟩, ⟨by simpa [or_imp, forall_and, hd] using h.whole, by simp, Or.inl (by simp)⟩, rfl⟩
    · exact ⟨⟨whole, some []⟩, ⟨h.whole, by simp, Or.inl hwhole⟩, rfl⟩
  · have hdigit : Text.isDigit d := hd.resolve_right (fun hpoint => by cases hpoint.1)
    have hfraction : ∀ c ∈ fraction, Text.isDigit c := h.fraction
    refine ⟨⟨whole, some (fraction ++ [d])⟩, ⟨h.whole, ?_, Or.inr (by simp)⟩, ?_⟩
    · simpa [or_imp, forall_and, hdigit] using hfraction
    · simp [Decimal.Mantissa.spelling]

theorem IsPiece.munched {t : Token} (h : IsPiece text rest (some t)) : Munched text rest t where
  not_end := (lexical_piece (isPiece_iff.mp h) t rfl).not_end
  raw := h.lexeme.raw_eq
  single c d htext hd := by
    obtain ⟨after, rfl⟩ := List.head?_eq_some_iff.mp hd
    subst htext
    cases hpair : pairKind? c d with
    | none => rfl
    | some kind => exact absurd (Lexeme.pair hpair) h.not_extendable
  number m hm htext d hd := by
    obtain ⟨after, rfl⟩ := List.head?_eq_some_iff.mp hd
    have hnone (hd : Text.isDigit d ∨ m.fraction = none ∧ d = '.') : False := by
      obtain ⟨longer, hlonger, hspelling⟩ := numeral_extended hm hd
      have hlexeme : Lexeme longer.spelling after (some (ofMantissa longer)) := .number hlonger
      rw [hspelling, ← htext] at hlexeme
      exact h.not_extendable hlexeme
    exact ⟨fun hdigit => hnone (Or.inl hdigit), fun hfraction hpoint => hnone (Or.inr ⟨hfraction, hpoint⟩)⟩
  word c cs htext hc hcs d hd hword := by
    obtain ⟨after, rfl⟩ := List.head?_eq_some_iff.mp hd
    have hlexeme : Lexeme (c :: (cs ++ [d])) after (some (ofWord (c :: (cs ++ [d])))) :=
      .word hc (by simpa [or_imp, forall_and, hword] using hcs) (wordToken_ofWord _)
    rw [← List.cons_append, ← htext] at hlexeme
    exact h.not_extendable hlexeme

theorem IsPiece.scanned {t : Option Token} (h : IsPiece text rest t) : Scanned text t.toList rest := by
  have hread := isPiece_iff.mp h
  cases text with
  | nil => exact absurd (piece?_rest_lt hread) (Nat.lt_irrefl _)
  | cons c cs => exact scanned_piece hread

end Pieces

section Cuts

variable {text rest after cs : List Char} {ts tokens : List Token} {c : Char}

theorem scanned_nil (rest : List Char) : Scanned [] [] rest := by
  unfold Scanned
  rw [List.nil_append]
  cases scan rest <;> rfl

theorem Cut.scanned (h : Cut rest text ts) : Scanned text ts rest := by
  induction h with
  | done => exact scanned_nil rest
  | piece hpiece _ ih => exact Scanned.append hpiece.scanned ih

theorem Stuck.scan_eq (h : Stuck (c :: after)) : scan (c :: after) = .error ⟨c, after.length⟩ := by
  have hnone : piece? (c :: after) = none := piece?_eq_none_iff.mpr h
  rw [scan]
  split
  · rfl
  · rename_i hsome
    rw [hnone] at hsome
    cases hsome

theorem cut_of_scan_ok (h : scan cs = .ok tokens) : ∃ ts, tokens = ts ++ [eof] ∧ Cut [] cs ts := by
  fun_induction scan cs generalizing tokens with
  | case1 =>
    cases h
    exact ⟨[], rfl, .done⟩
  | case2 => cases h
  | case3 c cs piece hpiece ih =>
    cases hscan : scan piece.rest with
    | error stop => rw [hscan] at h; cases h
    | ok after =>
      rw [hscan] at h
      cases h
      obtain ⟨ts, rfl, hcut⟩ := ih hscan
      obtain ⟨text, hcs, htext⟩ := piece?_eq_some_iff.mp hpiece
      rw [hcs]
      rw [← List.append_nil piece.rest] at htext
      exact ⟨piece.token.toList ++ ts, by rw [List.append_assoc], .piece htext hcut⟩

/-- Where a scan stops, everything before is cut. -/
theorem cut_of_scan_error {stop : Stop} (h : scan cs = .error stop) : ∃ before after ts,
    cs = before ++ stop.char :: after ∧ after.length = stop.following ∧ Cut (stop.char :: after) before ts ∧
      Stuck (stop.char :: after) := by
  fun_induction scan cs with
  | case1 => cases h
  | case2 c cs hnone =>
    cases h
    exact ⟨[], cs, [], rfl, rfl, .done, piece?_eq_none_iff.mp hnone⟩
  | case3 c cs piece hpiece ih =>
    cases hscan : scan piece.rest with
    | ok after => rw [hscan] at h; cases h
    | error stop =>
      rw [hscan] at h
      cases h
      obtain ⟨before, after, ts, hrest, hlength, hcut, hstuck⟩ := ih hscan
      obtain ⟨text, hcs, htext⟩ := piece?_eq_some_iff.mp hpiece
      rw [hrest] at hcs htext
      exact ⟨text ++ before, after, piece.token.toList ++ ts, by rw [hcs, List.append_assoc], hlength,
        .piece htext hcut, hstuck⟩

end Cuts

section Sources

variable {source : String} {outcome : Except Unexpected (List Token)}

theorem tokenized_tokenize (source : String) : Tokenized source.toList (tokenize source) := by
  unfold tokenize
  cases hscan : scan source.toList with
  | ok tokens =>
    obtain ⟨ts, rfl, hcut⟩ := cut_of_scan_ok hscan
    exact .tokens hcut
  | error stop =>
    obtain ⟨before, after, ts, hsource, hlength, hcut, hstuck⟩ := cut_of_scan_error hscan
    have hplace : source.length - (stop.following + 1) = before.length := by
      rw [← String.length_toList, hsource, List.length_append, List.length_cons, hlength]
      omega
    have houtcome := Tokenized.unexpected hsource hcut hstuck
    rw [← hplace] at houtcome
    exact houtcome

theorem Tokenized.tokenize_eq (h : Tokenized source.toList outcome) : tokenize source = outcome := by
  cases h with
  | tokens hcut =>
    have htokens := hcut.scanned.tokenize
    rwa [String.ofList_toList] at htokens
  | @unexpected before after c ts hsource hcut hstuck =>
    have hscanned : scan (before ++ c :: after) = (scan (c :: after)).map (ts ++ ·) := hcut.scanned
    rw [hstuck.scan_eq] at hscanned
    unfold tokenize
    rw [hsource, hscanned, ← String.length_toList, hsource, List.length_append, List.length_cons]
    exact congrArg (fun n => Except.error (Unexpected.mk c n)) (Nat.add_sub_cancel _ _)

/-- The scanner is maximal munch over the lexical rules. -/
theorem tokenize_eq_iff_maximal_munch (source : String) :
    (∀ outcome, tokenize source = outcome ↔ Tokenized source.toList outcome) ∧
      (∃! outcome, Tokenized source.toList outcome) ∧
        ∀ text rest t, IsPiece text rest (some t) → Munched text rest t := by
  have hiff (outcome) : tokenize source = outcome ↔ Tokenized source.toList outcome := by
    constructor
    · rintro rfl
      exact tokenized_tokenize source
    · exact Tokenized.tokenize_eq
  refine ⟨hiff, ⟨tokenize source, tokenized_tokenize source, fun outcome h => ?_⟩, fun text rest t h => h.munched⟩
  exact ((hiff outcome).mpr h).symm

/-- Two symbols together come before each of them, a numeral ends before its second point, and a point alone is
nothing. -/
theorem lone_point_unexpected : tokenize ">=1.2.?" = .error ⟨'.', 5⟩ ∧
    IsPiece ['>', '='] "1.2.?".toList (some (spelled .gte ['>', '='])) ∧
      Munched ['>', '='] "1.2.?".toList (spelled .gte ['>', '=']) := by
  obtain ⟨hiff, -, hmunched⟩ := tokenize_eq_iff_maximal_munch ">=1.2.?"
  have hpair : IsPiece ['>', '='] "1.2.?".toList (some (spelled .gte ['>', '='])) := isPiece_iff.mpr rfl
  have hnumber : IsPiece ['1', '.', '2'] ['.', '?'] (some (ofMantissa ⟨['1'], some ['2']⟩)) := isPiece_iff.mpr rfl
  have hstuck : Stuck ['.', '?'] := piece?_eq_none_iff.mp rfl
  have hcut : Cut ['.', '?'] (['>', '='] ++ (['1', '.', '2'] ++ [])) _ := .piece hpair (.piece hnumber .done)
  exact ⟨(hiff _).mpr (.unexpected rfl hcut hstuck), hpair, hmunched _ _ _ hpair⟩

end Sources

end NoteFormula.Token

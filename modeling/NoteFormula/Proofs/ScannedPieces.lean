import NoteFormula.Formula.Source
import NoteFormula.Proofs.WrittenNumbers
import NoteFormula.Token.Lexer

/-! # Pieces of a text

How a text that is put together from pieces is cut again: symbols and blanks, words, texts in quotes and
numbers. Where a piece ends may depend on what follows, so each statement is about a piece before a rest.
-/
namespace NoteFormula.Token

/-- The text is cut into these tokens when that rest follows. -/
def Scanned (text : List Char) (ts : List Token) (rest : List Char) : Prop :=
  scan (text ++ rest) = (scan rest).map (ts ++ ·)

variable {text more rest cs : List Char} {ts us : List Token} {c : Char}

theorem Scanned.append (h : Scanned text ts (more ++ rest)) (h' : Scanned more us rest) :
    Scanned (text ++ more) (ts ++ us) rest := by
  unfold Scanned at h h' ⊢
  rw [List.append_assoc, h, h']
  cases scan rest with
  | error stop => rfl
  | ok tokens => exact congrArg Except.ok (List.append_assoc ts us tokens).symm

theorem scanned_piece {t : Option Token} (h : piece? (c :: (cs ++ rest)) = some ⟨t, rest⟩) :
    Scanned (c :: cs) t.toList rest := by
  unfold Scanned
  rw [List.cons_append, scan]
  split
  · rename_i hnone
    rw [h] at hnone
    cases hnone
  · rename_i piece hpiece
    cases h.symm.trans hpiece
    rfl

theorem Scanned.tokenize (h : Scanned text ts []) : tokenize (String.ofList text) = .ok (ts ++ [eof]) := by
  unfold Scanned at h
  rw [List.append_nil, scan] at h
  rw [Token.tokenize, String.toList_ofList, h]
  rfl

theorem piece?_blank (h : isLineBlank c) (cs : List Char) : piece? (c :: cs) = some ⟨none, cs⟩ := if_pos h

theorem piece?_operator {p : Piece} (hb : isLineBlank c = false) (h : operator? (c :: cs) = some p) :
    piece? (c :: cs) = some p := by
  rw [piece?, if_neg (by rw [hb]; decide), h]

theorem scanned_blank (h : isLineBlank c) (rest : List Char) : Scanned [c] [] rest := by
  have hpiece : piece? (c :: ([] ++ rest)) = some ⟨none, rest⟩ := piece?_blank h rest
  exact scanned_piece hpiece

/-- A symbol of one character, unless the next one makes it a pair. -/
theorem scanned_single {kind : TokenKind} (h : singleKind? c = some kind) (hb : isLineBlank c = false)
    (hr : ∀ d ∈ rest.head?, pairKind? c d = none) : Scanned [c] [spelled kind [c]] rest := by
  refine scanned_piece (t := some _) (piece?_operator hb ?_)
  cases rest with
  | nil => simp only [operator?, h, List.append_nil, Option.map_some]
  | cons d rest => simp only [List.nil_append, operator?, hr d rfl, h, Option.map_some]

theorem scanned_pair {d : Char} {kind : TokenKind} (h : pairKind? c d = some kind) (hb : isLineBlank c = false)
    (rest : List Char) : Scanned [c, d] [spelled kind [c, d]] rest := by
  refine scanned_piece (t := some _) (piece?_operator hb ?_)
  simp only [List.cons_append, List.nil_append, operator?, h]

def opensValue (c : Char) : Bool := isLetter c || Text.isDigit c || c = '.' || c = '"' || c = '\''

theorem opensValue_not_blank (h : opensValue c) : isLineBlank c = false := by
  refine Bool.eq_false_iff.mpr fun hb => ?_
  simp only [isLineBlank, Bool.or_eq_true, decide_eq_true_eq] at hb
  rcases hb with ((rfl | rfl) | rfl) | rfl <;> cases h

theorem opensValue_not_operator (h : opensValue c) (cs : List Char) : operator? (c :: cs) = none := by
  have hpair (d : Char) : pairKind? c d = none := by
    unfold pairKind?
    split <;> first | rfl | cases h
  have hsingle : singleKind? c = none := by
    unfold singleKind?
    split <;> first | rfl | cases h
  cases cs with
  | nil => simp only [operator?, hsingle, Option.map_none]
  | cons d cs => simp only [operator?, hpair, hsingle, Option.map_none]

theorem piece?_quoted (h : c = '"' ∨ c = '\'') (cs : List Char) :
    piece? (c :: cs) = some ⟨some (ofText c (quotedBody c cs).1), (quotedBody c cs).2⟩ := by
  have hopens : opensValue c := by rcases h with rfl | rfl <;> rfl
  rw [piece?, if_neg (by simp [opensValue_not_blank hopens]), opensValue_not_operator hopens]
  exact if_pos (by simpa using h)

theorem piece?_number {p : Piece} (hc : Text.isDigit c ∨ c = '.') (h : number? (c :: cs) = some p) :
    piece? (c :: cs) = some p := by
  have hopens : opensValue c := by rcases hc with hc | rfl <;> simp [opensValue, *]
  have hquote : ¬ (c = '"' ∨ c = '\'') := by
    rintro (rfl | rfl) <;> simp [Text.isDigit] at hc
  rw [piece?, if_neg (by simp [opensValue_not_blank hopens]), opensValue_not_operator hopens]
  dsimp only
  rw [if_neg (by simpa using hquote), h]

/-- Whichever way a character is written between quotes, it is read as itself. -/
theorem quotedBody_sourceEscape (c : Char) (cs : List Char) :
    quotedBody '"' (sourceEscape c ++ cs) = (c :: (quotedBody '"' cs).1, (quotedBody '"' cs).2) := by
  unfold sourceEscape
  split
  case h_6 hslash hquote _ _ _ =>
    rw [List.singleton_append, quotedBody, if_neg hquote]
    rintro d ds rfl
    exact absurd rfl hslash
  all_goals rfl

theorem quotedBody_escaped (s rest : List Char) :
    quotedBody '"' (s.flatMap sourceEscape ++ '"' :: rest) = (s, rest) := by
  induction s with
  | nil => rfl
  | cons c s ih => rw [List.flatMap_cons, List.append_assoc, quotedBody_sourceEscape, ih]

theorem scanned_text (s : String) (rest : List Char) : Scanned (sourceText s) [ofText '"' s.toList] rest := by
  have hbody : s.toList.flatMap sourceEscape ++ ['"'] ++ rest = s.toList.flatMap sourceEscape ++ '"' :: rest :=
    List.append_assoc ..
  refine scanned_piece (t := some _) ?_
  change piece? ('"' :: (s.toList.flatMap sourceEscape ++ ['"'] ++ rest)) = _
  rw [hbody, piece?_quoted (Or.inl rfl), quotedBody_escaped]

theorem isLetter_ge (h : isLetter c) : 65 ≤ c.toNat := by
  have hle {d : Char} (hd : d ≤ c) : d.toNat ≤ c.toNat := hd
  simp only [isLetter, Bool.or_eq_true, Bool.and_eq_true, decide_eq_true_eq] at h
  rcases h with (⟨h, -⟩ | ⟨h, -⟩) | rfl
  · exact Nat.le_trans (by decide) (hle h)
  · exact hle h
  · decide

theorem number?_letter (h : isLetter c) (cs : List Char) : number? (c :: cs) = none := by
  have hge := isLetter_ge h
  have hdigit : ¬ Text.isDigit c := fun hd => by
    have := Text.isDigit_iff.mp hd
    omega
  have hpoint : c ≠ '.' := by
    rintro rfl
    cases h
  unfold number? Decimal.Mantissa.read?
  dsimp only
  rw [List.takeWhile_cons_of_neg hdigit, List.dropWhile_cons_of_neg hdigit]
  split
  · rename_i hcons
    cases hcons
    exact absurd rfl hpoint
  · rfl

theorem piece?_word (h : isLetter c) (cs : List Char) :
    piece? (c :: cs) = some ⟨some (ofWord ((c :: cs).takeWhile isWordChar)), cs.dropWhile isWordChar⟩ := by
  have hopens : opensValue c := by simp [opensValue, h]
  have hquote : ¬ (c = '"' ∨ c = '\'') := by
    rintro (rfl | rfl) <;> cases h
  rw [piece?, if_neg (by simp [opensValue_not_blank hopens]), opensValue_not_operator hopens]
  dsimp only
  rw [if_neg (by simpa using hquote), number?_letter h]
  exact if_pos h

theorem scanned_word (h : isLetter c) (hw : ∀ d ∈ cs, isWordChar d) (hr : ∀ d ∈ rest.head?, ¬ isWordChar d) :
    Scanned (c :: cs) [ofWord (c :: cs)] rest := by
  have hword : ∀ d ∈ c :: cs, isWordChar d := List.forall_mem_cons.mpr ⟨by simp [isWordChar, h], hw⟩
  obtain ⟨htake, -⟩ := Decimal.run_followed hword hr
  obtain ⟨-, hdrop⟩ := Decimal.run_followed hw hr
  refine scanned_piece (t := some _) ?_
  rw [piece?_word h, hdrop, ← List.cons_append, htake]

theorem scanned_number {m : Decimal.Mantissa} (hm : m.Written) (hr : ∀ d ∈ rest.head?, ¬ Text.isDigit d ∧ d ≠ '.') :
    Scanned m.spelling [ofMantissa m] rest := by
  have hread := hm.read?_spelling hr
  obtain ⟨c, cs, hspelling, hdigit⟩ := hm.spelling_cons
  rw [hspelling] at hread ⊢
  refine scanned_piece (t := some _) (piece?_number (Or.inl hdigit) ?_)
  rw [number?, ← List.cons_append, hread]
  rfl

end NoteFormula.Token

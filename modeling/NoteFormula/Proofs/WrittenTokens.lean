import NoteFormula.Proofs.ReadFormulas

/-! # Written tokens

A token of a text can be written so that the blank after it ends it. Tokens of texts, put in any order, are then the
tokens of a text again.
-/
namespace NoteFormula.Token

def IsWritten (t : Token) : Prop := ∃ text, ∀ rest, Scanned (text ++ [' ']) [t] rest

variable {text rest cs s : List Char} {ts : List Token} {t : Token} {c quote : Char} {m : Decimal.Mantissa}

theorem isWritten_of (text : List Char) (h : ∀ rest, Scanned text [t] (' ' :: rest)) : t.IsWritten :=
  ⟨text, fun rest => (h rest).append (scanned_space rest)⟩

theorem isWritten_single {kind : TokenKind} (h : singleKind? c = some kind) : (spelled kind [c]).IsWritten := by
  refine isWritten_of _ fun rest => scanned_single h (singleKind?_not_blank h) ?_
  rintro d ⟨⟩
  unfold pairKind?
  split <;> first | rfl | contradiction

theorem isWritten_word (hc : isLetter c) (hcs : ∀ d ∈ cs, isWordChar d) : (ofWord (c :: cs)).IsWritten := by
  refine isWritten_of _ fun rest => scanned_word hc hcs ?_
  rintro d ⟨⟩
  decide

def quotedChar (quote c : Char) : List Char := if c = quote ∨ c = '\\' then ['\\', c] else [c]

theorem quotedText_escaped (hq : isQuote quote) (s : List Char) :
    QuotedText quote (s.flatMap (quotedChar quote)) s := by
  have hquote : quote = '"' ∨ quote = '\'' := by simpa [isQuote] using hq
  induction s with
  | nil => exact .nil
  | cons c s ih =>
    rw [List.flatMap_cons, quotedChar]
    split
    · rename_i hc
      have hself : unescape c = c := by
        rcases hc with rfl | rfl
        · rcases hquote with rfl | rfl <;> rfl
        · rfl
      have hescaped := QuotedText.escaped (c := c) ih
      rwa [hself] at hescaped
    · rename_i hc
      exact .plain (fun h => hc (Or.inl h)) (fun h => hc (Or.inr h)) ih

theorem isWritten_text (hq : isQuote quote) (s : List Char) : (ofText quote s).IsWritten := by
  have hquote : quote = '"' ∨ quote = '\'' := by simpa [isQuote] using hq
  refine isWritten_of (quote :: (s.flatMap (quotedChar quote) ++ [quote])) fun rest => ?_
  refine scanned_piece (t := some _) ?_
  rw [piece?_quoted hquote, (quotedText_escaped hq s).closed hq]

theorem numeral_before_blank (h : m.IsNumeral) (rest : List Char) :
    Decimal.Mantissa.read? (m.spelling ++ ' ' :: rest) = some (m, ' ' :: rest) := by
  obtain ⟨n, after, hread, hle, heq⟩ := numeral_reached h (' ' :: rest)
  obtain ⟨hcut, hn⟩ := read?_numeral hread
  have hchars : ∀ c ∈ n.spelling, Text.isDigit c ∨ c = '.' := by
    rcases n with ⟨whole, _ | fraction⟩
    · exact fun c hc => Or.inl (hn.whole c hc)
    · refine List.forall_mem_append.mpr ⟨fun c hc => Or.inl (hn.whole c hc), ?_⟩
      exact List.forall_mem_cons.mpr ⟨Or.inr rfl, fun c hc => Or.inl (hn.fraction c hc)⟩
  have hafter : after = ' ' :: rest := by
    rcases List.append_eq_append_iff.mp hcut with ⟨more, hspelling, hmore⟩ | ⟨more, -, hmore⟩
    · cases more with
      | nil => exact hmore.symm
      | cons d more =>
        cases hmore
        have hblank := hchars ' ' (by rw [hspelling]; simp)
        rcases hblank with hdigit | hpoint
        · cases hdigit
        · cases hpoint
    · rw [hmore, List.length_append] at hle
      have hnil := List.eq_nil_of_length_eq_zero (show more.length = 0 by omega)
      rw [hmore, hnil, List.nil_append]
  rw [hread, hafter, heq (by rw [hafter])]

theorem isWritten_number (h : m.IsNumeral) : (ofMantissa m).IsWritten := by
  obtain ⟨c, cs, hspelling, hc⟩ := numeral_cons h
  refine isWritten_of m.spelling fun rest => ?_
  have hread := numeral_before_blank h rest
  rw [hspelling] at hread ⊢
  refine scanned_piece (t := some _) (piece?_number hc ?_)
  rw [number?, ← List.cons_append, hread]
  rfl

theorem Lexeme.isWritten (h : Lexeme text rest (some t)) : t.IsWritten := by
  cases h with
  | pair hpair => exact isWritten_of _ fun rest => scanned_pair hpair (pairKind?_not_blank hpair) _
  | single hsingle => exact isWritten_single hsingle
  | closed hquote | unclosed hquote | dangling hquote => exact isWritten_text hquote _
  | number hm => exact isWritten_number hm
  | word hletter hword ht =>
    rw [ht.eq_ofWord]
    exact isWritten_word hletter hword

theorem isWritten_of_tokenize {source : String} {tokens : List Token} (h : tokenize source = .ok tokens) :
    ∀ t ∈ tokens, t.kind ≠ .eof → t.IsWritten := by
  have htokenized := tokenized_tokenize source
  rw [h] at htokenized
  cases htokenized with
  | tokens hcut =>
    intro t ht hend
    rcases List.mem_append.mp ht with hpiece | hlast
    · obtain ⟨piece, after, hlexeme⟩ := hcut.lexeme t hpiece
      exact hlexeme.isWritten
    · rw [List.mem_singleton.mp hlast] at hend
      exact absurd rfl hend

/-- Each token before its blank. -/
theorem tokenize_of_isWritten (h : ∀ t ∈ ts, t.IsWritten) : ∃ source, tokenize source = .ok (ts ++ [eof]) := by
  have htext : ∃ text, ∀ rest, Scanned text ts rest := by
    induction ts with
    | nil => exact ⟨[], scanned_nil⟩
    | cons t ts ih =>
      obtain ⟨text, htext⟩ := h t List.mem_cons_self
      obtain ⟨more, hmore⟩ := ih fun u hu => h u (List.mem_cons_of_mem t hu)
      exact ⟨(text ++ [' ']) ++ more, fun rest => (htext _).append (hmore rest)⟩
  obtain ⟨text, htext⟩ := htext
  exact ⟨String.ofList text, (htext []).tokenize⟩

end NoteFormula.Token

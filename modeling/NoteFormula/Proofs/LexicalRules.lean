import NoteFormula.Proofs.ScannedPieces

/-! # Lexical rules

What a piece of a text can be, rule by rule, and nothing about how pieces are found. Where two rules, or one rule
in two ways, apply at the same place, the longest lexeme is the piece.
-/
namespace NoteFormula

structure Decimal.Mantissa.IsNumeral (m : Mantissa) : Prop where
  whole : ∀ c ∈ m.whole, Text.isDigit c
  fraction : ∀ c ∈ m.fraction.getD [], Text.isDigit c
  nonempty : m.whole ≠ [] ∨ m.fraction.getD [] ≠ []

namespace Token

def isQuote (c : Char) : Bool := c = '"' || c = '\''

/-- Words that are no texts, although no reference either. -/
def reservedWords : List (List Char) :=
  ["true".toList, "false".toList, "if".toList, "contains".toList, "length".toList]

inductive WordToken : List Char → Token → Prop
  | note (path : List Char) : WordToken ("fm.".toList ++ path)
      ⟨.noteRef, .text (String.ofList path), String.ofList ("fm.".toList ++ path)⟩
  | file (path : List Char) : WordToken ("file.".toList ++ path)
      ⟨.fileRef, .text (String.ofList path), String.ofList ("file.".toList ++ path)⟩
  | yes : WordToken "true".toList ⟨.boolean, .bool true, "true"⟩
  | no : WordToken "false".toList ⟨.boolean, .bool false, "false"⟩
  | ifWord : WordToken "if".toList (spelled .ifWord "if".toList)
  | containsWord : WordToken "contains".toList (spelled .containsWord "contains".toList)
  | lengthWord : WordToken "length".toList (spelled .lengthWord "length".toList)
  | plain {w : List Char} : ¬ "fm.".toList <+: w → ¬ "file.".toList <+: w → w ∉ reservedWords →
      WordToken w (spelled .word w)

/-- What stands between quotes, and the text it means: a backslash goes with the character after it. -/
inductive QuotedText (quote : Char) : List Char → List Char → Prop
  | nil : QuotedText quote [] []
  | plain {c : Char} {cs s : List Char} : c ≠ quote → c ≠ '\\' → QuotedText quote cs s →
      QuotedText quote (c :: cs) (c :: s)
  | escaped {c : Char} {cs s : List Char} : QuotedText quote cs s →
      QuotedText quote ('\\' :: c :: cs) (unescape c :: s)

/-- A lexeme, the text after it, and its token unless it is blank. Only quotes that are never closed depend on the
text after them: they go on to the end, and a backslash there means itself. -/
inductive Lexeme : List Char → List Char → Option Token → Prop
  | blank {c : Char} {rest : List Char} : isLineBlank c → Lexeme [c] rest none
  | pair {c d : Char} {rest : List Char} {kind : TokenKind} : pairKind? c d = some kind →
      Lexeme [c, d] rest (some (spelled kind [c, d]))
  | single {c : Char} {rest : List Char} {kind : TokenKind} : singleKind? c = some kind →
      Lexeme [c] rest (some (spelled kind [c]))
  | closed {quote : Char} {cs s rest : List Char} : isQuote quote → QuotedText quote cs s →
      Lexeme (quote :: cs ++ [quote]) rest (some (ofText quote s))
  | unclosed {quote : Char} {cs s : List Char} : isQuote quote → QuotedText quote cs s →
      Lexeme (quote :: cs) [] (some (ofText quote s))
  | dangling {quote : Char} {cs s : List Char} : isQuote quote → QuotedText quote cs s →
      Lexeme (quote :: cs ++ ['\\']) [] (some (ofText quote (s ++ ['\\'])))
  | number {m : Decimal.Mantissa} {rest : List Char} : m.IsNumeral → Lexeme m.spelling rest (some (ofMantissa m))
  | word {c : Char} {cs rest : List Char} {t : Token} : isLetter c → (∀ d ∈ cs, isWordChar d) →
      WordToken (c :: cs) t → Lexeme (c :: cs) rest (some t)

/-- A lexeme that no other one at its place goes beyond. -/
structure IsPiece (text rest : List Char) (t : Option Token) : Prop where
  lexeme : Lexeme text rest t
  longest : ∀ {other after : List Char} {u : Option Token}, text ++ rest = other ++ after → Lexeme other after u →
    other.length ≤ text.length

section Rules

variable {cs rest w text : List Char} {c quote : Char} {t : Option Token} {m : Decimal.Mantissa}

theorem after?_some {start path : List Char} (h : after? start w = some path) : w = start ++ path := by
  unfold after? at h
  split at h
  · rename_i hprefix
    obtain ⟨more, rfl⟩ := List.isPrefixOf_iff_prefix.mp hprefix
    simpa using h
  · cases h

theorem after?_none {start : List Char} : after? start w = none ↔ ¬ start <+: w := by
  unfold after?
  rw [← List.isPrefixOf_iff_prefix]
  split <;> simp_all

theorem wordToken_ofWord (w : List Char) : WordToken w (ofWord w) := by
  unfold ofWord
  split
  · rename_i path hnote
    rw [after?_some hnote]
    exact .note path
  · rename_i path _ hfile
    rw [after?_some hfile]
    exact .file path
  · rename_i hnote hfile
    have hplain := WordToken.plain (w := w) (after?_none.mp hnote) (after?_none.mp hfile)
    split_ifs with htrue hfalse hif hcontains hlength
    · rw [htrue]; exact .yes
    · rw [hfalse]; exact .no
    · rw [hif]; exact .ifWord
    · rw [hcontains]; exact .containsWord
    · rw [hlength]; exact .lengthWord
    · refine hplain ?_
      simp only [reservedWords, List.mem_cons, List.not_mem_nil, or_false, not_or]
      exact ⟨htrue, hfalse, hif, hcontains, hlength⟩

theorem WordToken.eq_ofWord {t : Token} (h : WordToken w t) : t = ofWord w := by
  cases h with
  | plain hnote hfile hplain =>
    simp only [reservedWords, List.mem_cons, List.not_mem_nil, or_false, not_or] at hplain
    obtain ⟨htrue, hfalse, hif, hcontains, hlength⟩ := hplain
    have hno : after? ['f', 'm', '.'] w = none := after?_none.mpr hnote
    have hno' : after? ['f', 'i', 'l', 'e', '.'] w = none := after?_none.mpr hfile
    unfold ofWord
    rw [hno, hno']
    exact ((if_neg htrue).trans ((if_neg hfalse).trans ((if_neg hif).trans
      ((if_neg hcontains).trans (if_neg hlength))))).symm
  | _ => rfl

theorem quotedBody_append {s : List Char} (h : QuotedText quote cs s) (rest : List Char) :
    quotedBody quote (cs ++ rest) = (s ++ (quotedBody quote rest).1, (quotedBody quote rest).2) := by
  induction h with
  | nil => rfl
  | plain hquote hslash _ ih =>
    rw [List.cons_append, quotedBody, if_neg hquote, ih]
    · rfl
    · rintro d ds rfl
      exact absurd rfl hslash
  | escaped _ ih =>
    rw [List.cons_append, List.cons_append, quotedBody, ih]
    rfl

theorem QuotedText.closed {s : List Char} (h : QuotedText quote cs s) (hq : isQuote quote) (rest : List Char) :
    quotedBody quote (cs ++ [quote] ++ rest) = (s, rest) := by
  have hend : quotedBody quote (quote :: rest) = ([], rest) := by
    rw [quotedBody, if_pos rfl]
    rintro d ds rfl
    cases hq
  rw [List.append_assoc, quotedBody_append h, List.singleton_append, hend, List.append_nil]

theorem QuotedText.unclosed {s : List Char} (h : QuotedText quote cs s) : quotedBody quote cs = (s, []) := by
  simpa [quotedBody] using quotedBody_append h []

theorem QuotedText.dangling {s : List Char} (h : QuotedText quote cs s) (hq : isQuote quote) :
    quotedBody quote (cs ++ ['\\']) = (s ++ ['\\'], []) := by
  have hend : quotedBody quote ['\\'] = (['\\'], []) := by
    rw [quotedBody, if_neg, quotedBody]
    · rintro rfl
      cases hq
    · intro d ds _ hcons
      cases hcons
  rw [quotedBody_append h, hend]

/-- What is read between quotes was written there, and the reading ends at the closing quote or at the end. -/
theorem quotedBody_cases (quote : Char) (cs : List Char) :
    (∃ body, cs = body ++ [quote] ++ (quotedBody quote cs).2 ∧ QuotedText quote body (quotedBody quote cs).1) ∨
      (quotedBody quote cs).2 = [] ∧ (QuotedText quote cs (quotedBody quote cs).1 ∨
        ∃ body s, cs = body ++ ['\\'] ∧ (quotedBody quote cs).1 = s ++ ['\\'] ∧ QuotedText quote body s) := by
  fun_induction quotedBody quote cs with
  | case1 => exact Or.inr ⟨rfl, Or.inl .nil⟩
  | case2 c cs s rest hread ih =>
    rw [hread] at ih
    rcases ih with ⟨body, hcs, hbody⟩ | ⟨hrest, hbody | ⟨body, s, hcs, hs, hbody⟩⟩
    · exact Or.inl ⟨'\\' :: c :: body, by simp [← hcs], hbody.escaped⟩
    · exact Or.inr ⟨hrest, Or.inl hbody.escaped⟩
    · exact Or.inr ⟨hrest, Or.inr ⟨'\\' :: c :: body, unescape c :: s, by simp [← hcs], by simp [← hs], hbody.escaped⟩⟩
  | case3 cs _ => exact Or.inl ⟨[], rfl, .nil⟩
  | case4 c cs hslash hquote s rest hread ih =>
    rw [hread] at ih
    by_cases hc : c = '\\'
    · -- No character is left for a backslash to go with.
      cases cs with
      | cons d ds => exact absurd rfl (hslash d ds hc)
      | nil =>
        cases hread
        exact Or.inr ⟨rfl, Or.inr ⟨[], [], by rw [hc]; rfl, by rw [hc]; rfl, .nil⟩⟩
    · rcases ih with ⟨body, hcs, hbody⟩ | ⟨hrest, hbody | ⟨body, s, hcs, hs, hbody⟩⟩
      · exact Or.inl ⟨c :: body, by simp [← hcs], hbody.plain hquote hc⟩
      · exact Or.inr ⟨hrest, Or.inl (hbody.plain hquote hc)⟩
      · exact Or.inr ⟨hrest, Or.inr ⟨c :: body, c :: s, by simp [← hcs], by simp [← hs], hbody.plain hquote hc⟩⟩

theorem read?_numeral (h : Decimal.Mantissa.read? cs = some (m, rest)) : cs = m.spelling ++ rest ∧ m.IsNumeral := by
  have hdigits (ds : List Char) : ∀ c ∈ ds.takeWhile Text.isDigit, Text.isDigit c :=
    List.all_eq_true.mp List.all_takeWhile
  have hcut : cs.takeWhile Text.isDigit ++ cs.dropWhile Text.isDigit = cs := List.takeWhile_append_dropWhile
  unfold Decimal.Mantissa.read? at h
  dsimp only at h
  split at h
  · rename_i after hpoint
    split at h
    · cases h
    · rename_i hsome
      cases h
      refine ⟨?_, hdigits cs, hdigits after, ?_⟩
      · rw [Decimal.Mantissa.spelling, List.append_assoc, List.cons_append, List.takeWhile_append_dropWhile, ← hpoint,
          hcut]
      · rw [Bool.and_eq_true, List.isEmpty_iff, List.isEmpty_iff] at hsome
        exact not_and_or.mp hsome
  · split at h
    · cases h
    · rename_i hsome
      cases h
      refine ⟨hcut.symm, hdigits cs, by simp, Or.inl ?_⟩
      simpa using hsome

/-- A numeral is read at least to its end, and as itself if not beyond. -/
theorem numeral_reached (h : m.IsNumeral) (rest : List Char) :
    ∃ n after, Decimal.Mantissa.read? (m.spelling ++ rest) = some (n, after) ∧ after.length ≤ rest.length ∧
      (after.length = rest.length → n = m) := by
  have hcut : (rest.takeWhile Text.isDigit).length + (rest.dropWhile Text.isDigit).length = rest.length := by
    rw [← List.length_append, List.takeWhile_append_dropWhile]
  rcases m with ⟨whole, _ | fraction⟩
  · have hwhole : whole ≠ [] := by simpa using h.nonempty
    unfold Decimal.Mantissa.read? Decimal.Mantissa.spelling
    dsimp only
    rw [List.takeWhile_append_of_pos h.whole, List.dropWhile_append_of_pos h.whole]
    split
    · rename_i after hpoint
      have hafter := dropWhile_length_le Text.isDigit after
      rw [hpoint, List.length_cons] at hcut
      rw [if_neg (by simp [hwhole])]
      exact ⟨_, _, rfl, by omega, by omega⟩
    · rw [if_neg (by simp [hwhole])]
      refine ⟨_, _, rfl, by omega, fun hlength => ?_⟩
      rw [List.eq_nil_of_length_eq_zero (show (rest.takeWhile Text.isDigit).length = 0 by omega), List.append_nil]
  · have hpoint : ¬ Text.isDigit '.' := by decide
    have htake : (whole ++ '.' :: (fraction ++ rest)).takeWhile Text.isDigit = whole := by
      rw [List.takeWhile_append_of_pos h.whole, List.takeWhile_cons_of_neg hpoint, List.append_nil]
    have hdrop : (whole ++ '.' :: (fraction ++ rest)).dropWhile Text.isDigit = '.' :: (fraction ++ rest) := by
      rw [List.dropWhile_append_of_pos h.whole, List.dropWhile_cons_of_neg hpoint]
    have hfraction : ∀ c ∈ fraction, Text.isDigit c := h.fraction
    have hsome : ¬ (whole.isEmpty && (fraction ++ rest.takeWhile Text.isDigit).isEmpty) := by
      rcases h.nonempty with hne | hne
      · simp [show whole ≠ [] from hne]
      · simp [show fraction ≠ [] from hne]
    unfold Decimal.Mantissa.read? Decimal.Mantissa.spelling
    simp only [List.append_assoc, List.cons_append, htake, hdrop, List.takeWhile_append_of_pos hfraction,
      List.dropWhile_append_of_pos hfraction, if_neg hsome]
    refine ⟨_, _, rfl, by omega, fun hlength => ?_⟩
    rw [List.eq_nil_of_length_eq_zero (show (rest.takeWhile Text.isDigit).length = 0 by omega), List.append_nil]

theorem numeral_cons (h : m.IsNumeral) : ∃ c cs, m.spelling = c :: cs ∧ (Text.isDigit c ∨ c = '.') := by
  rcases m with ⟨_ | ⟨c, whole⟩, fraction⟩
  · cases fraction with
    | none => exact absurd h.nonempty (by simp)
    | some fraction => exact ⟨'.', fraction, rfl, Or.inr rfl⟩
  · have hdigit := h.whole c List.mem_cons_self
    cases fraction with
    | none => exact ⟨c, whole, rfl, Or.inl hdigit⟩
    | some fraction => exact ⟨c, whole ++ '.' :: fraction, rfl, Or.inl hdigit⟩

theorem pairKind?_not_blank {d : Char} {kind : TokenKind} (h : pairKind? c d = some kind) : isLineBlank c = false := by
  unfold pairKind? at h
  split at h <;> first | rfl | cases h

theorem singleKind?_not_blank {kind : TokenKind} (h : singleKind? c = some kind) : isLineBlank c = false := by
  unfold singleKind? at h
  split at h <;> first | rfl | cases h

def Reaches (cs rest : List Char) (t : Option Token) : Prop :=
  ∃ p, piece? cs = some p ∧ p.rest.length ≤ rest.length ∧ (p.rest.length = rest.length → p.token = t)

theorem reaches_exactly (h : piece? cs = some ⟨t, rest⟩) : Reaches cs rest t :=
  ⟨_, h, Nat.le_refl _, fun _ => rfl⟩

theorem reaches_pair {d : Char} {kind : TokenKind} (h : pairKind? c d = some kind) (rest : List Char) :
    Reaches (c :: d :: rest) rest (some (spelled kind [c, d])) := by
  refine reaches_exactly (piece?_operator (pairKind?_not_blank h) ?_)
  rw [operator?, h]

/-- A symbol may be the first half of a pair. -/
theorem reaches_single {kind : TokenKind} (h : singleKind? c = some kind) (rest : List Char) :
    Reaches (c :: rest) rest (some (spelled kind [c])) := by
  have hblank := singleKind?_not_blank h
  cases rest with
  | nil => exact reaches_exactly (piece?_operator hblank (by rw [operator?, h]; rfl))
  | cons d rest =>
    cases hpair : pairKind? c d with
    | none => exact reaches_exactly (piece?_operator hblank (by rw [operator?, hpair, h]; rfl))
    | some longer =>
      refine ⟨⟨some (spelled longer [c, d]), rest⟩, piece?_operator hblank ?_, Nat.le_succ _, fun hlength => ?_⟩
      · rw [operator?, hpair]
      · exact absurd hlength (Nat.ne_of_lt (Nat.lt_succ_self _))

theorem reaches_quoted {s : List Char} (hq : isQuote quote) (h : quotedBody quote cs = (s, rest)) :
    Reaches (quote :: cs) rest (some (ofText quote s)) := by
  have hquote : quote = '"' ∨ quote = '\'' := by simpa [isQuote] using hq
  refine reaches_exactly ?_
  rw [piece?_quoted hquote, h]

theorem reaches_number (h : m.IsNumeral) (rest : List Char) :
    Reaches (m.spelling ++ rest) rest (some (ofMantissa m)) := by
  obtain ⟨n, after, hread, hle, heq⟩ := numeral_reached h rest
  obtain ⟨c, cs, hspelling, hc⟩ := numeral_cons h
  have hnumber : number? (m.spelling ++ rest) = some ⟨some (ofMantissa n), after⟩ := by rw [number?, hread]; rfl
  rw [hspelling] at hnumber ⊢
  exact ⟨_, piece?_number hc hnumber, hle, fun hlength => by rw [heq hlength]⟩

theorem reaches_word {t : Token} (hc : isLetter c) (hcs : ∀ d ∈ cs, isWordChar d) (ht : WordToken (c :: cs) t)
    (rest : List Char) : Reaches (c :: (cs ++ rest)) rest (some t) := by
  have hword : ∀ d ∈ c :: cs, isWordChar d := List.forall_mem_cons.mpr ⟨by simp [isWordChar, hc], hcs⟩
  have hcut : (rest.takeWhile isWordChar).length + (rest.dropWhile isWordChar).length = rest.length := by
    rw [← List.length_append, List.takeWhile_append_dropWhile]
  have hread := piece?_word hc (cs ++ rest)
  rw [List.dropWhile_append_of_pos hcs, ← List.cons_append, List.takeWhile_append_of_pos hword] at hread
  refine ⟨_, hread, dropWhile_length_le _ _, fun hlength => ?_⟩
  dsimp only at hlength
  have hnone : rest.takeWhile isWordChar = [] := List.eq_nil_of_length_eq_zero (by omega)
  rw [ht.eq_ofWord, hnone, List.append_nil]

theorem Lexeme.reaches (h : Lexeme text rest t) : Reaches (text ++ rest) rest t := by
  cases h with
  | blank hblank => exact reaches_exactly (piece?_blank hblank _)
  | pair hpair => exact reaches_pair hpair _
  | single hsingle => exact reaches_single hsingle _
  | closed hquote hs => exact reaches_quoted hquote (hs.closed hquote _)
  | unclosed hquote hs =>
    rw [List.append_nil]
    exact reaches_quoted hquote hs.unclosed
  | dangling hquote hs =>
    rw [List.append_nil]
    exact reaches_quoted hquote (hs.dangling hquote)
  | number hm => exact reaches_number hm _
  | word hletter hword ht => exact reaches_word hletter hword ht _

theorem operator?_lexeme {p : Piece} (h : operator? cs = some p) : ∃ text, cs = text ++ p.rest ∧ Lexeme text p.rest p.token := by
  unfold operator? at h
  split at h
  · rename_i c d cs
    split at h
    · rename_i hpair
      cases h
      exact ⟨[c, d], rfl, .pair hpair⟩
    · obtain ⟨kind, hsingle, rfl⟩ := Option.map_eq_some_iff.mp h
      exact ⟨[c], rfl, .single hsingle⟩
  · rename_i c
    obtain ⟨kind, hsingle, rfl⟩ := Option.map_eq_some_iff.mp h
    exact ⟨[c], rfl, .single hsingle⟩
  · cases h

theorem quoted_lexeme (hq : isQuote quote) (cs : List Char) : ∃ text, quote :: cs = text ++ (quotedBody quote cs).2 ∧
    Lexeme text (quotedBody quote cs).2 (some (ofText quote (quotedBody quote cs).1)) := by
  rcases quotedBody_cases quote cs with ⟨body, hcs, hbody⟩ | ⟨hrest, hbody | ⟨body, s, hcs, hs, hbody⟩⟩
  · exact ⟨quote :: body ++ [quote], by rw [List.cons_append, List.cons_append, ← hcs], .closed hq hbody⟩
  · rw [hrest]
    exact ⟨quote :: cs, (List.append_nil _).symm, .unclosed hq hbody⟩
  · rw [hrest, hs, hcs]
    exact ⟨quote :: body ++ ['\\'], (List.append_nil _).symm, .dangling hq hbody⟩

theorem number?_lexeme {p : Piece} (h : number? cs = some p) : ∃ text, cs = text ++ p.rest ∧ Lexeme text p.rest p.token := by
  obtain ⟨⟨m, rest⟩, hread, rfl⟩ := Option.map_eq_some_iff.mp h
  obtain ⟨hcs, hm⟩ := read?_numeral hread
  exact ⟨m.spelling, hcs, .number hm⟩

theorem word_lexeme (h : isLetter c) (cs : List Char) : ∃ text, c :: cs = text ++ cs.dropWhile isWordChar ∧
    Lexeme text (cs.dropWhile isWordChar) (some (ofWord ((c :: cs).takeWhile isWordChar))) := by
  have htake : (c :: cs).takeWhile isWordChar = c :: cs.takeWhile isWordChar :=
    List.takeWhile_cons_of_pos (by simp [isWordChar, h])
  refine ⟨c :: cs.takeWhile isWordChar, ?_, ?_⟩
  · rw [List.cons_append, List.takeWhile_append_dropWhile]
  · rw [htake]
    exact .word h (List.all_eq_true.mp List.all_takeWhile) (wordToken_ofWord _)

theorem piece?_lexeme {p : Piece} (h : piece? cs = some p) :
    ∃ text, cs = text ++ p.rest ∧ Lexeme text p.rest p.token := by
  unfold piece? at h
  split at h
  · cases h
  rename_i c cs
  split at h
  · rename_i hblank
    cases h
    exact ⟨[c], rfl, .blank hblank⟩
  split at h
  · rename_i hoperator
    cases h
    exact operator?_lexeme hoperator
  split at h
  · rename_i hquote
    cases h
    exact quoted_lexeme hquote cs
  split at h
  · rename_i hnumber
    cases h
    exact number?_lexeme hnumber
  split at h
  · rename_i hletter
    cases h
    exact word_lexeme hletter cs
  · cases h

/-- Reading a piece is taking the longest lexeme there is. -/
theorem piece?_eq_some_iff : piece? cs = some ⟨t, rest⟩ ↔ ∃ text, cs = text ++ rest ∧ IsPiece text rest t := by
  constructor
  · intro h
    obtain ⟨text, rfl, htext⟩ := piece?_lexeme h
    refine ⟨text, rfl, htext, fun {other after u} heq hother => ?_⟩
    obtain ⟨p, hp, hle, -⟩ := hother.reaches
    rw [← heq, h] at hp
    cases hp
    have hlength := congrArg List.length heq
    simp only [List.length_append] at hlength hle
    omega
  · rintro ⟨text, rfl, htext⟩
    obtain ⟨p, hp, hle, ht⟩ := htext.lexeme.reaches
    obtain ⟨other, heq, hother⟩ := piece?_lexeme hp
    have hlongest := htext.longest heq hother
    have hlength := congrArg List.length heq
    simp only [List.length_append] at hlength
    have hrest : p.rest = rest := (List.append_inj_right' heq (by omega)).symm
    rw [hp, ← ht (by rw [hrest]), ← hrest]

theorem piece?_eq_none_iff : piece? cs = none ↔ ∀ text rest t, cs = text ++ rest → ¬ Lexeme text rest t := by
  constructor
  · rintro h text rest t rfl hlexeme
    obtain ⟨p, hp, -⟩ := hlexeme.reaches
    rw [h] at hp
    cases hp
  · intro h
    cases hp : piece? cs with
    | none => rfl
    | some p =>
      obtain ⟨text, hcs, hlexeme⟩ := piece?_lexeme hp
      exact absurd hlexeme (h text p.rest p.token hcs)

end Rules

end Token

end NoteFormula

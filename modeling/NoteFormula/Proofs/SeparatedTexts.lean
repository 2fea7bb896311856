import NoteFormula.Proofs.LongestNumbers
import NoteFormula.Proofs.MaximalMunch

/-! # Separated texts

Outside of quotes no lexeme goes on over a blank. So of two texts with blanks between them each is scanned as it is
alone, unless a quote is open where the first one ends: the tokens of the first come before those of the second, and a
character that stops the second stops the whole, farther on by all that comes before it.
-/
namespace NoteFormula.Token

/-- The quote that is open at the end of a text, where one or none was open at its beginning. Within quotes a backslash
goes with the character after it. -/
def openQuote? : Option Char → List Char → Option Char
  | quote?, [] => quote?
  | none, c :: cs => openQuote? (if isQuote c then some c else none) cs
  | some quote, '\\' :: _ :: cs => openQuote? (some quote) cs
  | some quote, c :: cs => openQuote? (if c = quote then none else some quote) cs

def isPlain (c : Char) : Bool := !isQuote c && !isLineBlank c

/-- A lexeme without quotes. It is one before any text, and it holds no blank unless it is one. -/
structure Bare (text : List Char) (t : Option Token) : Prop where
  lexeme : ∀ rest, Lexeme text rest t
  nonempty : text ≠ []
  unquoted : ∀ c ∈ text, isQuote c = false
  blank : ∀ c ∈ text, isLineBlank c → text = [c]

variable {text more rest cs : List Char} {ts us : List Token} {t : Option Token} {b c quote : Char}

section Quotes

theorem openQuote?_unquoted (h : ∀ c ∈ text, isQuote c = false) (rest : List Char) :
    openQuote? none (text ++ rest) = openQuote? none rest := by
  induction text with
  | nil => rfl
  | cons c text ih =>
    obtain ⟨hc, htext⟩ := List.forall_mem_cons.mp h
    rw [List.cons_append, openQuote?, hc]
    exact ih htext

theorem openQuote?_opened (h : isQuote quote) (cs : List Char) :
    openQuote? none (quote :: cs) = openQuote? (some quote) cs := by
  rw [openQuote?, if_pos h]

theorem openQuote?_closed (h : isQuote quote) (rest : List Char) :
    openQuote? (some quote) (quote :: rest) = openQuote? none rest := by
  rw [openQuote?, if_pos rfl]
  rintro d ds rfl
  cases h

theorem openQuote?_within {s : List Char} (h : QuotedText quote cs s) (rest : List Char) :
    openQuote? (some quote) (cs ++ rest) = openQuote? (some quote) rest := by
  induction h with
  | nil => rfl
  | plain hquote hslash _ ih =>
    rw [List.cons_append, openQuote?, if_neg hquote, ih]
    rintro d ds rfl
    exact absurd rfl hslash
  | escaped _ ih => rw [List.cons_append, List.cons_append, openQuote?, ih]

theorem openQuote?_unclosed {s : List Char} (hquote : isQuote quote) (h : QuotedText quote cs s)
    (htext : text = quote :: cs ∨ text = quote :: (cs ++ ['\\'])) : openQuote? none text = some quote := by
  rcases htext with rfl | rfl
  · rw [openQuote?_opened hquote, ← List.append_nil cs, openQuote?_within h, openQuote?]
  · have hslash : '\\' ≠ quote := by
      rintro rfl
      cases hquote
    rw [openQuote?_opened hquote, openQuote?_within h, openQuote?, if_neg hslash, openQuote?]
    rintro d ds - hcons
    cases hcons

end Quotes

section Blanks

theorem isPlain_iff : isPlain c ↔ isQuote c = false ∧ isLineBlank c = false := by
  simp [isPlain]

theorem isQuote_eq_false {p : Char → Bool} (h : p c) (hdouble : p '"' = false) (hsingle : p '\'' = false) :
    isQuote c = false := by
  refine Bool.eq_false_iff.mpr fun hquote => ?_
  simp only [isQuote, Bool.or_eq_true, decide_eq_true_eq] at hquote
  rcases hquote with rfl | rfl
  · exact absurd h (Bool.eq_false_iff.mp hdouble)
  · exact absurd h (Bool.eq_false_iff.mp hsingle)

theorem isPlain_wordChar (h : isWordChar c) : isPlain c := by
  have hopens : opensValue c := by
    simp only [isWordChar, Bool.or_eq_true] at h
    simp only [opensValue, Bool.or_eq_true]
    exact Or.inl (Or.inl h)
  exact isPlain_iff.mpr ⟨isQuote_eq_false h rfl rfl, opensValue_not_blank hopens⟩

theorem pairKind?_plain {d : Char} {kind : TokenKind} (h : pairKind? c d = some kind) : isPlain c ∧ isPlain d := by
  unfold pairKind? at h
  split at h <;> cases h <;> decide

theorem singleKind?_plain {kind : TokenKind} (h : singleKind? c = some kind) : isPlain c := by
  unfold singleKind? at h
  split at h <;> cases h <;> decide

theorem bare_blank (h : isLineBlank c) : Bare [c] none where
  lexeme _ := .blank h
  nonempty := List.cons_ne_nil c []
  unquoted := List.forall_mem_singleton.mpr (isQuote_eq_false h rfl rfl)
  blank d hd _ := by rw [List.mem_singleton.mp hd]

theorem bare_plain (hlexeme : ∀ rest, Lexeme text rest t) (hne : text ≠ []) (h : ∀ c ∈ text, isPlain c) :
    Bare text t where
  lexeme := hlexeme
  nonempty := hne
  unquoted c hc := (isPlain_iff.mp (h c hc)).1
  blank c hc hblank := by
    rw [(isPlain_iff.mp (h c hc)).2] at hblank
    cases hblank

theorem bare_number {m : Decimal.Mantissa} (h : m.IsNumeral) : Bare m.spelling (some (ofMantissa m)) := by
  refine bare_plain (fun _ => .number h) ?_ fun c hc => isPlain_wordChar ?_
  · obtain ⟨c, cs, hspelling, -⟩ := numeral_cons h
    rw [hspelling]
    exact List.cons_ne_nil c cs
  · rcases h.mem_spelling c hc with hdigit | rfl
    · simp [isWordChar, hdigit]
    · rfl

/-- A lexeme has no quotes, or begins with one and is closed by it or goes on to the end of the text. -/
theorem Lexeme.bare_or_quoted (h : Lexeme text rest t) : Bare text t ∨ ∃ quote cs s, isQuote quote ∧
    QuotedText quote cs s ∧ (text = quote :: (cs ++ [quote]) ∧ t = some (ofText quote s) ∨
      rest = [] ∧ (text = quote :: cs ∨ text = quote :: (cs ++ ['\\']))) := by
  cases h with
  | blank hblank => exact Or.inl (bare_blank hblank)
  | pair hpair =>
    obtain ⟨hc, hd⟩ := pairKind?_plain hpair
    exact Or.inl (bare_plain (fun _ => .pair hpair) (List.cons_ne_nil _ _) (by simp [hc, hd]))
  | single hsingle =>
    exact Or.inl (bare_plain (fun _ => .single hsingle) (List.cons_ne_nil _ _) (by simp [singleKind?_plain hsingle]))
  | closed hquote hs => exact Or.inr ⟨_, _, _, hquote, hs, Or.inl ⟨rfl, rfl⟩⟩
  | unclosed hquote hs => exact Or.inr ⟨_, _, _, hquote, hs, Or.inr ⟨rfl, Or.inl rfl⟩⟩
  | dangling hquote hs => exact Or.inr ⟨_, _, _, hquote, hs, Or.inr ⟨rfl, Or.inr rfl⟩⟩
  | number hm => exact Or.inl (bare_number hm)
  | word hletter hword ht =>
    refine Or.inl (bare_plain (fun _ => .word hletter hword ht) (List.cons_ne_nil _ _) ?_)
    exact List.forall_mem_cons.mpr ⟨isPlain_wordChar (by simp [isWordChar, hletter]),
      fun d hd => isPlain_wordChar (hword d hd)⟩

/-- A lexeme without quotes that begins before a blank ends before it. -/
theorem Bare.ends_before {after : List Char} (h : Bare text t) (hne : cs ≠ []) (hb : isLineBlank b)
    (heq : cs ++ b :: rest = text ++ after) : ∃ more, cs = text ++ more := by
  rcases List.append_eq_append_iff.mp heq with ⟨inner, htext, hafter⟩ | ⟨more, hcs, -⟩
  · cases inner with
    | nil => exact ⟨[], by rw [htext, List.append_nil, List.append_nil]⟩
    | cons d inner =>
      cases hafter
      have hlone := h.blank b (by simp [htext]) hb
      rw [htext, List.append_eq_singleton_iff] at hlone
      rcases hlone with ⟨hnil, -⟩ | ⟨-, hnil⟩
      · exact absurd hnil hne
      · cases hnil
  · exact ⟨more, hcs⟩

theorem Bare.before_blank (h : Bare text t) (hpiece : IsPiece text more t) (hb : isLineBlank b) :
    IsPiece text (more ++ b :: rest) t := by
  refine ⟨h.lexeme _, fun {other after u} heq hother => ?_⟩
  rcases hother.bare_or_quoted with hbare | ⟨quote, cs, s, hquote, -, hother⟩
  · have hne : text ++ more ≠ [] := List.append_ne_nil_of_left_ne_nil h.nonempty more
    rw [← List.append_assoc] at heq
    obtain ⟨beyond, hcut⟩ := hbare.ends_before hne hb heq
    exact hpiece.longest hcut (hbare.lexeme beyond)
  · have hfirst : (text ++ (more ++ b :: rest)).head? = some quote := by
      rw [heq]
      rcases hother with ⟨rfl, -⟩ | ⟨-, rfl | rfl⟩ <;> rfl
    rw [List.head?_append_of_ne_nil text h.nonempty] at hfirst
    have hnot := h.unquoted quote (List.mem_of_mem_head? hfirst)
    rw [hquote] at hnot
    cases hnot

/-- A piece outside of open quotes stays one when the text goes on with a blank, and no quote is open after it. -/
theorem IsPiece.before_blank (h : IsPiece text more t) (hopen : openQuote? none (text ++ more) = none)
    (hb : isLineBlank b) (rest : List Char) :
    IsPiece text (more ++ b :: rest) t ∧ openQuote? none more = none := by
  rcases h.lexeme.bare_or_quoted with hbare | ⟨quote, cs, s, hquote, hs, ⟨rfl, rfl⟩ | ⟨rfl, hunclosed⟩⟩
  · rw [openQuote?_unquoted hbare.unquoted] at hopen
    exact ⟨hbare.before_blank h hb, hopen⟩
  · have hdelimiter : quote = '"' ∨ quote = '\'' := by simpa [isQuote] using hquote
    constructor
    · rw [isPiece_iff, List.cons_append, piece?_quoted hdelimiter, hs.closed hquote]
    · rwa [List.cons_append, openQuote?_opened hquote, List.append_assoc, openQuote?_within hs, List.singleton_append,
        openQuote?_closed hquote] at hopen
  · rw [List.append_nil, openQuote?_unclosed hquote hs hunclosed] at hopen
    cases hopen

/-- Outside of open quotes a text is cut before a blank as it is at its end. -/
theorem Cut.before_blank (h : Cut [] cs ts) (hopen : openQuote? none cs = none) (hb : isLineBlank b)
    (rest : List Char) : Cut (b :: rest) cs ts := by
  induction h with
  | done => exact .done
  | piece hpiece _ ih =>
    rw [List.append_nil] at hpiece
    obtain ⟨hstays, hmore⟩ := hpiece.before_blank hopen hb rest
    exact .piece hstays (ih hmore)

theorem Cut.append (h : Cut (more ++ rest) text ts) (h' : Cut rest more us) : Cut rest (text ++ more) (ts ++ us) := by
  induction h with
  | done => exact h'
  | piece hpiece _ ih =>
    rw [List.append_assoc, List.append_assoc]
    exact .piece (by rwa [List.append_assoc]) ih

theorem cut_blanks (h : ∀ c ∈ cs, isLineBlank c) (rest : List Char) : Cut rest cs [] := by
  induction cs with
  | nil => exact .done
  | cons c cs ih =>
    obtain ⟨hc, hcs⟩ := List.forall_mem_cons.mp h
    have hpiece : IsPiece [c] (cs ++ rest) none := isPiece_iff.mpr (piece?_blank hc (cs ++ rest))
    exact .piece hpiece (ih hcs)

end Blanks

section Sources

variable {outcome : Except Unexpected (List Token)}

def behind (ts : List Token) (n : Nat) : Except Unexpected (List Token) → Except Unexpected (List Token)
  | .ok us => .ok (ts ++ us)
  | .error u => .error ⟨u.char, u.position + n⟩

theorem Tokenized.behind (h : Tokenized cs outcome) (hcut : Cut cs text ts) :
    Tokenized (text ++ cs) (behind ts text.length outcome) := by
  cases h with
  | @tokens us hus =>
    rw [← List.append_nil cs] at hcut
    have hall := Tokenized.tokens (hcut.append hus)
    rwa [List.append_assoc] at hall
  | @unexpected before after c us hcs hus hstuck =>
    rw [hcs] at hcut ⊢
    have hall := Tokenized.unexpected (List.append_assoc ..).symm (hcut.append hus) hstuck
    rwa [List.length_append, Nat.add_comm] at hall

/-- A text that is cut into pieces outside of open quotes, and blanks after it, leave the text after them as it is. -/
theorem Cut.separated (h : Cut [] text ts) (hopen : openQuote? none text = none) (hne : more ≠ [])
    (hblank : ∀ c ∈ more, isLineBlank c) (rest : List Char) : Cut rest (text ++ more) ts := by
  cases more with
  | nil => exact absurd rfl hne
  | cons b more =>
    have hpieces : Cut (b :: more ++ rest) text ts :=
      h.before_blank hopen (hblank b List.mem_cons_self) (more ++ rest)
    have hall := hpieces.append (cut_blanks hblank rest)
    rwa [List.append_nil] at hall

/-- Behind a text that ends outside of open quotes and blanks after it, a text has the tokens that it has alone, and a
character that is unexpected in it is unexpected there. -/
theorem tokenize_separated (s₁ w s₂ : String) (ts : List Token) (h : tokenize s₁ = .ok ts)
    (hopen : openQuote? none s₁.toList = none) (hne : w ≠ "") (hblank : ∀ c ∈ w.toList, isLineBlank c) :
    ∃ body, ts = body ++ [eof] ∧
      ((∃ all, tokenize (s₁ ++ w ++ s₂) = .ok all) ↔ ∃ us, tokenize s₂ = .ok us) ∧
      (∀ us, tokenize s₂ = .ok us → tokenize (s₁ ++ w ++ s₂) = .ok (body ++ us)) ∧
      ∀ c i, tokenize s₂ = .error ⟨c, i⟩ →
        tokenize (s₁ ++ w ++ s₂) = .error ⟨c, i + s₁.length + w.length⟩ := by
  have htokenized := tokenized_tokenize s₁
  rw [h] at htokenized
  cases htokenized with
  | @tokens body hcut =>
    have hw : w.toList ≠ [] := by simpa using hne
    have hsource : Tokenized (s₁ ++ w ++ s₂).toList (behind body (s₁.length + w.length) (tokenize s₂)) := by
      have hall := (tokenized_tokenize s₂).behind (hcut.separated hopen hw hblank s₂.toList)
      rwa [List.length_append, String.length_toList, String.length_toList, ← String.toList_append,
        ← String.toList_append] at hall
    have hwhole := hsource.tokenize_eq
    refine ⟨body, rfl, ?_, ?_, ?_⟩
    · rw [hwhole]
      cases tokenize s₂ with
      | ok us => exact ⟨fun _ => ⟨us, rfl⟩, fun _ => ⟨body ++ us, rfl⟩⟩
      | error u => simp [behind]
    · intro us hus
      rw [hwhole, hus, behind]
    · intro c i hunexpected
      rw [hwhole, hunexpected, behind, Nat.add_assoc]

/-- Blanks keep an exclamation mark from the sign after it, which is unexpected behind them as it is alone. Quotes that
are open at the end are those of the second text. -/
theorem sign_unexpected_behind_blanks :
    let body := [ofWord "fm.a".toList, spelled .not ['!']]
    tokenize "fm.a !" = .ok (body ++ [eof]) ∧ openQuote? none "fm.a !".toList = none ∧ "\t\n" ≠ "" ∧
      (∀ c ∈ "\t\n".toList, isLineBlank c) ∧ tokenize ("fm.a !" ++ "\t\n" ++ "= 1") = .error ⟨'=', 8⟩ ∧
      tokenize ("fm.a !" ++ "\t\n" ++ "'it") = .ok (body ++ [ofText '\'' ['i', 't'], eof]) := by
  intro body
  have hfirst : tokenize "fm.a !" = .ok (body ++ [eof]) := by cbv
  have hsign : tokenize "= 1" = .error ⟨'=', 0⟩ := by cbv
  have hquoted : tokenize "'it" = .ok [ofText '\'' ['i', 't'], eof] := by cbv
  have hopen : openQuote? none "fm.a !".toList = none := rfl
  have hne : "\t\n" ≠ "" := by decide
  have hblank : ∀ c ∈ "\t\n".toList, isLineBlank c := List.all_eq_true.mp (by cbv)
  obtain ⟨first, heq, -, -, hunexpected⟩ := tokenize_separated _ _ "= 1" _ hfirst hopen hne hblank
  obtain ⟨second, heq', -, hsecond, -⟩ := tokenize_separated _ _ "'it" _ hfirst hopen hne hblank
  rw [← List.append_cancel_right heq'] at hsecond
  exact ⟨hfirst, hopen, hne, hblank, hunexpected _ _ hsign, hsecond _ hquoted⟩

end Sources

end NoteFormula.Token

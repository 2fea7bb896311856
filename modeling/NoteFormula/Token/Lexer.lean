import NoteFormula.Decimal.Numeral
import NoteFormula.Text.Quoted
import NoteFormula.Token.Basic

/-! # Tokens of a text

A text is cut into pieces from left to right; each piece is one blank or the longest lexeme that some rule
accepts there. The first character that starts no piece is reported, and nothing is skipped.
-/
namespace NoteFormula.Token

def isLineBlank (c : Char) : Bool := c = ' ' || c = '\t' || c = '\r' || c = '\n'

def isLetter (c : Char) : Bool := ('a' ≤ c && c ≤ 'z') || ('A' ≤ c && c ≤ 'Z') || c = '_'

def isWordChar (c : Char) : Bool := isLetter c || Text.isDigit c || c = '.'

def pairKind? : Char → Char → Option TokenKind
  | '=', '=' => some .eq
  | '!', '=' => some .neq
  | '>', '=' => some .gte
  | '<', '=' => some .lte
  | '&', '&' => some .and
  | '|', '|' => some .or
  | '?', '?' => some .nullish
  | _, _ => none

def singleKind? : Char → Option TokenKind
  | '>' => some .gt
  | '<' => some .lt
  | '!' => some .not
  | '+' => some .plus
  | '-' => some .minus
  | '*' => some .star
  | '/' => some .slash
  | '(' => some .lparen
  | ')' => some .rparen
  | ',' => some .comma
  | _ => none

def after? (start cs : List Char) : Option (List Char) :=
  if start.isPrefixOf cs then some (cs.drop start.length) else none

def ofWord (w : List Char) : Token :=
  match after? ['f', 'm', '.'] w, after? ['f', 'i', 'l', 'e', '.'] w with
  | some path, _ => ⟨.noteRef, .text (String.ofList path), String.ofList w⟩
  | none, some path => ⟨.fileRef, .text (String.ofList path), String.ofList w⟩
  | none, none =>
    if w = ['t', 'r', 'u', 'e'] then ⟨.boolean, .bool true, String.ofList w⟩
    else if w = ['f', 'a', 'l', 's', 'e'] then ⟨.boolean, .bool false, String.ofList w⟩
    else if w = ['i', 'f'] then spelled .ifWord w
    else if w = ['c', 'o', 'n', 't', 'a', 'i', 'n', 's'] then spelled .containsWord w
    else if w = ['l', 'e', 'n', 'g', 't', 'h'] then spelled .lengthWord w
    else spelled .word w

def unescape : Char → Char
  | 'n' => '\n'
  | 't' => '\t'
  | 'r' => '\r'
  | c => c

/-- The text up to the closing quote or the end, and what follows. A backslash at the very end stands for
itself. -/
def quotedBody (quote : Char) : List Char → List Char × List Char
  | [] => ([], [])
  | '\\' :: c :: cs => let (body, rest) := quotedBody quote cs; (unescape c :: body, rest)
  | c :: cs => if c = quote then ([], cs) else let (body, rest) := quotedBody quote cs; (c :: body, rest)

/-- The token of a text literal shows its value between the quotes, not the escapes it was written with. -/
def ofText (quote : Char) (body : List Char) : Token :=
  ⟨.text, .text (String.ofList body), String.ofList (quote :: body ++ [quote])⟩

structure Piece where
  token : Option Token
  rest : List Char

def operator? : List Char → Option Piece
  | c :: d :: cs => match pairKind? c d with
    | some kind => some ⟨some (spelled kind [c, d]), cs⟩
    | none => (singleKind? c).map fun kind => ⟨some (spelled kind [c]), d :: cs⟩
  | [c] => (singleKind? c).map fun kind => ⟨some (spelled kind [c]), []⟩
  | [] => none

def ofMantissa (m : Decimal.Mantissa) : Token :=
  ⟨.number, .float ((m.decimal 0).toFloat false), String.ofList m.spelling⟩

def number? (cs : List Char) : Option Piece :=
  (Decimal.Mantissa.read? cs).map fun (mantissa, rest) => ⟨some (ofMantissa mantissa), rest⟩

def piece? : List Char → Option Piece
  | [] => none
  | c :: cs =>
    if isLineBlank c then some ⟨none, cs⟩
    else match operator? (c :: cs) with
      | some piece => some piece
      | none =>
        if c = '"' || c = '\'' then
          let (body, rest) := quotedBody c cs
          some ⟨some (ofText c body), rest⟩
        else match number? (c :: cs) with
          | some piece => some piece
          | none =>
            if isLetter c then some ⟨some (ofWord ((c :: cs).takeWhile isWordChar)), cs.dropWhile isWordChar⟩
            else none

theorem quotedBody_rest_le (quote : Char) (cs : List Char) : (quotedBody quote cs).2.length ≤ cs.length := by
  fun_induction quotedBody quote cs <;> simp_all <;> omega

theorem dropWhile_length_le (p : Char → Bool) (cs : List Char) : (cs.dropWhile p).length ≤ cs.length :=
  (List.dropWhile_sublist p).length_le

theorem read?_rest_lt {cs rest : List Char} {m : Decimal.Mantissa}
    (h : Decimal.Mantissa.read? cs = some (m, rest)) : rest.length < cs.length := by
  have cut : (cs.takeWhile Text.isDigit).length + (cs.dropWhile Text.isDigit).length = cs.length := by
    rw [← List.length_append, List.takeWhile_append_dropWhile]
  unfold Decimal.Mantissa.read? at h
  simp only at h
  split at h
  · rename_i after heq
    have := dropWhile_length_le Text.isDigit after
    rw [heq, List.length_cons] at cut
    split at h
    · cases h
    · simp only [Option.some.injEq, Prod.mk.injEq] at h
      obtain ⟨_, rfl⟩ := h
      omega
  · split at h
    · cases h
    · rename_i hw
      simp only [Option.some.injEq, Prod.mk.injEq] at h
      obtain ⟨_, rfl⟩ := h
      have := List.length_pos_iff.mpr fun e => hw (List.isEmpty_iff.mpr e)
      omega

theorem operator?_rest_lt {cs : List Char} {p : Piece} (h : operator? cs = some p) :
    p.rest.length < cs.length := by
  unfold operator? at h
  split at h
  · split at h
    · cases h; simp only [List.length_cons]; omega
    · obtain ⟨k, _, rfl⟩ := Option.map_eq_some_iff.mp h; simp only [List.length_cons]; omega
  · obtain ⟨k, _, rfl⟩ := Option.map_eq_some_iff.mp h; simp only [List.length_cons]; omega
  · cases h

theorem piece?_rest_lt {cs : List Char} {p : Piece} (h : piece? cs = some p) :
    p.rest.length < cs.length := by
  unfold piece? at h
  split at h
  · cases h
  · rename_i c cs
    split at h
    · cases h; simp only [List.length_cons]; omega
    · split at h
      · rename_i hop
        cases h
        exact operator?_rest_lt hop
      · split at h
        · cases h
          have := quotedBody_rest_le c cs
          simp only [List.length_cons]; omega
        · split at h
          · rename_i hnum
            cases h
            obtain ⟨⟨_, _⟩, hm, rfl⟩ := Option.map_eq_some_iff.mp hnum
            exact read?_rest_lt hm
          · split at h
            · cases h
              have := dropWhile_length_le isWordChar cs
              simp only [List.length_cons]; omega
            · cases h

/-- The first character that starts no piece, and its place. -/
structure Unexpected where
  char : Char
  position : Nat
deriving DecidableEq

def Unexpected.message (u : Unexpected) : String :=
  "Unexpected character: " ++ Text.quoted (String.ofList [u.char]) ++ " at position " ++
    String.ofList (Text.decimalDigits u.position)

/-- A character that starts no piece, and how many characters come after it. -/
structure Stop where
  char : Char
  following : Nat

def scan (cs : List Char) : Except Stop (List Token) :=
  match cs with
  | [] => .ok [eof]
  | c :: cs =>
    match _h : piece? (c :: cs) with
    | none => .error ⟨c, cs.length⟩
    | some piece => do
      let tokens ← scan piece.rest
      return piece.token.toList ++ tokens
termination_by cs.length
decreasing_by exact piece?_rest_lt _h

def tokenize (source : String) : Except Unexpected (List Token) :=
  (scan source.toList).mapError fun stop => ⟨stop.char, source.length - (stop.following + 1)⟩

end NoteFormula.Token

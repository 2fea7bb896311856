import NoteFormula.Proofs.Answers
import NoteFormula.Proofs.CanonicalSource
import NoteFormula.Proofs.MaximalMunch
import NoteFormula.Proofs.ReplacedLiterals

/-! # Formulas that are read

What the formula of a text can be made of: its literals are truth values, texts and numbers without a sign, and
its paths are words. A numeral may be too large for a double and is infinite then. Such a number has no literal
form, but the quotient that is written for it comes to the same. So the canonical source of a formula that was read
stands for the formula with such quotients, if the limit allows the height of that.
-/
namespace NoteFormula

open Token Decimal

def Value.IsReadable : Value → Prop
  | bool _ | text _ => True
  | float x => (∃ mantissa shift, Binary.ofFloat x = .finite false mantissa shift) ∨
      Binary.ofFloat x = .infinite false
  | _ => False

namespace Token

variable {text rest : List Char} {ts : List Token} {t : Token}

theorem Lexeme.readable (h : Lexeme text rest (some t)) (ht : t.kind.isLiteral) : t.value.IsReadable := by
  cases h with
  | pair | single | closed | unclosed | dangling => trivial
  | number _ => exact ofFloat_ofCode false (code_le _)
  | word _ _ hword => cases hword <;> trivial

theorem Lexeme.path (h : Lexeme text rest (some t)) {space : Namespace} (ht : t.kind.space? = some space) :
    t.value.IsPath := by
  cases h with
  | pair hpair => unfold pairKind? at hpair; split at hpair <;> cases hpair <;> cases ht
  | single hsingle => unfold singleKind? at hsingle; split at hsingle <;> cases hsingle <;> cases ht
  | closed | unclosed | dangling | number => cases ht
  | @word c cs _ _ hletter hcs hword =>
    have hall : ∀ d ∈ c :: cs, isWordChar d := List.forall_mem_cons.mpr ⟨by simp [isWordChar, hletter], hcs⟩
    generalize c :: cs = w at hword hall
    cases hword with
    | note path =>
      intro d hd
      rw [String.toList_ofList] at hd
      exact hall d (List.mem_append_right _ hd)
    | file path =>
      intro d hd
      rw [String.toList_ofList] at hd
      exact hall d (List.mem_append_right _ hd)
    | _ => cases ht

theorem Cut.lexeme (h : Cut rest text ts) : ∀ t ∈ ts, ∃ piece after, Lexeme piece after (some t) := by
  induction h with
  | done => simp
  | piece hpiece _ ih =>
    refine List.forall_mem_append.mpr ⟨fun t ht => ?_, ih⟩
    rw [Option.mem_toList.mp ht] at hpiece
    exact ⟨_, _, hpiece.lexeme⟩

end Token

variable {limit : Int} {source : String} {f : Formula} {context : Context}

theorem Formula.ofSource?_readable (hl : 1 ≤ limit) (h : ofSource? limit source = some f) :
    f.Complete Value.IsReadable fun _ path => path.IsPath := by
  obtain ⟨tokens, ht, hparse⟩ := of_ofSource? h
  have hcut := tokenized_tokenize source
  rw [ht] at hcut
  cases hcut with
  | @tokens ts hcut =>
    obtain ⟨body, hbody, hlexical⟩ := tokenize_ok ht
    obtain rfl := List.append_cancel_right hbody
    obtain ⟨n, -, hd⟩ := derives_of_parse hl hlexical hparse
    refine hd.complete (fun _ => trivial) (fun t hmem hliteral => ?_) fun t hmem space hspace => ?_
    · obtain ⟨_, _, hlexeme⟩ := hcut.lexeme t hmem
      exact hlexeme.readable hliteral
    · obtain ⟨_, _, hlexeme⟩ := hcut.lexeme t hmem
      exact hlexeme.path hspace

namespace Formula

def quotient : Formula :=
  .binary .divide (.literal (.float (Float.ofBits 0x3ff0000000000000))) (.literal (.float (Float.ofBits 0)))

def spelledOut : Formula → Formula
  | literal (.float x) => if Binary.ofFloat x = .infinite false then quotient else literal (.float x)
  | unary op f => unary op f.spelledOut
  | binary op f g => binary op f.spelledOut g.spelledOut
  | conditional c t e => conditional c.spelledOut t.spelledOut e.spelledOut
  | contains f g => contains f.spelledOut g.spelledOut
  | length f => length f.spelledOut
  | f => f

def one : Formula := literal (.float (Float.ofBits 0x3ff0000000000000))

def zero : Formula := literal (.float (Float.ofBits 0))

theorem one_writable : one.Writable := .literal ⟨2 ^ 52, 1022, rfl⟩

theorem zero_writable : zero.Writable := .literal ⟨0, 0, rfl⟩

theorem quotient_writable : quotient.Writable := .binary one_writable zero_writable

theorem quotient_evaluate (context : Context) :
    quotient.evaluate context = .ok (.float (infinity false)) := rfl

theorem one_source : one.source = .ok ['1'] := by
  have hone : sourceFloat (Float.ofBits 0x3ff0000000000000) = ['1'] := by decide +kernel
  rw [one, source, Value.source, hone]

theorem zero_source : zero.source = .ok ['0'] := by
  have hzero : sourceFloat (Float.ofBits 0) = ['0'] := by decide +kernel
  rw [zero, source, Value.source, hzero]

theorem quotient_source : quotient.source = .ok "(1 / 0)".toList := by
  change (binary .divide one zero).source = _
  rw [source, one_source, zero_source]
  rfl

theorem spelledOut_literal (v : Value) : (literal v).spelledOut = literal v ∧ v ≠ .float (infinity false) ∨
    (literal v).spelledOut = quotient ∧ v = .float (infinity false) := by
  have hself : Binary.ofFloat (infinity false) = .infinite false := rfl
  cases v with
  | float x =>
    unfold spelledOut
    split
    · rename_i hinfinite
      exact Or.inr ⟨rfl, by rw [ofFloat_infinite hinfinite]⟩
    · rename_i hfinite
      refine Or.inl ⟨rfl, fun heq => hfinite ?_⟩
      cases heq
      exact hself
  | _ => exact Or.inl ⟨rfl, by rintro ⟨⟩⟩

theorem spelledOut_eq (f : Formula) : f.spelledOut = f.replaced fun v => (literal v).spelledOut := by
  induction f with
  | absent | reference | literal => rfl
  | unary op f ih => rw [spelledOut, replaced, ih]
  | binary op f g ihf ihg => rw [spelledOut, replaced, ihf, ihg]
  | conditional c t e ihc iht ihe => rw [spelledOut, replaced, ihc, iht, ihe]
  | contains f g ihf ihg => rw [spelledOut, replaced, ihf, ihg]
  | length f ih => rw [spelledOut, replaced, ih]

theorem writtenAlike_spelledOut : WrittenAlike fun v => (literal v).spelledOut where
  source v := by
    rcases spelledOut_literal v with ⟨heq, -⟩ | ⟨heq, rfl⟩
    · rw [heq]
      rfl
    · rw [heq, quotient_source]
      rfl
  isBool v b := by
    rcases spelledOut_literal v with ⟨heq, -⟩ | ⟨heq, rfl⟩
    · rw [heq]
    · rw [heq]
      rfl

theorem Complete.spelledOut_writable (h : f.Complete Value.IsReadable fun _ path => path.IsPath) :
    f.spelledOut.Writable := by
  rw [spelledOut_eq]
  refine h.replaced fun v hv => ?_
  rcases spelledOut_literal v with ⟨heq, hne⟩ | ⟨heq, -⟩
  · rw [heq]
    refine .literal ?_
    cases v with
    | float x => exact hv.resolve_right fun hinfinite => hne (by rw [ofFloat_infinite hinfinite])
    | bool | text => trivial
    | _ => cases hv
  · rw [heq]
    exact quotient_writable

theorem spelledOut_source (f : Formula) : f.spelledOut.source = f.source := by
  rw [spelledOut_eq, writtenAlike_spelledOut.replaced_source]

theorem spelledOut_evaluate (context : Context) (f : Formula) :
    f.spelledOut.evaluate context = f.evaluate context := by
  have hliteral (v : Value) : ((literal v).spelledOut).evaluate context = (literal v).evaluate context := by
    rcases spelledOut_literal v with ⟨heq, -⟩ | ⟨heq, rfl⟩
    · rw [heq]
    · rw [heq, quotient_evaluate, evaluate_literal]
  have hpresent (v : Value) := not_absent_of_source (writtenAlike_spelledOut.source v)
  rw [spelledOut_eq, replaced_evaluate hpresent (fun _ => rfl) hliteral, replaced_literal]

/-- The canonical source of a writable formula is read as this formula within the limits that allow its height, and
refused for its nesting within the others. -/
theorem Writable.parse_within (h : f.Writable) : ∃ canonical tokens, f.sourceString = .ok canonical ∧
    tokenize canonical = .ok tokens ∧ ∀ limit : Int, 1 ≤ limit → (f.height ≤ limit → parse tokens limit = .ok f) ∧
      (limit < f.height → ∃ found, parse tokens limit = .error (.tooDeep limit.toNat found)) := by
  obtain ⟨text, ts, n, hread⟩ := h.readsBack
  have hscanned : Scanned text ts [] := hread.scanned (by rintro c ⟨⟩)
  have htokens := hscanned.tokenize
  obtain ⟨body, hbody, hlexical⟩ := tokenize_ok htokens
  obtain rfl := List.append_cancel_right hbody
  refine ⟨String.ofList text, _, by rw [sourceString, hread.source]; rfl, htokens, fun limit hl => ?_⟩
  have hwithin := hread.whole.parse_within hlexical hl
  exact ⟨fun hle => hwithin.1 (by omega), fun hgt => hwithin.2 (by omega)⟩

/-- The canonical source of a writable formula stands for it within the limits that allow its height, and for no
formula within the others. -/
theorem Writable.ofSource?_sourceString (h : f.Writable) (hl : 1 ≤ limit) :
    ∃ canonical, f.sourceString = .ok canonical ∧
      ofSource? limit canonical = if f.height ≤ limit then some f else none := by
  obtain ⟨canonical, tokens, hs, htokens, hwithin⟩ := h.parse_within
  obtain ⟨hshallow, hdeep⟩ := hwithin limit hl
  refine ⟨canonical, hs, ?_⟩
  rw [ofSource?_ok htokens]
  split
  · rename_i hle
    rw [hshallow hle]
    rfl
  · rename_i hgt
    obtain ⟨found, herror⟩ := hdeep (Int.not_le.mp hgt)
    rw [herror]
    rfl

/-- The canonical source of a formula that is read stands for the spelled out formula, where its height is allowed. -/
theorem ofSource?_canonical (hl : 1 ≤ limit) (h : ofSource? limit source = some f) :
    ∃ canonical, f.sourceString = .ok canonical ∧
      ofSource? limit canonical = if f.spelledOut.height ≤ limit then some f.spelledOut else none := by
  obtain ⟨canonical, hs, hback⟩ := (ofSource?_readable hl h).spelledOut_writable.ofSource?_sourceString hl
  exact ⟨canonical, by rw [sourceString, ← spelledOut_source, ← sourceString, hs], hback⟩

end Formula

end NoteFormula

import NoteFormula.Proofs.ReadFormulas
import NoteFormula.Proofs.SignedDoubles

/-! # Formulas with numbers of every kind

Negative numbers, infinities and what is no number have no literal form. The operations that are written for them come
to the same doubles and are written alike, wherever they stand. So the text of a formula is read as a formula with this
text, and with these values. Negative zero alone is lost: it is written like zero.
-/
namespace NoteFormula

open Decimal

namespace Decimal

def negativeZero : Float := ofCode true 0

end Decimal

namespace Value

def IsLiteral : Value → Prop
  | bool _ | text _ | float _ => True
  | _ => False

def unsigned : Value → Value
  | float x => if Binary.ofFloat x = .finite true 0 0 then .float (Float.ofBits 0) else .float x
  | v => v

end Value

namespace Formula

def ofNumber (x : Float) : Formula :=
  match Binary.ofFloat x with
  | .nan => binary .divide zero zero
  | .infinite negative => if negative then binary .divide (unary .negate one) zero else quotient
  | .finite negative mantissa _ =>
    if mantissa = 0 then zero
    else if negative then unary .negate (literal (.float (-x)))
    else literal (.float x)

def ofLiteral : Value → Formula
  | .float x => ofNumber x
  | v => literal v

def unsigned (f : Formula) : Formula := f.replaced fun v => literal v.unsigned

def reread (f : Formula) : Formula := f.replaced ofLiteral

variable {x : Float} {v : Value} {f : Formula} {negative : Bool} {mantissa shift : Nat} {context : Context}

/-- What is read where a number was written is complete, is written like the number, and comes to it. -/
structure Renders (f : Formula) (x : Float) : Prop where
  writable : f.Writable
  source : f.source = .ok (sourceFloat x)
  isBool : ∀ b, f.isBool b = false
  evaluate : ∀ context, f.evaluate context = .ok (Value.unsigned (.float x))

theorem renders_nan : Renders (binary .divide zero zero) notANumber where
  writable := .binary zero_writable zero_writable
  source := by
    rw [source, zero_source]
    rfl
  isBool _ := rfl
  evaluate _ := rfl

theorem renders_infinity : Renders quotient (infinity false) where
  writable := quotient_writable
  source := quotient_source
  isBool _ := rfl
  evaluate := quotient_evaluate

theorem renders_negative_infinity : Renders (binary .divide (unary .negate one) zero) (infinity true) where
  writable := .binary (.unary one_writable) zero_writable
  source := by
    rw [source, source, one_source, zero_source]
    rfl
  isBool _ := rfl
  evaluate _ := rfl

/-- Zero is written for either zero, and it is what negative zero is replaced with. -/
theorem renders_zero (negative : Bool) : Renders zero (ofCode negative 0) where
  writable := zero_writable
  source := by
    have hwritten : sourceFloat (ofCode negative 0) = ['0'] := by cases negative <;> decide +kernel
    rw [zero_source, hwritten]
  isBool _ := rfl
  evaluate _ := by cases negative <;> rfl

theorem unsigned_of_ne (h : Binary.ofFloat x ≠ .finite true 0 0) : Value.unsigned (.float x) = .float x := if_neg h

/-- A negative number is written as its magnitude after a minus, and negation gives it back. -/
theorem renders_negative (hx : Binary.ofFloat x = .finite true mantissa shift) (hne : mantissa ≠ 0) :
    Renders (unary .negate (literal (.float (-x)))) x where
  writable := .unary (.literal ⟨mantissa, shift, (neg_finite hx).1⟩)
  source := by
    have hneg := (neg_finite hx).1
    have hwrite : Layout.unfolded.write x = '-' :: Layout.unfolded.write (-x) := by
      simp [Layout.write_finite _ hx, Layout.write_finite _ hneg, hne]
    rw [← formulaText_eq_write hx, ← formulaText_eq_write hneg] at hwrite
    rw [source, source, Value.source, sourceFloat, sourceFloat, hx, hneg]
    exact congrArg Except.ok hwrite.symm
  isBool _ := rfl
  evaluate context := by
    have hself : Value.unsigned (.float x) = .float x := unsigned_of_ne (by rw [hx]; simp [hne])
    rw [evaluate_unary, evaluate_literal, hself]
    exact congrArg (fun y => Except.ok (Value.float y)) (neg_finite hx).2

theorem renders_literal (hx : Binary.ofFloat x = .finite false mantissa shift) : Renders (literal (.float x)) x where
  writable := .literal ⟨mantissa, shift, hx⟩
  source := rfl
  isBool _ := rfl
  evaluate context := by
    rw [evaluate_literal, unsigned_of_ne]
    rw [hx]
    simp

theorem renders_ofNumber (x : Float) : Renders (ofNumber x) x := by
  unfold ofNumber
  cases hx : Binary.ofFloat x with
  | nan =>
    obtain rfl := ofFloat_nan hx
    exact renders_nan
  | infinite negative =>
    obtain rfl := ofFloat_infinite hx
    cases negative with
    | true => exact renders_negative_infinity
    | false => exact renders_infinity
  | finite negative mantissa shift =>
    dsimp only
    by_cases hzero : mantissa = 0
    · subst hzero
      obtain rfl := ofFloat_zero hx
      exact renders_zero negative
    · rw [if_neg hzero]
      cases negative with
      | true => exact renders_negative hx hzero
      | false => exact renders_literal hx

theorem writtenAlike_ofLiteral : WrittenAlike ofLiteral where
  source v := by
    cases v with
    | float x => exact (renders_ofNumber x).source
    | _ => rfl
  isBool v b := by
    cases v with
    | float x => exact (renders_ofNumber x).isBool b
    | _ => rfl

theorem ofLiteral_evaluate (context : Context) (v : Value) :
    (ofLiteral v).evaluate context = (literal v.unsigned).evaluate context := by
  cases v with
  | float x => exact (renders_ofNumber x).evaluate context
  | _ => rfl

theorem reread_source (f : Formula) : f.reread.source = f.source := writtenAlike_ofLiteral.replaced_source f

/-- The operations that numbers are written as come to the numbers, but for the sign of negative zero. -/
theorem reread_evaluate (context : Context) (f : Formula) :
    f.reread.evaluate context = f.unsigned.evaluate context :=
  replaced_evaluate (fun v => not_absent_of_source (writtenAlike_ofLiteral.source v)) (fun _ => rfl)
    (ofLiteral_evaluate context) f

theorem Complete.reread_writable (h : f.Complete Value.IsLiteral fun _ path => path.IsPath) : f.reread.Writable := by
  refine h.replaced fun v hv => ?_
  cases v with
  | float x => exact (renders_ofNumber x).writable
  | bool | text => exact .literal trivial
  | _ => cases hv

theorem Complete.unsigned_eq {r : Namespace → Value → Prop} (h : f.Complete (· ≠ .float negativeZero) r) :
    f.unsigned = f := by
  refine h.replaced_eq fun v hv => ?_
  cases v with
  | float x =>
    rw [unsigned_of_ne]
    intro hx
    exact hv (congrArg Value.float (ofFloat_zero hx))
  | _ => rfl

/-- The text of a formula is read as the formula with the operations that its numbers are written as. -/
theorem Complete.parse_source (h : f.Complete Value.IsLiteral fun _ path => path.IsPath) :
    ∃ text tokens, f.sourceString = .ok text ∧ f.reread.sourceString = .ok text ∧ Token.tokenize text = .ok tokens ∧
      ∀ limit : Int, f.reread.height ≤ limit → parse tokens limit = .ok f.reread := by
  have hwritable := h.reread_writable
  have hpos := hwritable.height_pos
  obtain ⟨text, tokens, hs, htokens, hparse⟩ := hwritable.parse_within
  refine ⟨text, tokens, ?_, hs, htokens, fun limit hl => (hparse limit (by omega)).1 hl⟩
  rw [sourceString, ← reread_source, ← sourceString, hs]

/-- The formula that is read from the canonical text comes to what the original comes to with zero for negative zero;
without a negative zero, to what the original comes to. -/
theorem canonical_text_evaluates (f : Formula) (h : f.Complete Value.IsLiteral fun _ path => path.IsPath) :
    ∃ text tokens g, ∃ depth : Nat, f.sourceString = .ok text ∧ Token.tokenize text = .ok tokens ∧
      (∀ limit : Int, depth ≤ limit → parse tokens limit = .ok g) ∧
      (∀ context, g.evaluate context = f.unsigned.evaluate context) ∧
      (f.Complete (· ≠ .float negativeZero) (fun _ _ => True) → ∀ context, g.evaluate context = f.evaluate context) := by
  obtain ⟨text, tokens, hs, -, htokens, hparse⟩ := h.parse_source
  refine ⟨text, tokens, f.reread, f.reread.height, hs, htokens, hparse, fun context => reread_evaluate context f, ?_⟩
  intro hkept context
  rw [reread_evaluate, hkept.unsigned_eq]

/-- One divided by negative zero is negative infinity, and its text is that of one divided by zero. -/
theorem negative_zero_loses_sign :
    let f : Formula := binary .divide one (literal (.float negativeZero))
    f.Complete Value.IsLiteral (fun _ path => path.IsPath) ∧ ∃ text tokens g, ∃ depth : Nat,
      f.sourceString = .ok text ∧ Token.tokenize text = .ok tokens ∧
        (∀ limit : Int, depth ≤ limit → parse tokens limit = .ok g) ∧
        ∀ context, f.evaluate context = .ok (.float (infinity true)) ∧
          g.evaluate context = .ok (.float (infinity false)) := by
  intro f
  have hf : f.Complete Value.IsLiteral fun _ path => path.IsPath := .binary (.literal trivial) (.literal trivial)
  obtain ⟨text, tokens, g, depth, hs, htokens, hparse, heval, -⟩ := canonical_text_evaluates f hf
  refine ⟨hf, text, tokens, g, depth, hs, htokens, hparse, fun context => ⟨rfl, ?_⟩⟩
  rw [heval]
  rfl

/-- The canonical text of what is read from a canonical text is this text. -/
theorem canonical_text_fixed (f : Formula) (h : f.Complete Value.IsLiteral fun _ path => path.IsPath) :
    ∃ text tokens g, ∃ depth : Nat, f.sourceString = .ok text ∧ Token.tokenize text = .ok tokens ∧
      (∀ limit : Int, depth ≤ limit → parse tokens limit = .ok g) ∧ g.sourceString = .ok text := by
  obtain ⟨text, tokens, hs, hagain, htokens, hparse⟩ := h.parse_source
  exact ⟨text, tokens, f.reread, f.reread.height, hs, htokens, hparse, hagain⟩

/-- What is read for a negative number and for no number are operations, and they are written alike. -/
theorem negative_operand_fixed :
    let f : Formula := binary .subtract (literal (.float (Float.ofBits 0xbff0000000000000))) (literal (.float notANumber))
    f.Complete Value.IsLiteral (fun _ path => path.IsPath) ∧ ∃ tokens g, ∃ depth : Nat,
      Token.tokenize "(-1 - (0 / 0))" = .ok tokens ∧ (∀ limit : Int, depth ≤ limit → parse tokens limit = .ok g) ∧
        g.sourceString = .ok "(-1 - (0 / 0))" := by
  intro f
  have hf : f.Complete Value.IsLiteral fun _ path => path.IsPath := .binary (.literal trivial) (.literal trivial)
  obtain ⟨text, tokens, g, depth, hs, htokens, hparse, hagain⟩ := canonical_text_fixed f hf
  obtain rfl : "(-1 - (0 / 0))" = text := by
    have hsource : sourceFloat (Float.ofBits 0xbff0000000000000) = ['-', '1'] := by decide +kernel
    have hwritten : f.sourceString = .ok "(-1 - (0 / 0))" := by
      rw [sourceString, source, source, source, Value.source, Value.source, hsource]
      rfl
    exact Except.ok.inj (hwritten.symm.trans hs)
  exact ⟨hf, tokens, g, depth, htokens, hparse, hagain⟩

end Formula

end NoteFormula

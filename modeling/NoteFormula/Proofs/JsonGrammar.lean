import NoteFormula.Proofs.JsonDocuments
import NoteFormula.Proofs.LongestNumbers

/-! # The grammar of JSON

The texts of JSON and the documents they are texts of, rule by rule, with blanks wherever the grammar lets them stand.
What the writers put between quotes and what a layout writes for a number follow these rules.
-/
namespace NoteFormula.Json

open Decimal (Mantissa ExponentText)

/-- A character in quotes: itself, a letter for it, its unit, or its two units beyond the basic plane. -/
inductive CharText : List Char → Char → Prop
  | plain {c : Char} : c ≠ '"' → c ≠ '\\' → 0x20 ≤ c.toNat → CharText [c] c
  | letter {letter c : Char} : simpleEscape? letter = some c → CharText ['\\', letter] c
  | unit {digits : List Char} {c : Char} : digits.length = 4 → (∀ d ∈ digits, Text.isHexDigit d) →
      Text.ofBase 16 digits = c.toNat → CharText ('\\' :: 'u' :: digits) c
  | units {high low : List Char} {c : Char} : high.length = 4 → (∀ d ∈ high, Text.isHexDigit d) →
      low.length = 4 → (∀ d ∈ low, Text.isHexDigit d) → isHighUnit (Text.ofBase 16 high) → isLowUnit (Text.ofBase 16 low) →
      c.toNat = 0x10000 + (Text.ofBase 16 high - 0xd800) * 0x400 + (Text.ofBase 16 low - 0xdc00) →
      CharText ('\\' :: 'u' :: high ++ '\\' :: 'u' :: low) c

inductive CharsText : List Char → List Char → Prop
  | nil : CharsText [] []
  | cons {cs rest s : List Char} {c : Char} : CharText cs c → CharsText rest s → CharsText (cs ++ rest) (c :: s)

inductive StringText : List Char → List Char → Prop
  | quotes {cs s : List Char} : CharsText cs s → StringText ('"' :: cs ++ ['"']) s

inductive NumeralText : List Char → Numeral → Prop
  | plain {m : Mantissa} (negative : Bool) : m.Plain →
      NumeralText ((if negative then ['-'] else []) ++ m.spelling) ⟨negative, m.whole, m.fraction, none⟩
  | scaled {m : Mantissa} {exponent : List Char} {power : Int} (negative : Bool) : m.Plain → ExponentText exponent power →
      exponent ≠ [] →
      NumeralText ((if negative then ['-'] else []) ++ (m.spelling ++ exponent)) ⟨negative, m.whole, m.fraction, some power⟩

def Gap (cs : List Char) : Prop := ∀ c ∈ cs, isSpace c

mutual

inductive ValueText : List Char → Json → Prop
  | null : ValueText "null".toList null
  | bool (b : Bool) : ValueText (if b then "true" else "false").toList (bool b)
  | number {cs : List Char} {n : Numeral} : NumeralText cs n → ValueText cs (number n)
  | text {cs s : List Char} : StringText cs s → ValueText cs (text s)
  | emptyArray {gap : List Char} : Gap gap → ValueText ('[' :: gap ++ [']']) (array [])
  | array {cs : List Char} {items : List Json} : ItemsText cs items → ValueText ('[' :: cs ++ [']']) (array items)
  | emptyObject {gap : List Char} : Gap gap → ValueText ('\x7b' :: gap ++ ['\x7d']) (object [])
  | object {cs : List Char} {entries : List (List Char × Json)} : EntriesText cs entries →
      ValueText ('\x7b' :: cs ++ ['\x7d']) (object entries)

inductive DocumentText : List Char → Json → Prop
  | gaps {before cs after : List Char} {json : Json} : Gap before → ValueText cs json → Gap after →
      DocumentText (before ++ cs ++ after) json

inductive ItemsText : List Char → List Json → Prop
  | one {cs : List Char} {json : Json} : DocumentText cs json → ItemsText cs [json]
  | more {cs rest : List Char} {json : Json} {items : List Json} : DocumentText cs json → ItemsText rest items →
      ItemsText (cs ++ ',' :: rest) (json :: items)

inductive EntryText : List Char → List Char × Json → Prop
  | colon {before name after cs key : List Char} {json : Json} : Gap before → StringText name key → Gap after →
      DocumentText cs json → EntryText (before ++ name ++ after ++ ':' :: cs) (key, json)

inductive EntriesText : List Char → List (List Char × Json) → Prop
  | one {cs : List Char} {e : List Char × Json} : EntryText cs e → EntriesText cs [e]
  | more {cs rest : List Char} {e : List Char × Json} {entries : List (List Char × Json)} : EntryText cs e →
      EntriesText rest entries → EntriesText (cs ++ ',' :: rest) (e :: entries)

end

theorem gap_nil : Gap [] := by simp [Gap]

section Scalars

theorem charText_codeEscape (c : Char) : CharText (codeEscape c.toNat) c := by
  have hhex (n : Nat) : ∀ d ∈ Text.hex 4 n, Text.isHexDigit d := Text.isHexDigit_hex 4 n
  have hlength {n : Nat} (h : n < 0x10000) : (Text.hex 4 n).length = 4 := Text.length_hex (by decide) h
  have hmax := toNat_lt_beyond c
  unfold codeEscape unitEscape
  split
  · rename_i hbasic
    exact .unit (hlength hbasic) (hhex _) (Text.ofBase_hex 4 _)
  · refine .units (hlength (by omega)) (hhex _) (hlength (by omega)) (hhex _) ?_ ?_ ?_
    · simp only [Text.ofBase_hex, isHighUnit, Bool.and_eq_true, decide_eq_true_eq]
      omega
    · simp only [Text.ofBase_hex, isLowUnit, Bool.and_eq_true, decide_eq_true_eq]
      omega
    · simp only [Text.ofBase_hex]
      omega

/-- However a character is written, it is a character in quotes. -/
theorem charText_escaped (charset : Charset) (c : Char) : CharText (escaped charset c) c := by
  unfold escaped
  split_ifs with hquote hslash hline hreturn htab hpage hback hcontrol hwide
  · rw [hquote]; exact .letter rfl
  · rw [hslash]; exact .letter rfl
  · rw [hline]; exact .letter rfl
  · rw [hreturn]; exact .letter rfl
  · rw [htab]; exact .letter rfl
  · rw [hpage]; exact .letter rfl
  · rw [hback]; exact .letter rfl
  · exact charText_codeEscape c
  · exact charText_codeEscape c
  · exact .plain hquote hslash (by omega)

theorem stringText_quoted (charset : Charset) (s : List Char) : StringText (quoted charset s) s := by
  refine .quotes ?_
  induction s with
  | nil => exact .nil
  | cons c s ih => exact .cons (charText_escaped charset c) ih

theorem exponentText_layout (L : Decimal.Layout) (power : Int) : ExponentText (L.exponentText power) power := by
  have hdigits := Decimal.padLeft_isDigit L.exponentWidth power.natAbs
  have hvalue := Decimal.ofDigits_padLeft L.exponentWidth power.natAbs
  have hne := Decimal.padLeft_ne_nil L.exponentWidth power.natAbs
  unfold Decimal.Layout.exponentText
  generalize Text.padLeft L.exponentWidth (Text.decimalDigits power.natAbs) = digits at *
  have hletter : 'e' = 'e' ∨ 'e' = 'E' := Or.inl rfl
  by_cases hnegative : power < 0
  · have hminus := ExponentText.some hletter .minus hne hdigits
    have hpower : -(power.natAbs : Int) = power := by omega
    rw [if_pos rfl, hvalue, hpower] at hminus
    rwa [if_pos hnegative]
  · have hplus := ExponentText.some hletter .plus hne hdigits
    have hpower : (power.natAbs : Int) = power := by omega
    rw [if_neg Bool.false_ne_true, hvalue, hpower] at hplus
    rwa [if_neg hnegative]

theorem numeralText_layout {m : Mantissa} (hm : m.Plain) (L : Decimal.Layout) (negative : Bool) (power : Option Int) :
    NumeralText ((if negative then ['-'] else []) ++ (m.spelling ++ power.elim [] L.exponentText))
      ⟨negative, m.whole, m.fraction, power⟩ := by
  cases power with
  | none =>
    rw [Option.elim_none, List.append_nil]
    exact .plain negative hm
  | some power => exact .scaled negative hm (exponentText_layout L power) (List.cons_ne_nil _ _)

end Scalars

section Containers

variable {cs : List Char} {json : Json}

theorem ValueText.document (h : ValueText cs json) : DocumentText cs json := by
  have hgaps := DocumentText.gaps gap_nil h gap_nil
  rwa [List.nil_append, List.append_nil] at hgaps

theorem valueText_array {parts : List (List Char)} {items : List Json} (h : List.Forall₂ ValueText parts items) :
    ValueText ('[' :: [','].intercalate parts ++ [']']) (array items) := by
  cases h with
  | nil => exact .emptyArray gap_nil
  | @cons part json parts items hpart hparts =>
    refine .array ?_
    induction hparts generalizing part json with
    | nil =>
      rw [List.intercalate_singleton]
      exact .one hpart.document
    | cons hnext _ ih =>
      rw [List.intercalate_cons_cons, List.append_assoc]
      exact .more hpart.document (ih hnext)

theorem entryText_spelling (charset : Charset) {e : WrittenEntry} (h : ValueText e.text e.json) :
    EntryText (e.spelling charset []) (e.key, e.json) := by
  have hcolon := EntryText.colon gap_nil (stringText_quoted charset e.key) gap_nil h.document
  rw [List.nil_append, List.append_nil] at hcolon
  rw [WrittenEntry.spelling, List.append_assoc]
  exact hcolon

theorem valueText_object (charset : Charset) {es : List WrittenEntry} (h : ∀ e ∈ es, ValueText e.text e.json) :
    ValueText ('\x7b' :: joinedEntries charset [] es ++ ['\x7d']) (object (es.map fun e => (e.key, e.json))) := by
  cases es with
  | nil => exact .emptyObject gap_nil
  | cons e es =>
    refine .object ?_
    induction es generalizing e with
    | nil =>
      have hone : joinedEntries charset [] [e] = e.spelling charset [] := List.intercalate_singleton
      rw [hone]
      exact .one (entryText_spelling charset (h e List.mem_cons_self))
    | cons f es ih =>
      obtain ⟨he, hes⟩ := List.forall_mem_cons.mp h
      rw [joinedEntries_cons, List.nil_append]
      exact .more (entryText_spelling charset he) (ih f hes)

end Containers

end NoteFormula.Json

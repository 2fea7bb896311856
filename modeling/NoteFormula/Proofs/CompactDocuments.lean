import NoteFormula.Json.Compact
import NoteFormula.Proofs.JsonGrammar
import NoteFormula.Proofs.NumberTexts
import NoteFormula.Proofs.RestoredRecords

/-! # Compact documents

The text of a list or a map of plain data is a document of JSON, and reading it gives the same data: what is nested in
what, the order of items and entries, texts, truth values, and the exact number of each numeral.
-/
namespace NoteFormula

open Decimal (Binary Layout Spells)

def Json.Numeral.value (n : Json.Numeral) : ℚ :=
  (if n.negative then -1 else 1) * (Decimal.ofParts n.whole (n.fraction.getD []) (n.exponent.getD 0)).value

namespace Value

inductive IsData : Value → Prop
  | absent : IsData absent
  | bool (b : Bool) : IsData (bool b)
  | int (n : Int) : IsData (int n)
  | float (x : Float) : IsData (float x)
  | text (s : String) : IsData (text s)
  | list {items : List Value} : (∀ v ∈ items, IsData v) → IsData (list items)
  | map {entries : Entries} : (∀ e ∈ entries, ∃ key, e.1 = .text key) → (entries.map Prod.fst).Nodup →
      (∀ e ∈ entries, IsData e.2) → IsData (map entries)

/-- The document that says the same as some data. A number of it is the integer itself, or the one that the text of
the double with a fraction spells; a zero has no sign, and what is not finite has no number. -/
inductive Documented : Value → Json → Prop
  | absent : Documented absent .null
  | bool (b : Bool) : Documented (bool b) (.bool b)
  | int {n : Int} {m : Json.Numeral} : m.fraction = none → m.exponent = none → m.value = n →
      Documented (int n) (.number m)
  | notFinite {x : Float} : (∀ negative mantissa shift, Binary.ofFloat x ≠ .finite negative mantissa shift) →
      Documented (float x) .null
  | finite {x : Float} {negative : Bool} {mantissa shift : Nat} {m : Json.Numeral} :
      Binary.ofFloat x = .finite negative mantissa shift → Spells (floatText x).toList m.value →
      (m.negative → m.value ≠ 0) → Documented (float x) (.number m)
  | text (s : String) : Documented (text s) (.text s.toList)
  | list {items : List Value} {docs : List Json} : List.Forall₂ Documented items docs →
      Documented (list items) (.array docs)
  | map {entries : Entries} {docs : List (List Char × Json)} :
      entries.map Prod.fst = docs.map (fun d => text (String.ofList d.1)) → (docs.map Prod.fst).Nodup →
      List.Forall₂ Documented (entries.map Prod.snd) (docs.map Prod.snd) → Documented (map entries) (.object docs)

structure WrittenAs (v : Value) (text : List Char) (json : Json) : Prop where
  grammar : Json.ValueText text json
  reads : Json.Reads text json
  documented : v.Documented json

section Scalars

theorem writtenAs_int (n : Int) : ∃ json, (int n).WrittenAs (Text.decimalInt n) json := by
  have hvalue : Text.ofDigits (Text.decimalDigits n.natAbs) = n.natAbs := Nat.ofDigitChars_ten_toDigits
  have hplain := decimalDigits_plain n.natAbs
  rw [Decimal.decimalInt_eq .note]
  refine ⟨_, .number (Json.numeralText_layout hplain _ _ _), Json.reads_number hplain _ _, .int rfl rfl ?_⟩
  have habs : ((n.natAbs : ℤ) : ℚ) = ((if n < 0 then -n else n : ℤ) : ℚ) := by
    congr 1
    split <;> omega
  rw [Int.cast_natCast] at habs
  simp only [Json.Numeral.value, Decimal.ofParts, Decimal.value, Option.getD_none, List.append_nil, hvalue, habs]
  by_cases hnegative : n < 0 <;> simp [hnegative]

theorem writtenAs_float (x : Float) : ∃ json, (float x).WrittenAs (compactFloat x) json := by
  unfold compactFloat
  cases hx : Binary.ofFloat x with
  | nan | infinite negative =>
    refine ⟨.null, .null, Json.reads_null, .notFinite fun negative mantissa shift h => ?_⟩
    rw [hx] at h
    cases h
  | finite negative mantissa shift =>
    obtain ⟨m, power, text, hwrite, hm, hshows, -⟩ := Layout.write_shows Decimal.bare_note.numeric hx
    have hvalue : (m.decimal (power.getD 0)).value = (Decimal.shortest mantissa shift).value := hshows.value
    dsimp only
    rw [Decimal.noteText_eq_write, hwrite, hshows.spelling]
    refine ⟨_, .number (Json.numeralText_layout hm _ _ _), Json.reads_number hm _ _, .finite hx ?_ fun hminus => ?_⟩
    · rw [floatText, String.toList_ofList]
      have hspells := Layout.write_spells Decimal.numeric_plain hx
      rwa [← Decimal.signed_shortest .note, ← hvalue] at hspells
    · -- A note leaves out the sign of a zero, so what has a sign is none.
      have hne : mantissa ≠ 0 := by
        rintro rfl
        simp [Layout.note] at hminus
      have hpos := Decimal.value_pos (Decimal.shortest_digits_ne_zero (Decimal.ofFloat_finite hx).1 hne)
      rw [← hvalue] at hpos
      exact mul_ne_zero (by split <;> norm_num) (ne_of_gt hpos)

theorem writtenAs_text (s : String) : (text s).WrittenAs (Json.quoted .unicode s.toList) (.text s.toList) :=
  ⟨.text (Json.stringText_quoted .unicode _), Json.reads_quoted .unicode _, .text s⟩

end Scalars

section Containers

variable {items : List Value} {entries : Entries}

theorem compactItems_written (h : ∀ v ∈ items, ∃ json, v.WrittenAs v.compact json) : ∃ docs : List Json,
    List.Forall₂ Json.ValueText (compactItems items) docs ∧ List.Forall₂ Json.Reads (compactItems items) docs ∧
      List.Forall₂ Documented items docs := by
  induction items with
  | nil => exact ⟨[], .nil, .nil, .nil⟩
  | cons v items ih =>
    obtain ⟨⟨json, hv⟩, hitems⟩ := List.forall_mem_cons.mp h
    obtain ⟨docs, hgrammar, hreads, hdocumented⟩ := ih hitems
    exact ⟨json :: docs, .cons hv.grammar hgrammar, .cons hv.reads hreads, .cons hv.documented hdocumented⟩

theorem writtenAs_list (h : ∀ v ∈ items, ∃ json, v.WrittenAs v.compact json) :
    ∃ json, (list items).WrittenAs (list items).compact json := by
  obtain ⟨docs, hgrammar, hreads, hdocumented⟩ := compactItems_written h
  rw [compact]
  exact ⟨.array docs, Json.valueText_array hgrammar, Json.reads_array Json.gap_nil hreads, .list hdocumented⟩

theorem compactEntries_written (hkeys : ∀ e ∈ entries, ∃ key, e.1 = text key)
    (h : ∀ e ∈ entries, ∃ json, e.2.WrittenAs e.2.compact json) : ∃ es : List Json.WrittenEntry,
    compactEntries entries = es.map (·.spelling .unicode []) ∧
      (∀ e ∈ es, Json.ValueText e.text e.json ∧ Json.Reads e.text e.json) ∧
      entries.map Prod.fst = es.map (fun e => text (String.ofList e.key)) ∧
      List.Forall₂ Documented (entries.map Prod.snd) (es.map (·.json)) := by
  induction entries with
  | nil => exact ⟨[], rfl, by simp, rfl, .nil⟩
  | cons entry entries ih =>
    obtain ⟨⟨key, hkey⟩, hrest⟩ := List.forall_mem_cons.mp hkeys
    obtain ⟨⟨json, hv⟩, hvalues⟩ := List.forall_mem_cons.mp h
    obtain ⟨es, hes, hread, hnames, hdocumented⟩ := ih hrest hvalues
    rcases entry with ⟨k, v⟩
    obtain rfl : k = text key := hkey
    refine ⟨⟨key.toList, v.compact, json⟩ :: es, ?_, List.forall_mem_cons.mpr ⟨⟨hv.grammar, hv.reads⟩, hread⟩, ?_,
      .cons hv.documented hdocumented⟩
    · rw [compactEntries, hes]
      simp [shown, Json.WrittenEntry.spelling]
    · simp [hnames]

theorem writtenAs_map (hkeys : ∀ e ∈ entries, ∃ key, e.1 = text key) (hnodup : (entries.map Prod.fst).Nodup)
    (h : ∀ e ∈ entries, ∃ json, e.2.WrittenAs e.2.compact json) :
    ∃ json, (map entries).WrittenAs (map entries).compact json := by
  obtain ⟨es, hes, hread, hnames, hdocumented⟩ := compactEntries_written hkeys h
  have hdistinct : (es.map (·.key)).Nodup := by
    rw [hnames] at hnodup
    exact .of_map (fun key => text (String.ofList key)) (by rwa [List.map_map])
  rw [compact, hes]
  refine ⟨_, Json.valueText_object .unicode fun e he => (hread e he).1,
    Json.reads_object Json.gap_nil fun e he => (hread e he).2, .map ?_ ?_ ?_⟩
  · rw [hnames, List.map_map]
    rfl
  · rwa [List.map_map]
  · rwa [List.map_map]

end Containers

/-- Whatever data there is, its compact text is a document that says the same. -/
theorem IsData.writtenAs {v : Value} (h : v.IsData) : ∃ json, v.WrittenAs v.compact json := by
  induction h with
  | absent => exact ⟨.null, .null, Json.reads_null, .absent⟩
  | bool b =>
    have hword : (Value.bool b).compact = (if b then "true" else "false").toList := by cases b <;> rfl
    rw [hword]
    exact ⟨.bool b, .bool b, Json.reads_bool b, .bool b⟩
  | int n => exact writtenAs_int n
  | float x => exact writtenAs_float x
  | text s => exact ⟨_, writtenAs_text s⟩
  | list _ ih => exact writtenAs_list ih
  | map hkeys hnodup _ ih => exact writtenAs_map hkeys hnodup ih

/-- The text of a list or a map of data is a text of JSON, and reading it gives the document that says the same. -/
theorem container_text_documents {v : Value} (hv : v.IsData)
    (hcontainer : (∃ items, v = list items) ∨ ∃ entries, v = map entries) :
    ∃ json, Json.DocumentText v.argumentText.toList json ∧ Json.ofText v.argumentText = .ok json ∧ v.Documented json := by
  obtain ⟨json, hwritten⟩ := hv.writtenAs
  have htext : v.argumentText = String.ofList v.compact := by rcases hcontainer with ⟨_, rfl⟩ | ⟨_, rfl⟩ <;> rfl
  rw [htext, String.toList_ofList]
  exact ⟨json, hwritten.grammar.document, hwritten.reads.ofText, hwritten.documented⟩

/-- A line break in a key, and a zero with a sign. -/
theorem escaped_key_and_zero :
    let v : Value := .map [(.text "a\n", .list [.float (Float.ofBits 0x8000000000000000), .int (-12), .absent])]
    v.IsData ∧ v.argumentText = "\x7b\"a\\n\":[0,-12,null]\x7d" ∧
      ∃ json, Json.DocumentText v.argumentText.toList json ∧ Json.ofText v.argumentText = .ok json ∧ v.Documented json := by
  intro v
  have hitems : ∀ w ∈ [.float (Float.ofBits 0x8000000000000000), .int (-12), .absent], IsData w := by
    simp only [List.forall_mem_cons]
    exact ⟨.float _, .int _, .absent, by simp⟩
  have hv : v.IsData := .map (by simp) (by simp) (by simpa using IsData.list hitems)
  exact ⟨hv, by decide +kernel, container_text_documents hv (Or.inr ⟨_, rfl⟩)⟩

end Value

end NoteFormula

import NoteFormula.Formula.Form
import NoteFormula.Proofs.ReadingSteps
import NoteFormula.Proofs.RestoredRecords

/-! # Formulas restored from JSON

The text a formula is written as is read as that formula: parts that are absent come back absent, and a literal
comes back with its kind and its value.
-/
namespace NoteFormula

def Value.IsScalar : Value → Prop
  | absent | bool _ | int _ | float _ | text _ => True
  | _ => False

def Formula.IsPlain : Formula → Prop
  | absent => True
  | literal v => v.IsScalar
  | reference _ path => ∃ s, path = .text s
  | unary _ f | length f => f.IsPlain
  | binary _ f g | contains f g => f.IsPlain ∧ g.IsPlain
  | conditional c t e => c.IsPlain ∧ t.IsPlain ∧ e.IsPlain

namespace Formula

section Reading

variable {record : Value.Entries} {name : String} {v w : Value} {f g c t e : Formula}

theorem required_of_field (h : Value.field? record name = some v) : required record name = .ok v := by
  rw [required, h]

theorem ofRequired_of_field {read : (v : Value) → sizeOf v < sizeOf record → Except RecordFault Formula}
    (h : Value.field? record name = some v) : ofRequired record name read = read v (field?_sizeOf h) := by
  unfold ofRequired
  split
  · rename_i found hfound
    cases h.symm.trans hfound
    rfl
  · rename_i hnone
    rw [h] at hnone
    cases hnone

theorem ofOptional_of_field {read : (v : Value) → sizeOf v < sizeOf record → Except RecordFault Formula}
    (h : Value.field? record name = some v) : ofOptional record name read = read v (field?_sizeOf h) := by
  unfold ofOptional
  split
  · rename_i found hfound
    cases h.symm.trans hfound
    rfl
  · rename_i hnone
    rw [h] at hnone
    cases hnone

theorem named_of_find {α : Type} {find : String → Option α} {fault : Value → RecordFault} {s : String} {a : α}
    (h : find s = some a) : named find fault (.text s) = .ok a := by
  simp only [named, h]

theorem ofRecord_literal (htype : Value.field? record "type" = some (.text "lit"))
    (hvalue : Value.field? record "value" = some v) : ofRecord (.map record) = .ok (literal v) := by
  rw [ofRecord]
  simp only [htype, hvalue, Option.getD_some]

theorem ofRecord_reference {space : Namespace} (htype : Value.field? record "type" = some (.text "ref"))
    (hspace : Value.field? record "namespace" = some (.text space.symbol))
    (hpath : Value.field? record "path" = some v) : ofRecord (.map record) = .ok (reference space v) := by
  have hname : Namespace.ofSymbol? space.symbol = some space := by cases space <;> rfl
  rw [ofRecord]
  simp only [htype, Option.getD_some, required_of_field hspace, required_of_field hpath]
  change (named _ _ (Value.text space.symbol) >>= _) = _
  rw [named_of_find hname]
  rfl

theorem ofRecord_unary {op : UnaryOp} (htype : Value.field? record "type" = some (.text "unary"))
    (hop : Value.field? record "operator" = some (.text op.symbol))
    (hoperand : Value.field? record "operand" = some v) (hf : ofRecord v = .ok f) :
    ofRecord (.map record) = .ok (unary op f) := by
  rw [ofRecord]
  simp only [htype, Option.getD_some, required_of_field hop, ofRequired_of_field hoperand, hf]
  change (named _ _ (Value.text op.symbol) >>= _) = _
  rw [named_of_find (UnaryOp.ofSymbol?_symbol op)]
  rfl

theorem ofRecord_binary {op : BinaryOp} (htype : Value.field? record "type" = some (.text "binary"))
    (hop : Value.field? record "operator" = some (.text op.symbol)) (hleft : Value.field? record "left" = some v)
    (hright : Value.field? record "right" = some w) (hf : ofRecord v = .ok f) (hg : ofRecord w = .ok g) :
    ofRecord (.map record) = .ok (binary op f g) := by
  rw [ofRecord]
  simp only [htype, Option.getD_some, required_of_field hop, ofRequired_of_field hleft, ofRequired_of_field hright,
    hf, hg]
  change (named _ _ (Value.text op.symbol) >>= _) = _
  rw [named_of_find (BinaryOp.ofSymbol?_symbol op)]
  rfl

theorem ofRecord_conditional {u : Value} (htype : Value.field? record "type" = some (.text "if"))
    (hcondition : Value.field? record "condition" = some u) (hthen : Value.field? record "then" = some v)
    (helse : Value.field? record "else" = some w) (hc : ofRecord u = .ok c) (ht : ofRecord v = .ok t)
    (he : ofRecord w = .ok e) : ofRecord (.map record) = .ok (conditional c t e) := by
  rw [ofRecord]
  simp only [htype, Option.getD_some, ofRequired_of_field hcondition, ofRequired_of_field hthen,
    ofOptional_of_field helse, hc, ht, he]
  rfl

theorem ofRecord_contains (htype : Value.field? record "type" = some (.text "contains"))
    (hhaystack : Value.field? record "haystack" = some v) (hneedle : Value.field? record "needle" = some w)
    (hf : ofRecord v = .ok f) (hg : ofRecord w = .ok g) : ofRecord (.map record) = .ok (contains f g) := by
  rw [ofRecord]
  simp only [htype, Option.getD_some, ofRequired_of_field hhaystack, ofRequired_of_field hneedle, hf, hg]
  rfl

theorem ofRecord_length (htype : Value.field? record "type" = some (.text "length"))
    (hoperand : Value.field? record "operand" = some v) (hf : ofRecord v = .ok f) :
    ofRecord (.map record) = .ok (length f) := by
  rw [ofRecord]
  simp only [htype, Option.getD_some, ofRequired_of_field hoperand, hf]
  rfl

end Reading

theorem restoredAs_scalar {v : Value} (h : v.IsScalar) : v.RestoredAs v := by
  cases v with
  | absent => exact Value.restoredAs_absent
  | bool b => exact Value.restoredAs_bool b
  | int n => exact Value.restoredAs_int n
  | float x => exact Value.restoredAs_float x
  | text s => exact Value.restoredAs_text s
  | _ => cases h

theorem toRecord_restored {f : Formula} (h : f.IsPlain) : ∃ w, f.toRecord.RestoredAs w ∧ ofRecord w = .ok f := by
  have htext (s : String) : (Value.text s).RestoredAs (.text s) := Value.restoredAs_text s
  induction f with
  | absent => exact ⟨.absent, Value.restoredAs_absent, by rw [ofRecord]⟩
  | literal v =>
    obtain ⟨record, hrecord, htype, hvalue⟩ := Value.restoredAs_entries
      [⟨"type", .text "lit", .text "lit"⟩, ⟨"value", v, v⟩] ⟨htext _, restoredAs_scalar h⟩ (by simp)
    exact ⟨_, hrecord, ofRecord_literal htype hvalue⟩
  | reference space path =>
    obtain ⟨s, rfl⟩ := h
    obtain ⟨record, hrecord, htype, hspace, hpath⟩ := Value.restoredAs_entries
      [⟨"type", .text "ref", .text "ref"⟩, ⟨"namespace", .text space.symbol, .text space.symbol⟩,
        ⟨"path", .text s, .text s⟩] ⟨htext _, htext _, htext _⟩ (by simp)
    exact ⟨_, hrecord, ofRecord_reference htype hspace hpath⟩
  | unary op f ih =>
    obtain ⟨v, hv, hf⟩ := ih h
    obtain ⟨record, hrecord, htype, hop, hoperand⟩ := Value.restoredAs_entries
      [⟨"type", .text "unary", .text "unary"⟩, ⟨"operator", .text op.symbol, .text op.symbol⟩,
        ⟨"operand", f.toRecord, v⟩] ⟨htext _, htext _, hv⟩ (by simp)
    exact ⟨_, hrecord, ofRecord_unary htype hop hoperand hf⟩
  | binary op f g ihf ihg =>
    obtain ⟨v, hv, hf⟩ := ihf h.1
    obtain ⟨w, hw, hg⟩ := ihg h.2
    obtain ⟨record, hrecord, htype, hop, hleft, hright⟩ := Value.restoredAs_entries
      [⟨"type", .text "binary", .text "binary"⟩, ⟨"operator", .text op.symbol, .text op.symbol⟩,
        ⟨"left", f.toRecord, v⟩, ⟨"right", g.toRecord, w⟩] ⟨htext _, htext _, hv, hw⟩ (by simp)
    exact ⟨_, hrecord, ofRecord_binary htype hop hleft hright hf hg⟩
  | conditional c t e ihc iht ihe =>
    obtain ⟨u, hu, hc⟩ := ihc h.1
    obtain ⟨v, hv, ht⟩ := iht h.2.1
    obtain ⟨w, hw, he⟩ := ihe h.2.2
    obtain ⟨record, hrecord, htype, hcondition, hthen, helse⟩ := Value.restoredAs_entries
      [⟨"type", .text "if", .text "if"⟩, ⟨"condition", c.toRecord, u⟩, ⟨"then", t.toRecord, v⟩,
        ⟨"else", e.toRecord, w⟩] ⟨htext _, hu, hv, hw⟩ (by simp)
    exact ⟨_, hrecord, ofRecord_conditional htype hcondition hthen helse hc ht he⟩
  | contains f g ihf ihg =>
    obtain ⟨v, hv, hf⟩ := ihf h.1
    obtain ⟨w, hw, hg⟩ := ihg h.2
    obtain ⟨record, hrecord, htype, hhaystack, hneedle⟩ := Value.restoredAs_entries
      [⟨"type", .text "contains", .text "contains"⟩, ⟨"haystack", f.toRecord, v⟩, ⟨"needle", g.toRecord, w⟩]
      ⟨htext _, hv, hw⟩ (by simp)
    exact ⟨_, hrecord, ofRecord_contains htype hhaystack hneedle hf hg⟩
  | length f ih =>
    obtain ⟨v, hv, hf⟩ := ih h
    obtain ⟨record, hrecord, htype, hoperand⟩ := Value.restoredAs_entries
      [⟨"type", .text "length", .text "length"⟩, ⟨"operand", f.toRecord, v⟩] ⟨htext _, hv⟩ (by simp)
    exact ⟨_, hrecord, ofRecord_length htype hoperand hf⟩

/-- A formula written as JSON is read as that formula. -/
theorem ofJson_toJson {f : Formula} (h : f.IsPlain) : ∃ text, f.toJson = .ok text ∧ Formula.ofJson text = .ok f := by
  obtain ⟨w, ⟨text, json, hspaced, hreads, hvalue⟩, hf⟩ := toRecord_restored h
  refine ⟨String.ofList text, ?_, ?_⟩
  · rw [toJson, hspaced]
    rfl
  · rw [ofJson, hreads.ofText]
    change (ofRecord json.toValue).mapError LoadFault.record = _
    rw [hvalue, hf]
    rfl

/-- Characters beyond the basic plane, integers beyond doubles, a double without digits and an absent part. -/
theorem absent_needle_restored :
    let f := conditional (contains (literal (.text "😀\n\"")) absent)
      (binary .nullish (literal (.int (-2 ^ 1024))) (literal (.float (Decimal.infinity true))))
      (unary .negate (reference .file (.text "a.b")))
    f.IsPlain ∧ ∃ text, f.toJson = .ok text ∧ Formula.ofJson text = .ok f := by
  intro f
  have hplain : f.IsPlain := ⟨⟨trivial, trivial⟩, ⟨trivial, trivial⟩, "a.b", rfl⟩
  exact ⟨hplain, ofJson_toJson hplain⟩

end Formula

end NoteFormula

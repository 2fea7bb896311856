import NoteFormula.Proofs.RestoredFormulas

/-! # Accepted records

A value is the record of a formula if it is absent, or a map of one of seven types that has the entries of its type, with
records of formulas where parts belong. Writing undoes reading but for the entries that no type asks for, which are
dropped, and the two that may be left out, which are filled in. Reading undoes writing without any exception.
-/
namespace NoteFormula

theorem Namespace.mem_all (space : Namespace) : space ∈ all := by
  cases space <;> decide

theorem UnaryOp.mem_all (op : UnaryOp) : op ∈ all := by
  cases op <;> decide

theorem BinaryOp.mem_all (op : BinaryOp) : op ∈ all := by
  cases op <;> decide

namespace Formula

inductive SlotKind where
  | symbol (symbols : List String)
  | value
  | part
deriving DecidableEq

structure Slot where
  name : String
  kind : SlotKind
  optional : Bool

def slots? : String → Option (List Slot)
  | "lit" => some [⟨"value", .value, true⟩]
  | "ref" => some [⟨"namespace", .symbol (Namespace.all.map (·.symbol)), false⟩, ⟨"path", .value, false⟩]
  | "unary" => some [⟨"operator", .symbol (UnaryOp.all.map (·.symbol)), false⟩, ⟨"operand", .part, false⟩]
  | "binary" => some [⟨"operator", .symbol (BinaryOp.all.map (·.symbol)), false⟩, ⟨"left", .part, false⟩,
      ⟨"right", .part, false⟩]
  | "if" => some [⟨"condition", .part, false⟩, ⟨"then", .part, false⟩, ⟨"else", .part, true⟩]
  | "contains" => some [⟨"haystack", .part, false⟩, ⟨"needle", .part, false⟩]
  | "length" => some [⟨"operand", .part, false⟩]
  | _ => none

inductive Accepted : Value → Prop
  | absent : Accepted .absent
  | record {record : Value.Entries} {type : String} {slots : List Slot}
      (htype : Value.field? record "type" = some (.text type)) (hslots : slots? type = some slots)
      (present : ∀ slot ∈ slots, slot.optional = false → ∃ v, Value.field? record slot.name = some v)
      (valid : ∀ slot ∈ slots, ∀ symbols, slot.kind = .symbol symbols →
        ∃ s ∈ symbols, Value.field? record slot.name = some (.text s))
      (parts : ∀ slot ∈ slots, slot.kind = .part → ∀ v, Value.field? record slot.name = some v → Accepted v) :
      Accepted (.map record)

/-- The record with the entries of its type alone, at every part. An entry that is left out is filled in as absent. -/
def trimmed : Value → Value
  | .map record =>
    match Value.field? record "type" with
    | some (.text type) => entries (("type", .text type) :: ((slots? type).getD []).map fun slot =>
        (slot.name, match h : Value.field? record slot.name with
          | some v => if slot.kind = .part then trimmed v else v
          | none => .absent))
    | _ => .map record
  | v => v
termination_by v => sizeOf v
decreasing_by
  have := field?_sizeOf h
  simp
  omega

def entry (record : Value.Entries) (name : String) : Value := (Value.field? record name).getD .absent

theorem trimmed_record {record : Value.Entries} {type : String} {slots : List Slot}
    (htype : Value.field? record "type" = some (.text type)) (hslots : slots? type = some slots) :
    trimmed (.map record) = entries (("type", .text type) :: slots.map fun slot =>
      (slot.name, if slot.kind = .part then trimmed (entry record slot.name) else entry record slot.name)) := by
  rw [trimmed]
  simp only [htype, hslots, Option.getD_some]
  congr 2
  apply List.map_congr_left
  intro slot _
  congr 1
  unfold entry
  split
  · simp [*]
  · simp [*, trimmed]

/-- A value and the formula that it is the record of: whatever the reader asks for, and nothing else. -/
inductive IsRecord : Value → Formula → Prop
  | absent : IsRecord .absent absent
  | literal {record : Value.Entries} : Value.field? record "type" = some (.text "lit") →
      IsRecord (.map record) (literal (entry record "value"))
  | reference {record : Value.Entries} {space : Namespace} {path : Value} :
      Value.field? record "type" = some (.text "ref") →
      Value.field? record "namespace" = some (.text space.symbol) →
      Value.field? record "path" = some path → IsRecord (.map record) (reference space path)
  | unary {record : Value.Entries} {op : UnaryOp} {v : Value} {f : Formula} :
      Value.field? record "type" = some (.text "unary") →
      Value.field? record "operator" = some (.text op.symbol) →
      Value.field? record "operand" = some v → IsRecord v f → IsRecord (.map record) (unary op f)
  | binary {record : Value.Entries} {op : BinaryOp} {v w : Value} {f g : Formula} :
      Value.field? record "type" = some (.text "binary") →
      Value.field? record "operator" = some (.text op.symbol) →
      Value.field? record "left" = some v → Value.field? record "right" = some w →
      IsRecord v f → IsRecord w g → IsRecord (.map record) (binary op f g)
  | conditional {record : Value.Entries} {u v : Value} {c t e : Formula} :
      Value.field? record "type" = some (.text "if") →
      Value.field? record "condition" = some u → Value.field? record "then" = some v →
      IsRecord u c → IsRecord v t → IsRecord (entry record "else") e → IsRecord (.map record) (conditional c t e)
  | contains {record : Value.Entries} {v w : Value} {f g : Formula} :
      Value.field? record "type" = some (.text "contains") →
      Value.field? record "haystack" = some v → Value.field? record "needle" = some w →
      IsRecord v f → IsRecord w g → IsRecord (.map record) (contains f g)
  | length {record : Value.Entries} {v : Value} {f : Formula} :
      Value.field? record "type" = some (.text "length") →
      Value.field? record "operand" = some v → IsRecord v f → IsRecord (.map record) (length f)

section Reading

variable {α β ε : Type} {record : Value.Entries} {name : String} {v : Value} {f : Formula}

theorem bind_eq_ok {x : Except ε α} {next : α → Except ε β} {b : β} (h : x >>= next = .ok b) :
    ∃ a, x = .ok a ∧ next a = .ok b := by
  cases x with
  | error fault => cases h
  | ok a => exact ⟨a, rfl, h⟩

theorem of_required (h : required record name = .ok v) : Value.field? record name = some v := by
  unfold required at h
  split at h <;> simp_all

theorem of_named (all : List α) {symbol : α → String} {fault : Value → RecordFault} {a : α}
    (h : named (fun s => all.find? fun b => symbol b == s) fault v = .ok a) : v = .text (symbol a) := by
  unfold named at h
  split at h
  · split at h
    · rename_i hfind
      cases h
      have hsymbol := List.find?_some hfind
      simp_all
    · cases h
  · cases h

theorem of_ofRequired (h : ofRequired record name (fun v _ => ofRecord v) = .ok f) :
    ∃ v, Value.field? record name = some v ∧ ofRecord v = .ok f := by
  unfold ofRequired at h
  split at h
  · exact ⟨_, ‹_›, h⟩
  · cases h

theorem ofOptional_eq (record : Value.Entries) (name : String) :
    ofOptional record name (fun v _ => ofRecord v) = ofRecord (entry record name) := by
  unfold ofOptional entry
  split
  · simp [*]
  · simp [*, ofRecord]

theorem field?_of_getD {s : String} (h : (Value.field? record name).getD .absent = .text s) :
    Value.field? record name = some (.text s) := by
  cases hfield : Value.field? record name <;> simp_all

end Reading

theorem isRecord_of_ofRecord {v : Value} {f : Formula} (h : ofRecord v = .ok f) : IsRecord v f := by
  induction hsize : sizeOf v using Nat.strongRecOn generalizing v f with
  | _ size ih =>
  subst hsize
  cases v with
  | absent =>
    rw [ofRecord] at h
    cases h
    exact .absent
  | map record =>
    have hpart {name : String} {part : Value} {g : Formula} (hname : Value.field? record name = some part)
        (hg : ofRecord part = .ok g) : IsRecord part g := by
      have := field?_sizeOf hname
      exact ih _ (by simp; omega) hg rfl
    rw [ofRecord] at h
    split at h <;> rename_i htype
    · cases h
      exact .literal (field?_of_getD htype)
    · obtain ⟨symbol, hsymbol, h⟩ := bind_eq_ok h
      obtain ⟨space, hspace, h⟩ := bind_eq_ok h
      obtain ⟨path, hpath, h⟩ := bind_eq_ok h
      cases h
      obtain rfl := of_named Namespace.all hspace
      exact .reference (field?_of_getD htype) (of_required hsymbol) (of_required hpath)
    · obtain ⟨symbol, hsymbol, h⟩ := bind_eq_ok h
      obtain ⟨op, hop, h⟩ := bind_eq_ok h
      obtain ⟨g, hoperand, h⟩ := bind_eq_ok h
      cases h
      obtain rfl := of_named UnaryOp.all hop
      obtain ⟨operand, hname, hg⟩ := of_ofRequired hoperand
      exact .unary (field?_of_getD htype) (of_required hsymbol) hname (hpart hname hg)
    · obtain ⟨symbol, hsymbol, h⟩ := bind_eq_ok h
      obtain ⟨op, hop, h⟩ := bind_eq_ok h
      obtain ⟨left, hleft, h⟩ := bind_eq_ok h
      obtain ⟨right, hright, h⟩ := bind_eq_ok h
      cases h
      obtain rfl := of_named BinaryOp.all hop
      obtain ⟨v, hv, hf⟩ := of_ofRequired hleft
      obtain ⟨w, hw, hg⟩ := of_ofRequired hright
      exact .binary (field?_of_getD htype) (of_required hsymbol) hv hw (hpart hv hf) (hpart hw hg)
    · obtain ⟨c, hcondition, h⟩ := bind_eq_ok h
      obtain ⟨t, hthen, h⟩ := bind_eq_ok h
      obtain ⟨e, helse, h⟩ := bind_eq_ok h
      cases h
      obtain ⟨u, hu, hc⟩ := of_ofRequired hcondition
      obtain ⟨v, hv, ht⟩ := of_ofRequired hthen
      rw [ofOptional_eq] at helse
      refine .conditional (field?_of_getD htype) hu hv (hpart hu hc) (hpart hv ht) ?_
      cases hfield : Value.field? record "else" with
      | none =>
        simp only [entry, hfield, Option.getD_none, ofRecord, Except.ok.injEq] at helse ⊢
        exact helse ▸ .absent
      | some w =>
        simp only [entry, hfield, Option.getD_some] at helse ⊢
        exact hpart hfield helse
    · obtain ⟨f, hhaystack, h⟩ := bind_eq_ok h
      obtain ⟨g, hneedle, h⟩ := bind_eq_ok h
      cases h
      obtain ⟨v, hv, hf⟩ := of_ofRequired hhaystack
      obtain ⟨w, hw, hg⟩ := of_ofRequired hneedle
      exact .contains (field?_of_getD htype) hv hw (hpart hv hf) (hpart hw hg)
    · obtain ⟨g, hoperand, h⟩ := bind_eq_ok h
      cases h
      obtain ⟨operand, hname, hg⟩ := of_ofRequired hoperand
      exact .length (field?_of_getD htype) hname (hpart hname hg)
    · cases h
  | _ =>
    rw [ofRecord] at h <;> simp_all

theorem toRecord_isRecord (f : Formula) : IsRecord f.toRecord f := by
  induction f with
  | absent => rw [toRecord]; exact .absent
  | literal v => rw [toRecord]; exact .literal rfl
  | reference space path => rw [toRecord]; exact .reference rfl rfl rfl
  | unary op f ih => rw [toRecord]; exact .unary rfl rfl rfl ih
  | binary op f g ihf ihg => rw [toRecord]; exact .binary rfl rfl rfl rfl ihf ihg
  | conditional c t e ihc iht ihe => rw [toRecord]; exact .conditional rfl rfl rfl ihc iht ihe
  | contains f g ihf ihg => rw [toRecord]; exact .contains rfl rfl rfl ihf ihg
  | length f ih => rw [toRecord]; exact .length rfl rfl ih

namespace IsRecord

variable {v : Value} {f : Formula}

theorem ofRecord (h : IsRecord v f) : Formula.ofRecord v = .ok f := by
  induction h with
  | absent => rw [Formula.ofRecord]
  | literal htype =>
    rw [Formula.ofRecord]
    simp only [htype, Option.getD_some]
    rfl
  | reference htype hspace hpath => exact ofRecord_reference htype hspace hpath
  | unary htype hop hoperand _ ih => exact ofRecord_unary htype hop hoperand ih
  | binary htype hop hleft hright _ _ ihf ihg => exact ofRecord_binary htype hop hleft hright ihf ihg
  | conditional htype hcondition hthen _ _ _ ihc iht ihe =>
    rw [Formula.ofRecord]
    simp only [htype, Option.getD_some, ofRequired_of_field hcondition, ofRequired_of_field hthen, ofOptional_eq, ihc,
      iht, ihe]
    rfl
  | contains htype hhaystack hneedle _ _ ihf ihg => exact ofRecord_contains htype hhaystack hneedle ihf ihg
  | length htype hoperand _ ih => exact ofRecord_length htype hoperand ih

/-- The record of a formula has the type of the formula, with every entry that the type asks for. -/
theorem accepted (h : IsRecord v f) : Accepted v := by
  induction h with
  | absent => exact .absent
  | literal htype => exact .record htype rfl (by simp) (by simp) (by simp)
  | reference htype hspace hpath =>
    refine .record htype rfl (by simp [hspace, hpath]) (List.forall_mem_cons.mpr ⟨?_, by simp⟩) (by simp)
    rintro _ ⟨⟩
    exact ⟨_, List.mem_map_of_mem (Namespace.mem_all _), hspace⟩
  | unary htype hop hoperand _ ih =>
    refine .record htype rfl (by simp [hop, hoperand]) (List.forall_mem_cons.mpr ⟨?_, by simp⟩) (by simp [hoperand, ih])
    rintro _ ⟨⟩
    exact ⟨_, List.mem_map_of_mem (UnaryOp.mem_all _), hop⟩
  | binary htype hop hleft hright _ _ ihf ihg =>
    refine .record htype rfl (by simp [hop, hleft, hright]) (List.forall_mem_cons.mpr ⟨?_, by simp⟩)
      (by simp [hleft, hright, ihf, ihg])
    rintro _ ⟨⟩
    exact ⟨_, List.mem_map_of_mem (BinaryOp.mem_all _), hop⟩
  | @conditional record _ _ _ _ _ htype hcondition hthen _ _ _ ihc iht ihe =>
    have helse (w : Value) (hw : Value.field? record "else" = some w) : Accepted w := by simpa [entry, hw] using ihe
    exact .record htype rfl (by simp [hcondition, hthen]) (by simp) (by simpa [hcondition, hthen, ihc, iht] using helse)
  | contains htype hhaystack hneedle _ _ ihf ihg =>
    exact .record htype rfl (by simp [hhaystack, hneedle]) (by simp) (by simp [hhaystack, hneedle, ihf, ihg])
  | length htype hoperand _ ih =>
    exact .record htype rfl (by simp [hoperand]) (by simp) (by simp [hoperand, ih])

/-- A record is written again as itself, with the entries of its type alone. -/
theorem toRecord_eq (h : IsRecord v f) : f.toRecord = trimmed v := by
  induction h with
  | absent => simp [toRecord, trimmed]
  | literal htype => rw [trimmed_record htype rfl]; rfl
  | reference htype hspace hpath => rw [trimmed_record htype rfl]; simp [toRecord, entry, hspace, hpath]
  | unary htype hop hoperand _ ih => rw [trimmed_record htype rfl]; simp [toRecord, entry, hop, hoperand, ih]
  | binary htype hop hleft hright _ _ ihf ihg =>
    rw [trimmed_record htype rfl]
    simp [toRecord, entry, hop, hleft, hright, ihf, ihg]
  | conditional htype hcondition hthen _ _ _ ihc iht ihe =>
    rw [trimmed_record htype rfl]
    simp [toRecord, entry, hcondition, hthen, ihc, iht, ihe]
  | contains htype hhaystack hneedle _ _ ihf ihg =>
    rw [trimmed_record htype rfl]
    simp [toRecord, entry, hhaystack, hneedle, ihf, ihg]
  | length htype hoperand _ ih => rw [trimmed_record htype rfl]; simp [toRecord, entry, hoperand, ih]

end IsRecord

theorem Accepted.isRecord {v : Value} (h : Accepted v) : ∃ f, IsRecord v f := by
  induction h with
  | absent => exact ⟨Formula.absent, .absent⟩
  | @record record type slots htype hslots present valid _ ih =>
    -- The schema has one line for each type, and so has the relation: the cases go line by line.
    have hpart (name : String) (hslot : ⟨name, .part, false⟩ ∈ slots) :
        ∃ v f, Value.field? record name = some v ∧ IsRecord v f := by
      obtain ⟨v, hv⟩ := present _ hslot rfl
      obtain ⟨f, hf⟩ := ih _ hslot rfl v hv
      exact ⟨v, f, hv, hf⟩
    unfold slots? at hslots
    split at hslots <;> cases hslots
    · exact ⟨_, .literal htype⟩
    · obtain ⟨s, hs, hspace⟩ := valid _ List.mem_cons_self _ rfl
      obtain ⟨space, -, rfl⟩ := List.mem_map.mp hs
      obtain ⟨path, hpath⟩ := present ⟨"path", .value, false⟩ (by simp) rfl
      exact ⟨_, .reference htype hspace hpath⟩
    · obtain ⟨s, hs, hop⟩ := valid _ List.mem_cons_self _ rfl
      obtain ⟨op, -, rfl⟩ := List.mem_map.mp hs
      obtain ⟨v, f, hoperand, hf⟩ := hpart "operand" (by simp)
      exact ⟨_, .unary htype hop hoperand hf⟩
    · obtain ⟨s, hs, hop⟩ := valid _ List.mem_cons_self _ rfl
      obtain ⟨op, -, rfl⟩ := List.mem_map.mp hs
      obtain ⟨v, f, hleft, hf⟩ := hpart "left" (by simp)
      obtain ⟨w, g, hright, hg⟩ := hpart "right" (by simp)
      exact ⟨_, .binary htype hop hleft hright hf hg⟩
    · obtain ⟨u, c, hcondition, hc⟩ := hpart "condition" (by simp)
      obtain ⟨v, t, hthen, ht⟩ := hpart "then" (by simp)
      obtain ⟨e, he⟩ : ∃ e, IsRecord (entry record "else") e := by
        cases helse : Value.field? record "else" with
        | none => exact ⟨Formula.absent, by simpa [entry, helse] using IsRecord.absent⟩
        | some w =>
          obtain ⟨e, he⟩ := ih ⟨"else", .part, true⟩ (by simp) rfl w helse
          exact ⟨e, by simpa [entry, helse] using he⟩
      exact ⟨_, .conditional htype hcondition hthen hc ht he⟩
    · obtain ⟨v, f, hhaystack, hf⟩ := hpart "haystack" (by simp)
      obtain ⟨w, g, hneedle, hg⟩ := hpart "needle" (by simp)
      exact ⟨_, .contains htype hhaystack hneedle hf hg⟩
    · obtain ⟨v, f, hoperand, hf⟩ := hpart "operand" (by simp)
      exact ⟨_, .length htype hoperand hf⟩

theorem ofRecord_eq_ok_iff {v : Value} {f : Formula} : ofRecord v = .ok f ↔ IsRecord v f :=
  ⟨isRecord_of_ofRecord, IsRecord.ofRecord⟩

/-- Reading undoes writing; what the schema accepts is read, and nothing else; and what was read is written again with the
entries of its types alone. -/
theorem records_accepted_exactly : (∀ f : Formula, ofRecord f.toRecord = .ok f) ∧
    ∀ v : Value, ((∃ f, ofRecord v = .ok f) ↔ Accepted v) ∧ ∀ f, ofRecord v = .ok f → f.toRecord = trimmed v := by
  simp only [ofRecord_eq_ok_iff]
  refine ⟨toRecord_isRecord, fun v => ⟨⟨?_, Accepted.isRecord⟩, fun f h => h.toRecord_eq⟩⟩
  rintro ⟨f, h⟩
  exact h.accepted

/-- The entries of a record may stand in any order among others, and two of them may be missing. -/
theorem unknown_entries_dropped :
    let v : Value := .map [(.text "note", .int 1), (.text "then", .absent), (.text "type", .text "if"), (.int 0, .absent),
      (.text "condition", .map [(.text "left", .text "?"), (.text "type", .text "lit")])]
    let f := conditional (literal .absent) absent absent
    ofRecord v = .ok f ∧ Accepted v ∧ f.toRecord = trimmed v ∧
      trimmed v = entries [("type", .text "if"), ("condition", entries [("type", .text "lit"), ("value", .absent)]),
        ("then", .absent), ("else", .absent)] := by
  intro v f
  have hrecord : IsRecord v f := .conditional rfl rfl rfl (.literal rfl) .absent (by exact .absent)
  have hread : ofRecord v = .ok f := hrecord.ofRecord
  obtain ⟨haccepted, hwritten⟩ := records_accepted_exactly.2 v
  exact ⟨hread, haccepted.mp ⟨f, hread⟩, hwritten f hread, (hwritten f hread).symm⟩

end Formula

end NoteFormula

import Mathlib.Data.List.Perm.Basic
import NoteFormula.Formula.Record
import NoteFormula.Json.Spaced
import NoteFormula.Proofs.JsonDocuments
import NoteFormula.Proofs.SortedKeys

/-! # Values restored from JSON

A value is restored if the text it is written as is read as that value. A record comes back with its entries in
the order of their names; since no name comes twice, each of them is found as before.
-/
namespace NoteFormula

namespace Json

variable {json : Json} {text : List Char}

/-- A text that is read as a document is that document, from end to end. -/
theorem Reads.ofText (h : Reads text json) : Json.ofText (String.ofList text) = .ok json := by
  obtain ⟨c, cs, htext, hspace, -⟩ := h.opens
  have hread : document? (text.length + 1) (text ++ []) = some (json, []) := by
    refine h.reads ?_ (Nat.lt_succ_self _)
    rintro c ⟨⟩
  rw [List.append_nil] at hread
  have hskip : skipSpace text = text := by
    rw [htext]
    exact skipSpace_cons hspace
  unfold Json.ofText
  rw [String.toList_ofList, hskip, String.length_ofList, hread]
  rfl

end Json

namespace Value

def RestoredAs (v w : Value) : Prop :=
  ∃ text json, v.spaced = .ok text ∧ Json.Reads text json ∧ json.toValue = w

section Scalars

theorem restoredAs_absent : absent.RestoredAs absent :=
  ⟨_, _, by rw [spaced], Json.reads_null, by rw [Json.toValue]⟩

theorem restoredAs_bool (b : Bool) : (bool b).RestoredAs (bool b) :=
  ⟨_, _, by rw [spaced], Json.reads_bool b, by rw [Json.toValue]⟩

theorem restoredAs_text (s : String) : (text s).RestoredAs (text s) :=
  ⟨_, _, by rw [spaced], Json.reads_quoted .ascii s.toList, by rw [Json.toValue, String.ofList_toList]⟩

theorem decimalDigits_plain (n : Nat) : (⟨Text.decimalDigits n, none⟩ : Decimal.Mantissa).Plain where
  nonempty := Nat.toDigits_ne_nil
  whole := Decimal.decimalDigits_isDigit
  fraction := by simp
  point := by simp
  leading := by
    by_cases hzero : n = 0
    · exact Or.inl (by rw [hzero]; rfl)
    · exact Or.inr (Decimal.decimalDigits_leading hzero)

theorem restoredAs_int (n : Int) : (int n).RestoredAs (int n) := by
  have hvalue : Text.ofDigits (Text.decimalDigits n.natAbs) = n.natAbs := Nat.ofDigitChars_ten_toDigits
  have hreads := Json.reads_number (L := .plain) (decimalDigits_plain n.natAbs) (decide (n < 0)) none
  rw [← Decimal.decimalInt_eq] at hreads
  refine ⟨_, _, by rw [spaced], hreads, ?_⟩
  rw [Json.toValue, Json.Numeral.toValue]
  simp only [hvalue, decide_eq_true_eq]
  congr 1
  split <;> omega

theorem restoredAs_float (x : Float) : (float x).RestoredAs (float x) := by
  have hspaced : (float x).spaced = .ok (recordLayout.write x) := by rw [spaced]
  cases hx : Decimal.Binary.ofFloat x with
  | nan =>
    rw [Decimal.Layout.write, hx] at hspaced
    refine ⟨_, _, hspaced, Json.reads_nan, ?_⟩
    rw [Json.toValue, Decimal.ofFloat_nan hx]
  | infinite negative =>
    rw [Decimal.Layout.write, hx] at hspaced
    refine ⟨_, _, hspaced, Json.reads_infinity negative, ?_⟩
    rw [Json.toValue, Decimal.ofFloat_infinite hx]
  | finite negative mantissa shift =>
    obtain ⟨m, power, text, hwrite, hm, hshows, hback⟩ :=
      Decimal.Layout.write_shows (L := recordLayout) ⟨Or.inr rfl, Or.inl rfl⟩ hx
    have hsign : (negative && (recordLayout.signedZero || mantissa != 0)) = negative := Bool.and_true negative
    rw [hwrite, hsign, hshows.spelling] at hspaced
    refine ⟨_, _, hspaced, Json.reads_number hm negative power, ?_⟩
    rw [Json.toValue, Json.Numeral.toValue]
    split
    · rename_i hfraction hpower
      exact absurd hpower (hshows.marked (by decide) hfraction)
    · exact congrArg float hback

end Scalars

structure RestoredField where
  name : String
  before : Value
  after : Value

section Records

variable {fields : List RestoredField} {es : List Json.WrittenEntry}

theorem setEntry_new {before : Entries} {key : String} (value : Value) (h : ∀ e ∈ before, hasKey key e = false) :
    setEntry before key value = before ++ [(text key, value)] := by
  induction before with
  | nil => rfl
  | cons e before ih =>
    have hkey : ¬ hasKey key e := by rw [h e List.mem_cons_self]; decide
    rw [setEntry, if_neg hkey, ih fun f hf => h f (List.mem_cons_of_mem e hf), List.cons_append]

theorem hasKey_text (key name : String) (v : Value) : hasKey key (text name, v) = (name == key) := rfl

theorem entryValues_distinct {entries : List (List Char × Json)} {before : Entries}
    (hbefore : ∀ e ∈ entries, ∀ f ∈ before, hasKey (String.ofList e.1) f = false)
    (hdistinct : (entries.map fun e => String.ofList e.1).Nodup) : Json.entryValues before entries =
      before ++ entries.map fun e => (text (String.ofList e.1), Json.toValue e.2) := by
  induction entries generalizing before with
  | nil => rw [Json.entryValues, List.map_nil, List.append_nil]
  | cons e entries ih =>
    obtain ⟨hnew, hrest⟩ := List.nodup_cons.mp hdistinct
    have hlater : ∀ f ∈ entries, ∀ g ∈ before ++ [(text (String.ofList e.1), Json.toValue e.2)],
        hasKey (String.ofList f.1) g = false := by
      intro f hf g hg
      rcases List.mem_append.mp hg with hg | hg
      · exact hbefore f (List.mem_cons_of_mem e hf) g hg
      · rw [List.mem_singleton.mp hg, hasKey_text]
        exact beq_false_of_ne fun heq => hnew (List.mem_map.mpr ⟨f, hf, heq.symm⟩)
    rw [Json.entryValues, setEntry_new _ (hbefore e List.mem_cons_self), ih hlater hrest, List.append_assoc]
    rfl

theorem field?_distinct {pairs : List (String × Value)} (h : (pairs.map Prod.fst).Nodup) {p : String × Value}
    (hp : p ∈ pairs) : field? (pairs.map fun p => (text p.1, p.2)) p.1 = some p.2 := by
  induction pairs with
  | nil => cases hp
  | cons q pairs ih =>
    obtain ⟨hnew, hrest⟩ := List.nodup_cons.mp h
    unfold field? at ih ⊢
    rw [List.map_cons, List.find?_cons, hasKey_text]
    rcases List.mem_cons.mp hp with rfl | hp
    · rw [beq_self_eq_true]
      rfl
    · have hne : (q.1 == p.1) = false := by
        exact beq_false_of_ne fun heq => hnew (List.mem_map.mpr ⟨p, hp, heq.symm⟩)
      rw [hne]
      exact ih hrest hp

def keyed (e : Json.WrittenEntry) : Keyed (Except JsonFault (List Char)) :=
  (text (String.ofList e.key), .ok (e.spelling .ascii [' ']))

def readEntry (e : Json.WrittenEntry) : String × Value := (String.ofList e.key, e.json.toValue)

theorem spacedEntries_fields (h : ∀ f ∈ fields, f.before.RestoredAs f.after) : ∃ es : List Json.WrittenEntry,
    spacedEntries (fields.map fun f => (text f.name, f.before)) = es.map keyed ∧
      (∀ e ∈ es, Json.Reads e.text e.json) ∧ es.map readEntry = fields.map fun f => (f.name, f.after) := by
  induction fields with
  | nil => exact ⟨[], by rw [List.map_nil, spacedEntries]; rfl, by simp, rfl⟩
  | cons f fields ih =>
    obtain ⟨hf, hfields⟩ := List.forall_mem_cons.mp h
    obtain ⟨valueText, json, hspaced, hreads, hvalue⟩ := hf
    obtain ⟨es, hes, hread, hback⟩ := ih hfields
    refine ⟨⟨f.name.toList, valueText, json⟩ :: es, ?_, List.forall_mem_cons.mpr ⟨hreads, hread⟩, ?_⟩
    · rw [List.map_cons, spacedEntries, hes, hspaced]
      simp [keyed, jsonKey, Json.WrittenEntry.spelling]
      rfl
    · rw [List.map_cons, hback, List.map_cons, readEntry, String.ofList_toList, hvalue]

/-- Written entries are put in some order, and none is lost. -/
theorem inKeyOrder_keyed (es : List Json.WrittenEntry) : ∃ sorted : List Json.WrittenEntry, sorted.Perm es ∧
    inKeyOrder (es.map keyed) = .ok (sorted.map (·.spelling .ascii [' '])) := by
  have htexts : ∀ e ∈ es.map keyed, ∃ s, e.1 = text s := by
    intro e he
    obtain ⟨entry, -, rfl⟩ := List.mem_map.mp he
    exact ⟨_, rfl⟩
  obtain ⟨out, hout, hperm⟩ := sortKeyed_ok (allCompare_texts htexts)
  obtain ⟨sorted, rfl, hsorted⟩ : ∃ sorted, out = List.map keyed sorted ∧ sorted.Perm es := by
    rw [← congrFun (congrFun (List.eq_map_comp_perm keyed) out) es] at hperm
    exact hperm
  refine ⟨sorted, hsorted, ?_⟩
  unfold inKeyOrder
  rw [hout]
  change (sorted.map keyed).mapM (·.2) = _
  rw [List.mapM_map]
  exact List.mapM_pure

/-- A record of restored parts is restored, with the same parts under the same names. -/
theorem restoredAs_entries (fields : List RestoredField) (h : fields.Forall fun f => f.before.RestoredAs f.after)
    (hnodup : (fields.map (·.name)).Nodup) :
    ∃ record, (Formula.entries (fields.map fun f => (f.name, f.before))).RestoredAs (.map record) ∧
      fields.Forall fun f => field? record f.name = some f.after := by
  obtain ⟨es, hes, hread, hback⟩ := spacedEntries_fields (List.forall_iff_forall_mem.mp h)
  obtain ⟨sorted, hperm, hsorted⟩ := inKeyOrder_keyed es
  have hpairs : (sorted.map readEntry).Perm (fields.map fun f => (f.name, f.after)) := by
    rw [← hback]
    exact hperm.map readEntry
  have hnames : ((sorted.map readEntry).map Prod.fst).Nodup := by
    refine (hpairs.map Prod.fst).nodup_iff.mpr ?_
    rw [List.map_map]
    exact hnodup
  have hgap : ∀ c ∈ [' '], Json.isSpace c := List.forall_mem_singleton.mpr rfl
  have hreads : Json.Reads ('\x7b' :: Json.joinedEntries .ascii [' '] sorted ++ ['\x7d'])
      (.object (sorted.map fun e => (e.key, e.json))) :=
    Json.reads_object hgap fun e he => hread e (hperm.subset he)
  have hspaced : (Formula.entries (fields.map fun f => (f.name, f.before))).spaced =
      .ok ('\x7b' :: Json.joinedEntries .ascii [' '] sorted ++ ['\x7d']) := by
    rw [Formula.entries, spaced, List.map_map]
    change (inKeyOrder (spacedEntries (fields.map fun f => (text f.name, f.before))) >>= _) = _
    rw [hes, hsorted]
    rfl
  have hvalue : (Json.object (sorted.map fun e => (e.key, e.json))).toValue =
      .map ((sorted.map readEntry).map fun p => (text p.1, p.2)) := by
    rw [List.map_map] at hnames
    rw [Json.toValue, entryValues_distinct (by simp) (by rw [List.map_map]; exact hnames), List.nil_append, List.map_map,
      List.map_map]
    rfl
  refine ⟨_, ⟨_, _, hspaced, hreads, hvalue⟩, List.forall_iff_forall_mem.mpr fun f hf => ?_⟩
  exact field?_distinct hnames (hpairs.symm.subset (List.mem_map_of_mem hf))

end Records

end Value

end NoteFormula

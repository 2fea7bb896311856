import NoteFormula.Proofs.KeptAnswers
import NoteFormula.Proofs.NumberTexts
import NoteFormula.Proofs.ReadFormulas

/-! # Dotted paths

A path leads where its segments walk: from a map to what it holds under a key, from a list to the item at an index, and at
the end to the length of a list or a text. So the segments of a walk find its end and nothing else does, and a reference
with such a path is a formula for it.
-/
namespace NoteFormula

namespace Text

structure Separated (separator : Char) (parts : List (List Char)) (cs : List Char) : Prop where
  nonempty : parts ≠ []
  apart : ∀ part ∈ parts, separator ∉ part
  joined : [separator].intercalate parts = cs

variable {separator : Char} {parts : List (List Char)} {cs : List Char}

theorem splitAt_eq (separator : Char) (cs : List Char) : splitAt separator cs = cs.splitOn separator := by
  induction cs with
  | nil => rfl
  | cons c cs ih =>
    rw [splitAt, ih]
    unfold List.splitOn
    obtain ⟨part, rest, hcons⟩ := List.exists_cons_of_ne_nil (List.splitOnP_ne_nil (· == separator) cs)
    rw [List.splitOnP_cons_eq_if_modifyHead, hcons]
    by_cases hc : c = separator <;> simp [hc]

theorem separator_notMem_splitAt (separator : Char) (cs : List Char) : ∀ part ∈ splitAt separator cs, separator ∉ part := by
  induction cs with
  | nil => simp [splitAt]
  | cons c cs ih =>
    unfold splitAt
    split
    · simpa using ih
    · rename_i hc
      cases hcons : splitAt separator cs with
      | nil => simpa using Ne.symm hc
      | cons part rest =>
        rw [hcons] at ih
        simpa [Ne.symm hc] using ih

theorem separated_iff : Separated separator parts cs ↔ splitAt separator cs = parts := by
  rw [splitAt_eq]
  constructor
  · rintro ⟨hnonempty, hapart, rfl⟩
    exact List.splitOn_intercalate separator hapart hnonempty
  · rintro rfl
    refine ⟨List.splitOnP_ne_nil _ cs, ?_, List.intercalate_splitOn separator⟩
    rw [← splitAt_eq]
    exact separator_notMem_splitAt separator cs

theorem mem_intercalate {c : Char} (h : c ∈ [separator].intercalate parts) : c = separator ∨ ∃ part ∈ parts, c ∈ part := by
  induction parts with
  | nil => simp at h
  | cons part parts ih =>
    cases parts with
    | nil => exact Or.inr ⟨part, by simp, by simpa using h⟩
    | cons next parts =>
      rw [List.intercalate_cons_cons, List.append_assoc, List.mem_append, List.mem_append, List.mem_singleton] at h
      rcases h with h | h | h
      · exact Or.inr ⟨part, by simp, h⟩
      · exact Or.inl h
      · exact (ih h).imp_right fun ⟨other, hother, hc⟩ => ⟨other, List.mem_cons_of_mem part hother, hc⟩

end Text

/-- An index is written in decimal digits, without a zero in front of others. -/
theorem index?_eq_some_iff {segment : List Char} {i : Nat} : index? segment = some i ↔ segment = Text.decimalDigits i := by
  unfold index?
  constructor
  · intro h
    split at h
    · rename_i hcanonical
      cases h
      simp only [Bool.and_eq_true, Bool.or_eq_true, List.all_eq_true, decide_eq_true_eq] at hcanonical
      obtain ⟨⟨hdigits, hnonempty⟩, rfl | hlead⟩ := hcanonical
      · rfl
      · exact (Decimal.decimalDigits_ofDigits (by simpa using hnonempty) hdigits hlead).2.symm
    · cases h
  · rintro rfl
    have hvalue : Text.ofDigits (Text.decimalDigits i) = i := Nat.ofDigitChars_ten_toDigits
    have hnonempty : Text.decimalDigits i ≠ [] := Nat.toDigits_ne_nil
    have hlead : Text.decimalDigits i = ['0'] ∨ (Text.decimalDigits i).head? ≠ some '0' := by
      by_cases hzero : i = 0
      · exact Or.inl (by rw [hzero]; rfl)
      · exact Or.inr (Decimal.decimalDigits_leading hzero)
    have hdigits : (Text.decimalDigits i).all Text.isDigit := List.all_eq_true.mpr Decimal.decimalDigits_isDigit
    rw [hvalue, hdigits, if_pos (by simpa [hnonempty] using hlead)]

theorem index?_injective {a b : List Char} {i : Nat} (ha : index? a = some i) (hb : index? b = some i) : a = b :=
  (index?_eq_some_iff.mp ha).trans (index?_eq_some_iff.mp hb).symm

namespace Value

inductive Holds : Value → List Char → Value → Prop
  | entry {entries : Entries} {key : String} {v : Value} : (text key, v) ∈ entries → Holds (map entries) key.toList v
  | item {items : List Value} {i : Nat} {v : Value} : items[i]? = some v → Holds (list items) (Text.decimalDigits i) v
  | part {items : List Value} {i : Nat} {v : Value} : items[i]? = some v → Holds (tuple items) (Text.decimalDigits i) v

/-- A walk from a value along some segments. The last one may be the word for the length of a list or a text. -/
inductive Walk : Value → List (List Char) → Value → Prop
  | here (v : Value) : Walk v [] v
  | step {v w x : Value} {segment : List Char} {segments : List (List Char)} : Holds v segment w → Walk w segments x →
      Walk v (segment :: segments) x
  | listLength (items : List Value) : Walk (list items) ["length".toList] (int items.length)
  | tupleLength (items : List Value) : Walk (tuple items) ["length".toList] (int items.length)
  | textLength (s : String) : Walk (text s) ["length".toList] (int s.length)

mutual

def HasDistinctKeys : Value → Prop
  | map entries => (entries.Pairwise fun d e => ∀ key, d.1 = text key → e.1 ≠ text key) ∧ EntriesHaveDistinctKeys entries
  | list items | tuple items => ItemsHaveDistinctKeys items
  | _ => True

def ItemsHaveDistinctKeys : List Value → Prop
  | [] => True
  | v :: rest => HasDistinctKeys v ∧ ItemsHaveDistinctKeys rest

def EntriesHaveDistinctKeys : List (Value × Value) → Prop
  | [] => True
  | (_, v) :: rest => HasDistinctKeys v ∧ EntriesHaveDistinctKeys rest

end

section Lookup

variable {v w : Value} {segment : List Char} {entries : Entries} {items : List Value}

theorem ItemsHaveDistinctKeys.mem (h : ItemsHaveDistinctKeys items) : ∀ v ∈ items, HasDistinctKeys v := by
  induction items with
  | nil => simp
  | cons v items ih =>
    rw [ItemsHaveDistinctKeys] at h
    exact List.forall_mem_cons.mpr ⟨h.1, ih h.2⟩

theorem EntriesHaveDistinctKeys.mem (h : EntriesHaveDistinctKeys entries) : ∀ e ∈ entries, HasDistinctKeys e.2 := by
  induction entries with
  | nil => simp
  | cons e entries ih =>
    rw [EntriesHaveDistinctKeys] at h
    exact List.forall_mem_cons.mpr ⟨h.1, ih h.2⟩

theorem Holds.distinct (h : Holds v segment w) (hv : HasDistinctKeys v) : HasDistinctKeys w := by
  cases h with
  | entry hmem =>
    rw [HasDistinctKeys] at hv
    exact hv.2.mem _ hmem
  | item hitem | part hitem =>
    rw [HasDistinctKeys] at hv
    exact hv.mem _ (List.mem_of_getElem? hitem)

theorem mem_of_field? {name : String} (h : field? entries name = some v) : (text name, v) ∈ entries := by
  obtain ⟨⟨key, value⟩, hfind, rfl⟩ := Option.map_eq_some_iff.mp h
  have hkey := hasKey_iff.mp (List.find?_some hfind)
  simp only at hkey
  subst hkey
  exact List.mem_of_find?_eq_some hfind

theorem field?_of_mem {name : String} (hdistinct : entries.Pairwise fun d e => ∀ key, d.1 = text key → e.1 ≠ text key)
    (h : (text name, v) ∈ entries) : field? entries name = some v := by
  induction entries with
  | nil => cases h
  | cons e entries ih =>
    obtain ⟨hfirst, hrest⟩ := List.pairwise_cons.mp hdistinct
    rw [field?_cons]
    rcases List.mem_cons.mp h with rfl | h
    · simp [hasKey]
    · rw [if_neg, ih hrest h]
      intro hkey
      exact hfirst _ h name (hasKey_iff.mp hkey) rfl

theorem Holds.child (h : Holds v segment w) (hv : HasDistinctKeys v) : v.child segment = w := by
  cases h with
  | entry hmem =>
    rw [HasDistinctKeys] at hv
    simp [Value.child, field?_of_mem hv.1 hmem]
  | item hitem | part hitem => simp [Value.child, index?_eq_some_iff.mpr rfl, hitem]

/-- In a list an item is found, or the length. -/
theorem child_list_cases (h : (list items).child segment ≠ absent) :
    (∃ i, segment = Text.decimalDigits i ∧ items[i]? = some ((list items).child segment)) ∨
      segment = "length".toList ∧ (list items).child segment = int items.length := by
  simp only [child] at h ⊢
  split at h
  · rename_i i hindex
    cases hitem : items[i]? with
    | none => simp [hitem] at h
    | some w => exact Or.inl ⟨i, index?_eq_some_iff.mp hindex, by simp [hitem]⟩
  · rename_i hindex
    split at h
    · rename_i hlength
      exact Or.inr ⟨hlength, by simp [hlength]⟩
    · exact absurd rfl h

/-- Nothing is found but what a container holds, and a length. -/
theorem child_cases (h : v.child segment ≠ absent) : Holds v segment (v.child segment) ∨
    Walk v [segment] (v.child segment) ∧ ∃ n, v.child segment = int n := by
  cases v with
  | map entries =>
    cases hfield : field? entries (String.ofList segment) with
    | none => simp [child, hfield] at h
    | some w =>
      have hentry := Holds.entry (mem_of_field? hfield)
      rw [String.toList_ofList] at hentry
      exact Or.inl (by simpa [child, hfield] using hentry)
  | list items =>
    rcases child_list_cases h with ⟨i, rfl, hitem⟩ | ⟨rfl, hlength⟩
    · exact Or.inl (.item hitem)
    · exact Or.inr ⟨hlength ▸ .listLength items, _, hlength⟩
  | tuple items =>
    rcases child_list_cases h with ⟨i, rfl, hitem⟩ | ⟨rfl, hlength⟩
    · exact Or.inl (.part hitem)
    · exact Or.inr ⟨hlength ▸ .tupleLength items, _, hlength⟩
  | text s =>
    simp only [child] at h ⊢
    split at h
    · rename_i hlength
      subst hlength
      exact Or.inr ⟨.textLength s, _, if_pos rfl⟩
    · exact absurd rfl h
  | _ => exact absurd rfl h

theorem foldl_child_leaf (hleaf : ∀ segment, v.child segment = absent) (segments : List (List Char)) :
    segments.foldl child v = v ∧ segments = [] ∨ segments.foldl child v = absent := by
  cases segments with
  | nil => exact Or.inl ⟨rfl, rfl⟩
  | cons segment segments =>
    right
    rw [List.foldl_cons, hleaf]
    induction segments with
    | nil => rfl
    | cons segment segments ih => exact ih

theorem Walk.foldl_child {segments : List (List Char)} (h : Walk v segments w) (hv : HasDistinctKeys v) :
    segments.foldl Value.child v = w := by
  induction h with
  | here v => rfl
  | step hholds _ ih => rw [List.foldl_cons, hholds.child hv, ih (hholds.distinct hv)]
  | listLength | tupleLength | textLength => rfl

theorem walk_of_foldl_child {segments : List (List Char)} (h : segments.foldl child v = w) (hw : w ≠ absent) :
    Walk v segments w := by
  induction segments generalizing v with
  | nil => exact h ▸ .here v
  | cons segment segments ih =>
    rw [List.foldl_cons] at h
    have hfound : v.child segment ≠ absent := by
      intro habsent
      rw [habsent] at h
      rcases foldl_child_leaf (v := absent) (fun _ => rfl) segments with ⟨hend, -⟩ | hend
      · exact hw (h.symm.trans hend)
      · exact hw (h.symm.trans hend)
    rcases child_cases hfound with hholds | ⟨hwalk, n, hn⟩
    · exact .step hholds (ih h)
    · -- Nothing is found in a length, so the segments end here.
      rw [hn] at h
      rcases foldl_child_leaf (v := int n) (fun _ => rfl) segments with ⟨hend, rfl⟩ | hend
      · rwa [← h, ← hn]
      · exact absurd (h.symm.trans hend) hw

end Lookup

end Value

section References

open Token

variable {context : Context} {limit : Int} {path : String} {v : Value}

theorem tokenize_reference (space : Namespace) (hpath : ∀ c ∈ path.toList, isWordChar c) :
    ∃ t, tokenize (space.symbol ++ "." ++ path) = .ok [t, .eof] ∧ t.kind.space? = some space ∧ t.value = .text path := by
  have hword (w : List Char) (hw : w.all isWordChar) : ∀ c ∈ w ++ '.' :: path.toList, isWordChar c :=
    List.forall_mem_append.mpr ⟨List.all_eq_true.mp hw, List.forall_mem_cons.mpr ⟨rfl, hpath⟩⟩
  have hscanned {c : Char} {w : List Char} (hc : isLetter c) (hw : w.all isWordChar)
      (hsymbol : String.ofList (c :: w) = space.symbol) : tokenize (space.symbol ++ "." ++ path) =
        .ok [ofWord (c :: (w ++ '.' :: path.toList)), .eof] := by
    have htext : String.ofList (c :: (w ++ '.' :: path.toList)) = space.symbol ++ "." ++ path := by
      rw [← hsymbol]
      apply String.toList_injective
      simp
    rw [← htext]
    exact (scanned_word hc (hword w hw) (by simp)).tokenize
  have hvalue : Value.text (String.ofList path.toList) = .text path := by simp
  cases space with
  | note => exact ⟨_, hscanned (c := 'f') (w := ['m']) rfl rfl rfl, rfl, hvalue⟩
  | file => exact ⟨_, hscanned (c := 'f') (w := ['i', 'l', 'e']) rfl rfl rfl, rfl, hvalue⟩

/-- A reference is answered by what stands at its path, which is the only key. -/
theorem Answer.ofText_reference (hl : 1 ≤ limit) (space : Namespace) (hpath : ∀ c ∈ path.toList, isWordChar c)
    (h : context (.text path) = .ok v) : Answer.ofText context limit (space.symbol ++ "." ++ path) =
      .ok ⟨v, ({} : Keys).add space (.text path), none⟩ := by
  have hwritable : (Formula.reference space (.text path)).Writable := .reference hpath
  obtain ⟨canonical, hs, hback⟩ := hwritable.ofSource?_sourceString hl
  have hcanonical : canonical = space.symbol ++ "." ++ path := by
    cases hs
    apply String.toList_injective
    simp [Value.shown]
  have hheight : ((Formula.reference space (.text path)).height : Int) ≤ limit := hl
  rw [if_pos hheight, hcanonical] at hback
  obtain ⟨t, htokens, hspace, hvalue⟩ := tokenize_reference space hpath
  have hkeys : Answer.reportedKeys (space.symbol ++ "." ++ path) = ({} : Keys).add space (.text path) := by
    unfold Answer.reportedKeys references
    rw [htokens]
    dsimp only
    rw [List.foldl_cons, addReference_eq, hspace, hvalue]
    rfl
  rw [ofText_formula hl hback, Formula.evaluate_reference, h, hkeys]
  rfl

theorem isWordChar_of_alphanum {c : Char} (h : c.isAlphanum ∨ c = '_') : isWordChar c := by
  rcases h with h | rfl
  · simp only [Char.isAlphanum, Char.isAlpha, Char.isUpper, Char.isLower, Char.isDigit, Bool.or_eq_true,
      Bool.and_eq_true, decide_eq_true_eq] at h
    simp only [isWordChar, isLetter, Text.isDigit, Bool.or_eq_true, Bool.and_eq_true, decide_eq_true_eq, Char.le_def]
    tauto
  · rfl

theorem isWordChar_of_separated {parts : List (List Char)} (hpath : Text.Separated '.' parts path.toList)
    (hplain : ∀ part ∈ parts, ∀ c ∈ part, c.isAlphanum ∨ c = '_') : ∀ c ∈ path.toList, isWordChar c := by
  intro c hc
  rw [← hpath.joined] at hc
  rcases Text.mem_intercalate hc with rfl | ⟨part, hpart, hmem⟩
  · rfl
  · exact isWordChar_of_alphanum (hplain part hpart c hmem)

end References

/-- A path finds what its segments walk to, where no two segments name one item of a list; and if the segments are plain, a
reference with this path, in either namespace, is answered by what is found and reports the path alone. -/
theorem paths_find_walks (entries : Value.Entries) (path : String) (hkeys : (Value.map entries).HasDistinctKeys) :
    (∀ v, v ≠ .absent → (Context.ofEntries entries (.text path) = .ok v ↔
      ∃ parts, Text.Separated '.' parts path.toList ∧ (Value.map entries).Walk parts v)) ∧
    (∀ a b i, index? a = some i → index? b = some i → a = b) ∧
    ∀ parts v, Text.Separated '.' parts path.toList → (Value.map entries).Walk parts v →
      (∀ part ∈ parts, ∀ c ∈ part, c.isAlphanum ∨ c = '_') → ∀ limit : Int, 1 ≤ limit →
        Answer.ofTextIn (.map entries) limit ("fm." ++ path) = .ok ⟨v, ⟨[.text path], []⟩, none⟩ ∧
        Answer.ofTextIn (.map entries) limit ("file." ++ path) = .ok ⟨v, ⟨[], [.text path]⟩, none⟩ := by
  have hfound {parts : List (List Char)} {v : Value} (hpath : Text.Separated '.' parts path.toList)
      (hwalk : (Value.map entries).Walk parts v) : Context.ofEntries entries (.text path) = .ok v := by
    rw [Text.separated_iff] at hpath
    rw [Context.ofEntries, Value.resolve, segments, hpath, hwalk.foldl_child hkeys]
  refine ⟨fun v hv => ⟨fun h => ?_, ?_⟩, fun a b i => index?_injective, ?_⟩
  · exact ⟨_, Text.separated_iff.mpr rfl, Value.walk_of_foldl_child (Except.ok.inj h) hv⟩
  · rintro ⟨parts, hpath, hwalk⟩
    exact hfound hpath hwalk
  · intro parts v hpath hwalk hplain limit hl
    have hword := isWordChar_of_separated hpath hplain
    have hcontext := hfound hpath hwalk
    have hin (source : String) : Answer.ofTextIn (.map entries) limit source =
        Answer.ofText (Context.ofEntries entries) limit source := by
      unfold Answer.ofTextIn
      rw [Answer.checkLimit_ok hl]
      rfl
    rw [hin, hin]
    exact ⟨Answer.ofText_reference hl .note hword hcontext, Answer.ofText_reference hl .file hword hcontext⟩

/-- A digit may be a key and an index, and the word for lengths may be a key and a length. -/
theorem length_key_and_length :
    let holder : Value := .map [(.text "length", .list [.int 7])]
    let entries : Value.Entries := [(.text "0", .list [.absent, holder])]
    let parts := ["0".toList, "1".toList, "length".toList, "length".toList]
    (Value.map entries).HasDistinctKeys ∧ Value.int 1 ≠ .absent ∧ Text.Separated '.' parts "0.1.length.length".toList ∧
      (Value.map entries).Walk parts (.int 1) ∧ (∀ part ∈ parts, ∀ c ∈ part, c.isAlphanum ∨ c = '_') ∧
      Context.ofEntries entries (.text "0.1.length.length") = .ok (.int 1) ∧ index? ['1'] = some 1 ∧
      Answer.ofTextIn (.map entries) 1 "file.0.1.length.length" =
        .ok ⟨.int 1, ⟨[], [.text "0.1.length.length"]⟩, none⟩ := by
  intro holder entries parts
  have hkeys : (Value.map entries).HasDistinctKeys := by
    simp [entries, holder, Value.HasDistinctKeys, Value.EntriesHaveDistinctKeys, Value.ItemsHaveDistinctKeys]
  have hpath : Text.Separated '.' parts "0.1.length.length".toList := Text.separated_iff.mpr rfl
  have hlength : (Value.list [.int 7]).Walk ["length".toList] (.int 1) := .listLength _
  have hholder : holder.Walk ["length".toList, "length".toList] (.int 1) :=
    .step (.entry (List.mem_singleton.mpr rfl)) hlength
  have hitem : (Value.list [.absent, holder]).Holds "1".toList holder := .item (i := 1) rfl
  have hwalk : (Value.map entries).Walk parts (.int 1) :=
    .step (.entry (List.mem_singleton.mpr rfl)) (.step hitem hholder)
  have hplain : ∀ part ∈ parts, ∀ c ∈ part, c.isAlphanum ∨ c = '_' := by simp [parts]
  obtain ⟨hfinds, -, hanswers⟩ := paths_find_walks entries "0.1.length.length" hkeys
  exact ⟨hkeys, by simp, hpath, hwalk, hplain, (hfinds _ (by simp)).mpr ⟨parts, hpath, hwalk⟩,
    index?_eq_some_iff.mpr rfl, (hanswers parts _ hpath hwalk hplain 1 (Int.le_refl 1)).2⟩

end NoteFormula

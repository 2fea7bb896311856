import NoteFormula.Proofs.JsonNumbers
import NoteFormula.Proofs.JsonTexts

/-! # Documents in JSON

Written values are read back where a value can end, whatever comes after them: words, numbers, texts, and objects and
arrays put together from entries and items that are read back.
-/
namespace NoteFormula.Json

structure Reads (text : List Char) (json : Json) : Prop where
  opens : ∃ c cs, text = c :: cs ∧ isSpace c = false ∧ c ≠ ']'
  reads : ∀ {rest : List Char} {count : Nat}, Ends rest → text.length < count →
    document? count (text ++ rest) = some (json, rest)

section Scalars

variable {cs rest text : List Char} {c : Char} {json : Json}

theorem document?_scalar (hquote : c ≠ '"') (harray : c ≠ '[') (hobject : c ≠ '\x7b') (count : Nat) :
    document? (count + 1) (c :: cs) = scalar? (c :: cs) := by
  rw [document?]
  · rintro rest ⟨⟩
    exact absurd rfl hquote
  · rintro rest ⟨⟩
    exact absurd rfl harray
  · rintro rest ⟨⟩
    exact absurd rfl hobject

theorem reads_scalar (hspace : isSpace c = false) (hclose : c ≠ ']') (hquote : c ≠ '"') (harray : c ≠ '[')
    (hobject : c ≠ '\x7b') (h : ∀ {rest}, Ends rest → scalar? (c :: (cs ++ rest)) = some (json, rest)) :
    Reads (c :: cs) json where
  opens := ⟨c, cs, rfl, hspace, hclose⟩
  reads {rest count} hr hcount := by
    obtain ⟨k, rfl⟩ := Nat.exists_eq_succ_of_ne_zero (Nat.ne_zero_of_lt hcount)
    rw [List.cons_append, document?_scalar hquote harray hobject, h hr]

theorem reads_null : Reads "null".toList null :=
  reads_scalar (c := 'n') rfl (by decide) (by decide) (by decide) (by decide) fun _ => rfl

theorem reads_bool (b : Bool) : Reads (if b then "true" else "false").toList (bool b) := by
  cases b with
  | true => exact reads_scalar (c := 't') rfl (by decide) (by decide) (by decide) (by decide) fun _ => rfl
  | false => exact reads_scalar (c := 'f') rfl (by decide) (by decide) (by decide) (by decide) fun _ => rfl

theorem reads_nan : Reads "NaN".toList (special Decimal.notANumber) :=
  reads_scalar (c := 'N') rfl (by decide) (by decide) (by decide) (by decide) fun _ => rfl

theorem reads_infinity (negative : Bool) :
    Reads (if negative then '-' :: "Infinity".toList else "Infinity".toList) (special (Decimal.infinity negative)) := by
  cases negative with
  | true => exact reads_scalar (c := '-') rfl (by decide) (by decide) (by decide) (by decide) fun _ => rfl
  | false => exact reads_scalar (c := 'I') rfl (by decide) (by decide) (by decide) (by decide) fun _ => rfl

theorem reads_number {m : Decimal.Mantissa} {L : Decimal.Layout} (hm : m.Plain) (negative : Bool)
    (power : Option Int) :
    Reads ((if negative then ['-'] else []) ++ (m.spelling ++ power.elim [] L.exponentText))
      (number ⟨negative, m.whole, m.fraction, power⟩) := by
  obtain ⟨c, cs, hspelling, hdigit⟩ := hm.spelling_cons
  have hne (d : Char) (hd : Text.isDigit d = false) : c ≠ d := by
    rintro rfl
    rw [hd] at hdigit
    cases hdigit
  have hscalar {rest : List Char} (hr : Ends rest) :
      scalar? ((if negative then ['-'] else []) ++ (c :: cs ++ power.elim [] L.exponentText ++ rest)) =
        some (number ⟨negative, m.whole, m.fraction, power⟩, rest) := by
    have hread := number?_numeral (L := L) hm negative power hr
    rw [hspelling] at hread
    rw [List.cons_append, List.cons_append, scalar?_signed hdigit]
    rw [List.cons_append, List.cons_append] at hread
    rw [hread]
    rfl
  rw [hspelling]
  cases negative with
  | true =>
    refine reads_scalar (c := '-') rfl (by decide) (by decide) (by decide) (by decide) fun hr => ?_
    simpa using hscalar hr
  | false =>
    have hspace : isSpace c = false := by
      simp [isSpace, hne ' ' rfl, hne '\t' rfl, hne '\n' rfl, hne '\r' rfl]
    refine reads_scalar hspace (hne ']' rfl) (hne '"' rfl) (hne '[' rfl) (hne '\x7b' rfl) fun hr => ?_
    simpa using hscalar hr

end Scalars

theorem length_escaped (charset : Charset) (s : List Char) : s.length ≤ (s.flatMap (escaped charset)).length := by
  induction s with
  | nil => exact Nat.le_refl _
  | cons c s ih =>
    obtain ⟨d, ds, hescaped, -⟩ := escaped_cons charset c
    rw [List.flatMap_cons, hescaped]
    simp only [List.length_cons, List.length_append]
    omega

theorem textBody?_closed (charset : Charset) (s rest : List Char) :
    textBody? (s.flatMap (escaped charset) ++ ['"'] ++ rest).length (s.flatMap (escaped charset) ++ ['"'] ++ rest) =
      some (s, rest) := by
  rw [List.append_assoc, List.singleton_append]
  refine textBody?_escaped charset s rest ?_
  have hlength := length_escaped charset s
  simp only [List.length_append, List.length_cons]
  omega

theorem reads_quoted (charset : Charset) (s : List Char) : Reads (quoted charset s) (text s) where
  opens := ⟨'"', _, rfl, rfl, by decide⟩
  reads {rest count} _ hcount := by
    obtain ⟨k, rfl⟩ := Nat.exists_eq_succ_of_ne_zero (Nat.ne_zero_of_lt hcount)
    change (textBody? (s.flatMap (escaped charset) ++ ['"'] ++ rest).length
      (s.flatMap (escaped charset) ++ ['"'] ++ rest)).map _ = _
    rw [textBody?_closed]
    rfl

structure WrittenEntry where
  key : List Char
  text : List Char
  json : Json

def WrittenEntry.spelling (charset : Charset) (gap : List Char) (e : WrittenEntry) : List Char :=
  quoted charset e.key ++ ':' :: gap ++ e.text

section Objects

variable {charset : Charset} {gap cs rest : List Char} {e : WrittenEntry} {es : List WrittenEntry} {c : Char}

theorem skipSpace_cons (hc : isSpace c = false) : skipSpace (c :: cs) = c :: cs :=
  List.dropWhile_cons_of_neg (by rw [hc]; decide)

theorem skipSpace_gap (hgap : ∀ c ∈ gap, isSpace c) (hc : isSpace c = false) :
    skipSpace (gap ++ c :: cs) = c :: cs := by
  rw [skipSpace, List.dropWhile_append_of_pos hgap]
  exact skipSpace_cons hc

def joinedEntries (charset : Charset) (gap : List Char) (es : List WrittenEntry) : List Char :=
  (',' :: gap).intercalate (es.map (·.spelling charset gap))

theorem spelling_append (e : WrittenEntry) (after : List Char) : e.spelling charset gap ++ after =
    '"' :: (e.key.flatMap (escaped charset) ++ ['"'] ++ (':' :: (gap ++ (e.text ++ after)))) := by
  simp [WrittenEntry.spelling, quoted]

theorem joinedEntries_cons (e f : WrittenEntry) (es : List WrittenEntry) : joinedEntries charset gap (e :: f :: es) =
    e.spelling charset gap ++ ',' :: (gap ++ joinedEntries charset gap (f :: es)) := by
  simp [joinedEntries]

theorem joinedEntries_opens (charset : Charset) (gap : List Char) (e : WrittenEntry) (es : List WrittenEntry) (after : List Char) :
    ∃ cs, joinedEntries charset gap (e :: es) ++ after = '"' :: cs := by
  cases es with
  | nil => exact ⟨_, by rw [joinedEntries, List.map_singleton, List.intercalate_singleton, spelling_append]⟩
  | cons f es => exact ⟨_, by rw [joinedEntries_cons, List.append_assoc, spelling_append]⟩

theorem length_spelling (e : WrittenEntry) : e.text.length + 3 ≤ (e.spelling charset gap).length := by
  simp [WrittenEntry.spelling, quoted]
  omega

section Reading

variable (hgap : ∀ c ∈ gap, isSpace c) {count : Nat}
include hgap

theorem Reads.after_gap {text : List Char} {json : Json} (h : Reads text json) (after : List Char) :
    skipSpace (gap ++ (text ++ after)) = text ++ after := by
  obtain ⟨c, cs, rfl, hspace, -⟩ := h.opens
  exact skipSpace_gap hgap hspace

theorem entries?_last (he : Reads e.text e.json) (hcount : e.text.length < count) :
    entries? (count + 1) (e.spelling charset gap ++ '\x7d' :: rest) = some ([(e.key, e.json)], rest) := by
  have hvalue : document? count (e.text ++ '\x7d' :: rest) = some (e.json, '\x7d' :: rest) :=
    he.reads (by rintro c ⟨⟩; exact Or.inr (Or.inr rfl)) hcount
  rw [spelling_append]
  simp only [entries?, textBody?_closed, Option.bind_eq_bind, Option.bind_some, skipSpace_cons (c := ':') rfl,
    he.after_gap hgap, hvalue, skipSpace_cons (c := '\x7d') rfl]
  rfl

theorem entries?_more (he : Reads e.text e.json) (hcount : e.text.length < count)
    {more : List (List Char × Json)} (hc : isSpace c = false) (hmore : entries? count (c :: cs) = some (more, rest)) :
    entries? (count + 1) (e.spelling charset gap ++ ',' :: (gap ++ c :: cs)) =
      some ((e.key, e.json) :: more, rest) := by
  have hvalue : document? count (e.text ++ ',' :: (gap ++ c :: cs)) = some (e.json, ',' :: (gap ++ c :: cs)) :=
    he.reads (by rintro c ⟨⟩; exact Or.inl rfl) hcount
  rw [spelling_append]
  simp only [entries?, textBody?_closed, Option.bind_eq_bind, Option.bind_some, skipSpace_cons (c := ':') rfl,
    he.after_gap hgap, hvalue, skipSpace_cons (c := ',') rfl, skipSpace_gap hgap hc, hmore]
  rfl

theorem entries?_joined (es : List WrittenEntry) (h : ∀ f ∈ e :: es, Reads f.text f.json)
    (hcount : (joinedEntries charset gap (e :: es)).length ≤ count) :
    entries? count (joinedEntries charset gap (e :: es) ++ '\x7d' :: rest) =
      some ((e :: es).map fun f => (f.key, f.json), rest) := by
  have hread := h e List.mem_cons_self
  have hlength : e.text.length + 3 ≤ (e.spelling charset gap).length := length_spelling e
  induction es generalizing e count with
  | nil =>
    have hone : joinedEntries charset gap [e] = e.spelling charset gap := List.intercalate_singleton
    rw [hone] at hcount ⊢
    obtain ⟨k, rfl⟩ : ∃ k, count = k + 1 := ⟨count - 1, by omega⟩
    exact entries?_last hgap hread (by omega)
  | cons f es ih =>
    rw [joinedEntries_cons] at hcount ⊢
    simp only [List.length_append, List.length_cons] at hcount
    obtain ⟨k, rfl⟩ : ∃ k, count = k + 1 := ⟨count - 1, by omega⟩
    have hrest : ∀ g ∈ f :: es, Reads g.text g.json := fun g hg => h g (List.mem_cons_of_mem e hg)
    have hmore : entries? k (joinedEntries charset gap (f :: es) ++ '\x7d' :: rest) =
        some ((f :: es).map fun g => (g.key, g.json), rest) :=
      ih hrest (by omega) (hrest f List.mem_cons_self) (length_spelling f)
    obtain ⟨cs, hopens⟩ := joinedEntries_opens charset gap f es ('\x7d' :: rest)
    simp only [List.append_assoc, List.cons_append]
    rw [hopens] at hmore ⊢
    exact entries?_more hgap hread (by omega) rfl hmore

theorem reads_object (h : ∀ e ∈ es, Reads e.text e.json) :
    Reads ('\x7b' :: joinedEntries charset gap es ++ ['\x7d']) (object (es.map fun e => (e.key, e.json))) where
  opens := ⟨'\x7b', _, rfl, rfl, by decide⟩
  reads {rest count} _ hcount := by
    obtain ⟨k, rfl⟩ := Nat.exists_eq_succ_of_ne_zero (Nat.ne_zero_of_lt hcount)
    cases es with
    | nil => rfl
    | cons e es =>
      have hread : entries? k (joinedEntries charset gap (e :: es) ++ '\x7d' :: rest) =
          some ((e :: es).map fun f => (f.key, f.json), rest) := by
        refine entries?_joined hgap es h ?_
        simp only [List.length_append, List.length_cons] at hcount
        omega
      obtain ⟨cs, hopens⟩ := joinedEntries_opens charset gap e es ('\x7d' :: rest)
      rw [hopens] at hread
      rw [List.cons_append, List.cons_append, List.append_assoc, List.singleton_append, hopens, document?]
      rw [skipSpace_cons rfl]
      change (entries? k ('"' :: cs)).map _ = _
      rw [hread]
      rfl

end Reading

end Objects

section Arrays

variable {gap text cs rest : List Char} {json : Json} {parts : List (List Char)} {items : List Json} {count : Nat} {c : Char}

theorem items?_last (h : Reads text json) (hcount : text.length < count) :
    items? (count + 1) (text ++ ']' :: rest) = some ([json], rest) := by
  have hitem : document? count (text ++ ']' :: rest) = some (json, ']' :: rest) :=
    h.reads (by rintro c ⟨⟩; exact Or.inr (Or.inl rfl)) hcount
  simp only [items?, hitem, Option.bind_eq_bind, Option.bind_some, skipSpace_cons (c := ']') rfl]
  rfl

theorem items?_more (hgap : ∀ c ∈ gap, isSpace c) (h : Reads text json) (hcount : text.length < count)
    (hc : isSpace c = false) (hmore : items? count (c :: cs) = some (items, rest)) :
    items? (count + 1) (text ++ ',' :: (gap ++ c :: cs)) = some (json :: items, rest) := by
  have hitem : document? count (text ++ ',' :: (gap ++ c :: cs)) = some (json, ',' :: (gap ++ c :: cs)) :=
    h.reads (by rintro c ⟨⟩; exact Or.inl rfl) hcount
  simp only [items?, hitem, Option.bind_eq_bind, Option.bind_some, skipSpace_cons (c := ',') rfl, skipSpace_gap hgap hc,
    hmore]
  rfl

theorem Reads.joined_opens (h : Reads text json) (gap : List Char) (parts : List (List Char)) (after : List Char) :
    ∃ c cs, (',' :: gap).intercalate (text :: parts) ++ after = c :: cs ∧ isSpace c = false ∧ c ≠ ']' := by
  obtain ⟨c, cs, rfl, hspace, hclose⟩ := h.opens
  cases parts with
  | nil => exact ⟨c, _, by rw [List.intercalate_singleton, List.cons_append], hspace, hclose⟩
  | cons part parts =>
    exact ⟨c, _, by rw [List.intercalate_cons_cons, List.cons_append, List.cons_append, List.cons_append], hspace, hclose⟩

theorem items?_joined (hgap : ∀ c ∈ gap, isSpace c) (h : Reads text json) (hparts : List.Forall₂ Reads parts items)
    (hcount : ((',' :: gap).intercalate (text :: parts)).length + 1 < count) :
    items? count ((',' :: gap).intercalate (text :: parts) ++ ']' :: rest) = some (json :: items, rest) := by
  obtain ⟨k, rfl⟩ : ∃ k, count = k + 1 := ⟨count - 1, by omega⟩
  induction hparts generalizing text json k with
  | nil =>
    rw [List.intercalate_singleton] at hcount ⊢
    exact items?_last h (by omega)
  | @cons next other parts items hnext hparts ih =>
    rw [List.intercalate_cons_cons] at hcount ⊢
    simp only [List.length_append, List.length_cons] at hcount
    obtain ⟨j, rfl⟩ : ∃ j, k = j + 1 := ⟨k - 1, by omega⟩
    have hmore := ih hnext j (by omega)
    obtain ⟨c, cs, hopens, hspace, -⟩ := hnext.joined_opens gap parts (']' :: rest)
    simp only [List.append_assoc, List.cons_append]
    rw [hopens] at hmore ⊢
    exact items?_more hgap h (by omega) hspace hmore

theorem reads_array (hgap : ∀ c ∈ gap, isSpace c) (h : List.Forall₂ Reads parts items) :
    Reads ('[' :: (',' :: gap).intercalate parts ++ [']']) (array items) where
  opens := ⟨'[', _, rfl, rfl, by decide⟩
  reads {rest count} _ hcount := by
    obtain ⟨k, rfl⟩ := Nat.exists_eq_succ_of_ne_zero (Nat.ne_zero_of_lt hcount)
    cases h with
    | nil => rfl
    | @cons part json parts items hpart hparts =>
      simp only [List.length_append, List.length_cons, List.length_nil] at hcount
      have hread : items? k ((',' :: gap).intercalate (part :: parts) ++ ']' :: rest) = some (json :: items, rest) :=
        items?_joined hgap hpart hparts (by omega)
      obtain ⟨c, cs, hopens, hspace, hclose⟩ := hpart.joined_opens gap parts (']' :: rest)
      rw [hopens] at hread
      rw [List.cons_append, List.cons_append, List.append_assoc, List.singleton_append, hopens, document?]
      rw [skipSpace_cons hspace]
      split
      · rename_i hcons
        cases hcons
        exact absurd rfl hclose
      · rw [hread]
        rfl

end Arrays

end NoteFormula.Json

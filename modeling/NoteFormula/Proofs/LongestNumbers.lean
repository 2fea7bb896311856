import NoteFormula.Decimal.Entire
import NoteFormula.Proofs.LeadingNumbers
import NoteFormula.Proofs.LexicalRules

/-! # Longest numbers

What a number in a text can be, part by part, and that a text converts to the longest one that it begins with. An
exponent without digits is no part of a number, so reading stops before it and not within it.
-/
namespace NoteFormula.Decimal

open Text

inductive SignText : List Char → Bool → Prop
  | none : SignText [] false
  | plus : SignText ['+'] false
  | minus : SignText ['-'] true

inductive ExponentText : List Char → Int → Prop
  | none : ExponentText [] 0
  | some {letter : Char} {signed digits : List Char} {negative : Bool} : letter = 'e' ∨ letter = 'E' →
      SignText signed negative → digits ≠ [] → (∀ c ∈ digits, isDigit c) →
      ExponentText (letter :: (signed ++ digits)) (if negative then -(ofDigits digits : Int) else ofDigits digits)

inductive NumberText : List Char → Float → Prop
  | infinite {signed : List Char} {negative : Bool} : SignText signed negative →
      NumberText (signed ++ "Infinity".toList) (infinity negative)
  | digits {signed exponent : List Char} {negative : Bool} {m : Mantissa} {power : Int} : SignText signed negative →
      m.IsNumeral → ExponentText exponent power →
      NumberText (signed ++ (m.spelling ++ exponent)) ((m.decimal power).toFloat negative)

structure LongestNumber (cs number : List Char) (x : Float) : Prop where
  reads : NumberText number x
  begins : number <+: cs
  longest : ∀ other y, NumberText other y → other <+: cs → other.length ≤ number.length

variable {cs rest number signed exponent : List Char} {negative : Bool} {m : Mantissa} {power : Int} {x : Float}

section Parts

theorem sign_signText (cs : List Char) : ∃ signed, SignText signed (sign cs).1 ∧ cs = signed ++ (sign cs).2 := by
  unfold sign
  split
  · exact ⟨['-'], .minus, rfl⟩
  · exact ⟨['+'], .plus, rfl⟩
  · exact ⟨[], .none, rfl⟩

theorem SignText.sign_append (h : SignText signed negative) (hr : ∀ c ∈ rest.head?, c ≠ '-' ∧ c ≠ '+') :
    sign (signed ++ rest) = (negative, rest) := by
  cases h with
  | plus | minus => rfl
  | none =>
    cases rest with
    | nil => rfl
    | cons c rest => exact sign_cons (hr c rfl).1 (hr c rfl).2

theorem exponentText_exponentPart (cs : List Char) :
    ∃ exponent, ExponentText exponent (exponentPart cs).1 ∧ cs = exponent ++ (exponentPart cs).2 := by
  have hnone : ∃ exponent, ExponentText exponent 0 ∧ cs = exponent ++ cs := ⟨[], .none, rfl⟩
  unfold exponentPart
  split
  · exact hnone
  rename_i letter after
  split_ifs with hletter
  · obtain ⟨signed, hsigned, hafter⟩ := sign_signText after
    have hcut := List.takeWhile_append_dropWhile (p := isDigit) (l := (sign after).2)
    have hall : ∀ c ∈ (sign after).2.takeWhile isDigit, isDigit c := List.all_eq_true.mp List.all_takeWhile
    dsimp only
    cases hdigits : (sign after).2.takeWhile isDigit with
    | nil => exact hnone
    | cons d ds =>
      rw [hdigits] at hcut hall
      refine ⟨_, .some (by simpa using hletter) hsigned (List.cons_ne_nil d ds) hall, ?_⟩
      rw [List.cons_append, List.append_assoc, hcut, ← hafter]
  · exact hnone

/-- An exponent is taken at least to its end, and as itself if not beyond. -/
theorem ExponentText.reached (h : ExponentText exponent power) (rest : List Char) :
    (exponentPart (exponent ++ rest)).2.length ≤ rest.length ∧
      ((exponentPart (exponent ++ rest)).2.length = rest.length → (exponentPart (exponent ++ rest)).1 = power) := by
  cases h with
  | none =>
    obtain ⟨taken, htaken, hrest⟩ := exponentText_exponentPart rest
    have hlength := congrArg List.length hrest
    rw [List.length_append] at hlength
    refine ⟨by simp only [List.nil_append]; omega, fun heq => ?_⟩
    simp only [List.nil_append] at heq ⊢
    obtain rfl : taken = [] := List.eq_nil_of_length_eq_zero (by omega)
    generalize (exponentPart rest).1 = power at htaken
    cases htaken
    rfl
  | @some letter signed digits negative hletter hsigned hne hdigits =>
    obtain ⟨d, ds, rfl⟩ := List.exists_cons_of_ne_nil hne
    have hd : isDigit d := hdigits d List.mem_cons_self
    have hsign : sign (signed ++ (d :: ds ++ rest)) = (negative, d :: ds ++ rest) := by
      refine hsigned.sign_append ?_
      rintro c ⟨⟩
      exact ⟨ne_of_isDigit hd rfl, ne_of_isDigit hd rfl⟩
    have hread : exponentPart (letter :: (signed ++ d :: ds) ++ rest) =
        (if negative then -(ofDigits (d :: ds ++ rest.takeWhile isDigit) : Int)
          else ofDigits (d :: ds ++ rest.takeWhile isDigit), rest.dropWhile isDigit) := by
      unfold exponentPart
      rw [List.cons_append, List.append_assoc]
      dsimp only
      rw [if_pos (by simpa using hletter), hsign]
      dsimp only
      rw [List.takeWhile_append_of_pos hdigits, List.dropWhile_append_of_pos hdigits]
      rfl
    have hcut := congrArg List.length (List.takeWhile_append_dropWhile (p := isDigit) (l := rest))
    rw [List.length_append] at hcut
    rw [hread]
    refine ⟨by dsimp only; omega, fun heq => ?_⟩
    dsimp only at heq ⊢
    rw [List.eq_nil_of_length_eq_zero (show (rest.takeWhile isDigit).length = 0 by omega), List.append_nil]

theorem Mantissa.IsNumeral.mem_spelling (hm : m.IsNumeral) : ∀ c ∈ m.spelling, isDigit c ∨ c = '.' := by
  have hwhole (c : Char) (hc : c ∈ m.whole) : isDigit c ∨ c = '.' := Or.inl (hm.whole c hc)
  have hfraction := hm.fraction
  unfold spelling
  split
  · rename_i fraction heq
    rw [heq] at hfraction
    exact List.forall_mem_append.mpr
      ⟨hwhole, List.forall_mem_cons.mpr ⟨Or.inr rfl, fun c hc => Or.inl (hfraction c hc)⟩⟩
  · exact hwhole

/-- A numeral is read exactly if neither a digit nor a point comes after it. -/
theorem Mantissa.IsNumeral.read?_spelling (hm : m.IsNumeral) (hr : ∀ c ∈ rest.head?, ¬ isDigit c ∧ c ≠ '.') :
    Mantissa.read? (m.spelling ++ rest) = some (m, rest) := by
  obtain ⟨n, after, hread, hle, heq⟩ := Token.numeral_reached hm rest
  obtain ⟨hsplit, hn⟩ := Token.read?_numeral hread
  obtain ⟨more, hmore, hrest⟩ : ∃ more, n.spelling = m.spelling ++ more ∧ rest = more ++ after := by
    have hlength := congrArg List.length hsplit
    simp only [List.length_append] at hlength
    have hprefix : m.spelling <+: n.spelling :=
      List.prefix_of_prefix_length_le (hsplit ▸ List.prefix_append _ _) (List.prefix_append _ _) (by omega)
    obtain ⟨more, hmore⟩ := hprefix
    rw [← hmore, List.append_assoc] at hsplit
    exact ⟨more, hmore.symm, List.append_cancel_left hsplit⟩
  cases more with
  | nil =>
    obtain rfl : rest = after := hrest
    rw [hread, heq rfl]
  | cons c more =>
    have hc := hn.mem_spelling c (by simp [hmore])
    have hnot := hr c (by simp [hrest])
    exact absurd hc (by simp [hnot])

/-- A mantissa and its exponent are read at least to their end, and as themselves if not beyond. -/
theorem magnitude_reached (hm : m.IsNumeral) (he : ExponentText exponent power) (rest : List Char) :
    ∃ n after, Mantissa.read? (m.spelling ++ (exponent ++ rest)) = some (n, after) ∧
      (exponentPart after).2.length ≤ rest.length ∧
      ((exponentPart after).2.length = rest.length → n = m ∧ (exponentPart after).1 = power) := by
  cases he with
  | none =>
    -- The rest may go on with digits or with an exponent, and then reading goes beyond.
    obtain ⟨n, after, hread, hle, heq⟩ := Token.numeral_reached hm rest
    obtain ⟨hafter, hpower⟩ := ExponentText.none.reached after
    rw [List.nil_append] at hafter hpower
    exact ⟨n, after, hread, by omega, fun hlength => ⟨heq (by omega), hpower (by omega)⟩⟩
  | @some letter signed digits negative hletter hsigned hne hdigits =>
    have hread : Mantissa.read? (m.spelling ++ (letter :: (signed ++ digits) ++ rest)) =
        some (m, letter :: (signed ++ digits) ++ rest) := by
      apply hm.read?_spelling
      rintro c ⟨⟩
      rcases hletter with rfl | rfl <;> decide
    obtain ⟨hle, hpower⟩ := (ExponentText.some hletter hsigned hne hdigits).reached rest
    exact ⟨m, _, hread, hle, fun hlength => ⟨rfl, hpower hlength⟩⟩

end Parts

section Reading

/-- The word for infinity does not begin like a mantissa, and no mantissa begins with a sign. -/
theorem numeral_head (hm : m.IsNumeral) (rest : List Char) :
    (∀ c ∈ (m.spelling ++ rest).head?, c ≠ '-' ∧ c ≠ '+') ∧
      "Infinity".toList.isPrefixOf (m.spelling ++ rest) = false := by
  obtain ⟨c, cs, hspelling, hc⟩ := Token.numeral_cons hm
  have hne (d : Char) (hd : isDigit d = false) (hpoint : d ≠ '.') : c ≠ d := by
    rcases hc with hc | rfl
    · exact ne_of_isDigit hc hd
    · exact hpoint.symm
  rw [hspelling]
  refine ⟨?_, by simp [List.isPrefixOf, (hne 'I' rfl (by decide)).symm]⟩
  rintro d ⟨⟩
  exact ⟨hne '-' rfl (by decide), hne '+' rfl (by decide)⟩

theorem numberText_of_numeral? (h : numeral? cs = some (x, rest)) : ∃ number, NumberText number x ∧ cs = number ++ rest := by
  obtain ⟨signed, hsigned, hcs⟩ := sign_signText cs
  rw [numeral?_eq] at h
  split_ifs at h with hword
  · cases h
    obtain ⟨after, hafter⟩ := List.isPrefixOf_iff_prefix.mp hword
    refine ⟨_, .infinite hsigned, ?_⟩
    rw [← hafter] at hcs
    rw [← hafter, hcs, List.append_assoc]
    rfl
  · obtain ⟨⟨m, after⟩, hread, hx⟩ := Option.map_eq_some_iff.mp h
    cases hx
    obtain ⟨hsplit, hm⟩ := Token.read?_numeral hread
    obtain ⟨exponent, hexponent, hafter⟩ := exponentText_exponentPart after
    refine ⟨_, .digits hsigned hm hexponent, ?_⟩
    rw [List.append_assoc, List.append_assoc, ← hafter, ← hsplit, ← hcs]

/-- Whatever number a text begins with, reading goes at least as far, and finds that number if not farther. -/
theorem NumberText.reached (h : NumberText number x) (rest : List Char) :
    ∃ y after, numeral? (number ++ rest) = some (y, after) ∧ after.length ≤ rest.length ∧
      (after.length = rest.length → y = x) := by
  cases h with
  | @infinite signed negative hsigned =>
    have hsign : sign (signed ++ "Infinity".toList ++ rest) = (negative, "Infinity".toList ++ rest) := by
      rw [List.append_assoc]
      exact hsigned.sign_append (by rintro c ⟨⟩; decide)
    have hword : "Infinity".toList.isPrefixOf ("Infinity".toList ++ rest) = true :=
      List.isPrefixOf_iff_prefix.mpr (List.prefix_append _ _)
    exact ⟨infinity negative, rest, by rw [numeral?_eq, hsign, if_pos hword]; rfl, Nat.le_refl _, fun _ => rfl⟩
  | @digits signed exponent negative m power hsigned hm hexponent =>
    obtain ⟨hhead, hword⟩ := numeral_head hm (exponent ++ rest)
    have hsign : sign (signed ++ (m.spelling ++ exponent) ++ rest) = (negative, m.spelling ++ (exponent ++ rest)) := by
      rw [List.append_assoc, List.append_assoc]
      exact hsigned.sign_append hhead
    obtain ⟨n, after, hread, hle, heq⟩ := magnitude_reached hm hexponent rest
    have hnumber : numeral? (signed ++ (m.spelling ++ exponent) ++ rest) =
        some ((n.decimal (exponentPart after).1).toFloat negative, (exponentPart after).2) := by
      rw [numeral?_eq, hsign, hword, if_neg Bool.false_ne_true, hread, Option.map_some]
    refine ⟨_, _, hnumber, hle, fun hlength => ?_⟩
    obtain ⟨rfl, hpower⟩ := heq hlength
    rw [hpower]

/-- Reading a number is taking the longest one there is. -/
theorem numeral?_eq_some_iff :
    numeral? cs = some (x, rest) ↔ ∃ number, cs = number ++ rest ∧ LongestNumber cs number x := by
  constructor
  · intro h
    obtain ⟨number, hnumber, hcs⟩ := numberText_of_numeral? h
    refine ⟨number, hcs, hnumber, hcs ▸ List.prefix_append _ _, ?_⟩
    rintro other y hother ⟨after, rfl⟩
    obtain ⟨z, left, hread, hle, -⟩ := hother.reached after
    rw [h] at hread
    cases hread
    have hlength := congrArg List.length hcs
    simp only [List.length_append] at hlength
    omega
  · rintro ⟨number, rfl, hnumber⟩
    obtain ⟨y, after, hread, hle, heq⟩ := hnumber.reads.reached rest
    obtain ⟨other, hother, hcs⟩ := numberText_of_numeral? hread
    have hlongest := hnumber.longest other y hother (hcs ▸ List.prefix_append _ _)
    have hlength := congrArg List.length hcs
    simp only [List.length_append] at hlength
    have hrest : after = rest := (List.append_inj_right' hcs (by omega)).symm
    rw [hread, heq (by rw [hrest]), hrest]

theorem numeral?_eq_none_iff : numeral? cs = none ↔ ∀ number x, NumberText number x → ¬ number <+: cs := by
  constructor
  · rintro h number x hnumber ⟨rest, rfl⟩
    obtain ⟨y, after, hread, -⟩ := hnumber.reached rest
    rw [h] at hread
    cases hread
  · intro h
    cases hread : numeral? cs with
    | none => rfl
    | some read =>
      obtain ⟨number, hnumber, hcs⟩ := numberText_of_numeral? hread
      exact absurd (hcs ▸ List.prefix_append _ _) (h number _ hnumber)

end Reading

section Entire

theorem SignText.mem (h : SignText signed negative) : ∀ c ∈ signed, c = '-' ∨ c = '+' := by
  cases h <;> simp

theorem ExponentText.mem (h : ExponentText exponent power) :
    ∀ c ∈ exponent, isDigit c ∨ c ∈ ['-', '+', 'e', 'E'] := by
  cases h with
  | none => simp
  | some hletter hsigned hne hdigits =>
    refine List.forall_mem_cons.mpr ⟨?_, List.forall_mem_append.mpr ⟨fun c hc => ?_, fun c hc => Or.inl (hdigits c hc)⟩⟩
    · rcases hletter with rfl | rfl <;> decide
    · rcases hsigned.mem c hc with rfl | rfl <;> decide

theorem NumberText.visible (h : NumberText number x) : ∀ c ∈ number, 0x20 < c.toNat ∧ c.toNat < 0x7f := by
  have hdigit {c : Char} (hc : isDigit c) : 0x20 < c.toNat ∧ c.toNat < 0x7f := by
    have hrange := isDigit_iff.mp hc
    omega
  have hsign {signed : List Char} {negative : Bool} (hsigned : SignText signed negative) :
      ∀ c ∈ signed, 0x20 < c.toNat ∧ c.toNat < 0x7f := by
    intro c hc
    rcases hsigned.mem c hc with rfl | rfl <;> decide
  have hletter : ∀ c ∈ ['-', '+', 'e', 'E'], 0x20 < c.toNat ∧ c.toNat < 0x7f := by simp
  cases h with
  | infinite hsigned => exact List.forall_mem_append.mpr ⟨hsign hsigned, by simp⟩
  | digits hsigned hm hexponent =>
    refine List.forall_mem_append.mpr ⟨hsign hsigned, List.forall_mem_append.mpr ⟨fun c hc => ?_, fun c hc => ?_⟩⟩
    · rcases hm.mem_spelling c hc with hc | rfl
      · exact hdigit hc
      · decide
    · rcases hexponent.mem c hc with hc | hc
      · exact hdigit hc
      · exact hletter c hc

theorem withoutMargins_visible (h : ∀ c ∈ cs, 0x20 < c.toNat ∧ c.toNat < 0x7f) : withoutMargins cs = cs := by
  have hascii (c : Char) (hc : c ∈ cs) : asciiOf c = c := if_pos (h c hc).2
  have hmargin (c : Char) (hc : c ∈ cs) : ¬ isMargin c := by
    have hvisible := (h c hc).1
    intro hmargin
    simp only [isMargin, Bool.or_eq_true, Bool.and_eq_true, decide_eq_true_eq, Char.le_def, UInt32.le_iff_toNat_le]
      at hmargin
    rcases hmargin with rfl | ⟨-, hend⟩
    · exact absurd hvisible (by decide)
    · exact absurd (Nat.lt_of_lt_of_le hvisible hend) (by decide)
  have hdrop (ds : List Char) (hds : ∀ c ∈ ds, c ∈ cs) : ds.dropWhile isMargin = ds := by
    cases ds with
    | nil => rfl
    | cons d ds => exact List.dropWhile_cons_of_neg (hmargin d (hds d List.mem_cons_self))
  rw [withoutMargins, (List.map_congr_left hascii).trans (List.map_id' cs), hdrop cs fun _ hc => hc, hdrop cs.reverse fun _ hc => List.mem_reverse.mp hc,
    List.reverse_reverse]

/-- No word in any case begins like a mantissa. -/
theorem lowered_ne_word (hm : m.IsNumeral) (rest : List Char) {d : Char} (hd : isFixed d = false) (ds : List Char) :
    (m.spelling ++ rest).map Char.toLower ≠ d :: ds := by
  obtain ⟨c, cs, hspelling, hc⟩ := Token.numeral_cons hm
  have hlower : isFixed c.toLower := by
    rcases hc with hc | rfl
    · have hrange := isDigit_iff.mp hc
      rw [(toLower_isFixed (by omega)).1]
      simp [isFixed, hc]
    · rfl
  rw [hspelling]
  intro heq
  rw [(List.cons.inj heq).1, hd] at hlower
  cases hlower

theorem NumberText.entireFloat? (h : NumberText number x) : entireFloat? number = some x := by
  have hmargins := withoutMargins_visible h.visible
  unfold Decimal.entireFloat?
  rw [hmargins]
  cases h with
  | infinite hsigned =>
    rw [hsigned.sign_append (by rintro c ⟨⟩; decide)]
    exact if_pos (by decide)
  | @digits signed exponent negative m power hsigned hm hexponent =>
    obtain ⟨hhead, -⟩ := numeral_head hm exponent
    obtain ⟨n, after, hread, hle, heq⟩ := magnitude_reached hm hexponent []
    rw [List.append_nil] at hread
    have hend : (exponentPart after).2 = [] := List.eq_nil_of_length_eq_zero (Nat.le_zero.mp hle)
    obtain ⟨rfl, rfl⟩ := heq (by rw [hend])
    have hinf : (n.spelling ++ exponent).map Char.toLower ≠ "inf".toList := lowered_ne_word hm exponent rfl _
    have hinfinity : (n.spelling ++ exponent).map Char.toLower ≠ "infinity".toList := lowered_ne_word hm exponent rfl _
    have hnan : (n.spelling ++ exponent).map Char.toLower ≠ "nan".toList := lowered_ne_word hm exponent rfl _
    rw [hsigned.sign_append hhead]
    dsimp only
    rw [decide_eq_false hinf, decide_eq_false hinfinity, Bool.false_or, if_neg Bool.false_ne_true, if_neg hnan, hread]
    dsimp only [Option.bind_eq_bind, Option.bind_some]
    rw [hend]
    rfl

theorem trimLeft_visible (h : ∀ c ∈ cs, 0x20 < c.toNat ∧ c.toNat < 0x7f) : trimLeft cs = cs := by
  cases cs with
  | nil => rfl
  | cons c cs =>
    have hvisible := h c List.mem_cons_self
    apply List.dropWhile_cons_of_neg
    simp only [isBlank, Bool.or_eq_true, Bool.and_eq_true, decide_eq_true_eq, beq_iff_eq]
    omega

end Entire

/-- A text converts as the longest number that it begins with, blanks apart, whatever comes after that; the conversion of
the number gives a double. Without a number a text is not a number, and zero for an operand. -/
theorem longest_number_converted (s : String) :
    ((∀ number x, NumberText number x → ¬ number <+: trimLeft s.toList) →
      Value.parseNumber s = notANumber ∧ (Value.text s).toNumber = 0) ∧
    ((∃ number x, NumberText number x ∧ number <+: trimLeft s.toList) →
      ∃ number x, LongestNumber (trimLeft s.toList) number x) ∧
    ∀ number x, LongestNumber (trimLeft s.toList) number x →
      entireFloat? number = some x ∧ Binary.ofFloat x ≠ .nan ∧ Value.parseNumber s = x ∧ (Value.text s).toNumber = x ∧
      Value.parseNumber (String.ofList number) = x ∧
      ∀ (t : String) (y : Float), LongestNumber (trimLeft t.toList) number y →
        Value.parseNumber t = x ∧ (Value.text t).toNumber = x := by
  have hconverted {t : String} {number : List Char} {x : Float} (h : LongestNumber (trimLeft t.toList) number x) :
      leadingNumber? t.toList = some x := by
    obtain ⟨rest, hrest⟩ := h.begins
    rw [leadingNumber?, numeral?_eq_some_iff.mpr ⟨number, hrest.symm, h⟩, Option.map_some]
  have hresult {t : String} {x : Float} (h : leadingNumber? t.toList = some x) :
      Value.parseNumber t = x ∧ (Value.text t).toNumber = x := by
    simp [Value.parseNumber, Value.toNumber, h]
  refine ⟨fun hnone => ?_, ?_, fun number x h => ?_⟩
  · have hread : leadingNumber? s.toList = none := by
      rw [leadingNumber?, numeral?_eq_none_iff.mpr hnone, Option.map_none]
    simp [Value.parseNumber, Value.toNumber, hread]
  · rintro ⟨number, x, hnumber, rest, hrest⟩
    obtain ⟨y, after, hread, -⟩ := hnumber.reached rest
    rw [hrest] at hread
    obtain ⟨longest, -, hlongest⟩ := numeral?_eq_some_iff.mp hread
    exact ⟨longest, y, hlongest⟩
  · have hwhole : LongestNumber (trimLeft (String.ofList number).toList) number x := by
      rw [String.toList_ofList, trimLeft_visible h.reads.visible]
      exact ⟨h.reads, List.prefix_rfl, fun other y _ hother => hother.length_le⟩
    obtain ⟨rest, hrest⟩ := h.begins
    have hfound := hresult (hconverted h)
    refine ⟨h.reads.entireFloat?, numeral?_ne_nan (numeral?_eq_some_iff.mpr ⟨number, hrest.symm, h⟩), hfound.1, hfound.2,
      (hresult (hconverted hwhole)).1, fun t y ht => ?_⟩
    obtain rfl : x = y := Option.some.inj (h.reads.entireFloat?.symm.trans ht.reads.entireFloat?)
    exact hresult (hconverted ht)

/-- Half an exponent changes nothing. -/
theorem half_exponent_left :
    let x := ((⟨['1'], some ['5']⟩ : Mantissa).decimal 0).toFloat true
    LongestNumber (trimLeft "  -1.5e+x".toList) "-1.5".toList x ∧ Value.parseNumber "  -1.5e+x" = x ∧
      Value.parseNumber "-1.5" = x ∧ Value.parseNumber ".e5" = notANumber := by
  intro x
  have hread : numeral? (trimLeft "  -1.5e+x".toList) = some (x, "e+x".toList) := rfl
  obtain ⟨number, hrest, hnumber⟩ := numeral?_eq_some_iff.mp hread
  have hsplit : "-1.5".toList ++ "e+x".toList = number ++ "e+x".toList := hrest
  obtain rfl : "-1.5".toList = number := List.append_cancel_right hsplit
  have hnone : ∀ number x, NumberText number x → ¬ number <+: trimLeft ".e5".toList :=
    numeral?_eq_none_iff.mp rfl
  obtain ⟨-, -, hfound, -, hwhole, -⟩ := (longest_number_converted "  -1.5e+x").2.2 _ x hnumber
  exact ⟨hnumber, hfound, hwhole, ((longest_number_converted ".e5").1 hnone).1⟩

end NoteFormula.Decimal

import NoteFormula.Decimal.NoteText
import NoteFormula.Proofs.ReadNumbers

/-! # Number texts as layouts

The text that always shows a double is cut at its exponent and at its point. Without the zeros at both ends the digits
of the two parts are the significant ones, and the point is where it was. So a note sets them as a layout does, and a
formula as a layout without exponents.
-/
namespace NoteFormula.Decimal

open Text

def Layout.note : Layout where
  positional := some (-5, 21)
  wholeTail := []
  mantissaTail := []
  exponentWidth := 1
  signedZero := false
  nan := "NaN"
  infinity := "Infinity"

def Layout.unfolded : Layout := { Layout.note with positional := none }

section Digits

variable {n mantissa shift : Nat} {cs ds : List Char}

theorem ofDigits_singleton (c : Char) : ofDigits [c] = c.toNat - 48 := by
  simp [ofDigits, Nat.ofDigitChars]

theorem significant_getLast? (h : n ≠ 0) : (significant (decimalDigits n)).getLast? ≠ some '0' := by
  obtain ⟨d, ds, hdigits⟩ := List.exists_cons_of_ne_nil (show decimalDigits n ≠ [] from Nat.toDigits_ne_nil)
  have hleading := decimalDigits_leading h
  unfold significant
  rw [hdigits] at hleading ⊢
  split
  · rename_i hnone
    rw [List.reverse_eq_nil_iff, List.dropWhile_eq_nil_iff] at hnone
    have hd := hnone d (by simp)
    simp_all
  · rw [List.getLast?_reverse]
    intro hzero
    have hhead := List.head?_dropWhile_not (fun c => decide (c = '0')) (d :: ds).reverse
    rw [hzero] at hhead
    simp at hhead

theorem digitChar_toNat {c : Char} (hc : isDigit c) : Nat.digitChar (c.toNat - 48) = c := by
  have hrange := isDigit_iff.mp hc
  apply Char.toNat_inj.mp
  rw [Nat.toNat_digitChar_of_lt_ten (by omega)]
  omega

theorem decimalDigits_ofDigits (hne : cs ≠ []) (hd : ∀ c ∈ cs, isDigit c) (hlead : cs.head? ≠ some '0') :
    0 < ofDigits cs ∧ decimalDigits (ofDigits cs) = cs := by
  induction cs using List.reverseRecOn with
  | nil => exact absurd rfl hne
  | append_singleton init c ih =>
    have hc : isDigit c := hd c (by simp)
    have hrange := isDigit_iff.mp hc
    have hchar := digitChar_toNat hc
    have hvalue : ofDigits (init ++ [c]) = ofDigits init * 10 + (c.toNat - 48) := by
      rw [ofDigits_append, ofDigits_singleton, List.length_singleton, Nat.pow_one]
    by_cases hinit : init = []
    · subst hinit
      have hzero : ofDigits [] = 0 := rfl
      have hne : c.toNat ≠ 48 := fun heq => hlead (by simp [Char.toNat_inj.mp (show c.toNat = '0'.toNat from heq)])
      rw [hvalue, hzero, decimalDigits, Nat.toDigits_of_lt_base (by omega)]
      exact ⟨by omega, by simp [hchar]⟩
    · rw [List.head?_append_of_ne_nil _ hinit] at hlead
      obtain ⟨hpos, hdigits⟩ := ih hinit (fun d hmem => hd d (by simp [hmem])) hlead
      refine ⟨by omega, ?_⟩
      rw [decimalDigits, Nat.toDigits_eq_if (by decide), if_neg (by omega), hvalue,
        show (ofDigits init * 10 + (c.toNat - 48)) / 10 = ofDigits init by omega,
        show (ofDigits init * 10 + (c.toNat - 48)) % 10 = c.toNat - 48 by omega, hchar]
      rw [decimalDigits] at hdigits
      rw [hdigits]

structure IsSignificant (ds : List Char) : Prop where
  nonempty : ds ≠ []
  digits : ∀ c ∈ ds, isDigit c
  first : ds.head? ≠ some '0'
  last : ds.getLast? ≠ some '0'

theorem isSignificant_shortest (h : IsMagnitude mantissa shift) (hne : mantissa ≠ 0) :
    IsSignificant (significant (decimalDigits (shortest mantissa shift).digits)) where
  nonempty := significant_ne_nil _
  digits := significant_isDigit _
  first := shortest_leading h hne
  last := significant_getLast? (shortest_digits_ne_zero h hne)

theorem IsSignificant.significant_append (h : IsSignificant ds) (k : Nat) :
    significant (ds ++ List.replicate k '0') = ds := by
  have hstop : ds.reverse.dropWhile (· = '0') = ds.reverse := by
    obtain ⟨d, rest, hcons⟩ := List.exists_cons_of_ne_nil (mt List.reverse_eq_nil_iff.mp h.nonempty)
    have hd : d ≠ '0' := by
      rintro rfl
      exact h.last (by rw [← List.head?_reverse, hcons, List.head?_cons])
    rw [hcons, List.dropWhile_cons_of_neg (by simpa using hd)]
  unfold significant
  rw [List.reverse_append, List.reverse_replicate, List.dropWhile_append_of_pos (by simp), hstop, List.reverse_reverse]
  cases ds with
  | nil => exact absurd rfl h.nonempty
  | cons => rfl

theorem withoutZeros_cons (hne : cs ≠ []) (point : Int) :
    withoutZeros ('0' :: cs) point = withoutZeros cs (point - 1) := by
  obtain ⟨d, rest, rfl⟩ := List.exists_cons_of_ne_nil hne
  rw [withoutZeros]

/-- Zeros before significant digits are dropped, each with one place of the point. -/
theorem IsSignificant.withoutZeros_append (h : IsSignificant ds) (k : Nat) (rest : List Char) (point : Int) :
    withoutZeros (List.replicate k '0' ++ (ds ++ rest)) (point + k) = (ds ++ rest, point) := by
  induction k with
  | zero =>
    obtain ⟨d, more, rfl⟩ := List.exists_cons_of_ne_nil h.nonempty
    have hd : d ≠ '0' := by
      rintro rfl
      exact h.first rfl
    rw [List.replicate_zero, List.nil_append, Int.natCast_zero, add_zero, List.cons_append]
    unfold withoutZeros
    split
    · rename_i hcons
      exact absurd (List.cons.inj hcons).1 hd
    · rfl
  | succ k ih =>
    rw [List.replicate_succ, List.cons_append, withoutZeros_cons (by simp [h.nonempty]), ← ih]
    congr 1
    push_cast
    omega

end Digits

theorem plain_isPositional (point : Int) : Layout.plain.isPositional point = true ↔ -3 ≤ point ∧ point ≤ 16 := by
  simp [Layout.isPositional, Layout.plain]

theorem note_isPositional (point : Int) : Layout.note.isPositional point = true ↔ -5 ≤ point ∧ point ≤ 21 := by
  simp [Layout.isPositional, Layout.note]

section Cut

variable {L : Layout} {m : Mantissa} {ds : List Char} {point : Int}

theorem Mantissa.Written.spelling_ne (hm : m.Written) : ∀ c ∈ m.spelling, c ≠ 'e' := by
  intro c hc
  have hdigit {cs : List Char} (hcs : ∀ c ∈ cs, isDigit c) (hc : c ∈ cs) : c ≠ 'e' := ne_of_isDigit (hcs c hc) rfl
  rcases m with ⟨whole, _ | fraction⟩
  · exact hdigit hm.whole hc
  · rcases List.mem_append.mp hc with hc | hc
    · exact hdigit hm.whole hc
    · rcases List.mem_cons.mp hc with rfl | hc
      · decide
      · exact hdigit hm.fraction hc

/-- A written mantissa is cut at its point, and the exponent is read apart. -/
theorem Mantissa.Written.parts (hm : m.Written) (power : Option Int) :
    Parts.ofText (m.spelling ++ power.elim [] L.exponentText) = ⟨m.whole, m.fraction.getD [], power.getD 0⟩ := by
  have hexponent : ∀ c ∈ (power.elim [] L.exponentText).head?, ¬ decide (c ≠ 'e') = true := by
    cases power with
    | none => simp
    | some power =>
      rintro c ⟨⟩
      decide
  obtain ⟨htake, hdrop⟩ := run_followed (p := fun c => decide (c ≠ 'e')) (by simpa using hm.spelling_ne) hexponent
  have hpoint : ∀ c ∈ m.whole, decide (c ≠ '.') = true := by
    intro c hc
    exact decide_eq_true (ne_of_isDigit (hm.whole c hc) rfl)
  unfold Parts.ofText
  dsimp only
  rw [htake, hdrop, exponentPart_elim]
  rcases m with ⟨whole, _ | fraction⟩
  · simp only [Mantissa.spelling, Option.getD_none]
    rw [List.takeWhile_eq_self_iff.mpr hpoint, List.dropWhile_eq_nil_iff.mpr hpoint, List.drop_nil]
  · obtain ⟨htake, hdrop⟩ := run_followed hpoint
      (show ∀ c ∈ ('.' :: fraction).head?, ¬ decide (c ≠ '.') = true by simp)
    simp only [Mantissa.spelling, Option.getD_some]
    rw [htake, hdrop, List.drop_one, List.tail_cons]

theorem Mantissa.Written.parts_spelling (hm : m.Written) :
    Parts.ofText m.spelling = ⟨m.whole, m.fraction.getD [], 0⟩ := by
  have hparts := hm.parts (L := .plain) none
  rwa [Option.elim_none, List.append_nil] at hparts

/-- Before an exponent there is one digit, and the others come after the point. -/
theorem IsSignificant.parts_exponential (h : IsSignificant ds) (hpos : Layout.plain.isPositional point = false) :
    ∃ d rest, ds = d :: rest ∧ Parts.ofText (Layout.plain.set ds point) = ⟨[d], rest, point - 1⟩ := by
  have hd := h.digits
  unfold Layout.set
  rw [if_neg (by simp [hpos])]
  match ds, h.nonempty with
  | [d], _ =>
    have hm : Mantissa.Written ⟨[d], none⟩ := ⟨by simp, hd, by simp⟩
    exact ⟨d, [], rfl, hm.parts (L := .plain) (some (point - 1))⟩
  | d :: e :: rest, _ =>
    have hm : Mantissa.Written ⟨[d], some (e :: rest)⟩ :=
      ⟨by simp, by simpa using hd d (by simp), fun c hc => hd c (List.mem_cons_of_mem d hc)⟩
    exact ⟨d, e :: rest, rfl, hm.parts (L := .plain) (some (point - 1))⟩

/-- Wherever the point stands, the parts have the significant digits with zeros around them, and their point is the same
but for the zeros in front. -/
theorem IsSignificant.parts_set (h : IsSignificant ds) (point : Int) : ∃ (parts : Parts) (before after : Nat),
    Parts.ofText (Layout.plain.set ds point) = parts ∧
      parts.whole ++ parts.fraction = List.replicate before '0' ++ (ds ++ List.replicate after '0') ∧
      (parts.whole.length : Int) + parts.power = point + before := by
  have hd := h.digits
  cases hpos : Layout.plain.isPositional point with
  | false =>
    obtain ⟨d, rest, hcons, hparts⟩ := h.parts_exponential hpos
    exact ⟨_, 0, 0, hparts, by simp [hcons], by simp⟩
  | true =>
    by_cases hwhole : (ds.length : Int) ≤ point
    · have hm : Mantissa.Written ⟨ds ++ List.replicate (point - ds.length).toNat '0', some ['0']⟩ :=
        ⟨by simp [h.nonempty], List.forall_mem_append.mpr ⟨hd, zeros_isDigit _⟩, List.forall_mem_singleton.mpr rfl⟩
      rw [Layout.set_whole hpos hwhole]
      refine ⟨_, 0, (point - ds.length).toNat + 1, hm.parts_spelling, by simp [List.replicate_succ'], ?_⟩
      simp only [List.length_append, List.length_replicate]
      omega
    · by_cases hpoint : 0 < point
      · have hm : Mantissa.Written ⟨ds.take point.toNat, some (ds.drop point.toNat)⟩ := by
          refine ⟨?_, fun c hc => hd c (List.mem_of_mem_take hc), fun c hc => hd c (List.mem_of_mem_drop hc)⟩
          simp [h.nonempty]
          omega
        rw [Layout.set_between hpos (by omega) hpoint]
        refine ⟨_, 0, 0, hm.parts_spelling, by simp, ?_⟩
        simp only [List.length_take]
        omega
      · have hm : Mantissa.Written ⟨['0'], some (List.replicate (-point).toNat '0' ++ ds)⟩ :=
          ⟨by simp, List.forall_mem_singleton.mpr rfl, List.forall_mem_append.mpr ⟨zeros_isDigit _, hd⟩⟩
        rw [Layout.set_below hpos h.nonempty (by omega)]
        refine ⟨_, (-point).toNat + 1, 0, hm.parts_spelling, by simp [List.replicate_succ], ?_⟩
        simp only [List.length_singleton]
        omega

end Cut

section Note

variable {ds : List Char} {x : Float} {negative : Bool} {mantissa shift : Nat}

theorem padLeft_one (n : Nat) : padLeft 1 (decimalDigits n) = decimalDigits n := by
  have hpos : 0 < (decimalDigits n).length := Nat.length_toDigits_pos
  rw [padLeft, show 1 - (decimalDigits n).length = 0 by omega, List.replicate_zero, List.nil_append]

theorem note_exponentText (power : Int) :
    Layout.note.exponentText power = 'e' :: (if 0 ≤ power then '+' else '-') :: decimalDigits power.natAbs := by
  change 'e' :: (if power < 0 then '-' else '+') :: padLeft 1 _ = _
  rw [padLeft_one]
  by_cases hpower : 0 ≤ power
  · rw [if_pos hpower, if_neg (by omega)]
  · rw [if_neg hpower, if_pos (by omega)]

/-- The four ways in which a note sets digits are those of its layout. -/
theorem setInNote_eq_set (hne : ds ≠ []) (point : Int) : setInNote ds point = Layout.note.set ds point := by
  have hlength : 0 < ds.length := List.length_pos_of_ne_nil hne
  have hpositional := note_isPositional point
  unfold setInNote
  dsimp only
  by_cases hpos : Layout.note.isPositional point = true
  · obtain ⟨hleast, hgreatest⟩ := hpositional.mp hpos
    by_cases hwhole : (ds.length : Int) ≤ point
    · rw [Layout.set_whole hpos hwhole, if_pos ⟨hwhole, hgreatest⟩]
      exact (List.append_nil _).symm
    · rw [if_neg (by omega)]
      by_cases hpoint : 0 < point
      · rw [Layout.set_between hpos (by omega) hpoint, if_pos ⟨hpoint, hgreatest⟩]
      · rw [Layout.set_below hpos hne (by omega), if_neg (by omega), if_pos (by omega)]
  · have hfar : ¬ (-5 ≤ point ∧ point ≤ 21) := mt hpositional.mpr hpos
    unfold Layout.set
    rw [if_neg (by omega), if_neg (by omega), if_neg (by omega), if_neg hpos]
    match ds, hne with
    | [d], _ => rw [note_exponentText]; rfl
    | d :: e :: rest, _ => rw [note_exponentText]

theorem Layout.write_set (L : Layout) (hx : Binary.ofFloat x = .finite negative mantissa shift) (hne : mantissa ≠ 0) :
    L.write x = (if negative then ['-'] else []) ++
      L.set (significant (decimalDigits (shortest mantissa shift).digits)) (shortest mantissa shift).point := by
  have hnonzero : (mantissa != 0) = true := bne_iff_ne.mpr hne
  rw [L.write_finite hx, hnonzero, Bool.or_true, Bool.and_true]
  rfl

theorem Layout.write_zero (L : Layout) (hL : L.signedZero = false) (hx : Binary.ofFloat x = .finite negative 0 shift) :
    L.write x = L.decimal ⟨0, 0⟩ := by
  have hshortest : shortest 0 shift = ⟨0, 0⟩ := by simp [shortest]
  rw [L.write_finite hx, hL, hshortest, bne_self_eq_false, Bool.or_false, Bool.and_false]
  rfl

/-- A note writes every double as its layout does. -/
theorem noteText_eq_write (x : Float) : noteText x = Layout.note.write x := by
  unfold noteText
  cases hx : Binary.ofFloat x with
  | nan =>
    unfold Layout.write
    rw [hx]
    rfl
  | infinite negative =>
    unfold Layout.write
    rw [hx]
    cases negative <;> rfl
  | finite negative mantissa shift =>
    by_cases hzero : mantissa = 0
    · subst hzero
      exact (Layout.note.write_zero rfl hx).symm
    · have hsignificant := isSignificant_shortest (ofFloat_finite hx).1 hzero
      have hmagnitude : Binary.ofFloat (if negative then -x else x) = .finite false mantissa shift := by
        cases negative with
        | false => exact hx
        | true => exact (neg_finite hx).1
      have hplain := Layout.plain.write_set hmagnitude hzero
      obtain ⟨parts, before, after, hparts, hdigits, hpoint⟩ := hsignificant.parts_set (shortest mantissa shift).point
      dsimp only
      rw [if_neg hzero, hplain, Layout.note.write_set hx hzero, if_neg Bool.false_ne_true, List.nil_append, hparts,
        hdigits, hpoint, hsignificant.withoutZeros_append]
      dsimp only
      rw [hsignificant.significant_append, setInNote_eq_set hsignificant.nonempty]

end Note

section Formula

variable {ds : List Char} {x : Float} {negative : Bool} {mantissa shift : Nat}

theorem IsSignificant.spread_eq_set (h : IsSignificant ds) (point : Int) :
    spread ⟨ofDigits ds, point - ds.length⟩ = Layout.unfolded.set ds point := by
  have hlength : 0 < ds.length := List.length_pos_of_ne_nil h.nonempty
  have hscaled : ofDigits ds * pow10 (point - ds.length).toNat =
      ofDigits (ds ++ List.replicate (point - ds.length).toNat '0') := by
    rw [ofDigits_append, ofDigits_replicate_zero, List.length_replicate, Nat.add_zero, pow10_eq]
  have hback : decimalDigits (ofDigits (ds ++ List.replicate (point - ds.length).toNat '0')) =
      ds ++ List.replicate (point - ds.length).toNat '0' := by
    refine (decimalDigits_ofDigits (by simp [h.nonempty]) (List.forall_mem_append.mpr ⟨h.digits, zeros_isDigit _⟩) ?_).2
    rw [List.head?_append_of_ne_nil _ h.nonempty]
    exact h.first
  unfold spread
  dsimp only
  rw [hscaled, hback]
  by_cases hwhole : (ds.length : Int) ≤ point
  · rw [if_pos (by omega), Layout.set_whole rfl hwhole]
    exact (List.append_nil _).symm
  · have hnone : (point - ds.length).toNat = 0 := by omega
    rw [hnone, List.replicate_zero, List.append_nil, if_neg (by omega)]
    by_cases hpoint : 0 < point
    · rw [if_pos (by omega), Layout.set_between rfl (by omega) hpoint,
        show ds.length - (-(point - ds.length)).toNat = point.toNat by omega]
    · rw [if_neg (by omega), Layout.set_below rfl h.nonempty (by omega),
        show (-(point - ds.length)).toNat - ds.length = (-point).toNat by omega]

theorem numeric_plain : Layout.plain.Numeric := ⟨Or.inr rfl, Or.inl rfl⟩

theorem bare_note : Layout.note.Bare := ⟨rfl, rfl⟩

/-- A note's digits show by the letter alone whether an exponent follows. -/
theorem IsSignificant.mem_note_set (h : IsSignificant ds) (point : Int) :
    'e' ∈ Layout.note.set ds point ↔ Layout.note.isPositional point = false := by
  obtain ⟨m, hm, hshows, -⟩ := Layout.set_shows bare_note.numeric h.nonempty h.digits point
  have hmantissa : 'e' ∉ m.spelling := fun he => hm.spelling_ne _ he rfl
  rw [hshows.spelling, List.mem_append, Layout.powerAt]
  cases Layout.note.isPositional point <;> simp [hmantissa, Layout.exponentText]

/-- With an exponent the text that always shows a double is spread out to its digits. -/
theorem IsSignificant.spreadText_set (h : IsSignificant ds) {point : Int}
    (hpos : Layout.plain.isPositional point = false) (negative : Bool) :
    spreadText ((if negative then ['-'] else []) ++ Layout.plain.set ds point) =
      (if negative then ['-'] else []) ++ Layout.unfolded.set ds point := by
  obtain ⟨m, hm, hshows, -⟩ := Layout.set_shows numeric_plain h.nonempty h.digits point
  obtain ⟨d, rest, hcons, hparts⟩ := h.parts_exponential hpos
  have hdecimal : ofParts [d] rest (point - 1) = ⟨ofDigits ds, point - ds.length⟩ := by
    rw [ofParts, hcons, List.singleton_append, List.length_cons]
    congr 1
    push_cast
    omega
  have hsign : sign ((if negative then ['-'] else []) ++ Layout.plain.set ds point) =
      (negative, Layout.plain.set ds point) := by
    rw [hshows.spelling]
    exact sign_signed hm.toWritten negative
  unfold spreadText
  rw [hsign]
  dsimp only
  rw [hparts, hdecimal, h.spread_eq_set]

/-- A formula writes every finite double as its layout does. -/
theorem formulaText_eq_write (hx : Binary.ofFloat x = .finite negative mantissa shift) :
    formulaText x = Layout.unfolded.write x := by
  unfold formulaText
  dsimp only
  rw [noteText_eq_write]
  by_cases hzero : mantissa = 0
  · subst hzero
    rw [Layout.note.write_zero rfl hx, Layout.unfolded.write_zero rfl hx]
    rfl
  have hsignificant := isSignificant_shortest (ofFloat_finite hx).1 hzero
  have hmem : 'e' ∈ Layout.note.write x ↔ Layout.note.isPositional (shortest mantissa shift).point = false := by
    rw [Layout.note.write_set hx hzero, List.mem_append, hsignificant.mem_note_set]
    cases negative <;> simp
  cases hpos : Layout.note.isPositional (shortest mantissa shift).point with
  | true =>
    rw [if_neg (by simp [hmem, hpos]), Layout.note.write_set hx hzero, Layout.unfolded.write_set hx hzero]
    unfold Layout.set
    rw [if_pos hpos]
    rfl
  | false =>
    -- The text that always shows a double comes to its exponents earlier than a note does.
    have hfar : Layout.plain.isPositional (shortest mantissa shift).point = false := by
      rw [Bool.eq_false_iff, ne_eq, plain_isPositional]
      rw [Bool.eq_false_iff, ne_eq, note_isPositional] at hpos
      omega
    rw [if_pos (hmem.mpr hpos), Layout.plain.write_set hx hzero, Layout.unfolded.write_set hx hzero,
      hsignificant.spreadText_set hfar]

/-- What is written for a finite double that is not negative is the mantissa of a numeral for it. -/
theorem unfolded_write {x : Float} {mantissa shift : Nat} (h : Binary.ofFloat x = .finite false mantissa shift) :
    ∃ m : Mantissa, m.Written ∧ m.spelling = Layout.unfolded.write x ∧ (m.decimal 0).toFloat false = x := by
  obtain ⟨m, power, text, hwrite, hm, hshows, hback⟩ := Layout.write_shows (L := .unfolded) ⟨Or.inl rfl, Or.inl rfl⟩ h
  obtain rfl := hshows.positional rfl
  have hspelling := hshows.spelling
  rw [Option.elim_none, List.append_nil] at hspelling
  exact ⟨m, hm.toWritten, by rw [hwrite, hspelling]; rfl, hback⟩

end Formula

end NoteFormula.Decimal

import NoteFormula.Decimal.Layout
import NoteFormula.Decimal.Numeral
import NoteFormula.Proofs.DecimalValues

/-! # Written numbers

Digits are set as a mantissa of the decimal's value, with an exponent where the layout asks for one. So what is
written for a finite double, in any layout, is a numeral of that double.
-/
namespace NoteFormula.Decimal

theorem ofDigits_append (ds es : List Char) :
    Text.ofDigits (ds ++ es) = Text.ofDigits ds * 10 ^ es.length + Text.ofDigits es := by
  unfold Text.ofDigits
  rw [Nat.ofDigitChars_append, Nat.ofDigitChars_eq_ofDigitChars_zero, Nat.mul_comm]

theorem ofDigits_replicate_zero (k : Nat) : Text.ofDigits (List.replicate k '0') = 0 :=
  Nat.ofDigitChars_replicate_zero

theorem significant_append {ds : List Char} (h : ds ≠ []) :
    ∃ k, ds = significant ds ++ List.replicate k '0' := by
  obtain ⟨k, hzeros⟩ : ∃ k, ds.reverse.takeWhile (· = '0') = List.replicate k '0' := by
    refine ⟨_, List.eq_replicate_of_mem fun c hc => ?_⟩
    exact of_decide_eq_true (List.all_eq_true.mp List.all_takeWhile c hc)
  have hcut : ds = (ds.reverse.dropWhile (· = '0')).reverse ++ List.replicate k '0' := by
    rw [← List.reverse_inj, List.reverse_append, List.reverse_reverse, List.reverse_replicate, ← hzeros,
      List.takeWhile_append_dropWhile]
  unfold significant
  split
  · rename_i hnone
    rw [hnone, List.nil_append] at hcut
    cases k with
    | zero => exact absurd hcut h
    | succ k => exact ⟨k, hcut⟩
  · exact ⟨k, hcut⟩

theorem significant_ne_nil (ds : List Char) : significant ds ≠ [] := by
  unfold significant
  split
  · exact List.cons_ne_nil _ _
  · assumption

structure Mantissa.Written (m : Mantissa) : Prop where
  nonempty : m.whole ≠ []
  whole : ∀ c ∈ m.whole, Text.isDigit c
  fraction : ∀ c ∈ m.fraction.getD [], Text.isDigit c

/-- A mantissa that digits are set as: a point has digits on both sides, and a zero that is put in front of the
digits is the only one before the point. -/
structure Mantissa.Sets (m : Mantissa) (ds : List Char) : Prop extends m.Written where
  point : m.fraction ≠ some []
  leading : m.whole = ['0'] ∨ m.whole.head? = ds.head?

structure Mantissa.Plain (m : Mantissa) : Prop extends m.Written where
  point : m.fraction ≠ some []
  leading : m.whole = ['0'] ∨ m.whole.head? ≠ some '0'

def Mantissa.Closes (m : Mantissa) (ds : List Char) : Prop := ∀ fraction ∈ m.fraction, fraction.getLast? = ds.getLast?

theorem Mantissa.Sets.plain {m : Mantissa} {ds : List Char} (hm : m.Sets ds) (hd : ds.head? ≠ some '0') : m.Plain where
  toWritten := hm.toWritten
  point := hm.point
  leading := hm.leading.imp_right fun h => by rwa [h]

def IsTail (tail : List Char) : Prop := tail = [] ∨ tail = ['.', '0']

structure Layout.Numeric (L : Layout) : Prop where
  whole : IsTail L.wholeTail
  mantissa : IsTail L.mantissaTail

structure Layout.Bare (L : Layout) : Prop where
  whole : L.wholeTail = []
  mantissa : L.mantissaTail = []

theorem Layout.Bare.numeric {L : Layout} (h : L.Bare) : L.Numeric := ⟨Or.inl h.whole, Or.inl h.mantissa⟩

def Layout.powerAt (L : Layout) (point : Int) : Option Int := if L.isPositional point then none else some (point - 1)

/-- The text shows the decimal by a mantissa, with an exponent in some places. A layout that writes a tail after whole
numbers never shows a number by digits alone. -/
structure Layout.Shows (L : Layout) (text : List Char) (d : Decimal) (m : Mantissa) (power : Option Int) : Prop where
  spelling : text = m.spelling ++ power.elim [] L.exponentText
  marked : L.wholeTail ≠ [] → m.fraction = none → power ≠ none
  positional : L.positional = none → power = none
  value : (m.decimal (power.getD 0)).value = d.value

section Setting

variable {L : Layout} {ds whole tail : List Char} {point : Int}

theorem Layout.Shows.of_mantissa {m : Mantissa} {text : List Char} {d : Decimal} (hspelling : text = m.spelling)
    (hfraction : L.wholeTail ≠ [] → m.fraction ≠ none) (hvalue : (m.decimal 0).value = d.value) :
    L.Shows text d m none where
  spelling := by rw [hspelling, Option.elim_none, List.append_nil]
  marked htail hnone := absurd hnone (hfraction htail)
  positional _ := rfl
  value := hvalue

theorem Layout.Shows.of_power {m : Mantissa} {text : List Char} {d : Decimal} {power : Int}
    (hpos : L.isPositional point = false) (hspelling : text = m.spelling ++ L.exponentText power)
    (hvalue : (m.decimal power).value = d.value) : L.Shows text d m (some power) where
  spelling := hspelling
  marked _ _ := Option.some_ne_none power
  positional hall := by
    rw [isPositional, hall] at hpos
    cases hpos
  value := hvalue

theorem Layout.Shows.of_value {m : Mantissa} {text : List Char} {d e : Decimal} {power : Option Int}
    (h : L.Shows text d m power) (hvalue : d.value = e.value) : L.Shows text e m power :=
  { h with value := h.value.trans hvalue }

theorem decimalDigits_isDigit {n : Nat} : ∀ c ∈ Text.decimalDigits n, Text.isDigit c :=
  fun _ hc => Nat.isDigit_of_mem_toDigits (by decide) (by decide) hc

theorem zeros_isDigit (n : Nat) : ∀ c ∈ List.replicate n '0', Text.isDigit c := by
  intro c hc
  rw [List.eq_of_mem_replicate hc]
  rfl

theorem tailed_mantissa (ht : IsTail tail) (hne : whole ≠ []) (hd : ∀ c ∈ whole, Text.isDigit c) :
    ∃ m : Mantissa, m.Written ∧ m.whole = whole ∧ m.fraction ≠ some [] ∧ m.spelling = whole ++ tail ∧
      (m.fraction = none ↔ tail = []) ∧ ∀ e, (m.decimal e).value = value ⟨Text.ofDigits whole, e⟩ := by
  rcases ht with rfl | rfl
  · refine ⟨⟨whole, none⟩, ⟨hne, hd, by simp⟩, rfl, by simp, (List.append_nil _).symm, by simp, fun e => ?_⟩
    simp [Mantissa.decimal, ofParts]
  · refine ⟨⟨whole, some ['0']⟩, ⟨hne, hd, ?_⟩, rfl, by simp, rfl, by simp, fun e => ?_⟩
    · exact List.forall_mem_singleton.mpr rfl
    · have hzero : Text.ofDigits ['0'] = 0 := rfl
      have hshift := value_shift (Text.ofDigits whole) 1 (e - 1)
      rw [Nat.cast_one, sub_add_cancel] at hshift
      simpa [Mantissa.decimal, ofParts, ofDigits_append, hzero] using hshift

theorem Layout.set_whole (hpos : L.isPositional point = true) (h : ds.length ≤ point) :
    L.set ds point = ds ++ List.replicate (point - ds.length).toNat '0' ++ L.wholeTail := by
  unfold Layout.set
  rw [if_pos hpos, if_pos h]

theorem Layout.set_between (hpos : L.isPositional point = true) (h : point < ds.length) (hpoint : 0 < point) :
    L.set ds point = ds.take point.toNat ++ '.' :: ds.drop point.toNat := by
  unfold Layout.set
  rw [if_pos hpos, if_neg (by omega), if_pos hpoint]

theorem Layout.set_below (hpos : L.isPositional point = true) (hne : ds ≠ []) (hpoint : point ≤ 0) :
    L.set ds point = '0' :: '.' :: List.replicate (-point).toNat '0' ++ ds := by
  have hlength : 0 < ds.length := List.length_pos_of_ne_nil hne
  unfold Layout.set
  rw [if_pos hpos, if_neg (by omega), if_neg (by omega)]

/-- Without an exponent zeros are added at the end or in front, or the point stands between two digits. -/
theorem Layout.set_positional (hL : IsTail L.wholeTail) (hpos : L.isPositional point) (hne : ds ≠ [])
    (hd : ∀ c ∈ ds, Text.isDigit c) : ∃ m : Mantissa, m.Sets ds ∧
      L.Shows (L.set ds point) ⟨Text.ofDigits ds, point - ds.length⟩ m none ∧ (L.wholeTail = [] → m.Closes ds) := by
  by_cases hwhole : (ds.length : Int) ≤ point
  · rw [set_whole hpos hwhole]
    generalize hzeros : (point - ds.length).toNat = zeros
    obtain ⟨m, hm, hdigits, hpoint, hspelling, hfraction, hvalue⟩ := tailed_mantissa hL
      (show ds ++ List.replicate zeros '0' ≠ [] by simp [hne]) (List.forall_mem_append.mpr ⟨hd, zeros_isDigit zeros⟩)
    have hleading : m.whole.head? = ds.head? := by rw [hdigits, List.head?_append_of_ne_nil _ hne]
    refine ⟨m, ⟨hm, hpoint, Or.inr hleading⟩, .of_mantissa hspelling.symm (mt hfraction.mp) ((hvalue 0).trans ?_),
      fun htail => by simp [Mantissa.Closes, hfraction.mpr htail]⟩
    rw [ofDigits_append, ofDigits_replicate_zero, Nat.add_zero, List.length_replicate, value_shift]
    congr 2
    omega
  by_cases hpoint : 0 < point
  · rw [set_between hpos (by omega) hpoint]
    refine ⟨⟨ds.take point.toNat, some (ds.drop point.toNat)⟩, ⟨⟨?_, ?_, ?_⟩, ?_, Or.inr ?_⟩,
      .of_mantissa rfl (by simp) ?_, ?_⟩
    · simp [hne]
      omega
    · exact fun c hc => hd c (List.mem_of_mem_take hc)
    · exact fun c hc => hd c (List.mem_of_mem_drop hc)
    · simp
      omega
    · exact List.head?_take.trans (if_neg (by omega))
    · simp only [Mantissa.decimal, ofParts, Option.getD_some, List.take_append_drop, List.length_drop]
      congr 2
      omega
    · rintro - fraction ⟨⟩
      rw [List.getLast?_drop, if_neg (by omega)]
  · rw [set_below hpos hne (by omega)]
    refine ⟨⟨['0'], some (List.replicate (-point).toNat '0' ++ ds)⟩, ⟨⟨?_, ?_, ?_⟩, ?_, Or.inl rfl⟩,
      .of_mantissa rfl (by simp) ?_, ?_⟩
    · exact List.cons_ne_nil _ _
    · exact List.forall_mem_singleton.mpr rfl
    · exact List.forall_mem_append.mpr ⟨zeros_isDigit _, hd⟩
    · simp [hne]
    · have hlead : Text.ofDigits ['0'] = 0 := rfl
      simp only [Mantissa.decimal, ofParts, Option.getD_some, ofDigits_append, ofDigits_replicate_zero, hlead,
        Nat.zero_mul, Nat.zero_add, List.length_append, List.length_replicate]
      congr 2
      omega
    · rintro - fraction ⟨⟩
      exact List.getLast?_append_of_ne_nil _ hne

/-- With an exponent the point stands after the first digit. -/
theorem Layout.set_exponential (hL : IsTail L.mantissaTail) (hpos : L.isPositional point = false) (hne : ds ≠ [])
    (hd : ∀ c ∈ ds, Text.isDigit c) : ∃ m : Mantissa, m.Sets ds ∧
      L.Shows (L.set ds point) ⟨Text.ofDigits ds, point - ds.length⟩ m (some (point - 1)) ∧
        (L.mantissaTail = [] → m.Closes ds) := by
  unfold Layout.set
  rw [if_neg (by rw [hpos]; decide)]
  match ds with
  | [] => exact absurd rfl hne
  | [d] =>
    obtain ⟨m, hm, hdigits, hpoint, hspelling, hfraction, hvalue⟩ := tailed_mantissa hL hne hd
    exact ⟨m, ⟨hm, hpoint, Or.inr (by rw [hdigits])⟩, .of_power hpos (by rw [hspelling]; rfl) (hvalue _),
      fun htail => by simp [Mantissa.Closes, hfraction.mpr htail]⟩
  | d :: e :: es =>
    refine ⟨⟨[d], some (e :: es)⟩, ⟨⟨by simp, ?_, ?_⟩, by simp, Or.inr rfl⟩, .of_power hpos rfl ?_, ?_⟩
    · exact List.forall_mem_singleton.mpr (hd d List.mem_cons_self)
    · exact fun c hc => hd c (List.mem_cons_of_mem d hc)
    · simp only [Mantissa.decimal, ofParts, Option.getD_some, List.singleton_append, List.length_cons]
      congr 2
      push_cast
      omega
    · rintro - fraction ⟨⟩
      exact List.getLast?_cons_cons.symm

/-- Digits are set as a mantissa of their value, with the power of ten that belongs to the place of the point. -/
theorem Layout.set_shows (hL : L.Numeric) (hne : ds ≠ []) (hd : ∀ c ∈ ds, Text.isDigit c) (point : Int) :
    ∃ m : Mantissa, m.Sets ds ∧ L.Shows (L.set ds point) ⟨Text.ofDigits ds, point - ds.length⟩ m (L.powerAt point) ∧
      (L.Bare → m.Closes ds) := by
  unfold powerAt
  cases hpos : L.isPositional point with
  | true =>
    obtain ⟨m, hm, hshows, hcloses⟩ := set_positional hL.whole hpos hne hd
    exact ⟨m, hm, hshows, fun hbare => hcloses hbare.whole⟩
  | false =>
    obtain ⟨m, hm, hshows, hcloses⟩ := set_exponential hL.mantissa hpos hne hd
    exact ⟨m, hm, hshows, fun hbare => hcloses hbare.mantissa⟩

end Setting

def point (d : Decimal) : Int := (Text.decimalDigits d.digits).length + d.exponent

theorem significant_isDigit (n : Nat) : ∀ c ∈ significant (Text.decimalDigits n), Text.isDigit c := by
  intro c hc
  obtain ⟨k, hk⟩ := significant_append (show Text.decimalDigits n ≠ [] from Nat.toDigits_ne_nil)
  refine decimalDigits_isDigit (n := n) c ?_
  rw [hk]
  exact List.mem_append_left _ hc

section Writing

variable {L : Layout} (hL : L.Numeric)
include hL

theorem Layout.decimal_shows (d : Decimal) : ∃ m : Mantissa, m.Sets (significant (Text.decimalDigits d.digits)) ∧
    L.Shows (L.decimal d) d m (L.powerAt d.point) ∧ (L.Bare → m.Closes (significant (Text.decimalDigits d.digits))) := by
  have hne : Text.decimalDigits d.digits ≠ [] := Nat.toDigits_ne_nil
  obtain ⟨k, hk⟩ := significant_append hne
  have hvalue : value ⟨Text.ofDigits (significant (Text.decimalDigits d.digits)),
      (Text.decimalDigits d.digits).length + d.exponent - (significant (Text.decimalDigits d.digits)).length⟩ =
        d.value := by
    have hread : Text.ofDigits (Text.decimalDigits d.digits) = d.digits := Nat.ofDigitChars_ten_toDigits
    have hlength := congrArg List.length hk
    rw [hk, ofDigits_append, ofDigits_replicate_zero, List.length_replicate, Nat.add_zero] at hread
    rw [List.length_append, List.length_replicate] at hlength
    calc
      _ = value ⟨Text.ofDigits (significant (Text.decimalDigits d.digits)), d.exponent + k⟩ := by
        congr 2
        omega
      _ = d.value := by rw [← value_shift, hread]
  obtain ⟨m, hm, hshows, hcloses⟩ := set_shows hL (significant_ne_nil _) (significant_isDigit _) d.point
  exact ⟨m, hm, hshows.of_value hvalue, hcloses⟩

/-- A zero is set as one digit, in front of whatever the layout writes after it. -/
theorem Layout.zero_shows : ∃ (m : Mantissa) (power : Option Int), m.Plain ∧ L.Shows (L.set ['0'] 1) ⟨0, 0⟩ m power := by
  have hdigit : ∀ c ∈ ['0'], Text.isDigit c := List.forall_mem_singleton.mpr rfl
  have hzero (e : Int) : value ⟨Text.ofDigits ['0'], e⟩ = value ⟨0, 0⟩ := by
    have hnone : Text.ofDigits ['0'] = 0 := rfl
    simp [value, hnone]
  unfold Layout.set
  cases hpos : L.isPositional 1 with
  | true =>
    obtain ⟨m, hm, hdigits, hpoint, hspelling, hfraction, hvalue⟩ := tailed_mantissa hL.whole (by simp) hdigit
    exact ⟨m, none, ⟨hm, hpoint, Or.inl hdigits⟩, .of_mantissa hspelling.symm (mt hfraction.mp)
      ((hvalue 0).trans (hzero 0))⟩
  | false =>
    obtain ⟨m, hm, hdigits, hpoint, hspelling, -, hvalue⟩ := tailed_mantissa hL.mantissa (by simp) hdigit
    refine ⟨m, some 0, ⟨hm, hpoint, Or.inl hdigits⟩, .of_power hpos ?_ ((hvalue _).trans (hzero _))⟩
    rw [hspelling]
    rfl

end Writing

theorem decimalDigits_leading {n : Nat} (h : n ≠ 0) : (Text.decimalDigits n).head? ≠ some '0' := by
  induction n using Nat.strongRecOn with
  | _ n ih =>
    rw [Text.decimalDigits, Nat.toDigits_eq_if (by decide)]
    split
    · simpa [Nat.digitChar_eq_zero] using h
    · rw [List.head?_append_of_ne_nil _ Nat.toDigits_ne_nil]
      exact ih (n / 10) (by omega) (by omega)

theorem shortest_digits_ne_zero {mantissa shift : Nat} (h : IsMagnitude mantissa shift) (hne : mantissa ≠ 0) :
    (shortest mantissa shift).digits ≠ 0 := by
  intro hzero
  have hcode := shortest_code h
  rw [code, if_pos hzero] at hcode
  omega

/-- Only zero is written with a zero in front. -/
theorem shortest_leading {mantissa shift : Nat} (h : IsMagnitude mantissa shift) (hne : mantissa ≠ 0) :
    (significant (Text.decimalDigits (shortest mantissa shift).digits)).head? ≠ some '0' := by
  have hdigits := shortest_digits_ne_zero h hne
  obtain ⟨k, hk⟩ := significant_append (show Text.decimalDigits (shortest mantissa shift).digits ≠ [] from
    Nat.toDigits_ne_nil)
  rw [← List.head?_append_of_ne_nil _ (significant_ne_nil _), ← hk]
  exact decimalDigits_leading hdigits

theorem Layout.write_finite (L : Layout) {x : Float} {negative : Bool} {mantissa shift : Nat}
    (h : Binary.ofFloat x = .finite negative mantissa shift) :
    L.write x = (if negative && (L.signedZero || mantissa != 0) then ['-'] else []) ++
      L.decimal (shortest mantissa shift) := by
  unfold write
  rw [h]
  dsimp only
  split <;> rfl

/-- What is written for a finite double is a sign, unless it is a zero's, and a numeral of that double. -/
theorem Layout.write_shows {L : Layout} (hL : L.Numeric) {x : Float} {negative : Bool} {mantissa shift : Nat}
    (h : Binary.ofFloat x = .finite negative mantissa shift) : ∃ (m : Mantissa) (power : Option Int) (text : List Char),
      L.write x = (if negative && (L.signedZero || mantissa != 0) then ['-'] else []) ++ text ∧ m.Plain ∧
        L.Shows text (shortest mantissa shift) m power ∧ (m.decimal (power.getD 0)).toFloat negative = x := by
  obtain ⟨hmagnitude, hback⟩ := ofFloat_finite h
  obtain ⟨m, power, hm, hshows⟩ : ∃ (m : Mantissa) (power : Option Int), m.Plain ∧
      L.Shows (L.decimal (shortest mantissa shift)) (shortest mantissa shift) m power := by
    by_cases hzero : mantissa = 0
    · have hshortest : shortest mantissa shift = ⟨0, 0⟩ := by simp [shortest, hzero]
      rw [hshortest]
      exact zero_shows hL
    · obtain ⟨m, hm, hshows, -⟩ := decimal_shows hL (shortest mantissa shift)
      exact ⟨m, _, hm.plain (shortest_leading hmagnitude hzero), hshows⟩
  refine ⟨m, power, _, L.write_finite h, hm, hshows, ?_⟩
  rw [toFloat, code_of_value hshows.value, shortest_code hmagnitude, hback]

theorem Mantissa.Written.spelling_cons {m : Mantissa} (hm : m.Written) :
    ∃ c cs, m.spelling = c :: cs ∧ Text.isDigit c := by
  obtain ⟨c, cs, hwhole⟩ := List.exists_cons_of_ne_nil hm.nonempty
  have hdigit := hm.whole c (hwhole ▸ List.mem_cons_self)
  unfold spelling
  split
  · exact ⟨c, _, by rw [hwhole, List.cons_append], hdigit⟩
  · exact ⟨c, cs, hwhole, hdigit⟩

theorem run_followed {p : Char → Bool} {cs rest : List Char} (hcs : ∀ c ∈ cs, p c) (hr : ∀ c ∈ rest.head?, ¬ p c) :
    (cs ++ rest).takeWhile p = cs ∧ (cs ++ rest).dropWhile p = rest := by
  rw [List.takeWhile_append_of_pos hcs, List.dropWhile_append_of_pos hcs]
  cases rest with
  | nil => simp
  | cons c rest =>
    have hc := hr c rfl
    rw [List.takeWhile_cons_of_neg hc, List.dropWhile_cons_of_neg hc, List.append_nil]
    exact ⟨rfl, rfl⟩

/-- A written mantissa is read whole if neither a digit nor a point comes after it. -/
theorem Mantissa.Written.read?_spelling {m : Mantissa} (hm : m.Written) {rest : List Char}
    (hr : ∀ c ∈ rest.head?, ¬ Text.isDigit c ∧ c ≠ '.') : Mantissa.read? (m.spelling ++ rest) = some (m, rest) := by
  have hdigit : ∀ c ∈ rest.head?, ¬ Text.isDigit c := fun c hc => (hr c hc).1
  have hsome : m.whole.isEmpty = false := by simp [hm.nonempty]
  rcases m with ⟨whole, _ | fraction⟩
  · obtain ⟨htake, hdrop⟩ := run_followed hm.whole hdigit
    unfold read? spelling
    dsimp only at htake hdrop hsome ⊢
    rw [htake, hdrop, hsome]
    split
    · rename_i after hafter
      exact absurd rfl (hr '.' rfl).2
    · rfl
  · have hpoint : ∀ c ∈ ('.' :: (fraction ++ rest)).head?, ¬ Text.isDigit c := by
      rintro c ⟨⟩
      decide
    obtain ⟨htake, hdrop⟩ := run_followed hm.whole hpoint
    obtain ⟨htake', hdrop'⟩ := run_followed hm.fraction hdigit
    unfold read? spelling
    dsimp only [Option.getD_some] at htake hdrop htake' hdrop' hsome ⊢
    rw [List.append_assoc, List.cons_append, htake, hdrop]
    simp only [htake', hdrop', hsome, Bool.false_and, Bool.false_eq_true, if_false]

end NoteFormula.Decimal

import NoteFormula.Proofs.RepeatedCalls
import NoteFormula.Proofs.ViablePrefixes

/-! # Where a parse error stands

An error other than the limit stands at the first token that rules a list out: what comes before it begins some text
that is read, and no list that goes on after it is ever read, whatever the limit.
-/
namespace NoteFormula

open EStateM (Result)
open Token

variable {tokens taken rest ts : List Token} {limit : Int} {fault : ParseFault} {f : Formula} {t : Token}

theorem closed_of_parse (h : parse tokens limit = .ok f) : 1 ≤ limit ∧ Closed tokens := by
  change (Parser.ofTokens tokens limit).bind (fun parser => parser.next.1) = _ at h
  unfold Parser.ofTokens at h
  split at h
  · cases h
  · rename_i hl
    split at h
    · rename_i hlast
      exact ⟨Int.not_lt.mp hl, _, hlast, rfl⟩
    · cases h

theorem Comparison.Course.at_fault {α : Type} {σ : Comparison} {lead : Nat} {c c₂ stop : Cursor}
    {r : Result ParseFault Cursor α} (h : Course σ lead c c₂ (.error fault stop) r) (hf : fault.isTooDeep = false) :
    ∃ taken, c.rest = taken ++ stop.rest ∧ (∀ t ∈ taken, t.kind ≠ .eof) ∧
      ∀ q, q ≠ [] → stop.rest = q ++ σ.tail → r = .error fault ⟨q ++ σ.tail₂, c₂.depth⟩ := by
  cases h with
  | fault taken hrest ht _ hsecond => exact ⟨taken, hrest, ht, hsecond⟩
  | refused => cases hf

/-- Tokens that can be completed begin the tokens of a text that is read. -/
theorem Completable.accepted (h : Completable ts) (hw : ∀ t ∈ ts, t.IsWritten) : ∃ source tokens limit f,
    tokenize source = .ok tokens ∧ parse tokens limit = .ok f ∧ ts <+: tokens := by
  obtain ⟨us, f, n, hus, hd⟩ := h
  obtain ⟨source, hsource⟩ := tokenize_of_isWritten (List.forall_mem_append.mpr ⟨hw, hus⟩)
  obtain ⟨body, hbody, hlexical⟩ := tokenize_ok hsource
  obtain rfl := List.append_cancel_right hbody
  have hn : (1 : Int) ≤ n := by exact_mod_cast hd.nesting_pos
  have hread := (hd.parse_within hlexical hn).1 (Nat.le_refl n)
  refine ⟨source, _, n, f, hsource, hread, ?_⟩
  rw [List.append_assoc]
  exact List.prefix_append _ _

/-- A list that goes on after the token of an error stops there too, at any limit. -/
theorem parse_beyond_error {stop : Cursor}
    (h : Reading.complete limit.toNat ⟨taken ++ t :: rest, 0⟩ = .error fault stop) (hstop : stop.rest = t :: rest)
    (hf : fault.isTooDeep = false) (hbegins : taken ++ [t] <+: tokens) (limit' : Int) :
    parse tokens limit' ≠ .ok f := by
  intro hread
  obtain ⟨hl, hclosed⟩ := closed_of_parse hread
  obtain ⟨tail, rfl⟩ := hbegins
  have hle : limit' ≤ max limit limit' := Int.le_max_right _ _
  -- A limit as large as both lets the accepted list be compared.
  have hlarger := (parse_larger_limit hclosed hl hle).1 f hread
  rw [parse_eq_outcome (Int.le_trans hl hle) hclosed] at hlarger
  have haligned : (Comparison.mk limit.toNat (max limit limit').toNat rest tail).Aligned ⟨taken ++ t :: rest, 0⟩
      ⟨taken ++ [t] ++ tail, 0⟩ := by
    refine ⟨Int.toNat_le_toNat (Int.le_max_left _ _), fun q _ hq => ?_⟩
    have hsame : taken ++ [t] = q := List.append_cancel_right ((List.append_assoc _ _ _).trans hq)
    rw [hsame]
  have hcourse := Reading.complete_course _ haligned
  rw [h] at hcourse
  obtain ⟨-, -, -, hsecond⟩ := hcourse.at_fault hf
  rw [hsecond [t] (List.cons_ne_nil _ _) hstop] at hlarger
  cases hlarger

/-- What the call has taken when it stops, and the token that it stops at. -/
theorem parse_stop {source : String} (ht : tokenize source = .ok tokens) (hl : 1 ≤ limit)
    (h : parse tokens limit = .error fault) (hf : fault.isTooDeep = false) : ∃ taken t rest depth,
      tokens = taken ++ t :: rest ∧ (∀ u ∈ taken, u.kind ≠ .eof) ∧ fault.found? = some t ∧ Completable taken ∧
      Reading.complete limit.toNat ⟨tokens, 0⟩ = .error fault ⟨t :: rest, depth⟩ := by
  obtain ⟨body, rfl, hlexical⟩ := tokenize_ok ht
  have hclosed := closed_append_end body
  have hcourse := Reading.complete_course _ (Comparison.aligned_rest (Nat.le_refl (limit.toNat + 0)) (body ++ [eof]))
  have hstalls : Stalls [] (body ++ [eof]) (Reading.complete limit.toNat ⟨body ++ [eof], 0⟩) :=
    Reading.complete_stalls (spelled_closed hlexical)
  rw [parse_eq_outcome hl hclosed] at h
  dsimp only at hcourse
  generalize Reading.complete limit.toNat ⟨body ++ [eof], 0⟩ = result at h hcourse hstalls ⊢
  cases result with
  | ok f c => cases h
  | error fault' stop =>
    obtain rfl := Except.error.inj h
    obtain ⟨taken, hrest, hno, -⟩ := hcourse.at_fault hf
    obtain ⟨hfound, ts, hts, hcompletable⟩ := hstalls hf
    obtain rfl := List.append_cancel_right (hts.symm.trans hrest)
    rcases stop with ⟨_ | ⟨t, rest⟩, depth⟩
    · rw [hts] at hclosed
      exact absurd rfl (hclosed.left hno).1
    · exact ⟨ts, t, rest, depth, hts, hno, hfound, hcompletable, rfl⟩

/-- The token of an error is the one that the parser stands at. What comes before it begins a text that is read at
some limit, and no list that begins with it and what comes before is read at any. -/
theorem error_at_first_impossible (source : String) (tokens : List Token) (limit : Int) (fault : ParseFault)
    (ht : tokenize source = .ok tokens) (hl : 1 ≤ limit) (h : parse tokens limit = .error fault)
    (hf : fault.isTooDeep = false) : ∃ p i, Parser.ofTokens tokens limit = .ok p ∧ p.next.1 = .error fault ∧
      p.next.2.position = i ∧ i < tokens.length ∧ fault.found? = tokens[i]? ∧
      (∃ source' tokens' limit' f, tokenize source' = .ok tokens' ∧ parse tokens' limit' = .ok f ∧
        tokens.take i <+: tokens') ∧
      ∀ tokens' limit' f, tokens.take (i + 1) <+: tokens' → parse tokens' limit' ≠ .ok f := by
  obtain ⟨taken, t, rest, depth, hcut, hno, hfound, hcompletable, hstop⟩ := parse_stop ht hl h hf
  obtain ⟨body, hbody, -⟩ := tokenize_ok ht
  have hclosed : Closed tokens := hbody ▸ closed_append_end body
  have hnext : (⟨tokens, limit.toNat, ⟨tokens, 0⟩⟩ : Parser).next =
      (.error fault, ⟨tokens, limit.toNat, ⟨t :: rest, depth⟩⟩) := by
    rw [Parser.next_eq, hstop]
    rfl
  have hwritten : ∀ u ∈ taken, u.IsWritten := by
    intro u hu
    refine isWritten_of_tokenize ht u ?_ (hno u hu)
    rw [hcut]
    exact List.mem_append_left _ hu
  refine ⟨_, taken.length, Parser.ofTokens_closed hl hclosed, ?_, ?_, ?_, ?_, ?_, ?_⟩
  · rw [hnext]
  · rw [hnext]
    exact (Parser.stands_of taken hcut hno).2
  · rw [hcut, List.length_append, List.length_cons]
    exact Nat.lt_add_of_pos_right (Nat.succ_pos _)
  · rw [hcut, hfound, List.getElem?_append_right (Nat.le_refl _), Nat.sub_self]
    rfl
  · rw [hcut, List.take_left]
    exact hcompletable.accepted hwritten
  · intro tokens' limit' f hbegins
    rw [hcut] at hstop hbegins
    rw [List.take_length_add_append] at hbegins
    exact parse_beyond_error hstop rfl hf hbegins limit'

/-- A call whose first argument is followed by a word: it could go on with a comma or a parenthesis. -/
theorem word_in_call_impossible :
    let tokens := [spelled .ifWord ['i', 'f'], spelled .lparen ['('], spelled .word ['a'], spelled .word ['b'], eof]
    let fault := ParseFault.expected ")" "if arguments" (spelled .word ['b'])
    tokenize "if(a b" = .ok tokens ∧ (1 : Int) ≤ 8 ∧ parse tokens 8 = .error fault ∧ fault.isTooDeep = false ∧
      ∀ tokens' limit' f, tokens.take 4 <+: tokens' → parse tokens' limit' ≠ .ok f := by
  intro tokens fault
  have ht : tokenize "if(a b" = .ok tokens := by cbv
  have h : parse tokens 8 = .error fault := rfl
  obtain ⟨p, i, hp, -, hi, -, -, -, hnone⟩ := error_at_first_impossible _ tokens 8 fault ht (by decide) h rfl
  cases hp
  obtain rfl : 3 = i := hi
  exact ⟨ht, by decide, h, rfl, hnone⟩

end NoteFormula

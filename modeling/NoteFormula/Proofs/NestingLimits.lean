import NoteFormula.Proofs.Answers
import NoteFormula.Proofs.ComparedReadings

/-! # Nesting limits

What a larger limit changes: a list that was refused at the limit may be read, and nothing else. A limit as long as
the list refuses nothing, since every level but the first is opened by a token.
-/
namespace NoteFormula

open EStateM (Result)

/-- The last token is an end token; there may be others. -/
def Closed (tokens : List Token) : Prop := ∃ e, tokens.getLast? = some e ∧ e.kind = .eof

variable {tokens taken rest : List Token} {limit d d' : Int} {α : Type}

theorem closed_append_end (body : List Token) : Closed (body ++ [.eof]) := ⟨.eof, List.getLast?_concat, rfl⟩

/-- Something is left of a closed list as long as no end token is taken. -/
theorem Closed.left (h : Closed (taken ++ rest)) (ht : ∀ t ∈ taken, t.kind ≠ .eof) : rest ≠ [] ∧ Closed rest := by
  obtain ⟨e, hlast, he⟩ := h
  cases rest with
  | nil =>
    rw [List.append_nil] at hlast
    exact absurd he (ht e (List.mem_of_getLast? hlast))
  | cons t rest =>
    refine ⟨by simp, e, ?_, he⟩
    rw [← hlast, List.getLast?_append, List.getLast?_cons]
    rfl

namespace Reading

def outcome : Result ParseFault Cursor α → Except ParseFault α
  | .ok a _ => .ok a
  | .error fault _ => .error fault

def stop : Result ParseFault Cursor α → Cursor
  | .ok _ c | .error _ c => c

end Reading

open Reading

theorem Parser.ofTokens_closed (hl : 1 ≤ limit) (h : Closed tokens) :
    ofTokens tokens limit = .ok ⟨tokens, limit.toNat, ⟨tokens, 0⟩⟩ := by
  obtain ⟨⟨kind, value, raw⟩, hlast, he⟩ := h
  cases he
  rw [ofTokens, if_neg (Int.not_lt.mpr hl), hlast]

theorem Parser.next_eq (p : Parser) :
    p.next = (outcome (complete p.limit p.cursor), { p with cursor := stop (complete p.limit p.cursor) }) := by
  unfold next
  cases complete p.limit p.cursor <;> rfl

theorem parse_eq_outcome (hl : 1 ≤ limit) (h : Closed tokens) :
    parse tokens limit = outcome (complete limit.toNat ⟨tokens, 0⟩) := by
  change (Parser.ofTokens tokens limit).bind (fun parser => parser.next.1) = _
  rw [Parser.ofTokens_closed hl h]
  change (Parser.next _).1 = _
  rw [Parser.next_eq]

theorem Comparison.aligned_rest {limit limit₂ depth depth₂ : Nat} (hroom : limit + depth₂ ≤ limit₂ + depth)
    (rest : List Token) : (Comparison.mk limit limit₂ [] []).Aligned ⟨rest, depth⟩ ⟨rest, depth₂⟩ :=
  ⟨hroom, fun _ _ hrest => hrest⟩

/-- A closed list that is read again comes to the same, unless the limit refused it the first time. -/
theorem Comparison.Course.again {limit limit₂ lead : Nat} {c c₂ : Cursor} {r r₂ : Result ParseFault Cursor α}
    (h : Course ⟨limit, limit₂, [], []⟩ lead c c₂ r r₂) (hc : Closed c.rest) : outcome r₂ = outcome r ∨
      ∃ found, outcome r = .error (.tooDeep limit found) ∧
        (limit + c₂.depth = limit₂ + c.depth → outcome r₂ = .error (.tooDeep limit₂ found)) := by
  have hleft {taken rest : List Token} (hrest : c.rest = taken ++ rest) (ht : ∀ t ∈ taken, t.kind ≠ .eof) :
      rest ≠ [] := by
    rw [hrest] at hc
    exact (hc.left ht).1
  cases h with
  | @ok taken a rest _ hrest ht hsecond =>
    have hsame := hsecond rest (hleft hrest ht) (List.append_nil rest).symm
    rw [hsame]
    exact Or.inl rfl
  | @fault taken fault rest _ hrest ht _ hsecond =>
    have hsame := hsecond rest (hleft hrest ht) (List.append_nil rest).symm
    rw [hsame]
    exact Or.inl rfl
  | @refused taken rest _ hrest ht _ hsecond =>
    refine Or.inr ⟨_, rfl, fun heven => ?_⟩
    have hdeep := hsecond rest (hleft hrest ht) (List.append_nil rest).symm heven
    exact congrArg outcome hdeep

/-- A larger limit lets a list be read as before, or stop as before. -/
theorem parse_larger_limit (h : Closed tokens) (hl : 1 ≤ d) (hle : d ≤ d') :
    (∀ f, parse tokens d = .ok f → parse tokens d' = .ok f) ∧
      ∀ fault, parse tokens d = .error fault → fault.isTooDeep = false → parse tokens d' = .error fault := by
  have hroom : d.toNat + 0 ≤ d'.toNat + 0 := Int.toNat_le_toNat hle
  have hcourse := complete_course _ (Comparison.aligned_rest hroom tokens)
  rw [parse_eq_outcome hl h, parse_eq_outcome (Int.le_trans hl hle) h]
  rcases hcourse.again h with hsame | ⟨found, hdeep, -⟩
  · rw [hsame]
    exact ⟨fun f hf => hf, fun fault hfault _ => hfault⟩
  · rw [hdeep]
    refine ⟨by rintro f ⟨⟩, ?_⟩
    rintro fault ⟨⟩ ⟨⟩

/-- Every level but the first is opened by a token, and the end token opens none. -/
theorem parse_long_limit (h : Closed tokens) (hl : 1 ≤ d) (hlength : (tokens.length : Int) ≤ d) {fault : ParseFault}
    (hfault : parse tokens d = .error fault) : fault.isTooDeep = false := by
  have hcourse := complete_course _ (Comparison.aligned_rest (Nat.le_refl (d.toNat + 0)) tokens)
  rw [parse_eq_outcome hl h] at hfault
  dsimp only at hcourse
  generalize complete d.toNat ⟨tokens, 0⟩ = x at hcourse hfault
  cases hcourse with
  | ok => cases hfault
  | fault taken hrest ht hf hsecond =>
    cases hfault
    exact hf
  | @refused taken rest _ hrest ht hlead hsecond =>
    dsimp only at hrest hlead
    subst hrest
    have hleft := List.length_pos_iff.mpr (h.left ht).1
    rw [List.length_append] at hlength
    omega

/-- Raising the limit changes an outcome only from a refusal, a limit as long as the list refuses nothing, and the
keys of an answer do not depend on it at all. -/
theorem limit_only_refuses (tokens : List Token) (h : Closed tokens) (d d' : Int) (hl : 1 ≤ d) (hle : d ≤ d') :
    (∀ f, parse tokens d = .ok f → parse tokens d' = .ok f) ∧
    (∀ fault, parse tokens d = .error fault → fault.isTooDeep = false → parse tokens d' = .error fault) ∧
    (tokens.length ≤ d → ∀ fault, parse tokens d = .error fault → fault.isTooDeep = false) ∧
    ∀ context context' source answer answer', Answer.ofText context d source = .ok answer →
      Answer.ofText context' d' source = .ok answer' → answer.keys = answer'.keys := by
  obtain ⟨hread, hstopped⟩ := parse_larger_limit h hl hle
  refine ⟨hread, hstopped, fun hlength fault => parse_long_limit h hl hlength, ?_⟩
  intro context context' source answer answer' ha ha'
  rw [Answer.keys_eq ha, Answer.keys_eq ha']

open Token in
/-- A group that is never closed needs two levels, and then stops at the end whatever the limit. -/
theorem open_group_stops_at_end :
    let tokens := [spelled .word ['a'], spelled .plus ['+'], spelled .lparen ['('], spelled .word ['b'], eof]
    let fault := ParseFault.expected ")" "expression" eof
    Closed tokens ∧ (1 : Int) ≤ 2 ∧ (2 : Int) ≤ 5 ∧ parse tokens 1 = .error (.tooDeep 1 (spelled .word ['b'])) ∧
      parse tokens 2 = .error fault ∧ parse tokens 5 = .error fault := by
  intro tokens fault
  have hclosed : Closed tokens := closed_append_end [_, _, _, _]
  have htwo : parse tokens 2 = .error fault := rfl
  obtain ⟨-, hstopped, -⟩ := limit_only_refuses tokens hclosed 2 5 (by decide) (by decide)
  exact ⟨hclosed, by decide, by decide, rfl, htwo, hstopped fault htwo rfl⟩

end NoteFormula

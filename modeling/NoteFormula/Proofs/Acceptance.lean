import NoteFormula.Proofs.LexicalTokens
import NoteFormula.Proofs.ReadingComplete

/-! # What is accepted

A text is read as a formula exactly when the grammar derives it, with the nesting that the limit allows, and
then there is no other formula it could stand for.
-/
namespace NoteFormula

variable {body : List Token} {f g : Formula} {m n : Nat} {limit : Int}

theorem Derives.no_end {category : Category} {ts : List Token} (h : Derives category ts f n) :
    ∀ t ∈ ts, t.kind ≠ .eof := by
  induction h with
  | whole _ ih => exact ih
  | tighter _ _ ih => exact ih
  | @chain _ _ t _ _ _ _ _ _ hop _ _ ihf ihg =>
    have ht : t.kind ≠ .eof := by intro he; rw [he] at hop; cases hop
    simp only [List.forall_mem_append, List.forall_mem_cons]
    exact ⟨ihf, ht, ihg⟩
  | @unary _ t _ _ _ hop _ ih =>
    have ht : t.kind ≠ .eof := by intro he; rw [he] at hop; cases hop
    exact List.forall_mem_cons.mpr ⟨ht, ih⟩
  | @literal t hk =>
    have ht : t.kind ≠ .eof := by intro he; rw [he] at hk; cases hk
    exact List.forall_mem_singleton.mpr ht
  | @reference _ t hk =>
    have ht : t.kind ≠ .eof := by intro he; rw [he] at hk; cases hk
    exact List.forall_mem_singleton.mpr ht
  | group hl _ hr ih => simpa [hl, hr, or_imp, forall_and] using ih
  | test hw hl _ hr ih => simpa [hw, hl, hr, or_imp, forall_and] using ih
  | guarded hw hl _ hp _ hr ihc ihf => simpa [hw, hl, hp, hr, or_imp, forall_and] using ⟨ihc, ihf⟩
  | choice hw hl _ hp _ hq _ hr ihc ihf ihg => simpa [hw, hl, hp, hq, hr, or_imp, forall_and] using ⟨ihc, ihf, ihg⟩
  | contains hw hl _ hp _ hr ihf ihg => simpa [hw, hl, hp, hr, or_imp, forall_and] using ⟨ihf, ihg⟩
  | length hw hl _ hr ih => simpa [hw, hl, hr, or_imp, forall_and] using ih

theorem append_end_inj {ts us : List Token} (hb : ∀ t ∈ body, t.kind ≠ .eof) (ht : ∀ t ∈ ts, t.kind ≠ .eof)
    (he : (us.headD .eof).kind = .eof) (h : body ++ [.eof] = ts ++ us) : ts = body := by
  -- Both sides are cut at their first end token.
  have hcut := congrArg (List.takeWhile fun t => t.kind != .eof) h
  rw [List.takeWhile_append_of_pos (by simpa using hb), List.takeWhile_append_of_pos (by simpa using ht)] at hcut
  cases us with
  | nil => simpa [Token.eof] using hcut.symm
  | cons t us =>
    rw [List.headD_cons] at he
    simpa [List.takeWhile_cons, he, Token.eof] using hcut.symm

theorem parse_closed (hl : 1 ≤ limit) (body : List Token) :
    parse (body ++ [.eof]) limit =
      match Reading.complete limit.toNat ⟨body ++ [.eof], 0⟩ with
        | .ok f _ => .ok f
        | .error fault _ => .error fault := by
  have hp : Parser.ofTokens (body ++ [.eof]) limit = .ok ⟨body ++ [.eof], limit.toNat, ⟨body ++ [.eof], 0⟩⟩ := by
    rw [Parser.ofTokens, if_neg (Int.not_lt.mpr hl), List.getLast?_concat]
    rfl
  change (Parser.ofTokens (body ++ [.eof]) limit).bind (fun parser => parser.next.1) = _
  rw [hp]
  change (Parser.next _).1 = _
  unfold Parser.next
  cases Reading.complete limit.toNat ⟨body ++ [.eof], 0⟩ <;> rfl

theorem spelled_closed (hb : ∀ t ∈ body, t.Lexical) : AllSpelled (body ++ [.eof]) := by
  intro t ht
  rcases List.mem_append.mp ht with ht | ht
  · exact (hb t ht).toSpelled
  · obtain rfl := List.mem_singleton.mp ht
    exact ⟨by rintro _ _ ⟨⟩, by rintro _ ⟨⟩⟩

theorem derives_of_parse (hl : 1 ≤ limit) (hb : ∀ t ∈ body, t.Lexical)
    (h : parse (body ++ [.eof]) limit = .ok f) : ∃ n : Nat, n ≤ limit.toNat ∧ Derives .whole body f n := by
  rw [parse_closed hl] at h
  split at h
  · rename_i f c hc
    cases h
    obtain ⟨ts, n, hrest, he, hn, hd⟩ := Reading.complete_ok (spelled_closed hb) hc
    obtain rfl := append_end_inj (fun t ht => (hb t ht).not_end) hd.no_end he hrest
    exact ⟨n, hn, hd⟩
  · cases h

/-- A text that is no formula is never blamed on the caller. -/
theorem isMisuse_of_parse {fault : ParseFault} (hl : 1 ≤ limit) (hb : ∀ t ∈ body, t.Lexical)
    (h : parse (body ++ [.eof]) limit = .error fault) : fault.isMisuse = false := by
  rw [parse_closed hl] at h
  split at h
  · cases h
  · rename_i fault c hc
    cases h
    exact Reading.complete_error (spelled_closed hb) hc

/-- A derived formula is read if its nesting fits, and refused at the limit if not. -/
theorem Derives.parse_within (h : Derives .whole body f n) (hb : ∀ t ∈ body, t.Lexical) {limit : Int} (hl : 1 ≤ limit) :
    (n ≤ limit.toNat → parse (body ++ [.eof]) limit = .ok f) ∧
    (limit.toNat < n → ∃ found, parse (body ++ [.eof]) limit = .error (.tooDeep limit.toNat found)) := by
  have hr := Reading.complete_within h limit.toNat (spelled_closed hb)
  rw [parse_closed hl]
  constructor
  · intro hn
    rw [hr.fits (by omega)]
  · intro hn
    obtain ⟨found, c, he⟩ := hr.refused (by omega)
    rw [he]
    exact ⟨found, rfl⟩

theorem Derives.nesting_pos (h : Derives .whole body f n) : 1 ≤ n := by
  cases h
  exact Nat.succ_pos _

theorem Derives.nesting_le (h : Derives .whole body f m) (h' : Derives .whole body g n)
    (hb : ∀ t ∈ body, t.Lexical) : n ≤ m := by
  -- At the limit `m` the first derivation is read and the second one refused.
  refine Nat.le_of_not_lt fun hlt => ?_
  have hm : (1 : Int) ≤ (m : Int) := by exact_mod_cast h.nesting_pos
  obtain ⟨found, he⟩ := (h'.parse_within hb hm).2 hlt
  rw [(h.parse_within hb hm).1 (Nat.le_refl m)] at he
  cases he

/-- The tokens before the end settle the formula and how deep it nests. -/
theorem Derives.unique (h : Derives .whole body f m) (h' : Derives .whole body g n)
    (hb : ∀ t ∈ body, t.Lexical) : f = g ∧ m = n := by
  obtain rfl := Nat.le_antisymm (h'.nesting_le h hb) (h.nesting_le h' hb)
  have hm : (1 : Int) ≤ (m : Int) := by exact_mod_cast h.nesting_pos
  have hf := (h.parse_within hb hm).1 (Nat.le_refl m)
  rw [(h'.parse_within hb hm).1 (Nat.le_refl m)] at hf
  cases hf
  exact ⟨rfl, rfl⟩

/-- A text is read as the formula that the grammar derives within the limit; there is at most one, and a text
without one is refused as a text. -/
theorem parse_eq_ok_iff_derives (source : String) (tokens : List Token) (limit : Int)
    (ht : Token.tokenize source = .ok tokens) (hl : 1 ≤ limit) :
    ∃ body, tokens = body ++ [.eof] ∧ (∀ t ∈ body, t.kind ≠ .eof) ∧
      (∀ f, parse tokens limit = .ok f ↔ ∃ n : Nat, n ≤ limit ∧ Derives .whole body f n) ∧
      (∀ f g m n, Derives .whole body f m → Derives .whole body g n → f = g) ∧
      ((¬ ∃ f, ∃ n : Nat, n ≤ limit ∧ Derives .whole body f n) →
        ∃ fault, parse tokens limit = .error fault ∧ fault.isMisuse = false) := by
  obtain ⟨body, rfl, hb⟩ := Token.tokenize_ok ht
  have hiff (f : Formula) :
      parse (body ++ [.eof]) limit = .ok f ↔ ∃ n : Nat, n ≤ limit ∧ Derives .whole body f n := by
    constructor
    · intro h
      obtain ⟨n, hn, hd⟩ := derives_of_parse hl hb h
      exact ⟨n, by omega, hd⟩
    · rintro ⟨n, hn, hd⟩
      exact (hd.parse_within hb hl).1 (by omega)
  refine ⟨body, rfl, fun t h => (hb t h).not_end, hiff, fun f g m n h h' => (h.unique h' hb).1, fun hnone => ?_⟩
  cases h : parse (body ++ [.eof]) limit with
  | ok f => exact absurd ⟨f, (hiff f).mp h⟩ hnone
  | error fault => exact ⟨fault, rfl, isMisuse_of_parse hl hb h⟩

open Token in
/-- Three deep: the call, its condition and the prefix operator in it. -/
theorem guarded_call_derives :
    tokenize "if(a || !b, c)" = .ok [spelled .ifWord ['i', 'f'], spelled .lparen ['('], spelled .word ['a'],
      spelled .or ['|', '|'], spelled .not ['!'], spelled .word ['b'], spelled .comma [','],
      spelled .word ['c'], spelled .rparen [')'], eof] ∧ (1 : Int) ≤ 3 ∧
    ∃ n : Nat, n ≤ (3 : Int) ∧ Derives .whole
      [spelled .ifWord ['i', 'f'], spelled .lparen ['('], spelled .word ['a'], spelled .or ['|', '|'],
        spelled .not ['!'], spelled .word ['b'], spelled .comma [','], spelled .word ['c'], spelled .rparen [')']]
      (.conditional (.binary .or (.literal (.text "a")) (.unary .not (.literal (.text "b"))))
        (.literal (.text "c")) .absent) n := by
  have ht : tokenize "if(a || !b, c)" = .ok ([spelled .ifWord ['i', 'f'], spelled .lparen ['('], spelled .word ['a'],
      spelled .or ['|', '|'], spelled .not ['!'], spelled .word ['b'], spelled .comma [','],
      spelled .word ['c'], spelled .rparen [')']] ++ [eof]) := by cbv
  obtain ⟨body, hbody, _, hiff, _⟩ := parse_eq_ok_iff_derives _ _ 3 ht (by decide)
  obtain rfl := List.append_cancel_right hbody
  exact ⟨ht, by decide, (hiff _).mp rfl⟩

end NoteFormula

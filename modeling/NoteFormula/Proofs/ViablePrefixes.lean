import NoteFormula.Proofs.ComparedReadings
import NoteFormula.Proofs.ReadingSound
import NoteFormula.Proofs.WrittenTokens

/-! # Viable prefixes

Where a reading stops at a fault other than the limit, the tokens it has taken can be completed to a formula. What is
handed from each part of the grammar to the next is that any phrase of the awaited category can be completed there:
an open group by its parenthesis, an open call by the arguments it lacks.
-/
namespace NoteFormula

open EStateM (Result)
open Token

def Completable (ts : List Token) : Prop := ∃ us f n, (∀ t ∈ us, t.IsWritten) ∧ Derives .whole (ts ++ us) f n

def Awaits (category : Category) (before : List Token) : Prop :=
  ∀ ts f n, Derives category ts f n → Completable (before ++ ts)

def filler : Token := spelled .word ['x']

def closing : Token := spelled .rparen [')']

variable {category : Category} {before ts us head close : List Token} {t w : Token} {f : Formula} {n level : Nat}

theorem filler_written : filler.IsWritten := isWritten_word (c := 'x') rfl (List.forall_mem_nil _)

theorem closing_written : closing.IsWritten := isWritten_single (c := ')') rfl

theorem filler_derives : Derives .whole [filler] (.literal (.text "x")) 1 :=
  .whole ((Derives.literal rfl).loosen (Nat.zero_le 6) (Nat.le_refl 6))

theorem Completable.back (h : Completable (ts ++ us)) (hw : ∀ t ∈ us, t.IsWritten) : Completable ts := by
  obtain ⟨vs, f, n, hvs, hd⟩ := h
  exact ⟨us ++ vs, f, n, List.forall_mem_append.mpr ⟨hw, hvs⟩, by rwa [← List.append_assoc]⟩

theorem Derives.completable (h : Derives .whole ts f n) : Completable ts :=
  ⟨[], f, n, by simp, by rwa [List.append_nil]⟩

namespace Awaits

theorem start : Awaits .whole [] := fun _ _ _ hd => hd.completable

theorem whole_completable (h : Awaits .whole before) : Completable before :=
  (h _ _ _ filler_derives).back (List.forall_mem_singleton.mpr filler_written)

theorem completable (h : Awaits (.tier 6) before) : Completable before :=
  (h [filler] _ _ (.literal rfl)).back (List.forall_mem_singleton.mpr filler_written)

theorem chains (h : Awaits .whole before) : Awaits (.tier 0) before := fun ts f _ hd => h ts f _ (.whole hd)

theorem tighter (h : Awaits (.tier level) before) (hl : level < 6) : Awaits (.tier (level + 1)) before :=
  fun ts f n hd => h ts f n (.tighter hl hd)

theorem right {op : BinaryOp} (h : Awaits (.tier level) before) (hd : Derives (.tier level) ts f n)
    (ht : t.kind.binary? = some (level, op)) : Awaits (.tier (level + 1)) (before ++ ts ++ [t]) := by
  intro us g m hg
  have hchain := h _ _ _ (.chain ht hd hg)
  simpa using hchain

theorem prefixed {op : UnaryOp} (h : Awaits (.tier 6) before) (ht : t.kind.unary? = some op) :
    Awaits (.tier 6) (before ++ [t]) := by
  intro ts f n hd
  have hunary := h _ _ _ (.unary ht hd)
  simpa using hunary

/-- Within an operand a formula is awaited where the operand can be finished after it. -/
theorem inside {place : List Token} (h : Awaits (.tier 6) before) (hplace : place = before ++ head)
    (hclose : ∀ t ∈ close, t.IsWritten)
    (hd : ∀ ts f n, Derives .whole ts f n → ∃ g m, Derives (.tier 6) (head ++ ts ++ close) g m) :
    Awaits .whole place := by
  intro ts f n hts
  obtain ⟨g, m, hg⟩ := hd ts f n hts
  have hclosed := h _ _ _ hg
  rw [hplace]
  rw [← List.append_assoc, ← List.append_assoc] at hclosed
  exact hclosed.back hclose

/-- What most operands lack is a parenthesis. -/
theorem enclosed {place : List Token} (h : Awaits (.tier 6) before) (hplace : place = before ++ head)
    (hd : ∀ ts f n, Derives .whole ts f n → ∃ g m, Derives (.tier 6) (head ++ ts ++ [closing]) g m) :
    Awaits .whole place := by
  have hclosing : ∀ t ∈ [closing], t.IsWritten := List.forall_mem_singleton.mpr closing_written
  exact h.inside hplace hclosing hd

end Awaits

/-- If the reading stops at a fault other than the limit, the fault shows the token there, and all that is taken by then
can be completed. -/
def Stalls (before rest : List Token) : Result ParseFault Cursor Formula → Prop
  | .ok _ _ => True
  | .error fault c => fault.isTooDeep = false → fault.found? = some (c.rest.headD .eof) ∧
      ∃ ts, rest = ts ++ c.rest ∧ Completable (before ++ ts)

theorem Stalls.here {rest : List Token} {depth : Nat} {fault : ParseFault} (h : Completable before)
    (hfound : fault.found? = some (rest.headD .eof)) : Stalls before rest (.error fault ⟨rest, depth⟩) :=
  fun _ => ⟨hfound, [], rfl, by rwa [List.append_nil]⟩

theorem Stalls.after {r : Result ParseFault Cursor Formula} (h : Stalls (before ++ ts) us r) :
    Stalls before (ts ++ us) r := by
  cases r with
  | ok f c => trivial
  | error fault c =>
    intro hf
    obtain ⟨hfound, vs, hrest, hc⟩ := h hf
    exact ⟨hfound, ts ++ vs, by rw [hrest, List.append_assoc], by rwa [← List.append_assoc]⟩

namespace Reading

structure Viable (limit : Nat) (category : Category) (r : Reading Formula) : Prop where
  sound : Sound limit category r
  stalls : ∀ {before rest depth}, Awaits category before → AllSpelled rest → depth ≤ limit →
    Stalls before rest (r ⟨rest, depth⟩)

variable {limit depth : Nat} {rest : List Token}

theorem Viable.bind {r : Reading Formula} (hr : Viable limit category r) (ha : Awaits category before)
    (hs : AllSpelled rest) (hd : depth ≤ limit) {k : Formula → Reading Formula}
    (hk : ∀ ts us f n, AllSpelled us → Derives category ts f n → Stalls (before ++ ts) us (k f ⟨us, depth⟩)) :
    Stalls before rest ((r >>= k) ⟨rest, depth⟩) := by
  have h := hr.sound rest depth hs hd
  have hstalls := hr.stalls ha hs hd
  rw [bind_apply]
  cases hc : r ⟨rest, depth⟩ with
  | error fault c => rwa [hc] at hstalls
  | ok f c =>
    rw [hc] at h
    obtain ⟨ts, n, hrest, hdepth, -, hder⟩ := h
    rcases c with ⟨us, d⟩
    dsimp only at hrest hdepth
    subst hrest hdepth
    exact (hk ts us f n hs.right hder).after

theorem expect_stalls {kind : TokenKind} {symbol place : String} (hs : AllSpelled rest) (hc : Completable before)
    {k : Unit → Reading Formula}
    (hk : ∀ t us, AllSpelled us → t.kind = kind → Stalls (before ++ [t]) us (k () ⟨us, depth⟩)) :
    Stalls before rest ((expect kind symbol place >>= k) ⟨rest, depth⟩) := by
  rcases expect_cases kind symbol place ⟨rest, depth⟩ with h | ⟨t, us, hrest, ht, h⟩
  · rw [bind_error h]
    exact .here hc rfl
  · dsimp only at hrest
    subst hrest
    rw [bind_ok h]
    exact (hk t us hs.tail ht).after

theorem accept_stalls {kinds : List TokenKind} (hs : AllSpelled rest) {k : Option Token → Reading Formula}
    (hnone : Stalls before rest (k none ⟨rest, depth⟩))
    (hsome : ∀ t us, AllSpelled us → t.Spelled → kinds.contains t.kind →
      Stalls (before ++ [t]) us (k (some t) ⟨us, depth⟩)) :
    Stalls before rest ((accept kinds >>= k) ⟨rest, depth⟩) := by
  rcases accept_cases kinds ⟨rest, depth⟩ with h | ⟨t, us, hrest, -, ht, h⟩
  · rwa [bind_ok h]
  · dsimp only at hrest
    subst hrest
    rw [bind_ok h]
    exact (hsome t us hs.tail (hs t List.mem_cons_self) ht).after

theorem nested_stalls {r : Reading Formula} (hr : Viable limit category r) (ha : Awaits category before)
    (hs : AllSpelled rest) : Stalls before rest (nested limit r ⟨rest, depth⟩) := by
  unfold nested
  dsimp only
  by_cases hlt : limit < depth + 1
  · rw [if_pos hlt]
    rintro ⟨⟩
  · rw [if_neg hlt]
    have hstalls := hr.stalls ha hs (Nat.le_of_not_lt hlt)
    cases hc : r ⟨rest, depth + 1⟩ with
    | ok f c => trivial
    | error fault c => rwa [hc] at hstalls

section Tiers
variable {operand : Reading Formula}

theorem whole_viable (h : Viable limit (.tier 0) (tiered operand tiers)) :
    Viable limit .whole (whole limit operand) where
  sound := whole_sound h.sound
  stalls ha hs _ := nested_stalls h ha.chains hs

/-- After each operator the next operand is awaited where the chain was. -/
theorem chain_stalls {kinds : List TokenKind} {tighter : List (List TokenKind)}
    (hl : tiers.drop level = kinds :: tighter) (ho : Viable limit (.tier (level + 1)) operand) (count : Nat)
    {left : Formula} (ha : Awaits (.tier level) before) (hs : AllSpelled rest) (hd : depth ≤ limit)
    (hleft : Derives (.tier level) ts left n) :
    Stalls (before ++ ts) rest (chain operand kinds count left ⟨rest, depth⟩) := by
  induction count generalizing ts rest left n with
  | zero => trivial
  | succ count ih =>
    unfold chain
    refine accept_stalls hs trivial fun t us hus ht hk => ?_
    obtain ⟨op, hop⟩ := (contains_tier hl t.kind).mp hk
    dsimp only
    rw [bind_ok (binaryOp_ok ht hop _)]
    refine ho.bind (ha.right hleft hop) hus hd fun vs xs g m hxs hg => ?_
    have hnext := ih hxs (.chain hop hleft hg)
    simpa using hnext

theorem tiered_viable (ho : Viable limit (.tier 6) operand) :
    ∀ (tighter : List (List TokenKind)) (level : Nat), level ≤ 6 → tiers.drop level = tighter →
      Viable limit (.tier level) (tiered operand tighter)
  | [], level, hle, hl => by
    have h : 6 ≤ level := List.drop_eq_nil_iff.mp hl
    rwa [Nat.le_antisymm hle h]
  | kinds :: tighter, level, hle, hl => by
    have hlt : level < 6 := Nat.lt_of_le_of_ne hle fun h => by subst h; cases hl
    have hnext : tiers.drop (level + 1) = tighter := by rw [← List.tail_drop, hl, List.tail_cons]
    have ih := tiered_viable ho tighter (level + 1) hlt hnext
    refine ⟨tiered_sound ho.sound _ level hle hl, fun ha hs hd => ?_⟩
    unfold tiered
    refine ih.bind (ha.tighter hlt) hs hd fun ts us f n hus hf => ?_
    rw [bind_ok (remaining_apply _)]
    exact chain_stalls hl ih _ ha hus hd (.tighter hlt hf)

end Tiers

section Calls
variable {formula : Reading Formula}

theorem close_stalls {symbol place : String} (hs : AllSpelled rest) (hc : Completable before) (f : Formula) :
    Stalls before rest ((do expect .rparen symbol place; return f : Reading Formula) ⟨rest, depth⟩) :=
  expect_stalls hs hc fun _ _ _ _ => trivial

theorem call_stalls {symbol place : String} (hf : Viable limit .whole formula) (hs : AllSpelled rest)
    (hd : depth ≤ limit) (ha : ∀ l, l.kind = .lparen → Awaits .whole (before ++ [l])) {k : Formula → Reading Formula}
    (hk : ∀ l ts us f n, l.kind = .lparen → Derives .whole ts f n → AllSpelled us →
      Stalls (before ++ [l] ++ ts) us (k f ⟨us, depth⟩)) :
    Stalls before rest ((do expect .lparen symbol place; let f ← formula; k f : Reading Formula) ⟨rest, depth⟩) := by
  have hopening : ∀ t ∈ [spelled .lparen ['(']], t.IsWritten := List.forall_mem_singleton.mpr (isWritten_single rfl)
  have hopen : Completable before := (ha _ rfl).whole_completable.back hopening
  refine expect_stalls hs hopen fun l us hus hl => ?_
  exact hf.bind (ha l hl) hus hd fun ts vs f n hvs hts => hk l ts vs f n hl hts hvs

theorem conditional_stalls (hf : Viable limit .whole formula) (ha : Awaits (.tier 6) before) (hw : w.kind = .ifWord)
    (hs : AllSpelled rest) (hd : depth ≤ limit) :
    Stalls (before ++ [w]) rest (conditional formula ⟨rest, depth⟩) := by
  have htest (l : Token) (hl : l.kind = .lparen) : Awaits .whole (before ++ [w] ++ [l]) :=
    ha.enclosed (List.append_assoc _ _ _) fun ts c n hc => ⟨_, _, .test hw hl hc rfl⟩
  refine call_stalls hf hs hd htest fun l ts us c n hl hc hus => ?_
  refine accept_stalls hus (close_stalls hus (htest l hl ts c n hc) _) fun p vs hvs _ hp => ?_
  have hp : p.kind = .comma := by simpa using hp
  have hthen : Awaits .whole (before ++ [w] ++ [l] ++ ts ++ [p]) := by
    refine ha.enclosed (show _ = before ++ (w :: l :: ts ++ [p]) by simp) fun xs f m hf => ?_
    have hclosed := Derives.guarded hw hl hc hp hf (r := closing) rfl
    exact ⟨_, _, by simpa using hclosed⟩
  refine hf.bind hthen hvs hd fun xs ys f m hys hxs => ?_
  refine accept_stalls hys (close_stalls hys (hthen xs f m hxs) _) fun q zs hzs _ hq => ?_
  have hq : q.kind = .comma := by simpa using hq
  have helse : Awaits .whole (before ++ [w] ++ [l] ++ ts ++ [p] ++ xs ++ [q]) := by
    refine ha.enclosed (show _ = before ++ (w :: l :: ts ++ p :: xs ++ [q]) by simp) fun as g k hg => ?_
    have hclosed := Derives.choice hw hl hc hp hxs hq hg (r := closing) rfl
    exact ⟨_, _, by simpa using hclosed⟩
  exact hf.bind helse hzs hd fun as bs g k hbs has => close_stalls hbs (helse as g k has) _

theorem containment_stalls (hf : Viable limit .whole formula) (ha : Awaits (.tier 6) before)
    (hw : w.kind = .containsWord) (hs : AllSpelled rest) (hd : depth ≤ limit) :
    Stalls (before ++ [w]) rest (containment formula ⟨rest, depth⟩) := by
  have hsecondMissing : ∀ t ∈ [spelled .comma [','], filler, closing], t.IsWritten := by
    simp only [List.forall_mem_cons, List.not_mem_nil, false_implies, implies_true, and_true]
    exact ⟨isWritten_single rfl, filler_written, closing_written⟩
  have hfirst (l : Token) (hl : l.kind = .lparen) : Awaits .whole (before ++ [w] ++ [l]) := by
    refine ha.inside (List.append_assoc _ _ _) hsecondMissing fun ts f n hf => ?_
    have hcall := Derives.contains hw hl hf (p := spelled .comma [',']) rfl filler_derives (r := closing) rfl
    exact ⟨_, _, by simpa using hcall⟩
  refine call_stalls hf hs hd hfirst fun l ts us f n hl hts hus => ?_
  refine expect_stalls hus (hfirst l hl ts f n hts) fun p vs hvs hp => ?_
  have hsecond : Awaits .whole (before ++ [w] ++ [l] ++ ts ++ [p]) := by
    refine ha.enclosed (show _ = before ++ (w :: l :: ts ++ [p]) by simp) fun xs g m hg => ?_
    have hclosed := Derives.contains hw hl hts hp hg (r := closing) rfl
    exact ⟨_, _, by simpa using hclosed⟩
  exact hf.bind hsecond hvs hd fun xs ys g m hys hxs => close_stalls hys (hsecond xs g m hxs) _

theorem lengthCall_stalls (hf : Viable limit .whole formula) (ha : Awaits (.tier 6) before)
    (hw : w.kind = .lengthWord) (hs : AllSpelled rest) (hd : depth ≤ limit) :
    Stalls (before ++ [w]) rest (lengthCall formula ⟨rest, depth⟩) := by
  have hargument (l : Token) (hl : l.kind = .lparen) : Awaits .whole (before ++ [w] ++ [l]) :=
    ha.enclosed (List.append_assoc _ _ _) fun ts f n hf => ⟨_, _, .length hw hl hf rfl⟩
  exact call_stalls hf hs hd hargument fun l ts us f n hl hts hus => close_stalls hus (hargument l hl ts f n hts) _

theorem group_stalls (hf : Viable limit .whole formula) (ha : Awaits (.tier 6) before) (hw : w.kind = .lparen)
    (hs : AllSpelled rest) (hd : depth ≤ limit) : Stalls (before ++ [w]) rest
      ((do let inner ← formula; expect .rparen ")" "expression"; return inner : Reading Formula) ⟨rest, depth⟩) := by
  have hinner : Awaits .whole (before ++ [w]) := ha.enclosed rfl fun ts f n hf => ⟨_, _, .group hw hf rfl⟩
  exact hf.bind hinner hs hd fun ts us f n hus hts => close_stalls hus (hinner ts f n hts) _

theorem primary_stalls (hf : Viable limit .whole formula) (ha : Awaits (.tier 6) before) (hs : AllSpelled rest)
    (hd : depth ≤ limit) : Stalls before rest (primary formula ⟨rest, depth⟩) := by
  cases rest with
  | nil => exact .here ha.completable rfl
  | cons t rest =>
    have take {r} (h : Stalls (before ++ [t]) rest r) : Stalls before ([t] ++ rest) r := h.after
    rcases t with ⟨kind, value, raw⟩
    cases kind with
    | ifWord => exact take (conditional_stalls hf ha rfl hs.tail hd)
    | containsWord => exact take (containment_stalls hf ha rfl hs.tail hd)
    | lengthWord => exact take (lengthCall_stalls hf ha rfl hs.tail hd)
    | lparen => exact take (group_stalls hf ha rfl hs.tail hd)
    | boolean | number | text | word | noteRef | fileRef => trivial
    | _ => exact .here ha.completable rfl

end Calls

theorem operand_viable (limit count : Nat) : Viable limit (.tier 6) (operand limit count) := by
  refine ⟨operand_sound limit count, fun {before rest depth} ha hs hd => ?_⟩
  induction count generalizing before rest depth with
  | zero => exact .here ha.completable rfl
  | succ count ih =>
    have hinner : Viable limit (.tier 6) (operand limit count) := ⟨operand_sound limit count, ih⟩
    unfold operand
    refine accept_stalls hs ?_ fun t us hus ht hk => ?_
    · exact primary_stalls (whole_viable (tiered_viable hinner tiers 0 (Nat.zero_le 6) rfl)) ha hs hd
    · obtain ⟨op, hop⟩ := (contains_unary t.kind).mp hk
      dsimp only
      rw [bind_ok (unaryOp_ok ht hop _)]
      have hnested : Stalls (before ++ [t]) us (nested limit (operand limit count) ⟨us, depth⟩) :=
        nested_stalls hinner (ha.prefixed hop) hus
      rw [bind_apply]
      cases hc : nested limit (operand limit count) ⟨us, depth⟩ with
      | ok f c => trivial
      | error fault c => rwa [hc] at hnested

/-- A call for a whole formula stops after tokens that can be completed, unless the limit stops it. -/
theorem complete_stalls (hs : AllSpelled rest) : Stalls [] rest (complete limit ⟨rest, 0⟩) := by
  have hwhole := whole_viable (tiered_viable (operand_viable limit rest.length) tiers 0 (Nat.zero_le 6) rfl)
  rw [complete, bind_ok (remaining_apply _)]
  refine hwhole.bind .start hs (Nat.zero_le _) fun ts us f n _ hts => ?_
  rw [bind_ok (peek_apply _)]
  dsimp only
  split
  · trivial
  · exact .here hts.completable rfl

end Reading

end NoteFormula

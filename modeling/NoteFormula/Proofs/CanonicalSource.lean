import NoteFormula.Proofs.Acceptance
import NoteFormula.Proofs.CompleteFormulas
import NoteFormula.Proofs.NumberLayouts
import NoteFormula.Proofs.ScannedPieces

/-! # Canonical source reads back

The text that a formula is written as is read as that formula again, provided a text can show its literals and
its paths. It needs exactly the nesting that the formula has depth.
-/
namespace NoteFormula

open Token

def Value.IsWritable : Value → Prop
  | bool _ | text _ => True
  | float x => ∃ mantissa shift, Decimal.Binary.ofFloat x = .finite false mantissa shift
  | _ => False

def Value.IsPath : Value → Prop
  | text s => ∀ c ∈ s.toList, isWordChar c
  | _ => False

def Formula.Writable (f : Formula) : Prop := f.Complete Value.IsWritable fun _ path => path.IsPath

namespace BinaryOp

def kind : BinaryOp → TokenKind
  | and => .and
  | or => .or
  | nullish => .nullish
  | equals => .eq
  | notEquals => .neq
  | greater => .gt
  | greaterEqual => .gte
  | less => .lt
  | lessEqual => .lte
  | add => .plus
  | subtract => .minus
  | multiply => .star
  | divide => .slash

theorem kind_binary? (op : BinaryOp) : ∃ level, op.kind.binary? = some (level, op) := by
  cases op <;> exact ⟨_, rfl⟩

end BinaryOp

def UnaryOp.kind : UnaryOp → TokenKind
  | not => .not
  | negate => .minus

theorem UnaryOp.kind_unary? (op : UnaryOp) : op.kind.unary? = some op := by
  cases op <;> rfl

def Delimited (rest : List Char) : Prop := ∀ c ∈ rest.head?, c = ' ' ∨ c = ',' ∨ c = ')'

theorem Delimited.not_word {rest : List Char} (h : Delimited rest) : ∀ c ∈ rest.head?, ¬ isWordChar c := by
  intro c hc hw
  rcases h c hc with rfl | rfl | rfl <;> cases hw

theorem Delimited.not_numeral {rest : List Char} (h : Delimited rest) :
    ∀ c ∈ rest.head?, ¬ Text.isDigit c ∧ c ≠ '.' := by
  intro c hc
  rcases h c hc with rfl | rfl | rfl <;> exact ⟨by decide, by decide⟩

theorem delimited_cons {c : Char} {rest : List Char} (h : c = ' ' ∨ c = ',' ∨ c = ')') : Delimited (c :: rest) := by
  rintro d ⟨⟩
  exact h

/-- The text of a formula, cut into tokens that derive the formula as one operand. -/
structure ReadsBack (f : Formula) (text : List Char) (ts : List Token) (n : Nat) : Prop where
  source : f.source = .ok text
  scanned : ∀ {rest}, Delimited rest → Scanned text ts rest
  /-- No operator before the text grows into it. -/
  start : ∃ c cs, text = c :: cs ∧ c ≠ '='
  derives : Derives (.tier 6) ts f n
  height : f.height = n + 1

theorem Derives.loosen {level top : Nat} {ts : List Token} {f : Formula} {n : Nat}
    (h : Derives (.tier top) ts f n) (hle : level ≤ top) (htop : top ≤ 6) : Derives (.tier level) ts f n := by
  induction hle with
  | refl => exact h
  | step _ ih => exact ih (.tighter htop h) (Nat.le_of_succ_le htop)

variable {f g : Formula} {text more : List Char} {ts us : List Token} {m n : Nat}

theorem ReadsBack.whole (h : ReadsBack f text ts n) : Derives .whole ts f f.height := by
  rw [h.height]
  exact .whole (h.derives.loosen (Nat.zero_le 6) (Nat.le_refl 6))

theorem Derives.literal_of {t : Token} {v : Value} (hk : t.kind.isLiteral) (hv : t.value = v) :
    Derives (.tier 6) [t] (.literal v) 0 := hv ▸ .literal hk

theorem Derives.reference_of {t : Token} {space : Namespace} {path : Value} (hk : t.kind.space? = some space)
    (hv : t.value = path) : Derives (.tier 6) [t] (.reference space path) 0 := hv ▸ .reference hk

theorem readsBack_leaf {t : Token} {c : Char} {cs : List Char} (hs : f.source = .ok (c :: cs))
    (hscan : ∀ {rest}, Delimited rest → Scanned (c :: cs) [t] rest) (hopens : opensValue c)
    (hd : Derives (.tier 6) [t] f 0) (hh : f.height = 1) : ReadsBack f (c :: cs) [t] 0 where
  source := hs
  scanned := hscan
  start := ⟨c, cs, rfl, by rintro rfl; cases hopens⟩
  derives := hd
  height := hh

theorem readsBack_word {c : Char} {cs : List Char} (hs : f.source = .ok (c :: cs)) (hc : isLetter c)
    (hw : ∀ d ∈ cs, isWordChar d) (hd : Derives (.tier 6) [ofWord (c :: cs)] f 0) (hh : f.height = 1) :
    ReadsBack f (c :: cs) [ofWord (c :: cs)] 0 :=
  readsBack_leaf hs (fun hr => scanned_word hc hw hr.not_word) (by simp [opensValue, hc]) hd hh

theorem readsBack_literal {v : Value} (hv : v.IsWritable) : ∃ text ts, ReadsBack (.literal v) text ts 0 := by
  cases v with
  | bool b =>
    cases b with
    | true => exact ⟨_, _, readsBack_word (c := 't') rfl rfl (List.all_eq_true.mp rfl) (.literal_of rfl rfl) rfl⟩
    | false => exact ⟨_, _, readsBack_word (c := 'f') rfl rfl (List.all_eq_true.mp rfl) (.literal_of rfl rfl) rfl⟩
  | text s =>
    have hvalue : (ofText '"' s.toList).value = .text s := congrArg Value.text String.ofList_toList
    exact ⟨_, _, readsBack_leaf rfl (fun _ => scanned_text s _) rfl (.literal_of rfl hvalue) rfl⟩
  | float x =>
    obtain ⟨mantissa, shift, hx⟩ := hv
    obtain ⟨m, hm, hspelling, hback⟩ := Decimal.unfolded_write hx
    obtain ⟨c, cs, hcons, hdigit⟩ := hm.spelling_cons
    have hvalue : (ofMantissa m).value = .float x := congrArg Value.float hback
    have hs : (Formula.literal (.float x)).source = .ok (c :: cs) := by
      rw [← hcons, hspelling, ← Decimal.formulaText_eq_write hx, Formula.source, Value.source, sourceFloat, hx]
    refine ⟨_, _, readsBack_leaf hs (fun hr => ?_) (by simp [opensValue, hdigit]) (.literal_of rfl hvalue) rfl⟩
    rw [← hcons]
    exact scanned_number hm hr.not_numeral
  | _ => cases hv

theorem readsBack_reference {space : Namespace} {path : Value} (hp : path.IsPath) :
    ∃ text ts, ReadsBack (.reference space path) text ts 0 := by
  cases path with
  | text s =>
    have hword (w : List Char) (hw : ∀ d ∈ w, isWordChar d) : ∀ d ∈ w ++ '.' :: s.toList, isWordChar d :=
      List.forall_mem_append.mpr ⟨hw, List.forall_mem_cons.mpr ⟨rfl, hp⟩⟩
    have hvalue : Value.text (String.ofList s.toList) = .text s := congrArg Value.text String.ofList_toList
    cases space with
    | note =>
      exact ⟨_, _, readsBack_word rfl rfl (hword ['m'] (List.all_eq_true.mp rfl)) (.reference_of rfl hvalue) rfl⟩
    | file =>
      exact ⟨_, _, readsBack_word rfl rfl (hword ['i', 'l', 'e'] (List.all_eq_true.mp rfl)) (.reference_of rfl hvalue) rfl⟩
  | _ => cases hp

theorem scanned_open (rest : List Char) : Scanned ['('] [spelled .lparen ['(']] rest :=
  scanned_single rfl rfl fun _ _ => rfl

theorem scanned_close (rest : List Char) : Scanned [')'] [spelled .rparen [')']] rest :=
  scanned_single rfl rfl fun _ _ => rfl

theorem scanned_space (rest : List Char) : Scanned [' '] [] rest := scanned_blank rfl rest

theorem scanned_comma (rest : List Char) : Scanned [',', ' '] [spelled .comma [',']] rest := by
  have hcomma : Scanned [','] [spelled .comma [',']] ([' '] ++ rest) := scanned_single rfl rfl fun _ _ => rfl
  exact hcomma.append (scanned_space rest)

theorem scanned_unary (op : UnaryOp) {rest : List Char} (hr : ∀ c ∈ rest.head?, c ≠ '=') :
    Scanned op.symbol.toList [spelled op.kind op.symbol.toList] rest := by
  cases op with
  | not =>
    refine scanned_single rfl rfl fun d hd => ?_
    have hne := hr d hd
    unfold pairKind?
    split <;> first | rfl | contradiction
  | negate => exact scanned_single rfl rfl fun _ _ => rfl

theorem scanned_binary (op : BinaryOp) (rest : List Char) :
    Scanned op.symbol.toList [spelled op.kind op.symbol.toList] (' ' :: rest) := by
  have hblank {c : Char} (hc : pairKind? c ' ' = none) : ∀ d ∈ (' ' :: rest).head?, pairKind? c d = none := by
    rintro d ⟨⟩
    exact hc
  cases op with
  | and | or | nullish | equals | notEquals | greaterEqual | lessEqual => exact scanned_pair rfl rfl _
  | greater | less | add | subtract | multiply | divide => exact scanned_single rfl rfl (hblank rfl)

theorem ReadsBack.unary (h : ReadsBack f text ts n) (op : UnaryOp) :
    ReadsBack (.unary op f) (op.symbol.toList ++ text) (spelled op.kind op.symbol.toList :: ts) (n + 1) where
  source := by
    rw [Formula.source, h.source]
    rfl
  scanned {rest} hr := by
    obtain ⟨c, cs, rfl, hc⟩ := h.start
    have hsign : ∀ d ∈ (c :: cs ++ rest).head?, d ≠ '=' := by
      rintro d ⟨⟩
      exact hc
    exact (scanned_unary op hsign).append (h.scanned hr)
  start := by cases op <;> exact ⟨_, _, rfl, by decide⟩
  derives := .unary op.kind_unary? h.derives
  height := by rw [Formula.height, h.height]

theorem ReadsBack.binary (hf : ReadsBack f text ts m) (hg : ReadsBack g more us n) (op : BinaryOp) :
    ReadsBack (.binary op f g) ('(' :: text ++ ' ' :: op.symbol.toList ++ ' ' :: more ++ [')'])
      (spelled .lparen ['('] :: (ts ++ spelled op.kind op.symbol.toList :: us) ++ [spelled .rparen [')']])
      (max m n + 1) where
  source := by
    rw [Formula.source, hf.source, hg.source]
    rfl
  scanned {rest} hr := by
    have hright := (hg.scanned (delimited_cons (.inr (.inr rfl)))).append (scanned_close rest)
    have hop := (scanned_space _).append ((scanned_binary op _).append ((scanned_space _).append hright))
    have hleft := (hf.scanned (delimited_cons (.inl rfl))).append hop
    simpa using (scanned_open _).append hleft
  start := ⟨_, _, rfl, by decide⟩
  derives := by
    obtain ⟨level, hlevel⟩ := op.kind_binary?
    have hlt := TokenKind.binary?_level_lt hlevel
    have hleft : Derives (.tier level) ts f m := hf.derives.loosen (by omega) (Nat.le_refl 6)
    have hright : Derives (.tier (level + 1)) us g n := hg.derives.loosen (by omega) (Nat.le_refl 6)
    have hchain := Derives.chain (t := spelled op.kind op.symbol.toList) hlevel hleft hright
    exact .group rfl (.whole (hchain.loosen (Nat.zero_le level) (by omega))) rfl
  height := by rw [Formula.height, hf.height, hg.height, Nat.add_max_add_right]

def callTokens (kind : TokenKind) (name : String) (arguments : List Token) : List Token :=
  spelled kind name.toList :: spelled .lparen ['('] :: arguments ++ [spelled .rparen [')']]

def ScannedArguments (parts : List (List Char)) (ts : List Token) : Prop :=
  ∀ {rest}, Delimited rest → Scanned (Formula.commas parts) ts rest

section Calls

variable {kind : TokenKind} {name : String} {parts : List (List Char)}

theorem ReadsBack.argument (h : ReadsBack f text ts n) : ScannedArguments [text] ts := by
  intro rest hr
  have hone : Formula.commas [text] = text := by simp [Formula.commas]
  rw [hone]
  exact h.scanned hr

theorem ReadsBack.arguments (h : ReadsBack f text ts n) (hp : ScannedArguments (more :: parts) us) :
    ScannedArguments (text :: more :: parts) (ts ++ spelled .comma [','] :: us) := by
  intro rest hr
  have hcommas : Formula.commas (text :: more :: parts) = text ++ ([',', ' '] ++ Formula.commas (more :: parts)) := by
    simp [Formula.commas]
  rw [hcommas]
  exact (h.scanned (delimited_cons (.inr (.inl rfl)))).append ((scanned_comma _).append (hp hr))

theorem scanned_call (hname : ∀ rest, Scanned name.toList [spelled kind name.toList] ('(' :: rest))
    (hp : ScannedArguments parts ts) (rest : List Char) :
    Scanned (Formula.call name parts) (callTokens kind name ts) rest := by
  have hclosed := (hp (delimited_cons (.inr (.inr rfl)))).append (scanned_close rest)
  have hcall := (hname _).append ((scanned_open _).append hclosed)
  simpa [Formula.call, callTokens] using hcall

theorem scanned_name {c : Char} {cs : List Char} (hc : isLetter c) (hw : ∀ d ∈ cs, isWordChar d) (rest : List Char) :
    Scanned (c :: cs) [ofWord (c :: cs)] ('(' :: rest) := by
  refine scanned_word hc hw ?_
  rintro d ⟨⟩
  decide

theorem scanned_if (rest : List Char) : Scanned "if".toList [spelled .ifWord "if".toList] ('(' :: rest) :=
  scanned_name (c := 'i') rfl (List.all_eq_true.mp rfl) rest

theorem scanned_contains (rest : List Char) :
    Scanned "contains".toList [spelled .containsWord "contains".toList] ('(' :: rest) :=
  scanned_name (c := 'c') rfl (List.all_eq_true.mp rfl) rest

theorem scanned_length (rest : List Char) :
    Scanned "length".toList [spelled .lengthWord "length".toList] ('(' :: rest) :=
  scanned_name (c := 'l') rfl (List.all_eq_true.mp rfl) rest

theorem ReadsBack.length (h : ReadsBack f text ts n) :
    ReadsBack (.length f) (Formula.call "length" [text]) (callTokens .lengthWord "length" ts) (n + 1) where
  source := by
    rw [Formula.source, h.source]
    rfl
  scanned _ := scanned_call scanned_length h.argument _
  start := ⟨_, _, rfl, by decide⟩
  derives := .length rfl rfl (h.height ▸ h.whole) rfl
  height := by rw [Formula.height, h.height]

theorem ReadsBack.contains (hf : ReadsBack f text ts m) (hg : ReadsBack g more us n) :
    ReadsBack (.contains f g) (Formula.call "contains" [text, more])
      (callTokens .containsWord "contains" (ts ++ spelled .comma [','] :: us)) (max m n + 1) where
  source := by
    rw [Formula.source, hf.source, hg.source]
    rfl
  scanned _ := scanned_call scanned_contains (hf.arguments hg.argument) _
  start := ⟨_, _, rfl, by decide⟩
  derives := by
    have hd := Derives.contains (w := spelled .containsWord "contains".toList) (l := spelled .lparen ['('])
      (p := spelled .comma [',']) (r := spelled .rparen [')']) rfl rfl hf.whole rfl hg.whole rfl
    rw [hf.height, hg.height, Nat.add_max_add_right] at hd
    simpa [callTokens] using hd
  height := by rw [Formula.height, hf.height, hg.height, Nat.add_max_add_right]

theorem ReadsBack.test (h : ReadsBack f text ts n) :
    ReadsBack (.conditional f (.literal (.bool true)) (.literal (.bool false))) (Formula.call "if" [text])
      (callTokens .ifWord "if" ts) (n + 1) where
  source := by
    rw [Formula.source, h.source]
    rfl
  scanned _ := scanned_call scanned_if h.argument _
  start := ⟨_, _, rfl, by decide⟩
  derives := .test rfl rfl (h.height ▸ h.whole) rfl
  height := by
    simp only [Formula.height, h.height]
    omega

theorem ReadsBack.guarded (hc : ReadsBack f text ts m) (hf : ReadsBack g more us n) :
    ReadsBack (.conditional f g .absent) (Formula.call "if" [text, more])
      (callTokens .ifWord "if" (ts ++ spelled .comma [','] :: us)) (max m n + 1) where
  source := by
    rw [Formula.source, hc.source, hf.source]
    simp only [Formula.isBool, Bool.and_false, Bool.false_eq_true, if_false]
    rfl
  scanned _ := scanned_call scanned_if (hc.arguments hf.argument) _
  start := ⟨_, _, rfl, by decide⟩
  derives := by
    have hd := Derives.guarded (w := spelled .ifWord "if".toList) (l := spelled .lparen ['('])
      (p := spelled .comma [',']) (r := spelled .rparen [')']) rfl rfl hc.whole rfl hf.whole rfl
    rw [hc.height, hf.height, Nat.add_max_add_right] at hd
    simpa [callTokens] using hd
  height := by
    simp only [Formula.height, hc.height, hf.height]
    omega

theorem ReadsBack.choice {c : Formula} {start : List Char} {vs : List Token} {k : Nat}
    (hc : ReadsBack c start vs k) (hf : ReadsBack f text ts m) (hg : ReadsBack g more us n)
    (hne : (f.isBool true && g.isBool false) = false) (hpresent : g.isAbsent = false) :
    ReadsBack (.conditional c f g) (Formula.call "if" [start, text, more])
      (callTokens .ifWord "if" (vs ++ spelled .comma [','] :: (ts ++ spelled .comma [','] :: us)))
      (max k (max m n) + 1) where
  source := by
    rw [Formula.source, hc.source, hf.source, hg.source, hne, hpresent]
    rfl
  scanned _ := scanned_call scanned_if (hc.arguments (hf.arguments hg.argument)) _
  start := ⟨_, _, rfl, by decide⟩
  derives := by
    have hd := Derives.choice (w := spelled .ifWord "if".toList) (l := spelled .lparen ['('])
      (p := spelled .comma [',']) (q := spelled .comma [',']) (r := spelled .rparen [')']) rfl rfl hc.whole rfl
      hf.whole rfl hg.whole rfl
    rw [hc.height, hf.height, hg.height, Nat.add_max_add_right, Nat.add_max_add_right] at hd
    simpa [callTokens] using hd
  height := by simp only [Formula.height, hc.height, hf.height, hg.height, Nat.add_max_add_right]

end Calls

theorem Formula.isBool_iff {b : Bool} : f.isBool b = true ↔ f = .literal (.bool b) := by
  constructor
  · intro h
    unfold isBool at h
    split at h
    · rw [eq_of_beq h]
    · cases h
  · rintro rfl
    exact beq_self_eq_true b

theorem Formula.Writable.readsBack (h : f.Writable) : ∃ text ts n, ReadsBack f text ts n := by
  induction h with
  | literal hv =>
    obtain ⟨text, ts, h⟩ := readsBack_literal hv
    exact ⟨text, ts, 0, h⟩
  | reference hp =>
    obtain ⟨text, ts, h⟩ := readsBack_reference hp
    exact ⟨text, ts, 0, h⟩
  | unary _ ih =>
    obtain ⟨_, _, _, h⟩ := ih
    exact ⟨_, _, _, h.unary _⟩
  | binary _ _ ihf ihg =>
    obtain ⟨_, _, _, hf⟩ := ihf
    obtain ⟨_, _, _, hg⟩ := ihg
    exact ⟨_, _, _, hf.binary hg _⟩
  | guarded _ _ ihc ihf =>
    obtain ⟨_, _, _, hc⟩ := ihc
    obtain ⟨_, _, _, hf⟩ := ihf
    exact ⟨_, _, _, hc.guarded hf⟩
  | @choice c f g _ _ hcomplete ihc ihf ihg =>
    obtain ⟨_, _, _, hc⟩ := ihc
    cases hshort : f.isBool true && g.isBool false with
    | true =>
      obtain ⟨hf, hg⟩ := Bool.and_eq_true_iff.mp hshort
      rw [Formula.isBool_iff.mp hf, Formula.isBool_iff.mp hg]
      exact ⟨_, _, _, hc.test⟩
    | false =>
      obtain ⟨_, _, _, hf⟩ := ihf
      obtain ⟨_, _, _, hg⟩ := ihg
      exact ⟨_, _, _, hc.choice hf hg hshort hcomplete.not_absent⟩
  | contains _ _ ihf ihg =>
    obtain ⟨_, _, _, hf⟩ := ihf
    obtain ⟨_, _, _, hg⟩ := ihg
    exact ⟨_, _, _, hf.contains hg⟩
  | length _ ih =>
    obtain ⟨_, _, _, h⟩ := ih
    exact ⟨_, _, _, h.length⟩

/-- The canonical source of a formula is a text of it: it is read as that formula wherever its depth is allowed,
and refused for its nesting by every lower limit. -/
theorem parse_sourceString (f : Formula) (h : f.Writable) :
    ∃ text tokens, ∃ depth : Nat, f.sourceString = .ok text ∧ tokenize text = .ok tokens ∧ f.depth = .ok depth ∧
      (∀ limit : Int, depth ≤ limit → parse tokens limit = .ok f) ∧
      (∀ limit : Int, 1 ≤ limit → limit < depth → ∃ found, parse tokens limit = .error (.tooDeep limit.toNat found)) := by
  obtain ⟨text, ts, n, hread⟩ := h.readsBack
  have hscanned : Scanned text ts [] := hread.scanned (by rintro c ⟨⟩)
  have htokens := hscanned.tokenize
  obtain ⟨body, hbody, hlexical⟩ := tokenize_ok htokens
  obtain rfl := List.append_cancel_right hbody
  have hpos := h.height_pos
  have hdepth : f.depth = .ok f.height := h.depth_eq
  refine ⟨String.ofList text, ts ++ [eof], f.height, ?_, htokens, hdepth, fun limit hl => ?_, fun limit h1 hl => ?_⟩
  · rw [Formula.sourceString, hread.source]
    rfl
  · exact (hread.whole.parse_within hlexical (by omega)).1 (by omega)
  · exact (hread.whole.parse_within hlexical h1).2 (by omega)

/-- Two minus signs in a row, a `!` before a group, an empty path, a quote and a fraction. -/
theorem guarded_negation_writable :
    let f : Formula := .conditional
      (.unary .not (.binary .or (.reference .file (.text "")) (.literal (.text "a\"\n"))))
      (.unary .negate (.unary .negate (.literal (.float (Float.ofBits 0x3fe0000000000000))))) .absent
    f.Writable ∧ ∃ text tokens, ∃ depth : Nat, f.sourceString = .ok text ∧ tokenize text = .ok tokens ∧
      f.depth = .ok depth ∧ (∀ limit : Int, depth ≤ limit → parse tokens limit = .ok f) ∧
      (∀ limit : Int, 1 ≤ limit → limit < depth →
        ∃ found, parse tokens limit = .error (.tooDeep limit.toNat found)) := by
  intro f
  have hhalf : (Value.float (Float.ofBits 0x3fe0000000000000)).IsWritable := ⟨2 ^ 52, 1021, rfl⟩
  have hpath : (Value.text "").IsPath := by rintro c ⟨⟩
  have hf : f.Writable :=
    .guarded (.unary (.binary (.reference hpath) (.literal trivial))) (.unary (.unary (.literal hhalf)))
  exact ⟨hf, parse_sourceString f hf⟩

end NoteFormula

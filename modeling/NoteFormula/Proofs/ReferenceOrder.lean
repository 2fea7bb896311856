import Mathlib.Data.List.Induction
import Mathlib.Data.List.Nodup
import NoteFormula.Proofs.Answers

/-! # The order of references

The keys of a list of tokens are gathered from left to right. The keys of a formula are gathered by a walk over a stack
of its parts. A derivation puts each reference of the tokens into the formula once and keeps them in their order, so
both come to the same keys: the paths of each namespace in the order of their first appearance.
-/
namespace NoteFormula

theorem eraseDups_concat (paths : List String) (path : String) :
    (paths ++ [path]).eraseDups = if path ∈ paths then paths.eraseDups else paths.eraseDups ++ [path] := by
  rw [List.eraseDups_append]
  split
  · rename_i h
    simp [List.removeAll, h]
  · rename_i h
    simp [List.removeAll, h, List.eraseDups_cons]

theorem eraseDups_nodup (paths : List String) : paths.eraseDups.Nodup := by
  induction paths using List.reverseRecOn with
  | nil => simp
  | append_singleton paths path ih =>
    rw [eraseDups_concat]
    split
    · exact ih
    · rename_i h
      refine List.nodup_append.mpr ⟨ih, by simp, ?_⟩
      rintro other hother _ hpath rfl
      exact h (List.mem_singleton.mp hpath ▸ List.mem_eraseDups.mp hother)

namespace Keys

variable {keys : Keys} {paths : List String} {path : String}

def of (keys : Keys) : Namespace → List Value
  | .note => keys.note
  | .file => keys.file

theorem insert_of_mem (h : path ∈ paths) : insert (paths.map .text) (.text path) = paths.map .text := by
  unfold insert
  rw [if_pos]
  simpa [Value.same] using h

theorem insert_of_not_mem (h : path ∉ paths) :
    insert (paths.map .text) (.text path) = (paths ++ [path]).map .text := by
  unfold insert
  rw [if_neg]
  · simp
  · simpa [Value.same] using h

/-- Texts that are inserted one after the other stay in the order of their first appearance. -/
theorem foldl_insert_texts (paths : List String) :
    (paths.map Value.text).foldl insert [] = paths.eraseDups.map .text := by
  induction paths using List.reverseRecOn with
  | nil => rfl
  | append_singleton paths path ih =>
    rw [List.map_append, List.foldl_append, ih, eraseDups_concat]
    change insert _ (.text path) = _
    split
    · rename_i h
      exact insert_of_mem (List.mem_eraseDups.mpr h)
    · rename_i h
      exact insert_of_not_mem (mt List.mem_eraseDups.mp h)

end Keys

namespace Formula

def pathsOf (space : Namespace) (references : List (Namespace × Value)) : List Value :=
  (references.filter (·.1 = space)).map (·.2)

theorem addReferred_of (references : List (Namespace × Value)) (keys : Keys) (space : Namespace) :
    (addReferred keys references).of space = (pathsOf space references).foldl Keys.insert (keys.of space) := by
  induction references generalizing keys with
  | nil => rfl
  | cons reference references ih =>
    obtain ⟨other, path⟩ := reference
    change (addReferred (keys.add other path) references).of space = _
    rw [ih]
    cases other <;> cases space <;> rfl

end Formula

namespace Token

variable {tokens : List Token} {space : Namespace}

def reference? (t : Token) : Option (Namespace × Value) := t.kind.space?.map (·, t.value)

def pathIn? (space : Namespace) (t : Token) : Option String :=
  match t.kind.space?, t.value with
  | some other, .text path => if other = space then some path else none
  | _, _ => none

theorem references_eq (tokens : List Token) : references tokens = Formula.addReferred {} (tokens.filterMap reference?) := by
  unfold references
  generalize ({} : Keys) = keys
  induction tokens generalizing keys with
  | nil => rfl
  | cons t tokens ih =>
    rw [List.foldl_cons, ih, addReference_eq]
    cases hspace : t.kind.space? with
    | none => simp [reference?, hspace]
    | some space => simp [reference?, hspace, Formula.addReferred]

/-- The tokens of a text refer by texts. -/
theorem pathsOf_reference? (h : ∀ t ∈ tokens, ∀ space, t.kind.space? = some space → ∃ s, t.value = .text s)
    (space : Namespace) :
    Formula.pathsOf space (tokens.filterMap reference?) = (tokens.filterMap (pathIn? space)).map .text := by
  induction tokens with
  | nil => rfl
  | cons t tokens ih =>
    obtain ⟨hhead, htail⟩ := List.forall_mem_cons.mp h
    have hrest := ih htail
    cases hspace : t.kind.space? with
    | none =>
      have hpath : pathIn? space t = none := by simp [pathIn?, hspace]
      simpa [reference?, hspace, hpath] using hrest
    | some other =>
      obtain ⟨path, hvalue⟩ := hhead other hspace
      by_cases hother : other = space
      · simpa [Formula.pathsOf, reference?, pathIn?, hspace, hvalue, hother] using hrest
      · simpa [Formula.pathsOf, reference?, pathIn?, hspace, hvalue, hother] using hrest

/-- The keys of a text are the paths of its references in the order of their first appearance. -/
theorem references_of (ht : ∀ t ∈ tokens, ∀ space, t.kind.space? = some space → ∃ s, t.value = .text s)
    (space : Namespace) :
    (references tokens).of space = (tokens.filterMap (pathIn? space)).eraseDups.map .text := by
  rw [references_eq, Formula.addReferred_of, pathsOf_reference? ht, ← Keys.foldl_insert_texts]
  cases space <;> rfl

end Token

open Token

/-- A formula refers to what its tokens refer to, from left to right. -/
theorem Derives.referred_eq {category : Category} {ts : List Token} {f : Formula} {n : Nat}
    (h : Derives category ts f n) : f.referred = ts.filterMap reference? := by
  have hnone (t : Token) (hspace : t.kind.space? = none) : reference? t = none := by simp [reference?, hspace]
  induction h with
  | whole _ ih => exact ih
  | tighter _ _ ih => exact ih
  | @chain _ _ t _ _ _ _ _ _ hop _ _ ihf ihg =>
    have ht : reference? t = none := hnone t (by cases hk : t.kind <;> simp_all [TokenKind.binary?, TokenKind.space?])
    simp [Formula.referred, ihf, ihg, ht]
  | @unary _ t _ _ _ hop _ ih =>
    have ht : reference? t = none := hnone t (by cases hk : t.kind <;> simp_all [TokenKind.unary?, TokenKind.space?])
    simp [Formula.referred, ih, ht]
  | @literal t hk =>
    have ht : reference? t = none := hnone t (by cases hk : t.kind <;> simp_all [TokenKind.isLiteral, TokenKind.space?])
    simp [Formula.referred, ht]
  | @reference space t hspace => simp [Formula.referred, reference?, hspace]
  | group hl _ hr ih => simp [ih, reference?, hl, hr, TokenKind.space?]
  | test hw hl _ hr ih => simp [Formula.referred, ih, reference?, hw, hl, hr, TokenKind.space?]
  | guarded hw hl _ hp _ hr ihc ihf => simp [Formula.referred, ihc, ihf, reference?, hw, hl, hp, hr, TokenKind.space?]
  | choice hw hl _ hp _ hq _ hr ihc ihf ihg =>
    simp [Formula.referred, ihc, ihf, ihg, reference?, hw, hl, hp, hq, hr, TokenKind.space?]
  | contains hw hl _ hp _ hr ihf ihg => simp [Formula.referred, ihf, ihg, reference?, hw, hl, hp, hr, TokenKind.space?]
  | length hw hl _ hr ih => simp [Formula.referred, ih, reference?, hw, hl, hr, TokenKind.space?]

theorem limit_of_parse {tokens : List Token} {limit : Int} {f : Formula} (h : parse tokens limit = .ok f) :
    1 ≤ limit := by
  by_contra hlow
  have hrefused : Parser.ofTokens tokens limit = .error (.limitTooLow limit) := if_pos (Int.not_le.mp hlow)
  unfold parse at h
  rw [hrefused] at h
  cases h

/-- The keys told from the tokens of a text are the keys of its formula: in each namespace the paths of the references,
each once, in the order of first appearance. -/
theorem token_keys_are_formula_keys (source : String) (tokens : List Token) (limit : Int) (f : Formula)
    (ht : tokenize source = .ok tokens) (hf : parse tokens limit = .ok f) :
    f.keys = .ok (references tokens) ∧ ∀ space,
      (references tokens).of space = (tokens.filterMap (pathIn? space)).eraseDups.map .text ∧
      ((references tokens).of space).Nodup := by
  have hl := limit_of_parse hf
  have hpath := path_of_tokenize ht
  obtain ⟨body, rfl, hb⟩ := tokenize_ok ht
  obtain ⟨n, -, hd⟩ := derives_of_parse hl hb hf
  have hcomplete : f.Complete (fun _ => True) fun _ _ => True :=
    hd.complete (fun _ => trivial) (fun _ _ _ => trivial) (fun _ _ _ _ => trivial)
  have hclosed : (body ++ [eof]).filterMap reference? = body.filterMap reference? := by
    simp [reference?, eof, TokenKind.space?]
  constructor
  · rw [hcomplete.keys_eq, hd.referred_eq, references_eq, hclosed]
  · intro space
    have hkeys := references_of hpath space
    refine ⟨hkeys, ?_⟩
    rw [hkeys]
    exact List.Nodup.map (fun _ _ htext => Value.text.inj htext) (eraseDups_nodup _)

/-- The second mention of a path adds nothing, and the namespaces are apart. -/
theorem repeated_mention_once :
    let tokens := [ofWord "fm.b".toList, spelled .and ['&', '&'], spelled .lparen ['('], ofWord "file.a".toList,
      spelled .or ['|', '|'], ofWord "fm.b".toList, spelled .rparen [')'], eof]
    tokenize "fm.b && (file.a || fm.b)" = .ok tokens ∧ ∃ f, parse tokens 2 = .ok f ∧
      f.keys = .ok (references tokens) ∧ (references tokens).note = [.text "b"] ∧
      (references tokens).file = [.text "a"] := by
  intro tokens
  have ht : tokenize "fm.b && (file.a || fm.b)" = .ok tokens := by cbv
  obtain ⟨hkeys, horder⟩ := token_keys_are_formula_keys _ _ 2 _ ht rfl
  refine ⟨ht, _, rfl, hkeys, (horder .note).1.trans ?_, (horder .file).1.trans ?_⟩
  · cbv
  · cbv

end NoteFormula

import NoteFormula.Proofs.LexicalTokens
import NoteFormula.Token.References

/-! # Reported keys

The keys of a list of tokens are gathered without repeats. No path of a reference is lost on the way, neither
when it is added nor when keys are merged, and nothing else gets in.
-/
namespace NoteFormula

namespace Keys

variable {keys more : Keys} {p q : Value} {s : String}

def Has (keys : Keys) (p : Value) : Prop := p ∈ keys.note ∨ p ∈ keys.file

theorem same_text {itself : Bool} (h : p.same itself (.text s) = true) : p = .text s := by
  cases p <;> simp_all [Value.same, Value.plainNumber?]

theorem subset_insert (list : List Value) (key : Value) : list ⊆ insert list key := by
  intro p hp
  unfold insert
  split
  · exact hp
  · exact List.mem_append_left _ hp

theorem text_mem_insert (list : List Value) (s : String) : .text s ∈ insert list (.text s) := by
  unfold insert
  split
  · rename_i hany
    obtain ⟨p, hp, hsame⟩ := List.any_eq_true.mp hany
    rwa [← same_text hsame]
  · exact List.mem_append_right _ (List.mem_singleton.mpr rfl)

theorem mem_insert {list : List Value} {key : Value} (h : p ∈ insert list key) : p ∈ list ∨ p = key := by
  unfold insert at h
  split at h
  · exact Or.inl h
  · exact (List.mem_append.mp h).imp_right List.mem_singleton.mp

theorem Has.add (h : keys.Has p) (space : Namespace) (q : Value) : (keys.add space q).Has p := by
  cases space with
  | note => exact h.imp_left fun hp => subset_insert _ _ hp
  | file => exact h.imp_right fun hp => subset_insert _ _ hp

theorem has_add (keys : Keys) (space : Namespace) (s : String) : (keys.add space (.text s)).Has (.text s) := by
  cases space with
  | note => exact Or.inl (text_mem_insert _ _)
  | file => exact Or.inr (text_mem_insert _ _)

theorem has_of_add {space : Namespace} (h : (keys.add space q).Has p) : keys.Has p ∨ p = q := by
  cases space with
  | note =>
    rcases h with h | h
    · exact (mem_insert h).imp_left Or.inl
    · exact Or.inl (Or.inr h)
  | file =>
    rcases h with h | h
    · exact Or.inl (Or.inl h)
    · exact (mem_insert h).imp_left Or.inr

theorem subset_foldl_insert (list added : List Value) : list ⊆ added.foldl insert list := by
  induction added generalizing list with
  | nil => exact List.Subset.refl _
  | cons key added ih => exact List.Subset.trans (subset_insert list key) (ih _)

theorem text_mem_foldl_insert {added : List Value} (h : .text s ∈ added) (list : List Value) :
    .text s ∈ added.foldl insert list := by
  induction added generalizing list with
  | nil => cases h
  | cons key added ih =>
    rcases List.mem_cons.mp h with rfl | h
    · exact subset_foldl_insert (insert list (.text s)) added (text_mem_insert list s)
    · exact ih h _

theorem Has.merge_left (h : keys.Has p) (more : Keys) : (keys.merge more).Has p :=
  h.imp (fun hp => subset_foldl_insert _ _ hp) (fun hp => subset_foldl_insert _ _ hp)

theorem Has.merge_right (h : more.Has (.text s)) (keys : Keys) : (keys.merge more).Has (.text s) :=
  h.imp (fun hp => text_mem_foldl_insert hp _) (fun hp => text_mem_foldl_insert hp _)

end Keys

namespace Token

variable {tokens : List Token} {t : Token} {keys : Keys} {p : Value}

theorem addReference_eq (keys : Keys) (t : Token) : addReference keys t =
    match t.kind.space? with
      | some space => keys.add space t.value
      | none => keys := by
  unfold addReference
  cases t.kind <;> rfl

theorem has_foldl_addReference (h : keys.Has p) (tokens : List Token) : (tokens.foldl addReference keys).Has p := by
  induction tokens generalizing keys with
  | nil => exact h
  | cons t tokens ih =>
    refine ih ?_
    rw [addReference_eq]
    split
    · exact h.add _ _
    · exact h

theorem references_has (ht : t ∈ tokens) {space : Namespace} (hk : t.kind.space? = some space) {s : String}
    (hs : t.value = .text s) : (references tokens).Has t.value := by
  unfold references
  generalize ({} : Keys) = keys
  induction tokens generalizing keys with
  | nil => cases ht
  | cons u tokens ih =>
    rcases List.mem_cons.mp ht with rfl | ht
    · refine has_foldl_addReference ?_ tokens
      rw [addReference_eq, hk, hs]
      exact keys.has_add space s
    · exact ih ht _

theorem of_foldl_addReference (h : (tokens.foldl addReference keys).Has p) :
    keys.Has p ∨ ∃ t ∈ tokens, (∃ space, t.kind.space? = some space) ∧ t.value = p := by
  induction tokens generalizing keys with
  | nil => exact Or.inl h
  | cons t tokens ih =>
    rcases ih h with hhead | ⟨u, hu, hspace, hvalue⟩
    · rw [addReference_eq] at hhead
      split at hhead
      · rename_i space hspace
        rcases Keys.has_of_add hhead with hkeys | rfl
        · exact Or.inl hkeys
        · exact Or.inr ⟨t, List.mem_cons_self, ⟨space, hspace⟩, rfl⟩
      · exact Or.inl hhead
    · exact Or.inr ⟨u, List.mem_cons_of_mem _ hu, hspace, hvalue⟩

theorem of_references_has (h : (references tokens).Has p) :
    ∃ t ∈ tokens, (∃ space, t.kind.space? = some space) ∧ t.value = p := by
  rcases of_foldl_addReference h with (hp | hp) | ht
  · cases hp
  · cases hp
  · exact ht

end Token

end NoteFormula

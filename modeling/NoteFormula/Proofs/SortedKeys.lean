import Mathlib.Data.List.Basic
import NoteFormula.Value.Sort

/-! # Sorting keeps the entries

Sorting fails only where two keys do not compare. Where all do, such as among texts, runs are cut, filled up and
merged without losing or repeating an entry.
-/
namespace NoteFormula.Value

def AllCompare {α : Type} (entries : List (Keyed α)) : Prop :=
  ∀ a ∈ entries, ∀ b ∈ entries, ∃ less, comesBefore a.1 b.1 = .ok less

def gathered {α : Type} (runs : List (Stretch α)) : List (Keyed α) := runs.flatMap (·.entries)

variable {α : Type} {all entries sorted : List (Keyed α)} {pending : List (Stretch α)}

theorem allCompare_texts (h : ∀ e ∈ entries, ∃ s, e.1 = text s) : AllCompare entries := by
  intro a ha b hb
  obtain ⟨s, hs⟩ := h a ha
  obtain ⟨t, ht⟩ := h b hb
  rw [hs, ht]
  exact ⟨_, rfl⟩

section Runs

variable (hall : AllCompare all)
include hall

theorem runFrom_ok (falling : Bool) {last : Keyed α} (hlast : last ∈ all) (h : entries ⊆ all) :
    ∃ run rest, runFrom falling last.1 entries = .ok (run, rest) ∧ run ++ rest = entries := by
  induction entries generalizing last with
  | nil => exact ⟨[], [], rfl, rfl⟩
  | cons entry more ih =>
    obtain ⟨hentry, hmore⟩ := List.cons_subset.mp h
    obtain ⟨less, hless⟩ := hall entry hentry last hlast
    obtain ⟨run, rest, hrun, hcut⟩ := ih hentry hmore
    unfold runFrom
    rw [hless]
    change ∃ run rest, (if less = falling then _ else _) = _ ∧ _
    split
    · rw [hrun]
      exact ⟨entry :: run, rest, rfl, by rw [List.cons_append, hcut]⟩
    · exact ⟨[], entry :: more, rfl, rfl⟩

theorem firstRun_ok (h : entries ⊆ all) :
    ∃ run rest, firstRun entries = .ok (run, rest) ∧ (run ++ rest).Perm entries ∧ (entries ≠ [] → run ≠ []) := by
  match entries with
  | [] => exact ⟨[], [], rfl, .nil, id⟩
  | [first] => exact ⟨[first], [], rfl, .refl _, id⟩
  | first :: second :: more =>
    obtain ⟨hfirst, h⟩ := List.cons_subset.mp h
    obtain ⟨hsecond, hmore⟩ := List.cons_subset.mp h
    obtain ⟨falling, hfalling⟩ := hall second hsecond first hfirst
    obtain ⟨run, rest, hrun, hcut⟩ := runFrom_ok hall falling hsecond hmore
    unfold firstRun
    dsimp only
    rw [hfalling]
    change ∃ run rest, (runFrom falling second.1 more >>= _) = _ ∧ _
    rw [hrun, ← hcut]
    refine ⟨_, rest, rfl, ?_, fun _ => ?_⟩
    · split
      · exact (List.reverse_perm _).append_right rest
      · exact .refl _
    · split <;> simp

theorem placeOf_ok {entry : Keyed α} (hentry : entry ∈ all) (h : sorted ⊆ all) (low count : Nat) :
    ∃ place, placeOf entry.1 sorted low count = .ok place ∧ place ≤ low + count := by
  induction count using Nat.strongRecOn generalizing low with
  | _ count ih =>
    rw [placeOf]
    split
    · exact ⟨low, rfl, Nat.le_add_right ..⟩
    split
    · exact ⟨low, rfl, Nat.le_add_right ..⟩
    rename_i middle hmiddle
    obtain ⟨less, hless⟩ := hall entry hentry middle (h (List.mem_of_getElem? hmiddle))
    rw [hless]
    change ∃ place, (if less = true then _ else _) = _ ∧ _
    split
    · obtain ⟨place, hplace, hle⟩ := ih (count / 2) (by omega) low
      exact ⟨place, hplace, by omega⟩
    · obtain ⟨place, hplace, hle⟩ := ih (count - count / 2 - 1) (by omega) (low + count / 2 + 1)
      exact ⟨place, hplace, by omega⟩

theorem insertKeyed_ok {entry : Keyed α} (hentry : entry ∈ all) (h : sorted ⊆ all) :
    ∃ out, insertKeyed sorted entry = .ok out ∧ out.Perm (entry :: sorted) := by
  obtain ⟨place, hplace, hle⟩ := placeOf_ok hall hentry h 0 sorted.length
  unfold insertKeyed
  rw [hplace]
  exact ⟨_, rfl, List.perm_insertIdx entry sorted (by omega)⟩

theorem insertAll_ok (h : sorted ⊆ all) (he : entries ⊆ all) :
    ∃ out, entries.foldlM insertKeyed sorted = .ok out ∧ out.Perm (sorted ++ entries) := by
  induction entries generalizing sorted with
  | nil => exact ⟨sorted, rfl, by rw [List.append_nil]⟩
  | cons entry more ih =>
    obtain ⟨hentry, hmore⟩ := List.cons_subset.mp he
    obtain ⟨inserted, hinserted, hperm⟩ := insertKeyed_ok hall hentry h
    obtain ⟨out, hout, hperm'⟩ := ih (List.Subset.trans hperm.subset (List.cons_subset.mpr ⟨hentry, h⟩)) hmore
    rw [List.foldlM_cons, hinserted]
    exact ⟨out, hout, hperm'.trans ((hperm.append_right more).trans List.perm_middle.symm)⟩

theorem filledRun_ok (least : Nat) (h : entries ⊆ all) :
    ∃ run rest, filledRun least entries = .ok (run, rest) ∧ (run ++ rest).Perm entries ∧ (entries ≠ [] → run ≠ []) := by
  obtain ⟨run, rest, hrun, hperm, hne⟩ := firstRun_ok hall h
  have hsub : run ++ rest ⊆ all := List.Subset.trans hperm.subset h
  have htake : rest.take (least - run.length) ⊆ all :=
    List.Subset.trans (List.take_subset _ _) (List.Subset.trans (List.subset_append_right run rest) hsub)
  obtain ⟨filled, hfilled, hperm'⟩ := insertAll_ok hall (List.Subset.trans (List.subset_append_left run rest) hsub) htake
  unfold filledRun
  rw [hrun]
  change ∃ run' rest', (List.foldlM insertKeyed run (rest.take (least - run.length)) >>= _) = _ ∧ _
  rw [hfilled]
  refine ⟨filled, _, rfl, ?_, fun hentries hfalse => ?_⟩
  · refine (hperm'.append_right _).trans ?_
    rw [List.append_assoc, List.take_append_drop]
    exact hperm
  · rw [hfalse] at hperm'
    exact hne hentries (List.append_eq_nil_iff.mp hperm'.symm.eq_nil).1

theorem mergeRuns_ok {left right : Stretch α} (hl : left.entries ⊆ all) (hr : right.entries ⊆ all) :
    ∃ merged, mergeRuns left right = .ok merged ∧ merged.entries.Perm (left.entries ++ right.entries) := by
  have hperm : (left.entries.merge right.entries fun a b => less? b.1 a.1 != some true).Perm
      (left.entries ++ right.entries) := List.merge_perm_append _
  unfold mergeRuns
  split
  · rename_i a _ b _ heq
    obtain ⟨ha, hb⟩ := Prod.mk.inj heq
    have hafirst : a ∈ all := hl (ha ▸ List.mem_cons_self)
    have hbfirst : b ∈ all := hr (hb ▸ List.mem_cons_self)
    obtain ⟨less, hless⟩ := hall b hbfirst a hafirst
    rw [hless]
    exact ⟨_, rfl, hperm⟩
  · exact ⟨_, rfl, hperm⟩

/-- The last two of the runs that wait become one. -/
theorem mergePair_ok {last before : Stretch α} (h : gathered (last :: before :: pending) ⊆ all) :
    ∃ merged, mergeRuns before last = .ok merged ∧
      (gathered (merged :: pending)).Perm (gathered (last :: before :: pending)) := by
  obtain ⟨hlast, hmore⟩ := List.append_subset.mp h
  obtain ⟨hbefore, -⟩ := List.append_subset.mp hmore
  obtain ⟨merged, hmerged, hperm⟩ := mergeRuns_ok hall hbefore hlast
  have hcut : (gathered (merged :: pending)).Perm (before.entries ++ last.entries ++ gathered pending) :=
    hperm.append_right _
  rw [List.append_assoc] at hcut
  exact ⟨merged, hmerged, hcut.trans (List.perm_append_comm_assoc ..)⟩

theorem mergeDeeper_cons_ok (depth : Nat) (last : Stretch α) (h : gathered (last :: pending) ⊆ all) :
    ∃ merged, mergeDeeper depth (last :: pending) = .ok merged ∧
      (gathered merged).Perm (gathered (last :: pending)) := by
  induction pending generalizing last with
  | nil => exact ⟨[{ last with depth }], by rw [mergeDeeper]; rfl, .refl _⟩
  | cons before pending ih =>
    rw [mergeDeeper]
    split
    · obtain ⟨merged, hmerged, hperm⟩ := mergePair_ok hall h
      obtain ⟨out, hout, hperm'⟩ := ih merged (List.Subset.trans hperm.subset h)
      rw [hmerged]
      exact ⟨out, hout, hperm'.trans hperm⟩
    · exact ⟨{ last with depth } :: before :: pending, rfl, .refl _⟩

theorem mergeDeeper_ok (depth : Nat) (h : gathered pending ⊆ all) :
    ∃ merged, mergeDeeper depth pending = .ok merged ∧ (gathered merged).Perm (gathered pending) := by
  cases pending with
  | nil => exact ⟨[], by rw [mergeDeeper]; rfl, .refl _⟩
  | cons last pending => exact mergeDeeper_cons_ok hall depth last h

theorem mergeAll_cons_ok (last before : Stretch α) (h : gathered (last :: before :: pending) ⊆ all) :
    ∃ out, mergeAll (last :: before :: pending) = .ok out ∧ out.Perm (gathered (last :: before :: pending)) := by
  induction pending generalizing last before with
  | nil =>
    obtain ⟨merged, hmerged, hperm⟩ := mergePair_ok hall h
    rw [mergeAll, hmerged]
    refine ⟨merged.entries, rfl, ?_⟩
    simpa [gathered] using hperm
  | cons first pending ih =>
    rw [mergeAll]
    split
    · obtain ⟨hlast, hmore⟩ := List.append_subset.mp h
      obtain ⟨merged, hmerged, hperm⟩ := mergePair_ok hall hmore
      have hgathered : (gathered (last :: merged :: pending)).Perm (gathered (last :: before :: first :: pending)) :=
        hperm.append_left last.entries
      obtain ⟨out, hout, hperm'⟩ := ih last merged (List.Subset.trans hgathered.subset h)
      rw [hmerged]
      exact ⟨out, hout, hperm'.trans hgathered⟩
    · obtain ⟨merged, hmerged, hperm⟩ := mergePair_ok hall h
      obtain ⟨out, hout, hperm'⟩ := ih merged first (List.Subset.trans hperm.subset h)
      rw [hmerged]
      exact ⟨out, hout, hperm'.trans hperm⟩

theorem mergeAll_ok (h : gathered pending ⊆ all) :
    ∃ out, mergeAll pending = .ok out ∧ out.Perm (gathered pending) := by
  match pending with
  | [] => exact ⟨[], by rw [mergeAll]; rfl, .refl _⟩
  | [last] =>
    refine ⟨last.entries, by rw [mergeAll]; rfl, ?_⟩
    simp [gathered]
  | last :: before :: pending => exact mergeAll_cons_ok hall last before h

theorem sortRuns_ok (length count : Nat) (hcount : entries.length ≤ count) (h : entries ⊆ all)
    (hpending : gathered pending ⊆ all) :
    ∃ out, sortRuns length count pending entries = .ok out ∧ out.Perm (gathered pending ++ entries) := by
  induction count generalizing entries pending with
  | zero =>
    obtain ⟨out, hout, hperm⟩ := mergeAll_ok hall hpending
    rw [List.eq_nil_of_length_eq_zero (Nat.le_zero.mp hcount), List.append_nil]
    exact ⟨out, hout, hperm⟩
  | succ count ih =>
    rw [sortRuns]
    split
    · rename_i hempty
      obtain ⟨out, hout, hperm⟩ := mergeAll_ok hall hpending
      rw [List.isEmpty_iff.mp hempty, List.append_nil]
      exact ⟨out, hout, hperm⟩
    rename_i hsome
    obtain ⟨run, rest, hrun, hperm, hne⟩ := filledRun_ok hall (leastRun length) h
    have hlength := hperm.length_eq
    rw [List.length_append] at hlength
    have hpos := List.length_pos_iff.mpr (hne (fun hnil => hsome (List.isEmpty_iff.mpr hnil)))
    obtain ⟨hrunall, hrestall⟩ := List.append_subset.mp (List.Subset.trans hperm.subset h)
    have hround (merged : List (Stretch α)) (hgathered : (gathered merged).Perm (gathered pending)) :
        ∃ out, sortRuns length count (⟨length - entries.length, run, 0⟩ :: merged) rest = .ok out ∧
          out.Perm (gathered pending ++ entries) := by
      have hsub : gathered (⟨length - entries.length, run, 0⟩ :: merged) ⊆ all :=
        List.append_subset.mpr ⟨hrunall, List.Subset.trans hgathered.subset hpending⟩
      obtain ⟨out, hout, hperm'⟩ := ih (by omega) hrestall hsub
      refine ⟨out, hout, hperm'.trans ?_⟩
      calc
        (run ++ gathered merged ++ rest).Perm (gathered merged ++ (run ++ rest)) := by
          rw [List.append_assoc]
          exact List.perm_append_comm_assoc ..
        (gathered merged ++ (run ++ rest)).Perm (gathered pending ++ entries) := hgathered.append hperm
    rw [hrun]
    cases pending with
    | nil => exact hround [] (.refl _)
    | cons last pending =>
      obtain ⟨merged, hmerged, hgathered⟩ := mergeDeeper_ok hall (boundaryDepth length (length.log2 + 3)
        (last.start + (length - entries.length))
        (last.start + (length - entries.length) + last.entries.length + run.length)) hpending
      change ∃ out, (mergeDeeper _ (last :: pending) >>= fun merged => sortRuns length count (_ :: merged) rest) = _ ∧ _
      rw [hmerged]
      exact hround merged hgathered

end Runs

/-- Keys that all compare are sorted, and nothing is lost or repeated. -/
theorem sortKeyed_ok (h : AllCompare entries) : ∃ out, sortKeyed entries = .ok out ∧ out.Perm entries :=
  sortRuns_ok h entries.length entries.length (Nat.le_refl _) (List.Subset.refl _) (List.nil_subset _)

end NoteFormula.Value

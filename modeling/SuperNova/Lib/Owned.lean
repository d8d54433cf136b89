import Mathlib.Data.List.Nodup
import Mathlib.Logic.Function.Basic

/-!
# Files that are locks

A run takes a lock by creating a file that must not be there, and drops it by removing the file.

* `Owned`: the files that runs hold are there, and no two runs hold one file;
* `Owned.create`, `Owned.remove`, `Owned.forget`: what taking, dropping and losing a lock keeps.
-/

set_option linter.unusedSectionVars false

namespace LockFiles

variable {Run File : Type} [DecidableEq Run] [DecidableEq File]

/-- the files that runs hold are there, each once and by one run -/
structure Owned (files : List File) (held : Run → List File) : Prop where
  present : ∀ i, ∀ f ∈ held i, f ∈ files
  nodup : ∀ i, (held i).Nodup
  own : ∀ i j f, f ∈ held i → f ∈ held j → i = j

variable {files : List File} {held held' : Run → List File} {i : Run} {f : File} {rest : List File}

theorem owned_nil (files : List File) : Owned files fun _ : Run => [] where
  present _ _ h := nomatch h
  nodup _ := List.nodup_nil
  own _ _ _ h := nomatch h

theorem Owned.create (h : Owned files held) (hnew : f ∉ files) :
    Owned (f :: files) (Function.update held i (held i ++ [f])) := by
  have hheld : ∀ j, f ∉ held j := fun j hj => hnew (h.present j f hj)
  have hmem : ∀ j g, g ∈ Function.update held i (held i ++ [f]) j → g ∈ held j ∨ j = i ∧ g = f := by
    intro j g hg
    by_cases hj : j = i
    · subst hj
      rw [Function.update_self] at hg
      rcases List.mem_append.mp hg with hold | hlast
      · exact Or.inl hold
      · exact Or.inr ⟨rfl, List.mem_singleton.mp hlast⟩
    · rw [Function.update_of_ne hj] at hg
      exact Or.inl hg
  constructor
  · intro j g hg
    rcases hmem j g hg with hold | ⟨-, rfl⟩
    · exact List.mem_cons_of_mem f (h.present j g hold)
    · exact List.mem_cons_self
  · intro j
    by_cases hj : j = i
    · subst hj
      rw [Function.update_self]
      exact List.nodup_append.mpr ⟨h.nodup j, List.nodup_singleton f, fun g hg g' hg' heq =>
        hheld j (List.mem_singleton.mp hg' ▸ heq ▸ hg)⟩
    · rw [Function.update_of_ne hj]
      exact h.nodup j
  · intro j k g hj hk
    rcases hmem j g hj with holdj | ⟨rfl, rfl⟩
    · rcases hmem k g hk with holdk | ⟨rfl, rfl⟩
      · exact h.own j k g holdj holdk
      · exact absurd holdj (hheld j)
    · rcases hmem k g hk with holdk | ⟨rfl, -⟩
      · exact absurd holdk (hheld k)
      · rfl

theorem Owned.forget {files' : List File} (h : Owned files held)
    (hsub : ∀ j, (held' j).Sublist (held j)) (hpresent : ∀ j, ∀ g ∈ held' j, g ∈ files → g ∈ files') :
    Owned files' held' where
  present j g hg := hpresent j g hg (h.present j g ((hsub j).subset hg))
  nodup j := (h.nodup j).sublist (hsub j)
  own j k g hj hk := h.own j k g ((hsub j).subset hj) ((hsub k).subset hk)

theorem update_sublist (hsub : rest.Sublist (held i)) (j : Run) :
    (Function.update held i rest j).Sublist (held j) := by
  by_cases hj : j = i
  · subst hj
    rw [Function.update_self]
    exact hsub
  · rw [Function.update_of_ne hj]

theorem Owned.remove (h : Owned files held) (hi : held i = f :: rest) :
    Owned (files.filter (· ≠ f)) (Function.update held i rest) := by
  refine h.forget (update_sublist (hi ▸ List.sublist_cons_self f rest)) fun j g hg hmem => ?_
  have hne : g ≠ f := by
    rintro rfl
    by_cases hj : j = i
    · subst hj
      rw [Function.update_self] at hg
      exact (List.nodup_cons.mp (hi ▸ h.nodup j)).1 hg
    · rw [Function.update_of_ne hj] at hg
      exact hj (h.own j i g hg (hi ▸ List.mem_cons_self))
  exact List.mem_filter.mpr ⟨hmem, by simpa using hne⟩

theorem Owned.not_mem (h : Owned files held) {j : Run} (hi : f ∈ held i) (hne : i ≠ j) : f ∉ held j :=
  fun hj => hne (h.own i j f hi hj)

end LockFiles

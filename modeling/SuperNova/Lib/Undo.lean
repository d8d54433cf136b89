import Mathlib.Data.List.Nodup

/-!
# Undo logs

A system records for each step an entry from which the step can be undone.  `UndoLog` says what
is observed of a state (`same`), when two states hold the same entry (`kept`), and what undoing
an entry does.  If every step can be undone from any state that looks like the one it left and
still has its entry, and no step or undo touches another entry, then undoing a run's steps in
reverse order brings back what was observed before the run (`Run.undo`).
-/

/-- a log of undoable steps -/
structure UndoLog (σ ι : Type) where
  same : σ → σ → Prop
  kept : ι → σ → σ → Prop
  undo : ι → σ → σ → Prop
  same_refl : ∀ s, same s s
  same_trans : ∀ {s t u}, same s t → same t u → same s u
  kept_refl : ∀ i s, kept i s s
  kept_trans : ∀ {i s t u}, kept i s t → kept i t u → kept i s u

namespace UndoLog

variable {σ ι : Type}

/-- a step with entry `i` that can be undone from every state that looks like its result -/
structure Step (L : UndoLog σ ι) (i : ι) (s s' : σ) : Prop where
  undoes : ∀ t, L.same s' t → L.kept i s' t →
    ∃ t', L.undo i t t' ∧ L.same s t' ∧ ∀ j, L.kept j t t'
  others : ∀ j, j ≠ i → L.kept j s s'

/-- a sequence of steps and the entries they made, first to last -/
inductive Run (L : UndoLog σ ι) : σ → List ι → σ → Prop
  | nil (s : σ) : Run L s [] s
  | cons {s s1 s' : σ} {i : ι} {l : List ι} : L.Step i s s1 → Run L s1 l s' → Run L s (i :: l) s'

/-- undo entries one after another -/
inductive UndoAll (L : UndoLog σ ι) : List ι → σ → σ → Prop
  | nil (s : σ) : UndoAll L [] s s
  | cons {s s1 s' : σ} {i : ι} {l : List ι} : L.undo i s s1 → UndoAll L l s1 s' →
    UndoAll L (i :: l) s s'

theorem UndoAll.concat {L : UndoLog σ ι} {l : List ι} {i : ι} {s s1 s' : σ}
    (h : UndoAll L l s s1) (hi : L.undo i s1 s') : UndoAll L (l ++ [i]) s s' := by
  induction h with
  | nil s => exact .cons hi (.nil s')
  | cons hu _ ih => exact .cons hu (ih hi)

theorem Run.kept {L : UndoLog σ ι} {l : List ι} {s s' : σ} {j : ι} (h : Run L s l s')
    (hj : j ∉ l) : L.kept j s s' := by
  induction h with
  | nil s => exact L.kept_refl j s
  | cons hs _ ih =>
    rw [List.mem_cons, not_or] at hj
    exact L.kept_trans (hs.others j hj.1) (ih hj.2)

/-- **undoing a run in reverse order restores what was observed before it** -/
theorem Run.undo {L : UndoLog σ ι} {l : List ι} {s s' : σ} (h : Run L s l s') (hl : l.Nodup) :
    ∀ t, L.same s' t → (∀ i ∈ l, L.kept i s' t) →
      ∃ t', UndoAll L l.reverse t t' ∧ L.same s t' ∧ ∀ j, L.kept j t t' := by
  induction h with
  | nil s => exact fun t ht _ => ⟨t, .nil t, ht, fun j => L.kept_refl j t⟩
  | @cons s s1 s' i l hs hr ih =>
    intro t ht hk
    obtain ⟨hi, hl⟩ := List.nodup_cons.mp hl
    obtain ⟨t1, hu, hsame, hkept⟩ := ih hl t ht fun j hj => hk j (List.mem_cons_of_mem i hj)
    have hk1 : L.kept i s1 t1 :=
      L.kept_trans (hr.kept hi) (L.kept_trans (hk i List.mem_cons_self) (hkept i))
    obtain ⟨t2, hu2, hsame2, hkept2⟩ := hs.undoes t1 hsame hk1
    refine ⟨t2, ?_, hsame2, fun j => L.kept_trans (hkept j) (hkept2 j)⟩
    rw [List.reverse_cons]
    exact hu.concat hu2

end UndoLog

import Mathlib.Data.List.Infix

/-!
# Values that are read off a log

A log only grows; some of its entries record a value, and the last value recorded is the current
one.  Some values are meant to be final.

* `current_split`: the value after some entries is the one before them, or one of them recorded it;
* `Settled`: no final value was ever replaced, and `settled_concat`: what one more entry must do.
-/

namespace Recorded

variable {E V : Type}

/-- the value that the last recording entry recorded -/
def current (reads : E → Option V) (init : V) (log : List E) : V :=
  log.foldl (fun value entry => (reads entry).getD value) init

/-- no final value was replaced -/
def Settled (reads : E → Option V) (init : V) (final : V → Prop) (log : List E) : Prop :=
  ∀ later, later <+: log → ∀ old, old <+: later → final (current reads init old) →
    current reads init later = current reads init old

variable {reads : E → Option V} {init : V} {final : V → Prop} {log : List E} {entry : E}

theorem forall_prefix_iff {P : List E → Prop} {Q : List E → E → Prop} (hnil : P [])
    (hstep : ∀ old entry, P old → (P (old ++ [entry]) ↔ Q old entry)) (log : List E) :
    (∀ old, old <+: log → P old) ↔ ∀ old entry, old ++ [entry] <+: log → Q old entry := by
  constructor
  · intro hall old entry hold
    have hbefore : old <+: log := (List.prefix_append old [entry]).trans hold
    exact (hstep old entry (hall old hbefore)).mp (hall _ hold)
  · intro hkeeps old
    induction old using List.reverseRecOn with
    | nil => exact fun _ => hnil
    | append_singleton old entry ih =>
      intro hold
      have hbefore : P old := ih ((List.prefix_append old [entry]).trans hold)
      exact (hstep old entry hbefore).mpr (hkeeps old entry hold)

theorem forall_prefix_iff_of_inv {P I : List E → Prop} {Q : List E → E → Prop} (hnil : I [])
    (hP : ∀ old, I old → P old) (hstep : ∀ old entry, I old → P (old ++ [entry]) → Q old entry)
    (hkeep : ∀ old entry, I old → Q old entry → I (old ++ [entry])) (log : List E) :
    (∀ old, old <+: log → P old) ↔ ∀ old entry, old ++ [entry] <+: log → Q old entry := by
  have hback {old : List E} {entry : E} (hold : old ++ [entry] <+: log) : old <+: log :=
    (List.prefix_append old [entry]).trans hold
  constructor
  · intro hall
    have hinv : ∀ old, old <+: log → I old := by
      intro old
      induction old using List.reverseRecOn with
      | nil => exact fun _ => hnil
      | append_singleton old entry ih =>
        intro hold
        have hbefore := ih (hback hold)
        exact hkeep old entry hbefore (hstep old entry hbefore (hall _ hold))
    exact fun old entry hold => hstep old entry (hinv old (hback hold)) (hall _ hold)
  · intro hkeeps old hold
    refine hP old ?_
    induction old using List.reverseRecOn with
    | nil => exact hnil
    | append_singleton old entry ih => exact hkeep old entry (ih (hback hold)) (hkeeps old entry hold)

theorem current_append (log later : List E) :
    current reads init (log ++ later) = current reads (current reads init log) later :=
  List.foldl_append

theorem current_concat (log : List E) (entry : E) :
    current reads init (log ++ [entry]) = (reads entry).getD (current reads init log) :=
  current_append log [entry]

theorem current_concat_some {v : V} (h : reads entry = some v) :
    current reads init (log ++ [entry]) = v := by
  rw [current_concat, h, Option.getD_some]

theorem current_concat_none (h : reads entry = none) :
    current reads init (log ++ [entry]) = current reads init log := by
  rw [current_concat, h, Option.getD_none]

theorem current_split (reads : E → Option V) (init : V) (log later : List E) :
    current reads init (log ++ later) = current reads init log ∨
      ∃ entry ∈ later, reads entry = some (current reads init (log ++ later)) := by
  induction later using List.reverseRecOn with
  | nil => exact Or.inl (by rw [List.append_nil])
  | append_singleton later entry ih =>
    rw [← List.append_assoc]
    cases hreads : reads entry with
    | some v =>
      refine Or.inr ⟨entry, List.mem_append_right _ List.mem_cons_self, ?_⟩
      rw [current_concat_some hreads, hreads]
    | none =>
      rw [current_concat_none hreads]
      rcases ih with h | ⟨found, hfound, h⟩
      · exact Or.inl h
      · exact Or.inr ⟨found, List.mem_append_left _ hfound, h⟩

theorem exists_current (init : V) {v : V} (h : entry ∈ log) (hreads : reads entry = some v) :
    ∃ old, old <+: log ∧ current reads init old = v := by
  obtain ⟨before, after, rfl⟩ := List.append_of_mem h
  refine ⟨before ++ [entry], ?_, current_concat_some hreads⟩
  exact ⟨after, by rw [List.append_assoc, List.singleton_append]⟩

theorem settled_nil : Settled reads init final [] := by
  intro later hlater old hold _
  rw [List.prefix_nil.mp hlater] at hold ⊢
  rw [List.prefix_nil.mp hold]

theorem Settled.of_prefix {old : List E} (h : Settled reads init final log) (hold : old <+: log) :
    Settled reads init final old :=
  fun later hlater => h later (hlater.trans hold)

theorem settled_concat : Settled reads init final (log ++ [entry]) ↔
    Settled reads init final log ∧
      ∀ v, reads entry = some v → final (current reads init log) → v = current reads init log := by
  constructor
  · intro h
    refine ⟨h.of_prefix (List.prefix_append ..), fun v hreads hfinal => ?_⟩
    rw [← h _ List.prefix_rfl log (List.prefix_append ..) hfinal, current_concat_some hreads]
  · rintro ⟨h, hentry⟩ later hlater old hold hfinal
    rcases List.prefix_concat_iff.mp hlater with rfl | hlater
    · rcases List.prefix_concat_iff.mp hold with rfl | hold
      · rfl
      · have hcurrent := h log List.prefix_rfl old hold hfinal
        cases hreads : reads entry with
        | none => rw [current_concat_none hreads, hcurrent]
        | some v =>
          rw [current_concat_some hreads, hentry v hreads (hcurrent.symm ▸ hfinal), hcurrent]
    · exact h later hlater old hold hfinal

end Recorded

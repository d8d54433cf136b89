import Mathlib.Data.List.Infix

/-!
# Tasks that take turns

Any number of tasks work on one shared state.  A turn of a task does one indivisible operation and takes the
task on to what it does next; tasks start at any time and take their turns in any order.

* `Pool.step`, `Pool.run`: a start or a turn, and a run of them;
* `getElem?_turn`, `exists_turn_iff`: a turn leaves all tasks but one as they were;
* `Pool.run_inv`: what every task keeps for itself and for the others holds all along;
* `SeenTo`: the shared state is good, or a task has still to see to it; `seenTo_turn_iff`, what a turn must do.
-/

namespace Turns

structure Pool (σ π : Type) where
  shared : σ
  tasks : List π

/-- a task is started with a request, or the `i`-th task takes a turn with an input -/
inductive Move (ρ ω : Type) where
  | start (request : ρ)
  | turn (i : Nat) (input : ω)

/-- where a task starts, and one turn of it -/
structure Program (σ π ρ ω : Type) where
  start : ρ → π
  next : ω → σ → π → σ × π

variable {σ π ρ ω : Type}

def Pool.step (program : Program σ π ρ ω) (pool : Pool σ π) : Move ρ ω → Pool σ π
  | .start request => { pool with tasks := pool.tasks ++ [program.start request] }
  | .turn i input =>
    match pool.tasks[i]? with
    | some task =>
      { shared := (program.next input pool.shared task).1
        tasks := pool.tasks.set i (program.next input pool.shared task).2 }
    | none => pool

def Pool.run (program : Program σ π ρ ω) (pool : Pool σ π) (moves : List (Move ρ ω)) : Pool σ π :=
  moves.foldl (Pool.step program) pool

variable {program : Program σ π ρ ω} {pool : Pool σ π} {i j : Nat} {input : ω} {task other : π}

theorem run_concat (moves : List (Move ρ ω)) (move : Move ρ ω) :
    pool.run program (moves ++ [move]) = (pool.run program moves).step program move :=
  List.foldl_concat _ _ _ _

theorem step_turn (h : pool.tasks[i]? = some task) : pool.step program (.turn i input) =
    ⟨(program.next input pool.shared task).1,
      pool.tasks.set i (program.next input pool.shared task).2⟩ := by
  show (match pool.tasks[i]? with | some _ => _ | none => _) = _
  rw [h]

theorem step_turn_none (h : pool.tasks[i]? = none) : pool.step program (.turn i input) = pool := by
  show (match pool.tasks[i]? with | some _ => _ | none => _) = _
  rw [h]

theorem getElem?_turn (h : pool.tasks[i]? = some task) :
    (pool.step program (.turn i input)).tasks[j]? =
      if j = i then some (program.next input pool.shared task).2 else pool.tasks[j]? := by
  rw [step_turn h, List.getElem?_set]
  have hi : i < pool.tasks.length := (List.getElem?_eq_some_iff.mp h).1
  by_cases hj : j = i
  · rw [if_pos hj.symm, if_pos hj, if_pos hi]
  · rw [if_neg (Ne.symm hj), if_neg hj]

theorem shared_turn (h : pool.tasks[i]? = some task) :
    (pool.step program (.turn i input)).shared = (program.next input pool.shared task).1 :=
  congrArg Pool.shared (step_turn h)

theorem turn_self (h : pool.tasks[i]? = some task) :
    (pool.step program (.turn i input)).tasks[i]? = some (program.next input pool.shared task).2 := by
  rw [getElem?_turn h, if_pos rfl]

theorem turn_other (h : pool.tasks[i]? = some task) (hj : j ≠ i) :
    (pool.step program (.turn i input)).tasks[j]? = pool.tasks[j]? := by
  rw [getElem?_turn h, if_neg hj]

theorem turn_cases (h : pool.tasks[i]? = some task)
    (hother : (pool.step program (.turn i input)).tasks[j]? = some other) :
    (j = i ∧ other = (program.next input pool.shared task).2) ∨ (j ≠ i ∧ pool.tasks[j]? = some other) := by
  by_cases hj : j = i
  · subst hj
    exact .inl ⟨rfl, Option.some.inj (hother.symm.trans (turn_self h))⟩
  · exact .inr ⟨hj, (turn_other h hj).symm.trans hother⟩

theorem exists_turn_iff {P : π → Prop} (h : pool.tasks[i]? = some task) :
    (∃ (j : Nat) (other : π), (pool.step program (.turn i input)).tasks[j]? = some other ∧ P other) ↔
      P (program.next input pool.shared task).2 ∨
        ∃ (j : Nat) (other : π), j ≠ i ∧ pool.tasks[j]? = some other ∧ P other := by
  constructor
  · rintro ⟨j, other, hj, hother⟩
    rcases turn_cases h hj with ⟨rfl, rfl⟩ | ⟨hji, hold⟩
    · exact .inl hother
    · exact .inr ⟨j, other, hji, hold, hother⟩
  · rintro (hnext | ⟨j, other, hji, hj, hother⟩)
    · exact ⟨i, _, turn_self h, hnext⟩
    · exact ⟨j, other, (turn_other h hji).trans hj, hother⟩

theorem start_old (request : ρ) (h : pool.tasks[j]? = some other) :
    (pool.step program (.start request)).tasks[j]? = some other :=
  (List.getElem?_append_left (List.getElem?_eq_some_iff.mp h).1).trans h

theorem start_index {request : ρ} (h : (pool.step program (.start request)).tasks[j]? = some other) :
    pool.tasks[j]? = some other ∨ j = pool.tasks.length ∧ other = program.start request := by
  have h : (pool.tasks ++ [program.start request])[j]? = some other := h
  rw [List.getElem?_append] at h
  split at h
  · exact .inl h
  · rename_i hlength
    rw [List.getElem?_singleton] at h
    split at h
    · exact .inr ⟨by omega, (Option.some.inj h).symm⟩
    · exact absurd h.symm (Option.some_ne_none _)

theorem start_cases {request : ρ} (h : (pool.step program (.start request)).tasks[j]? = some other) :
    pool.tasks[j]? = some other ∨ other = program.start request :=
  (start_index h).imp_right And.right

theorem mem_start {request : ρ} :
    task ∈ (pool.step program (.start request)).tasks ↔ task ∈ pool.tasks ∨ task = program.start request := by
  show task ∈ pool.tasks ++ [_] ↔ _
  rw [List.mem_append, List.mem_singleton]

theorem mem_turn (h : pool.tasks[i]? = some task)
    (hother : other ∈ (pool.step program (.turn i input)).tasks) :
    other = (program.next input pool.shared task).2 ∨ ∃ j, j ≠ i ∧ pool.tasks[j]? = some other := by
  obtain ⟨j, hj⟩ := List.mem_iff_getElem?.mp hother
  exact (turn_cases h hj).imp And.right fun hold => ⟨j, hold⟩

theorem Pool.run_inv {I : Pool σ π → Prop} (hpool : I pool)
    (hstart : ∀ pool request, I pool → I (pool.step program (.start request)))
    (hturn : ∀ pool i input task, I pool → pool.tasks[i]? = some task →
      I (pool.step program (.turn i input)))
    (moves : List (Move ρ ω)) : I (pool.run program moves) := by
  induction moves using List.reverseRecOn with
  | nil => exact hpool
  | append_singleton moves move ih =>
    rw [run_concat]
    cases move with
    | start request => exact hstart _ request ih
    | turn i input =>
      cases h : (pool.run program moves).tasks[i]? with
      | none =>
        rw [step_turn_none h]
        exact ih
      | some task => exact hturn _ i input task ih h

/-! ## what the last task leaves -/

variable {good : σ → Prop} {owes : π → Prop}

/-- a task other than the `i`-th owes something -/
def AnyOther (owes : π → Prop) (pool : Pool σ π) (i : Nat) : Prop :=
  ∃ (j : Nat) (other : π), j ≠ i ∧ pool.tasks[j]? = some other ∧ owes other

/-- the shared state is good, or a task has still to see to it -/
def SeenTo (good : σ → Prop) (owes : π → Prop) (pool : Pool σ π) : Prop :=
  good pool.shared ∨ ∃ (j : Nat) (other : π), pool.tasks[j]? = some other ∧ owes other

theorem seenTo_turn_iff (h : pool.tasks[i]? = some task) :
    SeenTo good owes (pool.step program (.turn i input)) ↔
      good (program.next input pool.shared task).1 ∨ owes (program.next input pool.shared task).2 ∨
        AnyOther owes pool i := by
  unfold SeenTo
  rw [shared_turn h, exists_turn_iff h]
  rfl

theorem SeenTo.others (h : SeenTo good owes pool) (hi : pool.tasks[i]? = some task) (hnot : ¬ owes task) :
    good pool.shared ∨ AnyOther owes pool i := by
  refine h.imp_right ?_
  rintro ⟨j, other, hj, hother⟩
  refine ⟨j, other, ?_, hj, hother⟩
  rintro rfl
  rw [Option.some.inj (hi.symm.trans hj)] at hnot
  exact hnot hother

theorem SeenTo.start (h : SeenTo good owes pool) (request : ρ) :
    SeenTo good owes (pool.step program (.start request)) :=
  h.imp_right fun ⟨j, other, hj, hother⟩ => ⟨j, other, start_old request hj, hother⟩

theorem SeenTo.of_none (h : SeenTo good owes pool) (hnone : ∀ task ∈ pool.tasks, ¬ owes task) : good pool.shared :=
  h.resolve_right fun ⟨_, other, hj, hother⟩ => hnone other (List.mem_of_getElem? hj) hother

end Turns

import SuperNova.Containers.Projection
import SuperNova.Lib.Recorded

/-!
# The active container

* `Kept`: no container is active, or a visible one is, or a request that hides the active one has still to
  set another;
* `kept_iff` (**main**): this holds all along a run exactly when every request that sets the active container
  sets a visible one;
* `archived_active`: a container that is archived between the two statements of its activation.
-/

set_option linter.unusedSectionVars false

namespace Containers

open Turns

/-- the request has hidden the container, and may still set another active -/
def Hides (containerId : String) : DbPhase → Prop
  | .readActive id | .chooseNext id | .point id _ => id = containerId
  | _ => False

/-- no request is at work -/
def Quiet (pool : Pool ProductDb DbPhase) : Prop :=
  ∀ phase ∈ pool.tasks, ∃ container, phase = .returned container

/-- no container is active, or a visible one is -/
def ActiveVisible (db : ProductDb) : Prop :=
  ∀ containerId, db.activeContainer = some containerId → db.visible containerId = true

/-- another request than the `i`-th has hidden the container, and may still set another active -/
def HiddenByOther (pool : Pool ProductDb DbPhase) (i : Nat) (containerId : String) : Prop :=
  ∃ (j : Nat) (phase : DbPhase), j ≠ i ∧ pool.tasks[j]? = some phase ∧ Hides containerId phase

/-- the active container is visible, or a request is about to replace it -/
def Kept (pool : Pool ProductDb DbPhase) : Prop :=
  ∀ containerId, pool.shared.activeContainer = some containerId →
    pool.shared.visible containerId = true ∨
      ∃ (j : Nat) (phase : DbPhase), pool.tasks[j]? = some phase ∧ Hides containerId phase

/-- a request that sets a container active finds it visible, or another request is about to replace it -/
def SetsVisible (pool : Pool ProductDb DbPhase) : DbMove → Prop
  | .start _ => True
  | .turn i _ => ∀ containerId,
      pool.tasks[i]? = some (.setActive containerId) ∨
        (∃ id, pool.tasks[i]? = some (.point id (some containerId))) →
      pool.shared.visible containerId = true ∨ HiddenByOther pool i containerId

section
variable {db : ProductDb} {pool : Pool ProductDb DbPhase} {i : Nat} {input : Input}
  {containerId id : String}

theorem Kept.activeVisible (h : Kept pool) (hquiet : Quiet pool) : ActiveVisible pool.shared := by
  intro containerId hactive
  refine (h containerId hactive).resolve_right ?_
  rintro ⟨j, phase, hj, hhides⟩
  obtain ⟨container, rfl⟩ := hquiet phase (List.mem_of_getElem? hj)
  exact hhides

/-! ## statements -/

theorem visible_upsertRow {container : ContainerRecord} :
    (db.upsertRow container).visible id =
      if id = container.containerId then !container.status.hidden else db.visible id := by
  rw [ProductDb.visible, ProductDb.upsertRow, Table.get?_insert]
  by_cases hid : id = container.containerId
  · rw [if_pos hid, if_pos hid]
    rfl
  · rw [if_neg hid, if_neg hid]
    rfl

theorem visible_touch {now : Int} : (db.touch containerId now).visible id = db.visible id := by
  unfold ProductDb.touch
  split
  · rw [ProductDb.visible, Table.get?_modify, ProductDb.visible]
    by_cases hid : id = containerId
    · rw [if_pos hid, Option.any_map]
    · rw [if_neg hid]
  · rfl

theorem activeContainer_touch {now : Int} :
    (db.touch containerId now).activeContainer = db.activeContainer := by
  unfold ProductDb.touch
  split <;> rfl

/-! ## turns -/

theorem Kept.start (h : Kept pool) (request : DbRequest) : Kept (pool.step dbRequests (.start request)) := by
  intro containerId hactive
  refine (h containerId hactive).imp_right ?_
  rintro ⟨j, phase, hj, hhides⟩
  exact ⟨j, phase, start_old request hj, hhides⟩

variable {phase : DbPhase}

theorem Kept.turn (h : Kept pool) (hphase : pool.tasks[i]? = some phase)
    (hactive : (phase.next input pool.shared).1.activeContainer = pool.shared.activeContainer)
    (hvisible : ∀ id, pool.shared.visible id = true →
      (phase.next input pool.shared).1.visible id = true ∨ Hides id (phase.next input pool.shared).2)
    (hhides : ∀ id, pool.shared.activeContainer = some id → Hides id phase →
      Hides id (phase.next input pool.shared).2) :
    Kept (pool.step dbRequests (.turn i input)) := by
  intro containerId hset
  have htask {j : Nat} : (pool.step dbRequests (.turn i input)).tasks[j]? =
      if j = i then some (phase.next input pool.shared).2 else pool.tasks[j]? := getElem?_turn hphase
  have hshared : (pool.step dbRequests (.turn i input)).shared = (phase.next input pool.shared).1 :=
    congrArg Pool.shared (step_turn hphase)
  rw [hshared, hactive] at hset
  rw [hshared]
  rcases h containerId hset with hvis | ⟨j, other, hj, hhidesj⟩
  · exact (hvisible containerId hvis).imp_right fun hnew => ⟨i, _, htask.trans (if_pos rfl), hnew⟩
  · by_cases hij : j = i
    · subst hij
      obtain rfl : phase = other := Option.some.inj (hphase.symm.trans hj)
      exact .inr ⟨j, _, htask.trans (if_pos rfl), hhides containerId hset hhidesj⟩
    · exact .inr ⟨j, other, (htask.trans (if_neg hij)).trans hj, hhidesj⟩

theorem kept_set (hphase : pool.tasks[i]? = some phase)
    (hset : (phase.next input pool.shared).1.activeContainer = some containerId)
    (hvisible : (phase.next input pool.shared).1.visible containerId = pool.shared.visible containerId)
    (hdone : ¬ Hides containerId (phase.next input pool.shared).2) :
    Kept (pool.step dbRequests (.turn i input)) ↔
      pool.shared.visible containerId = true ∨ HiddenByOther pool i containerId := by
  have htask {j : Nat} : (pool.step dbRequests (.turn i input)).tasks[j]? =
      if j = i then some (phase.next input pool.shared).2 else pool.tasks[j]? := getElem?_turn hphase
  have hshared : (pool.step dbRequests (.turn i input)).shared = (phase.next input pool.shared).1 :=
    congrArg Pool.shared (step_turn hphase)
  unfold Kept
  rw [← hvisible, hshared, hset]
  constructor
  · intro h
    refine (h containerId rfl).imp_right ?_
    rintro ⟨j, other, hj, hhides⟩
    rw [htask] at hj
    by_cases hij : j = i
    · rw [if_pos hij] at hj
      exact absurd (Option.some.inj hj ▸ hhides) hdone
    · rw [if_neg hij] at hj
      exact ⟨j, other, hij, hj, hhides⟩
  · intro h id hid
    obtain rfl : containerId = id := Option.some.inj hid
    refine h.imp_right ?_
    rintro ⟨j, other, hij, hj, hhides⟩
    exact ⟨j, other, (htask.trans (if_neg hij)).trans hj, hhides⟩

theorem kept_step (h : Kept pool) (move : DbMove) :
    Kept (pool.step dbRequests move) ↔ SetsVisible pool move := by
  cases move with
  | start request => exact ⟨fun _ => trivial, fun _ => h.start request⟩
  | turn i input =>
    cases hphase : pool.tasks[i]? with
    | none =>
      rw [step_turn_none hphase]
      refine ⟨fun _ containerId hset => ?_, fun _ => h⟩
      rcases hset with hset | ⟨_, hset⟩ <;> rw [hphase] at hset <;> cases hset
    | some phase =>
      have hsets : SetsVisible pool (.turn i input) ↔ ∀ containerId,
          phase = .setActive containerId ∨ (∃ id, phase = .point id (some containerId)) →
          pool.shared.visible containerId = true ∨ HiddenByOther pool i containerId := by
        show (∀ containerId, pool.tasks[i]? = _ ∨ (∃ id, pool.tasks[i]? = _) → _) ↔ _
        simp only [hphase, Option.some.injEq]
      rw [hsets]
      cases phase with
      | upsert container =>
        refine iff_of_true (h.turn hphase rfl ?_ fun _ _ hhides => hhides.elim) (by simp)
        intro id hvisible
        rw [DbPhase.next, visible_upsertRow]
        cases hhidden : container.status.hidden with
        | true =>
          by_cases hid : id = container.containerId
          · exact .inr hid.symm
          · rw [if_neg hid]
            exact .inl hvisible
        | false =>
          refine .inl ?_
          split
          · rfl
          · exact hvisible
      | readActive containerId =>
        refine iff_of_true (h.turn hphase rfl (fun _ hvisible => .inl hvisible) ?_) (by simp)
        rintro id hactive rfl
        rw [DbPhase.next, if_pos hactive]
        rfl
      | chooseNext containerId =>
        refine iff_of_true (h.turn hphase rfl (fun _ hvisible => .inl hvisible) ?_) (by simp)
        rintro id - rfl
        show Hides _ (if _ then _ else _)
        split <;> rfl
      | point containerId next =>
        cases next with
        | none =>
          refine iff_of_true (fun id hactive => ?_) (by simp)
          rw [step_turn hphase] at hactive
          cases hactive
        | some next =>
          have hset : (DbPhase.next input pool.shared (.point containerId (some next))).1.activeContainer =
              some next := rfl
          rw [kept_set hphase hset rfl id]
          simp
      | touch containerId =>
        refine iff_of_true (h.turn hphase activeContainer_touch (fun id hvisible => .inl ?_)
          fun _ _ hhides => hhides.elim) (by simp)
        exact visible_touch.trans hvisible
      | setActive containerId =>
        rw [kept_set hphase rfl rfl id]
        simp
      | read containerId =>
        exact iff_of_true (h.turn hphase rfl (fun _ hvisible => .inl hvisible)
          fun _ _ hhides => hhides.elim) (by simp)
      | returned container =>
        exact iff_of_true (h.turn hphase rfl (fun _ hvisible => .inl hvisible)
          fun _ _ hhides => hhides.elim) (by simp)

end

/-- **the active container** is visible, or a request that hid it is about to replace it, all along a run
exactly when every request that sets it finds it so; then it is visible whenever no request is at work -/
theorem kept_iff (moves : List DbMove) :
    ((∀ old, old <+: moves → Kept (runDb old)) ↔
      ∀ old move, old ++ [move] <+: moves → SetsVisible (runDb old) move) ∧
    ((∀ old move, old ++ [move] <+: moves → SetsVisible (runDb old) move) →
      ∀ old, old <+: moves → Quiet (runDb old) → ActiveVisible (runDb old).shared) := by
  have hiff : (∀ old, old <+: moves → Kept (runDb old)) ↔
      ∀ old move, old ++ [move] <+: moves → SetsVisible (runDb old) move := by
    refine Recorded.forall_prefix_iff (fun _ hactive => nomatch hactive) (fun old move hkept => ?_) moves
    rw [runDb, run_concat]
    exact kept_step hkept move
  exact ⟨hiff, fun hsets old hold hquiet => (hiff.mpr hsets old hold).activeVisible hquiet⟩

/-- the container "a" as its rows are first written -/
def container (status : ContainerStatus) : ContainerRecord where
  containerId := "a"
  workspaceUid := "w"
  title := "Container"
  status
  createdAtMs := 1
  updatedAtMs := 1
  lastActiveAtMs := 1
  defaultModelConfig := none
  contextPolicy := none

/-- the container is created, and archived after its activation has found it visible -/
def archivedWhileActivated : List DbMove :=
  let turn (i : Nat) : DbMove := .turn i ⟨2, none⟩
  [.start (.upsertContainerProjection (container .active)), turn 0, turn 0,
    .start (.setActiveContainerProjection "a"), turn 1,
    .start (.upsertContainerProjection (container .archived)), turn 2, turn 2, turn 2,
    turn 1, turn 1]

/-- all requests have returned, and the archived container is active -/
theorem archived_active :
    ¬ ∀ moves, Quiet (runDb moves) → ActiveVisible (runDb moves).shared := by
  intro h
  have hquiet : Quiet (runDb archivedWhileActivated) := by
    intro phase hphase
    have hreturned : (runDb archivedWhileActivated).tasks.all
        (fun phase => match phase with | .returned _ => true | _ => false) = true := by decide
    have := List.all_eq_true.mp hreturned phase hphase
    cases phase with
    | returned container => exact ⟨container, rfl⟩
    | _ => cases this
  have hvisible := h archivedWhileActivated hquiet "a" (by decide)
  revert hvisible
  decide

end Containers

import SuperNova.Containers.Service
import SuperNova.Lib.Recorded

/-!
# The row of a container and its projection

* `NoneLost`: the kernel row has, for every field that one call alone sets, the value that it wrote;
* `Projected`: the projection is that of the kernel row;
* `current_iff` (**main**): both hold all along a run, the second unless a call has still to project, exactly
  when no update writes back an old value over one of another call, and the call that projects last holds the
  kernel row as it is;
* `update_lost`: two updates of different fields.
-/

set_option linter.unusedSectionVars false

namespace Containers

open Turns

variable (workspaceUid containerId : String)

/-! ## what is kept -/

/-- no other call sets the field -/
def Sole (pool : ServicePool) (i : Nat) (field : Field) : Prop :=
  ∀ (j : Nat) other, j ≠ i → pool.tasks[j]? = some other → ∀ now, other.request.value now field = none

/-- a field that one call alone sets has the value that it wrote -/
def NoneLost (pool : ServicePool) : Prop :=
  ∀ (i : Nat) call now field value, pool.tasks[i]? = some call → call.wroteAt = some now →
    call.request.value now field = some value → Sole pool i field → pool.shared.kernel.field field = value

/-- title, status, model config and context policy -/
structure Shown where
  title : String
  status : ContainerStatus
  defaultModelConfig : Option Json
  contextPolicy : Option Json
  deriving DecidableEq

def ContainerRow.shown (row : ContainerRow) : Shown :=
  ⟨row.title, row.status, row.defaultModelConfig, row.contextPolicy⟩

/-- what the projection shows of a kernel row -/
def AgentContainer.shown (container : AgentContainer) : Shown :=
  let record := kernelContainerToRecord workspaceUid containerId container
  ⟨record.title, record.status, record.defaultModelConfig, record.contextPolicy⟩

def Projected (world : World) : Prop :=
  (world.db.containers.get? containerId).map ContainerRow.shown =
    some (world.kernel.shown workspaceUid containerId)

/-- the call has still to write the projection -/
def CallPhase.toProject : CallPhase → Prop
  | .select | .update _ | .archive | .read | .upsert _ => True
  | .project _ | .setActive _ | .ended => False

/-- another call than the `i`-th has still to write the projection -/
def ProjectedByOther (pool : ServicePool) (i : Nat) : Prop :=
  ∃ (j : Nat) (other : ServiceCall), j ≠ i ∧ pool.tasks[j]? = some other ∧ other.phase.toProject

structure Current (pool : ServicePool) : Prop where
  noneLost : NoneLost pool
  projected : (∃ (j : Nat) (call : ServiceCall), pool.tasks[j]? = some call ∧ call.phase.toProject) ∨
    Projected workspaceUid containerId pool.shared

/-- for every field that another call alone has set, the read row has the value of the kernel row -/
def UpToDate (pool : ServicePool) (i : Nat) (read : AgentContainer) : Prop :=
  ∀ (j : Nat) other at' field value, j ≠ i → pool.tasks[j]? = some other → other.wroteAt = some at' →
    other.request.value at' field = some value → Sole pool j field →
      read.field field = pool.shared.kernel.field field

/-- an update that goes through writes back nothing old, and the call that is the last to write the projection
holds the kernel row as it is; if it fails, the projection was that of the row -/
def Heeds (pool : ServicePool) : ServiceMove → Prop
  | .start _ => True
  | .turn i step => ∀ call, pool.tasks[i]? = some call →
    (step.fails = false → ∀ read, call.phase = .update read → UpToDate pool i read) ∧
    (step.fails = false → ∀ held, call.phase = .upsert held → ProjectedByOther pool i ∨
      held.shown workspaceUid containerId = pool.shared.kernel.shown workspaceUid containerId) ∧
    (step.fails = true → call.phase.toProject → ProjectedByOther pool i ∨
      Projected workspaceUid containerId pool.shared)

variable {workspaceUid containerId}

/-! ## fields -/

section
variable {change : Change} {read row : AgentContainer} {now : Int} {field : Field} {value : Value}

theorem field_apply : (change.apply read now).field field = (change.value now field).getD (read.field field) := by
  cases field with
  | title =>
    unfold Change.apply Change.value AgentContainer.field
    cases change.title <;> rfl
  | status =>
    unfold Change.apply Change.value AgentContainer.field
    cases change.status <;> rfl
  | defaultModelConfig =>
    unfold Change.apply Change.value AgentContainer.field
    cases change.defaultModelConfig <;> rfl
  | contextPolicy =>
    unfold Change.apply Change.value AgentContainer.field
    cases change.contextPolicy <;> rfl
  | updatedAtMs => rfl

theorem field_write (written : AgentContainer) : (row.write written).field field = written.field field := by
  cases field <;> rfl

theorem field_archive : (row.archive now).field field =
    (Request.archive.value now field).getD (row.field field) := by
  cases field <;> rfl

end

/-! ## turns -/

/-- what the statements of a call come from -/
structure Formed (call : ServiceCall) : Prop where
  archive : call.phase = .archive → call.request = .archive
  project : ∀ container, call.phase ≠ .project (.upsert container)
  setActive : ∀ container, call.phase ≠ .setActive (.upsert container)

section
variable {pool : ServicePool} {i : Nat} {call : ServiceCall} {step : ServiceInput} {world : World}

theorem next_request : (call.next workspaceUid containerId step world).2.request = call.request := by
  unfold ServiceCall.next
  split
  · rfl
  · dsimp only
    split <;> rfl

theorem call_turn (hi : pool.tasks[i]? = some call) :
    (pool.step (serviceCalls workspaceUid containerId) (.turn i step)).tasks[i]? =
      some (call.next workspaceUid containerId step pool.shared).2 := turn_self hi

theorem call_cases (hi : pool.tasks[i]? = some call) {j : Nat} {other : ServiceCall}
    (hj : (pool.step (serviceCalls workspaceUid containerId) (.turn i step)).tasks[j]? = some other) :
    (j = i ∧ other = (call.next workspaceUid containerId step pool.shared).2) ∨
      (j ≠ i ∧ pool.tasks[j]? = some other) := turn_cases hi hj

theorem world_turn (hi : pool.tasks[i]? = some call) :
    (pool.step (serviceCalls workspaceUid containerId) (.turn i step)).shared =
      (call.next workspaceUid containerId step pool.shared).1 := shared_turn hi

theorem sole_turn (hi : pool.tasks[i]? = some call) {j : Nat} {field : Field} :
    Sole (pool.step (serviceCalls workspaceUid containerId) (.turn i step)) j field ↔ Sole pool j field := by
  constructor
  · intro h k other hkj hk now
    by_cases hki : k = i
    · subst hki
      obtain rfl : call = other := Option.some.inj (hi.symm.trans hk)
      have hrequest := h k _ hkj (call_turn hi) now
      rw [next_request] at hrequest
      exact hrequest
    · exact h k other hkj ((turn_other hi hki).trans hk) now
  · intro h k other hkj hk now
    rcases call_cases hi hk with ⟨rfl, rfl⟩ | ⟨-, hkold⟩
    · rw [next_request]
      exact h k call hkj hi now
    · exact h k other hkj hkold now

theorem NoneLost.turn (h : NoneLost pool) (hi : pool.tasks[i]? = some call)
    (hkernel : (call.next workspaceUid containerId step pool.shared).1.kernel = pool.shared.kernel)
    (hwrote : (call.next workspaceUid containerId step pool.shared).2.wroteAt = call.wroteAt) :
    NoneLost (pool.step (serviceCalls workspaceUid containerId) (.turn i step)) := by
  intro j other now field value hj hat hvalue hsole
  rw [world_turn hi, hkernel]
  have hsole' : Sole pool j field := (sole_turn hi).mp hsole
  rcases call_cases hi hj with ⟨rfl, rfl⟩ | ⟨-, hjold⟩
  · rw [hwrote] at hat
    rw [next_request] at hvalue
    exact h j call now field value hi hat hvalue hsole'
  · exact h j other now field value hjold hat hvalue hsole'

theorem NoneLost.write_iff (h : NoneLost pool) (hi : pool.tasks[i]? = some call) {now : Int}
    (hwrote : (call.next workspaceUid containerId step pool.shared).2.wroteAt = some now)
    (hown : ∀ field value, call.request.value now field = some value →
      (call.next workspaceUid containerId step pool.shared).1.kernel.field field = value) :
    NoneLost (pool.step (serviceCalls workspaceUid containerId) (.turn i step)) ↔
      UpToDate pool i (call.next workspaceUid containerId step pool.shared).1.kernel := by
  constructor
  · intro hafter j other at' field value hji hj hat hvalue hsole
    have hnew := hafter j other at' field value ((turn_other hi hji).trans hj) hat hvalue
      ((sole_turn hi).mpr hsole)
    rw [world_turn hi] at hnew
    rw [hnew, h j other at' field value hj hat hvalue hsole]
  · intro hup j other at' field value hj hat hvalue hsole
    have hsole' : Sole pool j field := (sole_turn hi).mp hsole
    rw [world_turn hi]
    rcases call_cases hi hj with ⟨rfl, rfl⟩ | ⟨hji, hjold⟩
    · obtain rfl : now = at' := Option.some.inj (hwrote.symm.trans hat)
      rw [next_request] at hvalue
      exact hown field value hvalue
    · rw [hup j other at' field value hji hjold hat hvalue hsole']
      exact h j other at' field value hjold hat hvalue hsole'

theorem projected_turn_iff (hi : pool.tasks[i]? = some call) :
    ((∃ (j : Nat) (other : ServiceCall),
        (pool.step (serviceCalls workspaceUid containerId) (.turn i step)).tasks[j]? = some other ∧
          other.phase.toProject) ∨
      Projected workspaceUid containerId
        (pool.step (serviceCalls workspaceUid containerId) (.turn i step)).shared) ↔
    (call.next workspaceUid containerId step pool.shared).2.phase.toProject ∨ ProjectedByOther pool i ∨
      Projected workspaceUid containerId (call.next workspaceUid containerId step pool.shared).1 := by
  rw [world_turn hi, ← or_assoc]
  exact or_congr_left (exists_turn_iff (P := fun other => other.phase.toProject) hi)

/-! ## statements on the projection -/

theorem shown_touch (db : ProductDb) (id id' : String) (now : Int) :
    ((db.touch id now).containers.get? id').map ContainerRow.shown =
      (db.containers.get? id').map ContainerRow.shown := by
  unfold ProductDb.touch
  split
  · rw [Table.get?_modify]
    split
    · rw [Option.map_map]
      rfl
    · rfl
  · rfl

theorem shown_next (input : Input) (db : ProductDb) (phase : DbPhase) (id : String)
    (h : ∀ container, phase ≠ .upsert container) :
    (((DbPhase.next input db phase).1).containers.get? id).map ContainerRow.shown =
        (db.containers.get? id).map ContainerRow.shown ∧
      ∀ container, (DbPhase.next input db phase).2 ≠ .upsert container := by
  cases phase with
  | upsert container => exact absurd rfl (h container)
  | readActive id' =>
    refine ⟨rfl, fun container => ?_⟩
    unfold DbPhase.next
    dsimp only
    split <;> exact nofun
  | chooseNext id' =>
    refine ⟨rfl, fun container => ?_⟩
    unfold DbPhase.next
    dsimp only
    split <;> exact nofun
  | point id' next => exact ⟨rfl, fun _ => nofun⟩
  | touch id' =>
    refine ⟨shown_touch db id' id input.now, fun container => ?_⟩
    unfold DbPhase.next
    dsimp only
    split <;> exact nofun
  | setActive id' => exact ⟨rfl, fun _ => nofun⟩
  | read id' => exact ⟨rfl, fun _ => nofun⟩
  | returned container => exact ⟨rfl, fun _ => nofun⟩

theorem shown_upsertRow (db : ProductDb) (record : ContainerRecord) :
    ((db.upsertRow record).containers.get? record.containerId).map ContainerRow.shown =
      some ⟨record.title, record.status, record.defaultModelConfig, record.contextPolicy⟩ := by
  unfold ProductDb.upsertRow
  rw [Table.get?_insert, if_pos rfl]
  rfl

theorem shown_upsert (workspaceUid containerId : String) (input : Input) (db : ProductDb) (held : AgentContainer) :
    (((DbPhase.next input db (.upsert (kernelContainerToRecord workspaceUid containerId held))).1).containers.get?
        containerId).map ContainerRow.shown = some (held.shown workspaceUid containerId) ∧
      ∀ container, (DbPhase.next input db
        (.upsert (kernelContainerToRecord workspaceUid containerId held))).2 ≠ .upsert container := by
  constructor
  · exact shown_upsertRow db (kernelContainerToRecord workspaceUid containerId held)
  · intro container
    unfold DbPhase.next
    dsimp only
    split <;> exact nofun

/-! ## steps -/

theorem next_of_fails (hfails : step.fails = true) :
    call.next workspaceUid containerId step world = (world, { call with phase := .ended }) := if_pos hfails

theorem Current.quiet (h : Current workspaceUid containerId pool) (hi : pool.tasks[i]? = some call)
    (hkernel : (call.next workspaceUid containerId step pool.shared).1.kernel = pool.shared.kernel)
    (hwrote : (call.next workspaceUid containerId step pool.shared).2.wroteAt = call.wroteAt)
    (hshown : ((call.next workspaceUid containerId step pool.shared).1.db.containers.get? containerId).map
      ContainerRow.shown = (pool.shared.db.containers.get? containerId).map ContainerRow.shown)
    (hphase : call.phase.toProject →
      (call.next workspaceUid containerId step pool.shared).2.phase.toProject) :
    Current workspaceUid containerId (pool.step (serviceCalls workspaceUid containerId) (.turn i step)) := by
  refine ⟨h.noneLost.turn hi hkernel hwrote, (projected_turn_iff hi).mpr ?_⟩
  rcases h.projected with ⟨j, other, hj, hother⟩ | hprojected
  · by_cases hji : j = i
    · subst hji
      obtain rfl : call = other := Option.some.inj (hi.symm.trans hj)
      exact .inl (hphase hother)
    · exact .inr (.inl ⟨j, other, hji, hj, hother⟩)
  · refine .inr (.inr ?_)
    unfold Projected
    rw [hshown, hkernel]
    exact hprojected

section
variable (hfails : step.fails = false) {phase : DbPhase}
include hfails

theorem next_project (hphase : call.phase = .project phase)
    (hreturned : ∀ container, phase ≠ .returned container) :
    call.next workspaceUid containerId step world =
      ({ world with db := (DbPhase.next step.input world.db phase).1 },
        { call with phase := .project (DbPhase.next step.input world.db phase).2 }) := by
  unfold ServiceCall.next
  rw [if_neg (by simp [hfails]), hphase]
  cases phase with
  | returned container => exact absurd rfl (hreturned container)
  | upsert _ | readActive _ | chooseNext _ | point _ _ | touch _ | setActive _ | read _ => rfl

theorem next_project_returned {container : Option ContainerRecord}
    (hphase : call.phase = .project (.returned container)) :
    call.next workspaceUid containerId step world =
      (world, { call with
        phase := ServiceCall.afterProject containerId step.input world.db call.request container }) := by
  unfold ServiceCall.next
  rw [if_neg (by simp [hfails]), hphase]

theorem next_setActive (hphase : call.phase = .setActive phase)
    (hreturned : ∀ container, phase ≠ .returned container) :
    call.next workspaceUid containerId step world =
      ({ world with db := (DbPhase.next step.input world.db phase).1 },
        { call with phase := .setActive (DbPhase.next step.input world.db phase).2 }) := by
  unfold ServiceCall.next
  rw [if_neg (by simp [hfails]), hphase]
  cases phase with
  | returned container => exact absurd rfl (hreturned container)
  | upsert _ | readActive _ | chooseNext _ | point _ _ | touch _ | setActive _ | read _ => rfl

theorem next_setActive_returned {container : Option ContainerRecord}
    (hphase : call.phase = .setActive (.returned container)) :
    call.next workspaceUid containerId step world = (world, { call with phase := .ended }) := by
  unfold ServiceCall.next
  rw [if_neg (by simp [hfails]), hphase]

end

theorem heeds_turn (hi : pool.tasks[i]? = some call) : Heeds workspaceUid containerId pool (.turn i step) ↔
    (step.fails = false → ∀ read, call.phase = .update read → UpToDate pool i read) ∧
    (step.fails = false → ∀ held, call.phase = .upsert held → ProjectedByOther pool i ∨
      held.shown workspaceUid containerId = pool.shared.kernel.shown workspaceUid containerId) ∧
    (step.fails = true → call.phase.toProject → ProjectedByOther pool i ∨
      Projected workspaceUid containerId pool.shared) := by
  constructor
  · exact fun hall => hall call hi
  · intro hone other hother
    obtain rfl : call = other := Option.some.inj (hi.symm.trans hother)
    exact hone

theorem current_fails (h : Current workspaceUid containerId pool) (hi : pool.tasks[i]? = some call)
    (hfails : step.fails = true) :
    Current workspaceUid containerId (pool.step (serviceCalls workspaceUid containerId) (.turn i step)) ↔
      Heeds workspaceUid containerId pool (.turn i step) := by
  have hnext : call.next workspaceUid containerId step pool.shared =
      (pool.shared, { call with phase := .ended }) := next_of_fails hfails
  rw [heeds_turn hi, hfails]
  constructor
  · intro hafter
    refine ⟨nofun, nofun, fun _ _ => ?_⟩
    have hprojected := (projected_turn_iff hi).mp hafter.projected
    rw [hnext] at hprojected
    exact hprojected.resolve_left id
  · rintro ⟨-, -, hlast⟩
    refine ⟨h.noneLost.turn hi (congrArg (·.1.kernel) hnext) (congrArg (·.2.wroteAt) hnext), ?_⟩
    rw [projected_turn_iff hi, hnext]
    refine .inr ?_
    by_cases hphase : call.phase.toProject
    · exact hlast rfl hphase
    · rcases h.projected with ⟨j, other, hj, hother⟩ | hprojected
      · refine .inl ⟨j, other, ?_, hj, hother⟩
        rintro rfl
        obtain rfl : call = other := Option.some.inj (hi.symm.trans hj)
        exact hphase hother
      · exact .inr hprojected

theorem current_quiet (h : Current workspaceUid containerId pool) (hi : pool.tasks[i]? = some call)
    (hfails : step.fails = false) (hupdate : ∀ read, call.phase ≠ .update read)
    (hupsert : ∀ held, call.phase ≠ .upsert held) {phase : CallPhase}
    (hnext : call.next workspaceUid containerId step pool.shared = (world, { call with phase }))
    (hkernel : world.kernel = pool.shared.kernel)
    (hshown : (world.db.containers.get? containerId).map ContainerRow.shown =
      (pool.shared.db.containers.get? containerId).map ContainerRow.shown)
    (hphase : call.phase.toProject → phase.toProject) :
    Current workspaceUid containerId (pool.step (serviceCalls workspaceUid containerId) (.turn i step)) ↔
      Heeds workspaceUid containerId pool (.turn i step) := by
  rw [heeds_turn hi, hfails]
  refine iff_of_true ?_ ⟨fun _ read hread => absurd hread (hupdate read),
    fun _ held hheld => absurd hheld (hupsert held), nofun⟩
  refine h.quiet hi ?_ ?_ ?_ ?_
  · rw [hnext]
    exact hkernel
  · rw [hnext]
  · rw [hnext]
    exact hshown
  · rw [hnext]
    exact hphase

theorem current_update (h : Current workspaceUid containerId pool) (hi : pool.tasks[i]? = some call)
    (hfails : step.fails = false) {read : AgentContainer} (hphase : call.phase = .update read) :
    Current workspaceUid containerId (pool.step (serviceCalls workspaceUid containerId) (.turn i step)) ↔
      Heeds workspaceUid containerId pool (.turn i step) := by
  let written := call.request.change?.elim read fun change => change.apply read step.input.now
  have hnext : call.next workspaceUid containerId step pool.shared =
      ({ pool.shared with kernel := pool.shared.kernel.write written },
        { call with phase := .upsert written, wroteAt := some step.input.now }) := by
    unfold ServiceCall.next
    rw [if_neg (by simp [hfails]), hphase]
  have hfield (field : Field) : (pool.shared.kernel.write written).field field =
      (call.request.value step.input.now field).getD (read.field field) := by
    rw [field_write]
    unfold Request.value
    show (call.request.change?.elim read _).field field = _
    cases call.request.change? with
    | none => rfl
    | some change => exact field_apply
  have hwrote : (call.next workspaceUid containerId step pool.shared).2.wroteAt = some step.input.now :=
    congrArg (·.2.wroteAt) hnext
  have hlost := h.noneLost.write_iff hi hwrote (fun field value hvalue => by
      rw [hnext]
      show (pool.shared.kernel.write written).field field = value
      rw [hfield, hvalue, Option.getD_some])
  have hup : UpToDate pool i (call.next workspaceUid containerId step pool.shared).1.kernel ↔
      UpToDate pool i read := by
    rw [hnext]
    have hcongr {j : Nat} {other : ServiceCall} {field : Field} (hji : j ≠ i) (hsole : Sole pool j field) :
        (pool.shared.kernel.write written).field field = read.field field := by
      rw [hfield, hsole i call (Ne.symm hji) hi, Option.getD_none]
    constructor
    · intro hafter j other at' field value hji hj hat hvalue hsole
      rw [← hafter j other at' field value hji hj hat hvalue hsole]
      exact (@hcongr j other field hji hsole).symm
    · intro hread j other at' field value hji hj hat hvalue hsole
      rw [← hread j other at' field value hji hj hat hvalue hsole]
      exact @hcongr j other field hji hsole
  rw [heeds_turn hi, hfails]
  constructor
  · intro hafter
    refine ⟨fun _ read' hread => ?_, fun _ held hheld => ?_, nofun⟩
    · obtain rfl : read = read' := CallPhase.update.inj (hphase.symm.trans hread)
      exact hup.mp (hlost.mp hafter.noneLost)
    · exact absurd (hphase.symm.trans hheld) nofun
  · rintro ⟨hread, -, -⟩
    refine ⟨hlost.mpr (hup.mpr (hread rfl read hphase)), ?_⟩
    rw [projected_turn_iff hi, hnext]
    exact .inl trivial

theorem current_archive (h : Current workspaceUid containerId pool) (hi : pool.tasks[i]? = some call)
    (hfails : step.fails = false) (hphase : call.phase = .archive) (hrequest : call.request = .archive) :
    Current workspaceUid containerId (pool.step (serviceCalls workspaceUid containerId) (.turn i step)) ↔
      Heeds workspaceUid containerId pool (.turn i step) := by
  have hnext : call.next workspaceUid containerId step pool.shared =
      ({ pool.shared with kernel := pool.shared.kernel.archive step.input.now },
        { call with phase := .read, wroteAt := some step.input.now }) := by
    unfold ServiceCall.next
    rw [if_neg (by simp [hfails]), hphase]
  have hwrote : (call.next workspaceUid containerId step pool.shared).2.wroteAt = some step.input.now :=
    congrArg (·.2.wroteAt) hnext
  have hlost := h.noneLost.write_iff hi hwrote (fun field value hvalue => by
      rw [hnext]
      show (pool.shared.kernel.archive step.input.now).field field = value
      rw [hrequest] at hvalue
      rw [field_archive, hvalue, Option.getD_some])
  have hup : UpToDate pool i (call.next workspaceUid containerId step pool.shared).1.kernel := by
    rw [hnext]
    intro j other at' field value hji hj hat hvalue hsole
    have hnone := hsole i call (Ne.symm hji) hi step.input.now
    rw [hrequest] at hnone
    show (pool.shared.kernel.archive step.input.now).field field = _
    rw [field_archive, hnone, Option.getD_none]
  rw [heeds_turn hi, hfails]
  refine iff_of_true ⟨hlost.mpr hup, ?_⟩ ⟨?_, ?_, nofun⟩
  · rw [projected_turn_iff hi, hnext]
    exact .inl trivial
  · exact fun _ read hread => absurd (hphase.symm.trans hread) nofun
  · exact fun _ held hheld => absurd (hphase.symm.trans hheld) nofun

theorem current_upsert (h : Current workspaceUid containerId pool) (hi : pool.tasks[i]? = some call)
    (hfails : step.fails = false) {held : AgentContainer} (hphase : call.phase = .upsert held) :
    Current workspaceUid containerId (pool.step (serviceCalls workspaceUid containerId) (.turn i step)) ↔
      Heeds workspaceUid containerId pool (.turn i step) := by
  let result := DbPhase.next step.input pool.shared.db
    (.upsert (kernelContainerToRecord workspaceUid containerId held))
  have hnext : call.next workspaceUid containerId step pool.shared =
      ({ pool.shared with db := result.1 }, { call with phase := .project result.2 }) := by
    unfold ServiceCall.next
    rw [if_neg (by simp [hfails]), hphase]
  have hshown := (shown_upsert workspaceUid containerId step.input
    pool.shared.db held).1
  have hprojected : Projected workspaceUid containerId ({ pool.shared with db := result.1 } : World) ↔
      held.shown workspaceUid containerId = pool.shared.kernel.shown workspaceUid containerId := by
    unfold Projected
    rw [show (_ : Option Shown) = _ from hshown]
    exact Option.some_inj
  rw [heeds_turn hi, hfails]
  constructor
  · intro hafter
    refine ⟨fun _ read hread => absurd (hphase.symm.trans hread) nofun, fun _ held' hheld => ?_, nofun⟩
    obtain rfl : held = held' := CallPhase.upsert.inj (hphase.symm.trans hheld)
    have hcases := (projected_turn_iff hi).mp hafter.projected
    rw [hnext] at hcases
    exact (hcases.resolve_left id).imp_right hprojected.mp
  · rintro ⟨-, hheld, -⟩
    refine ⟨h.noneLost.turn hi (congrArg (·.1.kernel) hnext) (congrArg (·.2.wroteAt) hnext), ?_⟩
    rw [projected_turn_iff hi, hnext]
    exact .inr ((hheld rfl held hphase).imp_right hprojected.mpr)

/-- **one statement** keeps the row and its projection current exactly when it heeds the other calls -/
theorem current_turn (h : Current workspaceUid containerId pool) (hi : pool.tasks[i]? = some call)
    (hformed : Formed call) :
    Current workspaceUid containerId (pool.step (serviceCalls workspaceUid containerId) (.turn i step)) ↔
      Heeds workspaceUid containerId pool (.turn i step) := by
  cases hfails : step.fails with
  | true => exact current_fails h hi hfails
  | false =>
    have hrun : ¬ step.fails = true := by simp [hfails]
    cases hphase : call.phase with
    | select =>
      have hnext : call.next workspaceUid containerId step pool.shared =
          (pool.shared, { call with phase := .update pool.shared.kernel }) := by
        unfold ServiceCall.next
        rw [if_neg hrun, hphase]
      exact current_quiet h hi hfails (by simp [hphase]) (by simp [hphase]) hnext rfl rfl fun _ => trivial
    | update read => exact current_update h hi hfails hphase
    | archive => exact current_archive h hi hfails hphase (hformed.archive hphase)
    | read =>
      have hnext : call.next workspaceUid containerId step pool.shared =
          (pool.shared, { call with phase := .upsert pool.shared.kernel }) := by
        unfold ServiceCall.next
        rw [if_neg hrun, hphase]
      exact current_quiet h hi hfails (by simp [hphase]) (by simp [hphase]) hnext rfl rfl fun _ => trivial
    | upsert held => exact current_upsert h hi hfails hphase
    | project phase =>
      have hproject : ∀ container, phase ≠ .upsert container :=
        fun container heq => hformed.project container (hphase.trans (congrArg _ heq))
      by_cases hreturned : ∃ container, phase = .returned container
      · obtain ⟨container, rfl⟩ := hreturned
        exact current_quiet h hi hfails (by simp [hphase]) (by simp [hphase])
          (next_project_returned hfails hphase) rfl rfl (by simp [hphase, CallPhase.toProject])
      · exact current_quiet h hi hfails (by simp [hphase]) (by simp [hphase])
          (next_project hfails hphase (by simpa using hreturned)) rfl
          (shown_next step.input pool.shared.db phase containerId hproject).1
          (by simp [hphase, CallPhase.toProject])
    | setActive phase =>
      have hactive : ∀ container, phase ≠ .upsert container :=
        fun container heq => hformed.setActive container (hphase.trans (congrArg _ heq))
      by_cases hreturned : ∃ container, phase = .returned container
      · obtain ⟨container, rfl⟩ := hreturned
        exact current_quiet h hi hfails (by simp [hphase]) (by simp [hphase])
          (next_setActive_returned hfails hphase) rfl rfl (by simp [hphase, CallPhase.toProject])
      · exact current_quiet h hi hfails (by simp [hphase]) (by simp [hphase])
          (next_setActive hfails hphase (by simpa using hreturned)) rfl
          (shown_next step.input pool.shared.db phase containerId hactive).1
          (by simp [hphase, CallPhase.toProject])
    | ended =>
      have hnext : call.next workspaceUid containerId step pool.shared =
          (pool.shared, { call with phase := .ended }) := by
        unfold ServiceCall.next
        rw [if_neg hrun, hphase]
        dsimp only
        rw [← hphase]
      exact current_quiet h hi hfails (by simp [hphase]) (by simp [hphase]) hnext rfl rfl (by simp [hphase])

theorem formed_start (request : Request) : Formed (ServiceCall.start request) := by
  unfold ServiceCall.start
  refine ⟨?_, ?_, ?_⟩
  · cases request with
    | archive => exact fun _ => rfl
    | update _ | restore | delete =>
      dsimp only
      split <;> exact nofun
    | get | activate | activeContainerId => exact nofun
  · intro container
    cases request with
    | update _ | restore | delete =>
      dsimp only
      split <;> exact nofun
    | archive | get | activate | activeContainerId => exact nofun
  · intro container
    cases request with
    | update _ | restore | delete =>
      dsimp only
      split <;> exact nofun
    | archive | get | activate | activeContainerId => exact nofun

theorem afterProject_cases (containerId : String) (input : Input) (db : ProductDb) (request : Request)
    (container : Option ContainerRecord) :
    ServiceCall.afterProject containerId input db request container = .ended ∨
      ∃ id, ServiceCall.afterProject containerId input db request container = .setActive (.touch id) := by
  unfold ServiceCall.afterProject
  cases request with
  | activate =>
    dsimp only
    split
    · exact .inr ⟨_, rfl⟩
    · exact .inl rfl
  | activeContainerId =>
    dsimp only
    split
    · exact .inl rfl
    · cases input.choice with
      | none => exact .inl rfl
      | some next =>
        dsimp only
        split
        · exact .inr ⟨_, rfl⟩
        · exact .inl rfl
  | get | update _ | archive | restore | delete => exact .inl rfl

theorem Formed.next (h : Formed call) (step : ServiceInput) (world : World) :
    Formed (call.next workspaceUid containerId step world).2 := by
  cases hfails : step.fails with
  | true =>
    rw [next_of_fails hfails]
    exact ⟨nofun, nofun, nofun⟩
  | false =>
    have hrun : ¬ step.fails = true := by simp [hfails]
    cases hphase : call.phase with
    | select | update _ | archive | read =>
      unfold ServiceCall.next
      rw [if_neg hrun, hphase]
      exact ⟨nofun, nofun, nofun⟩
    | upsert held =>
      have hnext := (shown_upsert workspaceUid containerId step.input
        world.db held).2
      unfold ServiceCall.next
      rw [if_neg hrun, hphase]
      exact ⟨nofun, fun container heq => hnext container (CallPhase.project.inj heq), nofun⟩
    | project phase =>
      by_cases hreturned : ∃ container, phase = .returned container
      · obtain ⟨container, rfl⟩ := hreturned
        rw [next_project_returned hfails hphase]
        rcases afterProject_cases containerId step.input world.db call.request container with
          hend | ⟨id, hset⟩
        · rw [hend]
          exact ⟨nofun, nofun, nofun⟩
        · rw [hset]
          exact ⟨nofun, nofun, nofun⟩
      · have hproject : ∀ container, phase ≠ .upsert container :=
          fun container heq => h.project container (hphase.trans (congrArg _ heq))
        rw [next_project hfails hphase (by simpa using hreturned)]
        exact ⟨nofun, fun container heq => (shown_next step.input world.db phase containerId hproject).2
          container (CallPhase.project.inj heq), nofun⟩
    | setActive phase =>
      by_cases hreturned : ∃ container, phase = .returned container
      · obtain ⟨container, rfl⟩ := hreturned
        rw [next_setActive_returned hfails hphase]
        exact ⟨nofun, nofun, nofun⟩
      · have hactive : ∀ container, phase ≠ .upsert container :=
          fun container heq => h.setActive container (hphase.trans (congrArg _ heq))
        rw [next_setActive hfails hphase (by simpa using hreturned)]
        exact ⟨nofun, nofun, fun container heq => (shown_next step.input world.db phase containerId hactive).2
          container (CallPhase.setActive.inj heq)⟩
    | ended =>
      unfold ServiceCall.next
      rw [if_neg hrun, hphase]
      exact h

theorem formed_step (h : ∀ call ∈ pool.tasks, Formed call) (move : ServiceMove) :
    ∀ call ∈ (pool.step (serviceCalls workspaceUid containerId) move).tasks, Formed call := by
  intro call hcall
  cases move with
  | start request =>
    rcases mem_start.mp hcall with hcall | rfl
    · exact h call hcall
    · exact formed_start request
  | turn i step =>
    cases hi : pool.tasks[i]? with
    | none =>
      rw [step_turn_none hi] at hcall
      exact h call hcall
    | some other =>
      rcases mem_turn hi hcall with rfl | ⟨j, -, hj⟩
      · exact (h other (List.mem_of_getElem? hi)).next step pool.shared
      · exact h call (List.mem_of_getElem? hj)

theorem Current.start (h : Current workspaceUid containerId pool) (request : Request) :
    Current workspaceUid containerId (pool.step (serviceCalls workspaceUid containerId) (.start request)) := by
  constructor
  · intro j other now field value hj hat hvalue hsole
    rcases start_cases hj with hjold | rfl
    · exact h.noneLost j other now field value hjold hat hvalue fun k third hk hthird =>
        hsole k third hk (start_old request hthird)
    · cases hat
  · refine h.projected.imp_left ?_
    rintro ⟨j, other, hj, hphase⟩
    exact ⟨j, other, start_old request hj, hphase⟩

theorem current_step (h : Current workspaceUid containerId pool) (hformed : ∀ call ∈ pool.tasks, Formed call)
    (move : ServiceMove) :
    Current workspaceUid containerId (pool.step (serviceCalls workspaceUid containerId) move) ↔
      Heeds workspaceUid containerId pool move := by
  cases move with
  | start request => exact iff_of_true (h.start request) trivial
  | turn i step =>
    cases hi : pool.tasks[i]? with
    | none =>
      rw [step_turn_none hi]
      exact iff_of_true h fun call hcall => absurd (hi.symm.trans hcall) nofun
    | some call => exact current_turn h hi (hformed call (List.mem_of_getElem? hi))

theorem created_projected (kernel : AgentContainer) (db : ProductDb) :
    Projected workspaceUid containerId (.created workspaceUid containerId kernel db) :=
  shown_upsertRow db (kernelContainerToRecord workspaceUid containerId kernel)

end

variable (workspaceUid containerId)

/-- **the kernel row and the projection are current** all along a run exactly when every statement heeds the
other calls -/
theorem current_iff (kernel : AgentContainer) (db : ProductDb) (moves : List ServiceMove) :
    (∀ old, old <+: moves → Current workspaceUid containerId
      (runService workspaceUid containerId kernel db old)) ↔
    ∀ old move, old ++ [move] <+: moves → Heeds workspaceUid containerId
      (runService workspaceUid containerId kernel db old) move := by
  have hconcat (old : List ServiceMove) (move : ServiceMove) :
      runService workspaceUid containerId kernel db (old ++ [move]) =
        (runService workspaceUid containerId kernel db old).step (serviceCalls workspaceUid containerId) move :=
    run_concat old move
  refine Recorded.forall_prefix_iff_of_inv
    (I := fun old => Current workspaceUid containerId (runService workspaceUid containerId kernel db old) ∧
      ∀ call ∈ (runService workspaceUid containerId kernel db old).tasks, Formed call)
    ⟨⟨?_, .inr (created_projected kernel db)⟩, ?_⟩ (fun old h => h.1) ?_ ?_ moves
  · intro j call now field value hj
    exact absurd (List.mem_of_getElem? hj) List.not_mem_nil
  · exact fun call hcall => absurd hcall List.not_mem_nil
  · rintro old move ⟨hcurrent, hformed⟩ hnext
    rw [hconcat] at hnext
    exact (current_step hcurrent hformed move).mp hnext
  · rintro old move ⟨hcurrent, hformed⟩ hheeds
    rw [hconcat]
    exact ⟨(current_step hcurrent hformed move).mpr hheeds, formed_step hformed move⟩

/-- an update of the title and one of the policy, both of which read the row before either writes it -/
def crossedUpdates : ServicePool :=
  let step : ServiceInput := ⟨⟨7, none⟩, false⟩
  runService "workspace" "container" ⟨some "old", .active, .null, .null, 1, 1⟩ ⟨.empty, none⟩
    ([.start (.update ⟨some "new", none, none, none⟩), .start (.update ⟨none, none, none, some (.bool true)⟩)] ++
      [0, 1, 0, 1, 0, 0, 0, 1, 1, 1].map fun i => .turn i step)

theorem update_lost : crossedUpdates.tasks.map (·.phase) = [.ended, .ended] ∧ ¬ NoneLost crossedUpdates := by
  refine ⟨rfl, fun h => ?_⟩
  have hsole : Sole crossedUpdates 0 .title := by
    intro j other hj hother now
    match j with
    | 0 => exact absurd rfl hj
    | 1 =>
      cases hother
      rfl
    | j + 2 => cases hother
  have htitle := h 0 _ 7 .title (.title (some "new")) rfl rfl rfl hsole
  exact absurd (Option.some.inj (Value.title.inj htitle)) (by decide)

end Containers

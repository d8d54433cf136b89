import SuperNova.Jobs.Lifecycle
import SuperNova.Lib.Text
import SuperNova.Lib.Turns

/-!
# The row of a task

The product reads the status of a task off the same log as the kernel does, with a fold of its own: it
shows a job that waits for an approval as running, it reads two events more, and a closed status stays.

The kernel appends the events of a task and writes its item on the timeline of the container.  The product
has a row for the task, which it brings up to date whenever it is read: a pass copies the status of the item
over the row, then reads the events and writes the status that they tell, each with a statement that replaces
the whole row.

* `taskStatusFromEvents`: the product's fold;
* `taskStatus_eq`: it is the first closed status that is recorded, or else the last one;
* `taskStatus_agrees_iff` (**main**): when it is the kernel's status, all along a log;
* `cancelled_then_completed`: a job that completes after it was cancelled;
* `Pass.next`: one statement of a pass;
* `Settled`, `Shows`: a closed status stays closed, and a row shows the status of a closed log unless a pass
  has still to write it;
* `settled_iff` (**main**): both hold all along a run exactly when no pass writes an open status over a closed
  one, or another status than that of a closed log without a pass to follow;
* `row_reopened`: an old item on the timeline.
-/

set_option linter.unusedSectionVars false

namespace Jobs

open Recorded

/-- an event with the time it was appended -/
abbrev TimedEvent := Event × Nat

def normalizeTaskStatus (status : String) : String :=
  if status = "waiting_approval" then "running" else status

def taskStatusIsClosed (status : String) : Bool :=
  ["completed", "failed", "blocked", "interrupted", "cancelled", "canceled"].contains status

/-- the status that the product takes from an event -/
def taskStatusOf (event : Event) : Option String :=
  match event.eventType with
  | "job_status_changed" => event.status.map normalizeTaskStatus
  | "job_completed" => some "completed"
  | "provider_tool_call_waiting_approval" => none
  | "job_waiting_user" => some "waiting_user"
  | "job_cancelled" => some "cancelled"
  | "job_failed" => some "failed"
  | "job_blocked" => some "blocked"
  | "job_interrupted_by_model_protocol_error" => some "interrupted"
  | _ => none

def taskStatusFromEvents (events : List TimedEvent) : Option (String × Nat) :=
  events.foldl (fun status event =>
    match taskStatusOf event.1 with
    | some next =>
      if (status.map fun current => taskStatusIsClosed current.1).getD false then status
      else some (next, event.2)
    | none => status) none

/-! ## first closed, else last -/

/-- what the product records of an event -/
def recorded (event : TimedEvent) : Option (String × Nat) :=
  (taskStatusOf event.1).map fun next => (next, event.2)

section
variable {log old : List TimedEvent} {e : TimedEvent} {status : String}

theorem taskStatus_concat : taskStatusFromEvents (log ++ [e]) =
    if (taskStatusFromEvents log).any (fun current => taskStatusIsClosed current.1) then
      taskStatusFromEvents log
    else (recorded e).or (taskStatusFromEvents log) := by
  rw [taskStatusFromEvents, List.foldl_concat, ← taskStatusFromEvents, recorded]
  cases taskStatusOf e.1 with
  | none => simp
  | some next => cases taskStatusFromEvents log <;> simp

/-- **the product's status is the first closed one that is recorded, or else the last one** -/
theorem taskStatus_eq (log : List TimedEvent) : taskStatusFromEvents log =
    ((log.filterMap recorded).find? fun current => taskStatusIsClosed current.1).or
      (log.filterMap recorded).getLast? := by
  induction log using List.reverseRecOn with
  | nil => rfl
  | append_singleton log e ih =>
    rw [taskStatus_concat, ih, List.filterMap_append, List.find?_append]
    cases hfind : (log.filterMap recorded).find? fun current => taskStatusIsClosed current.1 with
    | some current =>
      have hclosed : taskStatusIsClosed current.1 = true := by simpa using List.find?_some hfind
      simp [hclosed]
    | none =>
      have hopen : ¬ (log.filterMap recorded).getLast?.any
          (fun current => taskStatusIsClosed current.1) = true := by
        rw [Option.any_eq_true]
        rintro ⟨current, hlast, hclosed⟩
        exact List.find?_eq_none.mp hfind current (List.mem_of_getLast? hlast) hclosed
      rw [Option.none_or, if_neg hopen]
      cases hrec : recorded e with
      | none => simp [hrec]
      | some current => cases hclosed : taskStatusIsClosed current.1 <;> simp [hrec, hclosed]

/-! ## the kernel's status -/

/-- the product's status, where there is one, is the kernel's -/
def StatusAgrees (log : List TimedEvent) : Prop :=
  ∀ current, taskStatusFromEvents log = some current →
    current.1 = normalizeTaskStatus (replay (log.map (·.1)))

/-- after a closed status the kernel reads no other one; before it, an event that the product alone reads
tells the status that the kernel has -/
def InStep (old : List TimedEvent) (e : TimedEvent) : Prop :=
  match (taskStatusFromEvents old).filter fun current => taskStatusIsClosed current.1 with
  | some current => replayStatus e.1 = none ∨ replayStatus e.1 = some current.1
  | none =>
    taskStatusOf e.1 = none ∨ replayStatus e.1 ≠ none ∨
      taskStatusOf e.1 = some (normalizeTaskStatus (replay (old.map (·.1))))

theorem taskStatusOf_of_replay {event : Event} (h : replayStatus event = some status) :
    taskStatusOf event = some (normalizeTaskStatus status) := by
  obtain ⟨eventType, data⟩ := event
  unfold replayStatus at h
  split at h
  · cases h
    rename_i htype
    cases htype
    rfl
  · cases h
    rename_i htype
    cases htype
    rfl
  · cases h
    rename_i htype
    cases htype
    rfl
  · cases h
    rename_i htype
    cases htype
    rfl
  · rename_i htype
    cases htype
    show data.map normalizeTaskStatus = _
    rw [show data = some status from h]
    rfl
  · cases h

theorem normalize_eq_closed {closed : String} (h : taskStatusIsClosed closed = true) :
    closed = normalizeTaskStatus status ↔ status = closed := by
  rw [normalizeTaskStatus]
  split
  · rename_i hwaiting
    rw [hwaiting]
    refine iff_of_false ?_ ?_
    · rintro rfl
      exact absurd h (by decide)
    · rintro rfl
      exact absurd h (by decide)
  · exact eq_comm

theorem replay_map_concat : replay ((old ++ [e]).map (·.1)) =
    (replayStatus e.1).getD (replay (old.map (·.1))) := by
  rw [List.map_append]
  exact current_concat _ _

theorem statusAgrees_concat_iff (h : StatusAgrees old) : StatusAgrees (old ++ [e]) ↔ InStep old e := by
  rw [StatusAgrees, taskStatus_concat, replay_map_concat, InStep]
  by_cases hany : (taskStatusFromEvents old).any (fun current => taskStatusIsClosed current.1) = true
  · obtain ⟨current, hcurrent, hclosed⟩ := (Option.any_eq_true _ _).mp hany
    have hbefore := h current hcurrent
    have hfilter : (some current).filter (fun current => taskStatusIsClosed current.1) = some current :=
      if_pos hclosed
    rw [if_pos hany, hcurrent, hfilter]
    simp only [Option.some.injEq, forall_eq']
    cases hreads : replayStatus e.1 with
    | none => simpa using hbefore
    | some status => simpa using normalize_eq_closed hclosed
  · have hfilter : (taskStatusFromEvents old).filter (fun current => taskStatusIsClosed current.1) =
        none := by
      rw [Option.filter_eq_none_iff]
      exact fun current hcurrent hclosed => hany ((Option.any_eq_true _ _).mpr ⟨current, hcurrent, hclosed⟩)
    rw [if_neg hany, hfilter, recorded]
    cases hreads : replayStatus e.1 with
    | some status =>
      rw [taskStatusOf_of_replay hreads]
      simp
    | none =>
      cases htask : taskStatusOf e.1 with
      | none =>
        refine iff_of_true (fun current hcurrent => ?_) (Or.inl rfl)
        exact h current hcurrent
      | some next => simp

/-- **all along a log the product's status is the kernel's exactly when every event is in step: after a
closed status the kernel reads no other one, and before it an event that the product alone reads tells
what the kernel has** -/
theorem taskStatus_agrees_iff (log : List TimedEvent) :
    taskStatusFromEvents log =
        ((log.filterMap recorded).find? fun current => taskStatusIsClosed current.1).or
          (log.filterMap recorded).getLast? ∧
      ((∀ old, old <+: log → StatusAgrees old) ↔ ∀ old e, old ++ [e] <+: log → InStep old e) := by
  refine ⟨taskStatus_eq log, forall_prefix_iff ?_ (fun old e h => statusAgrees_concat_iff h) log⟩
  intro current hcurrent
  cases hcurrent

end

/-! ## a job that completes after it was cancelled -/

/-- the product keeps the first closed status, the kernel the last; and before any update the product has
no status at all -/
theorem cancelled_then_completed :
    (∃ log : List TimedEvent, log = [(statusChanged "running", 1), (event "job_cancelled", 2),
        (event "job_completed", 3)] ∧
      taskStatusFromEvents log = some ("cancelled", 2) ∧ replay (log.map (·.1)) = "completed" ∧
      ¬ StatusAgrees log) ∧
    taskStatusFromEvents [] = none ∧ replay [] = "created" := by
  refine ⟨⟨_, rfl, rfl, rfl, fun h => ?_⟩, rfl, rfl⟩
  exact absurd (h ("cancelled", 2) rfl) (by decide)

end Jobs

namespace Tasks

open Jobs Turns

/-! ## rows and items -/

/-- `TaskRecord`, of a task with a job -/
structure TaskRecord where
  title : String
  goal : String
  status : String
  createdAtMs : Nat
  updatedAtMs : Nat
  deriving DecidableEq

/-- the item of the task on the timeline -/
structure TimelineItem where
  title : Option String
  status : String
  createdAtMs : Int
  updatedAtMs : Int

def timelineTaskToRecord (item : TimelineItem) : TaskRecord where
  title := item.title.getD "Task"
  goal := ""
  status := item.status
  createdAtMs := item.createdAtMs.toNat
  updatedAtMs := item.updatedAtMs.toNat

def mergeExistingTaskRecord (existing record : TaskRecord) : TaskRecord where
  title := if Text.blank record.title || record.title == "Task" then existing.title else record.title
  goal := if Text.blank record.goal then existing.goal else record.goal
  status := record.status
  createdAtMs := min existing.createdAtMs record.createdAtMs
  updatedAtMs := max existing.updatedAtMs record.updatedAtMs

/-- the row that `reconcile_task_record` writes, if it writes one -/
def reconcileTaskRecord (task : TaskRecord) (events : List TimedEvent) : Option TaskRecord :=
  match taskStatusFromEvents events with
  | none => none
  | some (status, updatedAtMs) =>
    if task.status = status ∧ updatedAtMs ≤ task.updatedAtMs then none
    else some { task with status, updatedAtMs := max task.updatedAtMs updatedAtMs }

/-! ## passes -/

/-- the calls that bring the row up to date; `snapshot` makes two passes as of `containerGet` -/
inductive HydrationCall where
  | list
  | get
  | containerGet
  | repairWorkspaceProjection

inductive PassPhase where
  | readTimeline
  /-- the row is read to merge it into the record of the item -/
  | merge (item : TimelineItem)
  /-- the record of the item replaces the row -/
  | copy (record : TaskRecord)
  | readRow
  | readEvents (task : TaskRecord)
  /-- the row with the status of the events replaces the row -/
  | write (record : TaskRecord)
  | ended

/-- the log, the item on the timeline and the row -/
structure TaskWorld where
  events : List TimedEvent
  timeline : Option TimelineItem
  row : TaskRecord

def Pass.start : HydrationCall → PassPhase
  | .list | .containerGet => .readTimeline
  | .get | .repairWorkspaceProjection => .readRow

/-- one statement of a pass, or its failure -/
def Pass.next (fails : Bool) (world : TaskWorld) : PassPhase → TaskWorld × PassPhase
  | .readTimeline =>
    -- a pass without the timeline goes on with the row
    (world, if fails then .readRow else world.timeline.elim .readRow .merge)
  | .merge item =>
    let record := timelineTaskToRecord item
    (world, .copy (if fails then record else mergeExistingTaskRecord world.row record))
  | .copy record => if fails then (world, .ended) else ({ world with row := record }, .readRow)
  | .readRow => (world, if fails then .ended else .readEvents world.row)
  | .readEvents task =>
    (world, if fails then .ended else (reconcileTaskRecord task world.events).elim .ended .write)
  | .write record => if fails then (world, .ended) else ({ world with row := record }, .ended)
  | .ended => (world, .ended)

def passes : Program TaskWorld PassPhase HydrationCall Bool := ⟨Pass.start, Pass.next⟩

abbrev TaskPool := Pool TaskWorld PassPhase

inductive TaskMove where
  | append (event : TimedEvent)
  | writeTimeline (item : TimelineItem)
  | hydration (move : Turns.Move HydrationCall Bool)

def TaskPool.step (pool : TaskPool) : TaskMove → TaskPool
  | .append event => { pool with shared := { pool.shared with events := pool.shared.events ++ [event] } }
  | .writeTimeline item => { pool with shared := { pool.shared with timeline := some item } }
  | .hydration move => Pool.step passes pool move

/-- a task that has no events yet -/
def newTask (timeline : Option TimelineItem) (row : TaskRecord) : TaskPool := ⟨⟨[], timeline, row⟩, []⟩

def runTask (timeline : Option TimelineItem) (row : TaskRecord) (moves : List TaskMove) : TaskPool :=
  moves.foldl TaskPool.step (newTask timeline row)

/-! ## what is kept -/

/-- the closed status that the log determines -/
def closedStatus (events : List TimedEvent) : Option (String × Nat) :=
  (taskStatusFromEvents events).filter fun status => taskStatusIsClosed status.1

/-- the pass will read the row and the events, or has a row to write that shows the status -/
def PassPhase.Brings (status : String × Nat) : PassPhase → Prop
  | .readTimeline | .merge _ | .copy _ | .readRow => True
  | .readEvents task => ¬ (task.status = status.1 ∧ status.2 ≤ task.updatedAtMs)
  | .write record => record.status = status.1
  | .ended => False

def BroughtBy (pool : TaskPool) (status : String × Nat) : Prop :=
  ∃ (j : Nat) (phase : PassPhase), pool.tasks[j]? = some phase ∧ phase.Brings status

/-- another pass than the `i`-th brings the status -/
def BroughtByOther (pool : TaskPool) (i : Nat) (status : String × Nat) : Prop :=
  ∃ (j : Nat) (phase : PassPhase), j ≠ i ∧ pool.tasks[j]? = some phase ∧ phase.Brings status

/-- once the log determines a closed status, the row shows it, or a pass brings it -/
def Shows (pool : TaskPool) : Prop :=
  ∀ status, closedStatus pool.shared.events = some status →
    pool.shared.row.status = status.1 ∨ BroughtBy pool status

def Closed (pool : TaskPool) : Prop := taskStatusIsClosed pool.shared.row.status = true

/-- after these moves the row is closed if it was so before, and shows the status of a closed log -/
structure Settled (timeline : Option TimelineItem) (row : TaskRecord) (moves : List TaskMove) : Prop where
  stays : ∀ old, old <+: moves → Closed (runTask timeline row old) → Closed (runTask timeline row moves)
  shows : Shows (runTask timeline row moves)

/-- when the log becomes closed, the row shows the status or a pass brings it; a status that is written is
closed if that of the row is, and after a copy the pass itself goes on, but a pass that ends with another
status than that of a closed log has one to follow it -/
def Heeds (pool : TaskPool) : TaskMove → Prop
  | .append event => closedStatus pool.shared.events = none →
      ∀ status, closedStatus (pool.shared.events ++ [event]) = some status →
        pool.shared.row.status = status.1 ∨ BroughtBy pool status
  | .writeTimeline _ => True
  | .hydration (.start _) => True
  | .hydration (.turn i fails) => ∀ phase, pool.tasks[i]? = some phase →
    (fails = false → ∀ record, phase = .copy record ∨ phase = .write record → Closed pool →
      taskStatusIsClosed record.status = true) ∧
    (fails = false → ∀ record, phase = .write record →
      ∀ status, closedStatus pool.shared.events = some status →
        record.status = status.1 ∨ BroughtByOther pool i status) ∧
    (fails = true → (Pass.next fails pool.shared phase).2 = .ended →
      ∀ status, closedStatus pool.shared.events = some status → phase.Brings status →
        pool.shared.row.status = status.1 ∨ BroughtByOther pool i status)

/-! ## one move -/

section
variable {pool : TaskPool} {i : Nat} {phase : PassPhase} {fails : Bool} {events : List TimedEvent}
  {status : String × Nat} {record : TaskRecord}

theorem closedStatus_eq_some : closedStatus events = some status ↔
    taskStatusFromEvents events = some status ∧ taskStatusIsClosed status.1 = true := by
  unfold closedStatus
  rw [Option.filter_eq_some_iff]

theorem closedStatus_concat (h : closedStatus events = some status) (event : TimedEvent) :
    closedStatus (events ++ [event]) = some status := by
  obtain ⟨hlog, hclosed⟩ := closedStatus_eq_some.mp h
  refine closedStatus_eq_some.mpr ⟨?_, hclosed⟩
  rw [taskStatus_concat, hlog, if_pos]
  exact hclosed

theorem reconcile_closed {task : TaskRecord} (h : closedStatus events = some status)
    (hbrings : (PassPhase.readEvents task).Brings status) :
    ∃ record, reconcileTaskRecord task events = some record ∧ record.status = status.1 := by
  obtain ⟨hlog, -⟩ := closedStatus_eq_some.mp h
  refine ⟨{ task with status := status.1, updatedAtMs := max task.updatedAtMs status.2 }, ?_, rfl⟩
  unfold reconcileTaskRecord
  rw [hlog]
  exact if_neg hbrings

theorem next_events (world : TaskWorld) : (Pass.next fails world phase).1.events = world.events := by
  cases phase with
  | copy _ | write _ => cases fails <;> rfl
  | readTimeline | merge _ | readRow | readEvents _ | ended => rfl

theorem shows_turn_iff (hi : pool.tasks[i]? = some phase) :
    Shows (pool.step (.hydration (.turn i fails))) ↔
      ∀ status, closedStatus pool.shared.events = some status →
        (Pass.next fails pool.shared phase).1.row.status = status.1 ∨
          (Pass.next fails pool.shared phase).2.Brings status ∨ BroughtByOther pool i status := by
  have hshared : (pool.step (.hydration (.turn i fails))).shared = (Pass.next fails pool.shared phase).1 :=
    shared_turn hi
  unfold Shows
  rw [hshared, next_events]
  refine forall_congr' fun status => imp_congr_right fun _ => or_congr_right ?_
  exact exists_turn_iff (P := fun other => other.Brings status) hi

theorem Shows.cases (h : Shows pool) (hi : pool.tasks[i]? = some phase)
    (hclosed : closedStatus pool.shared.events = some status) :
    pool.shared.row.status = status.1 ∨ phase.Brings status ∨ BroughtByOther pool i status := by
  refine (h status hclosed).imp_right ?_
  rintro ⟨j, other, hj, hbrings⟩
  by_cases hji : j = i
  · subst hji
    obtain rfl : phase = other := Option.some.inj (hi.symm.trans hj)
    exact .inl hbrings
  · exact .inr ⟨j, other, hji, hj, hbrings⟩

/-- what a turn keeps -/
def Keeps (pool : TaskPool) (move : TaskMove) : Prop :=
  (Closed pool → Closed (pool.step move)) ∧ Shows (pool.step move)

theorem keeps_of_going_on (h : Shows pool) (hi : pool.tasks[i]? = some phase)
    (hworld : (Pass.next fails pool.shared phase).1 = pool.shared)
    (hbrings : ∀ status, closedStatus pool.shared.events = some status → phase.Brings status →
      pool.shared.row.status = status.1 ∨ (Pass.next fails pool.shared phase).2.Brings status ∨
        BroughtByOther pool i status) :
    Keeps pool (.hydration (.turn i fails)) := by
  constructor
  · intro hclosed
    have hshared : (pool.step (.hydration (.turn i fails))).shared = pool.shared := (shared_turn hi).trans hworld
    unfold Closed
    rw [hshared]
    exact hclosed
  · rw [shows_turn_iff hi, hworld]
    intro status hclosed
    rcases h.cases hi hclosed with hrow | hphase | hother
    · exact .inl hrow
    · exact hbrings status hclosed hphase
    · exact .inr (.inr hother)

theorem closed_turn_iff (hi : pool.tasks[i]? = some phase)
    (hrow : (Pass.next fails pool.shared phase).1.row = record) :
    Closed (pool.step (.hydration (.turn i fails))) ↔ taskStatusIsClosed record.status = true := by
  have hshared : (pool.step (.hydration (.turn i fails))).shared = (Pass.next fails pool.shared phase).1 :=
    shared_turn hi
  unfold Closed
  rw [hshared, hrow]

theorem heeds_turn (hi : pool.tasks[i]? = some phase) : Heeds pool (.hydration (.turn i fails)) ↔
    (fails = false → ∀ record, phase = .copy record ∨ phase = .write record → Closed pool →
      taskStatusIsClosed record.status = true) ∧
    (fails = false → ∀ record, phase = .write record →
      ∀ status, closedStatus pool.shared.events = some status →
        record.status = status.1 ∨ BroughtByOther pool i status) ∧
    (fails = true → (Pass.next fails pool.shared phase).2 = .ended →
      ∀ status, closedStatus pool.shared.events = some status → phase.Brings status →
        pool.shared.row.status = status.1 ∨ BroughtByOther pool i status) := by
  constructor
  · exact fun hall => hall phase hi
  · intro hone other hother
    obtain rfl : phase = other := Option.some.inj (hi.symm.trans hother)
    exact hone

theorem keeps_fails (h : Shows pool) (hi : pool.tasks[i]? = some phase) :
    Keeps pool (.hydration (.turn i true)) ↔ Heeds pool (.hydration (.turn i true)) := by
  have hworld : (Pass.next true pool.shared phase).1 = pool.shared := by cases phase <;> rfl
  have hnext : (Pass.next true pool.shared phase).2 = .ended ∨
      ∀ status, (Pass.next true pool.shared phase).2.Brings status := by
    cases phase with
    | readTimeline | merge _ => exact .inr fun _ => trivial
    | copy _ | readRow | readEvents _ | write _ | ended => exact .inl rfl
  rw [heeds_turn hi]
  constructor
  · rintro ⟨-, hshows⟩
    refine ⟨nofun, nofun, fun _ hended status hclosed _ => ?_⟩
    have hcases := (shows_turn_iff hi).mp hshows status hclosed
    rw [hworld, hended] at hcases
    exact hcases.imp_right fun hother => hother.resolve_left id
  · rintro ⟨-, -, hlast⟩
    refine keeps_of_going_on h hi hworld fun status hclosed hphase => ?_
    rcases hnext with hended | hbrings
    · exact (hlast rfl hended status hclosed hphase).imp_right .inr
    · exact .inr (.inl (hbrings status))

theorem keeps_reads (h : Shows pool) (hi : pool.tasks[i]? = some phase)
    (hphase : ∀ record, phase ≠ .copy record ∧ phase ≠ .write record)
    (hworld : (Pass.next false pool.shared phase).1 = pool.shared)
    (hbrings : ∀ status, closedStatus pool.shared.events = some status → phase.Brings status →
      pool.shared.row.status = status.1 ∨ (Pass.next false pool.shared phase).2.Brings status) :
    Keeps pool (.hydration (.turn i false)) ↔ Heeds pool (.hydration (.turn i false)) := by
  refine iff_of_true ?_ ?_
  · exact keeps_of_going_on h hi hworld fun status hclosed hb => (hbrings status hclosed hb).imp_right .inl
  · rw [heeds_turn hi]
    refine ⟨fun _ record hrecord => ?_, fun _ record hrecord => ?_, nofun⟩
    · exact absurd hrecord (not_or.mpr (hphase record))
    · exact absurd hrecord (hphase record).2

theorem keeps_copy (hi : pool.tasks[i]? = some (.copy record)) :
    Keeps pool (.hydration (.turn i false)) ↔ Heeds pool (.hydration (.turn i false)) := by
  unfold Keeps
  rw [heeds_turn hi, closed_turn_iff hi (show (Pass.next false pool.shared (.copy record)).1.row = record from rfl),
    shows_turn_iff hi]
  constructor
  · rintro ⟨hclosed, -⟩
    refine ⟨fun _ record' hrecord => ?_, fun _ record' hrecord => ?_, nofun⟩
    · obtain rfl : record = record' := hrecord.elim PassPhase.copy.inj nofun
      exact hclosed
    · exact absurd hrecord nofun
  · rintro ⟨hopen, -, -⟩
    exact ⟨hopen rfl record (.inl rfl), fun _ _ => .inr (.inl trivial)⟩

theorem keeps_write (hi : pool.tasks[i]? = some (.write record)) :
    Keeps pool (.hydration (.turn i false)) ↔ Heeds pool (.hydration (.turn i false)) := by
  unfold Keeps
  rw [heeds_turn hi, closed_turn_iff hi (show (Pass.next false pool.shared (.write record)).1.row = record from rfl),
    shows_turn_iff hi]
  constructor
  · rintro ⟨hclosed, hshows⟩
    refine ⟨fun _ record' hrecord => ?_, fun _ record' hrecord => ?_, nofun⟩
    · obtain rfl : record = record' := hrecord.elim nofun PassPhase.write.inj
      exact hclosed
    · obtain rfl : record = record' := PassPhase.write.inj hrecord
      intro status hstatus
      exact (hshows status hstatus).imp_right fun hother => hother.resolve_left id
  · rintro ⟨hopen, hstatus, -⟩
    exact ⟨hopen rfl record (.inr rfl), fun status hclosed =>
      (hstatus rfl record rfl status hclosed).imp_right .inr⟩

theorem keeps_turn (h : Shows pool) (hi : pool.tasks[i]? = some phase) :
    Keeps pool (.hydration (.turn i fails)) ↔ Heeds pool (.hydration (.turn i fails)) := by
  cases fails with
  | true => exact keeps_fails h hi
  | false =>
    cases phase with
    | readTimeline =>
      refine keeps_reads h hi (fun record => ⟨nofun, nofun⟩) rfl fun status _ _ => .inr ?_
      show (pool.shared.timeline.elim PassPhase.readRow PassPhase.merge).Brings status
      cases pool.shared.timeline <;> trivial
    | merge item => exact keeps_reads h hi (fun record => ⟨nofun, nofun⟩) rfl fun _ _ _ => .inr trivial
    | copy record => exact keeps_copy hi
    | readRow =>
      refine keeps_reads h hi (fun record => ⟨nofun, nofun⟩) rfl fun status _ _ => ?_
      by_cases hrow : pool.shared.row.status = status.1
      · exact .inl hrow
      · exact .inr fun hmatch => hrow hmatch.1
    | readEvents task =>
      refine keeps_reads h hi (fun record => ⟨nofun, nofun⟩) rfl fun status hclosed hbrings => .inr ?_
      obtain ⟨record, hrecord, hstatus⟩ := reconcile_closed hclosed hbrings
      show ((reconcileTaskRecord task pool.shared.events).elim PassPhase.ended PassPhase.write).Brings status
      rw [hrecord]
      exact hstatus
    | write record => exact keeps_write hi
    | ended => exact keeps_reads h hi (fun record => ⟨nofun, nofun⟩) rfl fun _ _ hb => .inr hb

/-- **one move** keeps what is to be kept exactly when it heeds the others -/
theorem keeps_iff (h : Shows pool) (move : TaskMove) : Keeps pool move ↔ Heeds pool move := by
  cases move with
  | append event =>
    have hshows : Shows (pool.step (.append event)) ↔
        ∀ status, closedStatus (pool.shared.events ++ [event]) = some status →
          pool.shared.row.status = status.1 ∨ BroughtBy pool status := Iff.rfl
    unfold Keeps
    rw [hshows]
    cases hlog : closedStatus pool.shared.events with
    | none => exact ⟨fun hkeeps _ => hkeeps.2, fun hheeds => ⟨id, hheeds hlog⟩⟩
    | some status =>
      refine iff_of_true ⟨id, fun status' hstatus' => ?_⟩ fun hnone => absurd (hlog.symm.trans hnone) nofun
      obtain rfl : status = status' := Option.some.inj ((closedStatus_concat hlog event).symm.trans hstatus')
      exact h status hlog
  | writeTimeline item => exact iff_of_true ⟨id, h⟩ trivial
  | hydration move =>
    cases move with
    | start call =>
      refine iff_of_true ⟨id, fun status hclosed => (h status hclosed).imp_right ?_⟩ trivial
      rintro ⟨j, phase, hj, hbrings⟩
      exact ⟨j, phase, start_old call hj, hbrings⟩
    | turn i fails =>
      cases hi : pool.tasks[i]? with
      | none =>
        have hsame : pool.step (.hydration (.turn i fails)) = pool := step_turn_none hi
        unfold Keeps
        rw [hsame]
        exact iff_of_true ⟨id, h⟩ fun phase hphase => absurd (hi.symm.trans hphase) nofun
      | some phase => exact keeps_turn h hi

end

end Tasks

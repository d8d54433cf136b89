import SuperNova.Lib.Standing
import SuperNova.Runs.Events
import SuperNova.Runs.Registry

/-!
# Runs that block a container

The workbench takes no input for a container while one of its runs blocks, and it reads this off the row: a status that
is no end, or a cancellation that was requested.  The rows of the registry are written by statements in any order.

* `Statement.change`, `exec`: what a statement makes of a row, and of the table;
* `blocking_iff` (**main**): when the page of a container has a run that blocks, over all statements so far;
* `released_iff` (**main**): when statements that are not those of the run's own service can end this.
-/

set_option linter.unusedSectionVars false

namespace Runs

open Text

/-! ## statements -/

structure NewRun where
  containerId : String
  runKind : String
  chatThreadId : Option String
  taskId : Option String
  jobId : Option String
  workerId : String

/-- the statements of `run_registry` that write -/
inductive Statement where
  | insertRun (runId : String) (run : NewRun)
  | updateRunStatus (runId status : String) (errorMessage : Option String)
  | updateRunWorker (runId workerId : String)
  | heartbeatRun (runId : String)
  | bindRunTask (runId taskId jobId : String)
  | requestCancelRun (runId : String)
  | requestCancelTaskRuns (taskId : String)
  | requestCancelChatRuns (chatThreadId : String)
  | repairDatabaseLockedTaskRuns (taskId jobId terminalStatus : String) (errorMessage : Option String)
  | repairStaleActiveTaskRuns (taskId jobId terminalStatus : String) (errorMessage : Option String)
  | repairDatabaseLockedChatRuns (chatThreadId terminalStatus : String) (errorMessage : Option String)

def activeStatuses : List String := ["queued", "running", "waiting_approval", "waiting_user", "cancel_requested"]

/-- `task_id=?1 OR job_id=?2` -/
def RunRecord.ofTask (run : RunRecord) (taskId jobId : String) : Bool :=
  run.taskId == some taskId || run.jobId == some jobId

/-- `status='failed' AND lower(COALESCE(error_message, '')) LIKE '%database is locked%'` -/
def RunRecord.failedLocked (run : RunRecord) : Bool :=
  run.status == "failed" && contains (toAsciiLowercase (run.errorMessage.getD "")) "database is locked"

/-- the rows whose cancellation a statement requests -/
def Statement.cancels : Statement → RunRecord → Bool
  | .requestCancelRun runId, run => run.runId == runId && !terminalStatuses.contains run.status
  | .requestCancelTaskRuns taskId, run => run.taskId == some taskId && !terminalStatuses.contains run.status
  | .requestCancelChatRuns chatThreadId, run =>
    run.chatThreadId == some chatThreadId && !terminalStatuses.contains run.status
  | _, _ => false

/-- the rows that a repair gives the status of the log -/
def Statement.repairs : Statement → RunRecord → Bool
  | .repairDatabaseLockedTaskRuns taskId jobId _ _, run => run.ofTask taskId jobId && run.failedLocked
  | .repairStaleActiveTaskRuns taskId jobId _ _, run => run.ofTask taskId jobId && activeStatuses.contains run.status
  | .repairDatabaseLockedChatRuns chatThreadId _ _, run => run.chatThreadId == some chatThreadId && run.failedLocked
  | _, _ => false

def RunRecord.requestCancel (run : RunRecord) (now : Nat) : RunRecord :=
  { run with cancelRequested := true, status := "cancel_requested", updatedAtMs := now }

def RunRecord.repaired (run : RunRecord) (now : Nat) (status : String) (errorMessage : Option String) : RunRecord :=
  { run with status := status, cancelRequested := false, updatedAtMs := now, errorMessage := errorMessage }

/-- what a statement at a time makes of a row -/
def Statement.change (statement : Statement) (now : Nat) (run : RunRecord) : RunRecord :=
  match statement with
  | .insertRun _ _ => run
  | .updateRunStatus runId status errorMessage =>
    if run.runId = runId then { run with status := status, updatedAtMs := now, errorMessage := errorMessage } else run
  | .updateRunWorker runId workerId =>
    if run.runId = runId then { run with workerId := workerId, updatedAtMs := now } else run
  | .heartbeatRun runId =>
    if run.runId = runId then { run with heartbeatAtMs := some now, updatedAtMs := now } else run
  | .bindRunTask runId taskId jobId =>
    if run.runId = runId then { run with taskId := some taskId, jobId := some jobId, updatedAtMs := now } else run
  | .requestCancelRun _ | .requestCancelTaskRuns _ | .requestCancelChatRuns _ =>
    if statement.cancels run then run.requestCancel now else run
  | .repairDatabaseLockedTaskRuns _ _ status errorMessage | .repairStaleActiveTaskRuns _ _ status errorMessage
  | .repairDatabaseLockedChatRuns _ status errorMessage =>
    if statement.repairs run then run.repaired now status errorMessage else run

/-- the row of `insert_run`, unless its id is taken -/
def inserted (workspaceUid : String) (table : List RunRecord) (now : Nat) : Statement → List RunRecord
  | .insertRun runId run =>
    if table.any fun row => row.runId == runId then []
    else [⟨runId, workspaceUid, run.containerId, run.runKind, run.chatThreadId, run.taskId, run.jobId, run.workerId,
      "queued", false, none, now, now, none⟩]
  | _ => []

def exec (workspaceUid : String) (table : List RunRecord) (made : Nat × Statement) : List RunRecord :=
  table.map (made.2.change made.1) ++ inserted workspaceUid table made.1 made.2

/-- the table after some statements, each with its time -/
def registry (workspaceUid : String) (made : List (Nat × Statement)) : List RunRecord :=
  made.foldl (exec workspaceUid) []

def getRun (table : List RunRecord) (runId : String) : Option RunRecord := table.find? (·.runId == runId)

/-- `ORDER BY updated_at_ms DESC, run_id DESC` -/
def listedBefore (a b : RunRecord) : Prop :=
  b.updatedAtMs < a.updatedAtMs ∨ a.updatedAtMs = b.updatedAtMs ∧ b.runId ≤ a.runId

instance : DecidableRel listedBefore := fun _ _ => instDecidableOr

def listRuns (table : List RunRecord) (containerId : String) : List RunRecord :=
  (table.filter (·.containerId == containerId)).insertionSort listedBefore

/-! ## the workbench -/

/-- only letters of these words have them as their lower case -/
def runBlocksContainerInteraction (run : RunRecord) : Bool :=
  run.cancelRequested || activeStatuses.contains (toAsciiLowercase run.status)

def blockingRunFromPage (items : List RunRecord) : Option RunRecord := items.find? runBlocksContainerInteraction

/-! ## one row -/

section
variable {statement : Statement} {run : RunRecord} {now : Nat}

theorem runId_change : (statement.change now run).runId = run.runId := by
  cases statement with
  | insertRun => rfl
  | _ =>
    rw [Statement.change]
    split <;> rfl

/-- a request sets the flag, a repair clears it, and nothing else writes it -/
theorem cancelRequested_change : (statement.change now run).cancelRequested = true ↔
    statement.cancels run = true ∨ run.cancelRequested = true ∧ ¬ statement.repairs run = true := by
  cases statement with
  | insertRun => simp [Statement.change, Statement.cancels, Statement.repairs]
  | updateRunStatus | updateRunWorker | heartbeatRun | bindRunTask =>
    rw [Statement.change]
    split <;> simp [Statement.cancels, Statement.repairs]
  | requestCancelRun | requestCancelTaskRuns | requestCancelChatRuns =>
    rw [Statement.change]
    split
    next h => simp [h, RunRecord.requestCancel]
    next h => simp [h, Statement.repairs]
  | repairDatabaseLockedTaskRuns | repairStaleActiveTaskRuns | repairDatabaseLockedChatRuns =>
    rw [Statement.change]
    split
    next h => simp [h, RunRecord.repaired, Statement.cancels]
    next h => simp [h, Statement.cancels]

end

/-! ## the table -/

section
variable {workspaceUid runId : String} {table : List RunRecord} {made : Nat × Statement} {run : RunRecord}

theorem getRun_exec : getRun (exec workspaceUid table made) runId =
    ((getRun table runId).map (made.2.change made.1)).or (getRun (inserted workspaceUid table made.1 made.2) runId) := by
  have hsame : ((·.runId == runId) ∘ made.2.change made.1 : RunRecord → Bool) = (·.runId == runId) :=
    funext fun run => by rw [Function.comp, runId_change]
  rw [getRun, exec, List.find?_append, List.find?_map, hsame]
  rfl

theorem mem_inserted (h : run ∈ inserted workspaceUid table made.1 made.2) :
    run.cancelRequested = false ∧ ∀ row ∈ table, row.runId ≠ run.runId := by
  unfold inserted at h
  split at h
  · split at h
    · exact absurd h List.not_mem_nil
    next hfree =>
      rw [List.mem_singleton.mp h]
      exact ⟨rfl, fun row hrow heq => hfree (List.any_eq_true.mpr ⟨row, hrow, beq_iff_eq.mpr heq⟩)⟩
  · exact absurd h List.not_mem_nil

/-- the ids are a key -/
theorem nodup_exec (h : (table.map (·.runId)).Nodup) : ((exec workspaceUid table made).map (·.runId)).Nodup := by
  have hsame : (·.runId) ∘ made.2.change made.1 = (·.runId) := funext fun run => runId_change
  rw [exec, List.map_append, List.map_map, hsame, List.nodup_append']
  refine ⟨h, ?_, fun id hid hnew => ?_⟩
  · unfold inserted
    split
    · split
      · exact List.nodup_nil
      · exact List.nodup_singleton _
    · exact List.nodup_nil
  · obtain ⟨new, hmem, rfl⟩ := List.mem_map.mp hnew
    obtain ⟨row, hrow, heq⟩ := List.mem_map.mp hid
    exact (mem_inserted hmem).2 row hrow heq

theorem nodup_registry (log : List (Nat × Statement)) : ((registry workspaceUid log).map (·.runId)).Nodup := by
  induction log using List.reverseRecOn with
  | nil => exact List.nodup_nil
  | append_singleton log made ih =>
    rw [registry, List.foldl_append]
    exact nodup_exec ih

theorem runId_of_getRun (h : getRun table runId = some run) : run.runId = runId := by
  have hfound := List.find?_some h
  exact beq_iff_eq.mp hfound

theorem getRun_of_mem (hkey : (table.map (·.runId)).Nodup) (h : run ∈ table) : getRun table run.runId = some run := by
  cases hfound : getRun table run.runId with
  | none => exact absurd (beq_self_eq_true run.runId) (List.find?_eq_none.mp hfound run h)
  | some other =>
    rw [List.inj_on_of_nodup_map hkey (List.mem_of_find?_eq_some hfound) h (runId_of_getRun hfound)]

/-! ## what blocks a container -/

/-- the statement requests the cancellation of the run -/
def Cancels (runId : String) (table : List RunRecord) (made : Nat × Statement) : Prop :=
  ∃ run, getRun table runId = some run ∧ made.2.cancels run = true

/-- the statement repairs the run -/
def Repairs (runId : String) (table : List RunRecord) (made : Nat × Statement) : Prop :=
  ∃ run, getRun table runId = some run ∧ made.2.repairs run = true

/-- the flag of the run is set -/
def Requested (runId : String) (table : List RunRecord) : Prop :=
  ∃ run, getRun table runId = some run ∧ run.cancelRequested = true

theorem requested_exec : Requested runId (exec workspaceUid table made) ↔
    Cancels runId table made ∨ Requested runId table ∧ ¬ Repairs runId table made := by
  rw [Requested, Requested, getRun_exec, Cancels, Repairs]
  cases hrun : getRun table runId with
  | some run => simp [cancelRequested_change]
  | none =>
    refine iff_of_false ?_ (by simp)
    rintro ⟨new, hnew, hrequested⟩
    have hmem := List.mem_of_find?_eq_some hnew
    rw [(mem_inserted hmem).1] at hrequested
    exact Bool.false_ne_true hrequested

theorem mem_listRuns {containerId : String} :
    run ∈ listRuns table containerId ↔ run ∈ table ∧ run.containerId = containerId := by
  rw [listRuns, List.mem_insertionSort, List.mem_filter, beq_iff_eq]

/-- **a container is blocked** exactly when one of its runs has a status that is no end, or the latest of the
statements that requested its cancellation or repaired it has requested it: no other statement lifts that, whatever
status it writes -/
theorem blocking_iff (workspaceUid containerId : String) (log : List (Nat × Statement)) :
    (blockingRunFromPage (listRuns (registry workspaceUid log) containerId)).isSome ↔
      ∃ run ∈ registry workspaceUid log, run.containerId = containerId ∧
        (toAsciiLowercase run.status ∈ activeStatuses ∨
          Standing.StandsIn (exec workspaceUid) (Cancels run.runId) (Repairs run.runId) [] log) := by
  rw [blockingRunFromPage, List.find?_isSome]
  refine exists_congr fun run => ?_
  rw [mem_listRuns, and_assoc]
  refine and_congr_right fun hrun => and_congr_right fun _ => ?_
  have hrequested : run.cancelRequested = true ↔
      Standing.StandsIn (exec workspaceUid) (Cancels run.runId) (Repairs run.runId) [] log := by
    have hfirst : ¬ Requested run.runId [] := by
      rintro ⟨row, hrow, -⟩
      exact Option.some_ne_none row hrow.symm
    rw [← Standing.foldl_marked_iff_standsIn (fun _ _ => requested_exec) hfirst]
    show _ ↔ Requested run.runId (registry workspaceUid log)
    rw [Requested, getRun_of_mem (nodup_registry log) hrun]
    simp
  rw [runBlocksContainerInteraction, Bool.or_eq_true, hrequested, List.contains_iff_mem, or_comm]

end

/-! ## what others can do -/

/-- a statement of the service of the run, which reports its status or binds its task -/
def Statement.own (runId : String) : Statement → Bool
  | .updateRunStatus id _ _ => id == runId
  | .bindRunTask id _ _ => id == runId
  | _ => false

/-- a repair can give the run an end, at once or after a request -/
def Releasable (run : RunRecord) : Prop :=
  run.status ∉ terminalStatuses ∧ (run.taskId.isSome ∨ run.jobId.isSome) ∨
    run.failedLocked ∧ ((run.taskId.isSome ∨ run.jobId.isSome) ∨ run.chatThreadId.isSome)

instance (run : RunRecord) : Decidable (Releasable run) := instDecidableOr

/-- the run blocks, and stays so -/
structure Held (run : RunRecord) : Prop where
  blocks : runBlocksContainerInteraction run = true
  stuck : ¬ Releasable run

section
variable {statement : Statement} {workspaceUid runId : String} {table : List RunRecord} {run : RunRecord} {now : Nat}

theorem isSome_of_ofTask {taskId jobId : String} (h : run.ofTask taskId jobId = true) :
    run.taskId.isSome ∨ run.jobId.isSome := by
  rw [RunRecord.ofTask, Bool.or_eq_true, beq_iff_eq, beq_iff_eq] at h
  exact h.imp (fun htask => by rw [htask]; rfl) fun hjob => by rw [hjob]; rfl

theorem exists_ofTask (h : run.taskId.isSome ∨ run.jobId.isSome) : ∃ taskId jobId, run.ofTask taskId jobId = true := by
  rcases h with h | h
  · obtain ⟨taskId, htask⟩ := Option.isSome_iff_exists.mp h
    exact ⟨taskId, "", by rw [RunRecord.ofTask, htask, beq_self_eq_true, Bool.true_or]⟩
  · obtain ⟨jobId, hjob⟩ := Option.isSome_iff_exists.mp h
    exact ⟨"", jobId, by rw [RunRecord.ofTask, hjob, beq_self_eq_true, Bool.or_true]⟩

theorem status_of_cancels (h : statement.cancels run = true) : run.status ∉ terminalStatuses := by
  have hopen : (!terminalStatuses.contains run.status) = true := by
    cases statement with
    | requestCancelRun | requestCancelTaskRuns | requestCancelChatRuns => exact (Bool.and_eq_true_iff.mp h).2
    | _ => exact absurd h Bool.false_ne_true
  simpa using hopen

theorem releasable_of_repairs (h : statement.repairs run = true) : Releasable run := by
  cases statement with
  | repairDatabaseLockedTaskRuns =>
    obtain ⟨htask, hlocked⟩ := Bool.and_eq_true_iff.mp h
    exact Or.inr ⟨hlocked, Or.inl (isSome_of_ofTask htask)⟩
  | repairStaleActiveTaskRuns =>
    obtain ⟨htask, hactive⟩ := Bool.and_eq_true_iff.mp h
    have hopen : ∀ status ∈ activeStatuses, status ∉ terminalStatuses := by decide
    exact Or.inl ⟨hopen _ (List.contains_iff_mem.mp hactive), isSome_of_ofTask htask⟩
  | repairDatabaseLockedChatRuns =>
    obtain ⟨hchat, hlocked⟩ := Bool.and_eq_true_iff.mp h
    exact Or.inr ⟨hlocked, Or.inr (by rw [beq_iff_eq.mp hchat]; rfl)⟩
  | _ => exact absurd h Bool.false_ne_true

/-- a request makes it block, and binds no task to it -/
theorem Held.requestCancel (h : Held run) (hopen : run.status ∉ terminalStatuses) : Held (run.requestCancel now) where
  blocks := rfl
  stuck := by
    rintro (⟨-, htask⟩ | ⟨hlocked, -⟩)
    · exact h.stuck (Or.inl ⟨hopen, htask⟩)
    · exact absurd hlocked Bool.false_ne_true

theorem Held.change (h : Held run) (hown : statement.own run.runId = false) : Held (statement.change now run) := by
  have hother {id : String} (hid : (id == run.runId) = false) : ¬ run.runId = id :=
    fun heq => absurd (beq_iff_eq.mpr heq.symm) (by rw [hid]; exact Bool.false_ne_true)
  cases statement with
  | insertRun => exact h
  | updateRunStatus id => rwa [Statement.change, if_neg (hother hown)]
  | bindRunTask id => rwa [Statement.change, if_neg (hother hown)]
  | updateRunWorker | heartbeatRun =>
    rw [Statement.change]
    split
    · exact ⟨h.blocks, h.stuck⟩
    · exact h
  | requestCancelRun | requestCancelTaskRuns | requestCancelChatRuns =>
    rw [Statement.change]
    split
    next hcancels => exact h.requestCancel (status_of_cancels hcancels)
    next => exact h
  | repairDatabaseLockedTaskRuns | repairStaleActiveTaskRuns | repairDatabaseLockedChatRuns =>
    rw [Statement.change, if_neg fun hrepairs => h.stuck (releasable_of_repairs hrepairs)]
    exact h

theorem getRun_exec_some {made : Nat × Statement} (h : getRun table runId = some run) :
    getRun (exec workspaceUid table made) runId = some (made.2.change made.1 run) := by
  rw [getRun_exec, h]
  rfl

theorem Held.foldl {log : List (Nat × Statement)} (h : getRun table runId = some run) (hheld : Held run)
    (hlog : ∀ made ∈ log, made.2.own runId = false) :
    ∃ row, getRun (log.foldl (exec workspaceUid) table) runId = some row ∧ Held row := by
  induction log generalizing table run with
  | nil => exact ⟨run, h, hheld⟩
  | cons made log ih =>
    have hid := runId_of_getRun h
    have hown := hlog made List.mem_cons_self
    exact ih (getRun_exec_some h) (hheld.change (hid ▸ hown)) fun other hother =>
      hlog other (List.mem_cons_of_mem _ hother)

theorem not_blocks_repaired : runBlocksContainerInteraction (run.repaired 0 "completed" none) = false := by
  show (false || activeStatuses.contains (toAsciiLowercase "completed")) = false
  decide

/-- a run without an end that is bound to a task is requested to end, and repaired -/
theorem release_open (h : getRun table runId = some run) (hopen : run.status ∉ terminalStatuses)
    {taskId jobId : String} (htask : run.ofTask taskId jobId = true) :
    getRun ([(0, Statement.requestCancelRun runId),
        (0, .repairStaleActiveTaskRuns taskId jobId "completed" none)].foldl (exec workspaceUid) table) runId =
      some ((run.requestCancel 0).repaired 0 "completed" none) := by
  have hid := runId_of_getRun h
  have hcancels : (Statement.requestCancelRun runId).cancels run = true := by
    simpa [Statement.cancels, hid] using hopen
  have hrepairs : (Statement.repairStaleActiveTaskRuns taskId jobId "completed" none).repairs
      (run.requestCancel 0) = true := by
    rw [Statement.repairs, Bool.and_eq_true_iff]
    exact ⟨htask, show activeStatuses.contains "cancel_requested" = true by decide⟩
  rw [List.foldl_cons, List.foldl_cons, List.foldl_nil, getRun_exec_some (getRun_exec_some h), Statement.change,
    Statement.change, if_pos hcancels, if_pos hrepairs]

/-- **statements that are not those of its own service** come to a state in which the run does not block exactly when it
does not block now, or has no end and is bound to a task or a job, or failed at a locked database and is bound to a task,
a job or a chat -/
theorem released_iff (h : getRun table runId = some run) :
    (∃ log : List (Nat × Statement), (∀ made ∈ log, made.2.own runId = false) ∧ ∃ row,
      getRun (log.foldl (exec workspaceUid) table) runId = some row ∧ runBlocksContainerInteraction row = false) ↔
    runBlocksContainerInteraction run = false ∨ Releasable run := by
  constructor
  · rintro ⟨log, hlog, row, hrow, hfree⟩
    by_contra hnot
    rw [not_or, Bool.not_eq_false] at hnot
    obtain ⟨row', hrow', hheld⟩ := Held.foldl h ⟨hnot.1, hnot.2⟩ hlog
    rw [hrow] at hrow'
    cases hrow'
    rw [hheld.blocks] at hfree
    exact Bool.false_ne_true hfree.symm
  · rintro (hfree | ⟨hopen, hbound⟩ | ⟨hlocked, hbound⟩)
    · exact ⟨[], by simp, run, h, hfree⟩
    · obtain ⟨taskId, jobId, htask⟩ := exists_ofTask hbound
      exact ⟨_, by simp [Statement.own], _, release_open h hopen htask, not_blocks_repaired⟩
    · rcases hbound with hbound | hbound
      · obtain ⟨taskId, jobId, htask⟩ := exists_ofTask hbound
        have hrepairs : (Statement.repairDatabaseLockedTaskRuns taskId jobId "completed" none).repairs run = true :=
          Bool.and_eq_true_iff.mpr ⟨htask, hlocked⟩
        refine ⟨[(0, .repairDatabaseLockedTaskRuns taskId jobId "completed" none)], by simp [Statement.own], _,
          getRun_exec_some h, ?_⟩
        rw [Statement.change, if_pos hrepairs]
        exact not_blocks_repaired
      · obtain ⟨chatThreadId, hchat⟩ := Option.isSome_iff_exists.mp hbound
        have hrepairs : (Statement.repairDatabaseLockedChatRuns chatThreadId "completed" none).repairs run = true :=
          Bool.and_eq_true_iff.mpr ⟨beq_iff_eq.mpr hchat, hlocked⟩
        refine ⟨[(0, .repairDatabaseLockedChatRuns chatThreadId "completed" none)], by simp [Statement.own], _,
          getRun_exec_some h, ?_⟩
        rw [Statement.change, if_pos hrepairs]
        exact not_blocks_repaired

end

/-- a turn of a chat whose cancellation has come to its end -/
def cancelledTurn : RunRecord :=
  ⟨"run_1", "workspace", "container", "chat", some "thread", none, none, "process:1", "cancelled", true, none, 1, 2, none⟩

/-- it blocks its container, whatever the others do -/
theorem cancelledTurn_blocks : ¬ ∃ log : List (Nat × Statement), (∀ made ∈ log, made.2.own "run_1" = false) ∧ ∃ row,
    getRun (log.foldl (exec "workspace") [cancelledTurn]) "run_1" = some row ∧
      runBlocksContainerInteraction row = false := by
  have hrun : getRun [cancelledTurn] "run_1" = some cancelledTurn := rfl
  rw [released_iff hrun]
  decide

end Runs

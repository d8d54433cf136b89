import SuperNova.Jobs.Registry
import SuperNova.Lib.Json
import SuperNova.Lib.Table
import SuperNova.Lib.Text
import SuperNova.Lib.Turns

/-!
# Jobs of one state root

All jobs of a state root have their rows and events in one database.  `create_agent_job` names a job, its root
process and its runtime after the clock, and writes the rows statement by statement; then the worker of the job
appends events.  The statements of any number of such calls come in any order.

* `JobCall.next`: one statement of a call;
* `Separate`: the jobs have different ids, each row is as its own call wrote it, and each log holds the events of
  its own call;
* `separate_iff` (**main**): this holds all along a run exactly when each call reads another time off the clock
  than the calls before it.
-/

set_option linter.unusedSectionVars false

namespace Jobs

open Turns

/-! ## the database -/

structure AgentJob where
  jobId : String
  userGoal : String
  workspaceRoot : String
  status : String
  rootPid : String
  deriving DecidableEq

structure AgentProcess where
  pid : String
  jobId : String
  processType : String
  state : String
  capabilityTokens : List String
  deriving DecidableEq

structure TaskAgentRuntimeRecord where
  runtimeId : String
  jobId : String
  rootPid : String
  state : String
  deriving DecidableEq

/-- a row of `events` -/
structure JobEvent where
  jobId : String
  eventId : Nat
  timestampMs : Nat
  pid : Option String
  eventType : String
  data : Json

/-- the tables of `process_truth`, by their primary keys; the events in the order of their insertion -/
structure TruthDb where
  jobs : Table String AgentJob
  processes : Table String AgentProcess
  runtimes : Table String TaskAgentRuntimeRecord
  events : List JobEvent

def TruthDb.empty : TruthDb := ⟨.empty, .empty, .empty, []⟩

def TruthDb.eventsOf (db : TruthDb) (jobId : String) : List JobEvent :=
  db.events.filter fun event => event.jobId = jobId

/-- a statement of the store of a job -/
inductive Statement where
  | insertJob (job : AgentJob)
  | insertProcess (process : AgentProcess)
  | insertRuntime (runtime : TaskAgentRuntimeRecord)
  | updateJobs (status : String)
  | updateProcesses (status : String)
  | updateRuntimes (status : String)
  | selectEventId
  | insertEvent (pid : Option String) (eventType : String) (data : Json)

/-- the event that an append inserts -/
def eventRow (jobId : String) (eventId now : Nat) (pid : Option String) (eventType : String) (data : Json) :
    JobEvent := ⟨jobId, eventId, now, pid, eventType, data⟩

/-- a statement, with the event id that was selected before and after it; an insert of an event that is there
fails -/
def TruthDb.exec (db : TruthDb) (jobId : String) (now eventId : Nat) : Statement → Option (TruthDb × Nat)
  | .insertJob job => some ({ db with jobs := db.jobs.insert job.jobId job }, eventId)
  | .insertProcess process =>
    some ({ db with processes := db.processes.insert process.pid process }, eventId)
  | .insertRuntime runtime =>
    some ({ db with runtimes := db.runtimes.insert runtime.runtimeId runtime }, eventId)
  | .updateJobs status =>
    some ({ db with jobs := db.jobs.modify jobId fun job => { job with status } }, eventId)
  | .updateProcesses status =>
    some ({ db with processes := db.processes.mapValues fun process =>
      if process.jobId = jobId then { process with state := status } else process }, eventId)
  | .updateRuntimes status =>
    some ({ db with runtimes := db.runtimes.mapValues fun runtime =>
      if runtime.jobId = jobId then { runtime with state := status } else runtime }, eventId)
  | .selectEventId => some (db, ((db.eventsOf jobId).map (·.eventId)).foldr max 0 + 1)
  | .insertEvent pid eventType data =>
    if (db.eventsOf jobId).any (·.eventId == eventId) then none
    else some ({ db with events := db.events ++ [eventRow jobId eventId now pid eventType data] }, eventId)

/-! ## calls -/

def appendStatements (pid : Option String) (eventType : String) (data : Json) : List Statement :=
  [.selectEventId, .insertEvent pid eventType data]

def updateStatements (status : String) : List Statement :=
  if status ∈ jobStatuses then
    [.updateJobs status, .updateProcesses status, .updateRuntimes status] ++
      appendStatements none "job_status_changed" (.obj [("status", .str status)])
  else []

def jobIdOf (suffix : Nat) : String := "job_" ++ toString suffix
def rootPidOf (suffix : Nat) : String := "pid_" ++ toString suffix
def runtimeIdOf (suffix : Nat) : String := "tar_" ++ toString suffix

structure JobRequest where
  workspaceRoot : String
  userGoal : String

def newJob (request : JobRequest) (suffix : Nat) : AgentJob where
  jobId := jobIdOf suffix
  userGoal := request.userGoal
  workspaceRoot := request.workspaceRoot
  status := "created"
  rootPid := rootPidOf suffix

def newProcess (suffix : Nat) : AgentProcess where
  pid := rootPidOf suffix
  jobId := jobIdOf suffix
  processType := "root_agent_process"
  state := "running"
  capabilityTokens := ["token_" ++ toString suffix]

def newRuntime (suffix : Nat) : TaskAgentRuntimeRecord where
  runtimeId := runtimeIdOf suffix
  jobId := jobIdOf suffix
  rootPid := rootPidOf suffix
  state := "running"

def AgentJob.toJson (job : AgentJob) : Json :=
  .obj [("job_id", .str job.jobId), ("user_goal", .str job.userGoal),
    ("workspace_root", .str job.workspaceRoot), ("status", .str job.status), ("root_pid", .str job.rootPid)]

def AgentProcess.toJson (process : AgentProcess) : Json :=
  .obj [("pid", .str process.pid), ("ppid", .null), ("job_id", .str process.jobId),
    ("process_type", .str process.processType), ("state", .str process.state), ("input_refs", .arr []),
    ("output_refs", .arr []), ("capability_tokens", .arr (process.capabilityTokens.map .str)),
    ("budget_ms", .null), ("exit_code", .null)]

def TaskAgentRuntimeRecord.toJson (runtime : TaskAgentRuntimeRecord) : Json :=
  .obj [("runtime_id", .str runtime.runtimeId), ("job_id", .str runtime.jobId),
    ("root_pid", .str runtime.rootPid), ("state", .str runtime.state), ("checkpoint_refs", .arr [])]

/-- the statements of `create_agent_job`, once it has read the clock -/
def createStatements (request : JobRequest) (suffix : Nat) : List Statement :=
  let pid := some (rootPidOf suffix)
  [.insertJob (newJob request suffix)] ++
    appendStatements pid "job_created" (newJob request suffix).toJson ++
    updateStatements "running" ++
    [.insertProcess (newProcess suffix), .insertRuntime (newRuntime suffix)] ++
    appendStatements pid "process_started" (newProcess suffix).toJson ++
    appendStatements pid "task_agent_runtime_started" (newRuntime suffix).toJson

/-- what a call wrote: the rows as it left them, and its events -/
structure Written where
  job : Option AgentJob
  process : Option AgentProcess
  runtime : Option TaskAgentRuntimeRecord
  events : List JobEvent

def Written.none : Written := ⟨.none, .none, .none, []⟩

def Written.exec (written : Written) (jobId : String) (now eventId : Nat) : Statement → Written
  | .insertJob job => { written with job := some job }
  | .insertProcess process => { written with process := some process }
  | .insertRuntime runtime => { written with runtime := some runtime }
  | .updateJobs status => { written with job := written.job.map fun job => { job with status } }
  | .updateProcesses status =>
    { written with process := written.process.map fun process => { process with state := status } }
  | .updateRuntimes status =>
    { written with runtime := written.runtime.map fun runtime => { runtime with state := status } }
  | .selectEventId => written
  | .insertEvent pid eventType data =>
    { written with events := written.events ++ [eventRow jobId eventId now pid eventType data] }

/-- what the worker of a job does next -/
inductive WorkerOp where
  | appendEvent (pid : Option String) (eventType : String) (data : Json)
  | updateJobStatus (status : String)

def WorkerOp.statements : WorkerOp → List Statement
  | .appendEvent pid eventType data => appendStatements pid eventType data
  | .updateJobStatus status => updateStatements status

/-- a call of `create_agent_job` and then the worker of the job -/
structure JobCall where
  request : JobRequest
  /-- what the clock showed to the call -/
  suffix : Option Nat
  todo : List Statement
  eventId : Nat
  /-- `create_agent_job` has returned the job -/
  returned : Bool
  written : Written

structure CallInput where
  now : Nat
  fails : Bool
  work : WorkerOp

def JobCall.start (request : JobRequest) : JobCall := ⟨request, none, [], 0, false, .none⟩

/-- one statement of a call, or the reading of the clock before the first -/
def JobCall.next (input : CallInput) (db : TruthDb) (call : JobCall) : TruthDb × JobCall :=
  match call.suffix, call.todo with
  | none, _ =>
    (db, { call with suffix := some input.now, todo := createStatements call.request input.now })
  | some _, [] => (db, if call.returned then { call with todo := input.work.statements } else call)
  | some suffix, statement :: rest =>
    -- a failure ends the creation, or the operation of the worker
    if input.fails then (db, { call with todo := [] })
    else
      match db.exec (jobIdOf suffix) input.now call.eventId statement with
      | none => (db, { call with todo := [] })
      | some (db', eventId) =>
        (db', { call with
          todo := rest
          eventId
          returned := call.returned || rest.isEmpty
          written := call.written.exec (jobIdOf suffix) input.now call.eventId statement })

def jobCalls : Program TruthDb JobCall JobRequest CallInput := ⟨JobCall.start, JobCall.next⟩

abbrev JobPool := Pool TruthDb JobCall
abbrev JobMove := Turns.Move JobRequest CallInput

/-! ## separation -/

/-- the rows and the log of a job are as its own call wrote them, in a database that began as `before` -/
structure Intact (before db : TruthDb) (suffix : Nat) (written : Written) : Prop where
  job : ∀ row, written.job = some row → db.jobs.get? (jobIdOf suffix) = some row
  process : ∀ row, written.process = some row →
    db.processes.get? (rootPidOf suffix) = some row ∧ row.jobId = jobIdOf suffix
  runtime : ∀ row, written.runtime = some row →
    db.runtimes.get? (runtimeIdOf suffix) = some row ∧ row.jobId = jobIdOf suffix
  events : db.eventsOf (jobIdOf suffix) = before.eventsOf (jobIdOf suffix) ++ written.events

/-- the calls have jobs of their own, which no other call has written to -/
structure Separate (before : TruthDb) (pool : JobPool) : Prop where
  ids : ∀ (i j : Nat) call other suffix suffix', i ≠ j → pool.tasks[i]? = some call →
    pool.tasks[j]? = some other → call.suffix = some suffix → other.suffix = some suffix' →
      jobIdOf suffix ≠ jobIdOf suffix'
  intact : ∀ (i : Nat) call suffix, pool.tasks[i]? = some call → call.suffix = some suffix →
    Intact before pool.shared suffix call.written

/-- a call that reads the clock reads a time that no other call has read -/
def ReadsFresh (pool : JobPool) : JobMove → Prop
  | .start _ => True
  | .turn i input => ∀ call, pool.tasks[i]? = some call → call.suffix = none →
    ∀ (j : Nat) other, pool.tasks[j]? = some other → other.suffix ≠ some input.now

/-! ## names -/

section
variable {a b : Nat}

theorem jobIdOf_inj (h : jobIdOf a = jobIdOf b) : a = b := Text.toString_inj (Text.append_left_inj h)

theorem rootPidOf_inj (h : rootPidOf a = rootPidOf b) : a = b := Text.toString_inj (Text.append_left_inj h)

theorem runtimeIdOf_inj (h : runtimeIdOf a = runtimeIdOf b) : a = b :=
  Text.toString_inj (Text.append_left_inj h)

end

/-- a statement that names the rows of one job -/
def Statement.Of (suffix : Nat) : Statement → Prop
  | .insertJob job => job.jobId = jobIdOf suffix
  | .insertProcess process => process.pid = rootPidOf suffix ∧ process.jobId = jobIdOf suffix
  | .insertRuntime runtime => runtime.runtimeId = runtimeIdOf suffix ∧ runtime.jobId = jobIdOf suffix
  | .updateJobs _ | .updateProcesses _ | .updateRuntimes _ | .selectEventId | .insertEvent .. => True

theorem appendStatements_of (suffix : Nat) (pid : Option String) (eventType : String) (data : Json) :
    ∀ statement ∈ appendStatements pid eventType data, statement.Of suffix := by
  intro statement h
  rcases List.mem_cons.mp h with rfl | h
  · trivial
  · obtain rfl := List.mem_singleton.mp h
    trivial

theorem updateStatements_of (suffix : Nat) (status : String) :
    ∀ statement ∈ updateStatements status, statement.Of suffix := by
  intro statement h
  unfold updateStatements at h
  split at h
  · rcases List.mem_append.mp h with h | h
    · simp only [List.mem_cons, List.not_mem_nil, or_false] at h
      rcases h with rfl | rfl | rfl <;> trivial
    · exact appendStatements_of suffix _ _ _ statement h
  · cases h

theorem workerStatements_of (suffix : Nat) (op : WorkerOp) :
    ∀ statement ∈ op.statements, statement.Of suffix := by
  cases op with
  | appendEvent pid eventType data => exact appendStatements_of suffix pid eventType data
  | updateJobStatus status => exact updateStatements_of suffix status

theorem createStatements_of (request : JobRequest) (suffix : Nat) :
    ∀ statement ∈ createStatements request suffix, statement.Of suffix := by
  intro statement h
  unfold createStatements at h
  simp only [List.mem_append, List.mem_cons, List.not_mem_nil, or_false] at h
  rcases h with ((((rfl | h) | h) | rfl | rfl) | h) | h
  · rfl
  · exact appendStatements_of suffix _ _ _ statement h
  · exact updateStatements_of suffix _ statement h
  · exact ⟨rfl, rfl⟩
  · exact ⟨rfl, rfl⟩
  · exact appendStatements_of suffix _ _ _ statement h
  · exact appendStatements_of suffix _ _ _ statement h

/-! ## statements -/

section
variable {before db after : TruthDb} {suffix other now eventId next : Nat} {written : Written}
  {statement : Statement}

theorem eventsOf_append (db : TruthDb) (event : JobEvent) (jobId : String) :
    ({ db with events := db.events ++ [event] } : TruthDb).eventsOf jobId =
      db.eventsOf jobId ++ if event.jobId = jobId then [event] else [] := by
  unfold TruthDb.eventsOf
  rw [List.filter_append]
  by_cases h : event.jobId = jobId
  · rw [if_pos h, List.filter_cons_of_pos (by simp [h]), List.filter_nil]
  · rw [if_neg h, List.filter_cons_of_neg (by simp [h]), List.filter_nil]

theorem exec_insertEvent {jobId : String} {pid : Option String} {eventType : String} {data : Json}
    (h : db.exec jobId now eventId (.insertEvent pid eventType data) = some (after, next)) :
    after = { db with events := db.events ++ [eventRow jobId eventId now pid eventType data] } := by
  have h : (if (db.eventsOf jobId).any (·.eventId == eventId) then none else
      some (({ db with events := db.events ++ [eventRow jobId eventId now pid eventType data] } : TruthDb),
        eventId)) = some (after, next) := h
  split at h
  · cases h
  · exact (Prod.mk.inj (Option.some.inj h)).1.symm

/-- **a statement of the job itself** does to the database what it does to what was written -/
theorem Intact.exec_own (h : Intact before db suffix written) (hof : statement.Of suffix)
    (hexec : db.exec (jobIdOf suffix) now eventId statement = some (after, next)) :
    Intact before after suffix (written.exec (jobIdOf suffix) now eventId statement) := by
  cases statement with
  | insertJob job =>
    obtain ⟨rfl, rfl⟩ := Prod.mk.inj (Option.some.inj hexec)
    refine ⟨fun row hrow => ?_, h.process, h.runtime, h.events⟩
    obtain rfl : job = row := Option.some.inj hrow
    rw [Table.get?_insert, if_pos (show jobIdOf suffix = job.jobId from Eq.symm hof)]
  | insertProcess process =>
    obtain ⟨rfl, rfl⟩ := Prod.mk.inj (Option.some.inj hexec)
    refine ⟨h.job, fun row hrow => ?_, h.runtime, h.events⟩
    obtain rfl : process = row := Option.some.inj hrow
    rw [Table.get?_insert, if_pos (Eq.symm hof.1)]
    exact ⟨rfl, hof.2⟩
  | insertRuntime runtime =>
    obtain ⟨rfl, rfl⟩ := Prod.mk.inj (Option.some.inj hexec)
    refine ⟨h.job, h.process, fun row hrow => ?_, h.events⟩
    obtain rfl : runtime = row := Option.some.inj hrow
    rw [Table.get?_insert, if_pos (Eq.symm hof.1)]
    exact ⟨rfl, hof.2⟩
  | updateJobs status =>
    obtain ⟨rfl, rfl⟩ := Prod.mk.inj (Option.some.inj hexec)
    refine ⟨fun row hrow => ?_, h.process, h.runtime, h.events⟩
    obtain ⟨old, hold, rfl⟩ := Option.map_eq_some_iff.mp hrow
    rw [Table.get?_modify, if_pos rfl, h.job old hold, Option.map_some]
  | updateProcesses status =>
    obtain ⟨rfl, rfl⟩ := Prod.mk.inj (Option.some.inj hexec)
    refine ⟨h.job, fun row hrow => ?_, h.runtime, h.events⟩
    obtain ⟨old, hold, rfl⟩ := Option.map_eq_some_iff.mp hrow
    obtain ⟨hget, hjob⟩ := h.process old hold
    rw [Table.get?_mapValues, hget, Option.map_some, if_pos hjob]
    exact ⟨rfl, hjob⟩
  | updateRuntimes status =>
    obtain ⟨rfl, rfl⟩ := Prod.mk.inj (Option.some.inj hexec)
    refine ⟨h.job, h.process, fun row hrow => ?_, h.events⟩
    obtain ⟨old, hold, rfl⟩ := Option.map_eq_some_iff.mp hrow
    obtain ⟨hget, hjob⟩ := h.runtime old hold
    rw [Table.get?_mapValues, hget, Option.map_some, if_pos hjob]
    exact ⟨rfl, hjob⟩
  | selectEventId =>
    obtain ⟨rfl, rfl⟩ := Prod.mk.inj (Option.some.inj hexec)
    exact h
  | insertEvent pid eventType data =>
    obtain rfl := exec_insertEvent hexec
    refine ⟨h.job, h.process, h.runtime, ?_⟩
    have hown : (eventRow (jobIdOf suffix) eventId now pid eventType data).jobId = jobIdOf suffix := rfl
    rw [eventsOf_append, if_pos hown, h.events, List.append_assoc]
    rfl

theorem eventsOf_exec_other (hne : suffix ≠ other)
    (hexec : db.exec (jobIdOf suffix) now eventId statement = some (after, next)) :
    after.eventsOf (jobIdOf other) = db.eventsOf (jobIdOf other) := by
  cases statement with
  | insertEvent pid eventType data =>
    obtain rfl := exec_insertEvent hexec
    have hother : (eventRow (jobIdOf suffix) eventId now pid eventType data).jobId ≠ jobIdOf other :=
      fun heq => hne (jobIdOf_inj heq)
    rw [eventsOf_append, if_neg hother, List.append_nil]
  | insertJob _ | insertProcess _ | insertRuntime _ | updateJobs _ | updateProcesses _ | updateRuntimes _
  | selectEventId =>
    obtain ⟨rfl, rfl⟩ := Prod.mk.inj (Option.some.inj hexec)
    rfl

/-- **a statement of another job** leaves the job as it is -/
theorem Intact.exec_other (h : Intact before db other written) (hof : statement.Of suffix)
    (hne : suffix ≠ other)
    (hexec : db.exec (jobIdOf suffix) now eventId statement = some (after, next)) :
    Intact before after other written := by
  have hevents := (eventsOf_exec_other hne hexec).trans h.events
  have hjobs : jobIdOf other ≠ jobIdOf suffix := fun heq => hne (jobIdOf_inj heq).symm
  cases statement with
  | insertJob job =>
    obtain ⟨rfl, rfl⟩ := Prod.mk.inj (Option.some.inj hexec)
    refine ⟨fun row hrow => ?_, h.process, h.runtime, hevents⟩
    have hjob : job.jobId = jobIdOf suffix := hof
    rw [Table.get?_insert, if_neg (hjob ▸ hjobs)]
    exact h.job row hrow
  | insertProcess process =>
    obtain ⟨rfl, rfl⟩ := Prod.mk.inj (Option.some.inj hexec)
    refine ⟨h.job, fun row hrow => ?_, h.runtime, hevents⟩
    have hpid : rootPidOf other ≠ process.pid := by
      rw [hof.1]
      exact fun heq => hne (rootPidOf_inj heq).symm
    rw [Table.get?_insert, if_neg hpid]
    exact h.process row hrow
  | insertRuntime runtime =>
    obtain ⟨rfl, rfl⟩ := Prod.mk.inj (Option.some.inj hexec)
    refine ⟨h.job, h.process, fun row hrow => ?_, hevents⟩
    have hid : runtimeIdOf other ≠ runtime.runtimeId := by
      rw [hof.1]
      exact fun heq => hne (runtimeIdOf_inj heq).symm
    rw [Table.get?_insert, if_neg hid]
    exact h.runtime row hrow
  | updateJobs status =>
    obtain ⟨rfl, rfl⟩ := Prod.mk.inj (Option.some.inj hexec)
    refine ⟨fun row hrow => ?_, h.process, h.runtime, hevents⟩
    rw [Table.get?_modify, if_neg hjobs]
    exact h.job row hrow
  | updateProcesses status =>
    obtain ⟨rfl, rfl⟩ := Prod.mk.inj (Option.some.inj hexec)
    refine ⟨h.job, fun row hrow => ?_, h.runtime, hevents⟩
    obtain ⟨hget, hjob⟩ := h.process row hrow
    rw [Table.get?_mapValues, hget, Option.map_some, if_neg (hjob ▸ hjobs)]
    exact ⟨rfl, hjob⟩
  | updateRuntimes status =>
    obtain ⟨rfl, rfl⟩ := Prod.mk.inj (Option.some.inj hexec)
    refine ⟨h.job, h.process, fun row hrow => ?_, hevents⟩
    obtain ⟨hget, hjob⟩ := h.runtime row hrow
    rw [Table.get?_mapValues, hget, Option.map_some, if_neg (hjob ▸ hjobs)]
    exact ⟨rfl, hjob⟩
  | selectEventId =>
    obtain ⟨rfl, rfl⟩ := Prod.mk.inj (Option.some.inj hexec)
    exact h
  | insertEvent pid eventType data =>
    obtain rfl := exec_insertEvent hexec
    exact ⟨h.job, h.process, h.runtime, hevents⟩

end

/-! ## runs -/

/-- what holds all along a run of calls that read different times -/
structure Orderly (before : TruthDb) (pool : JobPool) : Prop where
  distinct : ∀ (i j : Nat) call other suffix, i ≠ j → pool.tasks[i]? = some call →
    pool.tasks[j]? = some other → call.suffix = some suffix → other.suffix ≠ some suffix
  intact : ∀ (i : Nat) call suffix, pool.tasks[i]? = some call → call.suffix = some suffix →
    Intact before pool.shared suffix call.written
  named : ∀ (i : Nat) call suffix, pool.tasks[i]? = some call → call.suffix = some suffix →
    ∀ statement ∈ call.todo, statement.Of suffix
  unwritten : ∀ (i : Nat) call, pool.tasks[i]? = some call → call.suffix = none →
    call.written = .none
  logs : ∀ suffix, (∀ (i : Nat) call, pool.tasks[i]? = some call → call.suffix ≠ some suffix) →
    pool.shared.eventsOf (jobIdOf suffix) = before.eventsOf (jobIdOf suffix)

section
variable {before : TruthDb} {pool : JobPool} {i : Nat} {call : JobCall} {input : CallInput}

theorem Orderly.separate (h : Orderly before pool) : Separate before pool := by
  refine ⟨fun i j call other suffix suffix' hij hi hj hs hs' heq => ?_, h.intact⟩
  obtain rfl := jobIdOf_inj heq
  exact h.distinct i j call other suffix hij hi hj hs hs'

theorem Orderly.start (h : Orderly before pool) (request : JobRequest) :
    Orderly before (pool.step jobCalls (.start request)) := by
  have hold {i : Nat} {call : JobCall} {suffix : Nat}
      (hi : (pool.step jobCalls (.start request)).tasks[i]? = some call)
      (hs : call.suffix = some suffix) : pool.tasks[i]? = some call := by
    rcases start_cases hi with hi | rfl
    · exact hi
    · cases hs
  refine ⟨?_, ?_, ?_, ?_, ?_⟩
  · intro i j call other suffix hij hi hj hs hs'
    exact h.distinct i j call other suffix hij (hold hi hs) (hold hj hs') hs hs'
  · exact fun i call suffix hi hs => h.intact i call suffix (hold hi hs) hs
  · exact fun i call suffix hi hs => h.named i call suffix (hold hi hs) hs
  · intro i call hi hs
    rcases start_cases hi with hi | rfl
    · exact h.unwritten i call hi hs
    · rfl
  · intro suffix hfree
    exact h.logs suffix fun i call hi => hfree i call (start_old request hi)

theorem Orderly.read (h : Orderly before pool) (hi : pool.tasks[i]? = some call)
    (hs : call.suffix = none) (hfresh : ReadsFresh pool (.turn i input)) :
    Orderly before (pool.step jobCalls (.turn i input)) := by
  have hfree : ∀ (j : Nat) other, pool.tasks[j]? = some other → other.suffix ≠ some input.now :=
    hfresh call hi hs
  have hnext : jobCalls.next input pool.shared call = (pool.shared,
      { call with suffix := some input.now, todo := createStatements call.request input.now }) := by
    show call.next input pool.shared = _
    unfold JobCall.next
    rw [hs]
  have hshared : (pool.step jobCalls (.turn i input)).shared = pool.shared :=
    (shared_turn hi).trans (congrArg Prod.fst hnext)
  have htask {j : Nat} {other : JobCall}
      (hj : (pool.step jobCalls (.turn i input)).tasks[j]? = some other) :
      (j = i ∧ other = { call with
        suffix := some input.now, todo := createStatements call.request input.now }) ∨
      (j ≠ i ∧ pool.tasks[j]? = some other) := by
    have hcases := turn_cases hi hj
    rw [hnext] at hcases
    exact hcases
  refine ⟨?_, ?_, ?_, ?_, ?_⟩
  · intro j k one other suffix hjk hj hk hsj hsk
    rcases htask hj with ⟨rfl, rfl⟩ | ⟨-, hjold⟩
    · rcases htask hk with ⟨rfl, -⟩ | ⟨-, hkold⟩
      · exact hjk rfl
      · obtain rfl : input.now = suffix := Option.some.inj hsj
        exact hfree k other hkold hsk
    · rcases htask hk with ⟨rfl, rfl⟩ | ⟨-, hkold⟩
      · obtain rfl : input.now = suffix := Option.some.inj hsk
        exact hfree j one hjold hsj
      · exact h.distinct j k one other suffix hjk hjold hkold hsj hsk
  · intro j other suffix hj hsj
    rw [hshared]
    rcases htask hj with ⟨rfl, rfl⟩ | ⟨-, hj⟩
    · obtain rfl : input.now = suffix := Option.some.inj hsj
      show Intact before pool.shared input.now call.written
      rw [h.unwritten j call hi hs]
      refine ⟨nofun, nofun, nofun, ?_⟩
      rw [h.logs input.now hfree]
      exact (List.append_nil _).symm
    · exact h.intact j other suffix hj hsj
  · intro j other suffix hj hsj
    rcases htask hj with ⟨rfl, rfl⟩ | ⟨-, hj⟩
    · obtain rfl : input.now = suffix := Option.some.inj hsj
      exact createStatements_of call.request input.now
    · exact h.named j other suffix hj hsj
  · intro j other hj hsj
    rcases htask hj with ⟨rfl, rfl⟩ | ⟨-, hj⟩
    · cases hsj
    · exact h.unwritten j other hj hsj
  · intro suffix hno
    rw [hshared]
    refine h.logs suffix fun j other hj hsj => ?_
    by_cases hji : j = i
    · subst hji
      obtain rfl : call = other := Option.some.inj (hi.symm.trans hj)
      exact absurd (hs.symm.trans hsj) nofun
    · exact hno j other ((turn_other hi hji).trans hj) hsj

/-- a turn after which the call has its name still, what it wrote is what the database has of its job, and the
other jobs are as they were -/
theorem Orderly.turn (h : Orderly before pool) (hi : pool.tasks[i]? = some call) {suffix : Nat}
    (hs : call.suffix = some suffix)
    (hsuffix : (call.next input pool.shared).2.suffix = some suffix)
    (hnamed : ∀ statement ∈ (call.next input pool.shared).2.todo, statement.Of suffix)
    (hown : Intact before (call.next input pool.shared).1 suffix (call.next input pool.shared).2.written)
    (hother : ∀ other written, suffix ≠ other → Intact before pool.shared other written →
      Intact before (call.next input pool.shared).1 other written)
    (hlogs : ∀ other, suffix ≠ other → (call.next input pool.shared).1.eventsOf (jobIdOf other) =
      pool.shared.eventsOf (jobIdOf other)) :
    Orderly before (pool.step jobCalls (.turn i input)) := by
  have hshared : (pool.step jobCalls (.turn i input)).shared = (call.next input pool.shared).1 := shared_turn hi
  have htask {j : Nat} {other : JobCall}
      (hj : (pool.step jobCalls (.turn i input)).tasks[j]? = some other) :
      (j = i ∧ other = (call.next input pool.shared).2) ∨ (j ≠ i ∧ pool.tasks[j]? = some other) :=
    turn_cases hi hj
  have hdistinct {j : Nat} {other : JobCall} {suffix' : Nat} (hji : j ≠ i)
      (hj : pool.tasks[j]? = some other) (hs' : other.suffix = some suffix') : suffix ≠ suffix' := by
    rintro rfl
    exact h.distinct i j call other suffix (Ne.symm hji) hi hj hs hs'
  refine ⟨?_, ?_, ?_, ?_, ?_⟩
  · intro j k one other suffix' hjk hj hk hsj hsk
    rcases htask hj with ⟨rfl, rfl⟩ | ⟨hji, hjold⟩
    · obtain rfl : suffix = suffix' := Option.some.inj (hsuffix.symm.trans hsj)
      rcases htask hk with ⟨rfl, -⟩ | ⟨hki, hkold⟩
      · exact hjk rfl
      · exact hdistinct hki hkold hsk rfl
    · rcases htask hk with ⟨rfl, rfl⟩ | ⟨hki, hkold⟩
      · obtain rfl : suffix = suffix' := Option.some.inj (hsuffix.symm.trans hsk)
        exact hdistinct hji hjold hsj rfl
      · exact h.distinct j k one other suffix' hjk hjold hkold hsj hsk
  · intro j other suffix' hj hsj
    rw [hshared]
    rcases htask hj with ⟨rfl, rfl⟩ | ⟨hji, hj⟩
    · obtain rfl : suffix = suffix' := Option.some.inj (hsuffix.symm.trans hsj)
      exact hown
    · exact hother suffix' other.written (hdistinct hji hj hsj) (h.intact j other suffix' hj hsj)
  · intro j other suffix' hj hsj
    rcases htask hj with ⟨rfl, rfl⟩ | ⟨-, hj⟩
    · obtain rfl : suffix = suffix' := Option.some.inj (hsuffix.symm.trans hsj)
      exact hnamed
    · exact h.named j other suffix' hj hsj
  · intro j other hj hsj
    rcases htask hj with ⟨rfl, rfl⟩ | ⟨-, hj⟩
    · exact absurd (hsuffix.symm.trans hsj) nofun
    · exact h.unwritten j other hj hsj
  · intro suffix' hno
    have hne : suffix ≠ suffix' := by
      rintro rfl
      exact hno i _ (turn_self hi) hsuffix
    rw [hshared, hlogs suffix' hne]
    refine h.logs suffix' fun j other hj hsj => ?_
    by_cases hji : j = i
    · subst hji
      obtain rfl : call = other := Option.some.inj (hi.symm.trans hj)
      exact hne (Option.some.inj (hs.symm.trans hsj))
    · exact hno j other ((turn_other hi hji).trans hj) hsj

theorem next_cases {suffix : Nat} (db : TruthDb) (hs : call.suffix = some suffix)
    (hnamed : ∀ statement ∈ call.todo, statement.Of suffix) :
    (∃ todo, (∀ statement ∈ todo, statement.Of suffix) ∧ call.next input db = (db, { call with todo })) ∨
      ∃ statement rest after eventId, call.todo = statement :: rest ∧
        db.exec (jobIdOf suffix) input.now call.eventId statement = some (after, eventId) ∧
        call.next input db = (after, { call with
          todo := rest
          eventId
          returned := call.returned || rest.isEmpty
          written := call.written.exec (jobIdOf suffix) input.now call.eventId statement }) := by
  unfold JobCall.next
  rw [hs]
  cases htodo : call.todo with
  | nil =>
    by_cases hreturned : call.returned = true
    · exact Or.inl ⟨_, workerStatements_of suffix input.work, congrArg (Prod.mk _) (if_pos hreturned)⟩
    · refine Or.inl ⟨_, hnamed, congrArg (Prod.mk _) ((if_neg hreturned).trans ?_)⟩
      rw [← hs]
  | cons statement rest =>
    by_cases hfails : input.fails = true
    · exact Or.inl ⟨[], nofun, if_pos hfails⟩
    · cases hexec : db.exec (jobIdOf suffix) input.now call.eventId statement with
      | none =>
        refine Or.inl ⟨[], nofun, ?_⟩
        dsimp only
        rw [if_neg hfails, hexec]
      | some result =>
        obtain ⟨after, eventId⟩ := result
        refine Or.inr ⟨statement, rest, after, eventId, rfl, hexec, ?_⟩
        dsimp only
        rw [if_neg hfails, hexec]

theorem Orderly.step (h : Orderly before pool) (move : JobMove) (hfresh : ReadsFresh pool move) :
    Orderly before (pool.step jobCalls move) := by
  cases move with
  | start request => exact h.start request
  | turn i input =>
    cases hi : pool.tasks[i]? with
    | none =>
      rw [step_turn_none hi]
      exact h
    | some call =>
      cases hs : call.suffix with
      | none => exact h.read hi hs hfresh
      | some suffix =>
        have hintact : Intact before pool.shared suffix call.written := h.intact i call suffix hi hs
        have hnamed : ∀ statement ∈ call.todo, statement.Of suffix := h.named i call suffix hi hs
        rcases @next_cases call input suffix pool.shared hs hnamed with
          ⟨todo, htodo, hnext⟩ | ⟨statement, rest, after, eventId, htodo, hexec, hnext⟩
        · refine h.turn hi hs ?_ ?_ ?_ ?_ ?_
          · rw [hnext]
            exact hs
          · rw [hnext]
            exact htodo
          · rw [hnext]
            exact hintact
          · rw [hnext]
            exact fun _ _ _ hother => hother
          · rw [hnext]
            exact fun _ _ => rfl
        · have hof : statement.Of suffix := hnamed statement (htodo ▸ List.mem_cons_self)
          refine h.turn hi hs ?_ ?_ ?_ ?_ ?_
          · rw [hnext]
            exact hs
          · rw [hnext]
            exact fun other hother => hnamed other (htodo ▸ List.mem_cons_of_mem _ hother)
          · rw [hnext]
            exact hintact.exec_own hof hexec
          · rw [hnext]
            exact fun other written hne hother => hother.exec_other hof hne hexec
          · rw [hnext]
            exact fun other hne => eventsOf_exec_other hne hexec

theorem orderly_start (db : TruthDb) : Orderly db ⟨db, []⟩ := by
  have hnone {i : Nat} {call : JobCall} (hi : ([] : List JobCall)[i]? = some call) : False :=
    List.not_mem_nil (List.mem_of_getElem? hi)
  refine ⟨?_, ?_, ?_, ?_, fun _ _ => rfl⟩
  · exact fun i j call other suffix _ hi => (hnone hi).elim
  · exact fun i call suffix hi => (hnone hi).elim
  · exact fun i call suffix hi => (hnone hi).elim
  · exact fun i call hi => (hnone hi).elim

theorem readsFresh_of_separate (move : JobMove) (h : Separate before (pool.step jobCalls move)) :
    ReadsFresh pool move := by
  cases move with
  | start request => trivial
  | turn i input =>
    intro call hi hs j other hj hsj
    have hji : i ≠ j := by
      rintro rfl
      obtain rfl : call = other := Option.some.inj (hi.symm.trans hj)
      exact absurd (hs.symm.trans hsj) nofun
    have hread : (call.next input pool.shared).2.suffix = some input.now := by
      unfold JobCall.next
      rw [hs]
    exact h.ids i j _ other input.now input.now hji (turn_self hi) ((turn_other hi (Ne.symm hji)).trans hj)
      hread hsj rfl

end

def jobPool (db : TruthDb) (moves : List JobMove) : JobPool := (⟨db, []⟩ : JobPool).run jobCalls moves

/-- **the jobs of a state root are separate** all along a run exactly when every call reads a time off the clock
that no other call has read -/
theorem separate_iff (db : TruthDb) (moves : List JobMove) :
    (∀ old, old <+: moves → Separate db (jobPool db old)) ↔
      ∀ old move, old ++ [move] <+: moves → ReadsFresh (jobPool db old) move := by
  have hconcat (old : List JobMove) (move : JobMove) :
      jobPool db (old ++ [move]) = (jobPool db old).step jobCalls move := run_concat old move
  refine Recorded.forall_prefix_iff_of_inv (I := fun old => Orderly db (jobPool db old)) ?_
    (fun old h => h.separate) ?_ ?_ moves
  · exact orderly_start db
  · intro old move h hnext
    rw [hconcat] at hnext
    exact readsFresh_of_separate move hnext
  · intro old move h hfresh
    rw [hconcat]
    exact h.step move hfresh

/-- two calls in the same millisecond: the row of the first job is that of the second -/
theorem job_replaced : ∃ moves, ((jobPool .empty moves).tasks.map fun call => call.written.job) =
      [some (newJob ⟨"root", "first"⟩ 5), some (newJob ⟨"root", "second"⟩ 5)] ∧
    (jobPool .empty moves).shared.jobs.values = [newJob ⟨"root", "second"⟩ 5] :=
  let input : CallInput := ⟨5, false, .updateJobStatus "running"⟩
  ⟨[.start ⟨"root", "first"⟩, .start ⟨"root", "second"⟩, .turn 0 input, .turn 0 input, .turn 1 input,
    .turn 1 input], by decide, by decide⟩

end Jobs

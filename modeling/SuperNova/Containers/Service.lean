import SuperNova.Containers.Projection

/-!
# Calls of the container service

The kernel has a row for a container, and the database of the workspace has a projection of it.  A call of the
service runs its statements on both, one after the other, and the statements of other calls come between.

* `AgentContainer`, `Change`: the kernel row, and what an update sets of it;
* `kernelContainerToRecord`: the projection of a kernel row;
* `ServiceCall.next`: one statement of a call.
-/

set_option linter.unusedSectionVars false

namespace Containers

open Feed

/-! ## kernel rows -/

inductive AgentContainerStatus where
  | active | archived | paused | deleted
  deriving DecidableEq

/-- the kernel row of a container -/
structure AgentContainer where
  title : Option String
  status : AgentContainerStatus
  defaultModelConfig : Json
  contextPolicy : Json
  createdAtMs : Int
  updatedAtMs : Int
  deriving DecidableEq

/-- what a call sets, where it sets something -/
structure Change where
  title : Option String
  status : Option AgentContainerStatus
  defaultModelConfig : Option Json
  contextPolicy : Option Json

/-- the row that `update_container` writes over the row it has read -/
def Change.apply (change : Change) (read : AgentContainer) (now : Int) : AgentContainer where
  title := change.title.or read.title
  status := change.status.getD read.status
  defaultModelConfig := change.defaultModelConfig.getD read.defaultModelConfig
  contextPolicy := change.contextPolicy.getD read.contextPolicy
  createdAtMs := read.createdAtMs
  updatedAtMs := now

/-- `UPDATE … SET title, status, default_model_config_json, context_policy_json, updated_at_ms` -/
def AgentContainer.write (row written : AgentContainer) : AgentContainer :=
  { written with createdAtMs := row.createdAtMs }

/-- `archive_container` -/
def AgentContainer.archive (row : AgentContainer) (now : Int) : AgentContainer :=
  { row with status := .archived, updatedAtMs := now }

/-! ## fields -/

inductive Field where
  | title | status | defaultModelConfig | contextPolicy | updatedAtMs
  deriving DecidableEq

inductive Value where
  | title (title : Option String)
  | status (status : AgentContainerStatus)
  | json (value : Json)
  | time (ms : Int)

def AgentContainer.field (row : AgentContainer) : Field → Value
  | .title => .title row.title
  | .status => .status row.status
  | .defaultModelConfig => .json row.defaultModelConfig
  | .contextPolicy => .json row.contextPolicy
  | .updatedAtMs => .time row.updatedAtMs

/-- the value that a change gives a field, at some time -/
def Change.value (change : Change) (now : Int) : Field → Option Value
  | .title => change.title.map fun title => .title (some title)
  | .status => change.status.map .status
  | .defaultModelConfig => change.defaultModelConfig.map .json
  | .contextPolicy => change.contextPolicy.map .json
  | .updatedAtMs => some (.time now)

/-! ## requests -/

structure UpdateContainerRequest where
  title : Option String
  status : Option ContainerStatus
  modelConfig : Option Json
  contextPolicy : Option Json

inductive Request where
  | get
  | update (request : UpdateContainerRequest)
  | activate
  | archive
  | restore
  | delete
  | activeContainerId

def containerStatusToKernel : ContainerStatus → Option AgentContainerStatus
  | .active => some .active
  | .archived => some .archived
  | .deleted => some .deleted
  | .running | .approval | .blocked => none

/-- what a request sets in the kernel; an update to a status that is none of the kernel's is refused -/
def Request.change? : Request → Option Change
  | .update request =>
    match request.status with
    | none => some ⟨request.title, none, request.modelConfig, request.contextPolicy⟩
    | some status => (containerStatusToKernel status).map fun status =>
        ⟨request.title, some status, request.modelConfig, request.contextPolicy⟩
  | .archive => some ⟨none, some .archived, none, none⟩
  | .restore => some ⟨none, some .active, none, none⟩
  | .delete => some ⟨none, some .deleted, none, none⟩
  | .get | .activate | .activeContainerId => none

/-- the value that a request gives a field -/
def Request.value (request : Request) (now : Int) (field : Field) : Option Value :=
  request.change?.bind fun change => change.value now field

/-! ## calls -/

inductive CallPhase where
  /-- `update_container` reads the row -/
  | select
  /-- and writes all of it -/
  | update (read : AgentContainer)
  | archive
  /-- the row is read to be projected -/
  | read
  /-- the first statement of `upsert_container_projection` -/
  | upsert (held : AgentContainer)
  /-- the others -/
  | project (phase : DbPhase)
  | setActive (phase : DbPhase)
  | ended

structure ServiceCall where
  request : Request
  phase : CallPhase
  /-- when the kernel row was written -/
  wroteAt : Option Int

/-- the kernel row of the container, and the database of the workspace -/
structure World where
  kernel : AgentContainer
  db : ProductDb

structure ServiceInput where
  input : Input
  fails : Bool

variable (workspaceUid containerId : String)

def kernelContainerToRecord (container : AgentContainer) : ContainerRecord where
  containerId
  workspaceUid
  title := container.title.getD "Container"
  status :=
    match container.status with
    | .active | .paused => .active
    | .archived => .archived
    | .deleted => .deleted
  createdAtMs := container.createdAtMs.toNat
  updatedAtMs := container.updatedAtMs.toNat
  lastActiveAtMs := container.updatedAtMs.toNat
  defaultModelConfig := some container.defaultModelConfig
  contextPolicy := some container.contextPolicy

def ServiceCall.start (request : Request) : ServiceCall :=
  { request
    phase :=
      match request with
      | .archive => .archive
      | .update _ | .restore | .delete => if request.change?.isSome then .select else .ended
      | .get | .activate | .activeContainerId => .read
    wroteAt := none }

def ContainerStatus.open : ContainerStatus → Bool
  | active | running => true
  | approval | blocked | archived | deleted => false

/-- what a call does after it has projected the row -/
def ServiceCall.afterProject (input : Input) (db : ProductDb) (request : Request)
    (container : Option ContainerRecord) : CallPhase :=
  match request with
  | .activate =>
    if container.any fun record => record.status.open then .setActive (.touch containerId) else .ended
  | .activeContainerId =>
    let isOpen (id : String) := (db.containers.get? id).any fun row => row.status.open
    if db.activeContainer.any isOpen then .ended
    else
      match input.choice with
      | some next => if isOpen next then .setActive (.touch next) else .ended
      | none => .ended
  | .get | .update _ | .archive | .restore | .delete => .ended

/-- one statement of a call, or its failure -/
def ServiceCall.next (step : ServiceInput) (world : World) (call : ServiceCall) : World × ServiceCall :=
  if step.fails then (world, { call with phase := .ended })
  else
    let now := step.input.now
    match call.phase with
    | .select => (world, { call with phase := .update world.kernel })
    | .update read =>
      let written := (call.request.change?.elim read fun change => change.apply read now)
      ({ world with kernel := world.kernel.write written },
        { call with phase := .upsert written, wroteAt := some now })
    | .archive =>
      ({ world with kernel := world.kernel.archive now }, { call with phase := .read, wroteAt := some now })
    | .read => (world, { call with phase := .upsert world.kernel })
    | .upsert held =>
      let (db, phase) := DbPhase.next step.input world.db
        (.upsert (kernelContainerToRecord workspaceUid containerId held))
      ({ world with db }, { call with phase := .project phase })
    | .project (.returned container) =>
      (world, { call with phase := afterProject containerId step.input world.db call.request container })
    | .project phase =>
      let (db, phase) := DbPhase.next step.input world.db phase
      ({ world with db }, { call with phase := .project phase })
    | .setActive (.returned _) => (world, { call with phase := .ended })
    | .setActive phase =>
      let (db, phase) := DbPhase.next step.input world.db phase
      ({ world with db }, { call with phase := .setActive phase })
    | .ended => (world, call)

def serviceCalls : Turns.Program World ServiceCall Request ServiceInput :=
  ⟨ServiceCall.start, ServiceCall.next workspaceUid containerId⟩

abbrev ServicePool := Turns.Pool World ServiceCall
abbrev ServiceMove := Turns.Move Request ServiceInput

/-- a container as `create` leaves it, with its projection -/
def World.created (kernel : AgentContainer) (db : ProductDb) : World :=
  ⟨kernel, db.upsertRow (kernelContainerToRecord workspaceUid containerId kernel)⟩

def runService (kernel : AgentContainer) (db : ProductDb) (moves : List ServiceMove) : ServicePool :=
  Turns.Pool.run (serviceCalls workspaceUid containerId)
    ⟨.created workspaceUid containerId kernel db, []⟩ moves

end Containers

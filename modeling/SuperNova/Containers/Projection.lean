import SuperNova.Feed.Merge
import SuperNova.Lib.Table
import SuperNova.Lib.Turns

/-!
# Containers of a workspace

The database of the workspace has a row for each container and a pointer to the active one.  A request runs
several statements on it, each of them alone, so that those of other requests come between.

* `ProductDb.upsertRow`, `ProductDb.touch`, `ProductDb.isNext`: the statements on the rows;
* `DbPhase`, `dbRequests`: `upsert_container_projection`, which an archive or a delete also comes down to,
  and `set_active_container_projection`, statement by statement.
-/

namespace Containers

open Feed

/-! ## rows -/

inductive ContainerStatus where
  | active | running | approval | blocked | archived | deleted
  deriving DecidableEq

/-- `status = 'archived' OR status = 'deleted'` -/
def ContainerStatus.hidden : ContainerStatus → Bool
  | archived | deleted => true
  | active | running | approval | blocked => false

/-- a container without its badges, which are counted from the tasks -/
structure ContainerRecord where
  containerId : String
  workspaceUid : String
  title : String
  status : ContainerStatus
  createdAtMs : Nat
  updatedAtMs : Nat
  lastActiveAtMs : Nat
  defaultModelConfig : Option Json
  contextPolicy : Option Json
  deriving DecidableEq

/-- a row of `container_projection`; numbers are as SQLite stores them -/
structure ContainerRow where
  workspaceUid : String
  title : String
  status : ContainerStatus
  createdAtMs : Int
  updatedAtMs : Int
  lastActiveAtMs : Int
  defaultModelConfig : Option Json
  contextPolicy : Option Json
  deriving DecidableEq

/-- `row_to_container` -/
def rowToContainer (containerId : String) (row : ContainerRow) : ContainerRecord where
  containerId
  workspaceUid := row.workspaceUid
  title := row.title
  status := row.status
  createdAtMs := asU128 row.createdAtMs
  updatedAtMs := asU128 row.updatedAtMs
  lastActiveAtMs := asU128 row.lastActiveAtMs
  defaultModelConfig := row.defaultModelConfig
  contextPolicy := row.contextPolicy

structure ProductDb where
  containers : Table String ContainerRow
  /-- the row of `active_container` for the workspace -/
  activeContainer : Option String

/-! ## statements -/

/-- `INSERT … ON CONFLICT(container_id) DO UPDATE`, which keeps `last_active_at_ms` -/
def ProductDb.upsertRow (db : ProductDb) (container : ContainerRecord) : ProductDb :=
  { db with
    containers := db.containers.insert container.containerId
      { workspaceUid := container.workspaceUid
        title := container.title
        status := container.status
        createdAtMs := asI64 container.createdAtMs
        updatedAtMs := asI64 container.updatedAtMs
        lastActiveAtMs := ((db.containers.get? container.containerId).map (·.lastActiveAtMs)).getD
          (asI64 container.lastActiveAtMs)
        defaultModelConfig := container.defaultModelConfig
        contextPolicy := container.contextPolicy } }

/-- the container has a row that is not hidden -/
def ProductDb.visible (db : ProductDb) (containerId : String) : Bool :=
  (db.containers.get? containerId).any fun row => !row.status.hidden

/-- `UPDATE … SET last_active_at_ms`, of a row that is not hidden -/
def ProductDb.touch (db : ProductDb) (containerId : String) (now : Int) : ProductDb :=
  if db.visible containerId then
    { db with
      containers := db.containers.modify containerId fun row =>
        { row with lastActiveAtMs := now, updatedAtMs := now } }
  else db

/-- `ORDER BY last_active_at_ms DESC LIMIT 1` of the rows that are not hidden may return `next` -/
def ProductDb.isNext (db : ProductDb) : Option String → Bool
  | none => db.containers.entries.all fun e => e.2.status.hidden
  | some next =>
    (db.containers.get? next).any fun row =>
      !row.status.hidden &&
        db.containers.entries.all fun e => e.2.status.hidden || decide (e.2.lastActiveAtMs ≤ row.lastActiveAtMs)

def ProductDb.getContainerProjection (db : ProductDb) (containerId : String) : Option ContainerRecord :=
  (db.containers.get? containerId).map (rowToContainer containerId)

/-! ## requests -/

inductive DbRequest where
  | upsertContainerProjection (container : ContainerRecord)
  | setActiveContainerProjection (containerId : String)

/-- the statement that a request runs next; from `readActive` to `point` it is in
`reconcile_active_after_hidden` -/
inductive DbPhase where
  | upsert (container : ContainerRecord)
  | readActive (containerId : String)
  | chooseNext (containerId : String)
  | point (containerId : String) (next : Option String)
  | touch (containerId : String)
  | setActive (containerId : String)
  | read (containerId : String)
  | returned (container : Option ContainerRecord)

/-- the time at a statement, and the row that it returns where several come first -/
structure Input where
  now : Int
  choice : Option String

def DbPhase.next (input : Input) (db : ProductDb) : DbPhase → ProductDb × DbPhase
  | .upsert container =>
    (db.upsertRow container,
      if container.status.hidden then .readActive container.containerId else .read container.containerId)
  | .readActive containerId =>
    (db, if db.activeContainer = some containerId then .chooseNext containerId else .read containerId)
  | .chooseNext containerId =>
    (db, if db.isNext input.choice then .point containerId input.choice else .chooseNext containerId)
  | .point containerId next => ({ db with activeContainer := next }, .read containerId)
  | .touch containerId =>
    (db.touch containerId input.now, if db.visible containerId then .setActive containerId else .read containerId)
  | .setActive containerId => ({ db with activeContainer := some containerId }, .read containerId)
  | .read containerId => (db, .returned (db.getContainerProjection containerId))
  | .returned container => (db, .returned container)

def dbRequests : Turns.Program ProductDb DbPhase DbRequest Input where
  start
    | .upsertContainerProjection container => .upsert container
    | .setActiveContainerProjection containerId => .touch containerId
  next := DbPhase.next

abbrev DbMove := Turns.Move DbRequest Input

/-- the requests on a database that starts empty -/
def runDb (moves : List DbMove) : Turns.Pool ProductDb DbPhase :=
  Turns.Pool.run dbRequests ⟨⟨.empty, none⟩, []⟩ moves

end Containers

import SuperNova.Containers.Projection

/-!
# Containers of an older database

An open of the product database creates its tables; when the table of containers of an older version is there,
its rows are imported and the table is renamed.  The statements run one by one, and an open may be cut off
between any two of them.

* `OpenPhase.next`: the statements of an open; `Database.openFor`: an open that is cut off, or not;
* `openFor_reaches`: what any part of an open makes of the database;
* `Safe`: the containers have rows after the first completed open, and no later open changes a row that was
  upserted since;
* `safe_iff` (**main**): every sequence of opens and upserts is safe exactly when the older table is not there with
  rows beside one that was renamed before.
-/

set_option linter.unusedSectionVars false

namespace Containers

open Feed

/-- the columns of a container behind its id -/
structure Columns where
  workspaceUid : String
  title : String
  status : String
  createdAtMs : Int
  updatedAtMs : Int
  lastActiveAtMs : Int
  defaultModelConfigJson : Option String
  contextPolicyJson : Option String
  deriving DecidableEq

/-- the tables of containers that are there, with their rows -/
structure Database where
  /-- `containers` -/
  containers : Option (List (String × Columns))
  /-- `containers_legacy_pre_projection_v1` -/
  legacy : Option (List (String × Columns))
  /-- `container_projection`, by its primary key -/
  projection : Option (Table String Columns)

namespace Database

/-- the row of a container in `container_projection` -/
def row (db : Database) (containerId : String) : Option Columns :=
  db.projection.bind fun projection => projection.get? containerId

/-- `CREATE TABLE IF NOT EXISTS container_projection` -/
def createProjection (db : Database) : Database :=
  { db with projection := some (db.projection.getD Table.empty) }

/-- `INSERT OR REPLACE INTO container_projection … SELECT … FROM containers` -/
def importContainers (db : Database) : Database :=
  { db with
    projection := db.projection.map fun projection =>
      (db.containers.getD []).foldl (fun projection container => projection.insert container.1 container.2)
        projection }

/-- `ALTER TABLE containers RENAME TO containers_legacy_pre_projection_v1` -/
def renameContainers (db : Database) : Database := { db with containers := none, legacy := db.containers }

end Database

/-! ## opening -/

/-- the statement that an open runs next; the other statements of `init_product_db` are about other tables -/
inductive OpenPhase where
  | readContainers
  | createTables (hasLegacyContainers : Bool)
  | importContainers
  | readLegacy
  | renameContainers
  | done
  deriving DecidableEq

/-- `init_product_db` and `migrate_legacy_containers`, statement by statement -/
def OpenPhase.next (db : Database) : OpenPhase → Database × OpenPhase
  | readContainers => (db, createTables db.containers.isSome)
  | createTables hasLegacyContainers =>
    (db.createProjection, if hasLegacyContainers then importContainers else done)
  | importContainers => (db.importContainers, readLegacy)
  | readLegacy => (db, if db.legacy.isSome then done else renameContainers)
  | renameContainers => (db.renameContainers, done)
  | done => (db, done)

/-- an open that is cut off after some statements, unless it is done before -/
def Database.openFor (db : Database) : Nat → Database × OpenPhase
  | 0 => (db, .readContainers)
  | statements + 1 => (db.openFor statements).2.next (db.openFor statements).1

/-! ## upserting -/

def statusToStr : ContainerStatus → String
  | .active => "active"
  | .running => "running"
  | .approval => "approval"
  | .blocked => "blocked"
  | .archived => "archived"
  | .deleted => "deleted"

/-- `INSERT … ON CONFLICT(container_id) DO UPDATE`, which keeps `last_active_at_ms`; without the table it fails -/
def Database.upsert (codec : Codec) (db : Database) (container : ContainerRecord) : Database :=
  { db with
    projection := db.projection.map fun projection =>
      projection.insert container.containerId
        { workspaceUid := container.workspaceUid
          title := container.title
          status := statusToStr container.status
          createdAtMs := asI64 container.createdAtMs
          updatedAtMs := asI64 container.updatedAtMs
          lastActiveAtMs := ((projection.get? container.containerId).map (·.lastActiveAtMs)).getD
            (asI64 container.lastActiveAtMs)
          defaultModelConfigJson := container.defaultModelConfig.map codec.render
          contextPolicyJson := container.contextPolicy.map codec.render } }

/-! ## runs -/

inductive OpenMove where
  | openFor (statements : Nat)
  | upsert (container : ContainerRecord)

/-- the database, whether an open was completed, and the containers that were upserted since -/
structure Session where
  db : Database
  opened : Bool
  upserted : List String

section
variable (codec : Codec)

def Session.step (session : Session) : OpenMove → Session
  | .openFor statements =>
    { session with
      db := (session.db.openFor statements).1
      opened := session.opened || (session.db.openFor statements).2 == .done }
  | .upsert container =>
    { session with
      db := session.db.upsert codec container
      upserted := if session.opened && session.db.projection.isSome then
        container.containerId :: session.upserted else session.upserted }

def runSession (db : Database) (moves : List OpenMove) : Session := moves.foldl (Session.step codec) ⟨db, false, []⟩

end

/-- the containers of the older table -/
def Database.oldContainers (db : Database) : List String := (db.containers.getD []).map (·.1)

/-- every container that was in the older table has a row -/
def Covered (start db : Database) : Prop := ∀ containerId ∈ start.oldContainers, (db.row containerId).isSome = true

/-- what holds of a session on a database -/
structure Safe (start : Database) (session : Session) : Prop where
  covered : session.opened = true → Covered start session.db
  kept : ∀ containerId ∈ session.upserted, ∀ statements,
    (session.db.openFor statements).1.row containerId = session.db.row containerId

/-- there is nothing to import -/
def Database.Idle (db : Database) : Prop := db.oldContainers = []

/-! ## what an open does -/

/-- where an open may stand, and what it made of the database -/
inductive Reaches (db : Database) : Database → OpenPhase → Prop
  | readContainers : Reaches db db .readContainers
  | createTables : Reaches db db (.createTables db.containers.isSome)
  | importContainers (hold : db.containers.isSome = true) : Reaches db db.createProjection .importContainers
  | readLegacy (hold : db.containers.isSome = true) :
    Reaches db db.createProjection.importContainers .readLegacy
  | renameContainers (hold : db.containers.isSome = true) (hfree : db.legacy = none) :
    Reaches db db.createProjection.importContainers .renameContainers
  | fresh (hnone : db.containers = none) : Reaches db db.createProjection .done
  | both (hold : db.containers.isSome = true) (hlegacy : db.legacy.isSome = true) :
    Reaches db db.createProjection.importContainers .done
  | renamed (hold : db.containers.isSome = true) (hfree : db.legacy = none) :
    Reaches db db.createProjection.importContainers.renameContainers .done

section
variable {codec : Codec} {start db after : Database} {phase : OpenPhase} {containerId : String}
  {rows : List (String × Columns)} {projection : Table String Columns} {session : Session}

theorem Reaches.next (h : Reaches db after phase) : Reaches db (phase.next after).1 (phase.next after).2 := by
  cases h with
  | readContainers => exact .createTables
  | createTables =>
    cases hold : db.containers with
    | none => exact .fresh hold
    | some rows => exact .importContainers (by rw [hold]; rfl)
  | importContainers hold => exact .readLegacy hold
  | readLegacy hold =>
    rw [OpenPhase.next]
    cases hlegacy : db.legacy with
    | none =>
      have hnot : ¬ db.createProjection.importContainers.legacy.isSome = true := by
        show ¬ db.legacy.isSome = true
        rw [hlegacy]
        exact Bool.false_ne_true
      rw [if_neg hnot]
      exact .renameContainers hold hlegacy
    | some rows =>
      have hsome : db.legacy.isSome = true := by rw [hlegacy]; rfl
      rw [if_pos (show db.createProjection.importContainers.legacy.isSome = true from hsome)]
      exact .both hold hsome
  | renameContainers hold hfree => exact .renamed hold hfree
  | fresh hnone => exact .fresh hnone
  | both hold hlegacy => exact .both hold hlegacy
  | renamed hold hfree => exact .renamed hold hfree

theorem openFor_reaches (db : Database) (statements : Nat) :
    Reaches db (db.openFor statements).1 (db.openFor statements).2 := by
  induction statements with
  | zero => exact .readContainers
  | succ statements ih => exact ih.next

/-! ## rows -/

theorem row_createProjection : db.createProjection.row containerId = db.row containerId := by
  rw [Database.row, Database.row, Database.createProjection]
  cases db.projection with
  | none => rfl
  | some projection => rfl

theorem get?_import_of_not_mem (h : containerId ∉ rows.map (·.1)) :
    (rows.foldl (fun projection container => projection.insert container.1 container.2) projection).get?
      containerId = projection.get? containerId := by
  induction rows generalizing projection with
  | nil => rfl
  | cons container rows ih =>
    rw [List.map_cons, List.mem_cons, not_or] at h
    rw [List.foldl_cons, ih h.2, Table.get?_insert, if_neg h.1]

theorem get?_import_concat (container : String × Columns) :
    ((rows ++ [container]).foldl (fun projection container => projection.insert container.1 container.2)
      projection).get? container.1 = some container.2 := by
  rw [List.foldl_concat, Table.get?_insert, if_pos rfl]

theorem isSome_import (h : (projection.get? containerId).isSome = true ∨ containerId ∈ rows.map (·.1)) :
    ((rows.foldl (fun projection container => projection.insert container.1 container.2) projection).get?
      containerId).isSome = true := by
  induction rows generalizing projection with
  | nil => exact h.resolve_right List.not_mem_nil
  | cons container rows ih =>
    rw [List.foldl_cons]
    refine ih ?_
    rw [List.map_cons, List.mem_cons] at h
    rw [Table.get?_insert]
    by_cases hid : containerId = container.1
    · rw [if_pos hid]
      exact Or.inl rfl
    · rw [if_neg hid]
      exact h.imp_right fun hmem => hmem.resolve_left hid

theorem row_imported : db.createProjection.importContainers.row containerId =
    ((db.containers.getD []).foldl (fun projection container => projection.insert container.1 container.2)
      (db.projection.getD Table.empty)).get? containerId := rfl

theorem row_getD : (db.projection.getD Table.empty).get? containerId = db.row containerId :=
  row_createProjection

theorem row_imported_of_not_mem (h : containerId ∉ db.oldContainers) :
    db.createProjection.importContainers.row containerId = db.row containerId := by
  rw [row_imported, get?_import_of_not_mem h, row_getD]

theorem isSome_row_imported (h : (db.row containerId).isSome = true ∨ containerId ∈ db.oldContainers) :
    (db.createProjection.importContainers.row containerId).isSome = true := by
  rw [row_imported]
  refine isSome_import ?_
  rw [row_getD]
  exact h

/-! ## what an open keeps -/

theorem Reaches.isSome_row (h : Reaches db after phase) (hrow : (db.row containerId).isSome = true) :
    (after.row containerId).isSome = true := by
  cases h with
  | readContainers | createTables => exact hrow
  | importContainers | fresh => rwa [row_createProjection]
  | readLegacy | renameContainers | both => exact isSome_row_imported (Or.inl hrow)
  | renamed => exact isSome_row_imported (Or.inl hrow)

theorem Reaches.row_of_idle (h : Reaches db after phase) (hidle : db.Idle) :
    after.row containerId = db.row containerId := by
  have hnot : containerId ∉ db.oldContainers := hidle ▸ List.not_mem_nil
  cases h with
  | readContainers | createTables => rfl
  | importContainers | fresh => exact row_createProjection
  | readLegacy | renameContainers | both => exact row_imported_of_not_mem hnot
  | renamed => exact row_imported_of_not_mem hnot

theorem Reaches.idle (h : Reaches db after phase) (hidle : db.Idle) : after.Idle := by
  cases h with
  | renamed => rfl
  | _ => exact hidle

theorem Reaches.covered (h : Reaches db after .done) : Covered db after := by
  intro containerId hold
  cases h with
  | fresh hnone =>
    rw [Database.oldContainers, hnone] at hold
    exact absurd hold List.not_mem_nil
  | both => exact isSome_row_imported (Or.inr hold)
  | renamed => exact isSome_row_imported (Or.inr hold)

theorem Reaches.containers (h : Reaches db after phase) : after.containers = db.containers ∨ Covered db after := by
  cases h with
  | renamed => exact Or.inr fun containerId hold => isSome_row_imported (Or.inr hold)
  | _ => exact Or.inl rfl

/-- at most one of the two older tables is there, or the older one is empty -/
def Database.Single (db : Database) : Prop := db.legacy = none ∨ db.Idle

theorem Reaches.single (h : Reaches db after phase) (hsingle : db.Single) : after.Single := by
  cases h with
  | renamed => exact Or.inr rfl
  | _ => exact hsingle

theorem Reaches.idle_of_done (h : Reaches db after .done) (hsingle : db.Single) : after.Idle := by
  cases h with
  | fresh hnone =>
    show (db.containers.getD []).map (·.1) = []
    rw [hnone]
    rfl
  | both _ hlegacy =>
    refine hsingle.resolve_left fun hnone => ?_
    rw [hnone] at hlegacy
    cases hlegacy
  | renamed => rfl

/-! ## upserts -/

theorem isSome_row_upsert (container : ContainerRecord) (h : (db.row containerId).isSome = true) :
    ((db.upsert codec container).row containerId).isSome = true := by
  rw [Database.row] at h
  rw [Database.row, Database.upsert]
  cases hprojection : db.projection with
  | none =>
    rw [hprojection] at h
    cases h
  | some projection =>
    rw [hprojection] at h
    show ((projection.insert _ _).get? containerId).isSome = true
    rw [Table.get?_insert]
    split
    · rfl
    · exact h

theorem title_upsert (container : ContainerRecord) (h : db.projection = some projection) :
    ((db.upsert codec container).row container.containerId).map (·.title) = some container.title := by
  rw [Database.row, Database.upsert, h]
  show ((projection.insert container.containerId _).get? container.containerId).map _ = _
  rw [Table.get?_insert, if_pos rfl]
  rfl

/-! ## sessions -/

/-- what opens and upserts keep when the older table can be renamed -/
structure Migrating (start : Database) (session : Session) : Prop where
  single : session.db.Single
  covered : session.db.containers = start.containers ∨ Covered start session.db
  opened : session.opened = true → session.db.Idle ∧ Covered start session.db
  upserted : session.upserted ≠ [] → session.opened = true

theorem Migrating.safe (h : Migrating start session) : Safe start session := by
  refine ⟨fun hopened => (h.opened hopened).2, fun containerId hmem statements => ?_⟩
  have hidle := (h.opened (h.upserted (List.ne_nil_of_mem hmem))).1
  exact (openFor_reaches session.db statements).row_of_idle hidle

theorem Covered.mono (h : Covered start db)
    (hrows : ∀ containerId, (db.row containerId).isSome = true → (after.row containerId).isSome = true) :
    Covered start after := fun containerId hold => hrows containerId (h containerId hold)

theorem covered_congr (h : Covered db after) (hsame : db.containers = start.containers) : Covered start after := by
  intro containerId hold
  refine h containerId ?_
  rw [Database.oldContainers, hsame]
  exact hold

theorem Migrating.openFor (h : Migrating start session) (statements : Nat) :
    Migrating start (session.step codec (.openFor statements)) := by
  have hreaches := openFor_reaches session.db statements
  have hmono : ∀ containerId, (session.db.row containerId).isSome = true →
      ((session.db.openFor statements).1.row containerId).isSome = true := fun _ => hreaches.isSome_row
  refine ⟨hreaches.single h.single, ?_, fun hopened => ?_, fun hmem => ?_⟩
  · rcases h.covered with hsame | hcovered
    · exact hreaches.containers.imp (·.trans hsame) fun hdone => covered_congr hdone hsame
    · exact Or.inr (hcovered.mono hmono)
  · rcases (Bool.or_eq_true _ _).mp hopened with hopened | hdone
    · obtain ⟨hidle, hcovered⟩ := h.opened hopened
      exact ⟨hreaches.idle hidle, hcovered.mono hmono⟩
    · rw [beq_iff_eq] at hdone
      rw [hdone] at hreaches
      refine ⟨hreaches.idle_of_done h.single, ?_⟩
      rcases h.covered with hsame | hcovered
      · exact covered_congr hreaches.covered hsame
      · exact hcovered.mono hmono
  · have hopened : session.opened = true := h.upserted hmem
    show (session.opened || _) = true
    rw [hopened, Bool.true_or]

theorem Migrating.upsert (h : Migrating start session) (container : ContainerRecord) :
    Migrating start (session.step codec (.upsert container)) := by
  have hmono : ∀ containerId, (session.db.row containerId).isSome = true →
      ((session.db.upsert codec container).row containerId).isSome = true := fun _ => isSome_row_upsert container
  refine ⟨h.single, h.covered.imp_right (·.mono hmono), fun hopened => ?_, fun hmem => ?_⟩
  · obtain ⟨hidle, hcovered⟩ := h.opened hopened
    exact ⟨hidle, hcovered.mono hmono⟩
  · show session.opened = true
    cases hopened : session.opened with
    | true => rfl
    | false =>
      refine absurd (h.upserted ?_) (by rw [hopened]; exact Bool.false_ne_true)
      simpa [Session.step, hopened] using hmem

theorem migrating_run (hsingle : start.Single) (moves : List OpenMove) :
    Migrating start (runSession codec start moves) := by
  induction moves using List.reverseRecOn with
  | nil => exact ⟨hsingle, Or.inl rfl, nofun, fun h => absurd rfl h⟩
  | append_singleton moves move ih =>
    rw [runSession, List.foldl_concat]
    cases move with
    | openFor statements => exact ih.openFor statements
    | upsert container => exact ih.upsert container

/-! ## two older tables -/

theorem openFor_both (hold : db.containers.isSome = true) (hlegacy : db.legacy.isSome = true) :
    db.openFor 4 = (db.createProjection.importContainers, .done) := by
  have hlegacy' : db.createProjection.importContainers.legacy.isSome = true := hlegacy
  simp only [Database.openFor, OpenPhase.next, hold, if_pos, hlegacy']

/-- a container of the older table, with another title -/
def renamed (container : String × Columns) : ContainerRecord where
  containerId := container.1
  workspaceUid := container.2.workspaceUid
  title := container.2.title ++ "*"
  status := .active
  createdAtMs := 0
  updatedAtMs := 0
  lastActiveAtMs := 0
  defaultModelConfig := none
  contextPolicy := none

theorem not_safe_both (hlegacy : db.legacy.isSome = true) {front : List (String × Columns)}
    {container : String × Columns} (hold : db.containers = some (front ++ [container])) :
    ¬ Safe db (runSession codec db [.openFor 4, .upsert (renamed container)]) := by
  intro hsafe
  have hsome : db.containers.isSome = true := by rw [hold]; rfl
  have himported : db.createProjection.importContainers.projection =
      some ((db.containers.getD []).foldl (fun projection container => projection.insert container.1 container.2)
        (db.projection.getD Table.empty)) := rfl
  have hrun : runSession codec db [.openFor 4, .upsert (renamed container)] =
      ⟨db.createProjection.importContainers.upsert codec (renamed container), true, [container.1]⟩ := by
    simp only [runSession, List.foldl_cons, List.foldl_nil, Session.step, openFor_both hsome hlegacy, himported]
    rfl
  rw [hrun] at hsafe
  have hkept := hsafe.kept container.1 List.mem_cons_self 4
  dsimp only at hkept
  have hboth : (db.createProjection.importContainers.upsert codec (renamed container)).openFor 4 = _ :=
    openFor_both hsome hlegacy
  have hstays : (db.createProjection.importContainers.upsert codec (renamed container)).containers =
      some (front ++ [container]) := hold
  have hagain : (db.createProjection.importContainers.upsert codec
      (renamed container)).createProjection.importContainers.row container.1 = some container.2 := by
    rw [row_imported, hstays, Option.getD_some]
    exact get?_import_concat container
  have htitle : ((db.createProjection.importContainers.upsert codec (renamed container)).row container.1).map
      (·.title) = some (container.2.title ++ "*") := title_upsert (renamed container) himported
  rw [hboth, hagain] at hkept
  rw [← hkept, Option.map_some, Option.some.injEq] at htitle
  have hlength := congrArg String.length htitle
  rw [String.length_append] at hlength
  exact absurd hlength (Nat.ne_of_lt (Nat.lt_add_one _))

/-- **Every sequence of opens and upserts is safe exactly when the older table is not there with rows beside one
that was renamed before.** -/
theorem safe_iff (codec : Codec) (start : Database) :
    (∀ moves, Safe start (runSession codec start moves)) ↔ start.legacy = none ∨ start.Idle := by
  constructor
  · intro h
    by_contra hnot
    rw [not_or] at hnot
    have hlegacy : start.legacy.isSome = true := Option.isSome_iff_ne_none.mpr hnot.1
    cases hold : start.containers with
    | none => exact hnot.2 (by rw [Database.Idle, Database.oldContainers, hold]; rfl)
    | some rows =>
      rcases List.eq_nil_or_concat' rows with rfl | ⟨front, container, rfl⟩
      · exact hnot.2 (by rw [Database.Idle, Database.oldContainers, hold]; rfl)
      · exact not_safe_both hlegacy hold (h _)
  · exact fun hsingle moves => (migrating_run hsingle moves).safe

/-- a container that an older version wrote -/
def oldContainer : String × Columns :=
  ("container_1",
    { workspaceUid := "workspace_1", title := "Notes", status := "active", createdAtMs := 1, updatedAtMs := 2,
      lastActiveAtMs := 3, defaultModelConfigJson := none, contextPolicyJson := none })

/-- a database that an older version opened again after it was migrated -/
def openedByOlder : Database where
  containers := some [oldContainer]
  legacy := some [oldContainer]
  projection := none

/-- no row of the container holds JSON -/
def noJson : Codec := ⟨fun _ => .error "", fun _ => ""⟩

/-- the new title of the container is lost at the next open -/
theorem title_lost :
    ¬ Safe openedByOlder (runSession noJson openedByOlder [.openFor 4, .upsert (renamed oldContainer)]) := by
  have hold : openedByOlder.containers = some ([] ++ [oldContainer]) := rfl
  exact not_safe_both rfl hold

end

end Containers

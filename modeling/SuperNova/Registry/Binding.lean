import SuperNova.Lib.Recorded
import SuperNova.Lib.Turns
import SuperNova.Registry.Workspaces
import Mathlib.Data.List.Sort

/-!
# The workspace that the runtime is bound to

The binding is in memory, and whether a workspace is archived is in the registry.  Requests create, activate and
archive workspaces; an archive of the workspace that is bound first archives it, and then binds another.  Each
request runs its statements one by one, and those of other requests come between.

* `Phase`, `workspaceRequests`: the requests, statement by statement; every one may fail;
* `Settled`: the bound workspace is there and not archived, or a request has still to bind one; and an archive that
  failed has changed nothing;
* `binding_settled_iff` (**main**): this holds all along a run exactly when no request gives up, or archives, what
  no other will bind anew, and no archive fails that has changed something;
* `archived_and_bound`: an archive whose rebinding fails.
-/

set_option linter.unusedSectionVars false

namespace WorkspaceRegistry

open Turns

/-! ## the registry and the binding -/

/-- `APP_HOME_WORKSPACE_ID` -/
def appHomeWorkspaceId : String := "ws_app_home"

/-- the binding, without the services that go with it -/
structure ActiveWorkspace where
  workspaceRoot : OsString
  workspaceUid : String
  deriving DecidableEq

structure RegistryWorld where
  registry : Workspaces
  active : ActiveWorkspace

instance : DecidableEq RegistryWorld := fun world world' =>
  decidable_of_iff (world.registry.rows.entries = world'.registry.rows.entries ∧ world.active = world'.active) <| by
    obtain ⟨⟨⟨entries, _⟩, _⟩, active⟩ := world
    obtain ⟨⟨⟨entries', _⟩, _⟩, active'⟩ := world'
    simp

/-- `ORDER BY created_at_ms ASC, workspace_uid ASC` of those that are not archived -/
def Workspaces.list (t : Workspaces) : List WorkspaceRecord :=
  ((t.rows.entries.filter fun e => !e.2.archived).insertionSort
    fun e e' => e.2.createdAtMs ≤ e'.2.createdAtMs).map fun e => rowToWorkspace e.1 e.2

/-- `UPDATE workspaces SET archived=1` -/
def Workspaces.setArchived (t : Workspaces) (uid : String) : Workspaces :=
  t.change uid (fun row => { row with archived := true }) fun _ => rfl

/-! ## requests -/

inductive WorkspaceRequest where
  | create (workspaceRoot : String) (displayName : Option String)
  | activate (workspaceUid workspaceRoot : Option String)
  | archive (workspaceUid : String)

inductive RequestError where
  | registry (error : RegistryError)
  | badRequest (message : String)
  | internal (message : String)
  deriving DecidableEq

/-- what a request does next -/
inductive Phase where
  /-- `register`, of `create` -/
  | creating (root : OsString) (displayName : Option String)
  | created (uid : String)
  /-- `activate`, with a name that is given -/
  | activating (uid : String)
  /-- `archive` -/
  | archiving (uid : String)
  | listing (uid activeUid : String)
  | updating (uid activeUid : String)
  | archived (uid activeUid : String)
  | choosing
  /-- `rebind_workspace` -/
  | registering (root : OsString) (uid : String)
  | registered (root : OsString) (uid : String)
  | opening (root : OsString) (uid : String)
  | binding (root : OsString) (uid : String)
  | returned (result : Except RequestError Unit)
  deriving DecidableEq

/-- a request, with what is told of it: whether it is an archive, and whether it has changed something -/
structure Request where
  isArchive : Bool
  changed : Bool
  phase : Phase
  deriving DecidableEq

inductive RequestInput where
  /-- the next statement, at a time -/
  | goes (now : Int)
  /-- the next statement cannot be run -/
  | fails

def requiredWorkspaceUid (value : Option String) : Except RegistryError String :=
  match (value.map Text.trim).filter (· ≠ "") with
  | some uid => .ok uid
  | none => .error (.invalidParameterName "workspace_uid is required for activation.")

/-- the checks of `WorkspaceService::activate` -/
def checkedActivation (workspaceUid workspaceRoot : Option String) : Except RegistryError String :=
  if workspaceRoot.any fun value => Text.trim value ≠ "" then
    .error (.invalidParameterName
      "workspace_root is not accepted by workspace activation; use workspace_uid.")
  else requiredWorkspaceUid workspaceUid

variable (platform : Platform)

def WorkspaceRequest.phase : WorkspaceRequest → Phase
  | .create workspaceRoot displayName =>
    match canonicalWorkspaceRoot platform workspaceRoot with
    | .ok root => .creating root displayName
    | .error error => .returned (.error (.registry error))
  | .activate workspaceUid workspaceRoot =>
    match checkedActivation workspaceUid workspaceRoot with
    | .ok uid => .activating uid
    | .error error => .returned (.error (.registry error))
  | .archive workspaceUid => .archiving workspaceUid

def WorkspaceRequest.isArchive : WorkspaceRequest → Bool
  | .archive _ => true
  | .create .. | .activate .. => false

/-- the `INSERT` of `register` -/
def insertWorkspace (t : Workspaces) (root : OsString) (displayName : Option String) (now : Int) :
    Except RegistryError Workspaces :=
  t.upsert (workspaceUid platform root)
    { workspaceRoot := toStringLossy root
      displayName := displayNameOf platform root displayName
      createdAtMs := now
      lastOpenedAtMs := now
      archived := false }

/-- go on with what a statement returned -/
def andThen {α : Type} (result : Except RegistryError α) (next : α → Phase) : Phase :=
  match result with
  | .ok value => next value
  | .error error => .returned (.error (.registry error))

/-- `rebind_workspace` of a record -/
def rebind (workspace : WorkspaceRecord) : Phase := .registering (ofText workspace.workspaceRoot) workspace.workspaceUid

/-- `archive` binds the first of the workspaces that are left -/
def rebindNext : List WorkspaceRecord → Phase
  | next :: _ => rebind next
  | [] => .returned (.error (.internal "No workspace available after archive."))

/-- the `INSERT`, and what comes after it -/
def registerThen (now : Int) (world : RegistryWorld) (root : OsString) (displayName : Option String)
    (next : Phase) : RegistryWorld × Phase :=
  match insertWorkspace platform world.registry root displayName now with
  | .ok registry => ({ world with registry }, next)
  | .error error => (world, .returned (.error (.registry error)))

/-- the next statement of a request -/
def Phase.go (now : Int) (world : RegistryWorld) : Phase → RegistryWorld × Phase
  | .creating root displayName =>
    registerThen platform now world root displayName (.created (workspaceUid platform root))
  | .created uid => (world, andThen (world.registry.getByUid uid) fun _ => .returned (.ok ()))
  | .activating uid => (world, andThen (world.registry.getByUid uid) rebind)
  | .archiving uid => (world, .listing uid world.active.workspaceUid)
  | .listing uid activeUid =>
    (world, if uid = activeUid ∧ world.registry.list.length ≤ 1 then
        .returned (.error (.badRequest "Cannot archive the last workspace."))
      else .updating uid activeUid)
  | .updating uid activeUid =>
    ({ world with registry := world.registry.setArchived uid }, .archived uid activeUid)
  | .archived uid activeUid =>
    (world, andThen (world.registry.getByUid uid) fun _ =>
      if uid = activeUid then .choosing else .returned (.ok ()))
  | .choosing => (world, rebindNext world.registry.list)
  | .registering root uid => registerThen platform now world root none (.registered root uid)
  | .registered root uid =>
    (world, andThen (world.registry.getByUid (workspaceUid platform root)) fun _ => .opening root uid)
  | .opening root uid => (world, .binding root uid)
  | .binding root uid => ({ world with active := ⟨root, uid⟩ }, .returned (.ok ()))
  | .returned result => (world, .returned result)

/-- one turn of a phase; the binding itself cannot fail -/
def Phase.next (input : RequestInput) (world : RegistryWorld) (phase : Phase) : RegistryWorld × Phase :=
  match input, phase with
  | .fails, .returned result => (world, .returned result)
  | .fails, .archiving uid => (world, .archiving uid)
  | .fails, .binding root uid => (world, .binding root uid)
  | .fails, _ => (world, .returned (.error (.registry .unavailable)))
  | .goes now, phase => phase.go platform now world

def Request.next (input : RequestInput) (world : RegistryWorld) (request : Request) : RegistryWorld × Request :=
  let result := request.phase.next platform input world
  (result.1, { request with changed := request.changed || decide (result.1 ≠ world), phase := result.2 })

def workspaceRequests : Program RegistryWorld Request WorkspaceRequest RequestInput where
  start request := ⟨request.isArchive, false, request.phase platform⟩
  next := Request.next platform

/-! ## what is to hold -/

def Visible (t : Workspaces) (uid : String) : Prop :=
  ∃ row, t.rows.get? uid = some row ∧ row.archived = false

/-- the home of the application is in no registry -/
def Bindable (t : Workspaces) (uid : String) : Prop := uid = appHomeWorkspaceId ∨ Visible t uid

/-- the bound workspace is registered and not archived, unless it is the home of the application -/
def Bound (world : RegistryWorld) : Prop := Bindable world.registry world.active.workspaceUid

/-- the request is to bind a workspace -/
def Request.Owes (request : Request) : Prop :=
  match request.phase with
  | .archived uid activeUid => uid = activeUid
  | .choosing | .registering .. | .registered .. | .opening .. | .binding .. => True
  | _ => False

/-- an archive that returned an error has changed nothing -/
def Whole (request : Request) : Prop :=
  request.isArchive = true → (∃ error, request.phase = .returned (.error error)) → request.changed = false

/-- the bound workspace is as it should be or a request has still to bind one; no request that has returned has -/
def Settled (pool : Pool RegistryWorld Request) : Prop :=
  SeenTo Bound Request.Owes pool ∧ ∀ request ∈ pool.tasks, Whole request

def Returned (pool : Pool RegistryWorld Request) : Prop :=
  ∀ request ∈ pool.tasks, ∃ result, request.phase = .returned result

/-- `register` meets the name under another path -/
def Refused (t : Workspaces) (root : OsString) : Prop :=
  t.uidAt (toStringLossy root) = none ∧ (t.rows.get? (workspaceUid platform root)).isSome

/-- the next statement of the request cannot be run, or has nothing to go on with -/
def Phase.Fails (world : RegistryWorld) : RequestInput → Phase → Prop
  | _, .returned _ | .fails, .archiving _ | .fails, .binding .. => False
  | .fails, _ => True
  | .goes _, .creating root _ | .goes _, .registering root _ => Refused platform world.registry root
  | .goes _, .created uid | .goes _, .activating uid | .goes _, .archived uid _ => world.registry.rows.get? uid = none
  | .goes _, .registered root _ => world.registry.rows.get? (workspaceUid platform root) = none
  | .goes _, .listing uid activeUid => uid = activeUid ∧ world.registry.list.length ≤ 1
  | .goes _, .choosing => world.registry.list = []
  | .goes _, _ => False

/-- a request archives what is bound only when it will bind another, and binds only what is not archived, unless
another request will bind anew -/
def Phase.Spares (pool : Pool RegistryWorld Request) (i : Nat) : RequestInput → Phase → Prop
  | .goes _, .updating uid activeUid =>
    uid ≠ activeUid → pool.shared.active.workspaceUid = uid →
      uid = appHomeWorkspaceId ∨ AnyOther Request.Owes pool i
  | .goes _, .binding _ uid => Bindable pool.shared.registry uid ∨ AnyOther Request.Owes pool i
  | _, _ => True

/-- and it gives up only what another will bind anew, or what is bound already; an archive, only before it has
changed something -/
def Request.Heeds (pool : Pool RegistryWorld Request) (i : Nat) (input : RequestInput) (request : Request) : Prop :=
  (request.phase.Fails platform pool.shared input →
    (request.Owes → Bound pool.shared ∨ AnyOther Request.Owes pool i) ∧
      (request.isArchive = true → request.changed = false)) ∧
    request.phase.Spares pool i input

def Heeds (pool : Pool RegistryWorld Request) : Turns.Move WorkspaceRequest RequestInput → Prop
  | .start _ => True
  | .turn i input => ∀ request, pool.tasks[i]? = some request → request.Heeds platform pool i input

section
variable {platform} {t t' : Workspaces} {pool : Pool RegistryWorld Request} {world : RegistryWorld} {phase : Phase}
  {request other : Request} {input : RequestInput} {uid activeUid k : String} {root : OsString}
  {displayName : Option String} {now : Int} {i : Nat}

/-! ## what a statement changes -/

theorem insertWorkspace_cases (platform : Platform) (t : Workspaces) (root : OsString) (displayName : Option String)
    (now : Int) :
    (Refused platform t root ∧ ∃ error, insertWorkspace platform t root displayName now = .error error) ∨
      (¬ Refused platform t root ∧ ∃ t', insertWorkspace platform t root displayName now = .ok t' ∧
        ∀ k, Visible t k → Visible t' k) := by
  unfold insertWorkspace Refused
  generalize hrow : WorkspaceRow.mk _ _ _ _ _ = row
  have hroot : toStringLossy root = row.workspaceRoot := by rw [← hrow]
  rw [hroot]
  cases hat : t.uidAt row.workspaceRoot with
  | some known =>
    obtain ⟨t', hupsert, hafter⟩ := Workspaces.upsert_known (workspaceUid platform root) hat
    refine .inr ⟨fun h => absurd h.1 (Option.some_ne_none _), t', hupsert, ?_⟩
    rintro k ⟨old, hget, hopen⟩
    by_cases hk : k = known
    · refine ⟨Workspaces.reopened row old, ?_, rfl⟩
      rw [hafter, if_pos hk, hget]
      rfl
    · refine ⟨old, ?_, hopen⟩
      rw [hafter, if_neg hk, hget]
  | none =>
    cases hfree : t.rows.get? (workspaceUid platform root) with
    | some old =>
      have htaken : (t.rows.get? (workspaceUid platform root)).isSome := by
        rw [hfree]
        rfl
      exact .inl ⟨⟨rfl, rfl⟩, _, Workspaces.upsert_taken hat htaken⟩
    | none =>
      obtain ⟨t', hupsert, hafter⟩ := Workspaces.upsert_new hat hfree
      refine .inr ⟨fun h => absurd h.2 Bool.false_ne_true, t', hupsert, ?_⟩
      rintro k ⟨old, hget, hopen⟩
      have hk : k ≠ workspaceUid platform root := by
        rintro rfl
        exact absurd (hfree.symm.trans hget).symm (Option.some_ne_none _)
      refine ⟨old, ?_, hopen⟩
      rw [hafter, if_neg hk, hget]

theorem registerThen_cases (platform : Platform) (now : Int) (world : RegistryWorld) (root : OsString)
    (displayName : Option String)
    (next : Phase) :
    (Refused platform world.registry root ∧
      ∃ error, registerThen platform now world root displayName next = (world, .returned (.error error))) ∨
    (¬ Refused platform world.registry root ∧
      ∃ registry, registerThen platform now world root displayName next = ({ world with registry }, next) ∧
        ∀ k, Visible world.registry k → Visible registry k) := by
  unfold registerThen
  rcases insertWorkspace_cases platform world.registry root displayName now with
    ⟨hrefused, error, herror⟩ | ⟨hfree, t', hok, hkeeps⟩
  · rw [herror]
    exact .inl ⟨hrefused, _, rfl⟩
  · rw [hok]
    exact .inr ⟨hfree, t', rfl, hkeeps⟩

theorem registerThen_error_iff {next : Phase} (hnext : ∀ error, next ≠ .returned (.error error)) :
    (∃ error, (registerThen platform now world root displayName next).2 = .returned (.error error)) ↔
      Refused platform world.registry root := by
  rcases registerThen_cases platform now world root displayName next with
    ⟨hrefused, error, hthen⟩ | ⟨hfree, registry, hthen, -⟩
  · rw [hthen]
    exact iff_of_true ⟨error, rfl⟩ hrefused
  · rw [hthen]
    exact iff_of_false (fun ⟨error, herror⟩ => hnext error herror) hfree

theorem registerThen_of_refused {next : Phase} (h : Refused platform world.registry root) :
    (registerThen platform now world root displayName next).1 = world := by
  rcases registerThen_cases platform now world root displayName next with
    ⟨-, error, hthen⟩ | ⟨hfree, -⟩
  · rw [hthen]
  · exact absurd h hfree

theorem visible_setArchived_iff : Visible (t.setArchived uid) k ↔ k ≠ uid ∧ Visible t k := by
  have hget : (t.setArchived uid).rows.get? k =
      if k = uid then (t.rows.get? k).map fun row => { row with archived := true } else t.rows.get? k :=
    Table.get?_modify
  unfold Visible
  rw [hget]
  by_cases hk : k = uid
  · rw [if_pos hk]
    refine iff_of_false ?_ fun h => h.1 hk
    rintro ⟨row, hrow, hopen⟩
    obtain ⟨old, -, rfl⟩ := Option.map_eq_some_iff.mp hrow
    cases hopen
  · rw [if_neg hk]
    exact (and_iff_right hk).symm

theorem getByUid_error_iff {f : WorkspaceRecord → Phase} (h : ∀ record error, f record ≠ .returned (.error error)) :
    (∃ error, andThen (t.getByUid uid) f = .returned (.error error)) ↔ t.rows.get? uid = none := by
  unfold Workspaces.getByUid
  cases t.rows.get? uid with
  | none => exact iff_of_true ⟨_, rfl⟩ rfl
  | some row => exact iff_of_false (fun ⟨error, he⟩ => h _ error he) (Option.some_ne_none _)

theorem next_error_iff (hphase : ∀ result, phase ≠ .returned result) :
    (∃ error, (phase.next platform input world).2 = .returned (.error error)) ↔
      phase.Fails platform world input := by
  cases input with
  | fails =>
    cases phase with
    | returned result => exact absurd rfl (hphase result)
    | archiving | binding => exact iff_of_false nofun id
    | _ => exact iff_of_true ⟨_, rfl⟩ trivial
  | goes now =>
    cases phase with
    | returned result => exact absurd rfl (hphase result)
    | creating root displayName => exact registerThen_error_iff nofun
    | registering root uid => exact registerThen_error_iff nofun
    | created uid => exact getByUid_error_iff nofun
    | activating uid => exact getByUid_error_iff nofun
    | registered root uid => exact getByUid_error_iff nofun
    | archived uid activeUid =>
      refine getByUid_error_iff fun record error => ?_
      split <;> exact nofun
    | listing uid activeUid =>
      show (∃ error, (if uid = activeUid ∧ world.registry.list.length ≤ 1 then _ else _) = _) ↔ _
      by_cases hlast : uid = activeUid ∧ world.registry.list.length ≤ 1
      · rw [if_pos hlast]
        exact iff_of_true ⟨_, rfl⟩ hlast
      · rw [if_neg hlast]
        exact iff_of_false nofun hlast
    | choosing =>
      show (∃ error, rebindNext world.registry.list = .returned (.error error)) ↔ world.registry.list = []
      cases world.registry.list with
      | nil => exact iff_of_true ⟨_, rfl⟩ rfl
      | cons next rest => exact iff_of_false nofun (List.cons_ne_nil _ _)
    | archiving | updating | opening | binding => exact iff_of_false nofun id

theorem next_of_fails (h : phase.Fails platform world input) :
    ∃ error, phase.next platform input world = (world, .returned (.error error)) := by
  have hphase : ∀ result, phase ≠ .returned result := by
    rintro result rfl
    cases input <;> exact h
  obtain ⟨error, herror⟩ := (next_error_iff hphase).mpr h
  refine ⟨error, Prod.ext ?_ herror⟩
  cases input with
  | fails => cases phase <;> rfl
  | goes now =>
    cases phase with
    | creating root displayName => exact registerThen_of_refused h
    | registering root uid => exact registerThen_of_refused h
    | updating | binding => exact absurd h id
    | _ => rfl

/-! ## one turn -/

theorem turn_eq (hi : pool.tasks[i]? = some request) :
    SeenTo Bound Request.Owes (pool.step (workspaceRequests platform) (.turn i input)) ↔
      Bound (request.phase.next platform input pool.shared).1 ∨
        Request.Owes ⟨request.isArchive, request.changed, (request.phase.next platform input pool.shared).2⟩ ∨
          AnyOther Request.Owes pool i :=
  seenTo_turn_iff hi

/-- a request that goes on, and has not archived or bound anything -/
def Phase.Harmless : Phase → Prop
  | .updating uid activeUid => uid = activeUid
  | .binding .. => False
  | _ => True

theorem bound_of_visible {registry : Workspaces} (h : ∀ k, Visible world.registry k → Visible registry k)
    (hbound : Bound world) : Bound { world with registry } :=
  hbound.imp_right (h _)

theorem next_keeps (hfails : ¬ phase.Fails platform world input) (hharmless : phase.Harmless)
    (isArchive changed : Bool) :
    (Bound world → Bound (phase.next platform input world).1 ∨
        Request.Owes ⟨isArchive, changed, (phase.next platform input world).2⟩) ∧
      (Request.Owes ⟨isArchive, changed, phase⟩ →
        Request.Owes ⟨isArchive, changed, (phase.next platform input world).2⟩) := by
  cases input with
  | fails =>
    cases phase with
    | archiving | returned => exact ⟨.inl, id⟩
    | binding => exact absurd hharmless id
    | _ => exact absurd trivial hfails
  | goes now =>
    cases phase with
    | creating root displayName =>
      refine ⟨fun hbound => .inl ?_, False.elim⟩
      rcases registerThen_cases platform now world root displayName (.created (workspaceUid platform root)) with
        ⟨hrefused, -⟩ | ⟨-, registry, hthen, hkeeps⟩
      · exact absurd hrefused hfails
      · show Bound (registerThen platform now world root displayName _).1
        rw [hthen]
        exact bound_of_visible hkeeps hbound
    | registering root uid =>
      rcases registerThen_cases platform now world root none (.registered root uid) with
        ⟨hrefused, -⟩ | ⟨-, registry, hthen, hkeeps⟩
      · exact absurd hrefused hfails
      · have howes : Request.Owes ⟨isArchive, changed, (registerThen platform now world root none
            (.registered root uid)).2⟩ := by
          rw [hthen]
          exact trivial
        exact ⟨fun _ => .inr howes, fun _ => howes⟩
    | binding => exact absurd hharmless id
    | updating uid activeUid => exact ⟨fun _ => .inr hharmless, False.elim⟩
    | opening => exact ⟨fun _ => .inr trivial, fun _ => trivial⟩
    | created | activating | archiving | listing | returned => exact ⟨.inl, False.elim⟩
    | registered root uid =>
      refine ⟨.inl, fun _ => ?_⟩
      show Request.Owes ⟨isArchive, changed, andThen (world.registry.getByUid (workspaceUid platform root)) _⟩
      unfold Workspaces.getByUid
      cases hget : world.registry.rows.get? (workspaceUid platform root) with
      | none => exact absurd hget hfails
      | some row => exact trivial
    | archived uid activeUid =>
      refine ⟨.inl, fun howes => ?_⟩
      have howes : uid = activeUid := howes
      show Request.Owes ⟨isArchive, changed, andThen (world.registry.getByUid uid) _⟩
      unfold Workspaces.getByUid
      cases hget : world.registry.rows.get? uid with
      | none => exact absurd hget hfails
      | some row =>
        show Request.Owes ⟨isArchive, changed, if uid = activeUid then .choosing else _⟩
        rw [if_pos howes]
        exact trivial
    | choosing =>
      refine ⟨.inl, fun _ => ?_⟩
      show Request.Owes ⟨isArchive, changed, rebindNext world.registry.list⟩
      cases hlist : world.registry.list with
      | nil => exact absurd hlist hfails
      | cons next rest => exact trivial

theorem spares_of_fails (h : phase.Fails platform world input) : phase.Spares pool i input := by
  cases input with
  | fails => cases phase <;> exact trivial
  | goes now =>
    cases phase with
    | updating | binding => exact absurd h id
    | _ => exact trivial

theorem spares_of_harmless (h : phase.Harmless) : phase.Spares pool i input := by
  cases input with
  | fails => cases phase <;> exact trivial
  | goes now =>
    cases phase with
    | updating uid activeUid => exact fun hne => absurd h hne
    | binding => exact absurd h id
    | _ => exact trivial

theorem seenTo_updating_iff (h : SeenTo Bound Request.Owes pool) (hi : pool.tasks[i]? = some request)
    (hphase : request.phase = .updating uid activeUid) (hne : uid ≠ activeUid) :
    SeenTo Bound Request.Owes (pool.step (workspaceRequests platform) (.turn i (.goes now))) ↔
      request.phase.Spares pool i (.goes now) := by
  have hnot : ¬ Request.Owes request := by
    unfold Request.Owes
    rw [hphase]
    exact id
  rw [turn_eq hi, hphase]
  have hbound : Bound (Phase.next platform (.goes now) pool.shared (.updating uid activeUid)).1 ↔
      Bound pool.shared ∧ (pool.shared.active.workspaceUid = uid → uid = appHomeWorkspaceId) := by
    show _ ∨ Visible (pool.shared.registry.setArchived uid) _ ↔ (_ ∨ _) ∧ _
    rw [visible_setArchived_iff]
    constructor
    · rintro (hhome | ⟨hother, hvisible⟩)
      · exact ⟨.inl hhome, fun huid => huid.symm.trans hhome⟩
      · exact ⟨.inr hvisible, fun huid => absurd huid hother⟩
    · rintro ⟨hhome | hvisible, hsame⟩
      · exact .inl hhome
      · by_cases huid : pool.shared.active.workspaceUid = uid
        · exact .inl (huid.trans (hsame huid))
        · exact .inr ⟨huid, hvisible⟩
  rw [hbound]
  constructor
  · rintro (⟨-, hsame⟩ | howes | hany)
    · exact fun _ huid => .inl (hsame huid)
    · exact absurd howes hne
    · exact fun _ _ => .inr hany
  · intro hspares
    rcases h.others hi hnot with hold | hany
    · by_cases huid : pool.shared.active.workspaceUid = uid
      · rcases hspares hne huid with hhome | hany
        · exact .inl ⟨hold, fun _ => hhome⟩
        · exact .inr (.inr hany)
      · exact .inl ⟨hold, fun h => absurd h huid⟩
    · exact .inr (.inr hany)

/-- **one turn** sees to the binding exactly when it does not leave it -/
theorem seenTo_iff (h : SeenTo Bound Request.Owes pool) (hi : pool.tasks[i]? = some request) :
    SeenTo Bound Request.Owes (pool.step (workspaceRequests platform) (.turn i input)) ↔
      (request.phase.Fails platform pool.shared input → request.Owes →
        Bound pool.shared ∨ AnyOther Request.Owes pool i) ∧ request.phase.Spares pool i input := by
  by_cases hfails : request.phase.Fails platform pool.shared input
  · obtain ⟨error, hnext⟩ := next_of_fails hfails
    have hturn : SeenTo Bound Request.Owes (pool.step (workspaceRequests platform) (.turn i input)) ↔
        Bound pool.shared ∨ AnyOther Request.Owes pool i := by
      rw [turn_eq hi, hnext]
      exact or_congr_right (or_iff_right id)
    rw [hturn]
    constructor
    · exact fun hleft => ⟨fun _ _ => hleft, spares_of_fails hfails⟩
    · rintro ⟨hleft, -⟩
      by_cases howes : request.Owes
      · exact hleft hfails howes
      · exact h.others hi howes
  · refine Iff.trans ?_ (and_iff_right fun hf => absurd hf hfails).symm
    by_cases hharmless : request.phase.Harmless
    · refine iff_of_true ?_ (spares_of_harmless hharmless)
      obtain ⟨hbound, howes⟩ := next_keeps hfails hharmless request.isArchive request.changed
      rw [turn_eq hi]
      by_cases hold : request.Owes
      · exact .inr (.inl (howes hold))
      · rcases h.others hi hold with hgood | hany
        · exact (hbound hgood).imp_right .inl
        · exact .inr (.inr hany)
    · cases hphase : request.phase with
      | updating uid activeUid =>
        rw [hphase] at hfails hharmless
        cases input with
        | fails => exact absurd trivial hfails
        | goes now =>
          rw [seenTo_updating_iff h hi hphase hharmless, hphase]
      | binding root uid =>
        rw [turn_eq hi, hphase]
        cases input with
        | fails => exact iff_of_true (.inr (.inl trivial)) trivial
        | goes now => exact or_congr_right (or_iff_right id)
      | _ =>
        rw [hphase] at hharmless
        exact absurd trivial hharmless

theorem whole_iff (h : ∀ request ∈ pool.tasks, Whole request) (hi : pool.tasks[i]? = some request) :
    (∀ request ∈ (pool.step (workspaceRequests platform) (.turn i input)).tasks, Whole request) ↔
      (request.phase.Fails platform pool.shared input → request.isArchive = true → request.changed = false) := by
  constructor
  · intro hwhole hfails harchive
    obtain ⟨error, hnext⟩ := next_of_fails hfails
    have hself : (pool.step (workspaceRequests platform) (.turn i input)).tasks[i]? = some _ := turn_self hi
    have hturned := hwhole _ (List.mem_of_getElem? hself) harchive ⟨error, congrArg Prod.snd hnext⟩
    exact (Bool.or_eq_false_iff.mp hturned).1
  · intro hheeds other hother
    rcases mem_turn hi hother with rfl | ⟨j, -, hj⟩
    · rintro harchive ⟨error, herror⟩
      have herror : (request.phase.next platform input pool.shared).2 = .returned (.error error) := herror
      -- it fails now, or it had failed before
      have hsame : (request.phase.next platform input pool.shared).1 = pool.shared ∧ request.changed = false := by
        by_cases hfails : request.phase.Fails platform pool.shared input
        · obtain ⟨error', hnext⟩ := next_of_fails hfails
          exact ⟨congrArg Prod.fst hnext, hheeds hfails harchive⟩
        · cases hphase : request.phase with
          | returned result =>
            have hnext : (Phase.returned result).next platform input pool.shared = (pool.shared, .returned result) := by
              cases input <;> rfl
            rw [hphase, hnext] at herror
            refine ⟨congrArg Prod.fst hnext, h request (List.mem_of_getElem? hi) harchive ⟨error, ?_⟩⟩
            exact hphase.trans herror
          | _ =>
            refine absurd ((next_error_iff ?_).mp ⟨error, herror⟩) hfails
            rw [hphase]
            exact nofun
      show (request.changed || decide ((request.phase.next platform input pool.shared).1 ≠ pool.shared)) = false
      rw [hsame.1, hsame.2]
      simp
    · exact h other (List.mem_of_getElem? hj)

theorem settled_step_iff (h : Settled pool) (move : Turns.Move WorkspaceRequest RequestInput) :
    Settled (pool.step (workspaceRequests platform) move) ↔ Heeds platform pool move := by
  obtain ⟨hseen, hwhole⟩ := h
  cases move with
  | start workspaceRequest =>
    refine iff_of_true ⟨hseen.start workspaceRequest, fun request hrequest => ?_⟩ trivial
    rcases mem_start.mp hrequest with hold | rfl
    · exact hwhole request hold
    · exact fun _ _ => rfl
  | turn i input =>
    cases hi : pool.tasks[i]? with
    | none =>
      rw [step_turn_none hi]
      exact iff_of_true ⟨hseen, hwhole⟩ fun request hrequest => absurd (hi.symm.trans hrequest).symm nofun
    | some request =>
      have hturn : Settled (pool.step (workspaceRequests platform) (.turn i input)) ↔
          request.Heeds platform pool i input := by
        unfold Settled Request.Heeds
        rw [seenTo_iff hseen hi, whole_iff hwhole hi]
        constructor
        · rintro ⟨⟨hleft, hspares⟩, harchive⟩
          exact ⟨fun hfails => ⟨hleft hfails, harchive hfails⟩, hspares⟩
        · rintro ⟨hfails, hspares⟩
          exact ⟨⟨fun hf => (hfails hf).1, hspares⟩, fun hf => (hfails hf).2⟩
      rw [hturn]
      constructor
      · intro hheeds request' hrequest'
        rw [← Option.some.inj (hi.symm.trans hrequest')]
        exact hheeds
      · exact fun hheeds => hheeds request hi

theorem Settled.bound (h : Settled pool) (hreturned : Returned pool) : Bound pool.shared := by
  refine h.1.of_none fun request hrequest => ?_
  obtain ⟨result, hphase⟩ := hreturned request hrequest
  unfold Request.Owes
  rw [hphase]
  exact id

end

/-- a runtime that is bound as it should be, and has no request -/
def started (world : { world : RegistryWorld // Bound world }) : Pool RegistryWorld Request := ⟨world.1, []⟩

/-- **the binding is seen to** all along a run exactly when every step heeds it; and when all requests have then
returned, the bound workspace is there and not archived, and the archives that failed have changed nothing -/
theorem binding_settled_iff (platform : Platform) (world : { world : RegistryWorld // Bound world })
    (moves : List (Turns.Move WorkspaceRequest RequestInput)) :
    ((∀ old, old <+: moves → Settled ((started world).run (workspaceRequests platform) old)) ↔
      ∀ old move, old ++ [move] <+: moves →
        Heeds platform ((started world).run (workspaceRequests platform) old) move) ∧
    ((∀ old move, old ++ [move] <+: moves →
        Heeds platform ((started world).run (workspaceRequests platform) old) move) →
      ∀ old, old <+: moves → Returned ((started world).run (workspaceRequests platform) old) →
        Bound ((started world).run (workspaceRequests platform) old).shared ∧
          ∀ request ∈ ((started world).run (workspaceRequests platform) old).tasks, Whole request) := by
  have hstart : Settled ((started world).run (workspaceRequests platform) []) :=
    ⟨.inl world.2, fun request h => absurd h List.not_mem_nil⟩
  have hiff := Recorded.forall_prefix_iff
    (P := fun old => Settled ((started world).run (workspaceRequests platform) old))
    (Q := fun old move => Heeds platform ((started world).run (workspaceRequests platform) old) move)
    hstart (fun old move hold => by
      rw [run_concat]
      exact settled_step_iff hold move) moves
  refine ⟨hiff, fun hheeds old hold hreturned => ?_⟩
  have hsettled := hiff.mpr hheeds old hold
  exact ⟨hsettled.bound hreturned, hsettled.2⟩

/-! ## an archive that fails -/

def turns (i : Nat) (k : Nat) (now : Int) : List (Turns.Move WorkspaceRequest RequestInput) :=
  List.replicate k (.turn i (.goes now))

def uidOfA : String := workspaceUid unix (ofText "/work/a")

/-- two workspaces are created, the first is activated and then archived; what is left cannot be bound -/
def archiveFails : List (Turns.Move WorkspaceRequest RequestInput) :=
  [[.start (.create "/work/a" none)], turns 0 2 1, [.start (.create "/work/b" none)], turns 1 2 2,
    [.start (.activate (some uidOfA) none)], turns 2 5 3, [.start (.archive uidOfA)], turns 3 5 4,
    [.turn 3 .fails]].flatten

def atHome : { world : RegistryWorld // Bound world } :=
  ⟨⟨Workspaces.empty, ⟨ofText "/home", appHomeWorkspaceId⟩⟩, .inl rfl⟩

/-- **it is archived and bound**, and the request that did so has failed -/
theorem archived_and_bound : Returned ((started atHome).run (workspaceRequests unix) archiveFails) ∧
    ¬ Bound ((started atHome).run (workspaceRequests unix) archiveFails).shared ∧
      ∃ request ∈ ((started atHome).run (workspaceRequests unix) archiveFails).tasks, ¬ Whole request := by
  have htasks : ((started atHome).run (workspaceRequests unix) archiveFails).tasks =
      [⟨false, true, .returned (.ok ())⟩, ⟨false, true, .returned (.ok ())⟩, ⟨false, true, .returned (.ok ())⟩,
        ⟨true, true, .returned (.error (.registry .unavailable))⟩] := by decide +kernel
  have hactive : ((started atHome).run (workspaceRequests unix) archiveFails).shared.active.workspaceUid ≠
      appHomeWorkspaceId ∧
        (((started atHome).run (workspaceRequests unix) archiveFails).shared.registry.rows.get?
          ((started atHome).run (workspaceRequests unix) archiveFails).shared.active.workspaceUid).map
            (·.archived) = some true := by decide +kernel
  refine ⟨fun request hrequest => ?_, ?_, ?_⟩
  · rw [htasks] at hrequest
    simp only [List.mem_cons, List.not_mem_nil, or_false] at hrequest
    rcases hrequest with rfl | rfl | rfl | rfl
    all_goals exact ⟨_, rfl⟩
  · rintro (hhome | ⟨row, hrow, hopen⟩)
    · exact hactive.1 hhome
    · have harchived := hactive.2
      rw [hrow, Option.map_some, hopen] at harchived
      exact Bool.false_ne_true (Option.some.inj harchived)
  · refine ⟨⟨true, true, .returned (.error (.registry .unavailable))⟩, ?_, fun hwhole => ?_⟩
    · rw [htasks]
      simp
    · exact Bool.false_ne_true (hwhole rfl ⟨_, rfl⟩).symm

end WorkspaceRegistry

import SuperNova.Jobs.Lifecycle
import SuperNova.Lib.Turns
import Mathlib.Data.List.Sort

/-!
# The item of a task on the timeline

A task that is started in a container gets an item on the timeline of the container, which is to show the status
that the log of the task tells.  The call that starts the task writes the item before the task runs and when it
has ended, and then appends an event that binds the task to the container.  The calls that come later find the
container by this event, and write the status that they have read off the log.

* `ApiCall.next`: one step of a call: a step of the controller, or a statement of the kernel's interface;
* `Settled`: the item shows the status that the log tells, or a call has still to write it;
* `item_settled_iff` (**main**): the item is settled all along a run exactly when no call leaves a status that is not
  the one of the log, as the last that had still to write;
* `cancelled_unbound`: a task that is cancelled before it is bound.
-/

set_option linter.unusedSectionVars false

namespace KernelApi

open Jobs Turns

/-! ## the log and the items -/

inductive TaskEvent where
  | job (event : Jobs.Event)
  /-- `agent_container_task_bound` -/
  | bound (containerId status : String)

def TaskEvent.event : TaskEvent → Jobs.Event
  | .job event => event
  | .bound _ status => ⟨"agent_container_task_bound", some status⟩

/-- an item of the task; items of other kinds and of other tasks are left out -/
structure ContainerTimelineItem where
  itemId : String
  containerId : String
  title : Option String
  status : String
  createdAtMs : Int
  updatedAtMs : Int
  deriving DecidableEq

structure TaskWorld where
  log : List TaskEvent
  items : List ContainerTimelineItem

def TaskWorld.events (world : TaskWorld) : List Jobs.Event := world.log.map TaskEvent.event

/-- the status that `replay` tells -/
def TaskWorld.status (world : TaskWorld) : String := replay world.events

def TaskEvent.container? : TaskEvent → Option String
  | .bound containerId _ => some containerId
  | .job _ => none

/-- `bound_container_id_for_job`: the last event that binds the task -/
def boundContainerId (log : List TaskEvent) : Option String := (log.filterMap TaskEvent.container?).getLast?

def older (a b : ContainerTimelineItem) : Prop :=
  a.createdAtMs < b.createdAtMs ∨ a.createdAtMs = b.createdAtMs ∧ a.itemId ≤ b.itemId

instance : DecidableRel older := fun _ _ => inferInstanceAs (Decidable (_ ∨ _))

/-- the item that `upsert_timeline_item` selects -/
def existingItem (items : List ContainerTimelineItem) (containerId : String) : Option ContainerTimelineItem :=
  ((items.filter (·.containerId == containerId)).insertionSort older).head?

/-- the statement of `upsert_timeline_item` that writes the item -/
def writeItem (items : List ContainerTimelineItem) (existing : Option ContainerTimelineItem)
    (containerId status : String) (title : Option String) (now : Int) (itemId : String) :
    List ContainerTimelineItem :=
  match existing with
  | some item => items.map fun row =>
      if row.itemId = item.itemId then { row with status, title := title.or item.title, updatedAtMs := now } else row
  | none => items ++ [⟨itemId, containerId, title, status, now, now⟩]

/-! ## calls -/

/-- the operation on the job that a call does after the task was started -/
abbrev LaterOp := { op : Op // op ≠ .createJob }

/-- what comes after the item was written -/
inductive After where
  /-- the task runs -/
  | run
  /-- the task is bound -/
  | bind (status : String)
  | done

/-- how far a call is -/
inductive ApiCall where
  | called (op : LaterOp)
  /-- the job of a new task is created -/
  | creating (thread : Thread)
  /-- the controller works on the job; `result` is the status that it would return -/
  | working (thread : Thread) (result : Option String)
  /-- `reconciled_task_status` -/
  | reconciling (result : String)
  /-- `sync_task_timeline_status` -/
  | locating (status : String)
  | selecting (containerId status : String) (title : Option String) (after : After)
  | writing (containerId status : String) (title : Option String) (existing : Option ContainerTimelineItem)
      (now : Int) (after : After)
  | binding (status : String)
  | returned

inductive ApiInput where
  /-- a step of the controller -/
  | job (m : Jobs.Move)
  /-- the next statement; `readable` when the log can be replayed -/
  | goes (now : Int) (itemId : String) (readable : Bool)
  /-- the call returns an error -/
  | fails

/-- the status of the result of a session that ends with the action -/
def Action.status : Action → String
  | .complete => "completed"
  | .fail => "failed"
  | .block => "blocked"
  | .interrupt => "interrupted"
  | .clarify => "waiting_user"
  | .requestApproval => "waiting_approval"

/-- what `create_agent_job` and the controller append before the item is written -/
def creation : List Instr :=
  [.append ⟨"job_created", some "created"⟩, .append (statusChanged "running"), .append (event "process_started"),
    .append (event "task_agent_runtime_started"), .notes]

variable (containerId goal : String)

def taskTitle : String := String.ofList (goal.toList.take 80)

/-- the result that the controller would return after a step -/
def resultOf (events : List Jobs.Event) (thread : Thread) (m : Jobs.Move) (result : Option String) :
    Option String :=
  match m, thread.program with
  | .act action, .work :: _ => some (Action.status action)
  | .advance, .check returns :: _ => if returns (replay events) then some (replay events) else result
  | _, _ => result

/-- what the controller appends in a step -/
def TaskWorld.moved (world : TaskWorld) (thread : Thread) (m : Jobs.Move) : Option (TaskWorld × Thread) :=
  (thread.move world.events m).map fun (events, thread) =>
    ({ world with log := world.log ++ events.map .job }, thread)

/-- a step of the controller; after `stop` the call returns its error -/
def ApiCall.work (m : Jobs.Move) (world : TaskWorld) : ApiCall → TaskWorld × ApiCall
  | .creating thread =>
    match m, world.moved thread m with
    | .stop, _ => (world, .returned)
    | _, some (world, thread) => (world, .creating thread)
    | _, none => (world, .creating thread)
  | .working thread result =>
    match m, world.moved thread m with
    | .stop, _ => (world, .returned)
    | _, some (world', thread') => (world', .working thread' (resultOf world.events thread m result))
    | _, none => (world, .working thread result)
  | call => (world, call)

/-- what a call does when the controller has returned -/
def afterWork (op : Op) (result : Option String) : Option ApiCall :=
  match op, result with
  | .createJob, some status => some (.selecting containerId status (some (taskTitle goal)) (.bind status))
  | .cancelJob, _ => some (.locating "cancelled")
  | _, some status => some (.reconciling status)
  | _, none => none

/-- what a call does when the item is written; the task runs on after what `on_started` appends -/
def After.next : After → ApiCall
  | .run => .working ⟨.createJob, 0, false, .notes :: runTaskAgent⟩ none
  | .bind status => .binding status
  | .done => .returned

/-- a statement of a call -/
def ApiCall.go (now : Int) (itemId : String) (readable : Bool) (world : TaskWorld) :
    ApiCall → TaskWorld × ApiCall
  | .called op => (world, .working (op.1.thread world.events) none)
  | .creating thread =>
    match thread.program with
    | [] => (world, .selecting containerId "running" (some (taskTitle goal)) .run)
    | _ => (world, .creating thread)
  | .working thread result =>
    match thread.program with
    | [] => (world, (afterWork containerId goal thread.op result).getD (.working thread result))
    | _ => (world, .working thread result)
  | .reconciling result => (world, .locating (if readable then world.status else result))
  | .locating status =>
    match boundContainerId world.log with
    | some containerId => (world, .selecting containerId status none .done)
    | none => (world, .returned)
  | .selecting containerId status title after =>
    (world, .writing containerId status title (existingItem world.items containerId) now after)
  | .writing containerId status title existing now after =>
    ({ world with items := writeItem world.items existing containerId status title now itemId }, after.next)
  | .binding status => ({ world with log := world.log ++ [.bound containerId status] }, .returned)
  | .returned => (world, .returned)

def ApiCall.next (input : ApiInput) (world : TaskWorld) (call : ApiCall) : TaskWorld × ApiCall :=
  match input with
  | .job m => call.work m world
  | .goes now itemId readable => call.go containerId goal now itemId readable world
  | .fails => (world, .returned)

def kernelApi : Program TaskWorld ApiCall LaterOp ApiInput := ⟨.called, ApiCall.next containerId goal⟩

/-- `start_task_in_container` is under way, and has done nothing -/
def startTask : Pool TaskWorld ApiCall := ⟨⟨[], []⟩, [.creating ⟨.createJob, 0, false, creation⟩]⟩

def runTask (moves : List (Turns.Move LaterOp ApiInput)) : Pool TaskWorld ApiCall :=
  startTask.run (kernelApi containerId goal) moves

/-! ## what is to hold -/

/-- the item of the task, the only one, shows the status that the log tells -/
def Right (world : TaskWorld) : Prop :=
  ∃ item, world.items = [item] ∧ item.containerId = containerId ∧ item.status = world.status

/-- the call has still to write the item -/
def ApiCall.Owes : ApiCall → Prop
  | .binding _ | .returned => False
  | _ => True

/-- the item is right unless a call has still to write it; one that has returned has not -/
def Settled (pool : Pool TaskWorld ApiCall) : Prop :=
  Right containerId pool.shared ∨ ∃ (i : Nat) (call : ApiCall), pool.tasks[i]? = some call ∧ call.Owes

/-- a call other than the `i`-th has still to write the item -/
def Others (pool : Pool TaskWorld ApiCall) (i : Nat) : Prop :=
  ∃ (j : Nat) (other : ApiCall), j ≠ i ∧ pool.tasks[j]? = some other ∧ other.Owes

/-- a call that writes the status at its end writes the one of the log, and one that returns without a write
leaves a right item, unless another call has still to write -/
def ApiCall.Heeds (pool : Pool TaskWorld ApiCall) (i : Nat) : ApiInput → ApiCall → Prop
  | .goes .., .writing _ _ _ _ _ .run => True
  | .goes .., .writing _ status _ _ _ _ => status = pool.shared.status ∨ Others pool i
  | .goes .., .locating _ =>
    boundContainerId pool.shared.log = none → Right containerId pool.shared ∨ Others pool i
  | .job .stop, .creating _ | .job .stop, .working .. => Right containerId pool.shared ∨ Others pool i
  | .fails, call => call.Owes → Right containerId pool.shared ∨ Others pool i
  | _, _ => True

def Heeds (pool : Pool TaskWorld ApiCall) : Turns.Move LaterOp ApiInput → Prop
  | .start _ => True
  | .turn i input => ∀ call, pool.tasks[i]? = some call → call.Heeds containerId pool i input

section
variable {containerId goal}
variable {pool : Pool TaskWorld ApiCall} {world world' : TaskWorld} {call other : ApiCall} {i j : Nat}
  {input : ApiInput} {thread thread' : Thread} {m : Jobs.Move} {items items' : List ContainerTimelineItem}
  {row : ContainerTimelineItem} {log : List TaskEvent} {result : Option String}

/-! ## what a step changes -/

theorem boundContainerId_jobs (events : List Jobs.Event) :
    boundContainerId (log ++ events.map .job) = boundContainerId log := by
  have hnone : (events.map TaskEvent.job).filterMap TaskEvent.container? = [] := by
    rw [List.filterMap_map]
    exact List.filterMap_eq_nil_iff.mpr fun event _ => rfl
  unfold boundContainerId
  rw [List.filterMap_append, hnone, List.append_nil]

theorem boundContainerId_bound (status : String) :
    boundContainerId (log ++ [.bound containerId status]) = some containerId := by
  unfold boundContainerId
  rw [List.filterMap_append]
  exact List.getLast?_concat

theorem status_bound (status : String) :
    TaskWorld.status { world with log := world.log ++ [.bound containerId status] } = world.status := by
  unfold TaskWorld.status TaskWorld.events replay
  rw [List.map_append]
  exact Recorded.current_concat_none rfl

theorem moved_keeps (h : world.moved thread m = some (world', thread')) :
    world'.items = world.items ∧ boundContainerId world'.log = boundContainerId world.log ∧
      thread'.op = thread.op := by
  obtain ⟨⟨events, after⟩, hmove, hafter⟩ := Option.map_eq_some_iff.mp h
  obtain ⟨rfl, rfl⟩ := Prod.mk.inj hafter
  refine ⟨rfl, boundContainerId_jobs events, ?_⟩
  cases moved_of_move hmove <;> rfl

theorem work_cases (m : Jobs.Move) (world : TaskWorld) (call : ApiCall) :
    call.work m world = (world, call) ∨
      (m = .stop ∧ call.Owes ∧ call.work m world = (world, .returned)) ∨
      (∃ thread world' thread', call = .creating thread ∧ world.moved thread m = some (world', thread') ∧
        call.work m world = (world', .creating thread')) ∨
      ∃ thread result world' thread' result', call = .working thread result ∧
        world.moved thread m = some (world', thread') ∧ call.work m world = (world', .working thread' result') := by
  cases call with
  | creating thread =>
    unfold ApiCall.work
    dsimp only
    split
    · exact .inr (.inl ⟨rfl, trivial, rfl⟩)
    · rename_i hmoved
      exact .inr (.inr (.inl ⟨thread, _, _, rfl, hmoved, rfl⟩))
    · exact .inl rfl
  | working thread result =>
    unfold ApiCall.work
    dsimp only
    split
    · exact .inr (.inl ⟨rfl, trivial, rfl⟩)
    · rename_i hmoved
      exact .inr (.inr (.inr ⟨thread, result, _, _, _, rfl, hmoved, rfl⟩))
    · exact .inl rfl
  | _ => exact .inl rfl

/-! ## one item -/

def Made (containerId : String) (items : List ContainerTimelineItem) : Prop :=
  ∃ item, items = [item] ∧ item.containerId = containerId

/-- the call will write the first item -/
def ApiCall.Making : ApiCall → Prop
  | .creating _ | .selecting _ _ _ .run | .writing _ _ _ _ _ .run => True
  | _ => False

/-- the item is there where a call counts on it, and it is not where a call is to make it -/
def ApiCall.Sound (containerId : String) (items : List ContainerTimelineItem) : ApiCall → Prop
  | .creating _ => items = []
  | .working thread _ => thread.op = .createJob → Made containerId items
  | .selecting container _ _ .run => container = containerId ∧ items = []
  | .selecting container _ _ _ => container = containerId ∧ Made containerId items
  | .writing container _ _ existing _ .run => container = containerId ∧ items = [] ∧ existing = none
  | .writing container _ _ existing _ _ => container = containerId ∧
      ∃ row item, items = [row] ∧ row.containerId = containerId ∧ existing = some item ∧ row.itemId = item.itemId
  | .binding _ => Made containerId items
  | _ => True

/-- the one item, if there is one, may have changed its status -/
def Kept (items items' : List ContainerTimelineItem) : Prop :=
  items' = items ∨ ∃ row row', items = [row] ∧ items' = [row'] ∧ row'.itemId = row.itemId ∧
    row'.containerId = row.containerId

/-- the first call makes the item, and the task is bound to its container -/
structure Proper (containerId : String) (pool : Pool TaskWorld ApiCall) : Prop where
  bound : ∀ container, boundContainerId pool.shared.log = some container →
    container = containerId ∧ Made containerId pool.shared.items
  making : ∀ (i : Nat) (call : ApiCall), pool.tasks[i]? = some call → call.Making → i = 0
  sound : ∀ (i : Nat) (call : ApiCall), pool.tasks[i]? = some call → call.Sound containerId pool.shared.items

theorem not_made_nil : ¬ Made containerId [] := fun ⟨_, h, _⟩ => List.cons_ne_nil _ _ h.symm

theorem Made.kept (h : Made containerId items) (hkept : Kept items items') : Made containerId items' := by
  rcases hkept with rfl | ⟨row, row', rfl, rfl, -, hcontainer⟩
  · exact h
  · obtain ⟨item, hitem, hin⟩ := h
    obtain rfl := List.singleton_inj.mp hitem
    exact ⟨row', rfl, hcontainer.trans hin⟩

theorem Kept.nil (hkept : Kept items items') (h : items = []) : items' = [] := by
  rcases hkept with rfl | ⟨row, row', rfl, -⟩
  · exact h
  · exact absurd h (List.cons_ne_nil _ _)

theorem ApiCall.Sound.kept (h : call.Sound containerId items) (hkept : Kept items items') :
    call.Sound containerId items' := by
  cases call with
  | creating => exact hkept.nil h
  | working => exact fun hop => (h hop).kept hkept
  | selecting container status title after =>
    cases after with
    | run => exact h.imp_right hkept.nil
    | bind | done => exact h.imp_right fun hmade => hmade.kept hkept
  | writing container status title existing now after =>
    cases after with
    | run => exact ⟨h.1, hkept.nil h.2.1, h.2.2⟩
    | bind | done =>
      obtain ⟨hcontainer, row, item, rfl, hin, hexisting, hid⟩ := h
      rcases hkept with rfl | ⟨old, row', hold, rfl, hid', hcontainer'⟩
      · exact ⟨hcontainer, row, item, rfl, hin, hexisting, hid⟩
      · obtain rfl := List.singleton_inj.mp hold
        exact ⟨hcontainer, row', item, rfl, hcontainer'.trans hin, hexisting, hid'.trans hid⟩
  | binding => exact Made.kept h hkept
  | called | reconciling | locating | returned => exact trivial

theorem ApiCall.Sound.made (h : call.Sound containerId []) (hmaking : ¬ call.Making) :
    call.Sound containerId items := by
  cases call with
  | creating => exact absurd trivial hmaking
  | working => exact fun hop => absurd (h hop) not_made_nil
  | selecting container status title after =>
    cases after with
    | run => exact absurd trivial hmaking
    | bind | done => exact absurd h.2 not_made_nil
  | writing container status title existing now after =>
    cases after with
    | run => exact absurd trivial hmaking
    | bind | done =>
      obtain ⟨-, row, item, hrow, -⟩ := h
      exact absurd hrow.symm (List.cons_ne_nil _ _)
  | binding => exact absurd h not_made_nil
  | called | reconciling | locating | returned => exact trivial

theorem existingItem_nil : existingItem [] containerId = none := rfl

theorem existingItem_singleton (h : row.containerId = containerId) : existingItem [row] containerId = some row := by
  have hfilter : [row].filter (·.containerId == containerId) = [row] := by simp [h]
  unfold existingItem
  rw [hfilter]
  rfl

theorem writeItem_kept {existing : Option ContainerTimelineItem} (container status : String) (title : Option String)
    (now : Int) (itemId : String)
    (h : ∃ row item, items = [row] ∧ row.containerId = containerId ∧ existing = some item ∧
      row.itemId = item.itemId) :
    Kept items (writeItem items existing container status title now itemId) ∧
      ∃ row, writeItem items existing container status title now itemId = [row] ∧ row.containerId = containerId ∧
        row.status = status := by
  obtain ⟨row, item, rfl, hin, rfl, hid⟩ := h
  have hwritten : writeItem [row] (some item) container status title now itemId =
      [{ row with status, title := title.or item.title, updatedAtMs := now }] :=
    congrArg (fun row => [row]) (if_pos hid)
  exact ⟨.inr ⟨row, _, rfl, hwritten, rfl, rfl⟩, _, hwritten, hin, rfl⟩

/-- what a step keeps: the item is made, or the one that is there is kept -/
structure Keeps (containerId : String) (world world' : TaskWorld) (call next : ApiCall) : Prop where
  item : (Kept world.items world'.items ∧ (next.Making → call.Making)) ∨
    (call.Making ∧ world.items = [] ∧ ¬ next.Making)
  bound : ∀ container, boundContainerId world'.log = some container →
    container = containerId ∧ Made containerId world'.items
  sound : next.Sound containerId world'.items

section
variable (hsound : call.Sound containerId world.items)
  (hbound : ∀ container, boundContainerId world.log = some container →
    container = containerId ∧ Made containerId world.items)
include hsound hbound

theorem keeps_read {next : ApiCall} (hmaking : next.Making → call.Making)
    (hnext : next.Sound containerId world.items) : Keeps containerId world world call next :=
  ⟨.inl ⟨.inl rfl, hmaking⟩, hbound, hnext⟩

theorem keeps_work : Keeps containerId world (call.work m world).1 call (call.work m world).2 := by
  rcases work_cases m world call with hsame | ⟨-, -, hreturned⟩ | ⟨thread, world', thread', rfl, hmoved, hwork⟩ |
    ⟨thread, result, world', thread', result', rfl, hmoved, hwork⟩
  · rw [hsame]
    exact keeps_read hsound hbound id hsound
  · rw [hreturned]
    exact keeps_read hsound hbound False.elim trivial
  · obtain ⟨hitems, hlog, -⟩ := moved_keeps hmoved
    rw [hwork]
    refine ⟨.inl ⟨.inl hitems, id⟩, ?_, ?_⟩
    · rw [hlog, hitems]
      exact hbound
    · exact hitems.trans hsound
  · obtain ⟨hitems, hlog, hop⟩ := moved_keeps hmoved
    rw [hwork]
    refine ⟨.inl ⟨.inl hitems, id⟩, ?_, ?_⟩
    · rw [hlog, hitems]
      exact hbound
    · intro hcreate
      rw [hitems]
      exact hsound (hop.symm.trans hcreate)

theorem keeps_write {container status itemId : String} {title : Option String}
    {existing : Option ContainerTimelineItem} {now : Int} {after : After}
    (hcall : call = .writing container status title existing now after) :
    Keeps containerId world
      { world with items := writeItem world.items existing container status title now itemId } call after.next := by
  subst hcall
  cases after with
  | run =>
    obtain ⟨rfl, hitems, rfl⟩ := hsound
    have hmade : Made container (writeItem world.items none container status title now itemId) := by
      rw [hitems]
      exact ⟨_, rfl, rfl⟩
    exact ⟨.inr ⟨trivial, hitems, id⟩, fun c hc => ⟨(hbound c hc).1, hmade⟩, fun _ => hmade⟩
  | bind =>
    obtain ⟨rfl, hthere⟩ := hsound
    obtain ⟨hkept, row, hwritten, hin, -⟩ := writeItem_kept container status title now itemId hthere
    exact ⟨.inl ⟨hkept, False.elim⟩, fun c hc => (hbound c hc).imp_right fun hmade => hmade.kept hkept,
      ⟨row, hwritten, hin⟩⟩
  | done =>
    obtain ⟨rfl, hthere⟩ := hsound
    obtain ⟨hkept, -⟩ := writeItem_kept container status title now itemId hthere
    exact ⟨.inl ⟨hkept, False.elim⟩, fun c hc => (hbound c hc).imp_right fun hmade => hmade.kept hkept, trivial⟩

theorem keeps_go (now : Int) (itemId : String) (readable : Bool) :
    Keeps containerId world (call.go containerId goal now itemId readable world).1 call
      (call.go containerId goal now itemId readable world).2 := by
  cases call with
  | called op => exact keeps_read hsound hbound False.elim fun hop => absurd hop op.2
  | creating thread =>
    unfold ApiCall.go
    dsimp only
    split
    · exact keeps_read hsound hbound id ⟨rfl, hsound⟩
    · exact keeps_read hsound hbound id hsound
  | working thread result =>
    unfold ApiCall.go
    dsimp only
    split
    · cases hafter : afterWork containerId goal thread.op result with
      | none => exact keeps_read hsound hbound False.elim hsound
      | some next =>
        unfold afterWork at hafter
        split at hafter
        · rename_i hop
          rw [← Option.some.inj hafter]
          exact keeps_read hsound hbound False.elim ⟨rfl, hsound hop⟩
        · rw [← Option.some.inj hafter]
          exact keeps_read hsound hbound False.elim trivial
        · rw [← Option.some.inj hafter]
          exact keeps_read hsound hbound False.elim trivial
        · exact absurd hafter.symm (Option.some_ne_none _)
    · exact keeps_read hsound hbound False.elim hsound
  | reconciling result => exact keeps_read hsound hbound False.elim trivial
  | locating status =>
    unfold ApiCall.go
    dsimp only
    split
    · rename_i container hcontainer
      exact keeps_read hsound hbound False.elim (hbound container hcontainer)
    · exact keeps_read hsound hbound False.elim trivial
  | selecting container status title after =>
    cases after with
    | run =>
      refine keeps_read hsound hbound id ⟨hsound.1, hsound.2, ?_⟩
      rw [hsound.2, existingItem_nil]
    | bind | done =>
      have hthere := hsound
      obtain ⟨rfl, row, hitems, hin⟩ := hthere
      refine keeps_read hsound hbound False.elim ⟨rfl, row, row, hitems, hin, ?_, rfl⟩
      rw [hitems, existingItem_singleton hin]
  | writing => exact keeps_write hsound hbound rfl
  | binding status =>
    refine ⟨.inl ⟨.inl rfl, False.elim⟩, fun container hcontainer => ?_, trivial⟩
    have hlast : some containerId = some container := (boundContainerId_bound status).symm.trans hcontainer
    exact ⟨(Option.some.inj hlast).symm, hsound⟩
  | returned => exact keeps_read hsound hbound id trivial

theorem keeps_next (goal : String) (input : ApiInput) :
    Keeps containerId world (call.next containerId goal input world).1 call
      (call.next containerId goal input world).2 := by
  cases input with
  | job m => exact keeps_work hsound hbound
  | goes now itemId readable => exact keeps_go hsound hbound now itemId readable
  | fails => exact keeps_read hsound hbound False.elim trivial

end

theorem Proper.turn (h : Proper containerId pool) (hi : pool.tasks[i]? = some call) (input : ApiInput) :
    Proper containerId (pool.step (kernelApi containerId goal) (.turn i input)) := by
  have hkeeps := keeps_next (h.sound i call hi) h.bound goal input
  have hshared : (pool.step (kernelApi containerId goal) (.turn i input)).shared =
      (call.next containerId goal input pool.shared).1 := shared_turn hi
  refine ⟨?_, fun j other hj hmaking => ?_, fun j other hj => ?_⟩
  · rw [hshared]
    exact hkeeps.bound
  · rcases turn_cases hi hj with ⟨rfl, rfl⟩ | ⟨-, hold⟩
    · rcases hkeeps.item with ⟨-, hback⟩ | ⟨-, -, hnot⟩
      · exact h.making j call hi (hback hmaking)
      · exact absurd hmaking hnot
    · exact h.making j other hold hmaking
  · rw [hshared]
    rcases turn_cases hi hj with ⟨rfl, rfl⟩ | ⟨hji, hold⟩
    · exact hkeeps.sound
    · have hother := h.sound j other hold
      rcases hkeeps.item with ⟨hkept, -⟩ | ⟨hmaking, hnil, -⟩
      · exact hother.kept hkept
      · -- only one call makes the item
        rw [hnil] at hother
        refine hother.made fun hmaking' => hji ?_
        rw [h.making j other hold hmaking', h.making i call hi hmaking]

theorem Proper.start (h : Proper containerId pool) (op : LaterOp) :
    Proper containerId (pool.step (kernelApi containerId goal) (.start op)) := by
  refine ⟨h.bound, fun j other hj hmaking => ?_, fun j other hj => ?_⟩
  · rcases start_cases hj with hold | rfl
    · exact h.making j other hold hmaking
    · exact absurd hmaking id
  · rcases start_cases hj with hold | rfl
    · exact h.sound j other hold
    · exact trivial

theorem proper_startTask : Proper containerId startTask := by
  have honly {i : Nat} {call : ApiCall} (hi : startTask.tasks[i]? = some call) :
      i = 0 ∧ call = .creating ⟨.createJob, 0, false, creation⟩ := by
    obtain ⟨hlength, rfl⟩ := List.getElem?_eq_some_iff.mp hi
    obtain rfl : i = 0 := Nat.lt_one_iff.mp hlength
    exact ⟨rfl, rfl⟩
  refine ⟨fun container h => absurd h.symm (Option.some_ne_none _), fun i call hi _ => (honly hi).1,
    fun i call hi => ?_⟩
  rw [(honly hi).2]
  exact rfl

theorem proper_runTask (moves : List (Turns.Move LaterOp ApiInput)) :
    Proper containerId (runTask containerId goal moves) :=
  Pool.run_inv proper_startTask (fun _ op h => h.start op) (fun _ _ input _ h hi => h.turn hi input) moves

/-! ## the last call that has to write -/

theorem settled_turn_iff (hi : pool.tasks[i]? = some call) :
    Settled containerId (pool.step (kernelApi containerId goal) (.turn i input)) ↔
      Right containerId (call.next containerId goal input pool.shared).1 ∨
        (call.next containerId goal input pool.shared).2.Owes ∨ Others pool i := by
  have hshared : (pool.step (kernelApi containerId goal) (.turn i input)).shared =
      (call.next containerId goal input pool.shared).1 := shared_turn hi
  unfold Settled
  rw [hshared, exists_turn_iff hi]
  rfl

theorem settled_of_owes (hi : pool.tasks[i]? = some call)
    (howes : (call.next containerId goal input pool.shared).2.Owes) :
    Settled containerId (pool.step (kernelApi containerId goal) (.turn i input)) :=
  (settled_turn_iff hi).mpr (.inr (.inl howes))

theorem settled_returned_iff (hi : pool.tasks[i]? = some call)
    (hnext : call.next containerId goal input pool.shared = (pool.shared, .returned)) :
    Settled containerId (pool.step (kernelApi containerId goal) (.turn i input)) ↔
      Right containerId pool.shared ∨ Others pool i := by
  rw [settled_turn_iff hi, hnext]
  exact or_congr_right (or_iff_right id)

theorem others_of_settled (h : Settled containerId pool) (hi : pool.tasks[i]? = some call) (howes : ¬ call.Owes) :
    Right containerId pool.shared ∨ Others pool i := by
  refine h.imp_right ?_
  rintro ⟨j, other, hj, hother⟩
  refine ⟨j, other, ?_, hj, hother⟩
  rintro rfl
  rw [Option.some.inj (hi.symm.trans hj)] at howes
  exact howes hother

theorem right_write_iff {existing : Option ContainerTimelineItem} (container status : String) (title : Option String)
    (now : Int) (itemId : String)
    (h : ∃ row item, world.items = [row] ∧ row.containerId = containerId ∧ existing = some item ∧
      row.itemId = item.itemId) :
    Right containerId { world with items := writeItem world.items existing container status title now itemId } ↔
      status = world.status := by
  obtain ⟨-, row, hwritten, hin, hstatus⟩ := writeItem_kept container status title now itemId h
  constructor
  · rintro ⟨item, hitem, -, hright⟩
    obtain rfl := List.singleton_inj.mp (hwritten.symm.trans hitem)
    exact hstatus.symm.trans hright
  · exact fun hright => ⟨row, hwritten, hin, hstatus.trans hright⟩

theorem settled_write_iff (hproper : Proper containerId pool) {container status : String}
    {title : Option String} {existing : Option ContainerTimelineItem} {written now : Int} {itemId : String}
    {readable : Bool} {after : After}
    (hi : pool.tasks[i]? = some (.writing container status title existing written after)) :
    Settled containerId (pool.step (kernelApi containerId goal) (.turn i (.goes now itemId readable))) ↔
      (ApiCall.writing container status title existing written after).Heeds containerId pool i
        (.goes now itemId readable) := by
  have hsound := hproper.sound i _ hi
  cases after with
  | run => exact iff_of_true (settled_of_owes hi trivial) trivial
  | bind | done =>
    rw [settled_turn_iff hi]
    exact or_congr (right_write_iff container status title written itemId hsound.2) (or_iff_right id)

theorem settled_of_not_owes (h : Settled containerId pool) (hi : pool.tasks[i]? = some call) (howes : ¬ call.Owes)
    (hitems : (call.next containerId goal input pool.shared).1.items = pool.shared.items)
    (hstatus : (call.next containerId goal input pool.shared).1.status = pool.shared.status) :
    Settled containerId (pool.step (kernelApi containerId goal) (.turn i input)) := by
  rw [settled_turn_iff hi]
  refine (others_of_settled h hi howes).imp ?_ .inr
  rintro ⟨item, hitem, hin, hright⟩
  exact ⟨item, hitems.trans hitem, hin, hright.trans hstatus.symm⟩

theorem heeds_job (hm : m ≠ .stop) : call.Heeds containerId pool i (.job m) := by
  cases m with
  | stop => exact absurd rfl hm
  | _ => cases call <;> exact trivial

theorem owes_work (hm : m ≠ .stop) (howes : call.Owes) : (call.work m world).2.Owes := by
  rcases work_cases m world call with hsame | ⟨hstop, -⟩ | ⟨_, _, _, _, _, hwork⟩ |
    ⟨_, _, _, _, _, _, _, hwork⟩
  · rw [hsame]
    exact howes
  · exact absurd hstop hm
  · rw [hwork]
    exact trivial
  · rw [hwork]
    exact trivial

theorem settled_job_iff (h : Settled containerId pool) (hi : pool.tasks[i]? = some call) :
    Settled containerId (pool.step (kernelApi containerId goal) (.turn i (.job m))) ↔
      call.Heeds containerId pool i (.job m) := by
  by_cases hm : m = .stop
  · subst hm
    cases call with
    | creating | working => exact settled_returned_iff hi rfl
    | binding | returned => exact iff_of_true (settled_of_not_owes h hi id rfl rfl) trivial
    | called | reconciling | locating | selecting | writing => exact iff_of_true (settled_of_owes hi trivial) trivial
  · refine iff_of_true ?_ (heeds_job hm)
    cases call with
    | binding | returned => exact settled_of_not_owes h hi id rfl rfl
    | _ => exact settled_of_owes hi (owes_work hm trivial)

theorem settled_goes_iff {now : Int} {itemId : String} {readable : Bool} (h : Settled containerId pool)
    (hproper : Proper containerId pool) (hi : pool.tasks[i]? = some call) :
    Settled containerId (pool.step (kernelApi containerId goal) (.turn i (.goes now itemId readable))) ↔
      call.Heeds containerId pool i (.goes now itemId readable) := by
  cases call with
  | called | reconciling | selecting => exact iff_of_true (settled_of_owes hi trivial) trivial
  | creating thread =>
    refine iff_of_true (settled_of_owes hi ?_) trivial
    show (ApiCall.go containerId goal now itemId readable pool.shared (.creating thread)).2.Owes
    unfold ApiCall.go
    dsimp only
    split <;> exact trivial
  | working thread result =>
    refine iff_of_true (settled_of_owes hi ?_) trivial
    show (ApiCall.go containerId goal now itemId readable pool.shared (.working thread result)).2.Owes
    unfold ApiCall.go
    dsimp only
    split
    · unfold afterWork
      split <;> exact trivial
    · exact trivial
  | locating status =>
    cases hbound : boundContainerId pool.shared.log with
    | none =>
      have hnext : (ApiCall.locating status).next containerId goal (.goes now itemId readable) pool.shared =
          (pool.shared, .returned) := by
        show ApiCall.go containerId goal now itemId readable pool.shared (.locating status) = _
        unfold ApiCall.go
        dsimp only
        rw [hbound]
      rw [settled_returned_iff hi hnext]
      exact ⟨fun hright _ => hright, fun hall => hall hbound⟩
    | some container =>
      refine iff_of_true (settled_of_owes hi ?_) fun hnone => absurd (hbound.symm.trans hnone) nofun
      show (ApiCall.go containerId goal now itemId readable pool.shared (.locating status)).2.Owes
      unfold ApiCall.go
      dsimp only
      rw [hbound]
      exact trivial
  | writing => exact settled_write_iff hproper hi
  | binding status => exact iff_of_true (settled_of_not_owes h hi id rfl (status_bound status)) trivial
  | returned => exact iff_of_true (settled_of_not_owes h hi id rfl rfl) trivial

theorem settled_fails_iff (h : Settled containerId pool) (hi : pool.tasks[i]? = some call) :
    Settled containerId (pool.step (kernelApi containerId goal) (.turn i .fails)) ↔
      call.Heeds containerId pool i .fails := by
  rw [settled_returned_iff hi rfl]
  constructor
  · intro hright
    cases call <;> exact fun _ => hright
  · intro hheeds
    cases call with
    | binding | returned => exact others_of_settled h hi id
    | _ => exact hheeds trivial

/-! ## all along a run -/

theorem settled_step_iff (h : Settled containerId pool) (hproper : Proper containerId pool)
    (move : Turns.Move LaterOp ApiInput) :
    Settled containerId (pool.step (kernelApi containerId goal) move) ↔ Heeds containerId pool move := by
  cases move with
  | start op =>
    refine iff_of_true (h.imp_right ?_) trivial
    rintro ⟨j, other, hj, howes⟩
    exact ⟨j, other, start_old op hj, howes⟩
  | turn i input =>
    cases hi : pool.tasks[i]? with
    | none =>
      rw [step_turn_none hi]
      exact iff_of_true h fun call hcall => absurd (hi.symm.trans hcall) nofun
    | some call =>
      have hcall : Heeds containerId pool (.turn i input) ↔ call.Heeds containerId pool i input := by
        constructor
        · exact fun hheeds => hheeds call hi
        · intro hheeds other hother
          rw [← Option.some.inj (hi.symm.trans hother)]
          exact hheeds
      rw [hcall]
      cases input with
      | job m => exact settled_job_iff h hi
      | goes now itemId readable => exact settled_goes_iff h hproper hi
      | fails => exact settled_fails_iff h hi

theorem Settled.right (h : Settled containerId pool) (hreturned : ∀ call ∈ pool.tasks, call = .returned) :
    Right containerId pool.shared := by
  rcases h with hright | ⟨i, call, hi, howes⟩
  · exact hright
  · rw [hreturned call (List.mem_of_getElem? hi)] at howes
    exact absurd howes id

end

/-- **the item of a task** is settled all along a run exactly when no call leaves a status that is not the one of
the log, as the last that had still to write; then the one item is right whenever all calls have returned -/
theorem item_settled_iff (containerId goal : String) (moves : List (Turns.Move LaterOp ApiInput)) :
    ((∀ old, old <+: moves → Settled containerId (runTask containerId goal old)) ↔
        ∀ old move, old ++ [move] <+: moves → Heeds containerId (runTask containerId goal old) move) ∧
      ((∀ old move, old ++ [move] <+: moves → Heeds containerId (runTask containerId goal old) move) →
        ∀ old, old <+: moves → (∀ call ∈ (runTask containerId goal old).tasks, call = .returned) →
          Right containerId (runTask containerId goal old).shared) := by
  have hiff : (∀ old, old <+: moves → Settled containerId (runTask containerId goal old)) ↔
      ∀ old move, old ++ [move] <+: moves → Heeds containerId (runTask containerId goal old) move := by
    refine Recorded.forall_prefix_iff (.inr ⟨0, _, rfl, trivial⟩) (fun old move hold => ?_) moves
    have hconcat : runTask containerId goal (old ++ [move]) =
        (runTask containerId goal old).step (kernelApi containerId goal) move := run_concat old move
    rw [hconcat]
    exact settled_step_iff hold (proper_runTask old) move
  exact ⟨hiff, fun hheeds old hold hreturned => (hiff.mpr hheeds old hold).right hreturned⟩

/-! ## a cancel before the task is bound -/

def statement : ApiInput := .goes 1000 "timeline_1" true

def turns (i n : Nat) (input : ApiInput) : List (Turns.Move LaterOp ApiInput) := List.replicate n (.turn i input)

theorem cancelJob_ne : Op.cancelJob ≠ .createJob := nofun

/-- the task waits for its user; before the call that started it writes so, the task is cancelled -/
def cancelMoves : List (Turns.Move LaterOp ApiInput) :=
  [turns 0 5 (.job .advance), turns 0 3 statement, turns 0 2 (.job .advance), turns 0 1 (.job (.act .clarify)),
    turns 0 4 (.job .advance), [.start ⟨.cancelJob, cancelJob_ne⟩], turns 1 1 statement, turns 1 4 (.job .advance),
    turns 1 2 statement, turns 0 4 statement].flatten

/-- both calls have returned, and the item of the cancelled task shows that it waits -/
theorem cancelled_unbound : ∃ (containerId goal : String),
    (∀ call ∈ (runTask containerId goal cancelMoves).tasks, call = .returned) ∧
      (runTask containerId goal cancelMoves).shared.items.map (·.status) = ["waiting_user"] ∧
      (runTask containerId goal cancelMoves).shared.status = "cancelled" ∧
      ¬ Right containerId (runTask containerId goal cancelMoves).shared := by
  let world := (runTask "container_1" "Rename the files" cancelMoves).shared
  have htasks : (runTask "container_1" "Rename the files" cancelMoves).tasks = [.returned, .returned] := rfl
  have hitems : world.items.map (·.status) = ["waiting_user"] := by decide
  have hstatus : world.status = "cancelled" := by decide
  refine ⟨"container_1", "Rename the files", ?_, hitems, hstatus, ?_⟩
  · rw [htasks]
    intro call hcall
    rcases List.mem_cons.mp hcall with rfl | hcall
    · rfl
    · exact List.mem_singleton.mp hcall
  · rintro ⟨item, hitem, -, hright⟩
    have hwaiting : [item.status] = ["waiting_user"] :=
      (congrArg (List.map ContainerTimelineItem.status) hitem).symm.trans hitems
    have hcancelled : item.status = "cancelled" := hright.trans hstatus
    rw [hcancelled] at hwaiting
    exact absurd hwaiting (by decide)

end KernelApi

import SuperNova.Feed.Page
import SuperNova.Lib.Text

/-!
# The runtime event log of a run

`append_run_event` gives an event an id made of its type, the run and the time of its last update, and
`append_runtime_event` leaves the log as it is when the id is there already.

* `RuntimeEventLog.appendRuntimeEvent`: one transaction, which takes the next cursor;
* `PagedExactly`: the pages from the cursor zero on are the events, each once and in their order;
* `pagedExactly_iff` (**main**): so it is exactly when all ids are different, no append gives up on a locked
  database, and the pages are not empty by their limit;
* `cancel_twice`: two requests to cancel that leave one event.
-/

set_option linter.unusedSectionVars false

namespace Runs

open Feed

/-! ## events -/

structure RunRecord where
  runId : String
  workspaceUid : String
  containerId : String
  runKind : String
  chatThreadId : Option String
  taskId : Option String
  jobId : Option String
  workerId : String
  status : String
  cancelRequested : Bool
  heartbeatAtMs : Option Nat
  startedAtMs : Nat
  updatedAtMs : Nat
  errorMessage : Option String

/-- `serde_json::to_value` -/
def RunRecord.toJson (run : RunRecord) : Json :=
  .obj
    [("run_id", .str run.runId), ("workspace_uid", .str run.workspaceUid),
      ("container_id", .str run.containerId), ("run_kind", .str run.runKind),
      ("chat_thread_id", .ofText? run.chatThreadId), ("task_id", .ofText? run.taskId),
      ("job_id", .ofText? run.jobId), ("worker_id", .str run.workerId), ("status", .str run.status),
      ("cancel_requested", .bool run.cancelRequested),
      ("heartbeat_at_ms", run.heartbeatAtMs.elim .null fun n => .num n),
      ("started_at_ms", .num run.startedAtMs), ("updated_at_ms", .num run.updatedAtMs),
      ("error_message", .ofText? run.errorMessage)]

/-- what is handed to `append_runtime_event` -/
structure RuntimeEvent where
  eventId : String
  partitionKey : String
  containerId : Option String
  runId : Option String
  taskId : Option String
  chatThreadId : Option String
  eventType : String
  payload : Json

structure RuntimeEventRecord where
  event : RuntimeEvent
  workspaceUid : String
  createdAtMs : Int
  cursorSeq : Int
  projectionStatus : String

/-- the rows of `runtime_event_log`, none of which is ever deleted -/
structure RuntimeEventLog where
  rows : List RuntimeEventRecord
  ids : (rows.map (·.event.eventId)).Nodup
  cursors : rows.Pairwise fun a b => a.cursorSeq < b.cursorSeq
  positive : ∀ row ∈ rows, 0 < row.cursorSeq

/-- `SELECT COALESCE(MAX(cursor_seq), 0)` -/
def RuntimeEventLog.lastCursor (log : RuntimeEventLog) : Int :=
  (log.rows.map (·.cursorSeq)).foldr max 0

theorem RuntimeEventLog.le_lastCursor {log : RuntimeEventLog} {row : RuntimeEventRecord}
    (h : row ∈ log.rows) : row.cursorSeq ≤ log.lastCursor := by
  have hmax : ∀ (l : List Int) (n : Int), n ∈ l → n ≤ l.foldr max 0 := by
    intro l n hn
    induction l with
    | nil => exact absurd hn List.not_mem_nil
    | cons m l ih =>
      rw [List.foldr_cons]
      rcases List.mem_cons.mp hn with rfl | hn
      · omega
      · have := ih hn
        omega
  exact hmax _ _ (List.mem_map_of_mem h)

theorem RuntimeEventLog.lastCursor_nonneg {log : RuntimeEventLog} : 0 ≤ log.lastCursor := by
  unfold RuntimeEventLog.lastCursor
  induction log.rows.map (·.cursorSeq) with
  | nil => exact Int.le_refl 0
  | cons n l ih =>
    rw [List.foldr_cons]
    omega

/-- the transaction of `append_runtime_event` -/
def RuntimeEventLog.appendRuntimeEvent (log : RuntimeEventLog) (workspaceUid : String)
    (event : RuntimeEvent) (nowMs : Int) : RuntimeEventLog :=
  if h : event.eventId ∈ log.rows.map (·.event.eventId) then log
  else
    { rows := log.rows ++ [⟨event, workspaceUid, nowMs, log.lastCursor + 1, "pending"⟩]
      ids := by
        rw [List.map_append, List.nodup_append]
        refine ⟨log.ids, List.nodup_singleton _, ?_⟩
        rintro id hid id' hid' rfl
        have heq : id = event.eventId := List.mem_singleton.mp hid'
        exact h (heq ▸ hid)
      cursors := by
        refine List.pairwise_append.mpr ⟨log.cursors, List.pairwise_singleton _ _, fun row hrow last hlast => ?_⟩
        rw [List.mem_singleton.mp hlast]
        have := RuntimeEventLog.le_lastCursor hrow
        show row.cursorSeq < log.lastCursor + 1
        omega
      positive := by
        intro row hrow
        rcases List.mem_append.mp hrow with hrow | hrow
        · exact log.positive row hrow
        · rw [List.mem_singleton.mp hrow]
          have := log.lastCursor_nonneg
          show 0 < log.lastCursor + 1
          omega }

def listRuntimeEventsPage (log : RuntimeEventLog) (afterEventId : Option Int) (limit : Option Nat) :
    List RuntimeEventRecord :=
  let boundedLimit := normalizeMessagePageLimit limit
  match afterEventId with
  | some after =>
    ((log.rows.filter fun row => row.cursorSeq > after).insertionSort fun a b =>
      a.cursorSeq ≤ b.cursorSeq).take boundedLimit
  | none =>
    ((log.rows.insertionSort fun a b => b.cursorSeq ≤ a.cursorSeq).take boundedLimit).insertionSort
      fun a b => a.cursorSeq ≤ b.cursorSeq

/-- the `after_event_id` of `cursor_for_runtime_events` -/
def cursorForRuntimeEvents (events : List RuntimeEventRecord) : Option Int :=
  events.getLast?.map (·.cursorSeq)

/-! ## the events of runs -/

/-- a call of `append_run_event`; with `locked` it gives up on a locked database, and returns no error -/
structure RunEventCall where
  run : RunRecord
  eventType : String
  nowMs : Int
  locked : Bool

def RunEventCall.eventId (call : RunEventCall) : String :=
  call.eventType ++ ":" ++ call.run.runId ++ ":" ++ toString call.run.updatedAtMs

def RunEventCall.event (call : RunEventCall) : RuntimeEvent where
  eventId := call.eventId
  partitionKey := call.run.workspaceUid ++ "/" ++ call.run.containerId
  containerId := some call.run.containerId
  runId := some call.run.runId
  taskId := call.run.taskId
  chatThreadId := call.run.chatThreadId
  eventType := call.eventType
  payload := call.run.toJson

def RuntimeEventLog.appendRunEvent (log : RuntimeEventLog) (workspaceUid : String) (call : RunEventCall) :
    RuntimeEventLog :=
  if call.locked then log else log.appendRuntimeEvent workspaceUid call.event call.nowMs

def RuntimeEventLog.appendRunEvents (log : RuntimeEventLog) (workspaceUid : String)
    (calls : List RunEventCall) : RuntimeEventLog :=
  calls.foldl (fun log call => log.appendRunEvent workspaceUid call) log

/-- the `k`-th page from the cursor zero on -/
def eventPage (log : RuntimeEventLog) (limit : Option Nat) (k : Nat) : List RuntimeEventRecord :=
  Paging.nthPage (·.cursorSeq) (fun after => listRuntimeEventsPage log (some after) limit) k 0

/-- the pages come to an empty one, and up to it they are the events -/
def PagedExactly (log : RuntimeEventLog) (limit : Option Nat) (events : List RuntimeEvent) : Prop :=
  ∃ k, eventPage log limit k = [] ∧
    ((List.range k).flatMap (eventPage log limit)).map (·.event) = events

/-! ## pages -/

section
variable {log : RuntimeEventLog} {workspaceUid : String} {calls : List RunEventCall} {limit : Option Nat}

theorem listRuntimeEventsPage_some (after : Int) : listRuntimeEventsPage log (some after) limit =
    Paging.page (·.cursorSeq) log.rows (normalizeMessagePageLimit limit) after := by
  have hsorted : (log.rows.filter fun row => decide (row.cursorSeq > after)).Pairwise
      fun a b => a.cursorSeq ≤ b.cursorSeq :=
    (log.cursors.filter _).imp fun h => Int.le_of_lt h
  show (List.insertionSort _ _).take _ = _
  rw [hsorted.insertionSort_eq]
  rfl

theorem beyond_zero : Paging.beyond (·.cursorSeq) 0 log.rows = log.rows :=
  List.filter_eq_self.mpr fun row hrow => decide_eq_true (log.positive row hrow)

theorem pagedExactly_rows (hlimit : 1 ≤ normalizeMessagePageLimit limit) (events : List RuntimeEvent) :
    PagedExactly log limit events ↔ log.rows.map (·.event) = events := by
  have hpages : eventPage log limit = fun k => Paging.nthPage (·.cursorSeq)
      (Paging.page (·.cursorSeq) log.rows (normalizeMessagePageLimit limit)) k 0 := by
    funext k
    rw [eventPage, show (fun after => listRuntimeEventsPage log (some after) limit) = _ from
      funext listRuntimeEventsPage_some]
  have hascending : (Paging.beyond (·.cursorSeq) 0 log.rows).Pairwise
      fun a b => a.cursorSeq < b.cursorSeq := by
    rw [beyond_zero]
    exact log.cursors
  have hall {k : Nat} (hk : eventPage log limit k = []) :
      (List.range k).flatMap (eventPage log limit) = log.rows := by
    rw [hpages] at hk ⊢
    rw [Paging.flatMap_nthPage hlimit hascending hk, beyond_zero]
  constructor
  · rintro ⟨k, hk, rfl⟩
    rw [hall hk]
  · rintro rfl
    obtain ⟨k, hk, -⟩ := Paging.complete_of_ascending hlimit hascending
    have hk : eventPage log limit k = [] := by rw [hpages]; exact hk
    exact ⟨k, hk, by rw [hall hk]⟩

theorem pagedExactly_zero (hlimit : normalizeMessagePageLimit limit = 0) (events : List RuntimeEvent) :
    PagedExactly log limit events ↔ events = [] := by
  have hpage (after : Int) : listRuntimeEventsPage log (some after) limit = [] := by
    rw [listRuntimeEventsPage_some, hlimit]
    rfl
  have hpages (k : Nat) : eventPage log limit k = [] := by
    cases k with
    | zero => exact hpage 0
    | succ k =>
      show (match Paging.nextCursor _ (listRuntimeEventsPage log (some 0) limit) with
        | some _ => _ | none => _) = _
      rw [hpage]
      rfl
  have hflat (k : Nat) : (List.range k).flatMap (eventPage log limit) = [] :=
    List.flatMap_eq_nil_iff.mpr fun j _ => hpages j
  constructor
  · rintro ⟨k, -, rfl⟩
    rw [hflat]
    rfl
  · rintro rfl
    exact ⟨0, hpages 0, by rw [hflat]; rfl⟩

/-! ## appends -/

theorem appendRunEvent_of_new (workspaceUid : String) {call : RunEventCall} (hlocked : call.locked = false)
    (hnew : call.eventId ∉ log.rows.map (·.event.eventId)) :
    (log.appendRunEvent workspaceUid call).rows.map (·.event) = log.rows.map (·.event) ++ [call.event] := by
  rw [RuntimeEventLog.appendRunEvent, hlocked, if_neg Bool.false_ne_true,
    RuntimeEventLog.appendRuntimeEvent, dif_neg (show call.event.eventId ∉ _ from hnew), List.map_append]
  rfl

theorem appendRunEvent_of_old {call : RunEventCall}
    (hold : call.locked = true ∨ call.eventId ∈ log.rows.map (·.event.eventId)) :
    log.appendRunEvent workspaceUid call = log := by
  unfold RuntimeEventLog.appendRunEvent
  split
  · rfl
  · rename_i hlocked
    have hmem : call.event.eventId ∈ _ := hold.resolve_left hlocked
    rw [RuntimeEventLog.appendRuntimeEvent, dif_pos hmem]

theorem length_appendRunEvents_le (log : RuntimeEventLog) (workspaceUid : String)
    (calls : List RunEventCall) :
    (log.appendRunEvents workspaceUid calls).rows.length ≤ log.rows.length + calls.length := by
  induction calls generalizing log with
  | nil => exact Nat.le_refl _
  | cons call calls ih =>
    have hone : (log.appendRunEvent workspaceUid call).rows.length ≤ log.rows.length + 1 := by
      by_cases hold : call.locked = true ∨ call.eventId ∈ log.rows.map (·.event.eventId)
      · rw [appendRunEvent_of_old hold]
        omega
      · rw [not_or, Bool.not_eq_true] at hold
        have := congrArg List.length (appendRunEvent_of_new workspaceUid hold.1 hold.2)
        simp only [List.length_map, List.length_append, List.length_singleton] at this
        omega
    have := ih (log.appendRunEvent workspaceUid call)
    show ((log.appendRunEvent workspaceUid call).appendRunEvents workspaceUid calls).rows.length ≤ _
    rw [List.length_cons]
    omega

theorem appendRunEvents_iff :
    (log.appendRunEvents workspaceUid calls).rows.map (·.event) =
        log.rows.map (·.event) ++ calls.map RunEventCall.event ↔
      (∀ call ∈ calls, call.locked = false) ∧
        (log.rows.map (·.event.eventId) ++ calls.map RunEventCall.eventId).Nodup := by
  induction calls generalizing log with
  | nil =>
    refine iff_of_true (List.append_nil _).symm ⟨fun _ h => absurd h List.not_mem_nil, ?_⟩
    rw [List.map_nil, List.append_nil]
    exact log.ids
  | cons call calls ih =>
    show ((log.appendRunEvent workspaceUid call).appendRunEvents workspaceUid calls).rows.map _ = _ ↔ _
    by_cases hold : call.locked = true ∨ call.eventId ∈ log.rows.map (·.event.eventId)
    · rw [appendRunEvent_of_old hold]
      refine iff_of_false (fun heq => ?_) ?_
      · have hlength := congrArg List.length heq
        have hle := length_appendRunEvents_le log workspaceUid calls
        simp only [List.length_map, List.length_append, List.length_cons] at hlength
        omega
      · rintro ⟨hlocked, hnodup⟩
        rcases hold with hlocked' | hmem
        · rw [hlocked call List.mem_cons_self] at hlocked'
          cases hlocked'
        · exact (List.nodup_append.mp hnodup).2.2 _ hmem _ List.mem_cons_self rfl
    · rw [not_or, Bool.not_eq_true] at hold
      have hone := appendRunEvent_of_new workspaceUid hold.1 hold.2
      have hids : (log.appendRunEvent workspaceUid call).rows.map (·.event.eventId) =
          log.rows.map (·.event.eventId) ++ [call.eventId] := by
        have := congrArg (List.map RuntimeEvent.eventId) hone
        rw [List.map_append, List.map_map, List.map_map] at this
        exact this
      have hgoal := @ih (log.appendRunEvent workspaceUid call)
      rw [hone, hids, List.append_assoc, List.append_assoc, List.singleton_append,
        List.singleton_append] at hgoal
      rw [List.map_cons, List.map_cons, hgoal, List.forall_mem_cons]
      simp [hold.1]

end

/-- **paging of runtime events**: the pages from the cursor zero on are the events of the log and then those
of all calls, each once and in their order, exactly when no call gives up on a locked database, all ids are
different, and the limit is not zero (or there is no event) -/
theorem pagedExactly_iff (log : RuntimeEventLog) (workspaceUid : String) (calls : List RunEventCall)
    (limit : Option Nat) :
    PagedExactly (log.appendRunEvents workspaceUid calls) limit
        (log.rows.map (·.event) ++ calls.map RunEventCall.event) ↔
      if limit = some 0 then log.rows = [] ∧ calls = []
      else (∀ call ∈ calls, call.locked = false) ∧
        (log.rows.map (·.event.eventId) ++ calls.map RunEventCall.eventId).Nodup := by
  by_cases hlimit : limit = some 0
  · rw [if_pos hlimit, pagedExactly_zero (by rw [hlimit]; rfl), List.append_eq_nil_iff,
      List.map_eq_nil_iff, List.map_eq_nil_iff]
  · have hone : 1 ≤ normalizeMessagePageLimit limit := by
      unfold normalizeMessagePageLimit maxMessagePageLimit defaultMessagePageLimit
      cases limit with
      | none => decide
      | some n =>
        have : n ≠ 0 := fun h => hlimit (congrArg some h)
        show 1 ≤ min n 1000
        omega
    rw [if_neg hlimit, pagedExactly_rows hone, appendRunEvents_iff]

/-- an empty log -/
def RuntimeEventLog.empty : RuntimeEventLog where
  rows := []
  ids := List.nodup_nil
  cursors := .nil
  positive := fun _ h => absurd h List.not_mem_nil

/-- a run that has ended, of whose thread the user requests the cancellation -/
def endedRun : RunRecord where
  runId := "run_1"
  workspaceUid := "w"
  containerId := "c"
  runKind := "chat"
  chatThreadId := some "t"
  taskId := none
  jobId := none
  workerId := "in_process:1"
  status := "completed"
  cancelRequested := false
  heartbeatAtMs := none
  startedAtMs := 1
  updatedAtMs := 2
  errorMessage := none

/-- the second request to cancel leaves no event -/
theorem cancel_twice : ¬ ∀ log workspaceUid calls limit, limit ≠ some 0 →
    (∀ call ∈ calls, call.locked = false) →
    PagedExactly (RuntimeEventLog.appendRunEvents log workspaceUid calls) limit
      (log.rows.map (·.event) ++ calls.map RunEventCall.event) := by
  intro h
  have hpaged := h .empty "w" [⟨endedRun, "run.cancel_requested", 3, false⟩,
    ⟨endedRun, "run.cancel_requested", 4, false⟩] (some 10) (by decide) (by decide)
  rw [pagedExactly_rows (by decide), appendRunEvents_iff] at hpaged
  revert hpaged
  decide

end Runs

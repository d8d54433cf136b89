import SuperNova.Chat.Service
import SuperNova.Lib.Recorded
import SuperNova.Lib.Turns

/-!
# The outcomes of chat turns

Every turn has a phase message and a run, which are to show how it ended.  A turn that ends writes its status to
all phase messages of the thread, a force-close writes `cancelled` to them, and the repair of the projection
writes the last status that the log of the thread tells; the repair also writes that status to the runs that
failed on a locked database.

* `Call.next`: one statement of a turn, of a force-close or of a repair;
* `Shows`: the phase and the run of a turn show that it runs, or its own outcome;
* `shows_iff` (**main**): all turns show their outcomes all along a run exactly when each status that is written
  is the own outcome of the turns that it is written to;
* `failed_then_answered`: a turn that failed before one that was answered.
-/

set_option linter.unusedSectionVars false

namespace ChatService

open Chat Feed Runs Turns

/-! ## what a log tells -/

def projectionErrorMessage (value : Json) : Option String :=
  (((((value.strAt? "message").or (value.strAt? "reason")).or (stringAt value ["error", "message"])).or
    (value.strAt? "error")).map Text.trim).filter (· != "")

/-- the status that an event ends a turn with, and the message of its error -/
def terminalOf (event : ChatEvent) : Option (String × Option String) :=
  match event.eventType with
  | "chat_assistant_answered" | "chat_clarification_requested" | "chat_needs_task_suggested" =>
    some ("completed", none)
  | "chat_turn_user_forced_closed" => some ("cancelled", none)
  | "chat_turn_failed" | "chat_turn_blocked" => some ("failed", projectionErrorMessage event.payload)
  | _ => none

def chatTerminalStatusFromEvents (events : List ChatEvent) : Option (String × Option String) :=
  events.foldl (fun terminal event => (terminalOf event).or terminal) none

/-! ## calls -/

/-- a call of `record_turn`; `log` is the log of the thread when it started, `own` what the kernel has appended
for it -/
structure Recording where
  phaseId : String
  runId : String
  workerId : String
  log : List ChatEvent
  own : List ChatEvent

/-- what comes after the loop over the phase messages -/
inductive After where
  /-- the turn ends as `own`, with an error or without one -/
  | turn (recording : Recording) (own : String) (error : Option String)
  | close
  | repair (terminal : String × Option String)

inductive Call where
  | begun (stamp : Stamp) (workerId runId : String)
  | refused
  | phased (recording : Recording)
  | inserted (recording : Recording)
  | kernel (recording : Recording)
  | returned (recording : Recording) (status : ChatTurnStatus)
  /-- the messages are listed, to show a status -/
  | listing (status : String) (after : After)
  /-- with the messages that are left -/
  | phasing (status : String) (left : List Message) (after : After)
  | completed (recording : Recording) (own status : String) (error : Option String)
  | ended (recording : Recording) (own : String) (error : Option String)
  /-- a statement of the turn failed -/
  | aborted (recording : Recording)
  | closing (event : ChatEvent)
  | cancelling
  | repairing
  | repairingRuns (terminal : String × Option String)
  | done

inductive CallRequest where
  | recordTurn (stamp : Stamp) (workerId runId : String)
  | forceClose (event : ChatEvent)
  | repairWorkspaceProjection

/-- what the kernel does for a turn -/
inductive KernelStep where
  | appends (event : ChatEvent)
  | returns (status : ChatTurnStatus)
  | fails (error : String)

structure StatementInput where
  fails : Bool
  kernel : KernelStep
  stamps : String → Stamp
  now : Nat

/-- the log, the messages and the runs -/
structure OutcomeWorld where
  events : List ChatEvent
  main : Messages
  runs : Table String RunRecord

variable (scope : ThreadScope)

/-- the thread was forced closed since the turn started -/
def Recording.closed (recording : Recording) (events : List ChatEvent) : Bool :=
  (events.drop recording.log.length).any isForcedClosed

/-- the own outcome of a turn that would end with a status -/
def Recording.outcome (recording : Recording) (events : List ChatEvent) (status : String) : String :=
  if recording.closed events then "cancelled" else status

def After.next : After → String → Call
  | .turn recording own error, status => .completed recording own status error
  | .close, _ => .done
  | .repair terminal, _ => .repairingRuns terminal

/-- where a call is after a statement of it has failed -/
def Call.onFailure : Call → Call
  | .begun .. | .refused => .refused
  | .phased recording | .inserted recording | .returned recording _ | .completed recording .. |
    .listing _ (.turn recording ..) | .phasing _ _ (.turn recording ..) => .aborted recording
  | .kernel recording => .kernel recording
  | .ended recording own error => .ended recording own error
  | .aborted recording => .aborted recording
  | .listing _ .close | .listing _ (.repair _) | .phasing _ _ .close | .phasing _ _ (.repair _) | .closing _ |
    .cancelling | .repairing | .repairingRuns _ | .done => .done

/-- one statement of a call that succeeds -/
def Call.go (input : StatementInput) (world : OutcomeWorld) : Call → OutcomeWorld × Call
  | .begun stamp workerId runId =>
    let message := runningPhase scope stamp
    ({ world with main := appendMessage stamp.1 world.main message },
      .phased ⟨message.messageId, runId, workerId, world.events, []⟩)
  | .phased recording =>
    ({ world with
        runs := world.runs.insert recording.runId
          (chatRun scope recording.workerId recording.runId input.now) }, .inserted recording)
  | .inserted recording =>
    ({ world with runs := updateRunStatus world.runs input.now recording.runId "running" none }, .kernel recording)
  | .kernel recording =>
    match input.kernel with
    | .appends event =>
      ({ world with events := world.events ++ [event] },
        .kernel { recording with own := recording.own ++ [event] })
    | .returns status => (world, .returned recording status)
    | .fails error =>
      (world, .listing "failed" (.turn recording (recording.outcome world.events "failed") (some error)))
  | .returned recording status =>
    let own := recording.outcome world.events (chatRuntimePhaseStatus status)
    -- the log of the whole thread is looked through
    (world, .listing
      (if chatThreadWasForceClosed world.events then "cancelled" else chatRuntimePhaseStatus status)
      (.turn recording own none))
  | .listing status after =>
    (world, .phasing status ((listChatMessages world.main scope.chatThreadId).filter isRuntimePhase) after)
  | .phasing status [] after => (world, after.next status)
  | .phasing status (message :: left) after =>
    ({ world with
        main := appendMessage (input.stamps message.messageId).1 world.main
          (phaseShowing input.stamps status message) }, .phasing status left after)
  | .completed recording own status error =>
    ({ world with
        runs := match error with
          | none => completeRun world.runs input.now recording.runId status
          | some error => failRun world.runs input.now recording.runId error }, .ended recording own error)
  | .closing event =>
    ({ world with events := world.events ++ [{ event with eventType := "chat_turn_user_forced_closed" }] },
      .cancelling)
  | .cancelling =>
    ({ world with runs := requestCancelChatRuns world.runs scope.chatThreadId input.now },
      .listing "cancelled" .close)
  | .repairing =>
    match chatTerminalStatusFromEvents world.events with
    | some terminal => (world, .listing terminal.1 (.repair terminal))
    | none => (world, .done)
  | .repairingRuns terminal =>
    ({ world with
        runs := repairDatabaseLockedChatRuns world.runs scope.chatThreadId terminal.1 terminal.2 input.now }, .done)
  | .refused => (world, .refused)
  | .ended recording own error => (world, .ended recording own error)
  | .aborted recording => (world, .aborted recording)
  | .done => (world, .done)

/-- a statement that fails changes nothing; the kernel's own failure is one of its steps -/
def Call.next (input : StatementInput) (world : OutcomeWorld) (call : Call) : OutcomeWorld × Call :=
  match call, input.fails with
  | .kernel recording, _ => Call.go scope input world (.kernel recording)
  | call, true => (world, call.onFailure)
  | call, false => Call.go scope input world call

def Call.start : CallRequest → Call
  | .recordTurn stamp workerId runId => .begun stamp workerId runId
  | .forceClose event => .closing event
  | .repairWorkspaceProjection => .repairing

def calls : Program OutcomeWorld Call CallRequest StatementInput := ⟨Call.start, Call.next scope⟩

abbrev CallPool := Pool OutcomeWorld Call

/-- the ids of the phase and of the run of a turn -/
def Call.ids : Call → Option (String × String)
  | .begun stamp _ runId => some ((runningPhase scope stamp).messageId, runId)
  | .phased recording | .inserted recording | .kernel recording | .returned recording _ |
    .completed recording .. | .ended recording .. | .aborted recording |
    .listing _ (.turn recording ..) | .phasing _ _ (.turn recording ..) =>
    some (recording.phaseId, recording.runId)
  | .refused | .listing _ .close | .listing _ (.repair _) | .phasing _ _ .close | .phasing _ _ (.repair _) |
    .closing _ | .cancelling | .repairing | .repairingRuns _ | .done => none

/-- the ids are made of the time and a counter, so that no two turns have the same -/
def CallPool.fresh (pool : CallPool) (call : Call) : Bool :=
  (call.ids scope).all fun ids => pool.tasks.all fun other =>
    (other.ids scope).all fun taken => taken.1 != ids.1 && taken.2 != ids.2

def CallPool.step (pool : CallPool) : Turns.Move CallRequest StatementInput → CallPool
  | .start request =>
    if CallPool.fresh scope pool (Call.start request) then Pool.step (calls scope) pool (.start request) else pool
  | .turn i input => Pool.step (calls scope) pool (.turn i input)

/-- a thread without turns -/
def newCalls : CallPool := ⟨⟨[], .empty, .empty⟩, []⟩

def runCalls (moves : List (Turns.Move CallRequest StatementInput)) : CallPool :=
  moves.foldl (CallPool.step scope) newCalls

/-! ## what is shown -/

/-- the own outcome of a turn; one that failed on a locked database may also show what the log tells of it -/
def Outcome (recording : Recording) (own : String) (error : Option String) (status : String) : Prop :=
  status = own ∨ databaseLocked error = true ∧
    (chatTerminalStatusFromEvents recording.own).map (·.1) = some status

/-- the turn whose phase message is there -/
def Call.recording? : Call → Option Recording
  | .phased recording | .inserted recording | .kernel recording | .returned recording _ |
    .completed recording .. | .ended recording .. | .aborted recording |
    .listing _ (.turn recording ..) | .phasing _ _ (.turn recording ..) => some recording
  | .begun .. | .refused | .listing _ .close | .listing _ (.repair _) | .phasing _ _ .close |
    .phasing _ _ (.repair _) | .closing _ | .cancelling | .repairing | .repairingRuns _ | .done => none

/-- the turn whose run is there and has not ended -/
def Call.active? : Call → Option Recording
  | .inserted recording | .kernel recording | .returned recording _ | .completed recording .. |
    .listing _ (.turn recording ..) | .phasing _ _ (.turn recording ..) => some recording
  | _ => none

/-- the status is the own outcome of the turn; while the kernel works on it, only a force-close tells one -/
def Call.Owns (events : List ChatEvent) (status : String) : Call → Prop
  | .phased recording | .inserted recording | .kernel recording | .returned recording _ =>
    status = "cancelled" ∧ recording.closed events = true
  | .listing _ (.turn recording own error) | .phasing _ _ (.turn recording own error) |
    .completed recording own _ error | .ended recording own error => Outcome recording own error status
  | _ => False

/-- the loop over the phases has not come to that of the turn -/
def Call.Waits : Call → Prop
  | .phased _ | .inserted _ | .kernel _ | .returned .. | .listing _ (.turn ..) => True
  | .phasing _ left (.turn recording ..) => ∃ message ∈ left, message.messageId = recording.phaseId
  | _ => False

/-- the phase message shows that the turn runs until the turn has written its status -/
def PhaseShows (main : Messages) (events : List ChatEvent) (call : Call) (recording : Recording) : Prop :=
  ∃ message, main.get? recording.phaseId = some message ∧ message.messageId = recording.phaseId ∧
    message.chatThreadId = some scope.chatThreadId ∧ isRuntimePhase message = true ∧
    (message.status = "streaming" ∧ call.Waits ∨ call.Owns events message.status)

/-- the run of a turn that has not ended is running, or is to be cancelled with the turn -/
def RunShows (runs : Table String RunRecord) (events : List ChatEvent) (call : Call) (recording : Recording) :
    Prop :=
  ∃ run, runs.get? recording.runId = some run ∧ run.chatThreadId = some scope.chatThreadId ∧
    (run.status = "queued" ∨ run.status = "running" ∨
      run.status = "cancel_requested" ∧ call.Owns events "cancelled")

/-- the run of a turn that has ended shows its outcome -/
def EndShows (runs : Table String RunRecord) (recording : Recording) (own : String) (error : Option String) :
    Prop :=
  ∃ run, runs.get? recording.runId = some run ∧ run.chatThreadId = some scope.chatThreadId ∧
    Outcome recording own error run.status

/-- the turn of a call shows that it runs, or its own outcome -/
structure Shows (world : OutcomeWorld) (call : Call) : Prop where
  phase : ∀ recording, call.recording? = some recording →
    PhaseShows scope world.main world.events call recording
  run : ∀ recording, call.active? = some recording → RunShows scope world.runs world.events call recording
  ended : ∀ recording own error, call = .ended recording own error →
    EndShows scope world.runs recording own error

def AllShow (pool : CallPool) : Prop :=
  ∀ (i : Nat) (call : Call), pool.tasks[i]? = some call → Shows scope pool.shared call

/-- a status that is written is the own outcome of each turn that it is written to, and no statement of a turn
fails -/
def Call.Heeds (pool : CallPool) (input : StatementInput) : Call → Prop
  | .kernel _ => True
  | .phasing status (message :: left) after =>
    if input.fails then ∀ recording, (Call.phasing status (message :: left) after).onFailure ≠ .aborted recording
    else ∀ (j : Nat) (other : Call), pool.tasks[j]? = some other → ∀ recording,
      other.recording? = some recording → recording.phaseId = message.messageId →
      other.Owns pool.shared.events status
  | .completed recording own status error =>
    if input.fails then False
    else Outcome recording own error (error.elim status fun _ => "failed")
  | .cancelling =>
    input.fails = false → ∀ (j : Nat) (other : Call), pool.tasks[j]? = some other → ∀ recording,
      other.active? = some recording → other.Owns pool.shared.events "cancelled"
  | .repairingRuns terminal =>
    input.fails = false → ∀ (j : Nat) (recording : Recording) (own : String) (error : Option String),
      pool.tasks[j]? = some (.ended recording own error) → ∀ run,
      pool.shared.runs.get? recording.runId = some run → run.status = "failed" →
      databaseLocked run.errorMessage = true → Outcome recording own error terminal.1
  | call => input.fails = true → ∀ recording, call.onFailure ≠ .aborted recording

def Heeds (pool : CallPool) : Turns.Move CallRequest StatementInput → Prop
  | .start _ => True
  | .turn i input => ∀ call, pool.tasks[i]? = some call → call.Heeds pool input

section
variable {scope}
variable {pool : CallPool} {world : OutcomeWorld} {call other : Call} {i j : Nat} {input : StatementInput}
  {events rest : List ChatEvent} {recording : Recording} {own status : String} {error : Option String}
  {main : Messages} {runs : Table String RunRecord} {after : After} {message : Message} {left : List Message}

/-! ## what a call is sure of -/

def IsFinal (status : String) : Prop := status = "completed" ∨ status = "failed" ∨ status = "cancelled"

def After.Sound : After → Prop
  | .turn _ own _ => IsFinal own
  | .close => True
  | .repair terminal => IsFinal terminal.1

/-- only how a turn ends is written, and only to phase messages of the thread -/
def Call.Sound (scope : ThreadScope) : Call → Prop
  | .listing status after => IsFinal status ∧ after.Sound
  | .phasing status left after => IsFinal status ∧ after.Sound ∧
      ∀ message ∈ left, message.chatThreadId = some scope.chatThreadId ∧ isRuntimePhase message = true
  | .completed _ own status _ => IsFinal status ∧ IsFinal own
  | .ended _ own _ => IsFinal own
  | .repairingRuns terminal => IsFinal terminal.1
  | _ => True

/-- the turns have a phase and a run each -/
structure Proper (scope : ThreadScope) (pool : CallPool) : Prop where
  apart : ∀ (i j : Nat) (call other : Call), i ≠ j → pool.tasks[i]? = some call → pool.tasks[j]? = some other →
    ∀ ids, call.ids scope = some ids → ∀ taken, other.ids scope = some taken → taken.1 ≠ ids.1 ∧ taken.2 ≠ ids.2
  sound : ∀ (i : Nat) (call : Call), pool.tasks[i]? = some call → call.Sound scope

theorem isFinal_phaseStatus (status : ChatTurnStatus) : IsFinal (chatRuntimePhaseStatus status) := by
  cases status with
  | answered | clarifying | needsTask => exact .inl rfl
  | blocked | failed => exact .inr (.inl rfl)

theorem isFinal_outcome (h : IsFinal status) : IsFinal (recording.outcome events status) := by
  unfold Recording.outcome
  split
  · exact .inr (.inr rfl)
  · exact h

theorem isFinal_terminalOf {event : ChatEvent} {terminal : String × Option String}
    (h : terminalOf event = some terminal) : IsFinal terminal.1 := by
  unfold terminalOf at h
  split at h
  · rw [← Option.some.inj h]
    exact .inl rfl
  · rw [← Option.some.inj h]
    exact .inl rfl
  · rw [← Option.some.inj h]
    exact .inl rfl
  · rw [← Option.some.inj h]
    exact .inr (.inr rfl)
  · rw [← Option.some.inj h]
    exact .inr (.inl rfl)
  · rw [← Option.some.inj h]
    exact .inr (.inl rfl)
  · exact absurd h.symm (Option.some_ne_none _)

theorem isFinal_terminal {terminal : String × Option String}
    (h : chatTerminalStatusFromEvents events = some terminal) : IsFinal terminal.1 := by
  unfold chatTerminalStatusFromEvents at h
  induction events using List.reverseRecOn with
  | nil => exact absurd h.symm (Option.some_ne_none _)
  | append_singleton events event ih =>
    rw [List.foldl_concat, Option.or_eq_some_iff] at h
    rcases h with hnext | ⟨-, hold⟩
    · exact isFinal_terminalOf hnext
    · exact ih hold

theorem Outcome.isFinal (h : Outcome recording own error status) (hown : IsFinal own) : IsFinal status := by
  rcases h with rfl | ⟨-, hterminal⟩
  · exact hown
  · obtain ⟨terminal, hlog, rfl⟩ := Option.map_eq_some_iff.mp hterminal
    exact isFinal_terminal hlog

theorem sound_onFailure (h : call.Sound scope) : call.onFailure.Sound scope := by
  cases call with
  | ended => exact h
  | listing status after => cases after <;> exact trivial
  | phasing status left after => cases after <;> exact trivial
  | _ => exact trivial

theorem sound_go (h : call.Sound scope) : (Call.go scope input world call).2.Sound scope := by
  cases call with
  | kernel recording =>
    unfold Call.go
    dsimp only
    split
    · exact trivial
    · exact trivial
    · exact ⟨.inr (.inl rfl), isFinal_outcome (.inr (.inl rfl))⟩
  | returned recording status =>
    refine ⟨?_, isFinal_outcome (isFinal_phaseStatus status)⟩
    split
    · exact .inr (.inr rfl)
    · exact isFinal_phaseStatus status
  | listing status after =>
    refine ⟨h.1, h.2, fun message hmessage => ?_⟩
    obtain ⟨hlisted, hphase⟩ := List.mem_filter.mp hmessage
    exact ⟨(mem_listChatMessages.mp hlisted).2, hphase⟩
  | phasing status left after =>
    cases left with
    | nil =>
      cases after with
      | turn recording own error => exact ⟨h.1, h.2.1⟩
      | close => exact trivial
      | repair terminal => exact h.2.1
    | cons message left => exact ⟨h.1, h.2.1, fun m hm => h.2.2 m (List.mem_cons_of_mem _ hm)⟩
  | completed recording own status error => exact h.2
  | cancelling => exact ⟨.inr (.inr rfl), trivial⟩
  | repairing =>
    unfold Call.go
    dsimp only
    split
    · rename_i terminal hterminal
      exact ⟨isFinal_terminal hterminal, isFinal_terminal hterminal⟩
    · exact trivial
  | ended recording own error => exact h
  | begun | refused | phased | inserted | aborted | closing | repairingRuns | done => exact trivial

theorem next_cases (scope : ThreadScope) (input : StatementInput) (world : OutcomeWorld) (call : Call) :
    Call.next scope input world call = Call.go scope input world call ∧
        (input.fails = false ∨ ∃ recording, call = .kernel recording) ∨
      input.fails = true ∧ (∀ recording, call ≠ .kernel recording) ∧
        Call.next scope input world call = (world, call.onFailure) := by
  unfold Call.next
  cases hfails : input.fails with
  | false =>
    refine .inl ⟨?_, .inl rfl⟩
    cases call <;> rfl
  | true =>
    cases call with
    | kernel recording => exact .inl ⟨rfl, .inr ⟨recording, rfl⟩⟩
    | _ => exact .inr ⟨rfl, nofun, rfl⟩

theorem sound_next (h : call.Sound scope) : (Call.next scope input world call).2.Sound scope := by
  rcases next_cases scope input world call with ⟨hgo, -⟩ | ⟨-, -, hfail⟩
  · rw [hgo]
    exact sound_go h
  · rw [hfail]
    exact sound_onFailure h

theorem ids_next {ids : String × String} (h : (Call.next scope input world call).2.ids scope = some ids) :
    call.ids scope = some ids := by
  rcases next_cases scope input world call with ⟨hgo, -⟩ | ⟨-, -, hfail⟩
  · rw [hgo] at h
    cases call with
    | kernel recording =>
      unfold Call.go at h
      dsimp only at h
      split at h
      · exact h
      · exact h
      · exact h
    | listing status after => cases after <;> exact h
    | phasing status left after =>
      cases left <;> cases after <;> exact h
    | repairing =>
      unfold Call.go at h
      dsimp only at h
      split at h
      · exact absurd h.symm (Option.some_ne_none _)
      · exact absurd h.symm (Option.some_ne_none _)
    | _ => exact h
  · rw [hfail] at h
    cases call with
    | begun => exact absurd h.symm (Option.some_ne_none _)
    | listing status after => cases after <;> exact h
    | phasing status left after => cases after <;> exact h
    | _ => exact h

/-! ## what others leave -/

theorem closed_append (h : recording.closed events = true) (rest : List ChatEvent) :
    recording.closed (events ++ rest) = true := by
  unfold Recording.closed at h ⊢
  obtain ⟨event, hevent, hclosed⟩ := List.any_eq_true.mp h
  have hprefix := (List.prefix_append events rest).drop recording.log.length
  exact List.any_eq_true.mpr ⟨event, hprefix.subset hevent, hclosed⟩

theorem Call.Owns.append (h : call.Owns events status) (rest : List ChatEvent) :
    call.Owns (events ++ rest) status := by
  cases call with
  | phased | inserted | kernel | returned => exact ⟨h.1, closed_append h.2 rest⟩
  | listing _ after => cases after <;> exact h
  | phasing _ _ after => cases after <;> exact h
  | _ => exact h

theorem recording?_of_active (h : call.active? = some recording) : call.recording? = some recording := by
  cases call with
  | listing _ after => cases after <;> exact h
  | phasing _ _ after => cases after <;> exact h
  | inserted | kernel | returned | completed => exact h
  | _ => exact absurd h.symm (Option.some_ne_none _)

theorem ids_of_recording (h : call.recording? = some recording) :
    call.ids scope = some (recording.phaseId, recording.runId) := by
  cases call with
  | listing _ after =>
    cases after with
    | turn =>
      obtain rfl := Option.some.inj h
      rfl
    | close | repair => exact absurd h.symm (Option.some_ne_none _)
  | phasing _ _ after =>
    cases after with
    | turn =>
      obtain rfl := Option.some.inj h
      rfl
    | close | repair => exact absurd h.symm (Option.some_ne_none _)
  | phased | inserted | kernel | returned | completed | ended | aborted =>
    obtain rfl := Option.some.inj h
    rfl
  | _ => exact absurd h.symm (Option.some_ne_none _)

theorem Shows.frame {world' : OutcomeWorld} (h : Shows scope world call)
    (hevents : ∃ rest, world'.events = world.events ++ rest)
    (hmain : ∀ recording, call.recording? = some recording →
      world'.main.get? recording.phaseId = world.main.get? recording.phaseId)
    (hruns : ∀ recording, call.recording? = some recording →
      world'.runs.get? recording.runId = world.runs.get? recording.runId) : Shows scope world' call := by
  obtain ⟨rest, hevents⟩ := hevents
  refine ⟨fun recording hrecording => ?_, fun recording hactive => ?_, fun recording own error hended => ?_⟩
  · obtain ⟨message, hget, hid, hthread, hphase, hstatus⟩ := h.phase recording hrecording
    refine ⟨message, (hmain recording hrecording).trans hget, hid, hthread, hphase, hstatus.imp_right fun howns => ?_⟩
    rw [hevents]
    exact howns.append rest
  · obtain ⟨run, hget, hthread, hstatus⟩ := h.run recording hactive
    refine ⟨run, (hruns recording (recording?_of_active hactive)).trans hget, hthread, ?_⟩
    rw [hevents]
    exact hstatus.imp_right fun hstatus => hstatus.imp_right fun hcancel => ⟨hcancel.1, hcancel.2.append rest⟩
  · obtain ⟨run, hget, hrun⟩ := h.ended recording own error hended
    refine ⟨run, (hruns recording ?_).trans hget, hrun⟩
    rw [hended]
    rfl

theorem shows_of_none (hrecording : call.recording? = none) : Shows scope world call where
  phase := fun recording h => absurd (hrecording.symm.trans h) nofun
  run := fun recording h => absurd (hrecording.symm.trans (recording?_of_active h)) nofun
  ended := fun recording own error h => by
    rw [h] at hrecording
    exact absurd hrecording nofun

theorem allShow_turn_iff {world' : OutcomeWorld} {next : Call} (hi : pool.tasks[i]? = some call)
    (hnext : Call.next scope input pool.shared call = (world', next)) :
    AllShow scope (CallPool.step scope pool (.turn i input)) ↔
      Shows scope world' next ∧
        ∀ (j : Nat) (other : Call), j ≠ i → pool.tasks[j]? = some other → Shows scope world' other := by
  have hshared : (CallPool.step scope pool (.turn i input)).shared = world' :=
    (shared_turn hi).trans (congrArg Prod.fst hnext)
  have hself : (CallPool.step scope pool (.turn i input)).tasks[i]? = some next :=
    (turn_self hi).trans (congrArg (fun after => some after.2) hnext)
  unfold AllShow
  rw [hshared]
  constructor
  · intro hall
    exact ⟨hall i next hself, fun j other hji hj => hall j other ((turn_other hi hji).trans hj)⟩
  · rintro ⟨hshows, hothers⟩ j other hj
    rcases turn_cases hi hj with ⟨rfl, -⟩ | ⟨hji, hold⟩
    · rw [← Option.some.inj (hself.symm.trans hj)]
      exact hshows
    · exact hothers j other hji hold

theorem allShow_frame {world' : OutcomeWorld} {next : Call} (h : AllShow scope pool)
    (hi : pool.tasks[i]? = some call) (hnext : Call.next scope input pool.shared call = (world', next))
    (hself : Shows scope world' next) (hevents : ∃ rest, world'.events = pool.shared.events ++ rest)
    (hmain : ∀ (j : Nat) (other : Call), j ≠ i → pool.tasks[j]? = some other → ∀ recording,
      other.recording? = some recording →
      world'.main.get? recording.phaseId = pool.shared.main.get? recording.phaseId)
    (hruns : ∀ (j : Nat) (other : Call), j ≠ i → pool.tasks[j]? = some other → ∀ recording,
      other.recording? = some recording →
      world'.runs.get? recording.runId = pool.shared.runs.get? recording.runId) :
    AllShow scope (CallPool.step scope pool (.turn i input)) :=
  (allShow_turn_iff hi hnext).mpr ⟨hself, fun j other hji hj =>
    (h j other hj).frame hevents (hmain j other hji hj) (hruns j other hji hj)⟩

theorem allShow_read {next : Call} (h : AllShow scope pool) (hi : pool.tasks[i]? = some call)
    (hnext : Call.next scope input pool.shared call = (pool.shared, next))
    (hself : Shows scope pool.shared next) : AllShow scope (CallPool.step scope pool (.turn i input)) :=
  (allShow_turn_iff hi hnext).mpr ⟨hself, fun j other _ hj => h j other hj⟩

/-! ## a statement that fails -/

theorem heeds_fails (hfails : input.fails = true) (hkernel : ∀ recording, call ≠ .kernel recording) :
    call.Heeds pool input ↔ ∀ recording, call.onFailure ≠ .aborted recording := by
  cases call with
  | kernel recording => exact absurd rfl (hkernel recording)
  | phasing status left after =>
    cases left with
    | nil => exact ⟨fun h => h hfails, fun h _ => h⟩
    | cons message left =>
      unfold Call.Heeds
      dsimp only
      rw [if_pos hfails]
  | completed recording own status error =>
    unfold Call.Heeds
    dsimp only
    rw [if_pos hfails]
    exact ⟨False.elim, fun h => h recording rfl⟩
  | cancelling => exact iff_of_true (fun hgoes => absurd (hfails.symm.trans hgoes) nofun) nofun
  | repairingRuns terminal => exact iff_of_true (fun hgoes => absurd (hfails.symm.trans hgoes) nofun) nofun
  | _ => exact ⟨fun h => h hfails, fun h _ => h⟩

theorem not_shows_aborted : ¬ Shows scope world (.aborted recording) := by
  intro h
  obtain ⟨message, -, -, -, -, hstatus⟩ := h.phase recording rfl
  exact hstatus.elim And.right id

theorem allShow_fails_iff (h : AllShow scope pool) (hi : pool.tasks[i]? = some call) (hfails : input.fails = true)
    (hkernel : ∀ recording, call ≠ .kernel recording)
    (hnext : Call.next scope input pool.shared call = (pool.shared, call.onFailure)) :
    AllShow scope (CallPool.step scope pool (.turn i input)) ↔ call.Heeds pool input := by
  rw [heeds_fails hfails hkernel]
  constructor
  · intro hall recording haborted
    have hself := ((allShow_turn_iff hi hnext).mp hall).1
    rw [haborted] at hself
    exact not_shows_aborted hself
  · intro hgoes
    refine allShow_read h hi hnext ?_
    have hshows := h i call hi
    cases call with
    | ended recording own error => exact hshows
    | phased recording => exact absurd rfl (hgoes recording)
    | inserted recording => exact absurd rfl (hgoes recording)
    | returned recording status => exact absurd rfl (hgoes recording)
    | completed recording own status error => exact absurd rfl (hgoes recording)
    | aborted recording => exact absurd rfl (hgoes recording)
    | kernel recording => exact absurd rfl (hkernel recording)
    | listing status after =>
      cases after with
      | turn recording own error => exact absurd rfl (hgoes recording)
      | close | repair => exact shows_of_none rfl
    | phasing status left after =>
      cases after with
      | turn recording own error => exact absurd rfl (hgoes recording)
      | close | repair => exact shows_of_none rfl
    | begun | refused | closing | cancelling | repairing | repairingRuns | done => exact shows_of_none rfl

/-! ## the statements of a turn -/

theorem phaseShows_stored {existing : Option Message} {now : Nat}
    (hget : main.get? recording.phaseId = some (stored existing now message))
    (hid : message.messageId = recording.phaseId) (hthread : message.chatThreadId = some scope.chatThreadId)
    (hphase : isRuntimePhase message = true) :
    PhaseShows scope main events call recording ↔
      (message.status = "streaming" ∧ call.Waits ∨ call.Owns events message.status) := by
  have hstatus : (stored existing now message).status = message.status := field_stored (·.status) fun _ => rfl
  constructor
  · rintro ⟨found, hfound, -, -, -, hshows⟩
    rw [← Option.some.inj (hget.symm.trans hfound), hstatus] at hshows
    exact hshows
  · intro hshows
    refine ⟨_, hget, messageId_stored .. |>.trans hid, ?_, ?_, ?_⟩
    · exact (field_stored (·.chatThreadId) fun _ => rfl).trans hthread
    · exact (field_stored isRuntimePhase fun _ => rfl).trans hphase
    · rw [hstatus]
      exact hshows

theorem allShow_begun {stamp : Stamp} {workerId runId : String} (h : AllShow scope pool)
    (hproper : Proper scope pool) (hi : pool.tasks[i]? = some (.begun stamp workerId runId))
    (hgo : Call.next scope input pool.shared (.begun stamp workerId runId) =
      Call.go scope input pool.shared (.begun stamp workerId runId)) :
    AllShow scope (CallPool.step scope pool (.turn i input)) := by
  have hapart : ∀ (j : Nat) (other : Call), j ≠ i → pool.tasks[j]? = some other → ∀ recording,
      other.recording? = some recording → recording.phaseId ≠ (runningPhase scope stamp).messageId :=
    fun j other hji hj recording hrecording =>
      (hproper.apart i j _ other (Ne.symm hji) hi hj _ rfl _ (ids_of_recording hrecording)).1
  refine allShow_frame h hi hgo ⟨fun recording hrecording => ?_, nofun, nofun⟩ ⟨[], (List.append_nil _).symm⟩
    (fun j other hji hj recording hrecording => ?_) fun _ _ _ _ _ _ => rfl
  · obtain rfl := Option.some.inj hrecording
    have hget := get?_appendMessage pool.shared.main (runningPhase scope stamp)
      (runningPhase scope stamp).messageId stamp.1
    rw [if_pos rfl] at hget
    exact (phaseShows_stored hget rfl rfl rfl).mpr (.inl ⟨rfl, trivial⟩)
  · show (appendMessage stamp.1 pool.shared.main (runningPhase scope stamp)).get? recording.phaseId = _
    rw [get?_appendMessage, if_neg (hapart j other hji hj recording hrecording)]

theorem allShow_run {next : Call} {runs : Table String RunRecord} (h : AllShow scope pool) (hproper : Proper scope pool)
    (hi : pool.tasks[i]? = some call) (hrecording : call.recording? = some recording)
    (hnext : Call.next scope input pool.shared call = ({ pool.shared with runs }, next))
    (hruns : ∀ runId, runId ≠ recording.runId → runs.get? runId = pool.shared.runs.get? runId)
    (hself : Shows scope { pool.shared with runs } next) :
    AllShow scope (CallPool.step scope pool (.turn i input)) := by
  refine allShow_frame h hi hnext hself ⟨[], (List.append_nil _).symm⟩ (fun _ _ _ _ _ _ => rfl)
    fun j other hji hj recording' hrecording' => hruns recording'.runId ?_
  exact (hproper.apart i j call other (Ne.symm hji) hi hj _ (ids_of_recording hrecording) _
    (ids_of_recording hrecording')).2

theorem allShow_phased (h : AllShow scope pool) (hproper : Proper scope pool)
    (hi : pool.tasks[i]? = some (.phased recording))
    (hgo : Call.next scope input pool.shared (.phased recording) =
      Call.go scope input pool.shared (.phased recording)) :
    AllShow scope (CallPool.step scope pool (.turn i input)) := by
  refine allShow_run h hproper hi rfl hgo (fun runId hne => ?_) ⟨(h i _ hi).phase, fun recording' hactive => ?_, nofun⟩
  · rw [Table.get?_insert, if_neg hne]
  · obtain rfl := Option.some.inj hactive
    refine ⟨chatRun scope recording.workerId recording.runId input.now, ?_, rfl, .inl rfl⟩
    rw [Table.get?_insert, if_pos rfl]

theorem get?_updateRunStatus (runs : Table String RunRecord) (now : Nat) (runId status : String)
    (errorMessage : Option String) (key : String) :
    (updateRunStatus runs now runId status errorMessage).get? key =
      if key = runId then (runs.get? key).map fun run => { run with status, updatedAtMs := now, errorMessage }
      else runs.get? key := by
  rw [updateRunStatus, Table.get?_modify]

theorem allShow_inserted (h : AllShow scope pool) (hproper : Proper scope pool)
    (hi : pool.tasks[i]? = some (.inserted recording))
    (hgo : Call.next scope input pool.shared (.inserted recording) =
      Call.go scope input pool.shared (.inserted recording)) :
    AllShow scope (CallPool.step scope pool (.turn i input)) := by
  refine allShow_run h hproper hi rfl hgo (fun runId hne => ?_) ⟨(h i _ hi).phase, fun recording' hactive => ?_, nofun⟩
  · rw [get?_updateRunStatus, if_neg hne]
  · obtain rfl := Option.some.inj hactive
    obtain ⟨run, hget, hthread, -⟩ := (h i _ hi).run recording rfl
    refine ⟨{ run with status := "running", updatedAtMs := input.now, errorMessage := none }, ?_, hthread, .inr
      (.inl rfl)⟩
    rw [get?_updateRunStatus, if_pos rfl, hget, Option.map_some]

theorem Shows.onward {world' : OutcomeWorld} {next : Call} {recording' : Recording} (h : Shows scope world call)
    (hactive : call.active? = some recording) (hnext : next.recording? = some recording')
    (hended : ∀ recording own error, next ≠ .ended recording own error)
    (hids : recording'.phaseId = recording.phaseId ∧ recording'.runId = recording.runId)
    (hmain : world'.main = world.main) (hruns : world'.runs = world.runs)
    (howns : ∀ status, call.Owns world.events status → next.Owns world'.events status)
    (hwaits : ∀ message, world.main.get? recording.phaseId = some message →
      message.chatThreadId = some scope.chatThreadId → isRuntimePhase message = true → call.Waits → next.Waits) :
    Shows scope world' next := by
  refine ⟨fun other hother => ?_, fun other hother => ?_, fun other own error h => absurd h (hended other own error)⟩
  · obtain rfl := Option.some.inj (hnext.symm.trans hother)
    obtain ⟨message, hget, hid, hthread, hphase, hstatus⟩ := h.phase recording (recording?_of_active hactive)
    rw [← hids.1] at hget hid
    refine ⟨message, hmain ▸ hget, hid, hthread, hphase, hstatus.imp (fun hwait => ⟨hwait.1, ?_⟩) (howns _)⟩
    exact hwaits message (hids.1 ▸ hget) hthread hphase hwait.2
  · obtain rfl := Option.some.inj (hnext.symm.trans (recording?_of_active hother))
    obtain ⟨run, hget, hthread, hstatus⟩ := h.run recording hactive
    refine ⟨run, ?_, hthread, hstatus.imp_right fun hstatus => hstatus.imp_right fun hcancel =>
      ⟨hcancel.1, howns _ hcancel.2⟩⟩
    rw [hruns, hids.2]
    exact hget

theorem outcome_closed (h : recording.closed events = true) : recording.outcome events status = "cancelled" :=
  if_pos h

theorem allShow_kernel (h : AllShow scope pool) (hi : pool.tasks[i]? = some (.kernel recording))
    (hgo : Call.next scope input pool.shared (.kernel recording) =
      Call.go scope input pool.shared (.kernel recording)) :
    AllShow scope (CallPool.step scope pool (.turn i input)) := by
  unfold Call.go at hgo
  dsimp only at hgo
  split at hgo
  · rename_i event _
    refine allShow_frame h hi hgo ?_ ⟨[event], rfl⟩ (fun _ _ _ _ _ _ => rfl) fun _ _ _ _ _ _ => rfl
    refine (h i _ hi).onward rfl rfl nofun ⟨rfl, rfl⟩ rfl rfl (fun status howns => ?_) fun _ _ _ _ _ => trivial
    exact ⟨howns.1, closed_append howns.2 [event]⟩
  · refine allShow_read h hi hgo ?_
    exact (h i _ hi).onward rfl rfl nofun ⟨rfl, rfl⟩ rfl rfl (fun _ howns => howns) fun _ _ _ _ _ => trivial
  · refine allShow_read h hi hgo ?_
    refine (h i _ hi).onward rfl rfl nofun ⟨rfl, rfl⟩ rfl rfl (fun status howns => .inl ?_) fun _ _ _ _ _ => trivial
    rw [outcome_closed howns.2]
    exact howns.1

theorem allShow_returned {turnStatus : ChatTurnStatus} (h : AllShow scope pool)
    (hi : pool.tasks[i]? = some (.returned recording turnStatus))
    (hgo : Call.next scope input pool.shared (.returned recording turnStatus) =
      Call.go scope input pool.shared (.returned recording turnStatus)) :
    AllShow scope (CallPool.step scope pool (.turn i input)) := by
  refine allShow_read h hi hgo ?_
  refine (h i _ hi).onward rfl rfl nofun ⟨rfl, rfl⟩ rfl rfl (fun status howns => .inl ?_) fun _ _ _ _ _ => trivial
  rw [outcome_closed howns.2]
  exact howns.1

theorem allShow_listing (h : AllShow scope pool) (hi : pool.tasks[i]? = some (.listing status after))
    (hgo : Call.next scope input pool.shared (.listing status after) =
      Call.go scope input pool.shared (.listing status after)) :
    AllShow scope (CallPool.step scope pool (.turn i input)) := by
  refine allShow_read h hi hgo ?_
  cases after with
  | turn recording own error =>
    have hshows := h i _ hi
    refine hshows.onward rfl rfl nofun ⟨rfl, rfl⟩ rfl rfl (fun _ howns => howns)
      fun message hget hthread hphase _ => ⟨message, ?_, ?_⟩
    · exact List.mem_filter.mpr ⟨mem_listChatMessages.mpr ⟨⟨recording.phaseId, hget⟩, hthread⟩, hphase⟩
    · obtain ⟨found, hfound, hid, -⟩ := hshows.phase recording rfl
      rw [← Option.some.inj (hfound.symm.trans hget)]
      exact hid
  | close | repair => exact shows_of_none rfl

theorem allShow_phasing_nil (h : AllShow scope pool) (hi : pool.tasks[i]? = some (.phasing status [] after))
    (hgo : Call.next scope input pool.shared (.phasing status [] after) =
      Call.go scope input pool.shared (.phasing status [] after)) :
    AllShow scope (CallPool.step scope pool (.turn i input)) := by
  refine allShow_read h hi hgo ?_
  cases after with
  | turn recording own error =>
    refine (h i _ hi).onward rfl rfl nofun ⟨rfl, rfl⟩ rfl rfl (fun _ howns => howns) fun _ _ _ _ hwaits => ?_
    obtain ⟨message, hmessage, -⟩ := hwaits
    exact absurd hmessage List.not_mem_nil
  | close | repair => exact shows_of_none rfl

theorem IsFinal.ne (h : IsFinal status) : status ≠ "queued" ∧ status ≠ "running" ∧ status ≠ "cancel_requested" ∧
    status ≠ "streaming" := by
  rcases h with rfl | rfl | rfl <;> decide

theorem phaseShows_showing_iff {stamps : String → Stamp} (hfinal : IsFinal status)
    (hthread : message.chatThreadId = some scope.chatThreadId) (hphase : isRuntimePhase message = true)
    (hid : message.messageId = recording.phaseId) :
    PhaseShows scope (appendMessage (stamps message.messageId).1 main (phaseShowing stamps status message)) events
      call recording ↔ call.Owns events status := by
  have hget := get?_appendMessage main (phaseShowing stamps status message) recording.phaseId
    (stamps message.messageId).1
  rw [if_pos (show recording.phaseId = (phaseShowing stamps status message).messageId from hid.symm)] at hget
  rw [phaseShows_stored hget hid hthread hphase]
  exact or_iff_right fun hstreaming => hfinal.ne.2.2.2 hstreaming.1

theorem get?_showing {stamps : String → Stamp} (hne : recording.phaseId ≠ message.messageId) :
    (appendMessage (stamps message.messageId).1 main (phaseShowing stamps status message)).get? recording.phaseId =
      main.get? recording.phaseId := by
  rw [get?_appendMessage]
  exact if_neg hne

theorem shows_showing_iff {stamps : String → Stamp} (h : Shows scope world call) (hfinal : IsFinal status)
    (hthread : message.chatThreadId = some scope.chatThreadId) (hphase : isRuntimePhase message = true) :
    Shows scope { world with
        main := appendMessage (stamps message.messageId).1 world.main (phaseShowing stamps status message) } call ↔
      ∀ recording, call.recording? = some recording → recording.phaseId = message.messageId →
        call.Owns world.events status := by
  constructor
  · intro hshows recording hrecording hid
    exact (phaseShows_showing_iff hfinal hthread hphase hid.symm).mp (hshows.phase recording hrecording)
  · intro howns
    refine ⟨fun recording hrecording => ?_, h.run, h.ended⟩
    by_cases hid : recording.phaseId = message.messageId
    · exact (phaseShows_showing_iff hfinal hthread hphase hid.symm).mpr (howns recording hrecording hid)
    · obtain ⟨found, hget, hshows⟩ := h.phase recording hrecording
      exact ⟨found, (get?_showing hid).trans hget, hshows⟩

theorem shows_phasing_iff {stamps : String → Stamp} (h : Shows scope world (.phasing status (message :: left) after))
    (hfinal : IsFinal status) (hthread : message.chatThreadId = some scope.chatThreadId)
    (hphase : isRuntimePhase message = true) :
    Shows scope { world with
        main := appendMessage (stamps message.messageId).1 world.main (phaseShowing stamps status message) }
        (.phasing status left after) ↔
      ∀ recording, (Call.phasing status (message :: left) after).recording? = some recording →
        recording.phaseId = message.messageId →
        (Call.phasing status (message :: left) after).Owns world.events status := by
  cases after with
  | turn recording own error =>
    constructor
    · intro hshows recording' hrecording hid
      obtain rfl := Option.some.inj hrecording
      have hown := (phaseShows_showing_iff hfinal hthread hphase hid.symm).mp (hshows.phase recording rfl)
      exact hown
    · intro howns
      refine ⟨fun recording' hrecording => ?_, h.run, nofun⟩
      obtain rfl := Option.some.inj hrecording
      by_cases hid : recording.phaseId = message.messageId
      · exact (phaseShows_showing_iff hfinal hthread hphase hid.symm).mpr (howns recording rfl hid)
      · obtain ⟨found, hget, hfound, hthread', hphase', hstatus⟩ := h.phase recording rfl
        refine ⟨found, (get?_showing hid).trans hget, hfound, hthread', hphase', hstatus.imp_left fun hwait =>
          ⟨hwait.1, ?_⟩⟩
        -- the message that was written is not the turn's own
        obtain ⟨m, hm, hmid⟩ := hwait.2
        rcases List.mem_cons.mp hm with rfl | hm
        · exact absurd hmid.symm hid
        · exact ⟨m, hm, hmid⟩
  | close | repair =>
    exact iff_of_true (shows_of_none rfl) fun recording hrecording => absurd hrecording.symm (Option.some_ne_none _)

theorem allShow_phasing_iff (h : AllShow scope pool) (hproper : Proper scope pool)
    (hi : pool.tasks[i]? = some (.phasing status (message :: left) after)) (hfails : input.fails = false)
    (hgo : Call.next scope input pool.shared (.phasing status (message :: left) after) =
      Call.go scope input pool.shared (.phasing status (message :: left) after)) :
    AllShow scope (CallPool.step scope pool (.turn i input)) ↔
      (Call.phasing status (message :: left) after).Heeds pool input := by
  obtain ⟨hfinal, -, hleft⟩ := hproper.sound i _ hi
  obtain ⟨hthread, hphase⟩ := hleft message List.mem_cons_self
  unfold Call.Heeds
  dsimp only
  rw [if_neg (ne_true_of_eq_false hfails), allShow_turn_iff hi hgo, shows_phasing_iff (h i _ hi) hfinal hthread hphase]
  constructor
  · rintro ⟨hself, hothers⟩ j other hj
    by_cases hji : j = i
    · subst hji
      rw [← Option.some.inj (hi.symm.trans hj)]
      exact hself
    · exact (shows_showing_iff (h j other hj) hfinal hthread hphase).mp (hothers j other hji hj)
  · intro howns
    exact ⟨howns i _ hi, fun j other _ hj => (shows_showing_iff (h j other hj) hfinal hthread hphase).mpr
      (howns j other hj)⟩

theorem runTerminalStatus_final (h : IsFinal status) : runTerminalStatus status = status := by
  rcases h with rfl | rfl | rfl <;> rfl

theorem allShow_completed_iff (h : AllShow scope pool) (hproper : Proper scope pool)
    (hi : pool.tasks[i]? = some (.completed recording own status error)) (hfails : input.fails = false)
    (hgo : Call.next scope input pool.shared (.completed recording own status error) =
      Call.go scope input pool.shared (.completed recording own status error)) :
    AllShow scope (CallPool.step scope pool (.turn i input)) ↔
      (Call.completed recording own status error).Heeds pool input := by
  have hfinal : IsFinal status := (hproper.sound i _ hi).1
  obtain ⟨run, hget, hthread, -⟩ := (h i _ hi).run recording rfl
  have hgo' : Call.go scope input pool.shared (.completed recording own status error) =
      ({ pool.shared with
          runs := updateRunStatus pool.shared.runs input.now recording.runId
            (error.elim status fun _ => "failed") error }, .ended recording own error) := by
    cases error with
    | none =>
      unfold Call.go completeRun
      dsimp only
      rw [runTerminalStatus_final hfinal]
      rfl
    | some error => rfl
  have hended : (updateRunStatus pool.shared.runs input.now recording.runId
      (error.elim status fun _ => "failed") error).get? recording.runId =
      some { run with
        status := error.elim status fun _ => "failed", updatedAtMs := input.now, errorMessage := error } := by
    rw [get?_updateRunStatus, if_pos rfl, hget, Option.map_some]
  unfold Call.Heeds
  dsimp only
  rw [if_neg (ne_true_of_eq_false hfails)]
  constructor
  · intro hall
    obtain ⟨hself, -⟩ := (allShow_turn_iff hi (hgo.trans hgo')).mp hall
    obtain ⟨found, hfound, -, houtcome⟩ := hself.ended recording own error rfl
    rw [← Option.some.inj (hended.symm.trans hfound)] at houtcome
    exact houtcome
  · intro houtcome
    refine allShow_run h hproper hi rfl (hgo.trans hgo') (fun runId hne => ?_)
      ⟨fun recording' hrecording => ?_, nofun, fun recording' own' error' hcall => ?_⟩
    · rw [get?_updateRunStatus, if_neg hne]
    · obtain rfl := Option.some.inj hrecording
      obtain ⟨message, hmessage, hid, hthread, hphase, hstatus⟩ := (h i _ hi).phase recording rfl
      exact ⟨message, hmessage, hid, hthread, hphase, hstatus.imp_left fun hwait => hwait.2.elim⟩
    · obtain ⟨rfl, rfl, rfl⟩ := Call.ended.inj hcall
      exact ⟨_, hended, hthread, houtcome⟩

/-! ## the statements of a force-close and of a repair -/

theorem allShow_closing {event : ChatEvent} (h : AllShow scope pool) (hi : pool.tasks[i]? = some (.closing event))
    (hgo : Call.next scope input pool.shared (.closing event) =
      Call.go scope input pool.shared (.closing event)) :
    AllShow scope (CallPool.step scope pool (.turn i input)) :=
  allShow_frame h hi hgo (shows_of_none rfl) ⟨_, rfl⟩ (fun _ _ _ _ _ _ => rfl) fun _ _ _ _ _ _ => rfl

theorem get?_requestCancelChatRuns {runId : String} {run : RunRecord} (now : Nat)
    (hget : runs.get? runId = some run) (hthread : run.chatThreadId = some scope.chatThreadId) :
    (requestCancelChatRuns runs scope.chatThreadId now).get? runId =
      some (if run.status ∉ ["completed", "failed", "blocked", "cancelled"] then
        { run with cancelRequested := true, status := "cancel_requested", updatedAtMs := now } else run) := by
  rw [requestCancelChatRuns, Table.get?_mapValues, hget, Option.map_some]
  simp only [hthread, true_and]

theorem IsFinal.mem (h : IsFinal status) : status ∈ ["completed", "failed", "blocked", "cancelled"] := by
  rcases h with rfl | rfl | rfl <;> decide

theorem RunShows.running (h : RunShows scope runs events call recording) :
    ∃ run, runs.get? recording.runId = some run ∧ run.chatThreadId = some scope.chatThreadId ∧
      run.status ∉ ["completed", "failed", "blocked", "cancelled"] := by
  obtain ⟨run, hget, hthread, hstatus⟩ := h
  refine ⟨run, hget, hthread, ?_⟩
  rcases hstatus with hqueued | hrunning | hcancel
  · rw [hqueued]
    decide
  · rw [hrunning]
    decide
  · rw [hcancel.1]
    decide

theorem shows_cancel_iff {now : Nat} (h : Shows scope world call) (hsound : call.Sound scope) :
    Shows scope { world with runs := requestCancelChatRuns world.runs scope.chatThreadId now } call ↔
      ∀ recording, call.active? = some recording → call.Owns world.events "cancelled" := by
  constructor
  · intro hshows recording hactive
    obtain ⟨run, hget, hthread, hrunning⟩ := (h.run recording hactive).running
    obtain ⟨found, hfound, -, hafter⟩ := hshows.run recording hactive
    rw [get?_requestCancelChatRuns now hget hthread, if_pos hrunning] at hfound
    rw [← Option.some.inj hfound] at hafter
    rcases hafter with hqueued | hrunning | hcancel
    · exact absurd hqueued (show "cancel_requested" ≠ "queued" by decide)
    · exact absurd hrunning (show "cancel_requested" ≠ "running" by decide)
    · exact hcancel.2
  · intro howns
    refine ⟨h.phase, fun recording hactive => ?_, fun recording own error hended => ?_⟩
    · obtain ⟨run, hget, hthread, hrunning⟩ := (h.run recording hactive).running
      have hafter := get?_requestCancelChatRuns now hget hthread
      rw [if_pos hrunning] at hafter
      exact ⟨_, hafter, hthread, .inr (.inr ⟨rfl, howns recording hactive⟩)⟩
    · obtain ⟨run, hget, hthread, houtcome⟩ := h.ended recording own error hended
      rw [hended] at hsound
      have hstatus : run.status ∈ ["completed", "failed", "blocked", "cancelled"] := (houtcome.isFinal hsound).mem
      refine ⟨run, ?_, hthread, houtcome⟩
      rw [get?_requestCancelChatRuns now hget hthread, if_neg (not_not_intro hstatus)]

theorem allShow_cancelling_iff (h : AllShow scope pool) (hproper : Proper scope pool)
    (hi : pool.tasks[i]? = some .cancelling) (hfails : input.fails = false)
    (hgo : Call.next scope input pool.shared .cancelling = Call.go scope input pool.shared .cancelling) :
    AllShow scope (CallPool.step scope pool (.turn i input)) ↔ Call.cancelling.Heeds pool input := by
  rw [allShow_turn_iff hi hgo]
  constructor
  · rintro ⟨-, hothers⟩ - j other hj
    by_cases hji : j = i
    · subst hji
      rw [← Option.some.inj (hi.symm.trans hj)]
      exact fun recording hactive => absurd hactive.symm (Option.some_ne_none _)
    · exact (shows_cancel_iff (h j other hj) (hproper.sound j other hj)).mp (hothers j other hji hj)
  · intro howns
    exact ⟨shows_of_none rfl, fun j other _ hj =>
      (shows_cancel_iff (h j other hj) (hproper.sound j other hj)).mpr (howns hfails j other hj)⟩

theorem allShow_repairing (h : AllShow scope pool) (hi : pool.tasks[i]? = some .repairing)
    (hgo : Call.next scope input pool.shared .repairing = Call.go scope input pool.shared .repairing) :
    AllShow scope (CallPool.step scope pool (.turn i input)) := by
  unfold Call.go at hgo
  dsimp only at hgo
  split at hgo
  · exact allShow_read h hi hgo (shows_of_none rfl)
  · exact allShow_read h hi hgo (shows_of_none rfl)

theorem get?_repairDatabaseLockedChatRuns {runId : String} {run : RunRecord} (terminal : String × Option String)
    (now : Nat) (hget : runs.get? runId = some run) (hthread : run.chatThreadId = some scope.chatThreadId) :
    (repairDatabaseLockedChatRuns runs scope.chatThreadId terminal.1 terminal.2 now).get? runId =
      some (if run.status = "failed" ∧ databaseLocked run.errorMessage = true then
        { run with
          status := terminal.1
          cancelRequested := false
          updatedAtMs := now
          errorMessage := terminal.2 } else run) := by
  rw [repairDatabaseLockedChatRuns, Table.get?_mapValues, hget, Option.map_some]
  simp only [hthread, true_and]

theorem shows_repair_iff {terminal : String × Option String} {now : Nat} (h : Shows scope world call) :
    Shows scope { world with
        runs := repairDatabaseLockedChatRuns world.runs scope.chatThreadId terminal.1 terminal.2 now } call ↔
      ∀ recording own error, call = .ended recording own error → ∀ run,
        world.runs.get? recording.runId = some run → run.status = "failed" →
        databaseLocked run.errorMessage = true → Outcome recording own error terminal.1 := by
  constructor
  · intro hshows recording own error hended run hget hfailed hlocked
    obtain ⟨run', hget', hthread, -⟩ := h.ended recording own error hended
    obtain rfl := Option.some.inj (hget'.symm.trans hget)
    obtain ⟨found, hfound, -, houtcome⟩ := hshows.ended recording own error hended
    rw [get?_repairDatabaseLockedChatRuns terminal now hget hthread, if_pos ⟨hfailed, hlocked⟩] at hfound
    rw [← Option.some.inj hfound] at houtcome
    exact houtcome
  · intro hrepair
    refine ⟨h.phase, fun recording hactive => ?_, fun recording own error hended => ?_⟩
    · obtain ⟨run, hget, hthread, hstatus⟩ := h.run recording hactive
      have hrunning : run.status ≠ "failed" := by
        rcases hstatus with hqueued | hrunning | hcancel
        · rw [hqueued]
          decide
        · rw [hrunning]
          decide
        · rw [hcancel.1]
          decide
      refine ⟨run, ?_, hthread, hstatus⟩
      rw [get?_repairDatabaseLockedChatRuns terminal now hget hthread, if_neg fun hlocked => hrunning hlocked.1]
    · obtain ⟨run, hget, hthread, houtcome⟩ := h.ended recording own error hended
      have hafter := get?_repairDatabaseLockedChatRuns terminal now hget hthread
      split at hafter
      · rename_i hlocked
        exact ⟨_, hafter, hthread, hrepair recording own error hended run hget hlocked.1 hlocked.2⟩
      · exact ⟨run, hafter, hthread, houtcome⟩

theorem allShow_repairingRuns_iff {terminal : String × Option String} (h : AllShow scope pool)
    (hi : pool.tasks[i]? = some (.repairingRuns terminal)) (hfails : input.fails = false)
    (hgo : Call.next scope input pool.shared (.repairingRuns terminal) =
      Call.go scope input pool.shared (.repairingRuns terminal)) :
    AllShow scope (CallPool.step scope pool (.turn i input)) ↔
      (Call.repairingRuns terminal).Heeds pool input := by
  rw [allShow_turn_iff hi hgo]
  constructor
  · rintro ⟨-, hothers⟩ - j recording own error hj
    have hji : j ≠ i := by
      rintro rfl
      exact Call.noConfusion (Option.some.inj (hi.symm.trans hj))
    exact (shows_repair_iff (h j _ hj)).mp (hothers j _ hji hj) recording own error rfl
  · intro hrepair
    refine ⟨shows_of_none rfl, fun j other _ hj => (shows_repair_iff (h j other hj)).mpr ?_⟩
    rintro recording own error rfl
    exact hrepair hfails j recording own error hj

/-! ## all along a run -/

theorem allShow_turn (h : AllShow scope pool) (hproper : Proper scope pool) (hi : pool.tasks[i]? = some call) :
    AllShow scope (CallPool.step scope pool (.turn i input)) ↔ call.Heeds pool input := by
  rcases next_cases scope input pool.shared call with ⟨hgo, hfails | ⟨recording, rfl⟩⟩ | ⟨hfails, hkernel, hnext⟩
  · have hgoes {p : Prop} : input.fails = true → p := fun htrue => absurd (hfails.symm.trans htrue) Bool.false_ne_true
    cases call with
    | begun stamp workerId runId => exact iff_of_true (allShow_begun h hproper hi hgo) hgoes
    | refused => exact iff_of_true (allShow_read h hi hgo (h i _ hi)) hgoes
    | phased recording => exact iff_of_true (allShow_phased h hproper hi hgo) hgoes
    | inserted recording => exact iff_of_true (allShow_inserted h hproper hi hgo) hgoes
    | kernel recording => exact iff_of_true (allShow_kernel h hi hgo) trivial
    | returned recording status => exact iff_of_true (allShow_returned h hi hgo) hgoes
    | listing status after => exact iff_of_true (allShow_listing h hi hgo) hgoes
    | phasing status left after =>
      cases left with
      | nil => exact iff_of_true (allShow_phasing_nil h hi hgo) hgoes
      | cons message left => exact allShow_phasing_iff h hproper hi hfails hgo
    | completed recording own status error => exact allShow_completed_iff h hproper hi hfails hgo
    | ended recording own error => exact iff_of_true (allShow_read h hi hgo (h i _ hi)) hgoes
    | aborted recording => exact iff_of_true (allShow_read h hi hgo (h i _ hi)) hgoes
    | closing event => exact iff_of_true (allShow_closing h hi hgo) hgoes
    | cancelling => exact allShow_cancelling_iff h hproper hi hfails hgo
    | repairing => exact iff_of_true (allShow_repairing h hi hgo) hgoes
    | repairingRuns terminal => exact allShow_repairingRuns_iff h hi hfails hgo
    | done => exact iff_of_true (allShow_read h hi hgo (h i _ hi)) hgoes
  · exact iff_of_true (allShow_kernel h hi hgo) trivial
  · exact allShow_fails_iff h hi hfails hkernel hnext

theorem Proper.turn (hproper : Proper scope pool) (hi : pool.tasks[i]? = some call) (input : StatementInput) :
    Proper scope (CallPool.step scope pool (.turn i input)) where
  apart := by
    -- each call after the statement has the ids of the one before it
    have hback (j : Nat) (other : Call)
        (hj : (CallPool.step scope pool (.turn i input)).tasks[j]? = some other) (ids : String × String)
        (hids : other.ids scope = some ids) :
        ∃ old, pool.tasks[j]? = some old ∧ old.ids scope = some ids := by
      rcases turn_cases hi hj with ⟨rfl, rfl⟩ | ⟨-, hold⟩
      · exact ⟨call, hi, ids_next hids⟩
      · exact ⟨other, hold, hids⟩
    intro j k other other' hjk hj hk ids hids taken htaken
    obtain ⟨old, hold, hids⟩ := hback j other hj ids hids
    obtain ⟨old', hold', htaken⟩ := hback k other' hk taken htaken
    exact hproper.apart j k old old' hjk hold hold' ids hids taken htaken
  sound := by
    intro j other hj
    rcases turn_cases hi hj with ⟨rfl, rfl⟩ | ⟨-, hold⟩
    · exact sound_next (hproper.sound j call hi)
    · exact hproper.sound j other hold

theorem step_start (pool : CallPool) (request : CallRequest) :
    CallPool.step scope pool (.start request) = pool ∨
      CallPool.fresh scope pool (Call.start request) = true ∧
        CallPool.step scope pool (.start request) = Pool.step (calls scope) pool (.start request) := by
  cases hfresh : CallPool.fresh scope pool (Call.start request) with
  | false => exact .inl (if_neg (ne_true_of_eq_false hfresh))
  | true => exact .inr ⟨rfl, if_pos hfresh⟩

theorem fresh_apart {ids taken : String × String} (hfresh : CallPool.fresh scope pool call = true)
    (hids : call.ids scope = some ids) (hj : pool.tasks[j]? = some other) (htaken : other.ids scope = some taken) :
    taken.1 ≠ ids.1 ∧ taken.2 ≠ ids.2 := by
  unfold CallPool.fresh at hfresh
  rw [hids, Option.all_some] at hfresh
  have hother := List.all_eq_true.mp hfresh other (List.mem_of_getElem? hj)
  rw [htaken, Option.all_some, Bool.and_eq_true_iff] at hother
  exact hother.imp bne_iff_ne.mp bne_iff_ne.mp

theorem Proper.start (hproper : Proper scope pool) (request : CallRequest) :
    Proper scope (CallPool.step scope pool (.start request)) := by
  rcases step_start pool request with hsame | ⟨hfresh, hstep⟩
  · rw [hsame]
    exact hproper
  · rw [hstep]
    refine ⟨fun j k other other' hjk hj hk ids hids taken htaken => ?_, fun j other hj => ?_⟩
    · rcases start_index hj with hjold | ⟨hjlast, rfl⟩
      · rcases start_index hk with hkold | ⟨-, rfl⟩
        · exact hproper.apart j k other other' hjk hjold hkold ids hids taken htaken
        · exact (fresh_apart hfresh htaken hjold hids).imp Ne.symm Ne.symm
      · rcases start_index hk with hkold | ⟨hklast, -⟩
        · exact fresh_apart hfresh hids hkold htaken
        · exact absurd (hjlast.trans hklast.symm) hjk
    · rcases start_cases hj with hj | rfl
      · exact hproper.sound j other hj
      · cases request <;> exact trivial

theorem AllShow.start (h : AllShow scope pool) (request : CallRequest) :
    AllShow scope (CallPool.step scope pool (.start request)) := by
  rcases step_start pool request with hsame | ⟨-, hstep⟩
  · rw [hsame]
    exact h
  · rw [hstep]
    intro j other hj
    rcases start_cases hj with hj | rfl
    · exact h j other hj
    · cases request <;> exact shows_of_none rfl

theorem runCalls_concat (moves : List (Turns.Move CallRequest StatementInput))
    (move : Turns.Move CallRequest StatementInput) :
    runCalls scope (moves ++ [move]) = CallPool.step scope (runCalls scope moves) move :=
  List.foldl_concat _ _ _ _

theorem Proper.step (hproper : Proper scope pool) (move : Turns.Move CallRequest StatementInput) :
    Proper scope (CallPool.step scope pool move) := by
  cases move with
  | start request => exact hproper.start request
  | turn i input =>
    cases hi : pool.tasks[i]? with
    | none =>
      have hstep : CallPool.step scope pool (.turn i input) = pool := step_turn_none hi
      rw [hstep]
      exact hproper
    | some call => exact hproper.turn hi input

theorem allShow_step (h : AllShow scope pool) (hproper : Proper scope pool)
    (move : Turns.Move CallRequest StatementInput) :
    AllShow scope (CallPool.step scope pool move) ↔ Heeds pool move := by
  cases move with
  | start request => exact iff_of_true (h.start request) trivial
  | turn i input =>
    cases hi : pool.tasks[i]? with
    | none =>
      have hstep : CallPool.step scope pool (.turn i input) = pool := step_turn_none hi
      rw [hstep]
      exact iff_of_true h fun call hcall => absurd (hi.symm.trans hcall) nofun
    | some call =>
      rw [allShow_turn h hproper hi]
      constructor
      · intro hheeds other hother
        rw [← Option.some.inj (hi.symm.trans hother)]
        exact hheeds
      · exact fun hheeds => hheeds call hi

theorem proper_runCalls (moves : List (Turns.Move CallRequest StatementInput)) :
    Proper scope (runCalls scope moves) := by
  induction moves using List.reverseRecOn with
  | nil => exact ⟨fun i j call other hij hi => absurd hi.symm (Option.some_ne_none _),
      fun i call hi => absurd hi.symm (Option.some_ne_none _)⟩
  | append_singleton moves move ih =>
    rw [runCalls_concat]
    exact ih.step move

end

/-- **the outcomes of turns**: all phases and runs show the own outcome of their turn, all along a run of turns,
force-closes and repairs, exactly when each status is written only where it is the own outcome -/
theorem shows_iff (scope : ThreadScope) (moves : List (Turns.Move CallRequest StatementInput)) :
    (∀ old, old <+: moves → AllShow scope (runCalls scope old)) ↔
      ∀ old move, old ++ [move] <+: moves → Heeds (runCalls scope old) move := by
  refine Recorded.forall_prefix_iff (fun i call hi => ?_) (fun old move hold => ?_) moves
  · exact absurd hi.symm (Option.some_ne_none _)
  · rw [runCalls_concat]
    exact allShow_step hold (proper_runCalls old) move

/-! ## an answer after a failure -/

def statement (kernel : KernelStep) : StatementInput := ⟨false, kernel, fun _ => (3000, 9), 3000⟩

/-- the kernel fails the first turn and answers the second, and the statements follow one another -/
def failThenAnswer : List (Turns.Move CallRequest StatementInput) :=
  .start (.recordTurn (1000, 1) "worker_1" "run_1") ::
    List.replicate 8 (.turn 0 (statement (.fails "the model is not reachable"))) ++
  .start (.recordTurn (2000, 2) "worker_2" "run_2") :: List.replicate 9 (.turn 1 (statement (.returns .answered)))

def Call.endedAs (phaseId own : String) (error : Option String) : Call → Bool
  | .ended recording own' error' => recording.phaseId == phaseId && own' == own && error' == error
  | _ => false

/-- the phase of the turn that failed shows that it is completed -/
theorem failed_then_answered : ∃ (scope : ThreadScope) (recording : Recording) (message : Message),
    (runCalls scope failThenAnswer).tasks[0]? = some (.ended recording "failed" (some "the model is not reachable")) ∧
      (runCalls scope failThenAnswer).shared.main.get? recording.phaseId = some message ∧
      message.status = "completed" ∧ ¬ AllShow scope (runCalls scope failThenAnswer) := by
  let scope : ThreadScope := ⟨"workspace_1", "container_1", "chat_1"⟩
  have hfirst : (runCalls scope failThenAnswer).tasks[0]?.any
      (Call.endedAs (runningPhase scope (1000, 1)).messageId "failed" (some "the model is not reachable")) = true := by
    decide +kernel
  have hstatus : ((runCalls scope failThenAnswer).shared.main.get? (runningPhase scope (1000, 1)).messageId).map
      (·.status) = some "completed" := by
    decide +kernel
  obtain ⟨call, hcall, hended⟩ := (Option.any_eq_true _ _).mp hfirst
  obtain ⟨message, hmessage, hcompleted⟩ := Option.map_eq_some_iff.mp hstatus
  cases call with
  | ended recording own error =>
    simp only [Call.endedAs, Bool.and_eq_true, beq_iff_eq] at hended
    obtain ⟨⟨hphase, rfl⟩, rfl⟩ := hended
    rw [← hphase] at hmessage
    refine ⟨scope, recording, message, hcall, hmessage, hcompleted, fun hall => ?_⟩
    obtain ⟨found, hfound, -, -, -, hshows⟩ := (hall 0 _ hcall).phase recording rfl
    rw [← Option.some.inj (hmessage.symm.trans hfound), hcompleted] at hshows
    rcases hshows with ⟨-, hwaits⟩ | hown | ⟨hlocked, -⟩
    · exact hwaits
    · exact absurd hown (by decide)
    · exact absurd hlocked (by decide +kernel)
  | _ => exact absurd hended Bool.false_ne_true

end ChatService

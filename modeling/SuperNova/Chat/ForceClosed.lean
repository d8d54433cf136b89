import SuperNova.Chat.Service

/-!
# Turns that are forced closed

A force-close of a chat thread appends an event to its log, and closes the phases and the runs of the thread.  A
turn that the kernel has returned reads the log again: if it holds a force-close the turn ends as cancelled, and
its events are not projected.

* `Thread.step`: turns that start, stream, return, read the log and end, and the calls between;
* `EndsOwn`: a turn ends as cancelled when it was closed while it ran, and else with its own status and its
  events shown;
* `ends_own_iff` (**main**): all turns of a run end so exactly when none that was not closed starts after a
  force-close;
* `closed_before`: an answered turn after a turn that was closed.
-/

set_option linter.unusedSectionVars false

namespace ChatService

open Chat Feed Runs Stream

/-! ## threads -/

/-- where a call of `record_turn` is -/
inductive TurnStage where
  | running
  | returned (result : ChatTurnResult)
  /-- with the log that `chat_thread_was_force_closed` read -/
  | checked (result : ChatTurnResult) (events : List ChatEvent)
  /-- with the status of the last event that it sent -/
  | ended (status : String)

/-- a call of `record_turn`; `log` is the log of the thread when it started -/
structure TurnCall where
  log : List ChatEvent
  runId : String
  sink : ProductChatStreamSink
  stage : TurnStage

structure Thread where
  events : List ChatEvent
  state : ThreadState
  turns : List TurnCall

def newThread : Thread := ⟨[], ⟨⟨.empty, .empty⟩, .empty⟩, []⟩

def forceCloseReason (reason : Option String) : String :=
  ((reason.map Text.trim).filter (· != "")).getD "User forced this chat turn closed from Workbench v2."

variable (codec : Codec) (readChatBlobText : String → Option String) (scope : ThreadScope)

/-- the event that `force_close_chat_turn` appends -/
def forceClosedEvent (reason eventId : String) (eventSeq : Nat) (createdAtMs : Int) : ChatEvent where
  eventId
  chatThreadId := scope.chatThreadId
  containerId := scope.containerId
  eventSeq
  eventType := "chat_turn_user_forced_closed"
  payload := .obj [("chat_thread_id", .str scope.chatThreadId), ("reason", .str reason),
    ("user_forced", .bool true), ("user_facing_reason", .str "用户强制关闭"), ("status", .str "cancelled")]
  blobRef := none
  createdAtMs

inductive ThreadMove where
  | start (userStamp phaseStamp : Stamp) (message workerId runId : String) (now : Nat)
  | stream (i : Nat) (stamp : Stamp) (delta : ModelStreamDelta)
  /-- the kernel appends an event -/
  | append (event : ChatEvent)
  | kernelReturns (i : Nat) (status : ChatTurnStatus) (assistantContent : Option String)
  | kernelFails (i : Nat) (stamps : String → Stamp) (stamp : Stamp) (error : String)
  | check (i : Nat)
  | finish (i : Nat) (stamps : String → Stamp) (now : Nat)
  | forceClose (reason : Option String) (eventId : String) (eventSeq : Nat) (createdAtMs : Int)
      (stamps : String → Stamp) (now : Nat)
  | hydrate (now : Nat)

def Thread.setStage (thread : Thread) (i : Nat) (turn : TurnCall) (stage : TurnStage) : Thread :=
  { thread with turns := thread.turns.set i { turn with stage } }

/-- `force_close` -/
def forceClose (stamps : String → Stamp) (now : Nat) (state : ThreadState) (event : ChatEvent) : ThreadState :=
  let db := projectOne codec readChatBlobText scope false now state.db event
  { db := { db with main := completeChatRuntimePhase stamps db.main scope.chatThreadId "cancelled" }
    runs := requestCancelChatRuns state.runs scope.chatThreadId now }

def Thread.step (thread : Thread) : ThreadMove → Thread
  | .start userStamp phaseStamp message workerId runId now =>
    let db := thread.state.db
    let main := appendMessage phaseStamp.1
      (appendMessage userStamp.1 db.main (pendingUserMessage scope userStamp message))
      (runningPhase scope phaseStamp)
    { thread with
      state := ⟨{ db with main }, startChatRun scope thread.state.runs workerId runId now⟩
      turns := thread.turns ++ [⟨thread.events, runId, .empty, .running⟩] }
  | .stream i stamp delta =>
    match thread.turns[i]? with
    | some ⟨log, runId, sink, .running⟩ =>
      let streamed := onModelStreamDelta scope stamp sink thread.state.db delta
      { thread with
        state := { thread.state with db := streamed.2 }
        turns := thread.turns.set i ⟨log, runId, streamed.1, .running⟩ }
    | _ => thread
  | .append event => { thread with events := thread.events ++ [event] }
  | .kernelReturns i status assistantContent =>
    match thread.turns[i]? with
    | some ⟨log, runId, sink, .running⟩ =>
      thread.setStage i ⟨log, runId, sink, .running⟩ (.returned ⟨status, assistantContent, thread.events⟩)
    | _ => thread
  | .kernelFails i stamps stamp error =>
    match thread.turns[i]? with
    | some ⟨log, runId, sink, .running⟩ =>
      { thread.setStage i ⟨log, runId, sink, .running⟩ (.ended "failed") with
        state := failTurn scope stamps stamp thread.state runId error }
    | _ => thread
  | .check i =>
    match thread.turns[i]? with
    | some ⟨log, runId, sink, .returned result⟩ =>
      thread.setStage i ⟨log, runId, sink, .returned result⟩ (.checked result thread.events)
    | _ => thread
  | .finish i stamps now =>
    match thread.turns[i]? with
    | some ⟨log, runId, sink, .checked result events⟩ =>
      if chatThreadWasForceClosed events then
        { thread.setStage i ⟨log, runId, sink, .checked result events⟩ (.ended "cancelled") with
          state := closeTurn scope stamps now thread.state runId "cancelled" }
      else
        { thread.setStage i ⟨log, runId, sink, .checked result events⟩
            (.ended (chatRuntimePhaseStatus result.status)) with
          state := showTurn codec readChatBlobText scope stamps now thread.state runId result }
    | _ => thread
  | .forceClose reason eventId eventSeq createdAtMs stamps now =>
    let event := forceClosedEvent scope (forceCloseReason reason) eventId eventSeq createdAtMs
    { thread with
      events := thread.events ++ [event]
      state := forceClose codec readChatBlobText scope stamps now thread.state event }
  | .hydrate now =>
    { thread with
      state := { thread.state with
        db := hydrateThread codec readChatBlobText scope now thread.state.db thread.events } }

def runThread (moves : List ThreadMove) : Thread :=
  moves.foldl (Thread.step codec readChatBlobText scope) newThread

/-! ## how a turn ends -/

/-- the thread was forced closed after the turn had started -/
def TurnCall.closedIn (turn : TurnCall) (events : List ChatEvent) : Bool :=
  (events.drop turn.log.length).any isForcedClosed

def TurnCall.ownStatus (turn : TurnCall) (result : ChatTurnResult) (events : List ChatEvent) : String :=
  if turn.closedIn events then "cancelled" else chatRuntimePhaseStatus result.status

/-- each event has its message, unless the messages showed it already when its turn came -/
def EventsShown (suppressFinalAnswer : Bool) (now : Nat) (db : ThreadDb) (events : List ChatEvent)
    (after : ThreadDb) : Prop :=
  ∀ old event rest, events = old ++ event :: rest →
    ∀ message, eventMessage codec readChatBlobText scope event = some message →
      (after.shard.get? message.messageId).isSome = true ∨
        shownAlready (projectChatEvents codec readChatBlobText scope suppressFinalAnswer now db old) event
          suppressFinalAnswer message.bodyText = true

/-- the end of the `i`-th turn: its last event, its run and the phase show its own status, and its events are
projected unless it was closed -/
structure EndsOwn (before after : Thread) (i : Nat) (stamps : String → Stamp) (now : Nat) (turn : TurnCall)
    (result : ChatTurnResult) (events : List ChatEvent) : Prop where
  ended : after.turns[i]? = some { turn with stage := .ended (turn.ownStatus result events) }
  run : ∀ run, after.state.runs.get? turn.runId = some run → run.status = turn.ownStatus result events
  phase : ∀ message ∈ listChatMessages after.state.db.main scope.chatThreadId,
    isRuntimePhase message = true → message.status = turn.ownStatus result events
  shown : turn.closedIn events = false →
    EventsShown codec readChatBlobText scope
      (completeTurn scope stamps now before.state turn.runId result).2 now
      (completeTurn scope stamps now before.state turn.runId result).1.db result.events after.state.db
  suppressed : turn.closedIn events = true → after.state.db.shard = before.state.db.shard

/-- the turn that is to end, of those that started after a force-close, was closed itself -/
def ClosedItself (thread : Thread) (i : Nat) : Prop :=
  ∀ turn result events, thread.turns[i]? = some turn → turn.stage = .checked result events →
    chatThreadWasForceClosed turn.log = true → turn.closedIn events = true

section
variable {codec readChatBlobText scope}
variable {thread : Thread} {i : Nat} {turn : TurnCall} {stage : TurnStage} {status : String}
  {stamps : String → Stamp} {now : Nat} {result : ChatTurnResult} {events : List ChatEvent}

/-! ## what a run keeps -/

/-- the phases are stored under their ids, and a log that a turn has read goes on from the one it started with -/
structure Sound (thread : Thread) : Prop where
  keyed : Keyed thread.state.db.main
  grown : ∀ turn ∈ thread.turns, turn.log <+: thread.events
  read : ∀ turn ∈ thread.turns, ∀ result events, turn.stage = .checked result events → turn.log <+: events

theorem keyed_closeTurn {state : ThreadState} {runId : String} (h : Keyed state.db.main) :
    Keyed (closeTurn scope stamps now state runId status).db.main := h.foldl _ _ _

theorem keyed_forceClose {state : ThreadState} {event : ChatEvent} (h : Keyed state.db.main) :
    Keyed (forceClose codec readChatBlobText scope stamps now state event).db.main := by
  have hprojected :
      Keyed (projectOne codec readChatBlobText scope false now state.db event).main := by
    rw [projectOne_main]
    exact h
  exact hprojected.foldl _ _ _

theorem keyed_failTurn {state : ThreadState} {stamp : Stamp} {runId error : String} (h : Keyed state.db.main) :
    Keyed (failTurn scope stamps stamp state runId error).db.main := by
  unfold failTurn
  dsimp only
  rw [appendProjection_shard (.inr (.inr rfl))]
  exact h.foldl _ _ _

theorem onModelStreamDelta_main {stamp : Stamp} {sink : ProductChatStreamSink} {db : ThreadDb}
    {delta : ModelStreamDelta} : (onModelStreamDelta scope stamp sink db delta).2.main = db.main := by
  unfold onModelStreamDelta
  split
  · rfl
  · dsimp only
    split
    · rfl
    · rfl

theorem completeTurn_eq (scope : ThreadScope) (stamps : String → Stamp) (now : Nat) (state : ThreadState)
    (runId : String) (result : ChatTurnResult) :
    ∃ shard, (completeTurn scope stamps now state runId result).1 =
      closeTurn scope stamps now ⟨⟨state.db.main, shard⟩, state.runs⟩ runId
        (chatRuntimePhaseStatus result.status) := by
  have hmain : (completeStreamedChatReasoning scope stamps
      (completeStreamedAssistantAnswer scope stamps state.db result.assistantContent).1).main = state.db.main :=
    completeStreamedChatReasoning_main.trans (completeStreamedAssistantAnswer_main _)
  unfold completeTurn
  dsimp only
  generalize completeStreamedChatReasoning scope stamps
    (completeStreamedAssistantAnswer scope stamps state.db result.assistantContent).1 = db at hmain
  obtain ⟨main, shard⟩ := db
  exact ⟨shard, by rw [← hmain]⟩

theorem showTurn_main (state : ThreadState) (runId : String) :
    (showTurn codec readChatBlobText scope stamps now state runId result).db.main =
      (completeTurn scope stamps now state runId result).1.db.main := projectChatEvents_main _

theorem keyed_showTurn {state : ThreadState} {runId : String} (h : Keyed state.db.main) :
    Keyed (showTurn codec readChatBlobText scope stamps now state runId result).db.main := by
  obtain ⟨shard, hcompleted⟩ := completeTurn_eq scope stamps now state runId result
  rw [showTurn_main, hcompleted]
  exact keyed_closeTurn h

theorem Sound.set (h : Sound thread) {thread' : Thread} {turn' : TurnCall} (hi : thread.turns[i]? = some turn)
    (hkeyed : Keyed thread'.state.db.main) (hevents : thread'.events = thread.events)
    (hturns : thread'.turns = thread.turns.set i turn') (hlog : turn'.log = turn.log)
    (hread : ∀ result events, turn'.stage = .checked result events → turn'.log <+: events) : Sound thread' where
  keyed := hkeyed
  grown := by
    rw [hturns, hevents]
    intro other hother
    rcases List.mem_or_eq_of_mem_set hother with hother | rfl
    · exact h.grown other hother
    · rw [hlog]
      exact h.grown turn (List.mem_of_getElem? hi)
  read := by
    rw [hturns]
    intro other hother
    rcases List.mem_or_eq_of_mem_set hother with hother | rfl
    · exact h.read other hother
    · exact hread

theorem Sound.other (h : Sound thread) {thread' : Thread} (hkeyed : Keyed thread'.state.db.main)
    (hevents : thread.events <+: thread'.events) (hturns : thread'.turns = thread.turns) : Sound thread' where
  keyed := hkeyed
  grown := by
    rw [hturns]
    exact fun turn hturn => (h.grown turn hturn).trans hevents
  read := by
    rw [hturns]
    exact h.read

theorem sound_step (h : Sound thread) (move : ThreadMove) :
    Sound (thread.step codec readChatBlobText scope move) := by
  cases move with
  | start userStamp phaseStamp message workerId runId now =>
    refine ⟨h.keyed.append.append, fun turn hturn => ?_, fun turn hturn => ?_⟩
    · rcases List.mem_append.mp hturn with hturn | hturn
      · exact h.grown turn hturn
      · rw [List.mem_singleton.mp hturn]
        exact List.prefix_rfl
    · rcases List.mem_append.mp hturn with hturn | hturn
      · exact h.read turn hturn
      · rw [List.mem_singleton.mp hturn]
        nofun
  | stream i stamp delta =>
    unfold Thread.step
    dsimp only
    split
    · rename_i log runId sink hi
      exact h.set hi (onModelStreamDelta_main.symm ▸ h.keyed) rfl rfl rfl nofun
    · exact h
  | append event => exact h.other h.keyed (List.prefix_append _ _) rfl
  | kernelReturns i status assistantContent =>
    unfold Thread.step
    dsimp only
    split
    · rename_i log runId sink hi
      exact h.set hi h.keyed rfl rfl rfl nofun
    · exact h
  | kernelFails i stamps stamp error =>
    unfold Thread.step
    dsimp only
    split
    · rename_i log runId sink hi
      exact h.set hi (keyed_failTurn h.keyed) rfl rfl rfl nofun
    · exact h
  | check i =>
    unfold Thread.step
    dsimp only
    split
    · rename_i log runId sink result hi
      refine h.set hi h.keyed rfl rfl rfl fun result' events heq => ?_
      obtain ⟨-, rfl⟩ := TurnStage.checked.inj heq
      exact h.grown ⟨log, runId, sink, .returned result⟩ (List.mem_of_getElem? hi)
    · exact h
  | finish i stamps now =>
    unfold Thread.step
    dsimp only
    split
    · rename_i log runId sink result events hi
      split
      · exact h.set hi (keyed_closeTurn h.keyed) rfl rfl rfl nofun
      · exact h.set hi (keyed_showTurn h.keyed) rfl rfl rfl nofun
    · exact h
  | forceClose reason eventId eventSeq createdAtMs stamps now =>
    exact h.other (keyed_forceClose h.keyed) (List.prefix_append _ _) rfl
  | hydrate now =>
    refine h.other ?_ List.prefix_rfl rfl
    exact (projectChatEvents_main thread.events).symm ▸ h.keyed

theorem sound_run (moves : List ThreadMove) : Sound (runThread codec readChatBlobText scope moves) := by
  unfold runThread
  induction moves using List.reverseRecOn with
  | nil => exact ⟨fun _ _ h => absurd h.symm (Option.some_ne_none _), nofun, nofun⟩
  | append_singleton moves move ih =>
    rw [List.foldl_concat]
    exact sound_step ih move

/-! ## one end -/

theorem chatRuntimePhaseStatus_cases (status : ChatTurnStatus) :
    chatRuntimePhaseStatus status = "completed" ∨ chatRuntimePhaseStatus status = "failed" := by
  cases status with
  | answered | clarifying | needsTask => exact .inl rfl
  | blocked | failed => exact .inr rfl

theorem runTerminalStatus_own (h : status = "completed" ∨ status = "failed" ∨ status = "cancelled") :
    runTerminalStatus status = status := by
  rcases h with rfl | rfl | rfl
  · rfl
  · rfl
  · rfl

theorem closeTurn_run {state : ThreadState} {runId : String} {run : RunRecord}
    (h : runTerminalStatus status = status)
    (hrun : (closeTurn scope stamps now state runId status).runs.get? runId = some run) : run.status = status := by
  unfold closeTurn completeRun updateRunStatus at hrun
  rw [Table.get?_modify, if_pos rfl, h] at hrun
  obtain ⟨old, -, rfl⟩ := Option.map_eq_some_iff.mp hrun
  rfl

theorem closeTurn_phase {state : ThreadState} {runId : String} (h : Keyed state.db.main) :
    ∀ message ∈ listChatMessages (closeTurn scope stamps now state runId status).db.main scope.chatThreadId,
      isRuntimePhase message = true → message.status = status := by
  intro message hmem hphase
  obtain ⟨⟨messageId, hget⟩, hthread⟩ := mem_listChatMessages.mp hmem
  rcases @get?_completeChatRuntimePhase stamps _ messageId h scope.chatThreadId status with
    ⟨m, existing, now, -, -, -, hstored⟩ | ⟨hnone, hsame⟩
  · have hcontent := content_stored existing now (phaseShowing stamps status m)
    rw [← Option.some.inj (hget.symm.trans hstored)] at hcontent
    exact congrArg (fun m : Message => m.status) hcontent
  · rw [hnone message (hsame.symm.trans hget) hthread] at hphase
    exact absurd hphase Bool.false_ne_true

theorem showTurn_run {state : ThreadState} {runId : String} {run : RunRecord}
    (hrun : (showTurn codec readChatBlobText scope stamps now state runId result).runs.get? runId = some run) :
    run.status = chatRuntimePhaseStatus result.status := by
  obtain ⟨shard, hcompleted⟩ := completeTurn_eq scope stamps now state runId result
  have hruns : (showTurn codec readChatBlobText scope stamps now state runId result).runs =
      (completeTurn scope stamps now state runId result).1.runs := rfl
  rw [hruns, hcompleted] at hrun
  exact closeTurn_run (runTerminalStatus_own ((chatRuntimePhaseStatus_cases _).imp_right Or.inl)) hrun

theorem showTurn_phase {state : ThreadState} {runId : String} (h : Keyed state.db.main) :
    ∀ message ∈ listChatMessages
        (showTurn codec readChatBlobText scope stamps now state runId result).db.main scope.chatThreadId,
      isRuntimePhase message = true → message.status = chatRuntimePhaseStatus result.status := by
  obtain ⟨shard, hcompleted⟩ := completeTurn_eq scope stamps now state runId result
  rw [showTurn_main, hcompleted]
  exact closeTurn_phase h

theorem eventsShown_projectChatEvents (suppress : Bool) (db : ThreadDb) (events : List ChatEvent) :
    EventsShown codec readChatBlobText scope suppress now db events
      (projectChatEvents codec readChatBlobText scope suppress now db events) := by
  rintro old event rest rfl message hmessage
  rcases projectOne_cases suppress now (projectChatEvents codec readChatBlobText scope suppress now db old) event with
    ⟨other, hother, -, hdb⟩ | ⟨hshown, -⟩
  · obtain rfl : message = other := Option.some.inj (hmessage.symm.trans hother)
    refine .inl ?_
    unfold projectChatEvents at hdb ⊢
    rw [List.foldl_append, List.foldl_cons, hdb]
    refine projectChatEvents_isSome rest ?_
    rw [get?_appendMessage, if_pos rfl]
    rfl
  · exact .inr (hshown message hmessage)

variable {log : List ChatEvent} {runId : String} {sink : ProductChatStreamSink}

theorem forceClosed_split (h : log <+: events) : chatThreadWasForceClosed events =
    (chatThreadWasForceClosed log || TurnCall.closedIn ⟨log, runId, sink, stage⟩ events) := by
  obtain ⟨rest, rfl⟩ := h
  unfold chatThreadWasForceClosed TurnCall.closedIn
  rw [List.any_append, List.drop_left]

theorem setStage_self {thread' : Thread} (hi : thread.turns[i]? = some turn)
    (h : thread'.turns = (thread.setStage i turn stage).turns) :
    thread'.turns[i]? = some { turn with stage } := by
  rw [h]
  exact List.getElem?_set_self (List.getElem?_eq_some_iff.mp hi).1

theorem finish_endsOwn_iff (h : Sound thread)
    (hi : thread.turns[i]? = some ⟨log, runId, sink, .checked result events⟩) :
    EndsOwn codec readChatBlobText scope thread
        (thread.step codec readChatBlobText scope (.finish i stamps now)) i stamps now
        ⟨log, runId, sink, .checked result events⟩ result events ↔
      (chatThreadWasForceClosed log = true →
        TurnCall.closedIn ⟨log, runId, sink, .checked result events⟩ events = true) := by
  have hlog : log <+: events := h.read _ (List.mem_of_getElem? hi) result events rfl
  have hsplit := @forceClosed_split (.checked result events) events log runId sink hlog
  have hstep : thread.step codec readChatBlobText scope (.finish i stamps now) =
      if chatThreadWasForceClosed events then
        { thread.setStage i ⟨log, runId, sink, .checked result events⟩ (.ended "cancelled") with
          state := closeTurn scope stamps now thread.state runId "cancelled" }
      else
        { thread.setStage i ⟨log, runId, sink, .checked result events⟩
            (.ended (chatRuntimePhaseStatus result.status)) with
          state := showTurn codec readChatBlobText scope stamps now thread.state runId result } := by
    unfold Thread.step
    dsimp only
    rw [hi]
  rw [hstep]
  cases hclosed : TurnCall.closedIn ⟨log, runId, sink, .checked result events⟩ events with
  | true =>
    rw [hclosed, Bool.or_true] at hsplit
    rw [if_pos hsplit]
    have hown : TurnCall.ownStatus ⟨log, runId, sink, .checked result events⟩ result events = "cancelled" :=
      if_pos hclosed
    refine iff_of_true ⟨?_, fun run hrun => ?_, ?_, ?_, fun _ => rfl⟩ fun _ => rfl
    · rw [hown]
      exact setStage_self hi rfl
    · rw [hown]
      exact closeTurn_run rfl hrun
    · rw [hown]
      exact closeTurn_phase h.keyed
    · rw [hclosed]
      nofun
  | false =>
    rw [hclosed, Bool.or_false] at hsplit
    have hown : TurnCall.ownStatus ⟨log, runId, sink, .checked result events⟩ result events =
        chatRuntimePhaseStatus result.status := by
      unfold TurnCall.ownStatus
      rw [hclosed]
      rfl
    rw [hsplit]
    cases hbefore : chatThreadWasForceClosed log with
    | true =>
      rw [if_pos rfl]
      refine iff_of_false (fun hends => ?_) fun hall => absurd (hall rfl) Bool.false_ne_true
      have hended := hends.ended
      rw [hown, setStage_self hi rfl] at hended
      have hstatus := TurnStage.ended.inj (congrArg TurnCall.stage (Option.some.inj hended))
      rcases chatRuntimePhaseStatus_cases result.status with hcompleted | hfailed
      · rw [hcompleted] at hstatus
        exact absurd hstatus (by decide)
      · rw [hfailed] at hstatus
        exact absurd hstatus (by decide)
    | false =>
      rw [if_neg Bool.false_ne_true]
      refine iff_of_true ⟨?_, fun run hrun => ?_, ?_, fun _ => ?_, ?_⟩ nofun
      · rw [hown]
        exact setStage_self hi rfl
      · rw [hown]
        exact showTurn_run hrun
      · rw [hown]
        exact showTurn_phase h.keyed
      · exact eventsShown_projectChatEvents _ _ _
      · rw [hclosed]
        nofun

end

/-- **a turn ends with its own status** and its events shown, in every run, exactly when no turn that was not
closed itself has started after a force-close -/
theorem ends_own_iff (moves : List ThreadMove) :
    (∀ old i stamps now, old ++ [.finish i stamps now] <+: moves → ∀ turn result events,
        (runThread codec readChatBlobText scope old).turns[i]? = some turn →
        turn.stage = .checked result events →
        EndsOwn codec readChatBlobText scope (runThread codec readChatBlobText scope old)
          (runThread codec readChatBlobText scope (old ++ [.finish i stamps now])) i stamps now turn result events) ↔
      ∀ old i stamps now, old ++ [.finish i stamps now] <+: moves →
        ClosedItself (runThread codec readChatBlobText scope old) i := by
  refine forall_congr' fun old => forall_congr' fun i => forall_congr' fun stamps => forall_congr' fun now =>
    imp_congr_right fun _ => ?_
  unfold ClosedItself
  refine forall_congr' fun turn => forall_congr' fun result => forall_congr' fun events =>
    imp_congr_right fun hi => ?_
  obtain ⟨log, runId, sink, stage⟩ := turn
  refine imp_congr_right fun hstage => ?_
  have hstage : stage = .checked result events := hstage
  subst hstage
  have hconcat : runThread codec readChatBlobText scope (old ++ [.finish i stamps now]) =
      (runThread codec readChatBlobText scope old).step codec readChatBlobText scope (.finish i stamps now) :=
    List.foldl_concat _ _ _ _
  rw [hconcat]
  exact finish_endsOwn_iff (sound_run old) hi

/-! ## a turn after a force-close -/

/-- the thread is closed, then a turn starts, which the model answers -/
def movesAfterClose : List ThreadMove :=
  [.forceClose none "chat_evt_1" 1 1000 (fun _ => (1000, 0)) 1000,
    .start (2000, 1) (2000, 2) "And then?" "worker_1" "run_2" 2000,
    .kernelReturns 0 .answered (some "Then it rains."), .check 0]

/-- the answered turn ends as cancelled, and so does its run -/
theorem closed_before : ∃ (codec : Codec) (readChatBlobText : String → Option String) (scope : ThreadScope)
    (turn : TurnCall) (result : ChatTurnResult) (events : List ChatEvent),
    (runThread codec readChatBlobText scope movesAfterClose).turns[0]? = some turn ∧
      turn.stage = .checked result events ∧ turn.ownStatus result events = "completed" ∧
      ((runThread codec readChatBlobText scope
        (movesAfterClose ++ [.finish 0 (fun _ => (3000, 3)) 3000])).turns[0]?.map TurnCall.stage) =
          some (.ended "cancelled") ∧
      ((runThread codec readChatBlobText scope
        (movesAfterClose ++ [.finish 0 (fun _ => (3000, 3)) 3000])).state.runs.get? "run_2").map (·.status) =
          some "cancelled" := by
  refine ⟨⟨fun _ => .error "", fun _ => ""⟩, fun _ => none, ⟨"workspace_1", "container_1", "chat_1"⟩,
    _, _, _, rfl, rfl, ?_, rfl, ?_⟩
  · decide
  · decide

end ChatService

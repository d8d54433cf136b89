import SuperNova.Chat.Log
import SuperNova.Feed.Messages
import SuperNova.Runs.Events
import SuperNova.Stream.Attempts

/-!
# The chat service

The product shows a chat thread as messages: the request and the phase of each turn in the database of the
workspace, and in the projection shard of the thread the events of the kernel's log and the texts that the
model streams.  Its runs are in the registry.

* `listProjectedChatMessagesPage`: the last messages of a thread, of both databases;
* `projectChatEvent`: the message for an event, unless the page shows it already;
* `ProductChatStreamSink`: the message that a model call streams into;
* `completeStreamedAssistantAnswer`, `completeChatRuntimePhase`, and the statements on the runs.
-/

set_option linter.unusedSectionVars false

namespace ChatService

open Chat Feed Runs Stream

/-! ## the databases of a thread -/

/-- whose messages they are -/
structure ThreadScope where
  workspaceUid : String
  containerId : String
  chatThreadId : String

/-- the messages of the workspace and of the projection shard of the thread -/
structure ThreadDb where
  main : Messages
  shard : Messages

/-- the time and the sequence number that a message is made with -/
abbrev Stamp := Nat × Nat

/-- `ORDER BY sort_key ASC` -/
def bySortKey (messages : List Message) : List Message :=
  messages.insertionSort fun a b => a.sortKey.toList ≤ b.sortKey.toList

/-- the last messages by their sort keys, up to the limit of a page -/
def lastMessages (messages : List Message) : List Message :=
  bySortKey ((messages.insertionSort fun a b => b.sortKey.toList ≤ a.sortKey.toList).take
    (normalizeMessagePageLimit none))

/-- one round of `merge_projected_messages` -/
def mergeMessage (deduped : List Message) (message : Message) : List Message :=
  match deduped.find? fun m => m.messageId == message.messageId with
  | some existing =>
    if messageCursorEventId existing.toContainerMessage ≥ messageCursorEventId message.toContainerMessage then
      deduped
    else (deduped.filter fun m => m.messageId != message.messageId) ++ [message]
  | none => deduped ++ [message]

/-- `merge_projected_messages`, without a cursor -/
def mergeMessages (candidates : List Message) : List Message :=
  let messages := (candidates.foldl mergeMessage []).insertionSort fun a b =>
    displayKey a.toContainerMessage ≤ displayKey b.toContainerMessage
  messages.drop (messages.length - normalizeMessagePageLimit none)

def listChatMessages (main : Messages) (chatThreadId : String) : List Message :=
  bySortKey (main.values.filter (·.chatThreadId == some chatThreadId))

/-- the page without a cursor or a limit -/
def listProjectedChatMessagesPage (db : ThreadDb) (chatThreadId : String) : List Message :=
  mergeMessages (lastMessages (db.main.values.filter (·.chatThreadId == some chatThreadId)) ++
    (lastMessages db.shard.values).filter (·.chatThreadId == some chatThreadId))

/-- `append_chat_projection_message` of the service: by its kind a message goes to the shard, or else to the
database of the workspace -/
def ThreadDb.appendProjection (db : ThreadDb) (now : Nat) (message : Message) : ThreadDb :=
  match message.sourceKind with
  | "chat_truth" | "model_stream" | "kernel_bridge" => { db with shard := appendMessage now db.shard message }
  | _ => { db with main := appendMessage now db.main message }

def newMessage (scope : ThreadScope) (stamp : Stamp) (role : MessageRole) (messageType : MessageType)
    (bodyText : Option String) : Message :=
  let id := "msg_" ++ toString stamp.1 ++ "_" ++ toString stamp.2
  { messageId := id
    containerId := scope.containerId
    lane := .chat
    bodyText
    bodyJson := .obj []
    chatThreadId := some scope.chatThreadId
    taskId := none
    sourceSeq := none
    createdAtMs := stamp.1
    updatedAtMs := stamp.1
    sortKey := zeroPadded 20 stamp.1 ++ "_" ++ zeroPadded 10 stamp.2
    workspaceUid := scope.workspaceUid
    role
    messageType
    status := "completed"
    title := none
    cardJson := .obj []
    jobId := none
    sourceKind := "product_runtime"
    sourceRef := id }

/-- `advance_message_cursor` -/
def advanceMessageCursor (stamp : Stamp) (message : Message) : Message :=
  { message with
    updatedAtMs := stamp.1
    bodyJson := match message.bodyJson with
      | .obj fields => .obj (fields.filter (·.1 != "_feed_cursor_seq") ++ [("_feed_cursor_seq", .num stamp.2)])
      | other => other }

/-! ## texts -/

/-- `split_whitespace().join(" ")` -/
def normalizeMessageText (value : String) : String :=
  Text.join " " (((value.toList.splitOnP Text.isWhitespace).filter fun word => !word.isEmpty).map String.ofList)

def messageTextMatches (left right : Option String) : Bool :=
  match left, right with
  | some left, some right => normalizeMessageText left == normalizeMessageText right
  | _, _ => false

def isStreamedAnswer (message : Message) : Bool :=
  message.sourceKind == "model_stream" && message.role == .assistant && message.messageType == .text

def isStreamedReasoning (message : Message) : Bool :=
  message.sourceKind == "model_stream" && message.role == .agent && message.messageType == .reasoning

def hasPendingChatUserMessage (db : ThreadDb) (chatThreadId : String) (bodyText : Option String) : Bool :=
  bodyText.any fun text => (listProjectedChatMessagesPage db chatThreadId).any fun message =>
    message.sourceKind == "product_runtime_request" && message.sourceRef == "chat_turn_pending" &&
      message.bodyText == some text

def hasCompletedStreamAnswer (db : ThreadDb) (chatThreadId : String) (finalContent : Option String) : Bool :=
  finalContent.isSome && (listProjectedChatMessagesPage db chatThreadId).any fun message =>
    isStreamedAnswer message && messageTextMatches message.bodyText finalContent

/-! ## events -/

/-- role, type and title of the message for an event -/
def chatEventHead (eventType : String) : MessageRole × MessageType × String :=
  match eventType with
  | "chat_turn_started" => (.system, .phase, "Chat turn started")
  | "chat_user_message_recorded" => (.user, .text, "User message")
  | "chat_reference_sources_attached" => (.system, .phase, "Reference sources selected")
  | "chat_model_config_bound" => (.system, .phase, "Model config bound")
  | "chat_provider_tool_call_decoded" => (.tool, .toolCall, "Tool call")
  | "chat_provider_tool_result_appended" | "chat_readonly_capability_receipt" =>
    (.tool, .toolResult, "Tool result")
  | "chat_assistant_answered" => (.assistant, .text, "Answer")
  | "chat_needs_task_suggested" => (.assistant, .approval, "Needs task")
  | "chat_clarification_requested" => (.assistant, .text, "Clarification")
  | "chat_turn_blocked" | "chat_turn_failed" => (.system, .error, humanizeEvent eventType)
  | "chat_turn_user_forced_closed" => (.system, .phase, "用户强制关闭")
  | _ => (.system, .phase, humanizeEvent eventType)

variable (codec : Codec) (readChatBlobText : String → Option String) (scope : ThreadScope)

/-- `chat_event_to_message`, with the fields that the feed does not look at -/
def chatEventToMessage (event : ChatEvent) : Option Message :=
  (Chat.chatEventToMessage codec event).map fun base =>
    { base with
      workspaceUid := scope.workspaceUid
      role := (chatEventHead event.eventType).1
      messageType := (chatEventHead event.eventType).2.1
      status := "completed"
      title := some (chatEventHead event.eventType).2.2
      cardJson := .obj []
      jobId := none
      sourceKind := "chat_truth"
      sourceRef := event.eventId }

/-- the blob with the text of an event that has none of its own -/
def blobRefOf (event : ChatEvent) : Option String :=
  match event.eventType with
  | "chat_user_message_recorded" => event.payload.strAt? "message_ref"
  | "chat_assistant_answered" => event.payload.strAt? "assistant_content_ref"
  | _ => none

/-- the message of an event with the text from its blob -/
def eventMessage (event : ChatEvent) : Option Message :=
  (chatEventToMessage codec scope event).map fun message =>
    { message with bodyText := message.bodyText.or ((blobRefOf event).bind readChatBlobText) }

/-- a user message that is pending, or an answer that is suppressed or has been streamed -/
def shownAlready (db : ThreadDb) (event : ChatEvent) (suppressFinalAnswer : Bool) (bodyText : Option String) :
    Bool :=
  (event.eventType == "chat_user_message_recorded" &&
      hasPendingChatUserMessage db event.chatThreadId bodyText) ||
    (event.eventType == "chat_assistant_answered" &&
      (suppressFinalAnswer || hasCompletedStreamAnswer db event.chatThreadId bodyText))

def projectChatEvent (db : ThreadDb) (event : ChatEvent) (suppressFinalAnswer : Bool) : Option Message :=
  (eventMessage codec readChatBlobText scope event).bind fun message =>
    if shownAlready db event suppressFinalAnswer message.bodyText then none else some message

/-- one round of the loops over events -/
def projectOne (suppressFinalAnswer : Bool) (now : Nat) (db : ThreadDb) (event : ChatEvent) : ThreadDb :=
  match projectChatEvent codec readChatBlobText scope db event suppressFinalAnswer with
  | some message => db.appendProjection now message
  | none => db

def projectChatEvents (suppressFinalAnswer : Bool) (now : Nat) (db : ThreadDb) (events : List ChatEvent) :
    ThreadDb :=
  events.foldl (projectOne codec readChatBlobText scope suppressFinalAnswer now) db

/-- `hydrate_thread` with the log that it read -/
def hydrateThread (now : Nat) (db : ThreadDb) (events : List ChatEvent) : ThreadDb :=
  projectChatEvents codec readChatBlobText scope false now db events

/-! ## streams -/

structure ProductChatStreamState where
  answerCreatedAtMs : Nat
  answerText : String
  reasoningCreatedAtMs : Nat
  reasoningText : String

/-- the texts of the model calls of one turn -/
abbrev ProductChatStreamSink := Table String ProductChatStreamState

def streamMessageId (streamKind modelCallId : String) : String :=
  "chat_stream_" ++ streamKind ++ "_" ++ safeMessageComponent scope.chatThreadId ++ "_" ++
    safeMessageComponent modelCallId

/-- a message of a stream -/
def streamMessage (stamp : Stamp) (delta : ModelStreamDelta) (streamKind : String) (role : MessageRole)
    (messageType : MessageType) (title : String) (createdAtMs : Nat) (bodyText : String) : Message :=
  { newMessage scope stamp role messageType (some bodyText) with
    messageId := streamMessageId scope streamKind delta.modelCallId
    createdAtMs
    status := "streaming"
    title := some title
    sourceKind := "model_stream"
    sourceRef := delta.modelCallId
    sourceSeq := some delta.sequence
    bodyJson := .obj [("schema", .str "supernova_model_stream.v1"), ("model_call_id", .str delta.modelCallId),
      ("operation", .str delta.operation), ("stream_kind", .str streamKind),
      ("delta_sequence", .num delta.sequence)] }

def onModelStreamDelta (stamp : Stamp) (sink : ProductChatStreamSink) (db : ThreadDb)
    (delta : ModelStreamDelta) : ProductChatStreamSink × ThreadDb :=
  if delta.delta = "" then (sink, db)
  else
    let state := (sink.get? delta.modelCallId).getD ⟨stamp.1, "", stamp.1, ""⟩
    match delta.kind with
    | .answer =>
      let state := { state with answerText := state.answerText ++ delta.delta }
      let message := streamMessage scope stamp delta "answer" .assistant .text "DeepSeek answer streaming"
        state.answerCreatedAtMs state.answerText
      (sink.insert delta.modelCallId state, { db with shard := appendMessage stamp.1 db.shard message })
    | .reasoning =>
      let state := { state with reasoningText := state.reasoningText ++ delta.delta }
      let message := streamMessage scope stamp delta "reasoning" .agent .reasoning
        "DeepSeek reasoning streaming" state.reasoningCreatedAtMs state.reasoningText
      (sink.insert delta.modelCallId state, { db with shard := appendMessage stamp.1 db.shard message })

-- the stamp of each message that is appended again
variable (stamps : String → Stamp)

def completedAnswer (message : Message) : Message :=
  advanceMessageCursor (stamps message.messageId)
    { message with
      status := "completed"
      title := some "DeepSeek answer"
      bodyJson := .obj [("schema", .str "supernova_model_stream.v1"), ("completed", .bool true),
        ("source_ref", .str message.sourceRef)] }

def completedReasoning (message : Message) : Message :=
  advanceMessageCursor (stamps message.messageId)
    { message with
      status := "completed"
      title := some "DeepSeek reasoning"
      bodyJson := .obj [("schema", .str "supernova_model_stream.v1"), ("completed", .bool true),
        ("stream_kind", .str "reasoning"), ("source_ref", .str message.sourceRef)] }

/-- append the messages of a page again that are of one kind and not completed -/
def completeStreamed (kind : Message → Bool) (completed : Message → Message) (db : ThreadDb) : ThreadDb :=
  ((listProjectedChatMessagesPage db scope.chatThreadId).filter fun message =>
    kind message && message.status != "completed").foldl
      (fun db message => db.appendProjection (stamps message.messageId).1 (completed message)) db

/-- the messages afterwards, and whether one of them is the answer -/
def completeStreamedAssistantAnswer (db : ThreadDb) (finalContent : Option String) : ThreadDb × Bool :=
  (completeStreamed scope stamps isStreamedAnswer (completedAnswer stamps) db,
    (listProjectedChatMessagesPage db scope.chatThreadId).any fun message =>
      isStreamedAnswer message && messageTextMatches message.bodyText finalContent)

def completeStreamedChatReasoning (db : ThreadDb) : ThreadDb :=
  completeStreamed scope stamps isStreamedReasoning (completedReasoning stamps) db

/-! ## phases -/

def isRuntimePhase (message : Message) : Bool :=
  message.sourceKind == "product_runtime_runtime" && message.sourceRef == "chat_turn_running"

/-- the message that a turn starts with -/
def pendingUserMessage (stamp : Stamp) (message : String) : Message :=
  { newMessage scope stamp .user .text (some message) with
    sourceKind := "product_runtime_request"
    sourceRef := "chat_turn_pending" }

def runningPhase (stamp : Stamp) : Message :=
  { newMessage scope stamp .system .phase (some "Kernel ChatRuntime is processing this turn.") with
    status := "streaming"
    title := some "ChatRuntime running"
    sourceKind := "product_runtime_runtime"
    sourceRef := "chat_turn_running" }

def phaseTitle (status : String) : String :=
  match status with
  | "completed" => "ChatRuntime completed"
  | "cancelled" | "canceled" => "ChatRuntime forced closed"
  | "failed" => "ChatRuntime failed"
  | _ => "ChatRuntime status updated"

def phaseShowing (status : String) (message : Message) : Message :=
  advanceMessageCursor (stamps message.messageId)
    { message with
      status
      title := some (phaseTitle status)
      bodyJson := .obj [("schema", .str "supernova_chat_runtime_phase.v1"), ("status", .str status),
        ("source_ref", .str message.sourceRef)] }

def completeChatRuntimePhase (main : Messages) (chatThreadId status : String) : Messages :=
  ((listChatMessages main chatThreadId).filter isRuntimePhase).foldl
    (fun main message => appendMessage (stamps message.messageId).1 main (phaseShowing stamps status message)) main

/-- `ChatTurnStatus` -/
inductive ChatTurnStatus where
  | answered
  | clarifying
  | needsTask
  | blocked
  | failed
  deriving DecidableEq

def chatRuntimePhaseStatus : ChatTurnStatus → String
  | .answered | .clarifying | .needsTask => "completed"
  | .blocked | .failed => "failed"

/-- what the service reads of a `ChatTurnResult` -/
structure ChatTurnResult where
  status : ChatTurnStatus
  assistantContent : Option String
  events : List ChatEvent

def isForcedClosed (event : ChatEvent) : Bool := event.eventType == "chat_turn_user_forced_closed"

/-- `chat_thread_was_force_closed` on the log that it read -/
def chatThreadWasForceClosed (events : List ChatEvent) : Bool := events.any isForcedClosed

/-! ## runs -/

def runTerminalStatus (status : String) : String :=
  match status with
  | "completed" => "completed"
  | "cancelled" | "canceled" => "cancelled"
  | "blocked" => "blocked"
  | "waiting_approval" | "waiting_user" | "running" => status
  | _ => "failed"

def updateRunStatus (runs : Table String RunRecord) (now : Nat) (runId status : String)
    (errorMessage : Option String) : Table String RunRecord :=
  runs.modify runId fun run => { run with status, updatedAtMs := now, errorMessage }

/-- the statement of `complete_run` -/
def completeRun (runs : Table String RunRecord) (now : Nat) (runId status : String) : Table String RunRecord :=
  updateRunStatus runs now runId (runTerminalStatus status) none

/-- the statement of `fail_run` -/
def failRun (runs : Table String RunRecord) (now : Nat) (runId error : String) : Table String RunRecord :=
  updateRunStatus runs now runId "failed" (some error)

/-- `insert_run` for a chat; the worker is set afterwards -/
def chatRun (workerId runId : String) (now : Nat) : RunRecord where
  runId
  workspaceUid := scope.workspaceUid
  containerId := scope.containerId
  runKind := "chat"
  chatThreadId := some scope.chatThreadId
  taskId := none
  jobId := none
  workerId
  status := "queued"
  cancelRequested := false
  heartbeatAtMs := none
  startedAtMs := now
  updatedAtMs := now
  errorMessage := none

/-- `start_chat_run` -/
def startChatRun (runs : Table String RunRecord) (workerId runId : String) (now : Nat) :
    Table String RunRecord :=
  (updateRunStatus (runs.insert runId (chatRun scope workerId runId now)) now runId "running" none).modify runId
    fun run => { run with heartbeatAtMs := some now }

def requestCancelChatRuns (runs : Table String RunRecord) (chatThreadId : String) (now : Nat) :
    Table String RunRecord :=
  runs.mapValues fun run =>
    if run.chatThreadId = some chatThreadId ∧ run.status ∉ ["completed", "failed", "blocked", "cancelled"] then
      { run with cancelRequested := true, status := "cancel_requested", updatedAtMs := now }
    else run

/-- `lower(COALESCE(error_message, '')) LIKE '%database is locked%'` -/
def databaseLocked (errorMessage : Option String) : Bool :=
  Text.contains (Text.toAsciiLowercase (errorMessage.getD "")) "database is locked"

def repairDatabaseLockedChatRuns (runs : Table String RunRecord) (chatThreadId terminalStatus : String)
    (terminalErrorMessage : Option String) (now : Nat) : Table String RunRecord :=
  runs.mapValues fun run =>
    if run.chatThreadId = some chatThreadId ∧ run.status = "failed" ∧ databaseLocked run.errorMessage then
      { run with
        status := terminalStatus
        cancelRequested := false
        updatedAtMs := now
        errorMessage := terminalErrorMessage }
    else run

/-! ## the ends of a turn -/

/-- the messages and the runs that the calls work on -/
structure ThreadState where
  db : ThreadDb
  runs : Table String RunRecord

/-- the phase and the run show how the turn ended -/
def closeTurn (now : Nat) (state : ThreadState) (runId status : String) : ThreadState where
  db := { state.db with main := completeChatRuntimePhase stamps state.db.main scope.chatThreadId status }
  runs := completeRun state.runs now runId status

/-- what `record_turn` does before it projects the events, and whether it suppresses the answer -/
def completeTurn (now : Nat) (state : ThreadState) (runId : String) (result : ChatTurnResult) :
    ThreadState × Bool :=
  let answered := completeStreamedAssistantAnswer scope stamps state.db result.assistantContent
  let db := completeStreamedChatReasoning scope stamps answered.1
  (closeTurn scope stamps now { state with db } runId (chatRuntimePhaseStatus result.status), answered.2)

/-- the end of a turn that the kernel returned and that was not closed -/
def showTurn (now : Nat) (state : ThreadState) (runId : String) (result : ChatTurnResult) : ThreadState :=
  let completed := completeTurn scope stamps now state runId result
  { completed.1 with
    db := projectChatEvents codec readChatBlobText scope completed.2 now completed.1.db result.events }

/-- the error message of a turn that the kernel failed -/
def kernelError (stamp : Stamp) (error : String) : Message :=
  { newMessage scope stamp .system .error (some error) with
    sourceKind := "kernel_bridge"
    sourceRef := "chat_turn" }

def failTurn (stamp : Stamp) (state : ThreadState) (runId error : String) : ThreadState where
  db := ThreadDb.appendProjection
    { state.db with main := completeChatRuntimePhase stamps state.db.main scope.chatThreadId "failed" }
    stamp.1 (kernelError scope stamp error)
  runs := failRun state.runs stamp.1 runId error

/-! ## what the loops keep -/

section
variable {codec readChatBlobText scope stamps}
variable {messages : Messages} {message m : Message} {l : List Message} {messageId : String} {now : Nat}

/-- the messages are stored under their ids -/
def Keyed (messages : Messages) : Prop :=
  ∀ messageId message, messages.get? messageId = some message → message.messageId = messageId

theorem content_stored (existing : Option Message) (now : Nat) (message : Message) :
    (stored existing now message).content = message.content :=
  congrArg Prod.snd (view_stored existing now message)

theorem field_stored {α : Type} {existing : Option Message} {now : Nat} {message : Message} (field : Message → α)
    (hfield : ∀ m : Message, field m.content = field m) : field (stored existing now message) = field message := by
  rw [← hfield, content_stored, hfield]

theorem messageId_stored (existing : Option Message) (now : Nat) (message : Message) :
    (stored existing now message).messageId = message.messageId :=
  field_stored (·.messageId) fun _ => rfl

theorem get?_appendMessage (messages : Messages) (message : Message) (messageId : String) (now : Nat) :
    (appendMessage now messages message).get? messageId =
    if messageId = message.messageId then some (stored (messages.get? message.messageId) now message)
    else messages.get? messageId := by
  rw [appendMessage, Table.get?_insert]

theorem Keyed.append (h : Keyed messages) : Keyed (appendMessage now messages message) := by
  intro messageId stored hstored
  rw [get?_appendMessage] at hstored
  split at hstored
  · rename_i hid
    rw [← Option.some.inj hstored, hid, messageId_stored]
  · exact h messageId stored hstored

theorem Keyed.foldl (h : Keyed messages) (t : Message → Nat) (f : Message → Message) (l : List Message) :
    Keyed (l.foldl (fun messages m => appendMessage (t m) messages (f m)) messages) := by
  induction l generalizing messages with
  | nil => exact h
  | cons m l ih => exact ih h.append

theorem get?_foldl_append (t : Message → Nat) (f : Message → Message)
    (hf : ∀ m, (f m).messageId = m.messageId) (l : List Message) :
    (∃ m ∈ l, m.messageId = messageId ∧ ∃ existing,
        (l.foldl (fun messages m => appendMessage (t m) messages (f m)) messages).get? messageId =
          some (stored existing (t m) (f m))) ∨
      (∀ m ∈ l, m.messageId ≠ messageId) ∧
        (l.foldl (fun messages m => appendMessage (t m) messages (f m)) messages).get? messageId =
          messages.get? messageId := by
  induction l using List.reverseRecOn with
  | nil => exact .inr ⟨fun m hm => absurd hm List.not_mem_nil, congrArg (Table.get? · messageId) List.foldl_nil⟩
  | append_singleton l m ih =>
    rw [List.foldl_concat, get?_appendMessage, hf]
    by_cases hid : messageId = m.messageId
    · rw [if_pos hid]
      refine .inl ⟨m, List.mem_append_right _ List.mem_cons_self, hid.symm, ?_⟩
      exact ⟨_, rfl⟩
    · rw [if_neg hid]
      rcases ih with ⟨m', hm', hid', existing, hget⟩ | ⟨hall, hget⟩
      · exact .inl ⟨m', List.mem_append_left _ hm', hid', existing, hget⟩
      · refine .inr ⟨fun m' hm' => ?_, hget⟩
        rcases List.mem_append.mp hm' with hm' | hm'
        · exact hall m' hm'
        · rw [List.mem_singleton.mp hm']
          exact Ne.symm hid

theorem mem_bySortKey : m ∈ bySortKey l ↔ m ∈ l := List.mem_insertionSort _

theorem mem_listChatMessages {chatThreadId : String} : m ∈ listChatMessages messages chatThreadId ↔
    (∃ messageId, messages.get? messageId = some m) ∧ m.chatThreadId = some chatThreadId := by
  rw [listChatMessages, mem_bySortKey, List.mem_filter, Table.mem_values, beq_iff_eq]

/-- **the phase messages of a thread** all show the status; the other messages stay -/
theorem get?_completeChatRuntimePhase (h : Keyed messages) (chatThreadId status : String) :
    (∃ m existing now, messages.get? messageId = some m ∧ m.chatThreadId = some chatThreadId ∧
        isRuntimePhase m = true ∧
        (completeChatRuntimePhase stamps messages chatThreadId status).get? messageId =
          some (stored existing now (phaseShowing stamps status m))) ∨
      (∀ m, messages.get? messageId = some m → m.chatThreadId = some chatThreadId →
          isRuntimePhase m = false) ∧
        (completeChatRuntimePhase stamps messages chatThreadId status).get? messageId =
          messages.get? messageId := by
  rcases @get?_foldl_append messages messageId (fun m => (stamps m.messageId).1) (phaseShowing stamps status)
    (fun m => rfl) ((listChatMessages messages chatThreadId).filter isRuntimePhase) with
      ⟨m, hm, hid, existing, hget⟩ | ⟨hall, hget⟩
  · rw [List.mem_filter, mem_listChatMessages] at hm
    obtain ⟨⟨⟨key, hkey⟩, hthread⟩, hphase⟩ := hm
    obtain rfl : m.messageId = key := h key m hkey
    exact .inl ⟨m, existing, _, hid ▸ hkey, hthread, hphase, hget⟩
  · refine .inr ⟨fun m hm hthread => ?_, hget⟩
    rw [Bool.eq_false_iff]
    intro hphase
    refine hall m ?_ (h messageId m hm)
    rw [List.mem_filter, mem_listChatMessages]
    exact ⟨⟨⟨messageId, hm⟩, hthread⟩, hphase⟩

end

/-! ## what goes to the shard -/

section
variable {codec readChatBlobText scope stamps}
variable {db : ThreadDb} {event : ChatEvent} {message : Message} {suppress : Bool} {now : Nat}

theorem appendProjection_shard (h : message.sourceKind = "chat_truth" ∨ message.sourceKind = "model_stream" ∨
    message.sourceKind = "kernel_bridge") :
    db.appendProjection now message = { db with shard := appendMessage now db.shard message } := by
  unfold ThreadDb.appendProjection
  rcases h with h | h | h
  · simp only [h]
  · simp only [h]
  · simp only [h]

theorem eventMessage_kind (h : eventMessage codec readChatBlobText scope event = some message) :
    message.sourceKind = "chat_truth" := by
  unfold eventMessage chatEventToMessage at h
  rw [Option.map_map] at h
  obtain ⟨base, -, rfl⟩ := Option.map_eq_some_iff.mp h
  rfl

theorem eventMessage_id (h : eventMessage codec readChatBlobText scope event = some message) :
    message.messageId = messageIdOf event := by
  unfold eventMessage chatEventToMessage Chat.chatEventToMessage at h
  rw [Option.map_map, Option.map_map] at h
  obtain ⟨base, -, rfl⟩ := Option.map_eq_some_iff.mp h
  rfl

theorem projectOne_cases (suppress : Bool) (now : Nat) (db : ThreadDb) (event : ChatEvent) :
    (∃ message, eventMessage codec readChatBlobText scope event = some message ∧
        shownAlready db event suppress message.bodyText = false ∧
        projectOne codec readChatBlobText scope suppress now db event =
          { db with shard := appendMessage now db.shard message }) ∨
      (∀ message, eventMessage codec readChatBlobText scope event = some message →
          shownAlready db event suppress message.bodyText = true) ∧
        projectOne codec readChatBlobText scope suppress now db event = db := by
  unfold projectOne projectChatEvent
  cases hmessage : eventMessage codec readChatBlobText scope event with
  | none =>
    refine .inr ⟨fun message h => ?_, ?_⟩
    · exact absurd h.symm (Option.some_ne_none message)
    · rw [Option.bind_none]
  | some message =>
    rw [Option.bind_some]
    cases hshown : shownAlready db event suppress message.bodyText with
    | true =>
      refine .inr ⟨fun other hother => ?_, ?_⟩
      · rw [← Option.some.inj hother]
        exact hshown
      · rw [if_pos rfl]
    | false =>
      refine .inl ⟨message, rfl, hshown, ?_⟩
      rw [if_neg Bool.false_ne_true]
      exact appendProjection_shard (.inl (eventMessage_kind hmessage))

theorem projectOne_main : (projectOne codec readChatBlobText scope suppress now db event).main = db.main := by
  rcases projectOne_cases suppress now db event with ⟨message, -, -, hdb⟩ | ⟨-, hdb⟩
  · rw [hdb]
  · rw [hdb]

theorem projectChatEvents_main (events : List ChatEvent) :
    (projectChatEvents codec readChatBlobText scope suppress now db events).main = db.main := by
  unfold projectChatEvents
  induction events generalizing db with
  | nil => rfl
  | cons event events ih => exact (ih ..).trans projectOne_main

theorem projectOne_isSome {messageId : String} (h : (db.shard.get? messageId).isSome = true) :
    ((projectOne codec readChatBlobText scope suppress now db event).shard.get? messageId).isSome = true := by
  rcases projectOne_cases suppress now db event with ⟨message, -, -, hdb⟩ | ⟨-, hdb⟩
  · rw [hdb, get?_appendMessage]
    split
    · rfl
    · exact h
  · rw [hdb]
    exact h

theorem projectChatEvents_isSome {messageId : String} (events : List ChatEvent)
    (h : (db.shard.get? messageId).isSome = true) :
    ((projectChatEvents codec readChatBlobText scope suppress now db events).shard.get? messageId).isSome =
      true := by
  unfold projectChatEvents
  induction events generalizing db with
  | nil => exact h
  | cons event events ih => exact ih (projectOne_isSome h)

theorem completeStreamed_eq (kind : Message → Bool) (completed : Message → Message)
    (hkind : ∀ m, kind m = true → m.sourceKind = "model_stream")
    (hcompleted : ∀ m, (completed m).sourceKind = m.sourceKind) :
    completeStreamed scope stamps kind completed db =
      ⟨db.main, ((listProjectedChatMessagesPage db scope.chatThreadId).filter fun message =>
        kind message && message.status != "completed").foldl
          (fun shard message => appendMessage (stamps message.messageId).1 shard (completed message)) db.shard⟩ := by
  unfold completeStreamed
  have hall : ∀ m ∈ (listProjectedChatMessagesPage db scope.chatThreadId).filter fun message =>
      kind message && message.status != "completed", m.sourceKind = "model_stream" := by
    intro m hm
    exact hkind m (Bool.and_eq_true_iff.mp (List.mem_filter.mp hm).2).1
  generalize (listProjectedChatMessagesPage db scope.chatThreadId).filter (fun message =>
    kind message && message.status != "completed") = l at hall ⊢
  induction l generalizing db with
  | nil => rfl
  | cons m l ih =>
    have hm : (completed m).sourceKind = "model_stream" := (hcompleted m).trans (hall m List.mem_cons_self)
    rw [List.foldl_cons, List.foldl_cons, appendProjection_shard (.inr (.inl hm)),
      ih fun m hm => hall m (List.mem_cons_of_mem _ hm)]

theorem isStreamedAnswer_kind (h : isStreamedAnswer message = true) : message.sourceKind = "model_stream" :=
  beq_iff_eq.mp (Bool.and_eq_true_iff.mp (Bool.and_eq_true_iff.mp h).1).1

theorem isStreamedReasoning_kind (h : isStreamedReasoning message = true) :
    message.sourceKind = "model_stream" :=
  beq_iff_eq.mp (Bool.and_eq_true_iff.mp (Bool.and_eq_true_iff.mp h).1).1

theorem completeStreamedAssistantAnswer_main (finalContent : Option String) :
    (completeStreamedAssistantAnswer scope stamps db finalContent).1.main = db.main := by
  unfold completeStreamedAssistantAnswer
  rw [completeStreamed_eq isStreamedAnswer (completedAnswer stamps) (fun _ => isStreamedAnswer_kind) fun _ => rfl]

theorem completeStreamedChatReasoning_main :
    (completeStreamedChatReasoning scope stamps db).main = db.main := by
  unfold completeStreamedChatReasoning
  rw [completeStreamed_eq isStreamedReasoning (completedReasoning stamps) (fun _ => isStreamedReasoning_kind)
    fun _ => rfl]

end

end ChatService

import SuperNova.Feed.Merge
import SuperNova.Lib.Text

/-!
# The log of a chat

Events are appended to the log of a chat thread by any number of connections, each with a statement that
selects the next sequence number, one that inserts the event and one that touches the thread.

* `ChatDb.step`: one statement of one connection, or its failure;
* `chatEventToMessage`, `projectEvents`: the messages of a log.
-/

namespace Chat

open Feed

/-! ## tables -/

structure ChatEvent where
  eventId : String
  chatThreadId : String
  containerId : String
  eventSeq : Nat
  eventType : String
  payload : Json
  blobRef : Option String
  createdAtMs : Int

structure ChatThread where
  chatThreadId : String
  containerId : String
  title : Option String
  status : String
  createdAtMs : Int
  updatedAtMs : Int

/-- the arguments of `append_event` -/
structure AppendRequest where
  chatThreadId : String
  containerId : String
  eventType : String
  payload : Json
  blobRef : Option String

/-- where a call of `append_event` is; `seen` is the number of events of the thread when it selected -/
inductive AppendPhase where
  | connected
  | selected (nextSeq seen : Nat)
  | inserted (event : ChatEvent)
  | returned (event : ChatEvent)
  | failed

structure Appender where
  request : AppendRequest
  phase : AppendPhase

structure ChatDb where
  events : List ChatEvent
  threads : List ChatThread
  appenders : List Appender

def ChatDb.eventsOf (db : ChatDb) (chatThreadId : String) : List ChatEvent :=
  db.events.filter (·.chatThreadId == chatThreadId)

/-- `SELECT COALESCE(MAX(event_seq), 0) + 1` -/
def ChatDb.nextSeq (db : ChatDb) (chatThreadId : String) : Nat :=
  ((db.eventsOf chatThreadId).map (·.eventSeq)).foldr max 0 + 1

/-- `read_events` -/
def ChatDb.readEvents (db : ChatDb) (chatThreadId : String) : List ChatEvent :=
  (db.eventsOf chatThreadId).insertionSort fun a b => a.eventSeq ≤ b.eventSeq

/-! ## statements -/

inductive Statement where
  | connect (request : AppendRequest)
  | selectSeq (i : Nat)
  | insertEvent (i : Nat) (eventId : String) (nowMs : Int)
  | updateThread (i : Nat)
  | fails (i : Nat)

def ChatDb.setPhase (db : ChatDb) (i : Nat) (appender : Appender) (phase : AppendPhase) : ChatDb :=
  { db with appenders := db.appenders.set i { appender with phase } }

def eventOf (request : AppendRequest) (eventSeq : Nat) (eventId : String) (nowMs : Int) : ChatEvent where
  eventId
  chatThreadId := request.chatThreadId
  containerId := request.containerId
  eventSeq
  eventType := request.eventType
  payload := request.payload
  blobRef := request.blobRef
  createdAtMs := nowMs

/-- one statement; a statement that is not the next one of its connection does nothing -/
def ChatDb.step (db : ChatDb) : Statement → ChatDb
  | .connect request => { db with appenders := db.appenders ++ [⟨request, .connected⟩] }
  | .selectSeq i =>
    match db.appenders[i]? with
    | some ⟨request, .connected⟩ =>
      db.setPhase i ⟨request, .connected⟩
        (.selected (db.nextSeq request.chatThreadId) (db.eventsOf request.chatThreadId).length)
    | _ => db
  | .insertEvent i eventId nowMs =>
    match db.appenders[i]? with
    | some ⟨request, .selected eventSeq seen⟩ =>
      -- `event_id` is the primary key
      if db.events.any (·.eventId == eventId) then db.setPhase i ⟨request, .selected eventSeq seen⟩ .failed
      else
        let event := eventOf request eventSeq eventId nowMs
        { db.setPhase i ⟨request, .selected eventSeq seen⟩ (.inserted event) with
          events := db.events ++ [event] }
    | _ => db
  | .updateThread i =>
    match db.appenders[i]? with
    | some ⟨request, .inserted event⟩ =>
      { db.setPhase i ⟨request, .inserted event⟩ (.returned event) with
        threads := db.threads.map fun thread =>
          if thread.chatThreadId = request.chatThreadId then { thread with updatedAtMs := event.createdAtMs }
          else thread }
    | _ => db
  | .fails i =>
    match db.appenders[i]? with
    | some ⟨_, .returned _⟩ => db
    | some appender => db.setPhase i appender .failed
    | none => db

def ChatDb.run (db : ChatDb) (statements : List Statement) : ChatDb := statements.foldl ChatDb.step db

/-! ## messages -/

def humanizeEvent (value : String) : String := Text.replaceChar '_' ' ' value

/-- `string_at` -/
def stringAt : Json → List String → Option String
  | v, [] => v.asStr?
  | v, segment :: path => (v.get? segment).bind (stringAt · path)

/-- `reason_value` -/
def reasonValue (codec : Codec) (payload : Json) : Option String :=
  (stringAt payload ["reason"]).or <| (stringAt payload ["message"]).or <|
  (stringAt payload ["error"]).or <| (stringAt payload ["error", "message"]).or <|
  (stringAt payload ["data", "reason"]).or <| (stringAt payload ["data", "message"]).or <|
  (stringAt payload ["data", "error"]).or <| (stringAt payload ["data", "error", "message"]).or <|
  ((payload.get? "data").bind (·.get? "invalid_fields")).map fun v => "invalid fields: " ++ codec.render v

/-- `model_config_summary` -/
def modelConfigSummary (payload : Json) : Option String :=
  (payload.get? "effective_config").map fun config =>
    let model := (config.strAt? "model_id").getD "model"
    let reasoning := (stringAt config ["thinking", "reasoning_effort"]).getD "reasoning"
    let maxOutput := (((config.get? "max_output_tokens").bind Json.asNat?).map toString).getD "default"
    "Model config bound: " ++ model ++ ", " ++ reasoning ++ ", max output " ++ maxOutput

/-- `tool_name` -/
def toolName (payload : Json) : Option String :=
  ((payload.get? "tool_name").or (payload.get? "capability_id")).bind Json.asStr?

/-- `suggested_task_text` -/
def suggestedTaskText (payload : Json) : Option String :=
  (stringAt payload ["suggested_task", "goal"]).map ("Suggested Task: " ++ ·)

def forceClosedText (payload : Json) : String :=
  match payload.strAt? "reason" with
  | some reason => "用户已强制关闭该 CHAT。" ++ reason
  | none => "用户已强制关闭该 CHAT。"

/-- the text of the message for an event; events of other types have no message -/
def bodyTextOf (codec : Codec) (eventType : String) (payload : Json) : Option (Option String) :=
  match eventType with
  | "chat_turn_started" => some (some "Chat turn started")
  | "chat_user_message_recorded" => some none
  | "chat_reference_sources_attached" =>
    some (some "Reference source guidance attached. Contents are not preloaded.")
  | "chat_model_config_bound" => some (some ((modelConfigSummary payload).getD "Model config bound"))
  | "chat_context_pack_loaded" | "chat_context_window_checked" => some (some (humanizeEvent eventType))
  | "chat_provider_tool_call_decoded" => some (some ((toolName payload).getD "Tool call"))
  | "chat_provider_tool_result_appended" | "chat_readonly_capability_receipt" =>
    some (some "Tool result received")
  | "chat_assistant_answered" => some none
  | "chat_needs_task_suggested" => some (suggestedTaskText payload)
  | "chat_clarification_requested" => some (payload.strAt? "question")
  | "chat_turn_blocked" | "chat_turn_failed" => some (reasonValue codec payload)
  | "chat_turn_user_forced_closed" => some (some (forceClosedText payload))
  | _ => none

/-- `format!("\x7b:0width\x7d")` -/
def zeroPadded (width n : Nat) : String := String.ofList ((toString n).toList.leftpad width '0')

def messageIdOf (event : ChatEvent) : String :=
  "chat_evt_" ++ event.chatThreadId ++ "_" ++ toString event.eventSeq

def chatEventToMessage (codec : Codec) (event : ChatEvent) : Option ContainerMessage :=
  (bodyTextOf codec event.eventType event.payload).map fun bodyText =>
    { messageId := messageIdOf event
      containerId := event.containerId
      lane := .chat
      bodyText
      bodyJson := event.payload
      chatThreadId := some event.chatThreadId
      taskId := none
      sourceSeq := some event.eventSeq
      createdAtMs := event.createdAtMs.toNat
      updatedAtMs := event.createdAtMs.toNat
      sortKey := zeroPadded 20 event.createdAtMs.toNat ++ "_" ++ zeroPadded 10 event.eventSeq }

/-- the messages of a log, each appended to the table of messages -/
def projectEvents (codec : Codec) (nowMs : Nat) (events : List ChatEvent) : MessageTable :=
  (events.filterMap (chatEventToMessage codec)).foldl
    (fun table message => table.put (storedRow (table.row? message.messageId) nowMs message)) .empty

end Chat

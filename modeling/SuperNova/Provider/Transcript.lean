import Mathlib.Algebra.GroupWithZero.Nat
import SuperNova.Lib.Answers
import SuperNova.Lib.Io
import SuperNova.Provider.Tools

/-!
# The provider transcript

The messages that a provider is sent with every request, and the events of the process truth from
which the pending tool calls are found again.  A tool result is recorded only for a pending call,
and it completes every pending call with its id.

* `marks t`, `history t`: the requests and answers in the messages that are sent, and in all the
  messages ever recorded;
* `Recorded t t' log`: what the recorders do to both and to the pending ids.
-/

namespace Provider

open Answers Io

/-! ## state -/

structure ProviderTranscriptMessage where
  role : String
  content : Option String
  reasoningContent : Option String
  toolCalls : List ProviderToolCall
  toolCallId : Option String

inductive ToolCallStatus where
  | requested
  | completed
  deriving DecidableEq

structure ProviderToolCallState where
  providerToolCallId : String
  providerName : Option String
  status : ToolCallStatus

/-- the events about the transcript; a file that an event names is given by its content -/
inductive TranscriptEvent where
  | transcriptCreated
  | transcriptAppended (message : ProviderTranscriptMessage)
  | transcriptCompacted
  | toolCallRequested (id : String) (name : Option String)
  | toolResultRecorded (id : String)

/-- the file of messages that the last event names, and the events -/
structure Transcript where
  messages : List ProviderTranscriptMessage
  events : List TranscriptEvent

def Transcript.empty : Transcript := ⟨[], []⟩

abbrev TranscriptM (α : Type) := EStateM String Transcript α

/-! ## replay -/

/-- a result completes every call with its id -/
def completeCall (id : String) (item : ProviderToolCallState) : ProviderToolCallState :=
  if item.providerToolCallId = id then { item with status := .completed } else item

/-- what one event does to the calls found so far -/
def replayEvent (calls : List ProviderToolCallState) : TranscriptEvent → List ProviderToolCallState
  | .toolCallRequested id name => calls ++ [⟨id, name, .requested⟩]
  | .toolResultRecorded id => calls.map (completeCall id)
  | _ => calls

def TranscriptEvent.namesMessages : TranscriptEvent → Bool
  | .transcriptAppended _ | .transcriptCompacted => true
  | _ => false

def pendingToolCalls (events : List TranscriptEvent) : List ProviderToolCallState :=
  (events.foldl replayEvent []).filter (·.status ≠ .completed)

/-- `replay_provider_transcript_state_from_events`: the pending calls of a transcript that exists -/
def replayProviderTranscriptState (events : List TranscriptEvent) :
    Option (List ProviderToolCallState) :=
  if events.any (·.namesMessages) then some (pendingToolCalls events) else none

def readMessagesFromState (t : Transcript) : List ProviderTranscriptMessage :=
  match replayProviderTranscriptState t.events with
  | some _ => t.messages
  | none => []

/-! ## size -/

def compactMessageThreshold : Nat := 64

def compactTokenThreshold : Nat := 160000

def estimateTextTokensConservative (text : String) : Nat :=
  if text = "" then 0 else max text.length ((text.utf8ByteSize + 3) / 4)

def ProviderToolCall.toJson (call : ProviderToolCall) : Json :=
  .obj [("id", .str call.id), ("type", .str call.type), ("function", call.function)]

def ProviderTranscriptMessage.toJson (message : ProviderTranscriptMessage) : Json :=
  .obj ([("role", .str message.role), ("content", Json.ofText? message.content)] ++
    message.reasoningContent.toList.map (fun text => ("reasoning_content", .str text)) ++
    (if message.toolCalls = [] then [] else [("tool_calls", .arr (message.toolCalls.map (·.toJson)))])
    ++ message.toolCallId.toList.map fun id => ("tool_call_id", .str id))

def estimateMessagesTokens (codec : Codec) (messages : List ProviderTranscriptMessage) : Nat :=
  (messages.map fun m => estimateTextTokensConservative (codec.render m.toJson)).sum

def compactReasoning (message : ProviderTranscriptMessage) : ProviderTranscriptMessage :=
  if message.role = "assistant" ∧ message.toolCalls = [] ∧ message.reasoningContent.isSome then
    { message with
      reasoningContent := some "[compacted: non-tool-call reasoning omitted]" }
  else message

def compactNonMandatoryReasoning (messages : List ProviderTranscriptMessage) :
    List ProviderTranscriptMessage :=
  messages.map compactReasoning

/-! ## recording -/

/-- one more message, compacted when there are many or they are long; the events before the file is
written and after -/
def Transcript.append (codec : Codec) (t : Transcript) (message : ProviderTranscriptMessage)
    (before after : List TranscriptEvent) : Transcript :=
  let messages := readMessagesFromState t ++ [message]
  if messages.length > compactMessageThreshold ∨
      estimateMessagesTokens codec messages > compactTokenThreshold then
    ⟨compactNonMandatoryReasoning messages, t.events ++ before ++ .transcriptCompacted :: after⟩
  else ⟨messages, t.events ++ before ++ after⟩

/-- the event of a transcript that does not exist yet -/
def createdEvent (t : Transcript) : List TranscriptEvent :=
  match replayProviderTranscriptState t.events with
  | some _ => []
  | none => [.transcriptCreated]

/-- the message of a response; a response with nothing in it has none -/
def assistantOf (response : ModelProviderResponse) : Option ProviderAssistantMessage :=
  response.assistantMessage.or <|
    if response.outputText = "" ∧ response.reasoningContent = none ∧ response.toolCalls = [] then
      none
    else some ⟨"assistant", if response.outputText = "" then none else some response.outputText,
      response.reasoningContent, response.toolCalls⟩

def assistantMessage (assistant : ProviderAssistantMessage) : ProviderTranscriptMessage :=
  ⟨"assistant", assistant.content, assistant.reasoningContent, assistant.toolCalls, none⟩

def requestedEvent (call : ProviderToolCall) : TranscriptEvent :=
  .toolCallRequested call.id (call.function.strAt? "name")

def recordProviderAssistantResponse (codec : Codec) (response : ModelProviderResponse) :
    TranscriptM Unit :=
  match assistantOf response with
  | none => pure ()
  | some assistant => modify fun t =>
      t.append codec (assistantMessage assistant) (createdEvent t)
        (.transcriptAppended (assistantMessage assistant) ::
          assistant.toolCalls.map requestedEvent)

def providerToolResultContent (codec : Codec) : Json → String
  | .str text => text
  | other => codec.render other

/-- `record_provider_tool_result_with_metadata` -/
def recordProviderToolResult (codec : Codec) (providerToolCallId : String) (toolResult : Json) :
    TranscriptM Unit := do
  let t ← get
  match replayProviderTranscriptState t.events with
  | none => throw "provider transcript does not exist for tool result"
  | some pending =>
    if pending.any (·.providerToolCallId == providerToolCallId) then
      let message : ProviderTranscriptMessage :=
        ⟨"tool", some (providerToolResultContent codec toolResult), none, [],
          some providerToolCallId⟩
      set (t.append codec message []
        [.toolResultRecorded providerToolCallId, .transcriptAppended message])
    else throw "provider tool result does not match a pending tool call"

/-- the message of a user, or of the runtime in the user's place -/
def userMessage (content : String) : ProviderTranscriptMessage := ⟨"user", some content, none, [], none⟩

def recordProviderUserMessage (codec : Codec) (content : String) : TranscriptM Unit :=
  modify fun t => t.append codec (userMessage content) (createdEvent t)
    [.transcriptAppended (userMessage content)]

def recordProviderUserControlMessage (codec : Codec) (controlMessage : Json) :
    TranscriptM Unit := do
  let t ← get
  match replayProviderTranscriptState t.events with
  | none => pure ()
  | some _ =>
    let message := userMessage (providerToolResultContent codec controlMessage)
    set (t.append codec message [] [.transcriptAppended message])

/-- `replace_provider_visible_transcript_with_summary`, for a given start of the live suffix -/
def replaceWithSummary (summary : String) (liveSuffixStart : Nat) : TranscriptM Unit := do
  let t ← get
  match replayProviderTranscriptState t.events with
  | none => pure ()
  | some _ =>
    if t.messages = [] then pure ()
    else set (⟨userMessage summary :: t.messages.drop liveSuffixStart,
      t.events ++ [.transcriptCompacted]⟩ : Transcript)


/-! ## requests and answers -/

def markOf (message : ProviderTranscriptMessage) : Mark String :=
  if message.role = "assistant" then
    if message.toolCalls = [] then .other else .request (message.toolCalls.map (·.id))
  else
    match message.toolCallId with
    | some id => if message.role = "tool" then .answer id else .other
    | none => .other

/-- the requests and answers in the messages that are sent -/
def marks (t : Transcript) : List (Mark String) := (readMessagesFromState t).map markOf

def TranscriptEvent.appended? : TranscriptEvent → Option ProviderTranscriptMessage
  | .transcriptAppended message => some message
  | _ => none

def recorded (events : List TranscriptEvent) : List (Mark String) :=
  (events.filterMap (·.appended?)).map markOf

/-- the requests and answers in all the messages ever recorded -/
def history (t : Transcript) : List (Mark String) := recorded t.events

def pendingIds (t : Transcript) : List String :=
  (pendingToolCalls t.events).map (·.providerToolCallId)

@[simp] theorem recorded_append (a b : List TranscriptEvent) :
    recorded (a ++ b) = recorded a ++ recorded b := by
  simp [recorded]

@[simp] theorem markOf_compactReasoning (message : ProviderTranscriptMessage) :
    markOf (compactReasoning message) = markOf message := by
  unfold compactReasoning
  split <;> rfl

@[simp] theorem markOf_userMessage (content : String) : markOf (userMessage content) = .other := by
  simp [markOf, userMessage]

/-! ## events and pending calls -/

def idsOf (calls : List ProviderToolCallState) : List String :=
  (calls.filter (·.status ≠ .completed)).map (·.providerToolCallId)

theorem idsOf_append (a b : List ProviderToolCallState) : idsOf (a ++ b) = idsOf a ++ idsOf b := by
  simp [idsOf]

theorem pendingIds_eq (t : Transcript) : pendingIds t = idsOf (t.events.foldl replayEvent []) := rfl

theorem idsOf_cons (item : ProviderToolCallState) (calls : List ProviderToolCallState) :
    idsOf (item :: calls)
      = if item.status = .completed then idsOf calls
        else item.providerToolCallId :: idsOf calls := by
  by_cases h : item.status = .completed <;> simp [idsOf, h]

theorem idsOf_complete (calls : List ProviderToolCallState) (id : String) :
    idsOf (calls.map (completeCall id)) = (idsOf calls).filter (· ≠ id) := by
  induction calls with
  | nil => rfl
  | cons item calls ih =>
    rw [List.map_cons, idsOf_cons, idsOf_cons, ih]
    by_cases hid : item.providerToolCallId = id <;> by_cases hst : item.status = .completed <;>
      simp [completeCall, hid, hst]

theorem idsOf_replay_requested (calls : List ProviderToolCall) :
    ∀ before, idsOf ((calls.map requestedEvent).foldl replayEvent before)
      = idsOf before ++ calls.map (·.id) := by
  induction calls with
  | nil => exact fun before => (List.append_nil _).symm
  | cons call calls ih =>
    intro before
    rw [List.map_cons, List.foldl_cons, ih]
    simp only [requestedEvent, replayEvent, idsOf_append, List.map_cons, List.append_assoc]
    rfl

/-- the events that say nothing about tool calls -/
def TranscriptEvent.neutral : TranscriptEvent → Prop
  | .toolCallRequested _ _ | .toolResultRecorded _ => False
  | _ => True

theorem replay_neutral {events : List TranscriptEvent} (h : ∀ e ∈ events, e.neutral) :
    ∀ calls, events.foldl replayEvent calls = calls := by
  induction events with
  | nil => exact fun calls => rfl
  | cons e events ih =>
    intro calls
    have he : replayEvent calls e = calls := by
      have := h e List.mem_cons_self
      cases e with
      | toolCallRequested id name => exact this.elim
      | toolResultRecorded id => exact this.elim
      | _ => rfl
    rw [List.foldl_cons, he, ih fun e' h' => h e' (List.mem_cons_of_mem e h')]

/-! ## what the recorders do -/

/-- an event names the file of messages -/
def Transcript.Exists (t : Transcript) : Prop := t.events.any (·.namesMessages) = true

/-- one more message, with mark `m`; these ids are pending then -/
structure Recorded (t t' : Transcript) (m : Mark String) (pending : List String) : Prop where
  isThere : t'.Exists
  marks : marks t' = marks t ++ [m]
  history : history t' = history t ++ [m]
  pending : pendingIds t' = pending

theorem replay_of_exists {t : Transcript} (h : t.Exists) :
    replayProviderTranscriptState t.events = some (pendingToolCalls t.events) := if_pos h

theorem replay_of_not_exists {t : Transcript} (h : ¬ t.Exists) :
    replayProviderTranscriptState t.events = none := if_neg h

theorem readMessages_of_exists {t : Transcript} (h : t.Exists) :
    readMessagesFromState t = t.messages := by
  rw [readMessagesFromState, replay_of_exists h]

theorem append_events (codec : Codec) (t : Transcript) (message : ProviderTranscriptMessage)
    (before after : List TranscriptEvent) :
    ∃ compacted, (∀ e ∈ compacted, e = .transcriptCompacted) ∧
      (t.append codec message before after).events = t.events ++ before ++ (compacted ++ after) := by
  unfold Transcript.append
  dsimp only
  split
  · exact ⟨[.transcriptCompacted], fun e he => List.mem_singleton.mp he, rfl⟩
  · exact ⟨[], fun e he => absurd he List.not_mem_nil, rfl⟩

theorem append_messages (codec : Codec) (t : Transcript) (message : ProviderTranscriptMessage)
    (before after : List TranscriptEvent) :
    (t.append codec message before after).messages.map markOf = marks t ++ [markOf message] := by
  unfold Transcript.append
  dsimp only
  split
  · show (compactNonMandatoryReasoning _).map markOf = _
    have hf : markOf ∘ compactReasoning = markOf := funext markOf_compactReasoning
    rw [compactNonMandatoryReasoning, List.map_map, hf, List.map_append]
    rfl
  · show (readMessagesFromState t ++ [message]).map markOf = _
    rw [List.map_append]
    rfl

theorem append_recorded (codec : Codec) (t : Transcript) {message : ProviderTranscriptMessage}
    {before after : List TranscriptEvent} (hb : ∀ e ∈ before, e = .transcriptCreated)
    (hm : .transcriptAppended message ∈ after) (hr : recorded after = [markOf message]) :
    Recorded t (t.append codec message before after) (markOf message)
      (idsOf (after.foldl replayEvent (t.events.foldl replayEvent []))) := by
  obtain ⟨compacted, hc, he⟩ := append_events codec t message before after
  have hn : ∀ e ∈ before ++ compacted, e.neutral := by
    intro e h
    rcases List.mem_append.mp h with h | h
    · exact (hb e h).symm ▸ trivial
    · exact (hc e h).symm ▸ trivial
  have hs : recorded (before ++ compacted) = [] := by
    refine List.map_eq_nil_iff.mpr (List.filterMap_eq_nil_iff.mpr fun e h => ?_)
    rcases List.mem_append.mp h with h | h
    · rw [hb e h]
      rfl
    · rw [hc e h]
      rfl
  have he' : (t.append codec message before after).events
      = t.events ++ ((before ++ compacted) ++ after) := by
    rw [he]
    simp only [List.append_assoc]
  have hthere : (t.append codec message before after).Exists := by
    rw [Transcript.Exists, he', List.any_append, List.any_append,
      List.any_eq_true.mpr ⟨_, hm, rfl⟩, Bool.or_true, Bool.or_true]
  refine ⟨hthere, ?_, ?_, ?_⟩
  · rw [Provider.marks, readMessages_of_exists hthere, append_messages]
  · rw [Provider.history, he', recorded_append, recorded_append, hs, hr, List.nil_append]
    rfl
  · rw [pendingIds_eq, he', List.foldl_append, List.foldl_append, replay_neutral hn]

theorem createdEvent_eq (t : Transcript) : ∀ e ∈ createdEvent t, e = .transcriptCreated := by
  unfold createdEvent
  split
  · exact fun e h => absurd h List.not_mem_nil
  · exact fun e h => List.mem_singleton.mp h

theorem recorded_requested (calls : List ProviderToolCall) :
    recorded (calls.map requestedEvent) = [] := by
  refine List.map_eq_nil_iff.mpr (List.filterMap_eq_nil_iff.mpr fun e h => ?_)
  obtain ⟨call, -, rfl⟩ := List.mem_map.mp h
  rfl

/-- the mark of a response that has a message -/
def requestMark (calls : List ProviderToolCall) : Mark String :=
  if calls = [] then .other else .request (calls.map (·.id))

theorem recordProviderAssistantResponse_spec (codec : Codec) {response : ModelProviderResponse}
    {assistant : ProviderAssistantMessage} (h : assistantOf response = some assistant)
    (t : Transcript) :
    ∃ t', Ok (recordProviderAssistantResponse codec response) t () t' ∧
      Recorded t t' (requestMark assistant.toolCalls)
        (pendingIds t ++ assistant.toolCalls.map (·.id)) := by
  refine ⟨_, by rw [recordProviderAssistantResponse, h]; exact modify_apply _ t, ?_⟩
  have hr : recorded (.transcriptAppended (assistantMessage assistant) ::
      assistant.toolCalls.map requestedEvent) = [markOf (assistantMessage assistant)] := by
    rw [← List.singleton_append, recorded_append, recorded_requested]
    rfl
  have h := append_recorded codec t (createdEvent_eq t) List.mem_cons_self hr
  rw [List.foldl_cons, idsOf_replay_requested] at h
  exact h

theorem mem_pending_iff (t : Transcript) (id : String) :
    (pendingToolCalls t.events).any (·.providerToolCallId == id) = true ↔ id ∈ pendingIds t := by
  simp [pendingIds, List.any_eq_true]

theorem recordProviderToolResult_ok (codec : Codec) {t : Transcript} {id : String} (result : Json)
    (he : t.Exists) (hp : id ∈ pendingIds t) :
    ∃ t', Ok (recordProviderToolResult codec id result) t () t' ∧
      Recorded t t' (.answer id) ((pendingIds t).filter (· ≠ id)) := by
  have hrun : ∃ message, Ok (recordProviderToolResult codec id result) t ()
      (t.append codec message [] [.toolResultRecorded id, .transcriptAppended message]) ∧
      markOf message = .answer id := by
    refine ⟨⟨"tool", some (providerToolResultContent codec result), none, [], some id⟩, ?_, rfl⟩
    rw [recordProviderToolResult, Ok, bind_of_ok (get_apply t), replay_of_exists he]
    dsimp only
    rw [if_pos ((mem_pending_iff t id).mpr hp)]
    rfl
  obtain ⟨message, hok, hmark⟩ := hrun
  have h := @append_recorded codec t message [] [.toolResultRecorded id, .transcriptAppended message]
    (fun e h => absurd h List.not_mem_nil) (List.mem_cons_of_mem _ List.mem_cons_self) rfl
  rw [hmark] at h
  refine ⟨_, hok, ?_⟩
  rw [pendingIds_eq, ← idsOf_complete]
  exact h

theorem recordProviderToolResult_err (codec : Codec) {t : Transcript} {id : String} (result : Json)
    (he : t.Exists) (hp : id ∉ pendingIds t) :
    Err (recordProviderToolResult codec id result) t
      "provider tool result does not match a pending tool call" t := by
  have hany : ¬ (pendingToolCalls t.events).any (·.providerToolCallId == id) = true :=
    fun h => hp ((mem_pending_iff t id).mp h)
  rw [recordProviderToolResult, Err, bind_of_ok (get_apply t), replay_of_exists he]
  dsimp only
  rw [if_neg hany]
  rfl

theorem recordProviderUserMessage_spec (codec : Codec) (content : String) (t : Transcript) :
    ∃ t', Ok (recordProviderUserMessage codec content) t () t' ∧
      Recorded t t' .other (pendingIds t) := by
  refine ⟨_, modify_apply _ t, ?_⟩
  have h := @append_recorded codec t (userMessage content) _
    [.transcriptAppended (userMessage content)] (createdEvent_eq t) (List.mem_singleton_self _) rfl
  rwa [markOf_userMessage] at h

theorem recordProviderUserControlMessage_spec (codec : Codec) (message : Json) {t : Transcript}
    (he : t.Exists) :
    ∃ t', Ok (recordProviderUserControlMessage codec message) t () t' ∧
      Recorded t t' .other (pendingIds t) := by
  have h := @append_recorded codec t (userMessage (providerToolResultContent codec message)) []
    [.transcriptAppended (userMessage (providerToolResultContent codec message))]
    (fun e h => absurd h List.not_mem_nil) (List.mem_singleton_self _) rfl
  rw [markOf_userMessage] at h
  refine ⟨_, ?_, h⟩
  rw [recordProviderUserControlMessage, Ok, bind_of_ok (get_apply t), replay_of_exists he]
  rfl

theorem calls_of_some (r : Response) {assistant : ProviderAssistantMessage}
    (h : assistantOf r.response = some assistant) :
    assistant.toolCalls = r.response.toolCalls := by
  unfold assistantOf at h
  cases hm : r.response.assistantMessage with
  | some message =>
    rw [hm] at h
    cases h
    exact r.calls_eq _ hm
  | none =>
    rw [hm, Option.none_or] at h
    split at h
    · cases h
    · cases h
      rfl

theorem calls_of_none (r : Response) (h : assistantOf r.response = none) :
    r.response.toolCalls = [] := by
  unfold assistantOf at h
  cases hm : r.response.assistantMessage with
  | some message =>
    rw [hm] at h
    cases h
  | none =>
    rw [hm, Option.none_or] at h
    split at h
    case isTrue hempty => exact hempty.2.2
    case isFalse => cases h

theorem replaceWithSummary_spec (summary : String) (start : Nat) (t : Transcript) :
    ∃ t', Ok (replaceWithSummary summary start) t () t' ∧ history t' = history t ∧
      (marks t' = marks t ∨ marks t' = .other :: (marks t).drop start) := by
  by_cases he : t.Exists
  · by_cases hm : t.messages = []
    · refine ⟨t, ?_, rfl, Or.inl rfl⟩
      rw [replaceWithSummary, Ok, bind_of_ok (get_apply t), replay_of_exists he]
      dsimp only
      rw [if_pos hm]
      rfl
    · have hok : Ok (replaceWithSummary summary start) t ()
          ⟨userMessage summary :: t.messages.drop start, t.events ++ [.transcriptCompacted]⟩ := by
        rw [replaceWithSummary, Ok, bind_of_ok (get_apply t), replay_of_exists he]
        dsimp only
        rw [if_neg hm]
        rfl
      have hthere : (⟨userMessage summary :: t.messages.drop start,
          t.events ++ [.transcriptCompacted]⟩ : Transcript).Exists := by
        rw [Transcript.Exists, List.any_append]
        exact Bool.or_true _
      refine ⟨_, hok, ?_, Or.inr ?_⟩
      · rw [Provider.history, recorded_append]
        exact List.append_nil _
      · rw [marks, readMessages_of_exists hthere, marks, readMessages_of_exists he,
          List.map_cons, markOf_userMessage, List.map_drop]
  · refine ⟨t, ?_, rfl, Or.inl rfl⟩
    rw [replaceWithSummary, Ok, bind_of_ok (get_apply t), replay_of_not_exists he]
    rfl

end Provider

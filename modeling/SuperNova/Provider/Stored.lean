import SuperNova.Lib.Evidence
import SuperNova.Provider.Suffix
import SuperNova.Provider.Tools
import SuperNova.Truth.Blobs

/-!
# The provider transcript as it is stored

The recorders write files and append events, one after the other.  A file is named after the index of a
message, the id of a tool call or a time stamp.  What a recorder does depends on the events that are
there (`replayState`) and on the file of messages that they name.

* `writesOf`: the writes of each recorder, in order;
* `TruthStore.step`: a recorder that stops after some of its writes.
-/

namespace Provider

open Answers Workspace Truth

/-- the job and the provider of a transcript -/
structure Recorder where
  jobId : String
  provider : String
  protocol : String
  codec : Codec

/-! ## files -/

inductive TranscriptFile where
  | messages
  | summary
  | assistant (index : Nat)
  | reasoning (index : Nat)
  | user (index : Nat)
  | userControl (index : Nat)
  | tool (callId : String)
  | liveSuffix (stamp : Nat)
  | messagesCompacted (stamp : Nat)
  | summaryCompacted (stamp : Nat)
  deriving DecidableEq

def TranscriptFile.name : TranscriptFile → String
  | messages => "messages.json"
  | summary => "summary.json"
  | assistant index => "assistant_" ++ toString index ++ ".json"
  | reasoning index => "reasoning_" ++ toString index ++ ".txt"
  | user index => "user_" ++ toString index ++ ".json"
  | userControl index => "user_control_" ++ toString index ++ ".json"
  | tool callId => "tool_" ++ safeBlobName callId ++ ".json"
  | liveSuffix stamp => "live_suffix_" ++ toString stamp ++ ".json"
  | messagesCompacted stamp => "messages_compacted_" ++ toString stamp ++ ".json"
  | summaryCompacted stamp => "summary_compacted_" ++ toString stamp ++ ".json"

/-- what the name tells: of a call id only its safe form -/
def TranscriptFile.key : TranscriptFile → TranscriptFile
  | tool callId => tool (safeBlobName callId)
  | file => file

/-- `transcript_id_for` -/
def Recorder.transcriptId (r : Recorder) : String :=
  "ptr_" ++ safeBlobName r.jobId ++ "_" ++ safeBlobName r.provider

def Recorder.blobName (r : Recorder) (file : TranscriptFile) : String :=
  "provider_transcripts" ++ "/" ++ safeBlobName r.transcriptId ++ "/" ++ file.name

-- these are known by `resolve_ref` and `path_eq_iff`
@[irreducible] def Recorder.ref (r : Recorder) (file : TranscriptFile) : String := blobRef r.jobId (r.blobName file)

@[irreducible] def Recorder.path (r : Recorder) (file : TranscriptFile) : Path := blobPath (r.blobName file)

/-! ## the store -/

/-- `ProviderTranscriptSummary` -/
structure TranscriptSummary where
  messagesRef : String
  messageCount : Nat
  latestAssistantMessageRef : Option String
  pendingToolCallCount : Nat
  reasoningContentRefs : List String
  compacted : Bool

inductive Blob where
  | message (message : ProviderTranscriptMessage)
  | messages (messages : List ProviderTranscriptMessage)
  | reasoning (text : String)
  | summary (summary : TranscriptSummary)

inductive StoredEvent where
  | transcriptCreated
  | reasoningContentRecorded (reasoningContentRef : String)
  | transcriptCompacted (messagesRef : String) (summaryRef : Option String)
  | transcriptAppended (messagesRef summaryRef : String)
      (latestAssistantMessageRef reasoningContentRef latestToolMessageRef : Option String)
      (messageIndex messageCount pendingToolCallCount : Nat)
  | assistantMessageRecorded (assistantMessageRef messagesRef : String)
      (reasoningContentRef : Option String) (toolCallCount messageIndex : Nat)
  | toolCallRequested (providerToolCallId : String) (providerToolName : Option String)
      (assistantMessageRef : String)
  | toolResultRecorded (providerToolCallId toolResultRef messagesRef summaryRef : String)
      (messageIndex : Nat)
  | userMessageRecorded (messageRef messagesRef summaryRef : String) (messageIndex : Nat)
  | userControlMessageRecorded (messageRef messagesRef summaryRef : String) (messageIndex : Nat)

/-- the refs to messages of an event -/
def StoredEvent.messageRefs : StoredEvent → List String
  | .reasoningContentRecorded ref => [ref]
  | .transcriptAppended _ _ _ reasoningContentRef latestToolMessageRef _ _ _ =>
    reasoningContentRef.toList ++ latestToolMessageRef.toList
  | .assistantMessageRecorded assistantMessageRef _ reasoningContentRef _ _ =>
    assistantMessageRef :: reasoningContentRef.toList
  | .toolCallRequested _ _ assistantMessageRef => [assistantMessageRef]
  | .toolResultRecorded _ toolResultRef _ _ _ => [toolResultRef]
  | _ => []

/-- the files and events of a transcript, and what the refs in the events were recorded for -/
structure TruthStore where
  files : Path → Option Blob
  events : List StoredEvent
  cited : List (TranscriptFile × Blob)

def TruthStore.empty : TruthStore := ⟨fun _ => none, [], []⟩

/-- one write of a recorder; an event cites the messages that its refs stand for -/
inductive Write where
  | file (file : TranscriptFile) (content : Blob)
  | event (event : StoredEvent) (cites : List (TranscriptFile × Blob))

def TruthStore.write (r : Recorder) (s : TruthStore) : Write → TruthStore
  | .file file content => { s with files := Function.update s.files (r.path file) (some content) }
  | .event event cites => { s with events := s.events ++ [event], cited := s.cited ++ cites }

/-! ## replay -/

/-- the local variables of the replay -/
structure Replay where
  messagesRef : Option String
  summaryRef : Option String
  latestAssistantMessageRef : Option String
  reasoningContentRefs : List String
  calls : List ProviderToolCallState

def Replay.start : Replay := ⟨none, none, none, [], []⟩

def replayStored (replay : Replay) : StoredEvent → Replay
  | .transcriptAppended messagesRef summaryRef latest _ _ _ _ _ =>
    { replay with
      messagesRef := some messagesRef
      summaryRef := some summaryRef
      latestAssistantMessageRef := latest.or replay.latestAssistantMessageRef }
  | .transcriptCompacted messagesRef summaryRef =>
    { replay with
      messagesRef := some messagesRef
      summaryRef := summaryRef.or replay.summaryRef }
  | .reasoningContentRecorded ref =>
    { replay with reasoningContentRefs := replay.reasoningContentRefs ++ [ref] }
  | .toolCallRequested id name _ => { replay with calls := replay.calls ++ [⟨id, name, .requested⟩] }
  | .toolResultRecorded id _ _ _ _ => { replay with calls := replay.calls.map (completeCall id) }
  | _ => replay

def replayAll (events : List StoredEvent) : Replay := events.foldl replayStored .start

/-- `ProviderTranscriptState` -/
structure ProviderTranscriptState where
  messagesRef : String
  summaryRef : Option String
  latestAssistantMessageRef : Option String
  pendingToolCalls : List ProviderToolCallState
  reasoningContentRefs : List String

/-- `replay_provider_transcript_state_from_events` -/
def replayState (events : List StoredEvent) : Option ProviderTranscriptState :=
  let replay := replayAll events
  replay.messagesRef.map fun messagesRef =>
    { messagesRef
      summaryRef := replay.summaryRef
      latestAssistantMessageRef := replay.latestAssistantMessageRef
      pendingToolCalls := replay.calls.filter (·.status ≠ .completed)
      reasoningContentRefs := replay.reasoningContentRefs }

/-- `read_provider_messages` -/
def readProviderMessages (r : Recorder) (s : TruthStore) (state : ProviderTranscriptState) :
    Except String (List ProviderTranscriptMessage) :=
  match resolveBlobRef r.jobId state.messagesRef with
  | .error e => .error e
  | .ok path =>
    match s.files path with
    | some (.messages messages) => .ok messages
    | some _ => .error "invalid type: expected a sequence"
    | none => .error "No such file or directory"

/-- `read_messages_from_state` -/
def readMessages (r : Recorder) (s : TruthStore) (state : Option ProviderTranscriptState) :
    Except String (List ProviderTranscriptMessage) :=
  match state with
  | some state => readProviderMessages r s state
  | none => .ok []

/-! ## recorders -/

/-- there are many messages, or they are long -/
def large (codec : Codec) (messages : List ProviderTranscriptMessage) : Bool :=
  messages.length > compactMessageThreshold || estimateMessagesTokens codec messages > compactTokenThreshold

def compactIfLarge (codec : Codec) (messages : List ProviderTranscriptMessage) :
    List ProviderTranscriptMessage :=
  if large codec messages then compactNonMandatoryReasoning messages else messages

/-- the file of messages and the summary, which every recorder writes; `messages` are those with the new
one -/
def transcriptWrites (r : Recorder) (messages : List ProviderTranscriptMessage)
    (latest : Option String) (pendingCount : Nat) (reasoningRefs : List String) : List Write :=
  [.file .messages (.messages (compactIfLarge r.codec messages))] ++
    (if large r.codec messages then [.event (.transcriptCompacted (r.ref .messages) none) []] else []) ++
    [.file .summary (.summary
      { messagesRef := r.ref .messages
        messageCount := messages.length
        latestAssistantMessageRef := latest
        pendingToolCallCount := pendingCount
        reasoningContentRefs := reasoningRefs
        compacted := large r.codec messages })]

/-- the first call with the id is completed -/
def completeFirst (id : String) : List ProviderToolCallState → List ProviderToolCallState
  | [] => []
  | item :: calls =>
    if item.providerToolCallId = id then { item with status := .completed } :: calls
    else item :: completeFirst id calls

def createdWrites (previous : Option ProviderTranscriptState) : List Write :=
  match previous with
  | some _ => []
  | none => [.event .transcriptCreated []]

/-- the reasoning of a message, when it is stored -/
def storedReasoning (assistant : ProviderAssistantMessage) (storeReasoningContent : Bool) :
    Option String :=
  assistant.reasoningContent.filter fun text =>
    text ≠ "" && (storeReasoningContent || assistant.toolCalls ≠ [])

def reasoningCites (index : Nat) (reasoning : Option String) : List (TranscriptFile × Blob) :=
  reasoning.toList.map fun text => (.reasoning index, .reasoning text)

def reasoningWrites (r : Recorder) (index : Nat) (reasoning : Option String) : List Write :=
  match reasoning with
  | none => []
  | some text => [.file (.reasoning index) (.reasoning text),
      .event (.reasoningContentRecorded (r.ref (.reasoning index))) [(.reasoning index, .reasoning text)]]

def requestWrites (r : Recorder) (index : Nat) (assistant : ProviderAssistantMessage) : List Write :=
  assistant.toolCalls.map fun call =>
    .event (.toolCallRequested call.id (call.function.strAt? "name") (r.ref (.assistant index)))
      [(.assistant index, .message (assistantMessage assistant))]

/-- the writes for a response, when the messages before it are known -/
def assistantWrites (r : Recorder) (previous : Option ProviderTranscriptState)
    (messages : List ProviderTranscriptMessage) (assistant : ProviderAssistantMessage)
    (storeReasoningContent : Bool) : List Write :=
  let index := messages.length
  let reasoning := storedReasoning assistant storeReasoningContent
  let reasoningRef := reasoning.map fun _ => r.ref (.reasoning index)
  let message := assistantMessage assistant
  let messageRef := r.ref (.assistant index)
  let messages := messages ++ [message]
  let reasoningRefs := ((previous.map (·.reasoningContentRefs)).getD []) ++ reasoningRef.toList
  let pendingCount := ((previous.map (·.pendingToolCalls)).getD []).length + assistant.toolCalls.length
  createdWrites previous ++ reasoningWrites r index reasoning ++
    [.file (.assistant index) (.message message)] ++
    transcriptWrites r messages (some messageRef) pendingCount reasoningRefs ++
    [.event (.transcriptAppended (r.ref .messages) (r.ref .summary) (some messageRef) reasoningRef none
      index messages.length pendingCount) (reasoningCites index reasoning),
     .event (.assistantMessageRecorded messageRef (r.ref .messages) reasoningRef assistant.toolCalls.length
      index) ((.assistant index, .message message) :: reasoningCites index reasoning)] ++
    requestWrites r index assistant

/-- `record_provider_assistant_response` -/
def TruthStore.recordProviderAssistantResponse (r : Recorder) (s : TruthStore)
    (response : ModelProviderResponse) (storeReasoningContent : Bool) : Except String (List Write) :=
  match assistantOf response with
  | none => .ok []
  | some assistant => do
    let previous := replayState s.events
    let messages ← readMessages r s previous
    .ok (assistantWrites r previous messages assistant storeReasoningContent)

def toolMessage (codec : Codec) (id : String) (toolResult : Json) : ProviderTranscriptMessage :=
  ⟨"tool", some (providerToolResultContent codec toolResult), none, [], some id⟩

/-- the writes for the result of a pending call -/
def toolWrites (r : Recorder) (previous : ProviderTranscriptState)
    (messages : List ProviderTranscriptMessage) (id : String) (toolResult : Json) : List Write :=
  let index := messages.length
  let message := toolMessage r.codec id toolResult
  let cite := (TranscriptFile.tool id, Blob.message message)
  let messages := messages ++ [message]
  let active := (completeFirst id previous.pendingToolCalls).filter (·.status ≠ .completed)
  [.file (.tool id) (.message message)] ++
    transcriptWrites r messages previous.latestAssistantMessageRef active.length
      previous.reasoningContentRefs ++
    [.event (.toolResultRecorded id (r.ref (.tool id)) (r.ref .messages) (r.ref .summary) index) [cite],
     .event (.transcriptAppended (r.ref .messages) (r.ref .summary) previous.latestAssistantMessageRef
      none (some (r.ref (.tool id))) index messages.length active.length) [cite]]

/-- `record_provider_tool_result_with_metadata` -/
def TruthStore.recordProviderToolResult (r : Recorder) (s : TruthStore) (id : String)
    (toolResult : Json) : Except String (List Write) :=
  match replayState s.events with
  | none => .error "provider transcript does not exist for tool result"
  | some previous =>
    if previous.pendingToolCalls.any (·.providerToolCallId == id) then do
      let messages ← readProviderMessages r s previous
      .ok (toolWrites r previous messages id toolResult)
    else .error "provider tool result does not match a pending tool call"

/-- the writes for a message in the place of a user -/
def userWrites (r : Recorder) (previous : Option ProviderTranscriptState)
    (messages : List ProviderTranscriptMessage) (message : ProviderTranscriptMessage)
    (file : TranscriptFile) (event : StoredEvent) : List Write :=
  let latest := previous.bind (·.latestAssistantMessageRef)
  let pendingCount := ((previous.map (·.pendingToolCalls)).getD []).length
  [.file file (.message message)] ++
    transcriptWrites r (messages ++ [message]) latest pendingCount
      ((previous.map (·.reasoningContentRefs)).getD []) ++
    [.event event [],
     .event (.transcriptAppended (r.ref .messages) (r.ref .summary) latest none none messages.length
      (messages.length + 1) pendingCount) []]

/-- `record_provider_user_message` -/
def TruthStore.recordProviderUserMessage (r : Recorder) (s : TruthStore) (content : String) :
    Except String (List Write) := do
  let previous := replayState s.events
  let messages ← readMessages r s previous
  let file := TranscriptFile.user messages.length
  .ok (createdWrites previous ++ userWrites r previous messages (userMessage content) file
    (.userMessageRecorded (r.ref file) (r.ref .messages) (r.ref .summary) messages.length))

/-- `record_provider_user_control_message` -/
def TruthStore.recordProviderUserControlMessage (r : Recorder) (s : TruthStore) (controlMessage : Json) :
    Except String (List Write) :=
  match replayState s.events with
  | none => .ok []
  | some previous => do
    let messages ← readProviderMessages r s previous
    let file := TranscriptFile.userControl messages.length
    let message := userMessage (providerToolResultContent r.codec controlMessage)
    .ok (userWrites r (some previous) messages message file
      (.userControlMessageRecorded (r.ref file) (r.ref .messages) (r.ref .summary) messages.length))

/-- the writes for a summary in the place of the first messages -/
def replacementWrites (r : Recorder) (previous : ProviderTranscriptState)
    (suffix replacement : List ProviderTranscriptMessage) (stamp : Nat) : List Write :=
  [.file (.liveSuffix stamp) (.messages suffix),
   .file (.messagesCompacted stamp) (.messages replacement),
   .file (.summaryCompacted stamp) (.summary
     { messagesRef := r.ref (.messagesCompacted stamp)
       messageCount := replacement.length
       latestAssistantMessageRef := previous.latestAssistantMessageRef
       pendingToolCallCount := previous.pendingToolCalls.length
       reasoningContentRefs := previous.reasoningContentRefs
       compacted := true }),
   .event (.transcriptCompacted (r.ref (.messagesCompacted stamp))
     (some (r.ref (.summaryCompacted stamp)))) []]

/-- `replace_provider_visible_transcript_with_summary` -/
def TruthStore.replaceProviderVisibleTranscript (r : Recorder) (s : TruthStore) (summaryText : String)
    (minLiveSuffixTurns stamp : Nat) : Except String (List Write) :=
  match replayState s.events with
  | none => .ok []
  | some previous => do
    let messages ← readProviderMessages r s previous
    if messages = [] then .ok []
    else do
      let start := liveSuffixStartIndex messages previous.pendingToolCalls minLiveSuffixTurns
      let suffix := messages.drop start
      let replacement := userMessage summaryText :: suffix
      let validation := validateDeepseekNativeMessages replacement
      if deepseekProtocol r.provider r.protocol ∧ validation.valid = false then
        .error ("provider transcript replacement rejected before commit: " ++
          Text.join "; " validation.errors)
      else .ok (replacementWrites r previous suffix replacement stamp)

/-! ## runs -/

inductive Op where
  | assistantResponse (response : ModelProviderResponse) (storeReasoningContent : Bool)
  | toolResult (id : String) (toolResult : Json)
  | userMessage (content : String)
  | userControl (controlMessage : Json)
  | replacement (summaryText : String) (minLiveSuffixTurns stamp : Nat)

def writesOf (r : Recorder) (s : TruthStore) : Op → Except String (List Write)
  | .assistantResponse response storeReasoningContent =>
    s.recordProviderAssistantResponse r response storeReasoningContent
  | .toolResult id toolResult => s.recordProviderToolResult r id toolResult
  | .userMessage content => s.recordProviderUserMessage r content
  | .userControl controlMessage => s.recordProviderUserControlMessage r controlMessage
  | .replacement summaryText minLiveSuffixTurns stamp =>
    s.replaceProviderVisibleTranscript r summaryText minLiveSuffixTurns stamp

/-- a recorder, and the number of writes after which it stops, if it does -/
structure Move where
  op : Op
  stop : Option Nat

def cutWrites (stop : Option Nat) (writes : List Write) : List Write :=
  match stop with
  | none => writes
  | some n => writes.take n

/-- the writes that a move makes; a recorder that is refused makes none -/
def Move.writes (r : Recorder) (s : TruthStore) (move : Move) : List Write :=
  match writesOf r s move.op with
  | .ok writes => cutWrites move.stop writes
  | .error _ => []

def TruthStore.step (r : Recorder) (s : TruthStore) (move : Move) : TruthStore :=
  (move.writes r s).foldl (TruthStore.write r) s

def TruthStore.run (r : Recorder) (moves : List Move) : TruthStore :=
  moves.foldl (TruthStore.step r) .empty

end Provider

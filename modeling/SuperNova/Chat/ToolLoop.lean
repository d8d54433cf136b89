import SuperNova.Provider.Batch
import SuperNova.Provider.Tools

/-!
# The tool call loop of the chat runtime

`runProviderLoop` sends the transcript to the model, records the response, executes its tool calls in
order with a result for each, and sends the transcript again, until a call answers, asks back or
hands over to a task, or the subturns are used up.  The model and the read-only tools are parameters.
-/

namespace Chat

open Provider Io Text

/-! ## surroundings -/

/-- `ProviderToolLoopStatus`, as far as a chat call has it -/
inductive ProviderToolLoopStatus where
  | continue
  | answered
  | clarifying
  | needsTask
  | blocked
  | failed
  deriving DecidableEq

/-- what a `chat_turn` request leads to -/
inductive TurnOutcome where
  | error (message : String)
  | failed
  | success (modelCallId : String) (response : Response)

/-- one chat turn: its configuration, the model and the read-only tools, which see the workspace as
it is at each call of each subturn -/
structure Turn where
  codec : Codec
  policy : ProviderToolLoopPolicy
  maxChatReadBytesPerTurn : Nat
  maxChatReadTokensPerTurn : Nat
  registry : ProviderToolRegistry
  userMessage : String
  userPrompt : String
  chatTurn : Nat → Transcript → TurnOutcome
  readOnlyResult : Nat → Nat → NextActionDecision → Json

inductive ChatTurnStatus where
  | answered
  | clarifying
  | needsTask
  | failed
  deriving DecidableEq

structure SuggestedTaskRequest where
  goal : String
  reason : String
  contextPackId : Option String

structure ChatTurnResult where
  status : ChatTurnStatus
  assistantContent : Option String
  suggestedTask : Option SuggestedTaskRequest
  citedRefs : List String
  toolReceiptRefs : List String

/-! ## read usage -/

def byteKeys : List String := ["bytes", "size_bytes", "content_bytes", "total_size_bytes"]

/-- bytes and tokens read -/
structure Usage where
  bytes : Nat
  tokens : Nat

def Usage.add (usage more : Usage) : Usage :=
  ⟨saturatingAdd usage.bytes more.bytes, saturatingAdd usage.tokens more.tokens⟩

def textUsage (text : Option String) : Usage :=
  text.elim ⟨0, 0⟩ fun text => ⟨text.utf8ByteSize, estimateTextTokensConservative text⟩

/-- what an object says itself about its size -/
def ownUsage (value : Json) (usage : Usage) : Usage :=
  let sizes := byteKeys.filterMap fun key => (value.get? key).bind Json.asNat?
  let usage := sizes.foldl (fun usage size => usage.add ⟨size, 0⟩) usage
  let usage := usage.add ⟨0, ((value.get? "tokens_estimated").bind Json.asNat?).getD 0⟩
  (usage.add (textUsage (value.strAt? "content"))).add (textUsage (value.strAt? "page"))

mutual

def collectReadUsage : Json → Usage → Usage
  | .obj fields, usage => collectFields fields (ownUsage (.obj fields) usage)
  | .arr items, usage => collectItems items usage
  | _, usage => usage

def collectItems : List Json → Usage → Usage
  | [], usage => usage
  | item :: rest, usage => collectItems rest (collectReadUsage item usage)

def collectFields : List (String × Json) → Usage → Usage
  | [], usage => usage
  | (_, value) :: rest, usage => collectFields rest (collectReadUsage value usage)

end

def chatToolResultReadUsage (toolResult : Json) : Usage := collectReadUsage toolResult ⟨0, 0⟩

def Turn.readBudgetExceeded (turn : Turn) (usage : Usage) : Bool :=
  usage.bytes > turn.maxChatReadBytesPerTurn || usage.tokens > turn.maxChatReadTokensPerTurn

/-! ## one call -/

def stringArrayValue (value : Json) (key : String) : List String :=
  (((value.get? key).bind Json.asArr?).getD []).filterMap Json.asStr?

def suggestedTask (goal reason : String) : Json :=
  .obj [("goal", .str goal), ("reason", .str reason)]

/-- the result for a call that cannot be decoded -/
def undecodedResult (userMessage : String) (err : ProviderToolProtocolError) : Json :=
  .obj [("status", .str "needs_task"), ("error_code", .str err.errorCode),
    ("message", .str err.message), ("provider_tool_name", Json.ofText? err.providerToolName),
    ("provider_tool_call_id", Json.ofText? err.providerToolCallId),
    ("suggested_task", suggestedTask userMessage ("ChatRuntime can only call read-only tools. " ++
      "Use TaskRuntime for mutation, approval, terminal execution, or artifact delivery.")),
    ("mutation_forbidden", .bool true)]

/-- the result for a call that a chat may not make -/
def forbiddenResult (userMessage capabilityId : String) : Json :=
  .obj [("status", .str "needs_task"), ("capability_id", .str capabilityId),
    ("suggested_task", suggestedTask userMessage ("ChatRuntime can only call read-only tools. " ++
      "Use TaskRuntime for mutation, approval, terminal execution, process completion, or " ++
      "artifact delivery.")),
    ("mutation_forbidden", .bool true)]

def forbiddenInChat (capabilityId : String) : Bool :=
  providerToolIsMutationApplyCapability capabilityId ||
    (stripPrefix "process.preview" capabilityId).isSome ||
    capabilityId == "process.request_preview" || capabilityId == "terminal.run_command" ||
    capabilityId == "process.complete"

/-- the text at the first of several keys -/
def firstText (spec : Json) (keys : List String) : String :=
  ((keys.findSome? fun key => spec.get? key).bind Json.asStr?).getD ""

def answerResult (decision : NextActionDecision) : Json :=
  .obj [("status", .str "answered"), ("capability_id", .str decision.capabilityId),
    ("content", .str (firstText decision.outputSpec ["content", "answer", "message"])),
    ("cited_refs", .arr ((stringArrayValue decision.outputSpec "cited_refs").map .str)),
    ("reason", .str decision.reason)]

def clarifyResult (decision : NextActionDecision) : Json :=
  .obj [("status", .str "clarifying"), ("capability_id", .str decision.capabilityId),
    ("question", .str (firstText decision.outputSpec ["question"])),
    ("missing_fact", Json.ofText? (decision.outputSpec.strAt? "missing_fact")),
    ("reason", .str decision.reason)]

def needsTaskResult (decision : NextActionDecision) : Json :=
  .obj [("status", .str "needs_task"), ("capability_id", .str decision.capabilityId),
    ("goal", .str (firstText decision.outputSpec ["goal"])),
    ("context_pack_id", Json.ofText? (decision.outputSpec.strAt? "context_pack_id")),
    ("reason", .str decision.reason)]

/-- status and result of a call -/
def chatExecution (turn : Turn) (subturnIndex index : Nat) (call : ProviderToolCall) :
    ProviderToolLoopStatus × Json :=
  match turn.registry.decisionForToolCall turn.codec call with
  | .error err => (.needsTask, undecodedResult turn.userMessage err)
  | .ok decision =>
    if forbiddenInChat decision.capabilityId then
      (.needsTask, forbiddenResult turn.userMessage decision.capabilityId)
    else if decision.capabilityId = "chat.answer" then (.answered, answerResult decision)
    else if decision.capabilityId = "chat.clarify" then (.clarifying, clarifyResult decision)
    else if decision.capabilityId = "chat.needs_task" then (.needsTask, needsTaskResult decision)
    else (.continue, turn.readOnlyResult subturnIndex index decision)

def executeChatToolCall (turn : Turn) (subturnIndex index : Nat) (call : ProviderToolCall) :
    TranscriptM (ProviderToolLoopStatus × Json) := do
  let (status, toolResult) := chatExecution turn subturnIndex index call
  recordProviderToolResult turn.codec call.id toolResult
  pure (status, toolResult)

/-! ## results of the turn -/

/-- the local variables of the loop -/
structure LoopVars where
  exec : ProviderToolLoopExecutor
  usage : Usage
  citedRefs : List String
  toolReceiptRefs : List String

def chatAnswerResult (content : String) (vars : LoopVars) : ChatTurnResult :=
  ⟨.answered, some content, none, vars.citedRefs, vars.toolReceiptRefs⟩

def chatClarifyingResult (payload : Json) (vars : LoopVars) : ChatTurnResult :=
  ⟨.clarifying, some ((payload.strAt? "question").getD ""), none, vars.citedRefs,
    vars.toolReceiptRefs⟩

def suggestedTaskOf (payload : Json) : Option SuggestedTaskRequest :=
  let goal := trim ((payload.strAt? "goal").getD "")
  if goal = "" then none
  else some ⟨goal, (payload.strAt? "reason").getD
    "ChatRuntime determined this requires TaskRuntime.", payload.strAt? "context_pack_id"⟩

def suggestedTaskFromPayload (payload : Json) : Option SuggestedTaskRequest :=
  ((payload.get? "suggested_task").bind suggestedTaskOf).or (suggestedTaskOf payload)

def chatNeedsTaskResult (payload : Json) (vars : LoopVars) : ChatTurnResult :=
  ⟨.needsTask, none, suggestedTaskFromPayload payload, vars.citedRefs, vars.toolReceiptRefs⟩

def chatFailedResult : ChatTurnResult := ⟨.failed, none, none, [], []⟩

/-! ## one batch -/

/-- after a batch: the turn ends, or the transcript is sent again -/
inductive BatchEnd where
  | done (result : ChatTurnResult)
  | next (vars : LoopVars)

/-- what the loop adds up after a call -/
def LoopVars.afterCall (vars : LoopVars) (toolResult : Json) : LoopVars where
  exec := vars.exec.markExecuted 1
  usage := vars.usage.add (chatToolResultReadUsage toolResult)
  citedRefs := vars.citedRefs ++ stringArrayValue toolResult "cited_refs"
  toolReceiptRefs := vars.toolReceiptRefs ++ (toolResult.strAt? "receipt_ref").toList

/-- `append_chat_provider_tool_skipped_results_from`, given the calls from some index on -/
def appendSkippedResultsFrom (codec : Codec) (reason batchId : String) (index : Nat)
    (calls : List ProviderToolCall) : TranscriptM Unit :=
  recordProviderToolResults codec
    ((calls.zipIdx index).map fun (call, i) => (call.id, skippedResult call reason batchId i))

def readBudgetReason : String :=
  "ChatRuntime read-only provider tool loop exceeded per-turn read budget before executing " ++
    "the remaining provider tool calls."

/-- the calls of a response from some index on -/
def runCalls (turn : Turn) (subturnIndex : Nat) (batchId : String) :
    Nat → List ProviderToolCall → LoopVars → TranscriptM BatchEnd
  | _, [], vars => pure (.next vars)
  | index, call :: rest, vars => do
    let (status, toolResult) ← executeChatToolCall turn subturnIndex index call
    let vars := vars.afterCall toolResult
    if turn.readBudgetExceeded vars.usage then do
      appendSkippedResultsFrom turn.codec readBudgetReason batchId (index + 1) rest
      pure (.next vars)
    else
      match status with
      | .answered => pure (.done (chatAnswerResult ((toolResult.strAt? "content").getD "") vars))
      | .clarifying => pure (.done (chatClarifyingResult toolResult vars))
      | .needsTask => pure (.done (chatNeedsTaskResult toolResult vars))
      | .blocked | .failed => pure (.next vars)
      | .continue => runCalls turn subturnIndex batchId (index + 1) rest vars

/-- what is done with a response that has tool calls -/
def runBatch (turn : Turn) (subturnIndex : Nat) (modelCallId : String)
    (calls : List ProviderToolCall) (vars : LoopVars) : TranscriptM BatchEnd :=
  let batchId := batchId modelCallId subturnIndex
  match vars.exec.checkSubturnBudget calls true with
  | .error budgetError => do
    appendSkippedResultsFrom turn.codec budgetError.message batchId 0 calls
    pure (.next vars)
  | .ok _ => runCalls turn subturnIndex batchId 0 calls vars

/-! ## the loop -/

/-- the transcript, and the messages that were sent with each request so far -/
structure ChatState where
  transcript : Transcript
  sent : List (List ProviderTranscriptMessage)

abbrev ChatM (α : Type) := EStateM String ChatState α

def onTranscript {α : Type} (m : TranscriptM α) : ChatM α := fun s =>
  match m s.transcript with
  | .ok a t => .ok a { s with transcript := t }
  | .error e t => .error e { s with transcript := t }

def sendTranscript : ChatM Unit :=
  modify fun s => { s with sent := s.sent ++ [readMessagesFromState s.transcript] }

/-- the user message goes into the transcript with the first response -/
def recordTurnUserMessage (turn : Turn) (subturnIndex : Nat) : TranscriptM Unit :=
  if subturnIndex = 0 then recordProviderUserMessage turn.codec turn.userPrompt else pure ()

def recordTurnResponse (turn : Turn) (subturnIndex : Nat) (response : ModelProviderResponse) :
    TranscriptM Unit := do
  recordTurnUserMessage turn subturnIndex
  recordProviderAssistantResponse turn.codec response

def loopLimitAnswer : String :=
  "ChatRuntime returned the read-only tool results to the model, but the model did not produce a " ++
    "final answer within the tool-loop limit. Narrow the question or use TASK for work that " ++
    "needs more tool steps."

/-- the last `n` subturns, from the given one on -/
def subturns (turn : Turn) : Nat → Nat → LoopVars → ChatM ChatTurnResult
  | 0, _, vars => pure (chatAnswerResult loopLimitAnswer vars)
  | n + 1, index, vars => do
    sendTranscript
    match turn.chatTurn index (← get).transcript with
    | .error message => throw message
    | .failed => pure chatFailedResult
    | .success modelCallId r => do
      onTranscript (recordTurnResponse turn index r.response)
      if r.response.toolCalls = [] then pure (chatAnswerResult r.response.outputText vars)
      else do
        match ← onTranscript (runBatch turn index modelCallId r.response.toolCalls vars) with
        | .done result => pure result
        | .next vars => subturns turn n (index + 1) vars

def Turn.start (turn : Turn) : LoopVars :=
  ⟨ProviderToolLoopExecutor.new turn.policy, ⟨0, 0⟩, [], []⟩

def runProviderLoop (turn : Turn) : ChatM ChatTurnResult :=
  subturns turn turn.policy.normalized.maxProviderSubturns 0 turn.start

end Chat

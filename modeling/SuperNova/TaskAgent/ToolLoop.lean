import SuperNova.Provider.Batch
import SuperNova.Provider.Tools

/-!
# The tool call loop of the task agent

`runProviderToolCallLoop` asks the model for the next action, executes the tool calls of the
response in order, records a result for each, and asks again, until a call ends the turn or the
subturns are used up.  The model, the capabilities and the wording of recovery hints are parameters;
what the loop does with their answers is the code.
-/

namespace TaskAgent

open Provider Io

/-! ## surroundings -/

/-- a response to a model call made by a capability; no tools are offered to it -/
structure NestedCall where
  response : Response
  noCalls : response.response.toolCalls = []

structure ModelProviderFailure where
  errorCode : String
  message : String

/-- what asking for the next action leads to -/
inductive ActionOutcome where
  | error (message : String)
  | failed (error : Option ModelProviderFailure)
  | success (modelCallId : String) (response : Response)

/-- asking for the next action: a summary and the start of the live suffix when the context had to
be compacted first, and the outcome -/
structure Invocation where
  compaction : Option (String × Nat)
  outcome : ActionOutcome

/-- a capability: the model calls it makes, and its status and result -/
structure Execution where
  nested : List NestedCall
  outcome : Except String (String × Json)

/-- `ProviderNativeRecoverableActionError` -/
structure Recovery where
  protocolError : ProviderToolProtocolError
  correctiveMessage : Json
  toolResultExtra : List (String × Json)

structure Agent where
  codec : Codec
  policy : ProviderToolLoopPolicy
  executedBefore : Nat
  registryForReceipt : String → ProviderToolRegistry
  invokeNextActionModel : Nat → Transcript → Invocation
  executeDecision : NextActionDecision → Transcript → Execution
  recoverableActionError : NextActionDecision → String → ProviderToolCall → Recovery

/-! ## results that the loop makes -/

/-- the result of `append_provider_tool_error_result` -/
def errorResult (error : ProviderToolProtocolError) : Json :=
  .obj [("status", .str "blocked"), ("error_code", .str error.errorCode),
    ("message", .str error.message), ("provider_tool_name", Json.ofText? error.providerToolName),
    ("capability_id", Json.ofText? error.capabilityId)]

/-- `merge_json_object` -/
def mergeFields (base extra : List (String × Json)) : List (String × Json) :=
  base.filter (fun field => !extra.any (·.1 == field.1)) ++ extra

/-- the result of `append_provider_tool_recoverable_error_result` -/
def recoverableErrorResult (recovery : Recovery) : Json :=
  .obj (mergeFields [("status", .str "blocked"), ("receipt_status", .str "blocked"),
    ("error_code", .str recovery.protocolError.errorCode),
    ("message", .str recovery.protocolError.message),
    ("provider_tool_name", Json.ofText? recovery.protocolError.providerToolName),
    ("capability_id", Json.ofText? recovery.protocolError.capabilityId),
    ("recoverable", .bool true), ("corrective_control_message", recovery.correctiveMessage)]
    recovery.toolResultExtra)

/-- the error as it is told for one call -/
def ProviderToolProtocolError.forCall (error : ProviderToolProtocolError)
    (call : ProviderToolCall) : ProviderToolProtocolError :=
  { error with
    providerToolCallId := some call.id
    providerToolName := error.providerToolName.or (providerToolCallName call).toOption }

/-- `append_provider_tool_error_results_for_remaining`, given the calls that are left -/
def appendErrorResultsForRemaining (codec : Codec) (calls : List ProviderToolCall)
    (error : ProviderToolProtocolError) : TranscriptM Unit :=
  recordProviderToolResults codec
    (calls.map fun call => (call.id, errorResult (ProviderToolProtocolError.forCall error call)))

def skippedDueToRecoverableError : ProviderToolProtocolError :=
  ⟨"PROVIDER_TOOL_CALL_SKIPPED_DUE_TO_RECOVERABLE_ERROR",
    "A previous provider tool_call in the same assistant message returned a recoverable " ++
      "validation error; remaining tool_calls were not executed.", none, none, none⟩

def skippedDueToTerminalStatus (status : String) : ProviderToolProtocolError :=
  ⟨"PROVIDER_TOOL_CALL_SKIPPED_DUE_TO_TERMINAL_STATUS",
    "A previous provider tool_call in the same assistant message returned terminal status `" ++
      status ++ "`; remaining tool_calls were not executed.", none, none, none⟩

/-- the decision and status of `provider_tool_protocol_interrupted` -/
def protocolInterrupted (errorCode message : String) : NextActionDecision × String :=
  ({ decision .interrupted "process.interrupt" message with
      outputSpec := .obj [("error_code", .str errorCode), ("reason", .str message)] },
    "interrupted")

/-! ## one batch -/

/-- the local variables of the loop -/
structure LoopVars where
  exec : ProviderToolLoopExecutor
  successes : Nat
  loopDecision : NextActionDecision

/-- after a batch: the loop returns, or asks again -/
inductive BatchEnd where
  | done (decision : NextActionDecision) (status : String)
  | next (vars : LoopVars)

def terminalStatuses : List String :=
  ["completed", "failed", "blocked", "interrupted", "waiting_user", "waiting_approval"]

/-- the status of a result: `receipt_status`, or `status` -/
def resultSucceeded (toolResult : Json) : Bool :=
  ((toolResult.get? "receipt_status").or (toolResult.get? "status")).bind Json.asStr? ==
    some "success"

def executeProviderToolDecision (agent : Agent) (decision : NextActionDecision) :
    TranscriptM (Except String (String × Json)) := do
  let execution := agent.executeDecision decision (← get)
  execution.nested.forM fun call =>
    recordProviderAssistantResponse agent.codec call.response.response
  pure execution.outcome

/-- the hint that a result brings with it, if any -/
def recordCorrection (codec : Codec) : Option Json → TranscriptM Unit
  | some message => recordProviderUserControlMessage codec message
  | none => pure ()

/-- the calls of a response from some call on -/
def runCalls (agent : Agent) (registry : ProviderToolRegistry) :
    List ProviderToolCall → LoopVars → TranscriptM BatchEnd
  | [], vars => pure (.next vars)
  | call :: rest, vars =>
    match registry.decisionForToolCall agent.codec call with
    | .error error => do
      recordProviderToolResult agent.codec call.id (errorResult error)
      runCalls agent registry rest vars
    | .ok decision => do
      match ← executeProviderToolDecision agent decision with
      | .error err =>
        let recovery := agent.recoverableActionError decision err call
        recordProviderToolResult agent.codec call.id (recoverableErrorResult recovery)
        appendErrorResultsForRemaining agent.codec rest skippedDueToRecoverableError
        recordProviderUserControlMessage agent.codec recovery.correctiveMessage
        pure (.next { vars with exec := vars.exec.markExecuted 1, loopDecision := decision })
      | .ok (status, toolResult) =>
        if status = "waiting_approval" then pure (.done decision "waiting_approval")
        else do
          recordProviderToolResult agent.codec call.id toolResult
          let vars := { vars with
            exec := vars.exec.markExecuted 1
            successes := if resultSucceeded toolResult then vars.successes + 1
              else vars.successes }
          if status = "recoverable_error" then do
            appendErrorResultsForRemaining agent.codec rest skippedDueToRecoverableError
            recordCorrection agent.codec (toolResult.get? "corrective_control_message")
            pure (.next { vars with loopDecision := decision })
          else if status ∈ terminalStatuses then do
            appendErrorResultsForRemaining agent.codec rest (skippedDueToTerminalStatus status)
            pure (.done decision status)
          else runCalls agent registry rest { vars with loopDecision := decision }

/-- what is done with a response that has tool calls -/
def runBatch (agent : Agent) (modelCallId : String) (calls : List ProviderToolCall)
    (vars : LoopVars) : TranscriptM BatchEnd :=
  let registry := agent.registryForReceipt modelCallId
  match vars.exec.checkSubturnBudget calls (registry.limitExempt calls) with
  | .error budgetError => do
    appendErrorResultsForRemaining agent.codec calls
      ⟨budgetError.errorCode, budgetError.message, none, none, none⟩
    let (decision, status) := protocolInterrupted budgetError.errorCode budgetError.message
    pure (.done decision status)
  | .ok _ => runCalls agent registry calls vars

/-! ## the loop -/

def modelCallFailed (error : Option ModelProviderFailure) : NextActionDecision × String :=
  let errorCode := (error.map (·.errorCode)).getD "MODEL_DECIDE_NEXT_ACTION_FAILED"
  let message := (error.map (·.message)).getD "model call failed"
  if errorCode = "DEEPSEEK_RESPONSE_CONTENT_MISSING" ∨ errorCode = "MODEL_OUTPUT_SCHEMA_INVALID" then
    protocolInterrupted "MODEL_TOOL_CALL_REQUIRED_BUT_MISSING"
      ("Provider-native tool decision did not return executable tool_calls: " ++ message)
  else
    ({ decision .fail "process.fail" message with
        outputSpec := .obj [("error_code", .str errorCode)] }, "failed")

def subturnsUsedUp (vars : LoopVars) : NextActionDecision × String :=
  if vars.successes > 0 then (vars.loopDecision, "running")
  else protocolInterrupted "MODEL_TOOL_LOOP_BUDGET_EXCEEDED"
    "Provider-native tool call loop exceeded max_provider_subturns."

/-- `compact_task_model_context`, as far as it gets -/
def compactTaskModelContext : Option (String × Nat) → TranscriptM Unit
  | some (summary, start) => replaceWithSummary summary start
  | none => pure ()

/-- `invoke_next_action_model`: compaction, if any, and the outcome of the model call -/
def invokeNextActionModel (agent : Agent) (subturnIndex : Nat) : TranscriptM ActionOutcome := do
  let invocation := agent.invokeNextActionModel subturnIndex (← get)
  compactTaskModelContext invocation.compaction
  pure invocation.outcome

/-- the last `n` subturns, from the given one on -/
def subturns (agent : Agent) : Nat → Nat → LoopVars → TranscriptM (NextActionDecision × String)
  | 0, _, vars => pure (subturnsUsedUp vars)
  | n + 1, index, vars => do
    match ← invokeNextActionModel agent index with
    | .error message => throw message
    | .failed error => pure (modelCallFailed error)
    | .success modelCallId r =>
      recordProviderAssistantResponse agent.codec r.response
      if r.response.toolCalls = [] then subturns agent n (index + 1) vars
      else do
        match ← runBatch agent modelCallId r.response.toolCalls vars with
        | .done decision status => pure (decision, status)
        | .next vars => subturns agent n (index + 1) vars

def runProviderToolCallLoop (agent : Agent) : TranscriptM (NextActionDecision × String) :=
  let exec : ProviderToolLoopExecutor := ⟨agent.policy.normalized, agent.executedBefore⟩
  subturns agent exec.policy.maxProviderSubturns 0
    ⟨exec, 0, decision .decideNextAction "model.decide_next_action"
      "DeepSeek provider-native tool call loop requested the next action."⟩

end TaskAgent

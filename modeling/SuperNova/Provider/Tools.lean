import SuperNova.Lib.Json
import SuperNova.Lib.Text

/-!
# Tool calls and the loop executor

Tool calls, the assistant message that carries them, and the response around it.

How a tool call becomes a decision (`decisionForToolCall`), and the budgets that a batch of calls is
checked against (`checkSubturnBudget`).  The executor is shared by the loops of the task agent and of
the chat runtime.
-/

namespace Provider

structure ProviderToolCall where
  id : String
  type : String
  function : Json

structure ProviderAssistantMessage where
  role : String
  content : Option String
  reasoningContent : Option String
  toolCalls : List ProviderToolCall

structure ModelProviderResponse where
  outputText : String
  assistantMessage : Option ProviderAssistantMessage
  reasoningContent : Option String
  toolCalls : List ProviderToolCall
  usage : Json
  finishReason : Option String
  raw : Json
  samplingIgnoredByProvider : Bool
  streaming : Bool
  firstTokenMs : Option Nat
  chunksCount : Nat
  streamEventCount : Nat
  firstByteTimeoutMs : Option Nat
  idleTimeoutMs : Option Nat
  maxWallTimeMs : Option Nat

/-- a response as both parsers build it: a message has the calls of the response -/
structure Response where
  response : ModelProviderResponse
  calls_eq : ∀ message, response.assistantMessage = some message →
    message.toolCalls = response.toolCalls

end Provider

namespace Provider

open Text

/-! ## decisions -/

inductive TaskAgentDecisionKind where
  | decideNextAction
  | verifyArtifact
  | runCapability
  | requestPreview
  | clarify
  | complete
  | interrupted
  | fail
  deriving DecidableEq

/-- the fields of `NextActionDecision` that the loops read -/
structure NextActionDecision where
  kind : TaskAgentDecisionKind
  reason : String
  capabilityId : String
  outputSpec : Json

def decision (kind : TaskAgentDecisionKind) (capabilityId reason : String) : NextActionDecision :=
  ⟨kind, reason, capabilityId, .obj []⟩

/-! ## decoding -/

structure ProviderToolProtocolError where
  errorCode : String
  message : String
  providerToolName : Option String
  providerToolCallId : Option String
  capabilityId : Option String

structure ProviderToolBinding where
  capabilityId : String
  readOnlyOrProcessControl : Bool

structure ProviderToolRegistry where
  bindings : List (String × ProviderToolBinding)

def ProviderToolRegistry.bindingForToolName (registry : ProviderToolRegistry) (name : String) :
    Option ProviderToolBinding :=
  (registry.bindings.find? (·.1 == name)).map (·.2)

def providerToolCallName (call : ProviderToolCall) : Except ProviderToolProtocolError String :=
  match (call.function.strAt? "name").filter (!blank ·) with
  | some name => .ok name
  | none => .error ⟨"PROVIDER_TOOL_FUNCTION_NAME_MISSING",
      "provider tool_call.function.name is missing", none, some call.id, none⟩

def providerToolCallArguments (codec : Codec) (call : ProviderToolCall) :
    Except ProviderToolProtocolError Json :=
  match call.function.get? "arguments" with
  | none => .ok (.obj [])
  | some (.obj fields) => .ok (.obj fields)
  | some (.str text) =>
    if blank text then .ok (.obj [])
    else
      match codec.parse text with
      | .ok value => .ok value
      | .error err => .error ⟨"PROVIDER_TOOL_ARGUMENTS_JSON_INVALID",
          "provider tool_call.function.arguments is not valid JSON: " ++ err,
          call.function.strAt? "name", some call.id, none⟩
  | some _ => .error ⟨"PROVIDER_TOOL_ARGUMENTS_TYPE_INVALID",
      "provider tool_call.function.arguments must be a JSON string or object",
      call.function.strAt? "name", some call.id, none⟩

def forbiddenModelCapability (functionName : String) : Option String :=
  (stripPrefix "cap_model_" functionName).map fun tail => "model." ++ replaceChar '_' '.' tail

def unregisteredToolError (call : ProviderToolCall) (functionName : String) :
    ProviderToolProtocolError :=
  match forbiddenModelCapability functionName with
  | some modelCapability => ⟨"PROVIDER_TOOL_MODEL_CAPABILITY_FORBIDDEN",
      "provider-native tool call attempted forbidden model capability: " ++ modelCapability,
      some functionName, some call.id, some modelCapability⟩
  | none => ⟨"PROVIDER_TOOL_FUNCTION_UNREGISTERED",
      "provider-native tool function is not registered: " ++ functionName,
      some functionName, some call.id, none⟩

def decisionKindFor (capabilityId : String) : TaskAgentDecisionKind :=
  if capabilityId = "process.request_preview" then .requestPreview
  else if capabilityId = "process.clarify" then .clarify
  else if capabilityId = "process.complete" then .complete
  else if capabilityId = "process.fail" then .fail
  else .runCapability

def ProviderToolRegistry.decisionForToolCall (registry : ProviderToolRegistry) (codec : Codec)
    (call : ProviderToolCall) : Except ProviderToolProtocolError NextActionDecision := do
  let functionName ← providerToolCallName call
  match registry.bindingForToolName functionName with
  | none => .error (unregisteredToolError call functionName)
  | some binding =>
    let arguments ← providerToolCallArguments codec call
    let reason := ((arguments.strAt? "reason").filter (!blank ·)).getD
      "DeepSeek provider-native tool call requested this capability."
    .ok { decision (decisionKindFor binding.capabilityId) binding.capabilityId reason with
      outputSpec := arguments }

/-- every call names a tool that only reads or controls the process -/
def ProviderToolRegistry.limitExempt (registry : ProviderToolRegistry)
    (calls : List ProviderToolCall) : Bool :=
  calls.all fun call =>
    match providerToolCallName call with
    | .ok name => (registry.bindingForToolName name).any (·.readOnlyOrProcessControl)
    | .error _ => false

def providerToolIsMutationApplyCapability (capabilityId : String) : Bool :=
  ["os.move_path", "os.rename_path", "os.delete_path", "office.docx.rewrite_in_place",
    "os.write_file", "os.write_source_mutation_apply", "os.rollback_tx",
    "workspace.apply_organize_tx", "workspace.rename_batch_apply"].contains capabilityId

/-! ## budgets -/

structure ProviderToolLoopPolicy where
  maxProviderSubturns : Nat
  maxToolCallsPerSubturn : Nat
  maxToolCallsTotal : Nat

def ProviderToolLoopPolicy.normalized (policy : ProviderToolLoopPolicy) :
    ProviderToolLoopPolicy :=
  ⟨max policy.maxProviderSubturns 1, max policy.maxToolCallsPerSubturn 1,
    max policy.maxToolCallsTotal 1⟩

structure ProviderToolLoopExecutor where
  policy : ProviderToolLoopPolicy
  executedToolCalls : Nat

/-- `usize::saturating_add` -/
def saturatingAdd (a b : Nat) : Nat := min (a + b) 18446744073709551615

def ProviderToolLoopExecutor.new (policy : ProviderToolLoopPolicy) : ProviderToolLoopExecutor :=
  ⟨policy.normalized, 0⟩

def ProviderToolLoopExecutor.markExecuted (exec : ProviderToolLoopExecutor) (count : Nat) :
    ProviderToolLoopExecutor :=
  { exec with executedToolCalls := saturatingAdd exec.executedToolCalls count }

inductive BudgetErrorKind where
  | perSubturnToolCallLimit
  | totalToolCallLimit

structure ProviderToolLoopBudgetError where
  kind : BudgetErrorKind
  requestedToolCalls : Nat
  limit : Nat
  executedToolCallsBefore : Nat
  message : String

def ProviderToolLoopBudgetError.errorCode (_ : ProviderToolLoopBudgetError) : String :=
  "MODEL_TOOL_LOOP_BUDGET_EXCEEDED"

def ProviderToolLoopExecutor.checkSubturnBudget (exec : ProviderToolLoopExecutor)
    (calls : List ProviderToolCall) (allReadOnlyOrControl : Bool) :
    Except ProviderToolLoopBudgetError Unit :=
  let requested := calls.length
  let total := saturatingAdd exec.executedToolCalls requested
  if requested > exec.policy.maxToolCallsPerSubturn ∧ allReadOnlyOrControl = false then
    .error ⟨.perSubturnToolCallLimit, requested, exec.policy.maxToolCallsPerSubturn,
      exec.executedToolCalls,
      "provider tool loop returned " ++ toString requested ++
        " non-read-only tool calls in one subturn, exceeding limit " ++
        toString exec.policy.maxToolCallsPerSubturn⟩
  else if total > exec.policy.maxToolCallsTotal then
    .error ⟨.totalToolCallLimit, requested, exec.policy.maxToolCallsTotal, exec.executedToolCalls,
      "provider tool loop would execute " ++ toString total ++
        " total tool calls, exceeding limit " ++ toString exec.policy.maxToolCallsTotal⟩
  else .ok ()

def safeBlobName (value : String) : String :=
  mapChars (fun c => if c.isAlphanum || c == '.' || c == '-' || c == '_' then c else '_')
    (replaceChar '\\' '/' value)

def batchId (modelCallId : String) (subturnIndex : Nat) : String :=
  "ptbatch_" ++ safeBlobName modelCallId ++ "_" ++ toString subturnIndex

def skippedResult (call : ProviderToolCall) (reason batchId : String) (index : Nat) : Json :=
  .obj [("status", .str "skipped"), ("reason", .str reason),
    ("provider_tool_batch_id", .str batchId), ("provider_tool_call_id", .str call.id),
    ("provider_tool_call_index", .num index),
    ("provider_tool_name", match providerToolCallName call with
      | .ok name => .str name
      | .error _ => .null)]

end Provider

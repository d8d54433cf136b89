import SuperNova.Approval.Created
import SuperNova.Gate.Closure
import SuperNova.Jobs.Lifecycle

/-!
# The approval of a preview by the root process

The root process issues a token for the preview, finds the tool call that waits for it, and makes that
call under the token.  Before a call its approval is prepared, and after it the approval is finalized.
A program here appends events to the log of the job; an append can fail, and then nothing follows.

* `prepareCapabilityApproval`, `finalizeCapabilityApproval`: the two hooks around a call;
* `executeApprovedPendingProviderToolCall`: the call that waited for the token;
* `approvePreview`: the whole approval;
* `State.step`, `State.run`: approvals, with the events of others between them.
-/

set_option linter.unusedSectionVars false

namespace Root

open Text Workspace Os Approval

/-! ## policies -/

inductive CapabilityApprovalPolicy where
  | none
  | readOnly
  | previewOnly
  | workspaceMutation
  | previewBoundMutation
  | artifactCreate
  | terminalUnknownSideEffect
  /-- the old name of `workspaceMutation` -/
  | sourceMutationRequired
  /-- the old name of `previewBoundMutation` -/
  | previewBoundArtifact
  deriving DecidableEq

namespace CapabilityApprovalPolicy

def asStr : CapabilityApprovalPolicy → String
  | .none => "none"
  | .readOnly => "read_only"
  | .previewOnly => "preview_only"
  | .workspaceMutation => "workspace_mutation"
  | .previewBoundMutation => "preview_bound_mutation"
  | .artifactCreate => "artifact_create"
  | .terminalUnknownSideEffect => "terminal_unknown_side_effect"
  | .sourceMutationRequired => "source_mutation_required"
  | .previewBoundArtifact => "preview_bound_artifact"

def canonical : CapabilityApprovalPolicy → CapabilityApprovalPolicy
  | .sourceMutationRequired => .workspaceMutation
  | .previewBoundArtifact => .previewBoundMutation
  | other => other

def isUncontrolled (policy : CapabilityApprovalPolicy) : Bool :=
  policy.canonical = .none ∨ policy.canonical = .readOnly ∨ policy.canonical = .previewOnly

end CapabilityApprovalPolicy

structure CapabilityApprovalRequest where
  capabilityId : String
  policy : CapabilityApprovalPolicy
  targetPaths : List String
  targetPathSchema : String
  explicitApprovalId : Option String

structure CapabilityApprovalGuard where
  approvalTokenId : String
  capabilityId : String
  targetPaths : List String
  policy : CapabilityApprovalPolicy
  binding : String

/-- the loop of `normalize_scope_items`; what was seen is what was kept -/
def normalizeScopeItems (items : List String) : List String :=
  items.foldl (fun normalized item =>
    let value := trim (normalizePath item)
    if value = "" ∨ value = "*" ∨ value ∈ normalized then normalized else normalized ++ [value]) []

/-! ## programs on the log -/

/-- the log of the job, and the tokens whose call was made and returned a success -/
structure State where
  log : List Event
  applied : List ApprovalTokenRecord

def State.start : State := ⟨[], []⟩

abbrev LogM (α : Type) := EStateM IoError State α

/-- what an approval reads, and what the parts do that it calls; the parts return the events they
append, also when they fail -/
structure Env where
  jobId : String
  render : Json → Bytes
  /-- the clock, for the id of the token and for its end -/
  first : Nat
  second : Nat
  /-- the job and its root process, in the registry -/
  registered : Except IoError Unit
  /-- the appends that fail, by the log they are made on -/
  fails : List Event → Option IoError
  /-- the capabilities of `default_capability_registry` -/
  registry : List String
  /-- `build_capability_approval_request` -/
  request : String → Json → Option String → Except IoError CapabilityApprovalRequest
  /-- `execute_root_provider_capability` -/
  execute : String → Json → Option String → List Event → List Event × Except IoError Receipt
  /-- `provider_tool_result_from_receipt_for_root` -/
  toolResult : Receipt → Except IoError Json
  /-- `record_provider_tool_result_with_metadata` -/
  recordToolResult : String → Json → List Event → List Event × Except IoError Unit
  /-- `record_provider_user_control_message` -/
  recordUserControl : Json → List Event → List Event × Except IoError Unit

section
variable (env : Env)

def append (eventType : String) (data : Json) : LogM Unit := fun s =>
  match env.fails s.log with
  | some e => .error e s
  | none => .ok () { s with log := s.log ++ [⟨eventType, data⟩] }

def appendAll (events : List Event) : LogM Unit := events.forM fun e => append env e.eventType e.data

/-- a part that appends its own events -/
def call {α : Type} (part : List Event → List Event × Except IoError α) : LogM α := fun s =>
  match part s.log with
  | (events, .ok a) => .ok a { s with log := s.log ++ events }
  | (events, .error e) => .error e { s with log := s.log ++ events }

/-- the call under the token returned this receipt -/
def returned (token : ApprovalTokenRecord) (receipt : Receipt) : LogM Unit := modify fun s =>
  if receipt.status = "success" then { s with applied := s.applied ++ [token] } else s

/-! ## the hooks -/

/-- why no approval is asked for -/
def runtimeNote : String :=
  "Preview/approve/reject/edit blocking flow is disabled; capability execution proceeds through " ++
    "normal Kernel hard boundaries, runtime receipts, and rollback evidence."

/-- `prepare_capability_approval`; there is never a guard, and never a receipt that blocks -/
def prepareCapabilityApproval (request : CapabilityApprovalRequest) :
    LogM (Except Receipt (Option CapabilityApprovalGuard)) := do
  let policy := request.policy.canonical
  let targetPaths := normalizeScopeItems request.targetPaths
  if !policy.isUncontrolled || policy == .artifactCreate then
    append env "capability_approval_bypassed"
      (.obj [("approval_policy", .str policy.asStr), ("capability_id", .str request.capabilityId),
        ("mode", .str "rc0_run_through"),
        ("provided_approval_id", Json.ofText? request.explicitApprovalId),
        ("runtime_note", .str runtimeNote), ("target_path_schema", .str request.targetPathSchema),
        ("target_paths", .arr (targetPaths.map .str))])
  pure (.ok none)

def finalizeCapabilityApproval (guard : Option CapabilityApprovalGuard) (receipt : Receipt) :
    LogM Unit :=
  match guard with
  | none => pure ()
  | some guard =>
    if receipt.status ≠ "success" then pure ()
    else do
      let s ← get
      appendAll env (usedEvents s.log guard.approvalTokenId guard.capabilityId guard.targetPaths)
      append env "capability_approval_finalized"
        (.obj [("approval_policy", .str guard.policy.asStr),
          ("approval_token_id", .str guard.approvalTokenId), ("binding", .str guard.binding),
          ("capability_id", .str guard.capabilityId), ("receipt_status", .str receipt.status),
          ("target_paths", .arr (guard.targetPaths.map .str))])

/-! ## the call that waits -/

/-- a text at a key, or the text at the same key of an object there -/
def nestedText (data : Json) (key : String) : Option String :=
  (data.get? key).bind fun value => value.asStr?.or (value.strAt? key)

def pendingEventMatchesApproval (data : Json) (previewId previewTxId : String) : Bool :=
  let eventPreviewId := (nestedText data "preview_id").getD ""
  let eventPreviewTxId := (nestedText data "preview_tx_id").getD ""
  eventPreviewId == previewId || eventPreviewTxId == previewTxId || eventPreviewId == previewTxId ||
    eventPreviewTxId == previewId

/-- the call of the preview was made before -/
def alreadyExecuted (events : List Event) (previewId : String) : Bool :=
  events.any fun event =>
    (event.eventType == "provider_tool_call_approval_executed" ||
      event.eventType == "provider_terminal_tool_call_approval_executed") &&
        event.data.strAt? "preview_id" == some previewId

/-- the last call that waits for the preview -/
def pendingCall (events : List Event) (previewId txId : String) : Option Event :=
  events.reverse.find? fun event =>
    (event.eventType == "provider_tool_call_waiting_approval" ||
      event.eventType == "provider_terminal_tool_call_waiting_approval") &&
        pendingEventMatchesApproval event.data previewId txId

/-- a text that the event must have -/
def textRequired (data : Json) (key message : String) : Except IoError String :=
  match data.strAt? key with
  | some value => .ok value
  | none => .error ⟨.invalidData, message⟩

/-- the call was blocked: its receipt is its result -/
def recordBlocked (token : ApprovalTokenRecord) (pending : Json) (capabilityId : String)
    (receipt : Receipt) : LogM Bool := do
  let toolResult ← Io.lift (env.toolResult receipt)
  match pending.strAt? "provider_tool_call_id" with
  | some toolCallId => call (env.recordToolResult toolCallId toolResult)
  | none => pure ()
  append env "provider_tool_call_approval_execution_blocked"
    (.obj [("approval_token_id", .str token.approvalTokenId), ("capability_id", .str capabilityId),
      ("preview_id", .str token.previewId), ("receipt", receipt.toJson)])
  pure true

/-- the result of the call, for the provider and for the log -/
def recordExecuted (token : ApprovalTokenRecord) (pending : Json) (capabilityId : String)
    (receipt : Receipt) : LogM Bool := do
  let toolResult ← Io.lift (env.toolResult receipt)
  let toolCallId ← Io.lift
    (textRequired pending "provider_tool_call_id" "pending provider tool_call id missing")
  call (env.recordToolResult toolCallId toolResult)
  append env "provider_tool_call_approval_executed"
    (.obj [("approval_token_id", .str token.approvalTokenId), ("capability_id", .str capabilityId),
      ("preview_id", .str token.previewId), ("provider_tool_call_id", .str toolCallId),
      ("provider_tool_result_recorded", .bool true),
      ("receipt_ref", (toolResult.get? "receipt_ref").getD .null),
      ("receipt_status", .str receipt.status), ("tx_id", .str token.txId)])
  pure true

/-- the call itself, between its hooks -/
def executePending (token : ApprovalTokenRecord) (pending : Json) : LogM Bool := do
  let capabilityId ← Io.lift
    (textRequired pending "capability_id" "pending provider tool capability_id missing")
  let arguments := (pending.get? "arguments").getD (.obj [])
  if capabilityId ∈ env.registry then
    let request ← Io.lift (env.request capabilityId arguments (some token.approvalTokenId))
    match ← prepareCapabilityApproval env request with
    | .error receipt => recordBlocked env token pending capabilityId receipt
    | .ok guard =>
      let receipt ← call (env.execute capabilityId arguments (some token.approvalTokenId))
      returned token receipt
      finalizeCapabilityApproval env guard receipt
      recordExecuted env token pending capabilityId receipt
  else throw ⟨.notFound, capabilityId ++ " descriptor not found"⟩

def executeApprovedPendingProviderToolCall (token : ApprovalTokenRecord) : LogM Bool := do
  let s ← get
  if alreadyExecuted s.log token.previewId then pure false
  else
    match pendingCall s.log token.previewId token.txId with
    | none => pure false
    | some pending => executePending env token pending.data

/-! ## the approval -/

def replayedStatus (log : List Event) : String :=
  Jobs.replay (log.map fun event => ⟨event.eventType, event.data.strAt? "status"⟩)

/-- `issue_token_for_preview` and `issue_token_for_latest_preview` -/
def issueTokenFor (approvalId : Option String) (approvalNote : String) : LogM ApprovalTokenRecord := do
  let s ← get
  let token ← Io.lift
    (issueToken env.render env.first env.second s.log approvalId approvalNote)
  appendAll env (issuedEvents token)
  pure token

/-- what the provider is told when no call waited for the preview -/
def approvedInstruction : String :=
  "The Process Kernel recorded the approval. If no pending provider-native tool_call is bound to " ++
    "this preview, continue from the current ProcessTruth state. Do not invent approval tokens or " ++
    "execute mutations outside Kernel capabilities."

/-- `approve_preview_selection_with_max_turns`, up to the resumption of the job; it does nothing unless
the job waits for an approval -/
def approvePreview (approvalId : Option String) (approvalNote : String) : LogM Unit := do
  let () ← Io.lift env.registered
  let s ← get
  if replayedStatus s.log ≠ "waiting_approval" then pure ()
  else
    append env "user_approval_received"
      (.obj [("approval_note", .str approvalNote),
        ("approval_source", .str "RootAgentProcessController"), ("job_id", .str env.jobId)])
    let token ← issueTokenFor env approvalId approvalNote
    let executed ← executeApprovedPendingProviderToolCall env token
    if !executed then
      call (env.recordUserControl
        (.obj [("approval_token_id", .str token.approvalTokenId),
          ("event", .str "user_approved_preview"), ("instruction", .str approvedInstruction),
          ("preview_id", .str token.previewId)]))
    append env "job_resume_approval_token_ready"
      (.obj [("approval_token_id", .str token.approvalTokenId), ("job_id", .str env.jobId),
        ("preview_id", .str token.previewId), ("provider_tool_call_executed", .bool executed)])

end

/-! ## runs -/

/-- the events that only the use of a token appends -/
def usingTypes : List String := ["approval_token_consumed", "approval_token_used"]

inductive Move where
  | approve (env : Env) (approvalId : Option String) (approvalNote : String)
  /-- an event of another part of the process -/
  | other (event : Event)

def State.step (s : State) : Move → Option State
  | .approve env approvalId approvalNote => some (Io.final (approvePreview env approvalId approvalNote) s)
  | .other event =>
    if event.eventType ∈ usingTypes then none else some { s with log := s.log ++ [event] }

def State.run (s : State) : List Move → Option State
  | [] => some s
  | m :: moves => (s.step m).bind fun s' => s'.run moves

end Root

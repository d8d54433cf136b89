import SuperNova.Os.Runtime

/-!
# The calls of the approval runtime

A token approves capabilities on paths.  It is an event of the log, and `validateToken` looks it up
there: not yet consumed, its capability and each target in scope, not expired, and issued for the
preview it names.  The JSON text that is hashed, the clock and the log that is read are arguments.

A preview is a list of operations, each a capability with the paths it works on.  It is created as an
event of the log; a token for it is issued from that event, and used up by more events.  Every call
reads the log first and then appends its events one after the other, so a call is a function of the
log (and of the clock) that says what it returns and what it appends.

* `createPreviewTx`, `issueToken`, `validateToken`, `markTokenUsed`: the calls;
* `Call.run`: one call on a log.
-/

namespace Approval

open Text Workspace Os FileTree

def valuesToStrings (items : List Json) : List String :=
  ((items.filterMap Json.asStr?).map normalizePath).filter fun item => !blank item

/-- an array of strings in the data of an event -/
def scopeOf (value : Option Json) : List String :=
  ((value.bind Json.asArr?).map valuesToStrings).getD []

/-- `approval_scope_hash`, over the text `serde_json::to_string` makes of the value -/
def approvalScopeHash (render : Json → Bytes) (value : Json) : String :=
  hex16 (fnv1a64 (render value)).toNat

def tokenIsConsumed (events : List Event) (approvalTokenId : String) : Bool :=
  events.any fun event =>
    (event.eventType == "approval_token_consumed" || event.eventType == "approval_token_used") &&
      event.data.strAt? "approval_token_id" == some approvalTokenId

/-- the last event that issued the token -/
def tokenEvent (events : List Event) (approvalTokenId : String) : Option Event :=
  events.reverse.find? fun event =>
    event.eventType == "approval_token_issued" &&
      event.data.strAt? "approval_token_id" == some approvalTokenId

def approvedActions (event : Event) : List String :=
  scopeOf ((event.data.get? "approved_operation_scope").or (event.data.get? "approved_action_scope"))

def approvedPaths (event : Event) : List String := scopeOf (event.data.get? "approved_path_scope")

/-- the text check of one scope and one target -/
def covers (scope target : String) : Bool :=
  scope == target || (stripPrefix (trimEndMatches '/' scope ++ "/") target).isSome

/-- a preview of the token's transaction is in the log, unchanged -/
def previewHashOk (render : Json → Bytes) (events : List Event) (event : Event) : Bool :=
  events.reverse.any fun previewEvent =>
    previewEvent.eventType == "preview_tx_created" &&
      (previewEvent.data.strAt? "tx_id").getD "" == (event.data.strAt? "tx_id").getD "" &&
      (event.data.strAt? "allowed_ops_hash").getD "" == approvalScopeHash render previewEvent.data

/-- the checks on a token that was found -/
def tokenCovers (render : Json → Bytes) (now : Nat) (events : List Event) (event : Event)
    (capabilityId : String) (targetPaths : List String) : Bool :=
  let actionOk := (approvedActions event).any (· == capabilityId)
  let pathOk := (targetPaths.map normalizePath).all fun target =>
    (approvedPaths event).any fun scope => covers scope target
  let expiresOk := ((event.data.get? "expires_at_ms").bind Json.asNat?).all fun expires => now ≤ expires
  actionOk && pathOk && expiresOk && previewHashOk render events event

/-- `ApprovalRuntime::validate_token` -/
def validateToken (render : Json → Bytes) (now : Nat) (readEvents : Except Fault (List Event))
    (approvalTokenId capabilityId : String) (targetPaths : List String) : Except Fault Bool :=
  if blank approvalTokenId then .ok false
  else do
    let events ← readEvents
    match tokenEvent events approvalTokenId with
    | none => pure false
    | some event =>
      if tokenIsConsumed events approvalTokenId then pure false
      else pure (tokenCovers render now events event capabilityId targetPaths)

end Approval

namespace Approval

open Text Workspace Os FileTree

inductive ErrorKind where
  | notFound
  | invalidInput
  | invalidData
  deriving DecidableEq

/-- `io::Error` -/
structure IoError where
  kind : ErrorKind
  message : String
  deriving DecidableEq

/-! ## previews -/

structure ExecutablePreviewOperation where
  capabilityId : String
  arguments : Json
  targetPaths : List String
  humanDescription : String
  rollbackPolicy : Option String

def ExecutablePreviewOperation.toJson (op : ExecutablePreviewOperation) : Json :=
  .obj [("arguments", op.arguments), ("capability_id", .str op.capabilityId),
    ("human_description", .str op.humanDescription),
    ("rollback_policy", Json.ofText? op.rollbackPolicy),
    ("target_paths", .arr (op.targetPaths.map .str))]

structure PreviewTx where
  txId : String
  previewId : String
  previewRef : String
  humanPreviewMarkdown : String
  executableOperations : List ExecutablePreviewOperation
  proposedActions : List String
  targetPaths : List String
  riskLevel : String
  rollbackPlanRef : Option String

def PreviewTx.toJson (p : PreviewTx) : Json :=
  .obj [("executable_operations", .arr (p.executableOperations.map (·.toJson))),
    ("human_preview_markdown", .str p.humanPreviewMarkdown), ("preview_id", .str p.previewId),
    ("preview_ref", .str p.previewRef), ("proposed_actions", .arr (p.proposedActions.map .str)),
    ("risk_level", .str p.riskLevel), ("rollback_plan_ref", Json.ofText? p.rollbackPlanRef),
    ("target_paths", .arr (p.targetPaths.map .str)), ("tx_id", .str p.txId)]

/-- the data of `preview_created` -/
def PreviewTx.createdJson (p : PreviewTx) : Json :=
  .obj [("approval_required", .bool true),
    ("executable_operations", .arr (p.executableOperations.map (·.toJson))),
    ("human_preview_markdown", .str p.humanPreviewMarkdown), ("preview_id", .str p.previewId),
    ("preview_ref", .str p.previewRef), ("proposed_actions", .arr (p.proposedActions.map .str)),
    ("risk_level", .str p.riskLevel), ("rollback_plan_ref", Json.ofText? p.rollbackPlanRef),
    ("target_paths", .arr (p.targetPaths.map .str))]

/-- the loop of `normalize_preview_scope`; what was seen is what was kept -/
def normalizeItems (field : String) : List String → List String → Except IoError (List String)
  | normalized, [] => .ok normalized
  | normalized, item :: items =>
    let value := trim (normalizePath item)
    if value = "*" then
      .error ⟨.invalidInput, "preview tx " ++ field ++ " cannot contain wildcard scope"⟩
    else if value = "" ∨ value ∈ normalized then normalizeItems field normalized items
    else normalizeItems field (normalized ++ [value]) items

def normalizePreviewScope (field : String) (items : List String) : Except IoError (List String) := do
  let normalized ← normalizeItems field [] items
  if normalized = [] then
    .error ⟨.invalidInput, "preview tx " ++ field ++ " cannot be empty"⟩
  else pure normalized

/-- one round of the loop of `normalize_executable_operations` -/
def normalizeOperation (op : ExecutablePreviewOperation) :
    Except IoError ExecutablePreviewOperation :=
  let capabilityId := trim op.capabilityId
  if capabilityId = "" ∨ capabilityId = "*" then
    .error ⟨.invalidInput,
      "preview tx executable_operations capability_id cannot be empty or wildcard"⟩
  else do
    let targetPaths ← normalizePreviewScope "executable_operations.target_paths" op.targetPaths
    let humanDescription := if blank op.humanDescription then capabilityId else op.humanDescription
    pure ⟨capabilityId, op.arguments, targetPaths, humanDescription, op.rollbackPolicy⟩

def normalizeExecutableOperations (operations : List ExecutablePreviewOperation) :
    Except IoError (List ExecutablePreviewOperation) :=
  if operations.isEmpty then
    .error ⟨.invalidInput, "preview tx executable_operations cannot be empty"⟩
  else operations.mapM normalizeOperation

/-- the capability ids, each where it first occurs -/
def capabilityIdsFrom : List String → List ExecutablePreviewOperation → List String
  | seen, [] => seen
  | seen, op :: operations =>
    let capabilityId := trim op.capabilityId
    if capabilityId = "" ∨ capabilityId ∈ seen then capabilityIdsFrom seen operations
    else capabilityIdsFrom (seen ++ [capabilityId]) operations

def operationCapabilityIds (operations : List ExecutablePreviewOperation) : List String :=
  capabilityIdsFrom [] operations

def operationTargetPaths (operations : List ExecutablePreviewOperation) : List String :=
  match normalizePreviewScope "target_paths" (operations.flatMap (·.targetPaths)) with
  | .ok paths => paths
  | .error _ => []

/-- where `write_blob` puts a file -/
def blobRef (jobId name : String) : String := "blob://" ++ jobId ++ "/" ++ name

/-- `create_preview_tx`; the clock is read once for each id -/
def createPreviewTx (jobId : String) (previewMs txMs : Nat) (previewMarkdown : String)
    (executableOperations : List ExecutablePreviewOperation) (riskLevel : String) :
    Except IoError PreviewTx := do
  let operations ← normalizeExecutableOperations executableOperations
  let previewId := "preview_" ++ toString previewMs
  let name := "previews/" ++ safeBlobName previewId
  pure
    { txId := "preview_tx_" ++ toString txMs
      previewId := previewId
      previewRef := blobRef jobId (name ++ "_preview.md")
      humanPreviewMarkdown := previewMarkdown
      executableOperations := operations
      proposedActions := operationCapabilityIds operations
      targetPaths := operationTargetPaths operations
      riskLevel := riskLevel
      rollbackPlanRef := some (blobRef jobId (name ++ "_rollback_plan.json")) }

def createdEvents (p : PreviewTx) : List Event :=
  [⟨"preview_tx_created", p.toJson⟩, ⟨"preview_created", p.createdJson⟩]

/-! ## what an event says of its preview -/

/-- one element of `executable_operations` -/
def previewOperation (operation : Json) : Option ExecutablePreviewOperation :=
  (operation.strAt? "capability_id").map fun capabilityId =>
    ⟨capabilityId, (operation.get? "arguments").getD .null, scopeOf (operation.get? "target_paths"),
      (operation.strAt? "human_description").getD capabilityId,
      operation.strAt? "rollback_policy"⟩

def previewOperations (data : Json) : Option (List ExecutablePreviewOperation) :=
  ((data.get? "executable_operations").bind Json.asArr?).bind fun operations =>
    operations.mapM previewOperation

/-- a scope of the operations, or else the strings at a key -/
def scopeOrField (data : Json) (key : String) (scope : List ExecutablePreviewOperation → List String) :
    Option (List String) :=
  match (previewOperations data).map scope with
  | some (item :: items) => some (item :: items)
  | _ => ((data.get? key).bind Json.asArr?).map valuesToStrings

def previewOperationCapabilityIds (data : Json) : Option (List String) :=
  scopeOrField data "proposed_actions" operationCapabilityIds

def previewOperationTargetPaths (data : Json) : Option (List String) :=
  scopeOrField data "target_paths" operationTargetPaths

/-! ## tokens -/

structure ApprovalTokenRecord where
  approvalTokenId : String
  txId : String
  previewId : String
  approvedOperationScope : List String
  approvedActionScope : List String
  approvedPathScope : List String
  allowedOpsHash : String
  expiresAtMs : Nat
  approvalNote : String

def ApprovalTokenRecord.toJson (t : ApprovalTokenRecord) : Json :=
  .obj [("allowed_ops_hash", .str t.allowedOpsHash), ("approval_note", .str t.approvalNote),
    ("approval_token_id", .str t.approvalTokenId),
    ("approved_action_scope", .arr (t.approvedActionScope.map .str)),
    ("approved_operation_scope", .arr (t.approvedOperationScope.map .str)),
    ("approved_path_scope", .arr (t.approvedPathScope.map .str)),
    ("expires_at_ms", .num (Int.ofNat t.expiresAtMs)), ("preview_id", .str t.previewId),
    ("tx_id", .str t.txId)]

/-- the data of `preview_tx_approved` -/
def ApprovalTokenRecord.approvedJson (t : ApprovalTokenRecord) : Json :=
  .obj [("approval_note", .str t.approvalNote), ("approval_token_id", .str t.approvalTokenId),
    ("preview_id", .str t.previewId), ("status", .str "approved"), ("tx_id", .str t.txId)]

def issuedEvents (t : ApprovalTokenRecord) : List Event :=
  [⟨"preview_tx_approved", t.approvedJson⟩, ⟨"approval_token_issued", t.toJson⟩]

/-- `closed_or_approved_tx` holds the transaction -/
def closedOrApproved (events : List Event) (txId : String) : Bool :=
  events.any fun event =>
    (event.eventType == "preview_tx_closed" || event.eventType == "preview_tx_approved" ||
      event.eventType == "approval_token_issued") && event.data.strAt? "tx_id" == some txId

/-- the last open preview, or the last one with this id -/
def openPreview (events : List Event) (approvalId : Option String) : Option Event :=
  events.reverse.find? fun event =>
    let txId := (event.data.strAt? "tx_id").getD ""
    let previewId := (event.data.strAt? "preview_id").getD ""
    event.eventType == "preview_tx_created" &&
      (approvalId.all fun selected => selected == txId || selected == previewId) &&
        !closedOrApproved events txId

/-- `items.filter(|items| !items.is_empty()).ok_or(..)` -/
def scopeRequired (scope : Option (List String)) (message : String) :
    Except IoError (List String) :=
  match scope with
  | some (item :: items) => .ok (item :: items)
  | _ => .error ⟨.invalidData, message⟩

/-- the token that approves a preview; the clock is read for its id and again for its end -/
def tokenFor (render : Json → Bytes) (tokenMs expiresMs : Nat) (preview : Json)
    (approvalNote : String) : Except IoError ApprovalTokenRecord := do
  let previewId := (preview.strAt? "preview_id").getD "preview_unknown"
  let approvedOperations ← scopeRequired (previewOperationCapabilityIds preview)
    ("preview tx cannot be approved without explicit executable_operations " ++
      "capability_id scope")
  let targetPaths ← scopeRequired (previewOperationTargetPaths preview)
    "preview tx cannot be approved without explicit target_paths"
  pure
    { approvalTokenId := "approval_" ++ safeBlobName previewId ++ "_" ++ toString tokenMs
      txId := (preview.strAt? "tx_id").getD previewId
      previewId := previewId
      approvedOperationScope := approvedOperations
      approvedActionScope := approvedOperations
      approvedPathScope := targetPaths
      allowedOpsHash := approvalScopeHash render preview
      expiresAtMs := expiresMs + 24 * 60 * 60 * 1000
      approvalNote := approvalNote }

/-- the id a caller selects a preview by, if it is not blank -/
def selectedId (approvalId : Option String) : Option String :=
  (approvalId.map trim).filter fun value => value ≠ ""

/-- `issue_token_for_preview_selection` -/
def issueToken (render : Json → Bytes) (tokenMs expiresMs : Nat) (events : List Event)
    (approvalId : Option String) (approvalNote : String) : Except IoError ApprovalTokenRecord :=
  match openPreview events (selectedId approvalId) with
  | some preview => tokenFor render tokenMs expiresMs preview.data approvalNote
  | none =>
    .error ⟨.notFound, (selectedId approvalId).elim "no preview tx to approve"
      fun id => "no open preview tx to approve for approval_id: " ++ id⟩

/-- what `mark_token_used` appends; a token that is not in the log has no transaction -/
def usedEvents (events : List Event) (approvalTokenId capabilityId : String)
    (targetPaths : List String) : List Event :=
  let token := tokenEvent events approvalTokenId
  let txId := (token.bind fun event => event.data.strAt? "tx_id").getD ""
  let previewId := (token.bind fun event => event.data.strAt? "preview_id").getD ""
  let targets : Json := .arr ((targetPaths.map normalizePath).map .str)
  let ofTx (event : Event) : List Event := if txId = "" then [] else [event]
  [⟨"approval_token_consumed", .obj [("approval_token_id", .str approvalTokenId),
      ("capability_id", .str capabilityId), ("preview_id", .str previewId),
      ("status", .str "consumed"), ("target_paths", targets), ("tx_id", .str txId)]⟩] ++
    ofTx ⟨"preview_tx_applied", .obj [("approval_token_id", .str approvalTokenId),
      ("capability_id", .str capabilityId), ("preview_id", .str previewId),
      ("status", .str "applied"), ("target_paths", targets), ("tx_id", .str txId)]⟩ ++
    [⟨"approval_token_used", .obj [("approval_token_id", .str approvalTokenId),
      ("capability_id", .str capabilityId), ("preview_id", .str previewId),
      ("target_paths", targets), ("tx_id", .str txId)]⟩] ++
    ofTx ⟨"preview_tx_closed", .obj [("approval_token_id", .str approvalTokenId),
      ("preview_id", .str previewId), ("status", .str "applied"), ("tx_id", .str txId)]⟩

/-! ## one call -/

inductive Call where
  | createPreviewTx (previewMarkdown : String) (operations : List ExecutablePreviewOperation)
      (riskLevel : String)
  /-- `issue_token_for_preview`, or `issue_token_for_latest_preview` -/
  | issueToken (approvalId : Option String) (approvalNote : String)
  | validateToken (approvalTokenId capabilityId : String) (targetPaths : List String)
  | markTokenUsed (approvalTokenId capabilityId : String) (targetPaths : List String)

inductive Answer where
  | preview (p : PreviewTx)
  | token (t : ApprovalTokenRecord)
  | validates (approvalTokenId : String) (valid : Bool)
  | used (approvalTokenId : String)

/-- what a runtime is built from, as far as its calls tell: the job, and how JSON prints -/
structure Runtime where
  jobId : String
  render : Json → Bytes

/-- what a call returns and appends, when the clock says `first` and then `second` -/
def Call.run (rt : Runtime) (events : List Event) (first second : Nat) :
    Call → Except IoError (Answer × List Event)
  | .createPreviewTx previewMarkdown operations riskLevel => do
    let p ← Approval.createPreviewTx rt.jobId first second previewMarkdown operations riskLevel
    pure (.preview p, createdEvents p)
  | .issueToken approvalId approvalNote => do
    let t ← Approval.issueToken rt.render first second events approvalId approvalNote
    pure (.token t, issuedEvents t)
  | .validateToken approvalTokenId capabilityId targetPaths =>
    match Approval.validateToken rt.render first (.ok events) approvalTokenId capabilityId
      targetPaths with
    | .ok valid => .ok (.validates approvalTokenId valid, [])
    | .error _ => .ok (.validates approvalTokenId false, [])
  | .markTokenUsed approvalTokenId capabilityId targetPaths =>
    .ok (.used approvalTokenId, usedEvents events approvalTokenId capabilityId targetPaths)

end Approval

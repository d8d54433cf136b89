import SuperNova.Chat.Log
import SuperNova.Data.Plans
import SuperNova.Feed.Messages
import SuperNova.Lib.Standing
import SuperNova.Lib.Table

/-!
# The detail of a task

The events of a job are projected to messages, one event to one message, and the messages are appended to the
projection shard of the task whenever the task is hydrated.

The events of a job are projected to what the task shows of it: its artifacts by path, its receipts, its
approvals and the directory that was chosen for the output.

* `processEventToMessage`: the message of an event;
* `hydrateMessages`: the appends of one hydration;
* `hydrate_prefixes` (**main**): hydrations of prefixes of a log leave no trace behind one of the whole log;
* `artifactPathsFromValue`: the paths that a receipt names;
* `artifactsFromEvent`, `mergeArtifact`: the artifacts of one event, and what they change;
* `projectTaskDetail`: the projection of a log;
* `artifact_verified_iff` (**main**): an artifact is verified exactly when some event of the log verified it;
* `projectTaskDetail_approvals`: no approval is ever listed.
-/

set_option linter.unusedSectionVars false

namespace Tasks

open Feed Chat

/-! ## events -/

structure ProcessEvent where
  eventId : Nat
  timestampMs : Nat
  eventType : String
  data : Json

variable (codec : Codec)

/-- `capability_name` -/
def capabilityName (payload : Json) : Option String :=
  (stringAt payload ["capability_id"]).or <| (stringAt payload ["provider_tool_name"]).or <|
  (stringAt payload ["tool_name"]).or <| (stringAt payload ["data", "capability_id"]).or <|
  (stringAt payload ["data", "provider_tool_name"]).or <| stringAt payload ["data", "tool_name"]

/-- `status_value` -/
def statusValue (payload : Json) : Option String :=
  (stringAt payload ["status"]).or (stringAt payload ["data", "status"])

def clarificationMessageBody (payload : Json) : Option String :=
  (payload.strAt? "question").or (payload.strAt? "reason")

def userForcedCloseBody (payload : Json) : String :=
  match payload.strAt? "reason" with
  | some reason => "用户已强制关闭该 TASK。" ++ reason
  | none => "用户已强制关闭该 TASK。"

def modelCallEventBody (payload : Json) (eventType : String) : String :=
  let operation := ((stringAt payload ["operation"]).or <| (stringAt payload ["data", "operation"]).or <|
    (stringAt payload ["capability_id"]).or <| stringAt payload ["data", "capability_id"]).getD "model operation"
  let model := ((stringAt payload ["model"]).or (stringAt payload ["data", "model"])).getD "model"
  let provider := ((stringAt payload ["provider"]).or (stringAt payload ["data", "provider"])).getD "provider"
  let status := (statusValue payload).getD (humanizeEvent eventType)
  operation ++ ": " ++ status ++ "\nProvider: " ++ provider ++ "\nModel: " ++ model

/-- a heading and the items under it, when there are any -/
def itemLines (heading : String) (items : List Json) : List String :=
  let texts := items.filterMap Json.asStr?
  if texts.isEmpty then [] else "" :: heading :: texts.map ("- " ++ ·)

def completionMessageBody (payload : Json) : String :=
  let first := match payload.strAt? "completion_statement", payload.strAt? "status" with
    | some statement, _ => statement
    | none, some status => "Task " ++ status ++ "."
    | none, none => "Task completed."
  let claimedArtifacts := (((payload.get? "claimed_artifacts").or (payload.get? "artifacts")).bind
    Json.asArr?).getD []
  let limitations := ((payload.get? "known_limitations").bind Json.asArr?).getD []
  Text.join "\n" (first :: (itemLines "Artifacts:" claimedArtifacts ++
    itemLines "Known limitations:" limitations))

def providerNativeAssistantContentBody (payload : Json) : Option String :=
  ((payload.strAt? "assistant_content").filter (· != "")).or
    ((payload.strAt? "output_ref").map ("Model message content: " ++ ·))

def toolResultTitle (payload : Json) : String :=
  (capabilityName payload).getD "Tool result" ++ ": " ++ (statusValue payload).getD "recorded"

/-- a line with a label, when there is a text for it -/
def labelled (label : String) (text : Option String) : List String := (text.map (label ++ ·)).toList

def toolEventBody (payload : Json) (fallbackStatus : String) : String :=
  let capability := (capabilityName payload).getD "Tool"
  let status := (statusValue payload).getD fallbackStatus
  let previewId := (stringAt payload ["preview_id"]).or (stringAt payload ["data", "preview_id"])
  let receiptRef := (stringAt payload ["receipt_ref"]).or (stringAt payload ["data", "receipt_ref"])
  Text.join "\n" ((capability ++ ": " ++ status) :: (labelled "Reason: " (reasonValue codec payload) ++
    labelled "Preview: " previewId ++ labelled "Receipt: " receiptRef))

def errorEventBody (eventType : String) (payload : Json) : String :=
  Text.join "\n" (humanizeEvent eventType :: (labelled "Capability: " (capabilityName payload) ++
    labelled "Reason: " (reasonValue codec payload) ++ labelled "Status: " (statusValue payload)))

def processEventMessageStatus (eventType : String) : String :=
  match eventType with
  | "model_call_started" | "provider_tool_call_requested" | "provider_tool_call_decoded"
  | "capability_dispatched" => "streaming"
  | "model_call_blocked" => "blocked"
  | "job_failed" | "job_blocked" => "failed"
  | "job_waiting_user" => "waiting_user"
  | "job_cancelled" => "cancelled"
  | _ => "completed"

/-- role, type, title and text of the message for an event; events of other types have no message -/
def processEventBody (eventType : String) (data : Json) :
    Option (MessageRole × MessageType × String × Option String) :=
  let humanized := humanizeEvent eventType
  match eventType with
  | "process_started" | "model_config_bound" | "task_reference_sources_attached"
  | "task_artifact_destination_guidance_attached" | "context_window_checked" | "context_window_advisory"
  | "context_window_compaction_required" | "context_window_checkpoint_created"
  | "context_window_reestimate_completed" | "task_agent_session_started"
  | "task_agent_observation_recorded" => some (.agent, .phase, humanized, some humanized)
  | "model_call_started" | "model_call_completed" =>
    some (.agent, .phase, humanized, some (modelCallEventBody data eventType))
  | "provider_native_assistant_content_yielded" =>
    some (.assistant, .text, "Model message", providerNativeAssistantContentBody data)
  | "provider_tool_call_requested" | "provider_tool_call_decoded" | "capability_dispatched" =>
    some (.tool, .toolCall, "Tool call", some (toolEventBody codec data "requested"))
  | "provider_tool_result_recorded" | "capability_completed" | "capability_receipt"
  | "capability_receipt_recorded" =>
    some (.tool, .toolResult, toolResultTitle data, some (toolEventBody codec data "completed"))
  | "approval_requested" | "preview_ready" | "preview_tx_created" | "preview_created"
  | "provider_tool_call_waiting_approval" => none
  | "artifact_ready" | "artifact_verified" => some (.agent, .artifact, humanized, some humanized)
  | "process_completed" | "task_completed" => some (.agent, .text, "Task complete", some "Task completed")
  | "completion_statement_recorded" =>
    some (.agent, .text, "Task final answer", some (completionMessageBody data))
  | "job_completed" => some (.agent, .phase, "Task completed", some "Task completed.")
  | "job_waiting_user" =>
    some (.assistant, .text, "Clarification requested", clarificationMessageBody data)
  | "job_cancelled" => some (.system, .phase, "用户强制关闭", some (userForcedCloseBody data))
  | "model_call_attempt_failed" | "model_call_failed" | "model_call_blocked"
  | "provider_tool_call_recoverable_error" | "provider_tool_protocol_error" | "capability_blocked"
  | "process_action_blocked" | "completion_blocked" | "closure_gate_blocked" | "task_agent_session_failed"
  | "task_agent_session_blocked" => none
  | "job_failed" | "job_blocked" =>
    some (.system, .error, humanized, some (errorEventBody codec eventType data))
  | _ =>
    if Text.contains eventType "failed" || Text.contains eventType "blocked" then
      some (.system, .phase, humanized, some (errorEventBody codec eventType data))
    else none

/-- whose messages they are -/
structure TaskScope where
  workspaceUid : String
  containerId : String
  jobId : String

def processMessageId (jobId : String) (event : ProcessEvent) : String :=
  "task_evt_" ++ jobId ++ "_" ++ toString event.eventId

def processEventToMessage (scope : TaskScope) (event : ProcessEvent) : Option Message :=
  (processEventBody codec event.eventType event.data).map fun (role, messageType, title, bodyText) =>
    { messageId := processMessageId scope.jobId event
      workspaceUid := scope.workspaceUid
      containerId := scope.containerId
      lane := .task
      role
      messageType
      status := processEventMessageStatus event.eventType
      title := some title
      bodyText
      bodyJson := event.data
      cardJson := .obj []
      chatThreadId := none
      taskId := some scope.jobId
      jobId := some scope.jobId
      sourceKind := "process_truth"
      sourceRef := toString event.eventId
      sourceSeq := some (asI64 event.eventId)
      createdAtMs := event.timestampMs
      updatedAtMs := event.timestampMs
      sortKey := zeroPadded 20 event.timestampMs ++ "_" ++ zeroPadded 10 event.eventId }

/-! ## hydration -/

variable (scope : TaskScope)

/-- the appends of `hydrate_task`; `clock` is what the clock shows at each of them -/
def hydrateMessages (clock : Nat → Nat) : List ProcessEvent → Messages → Messages
  | [], messages => messages
  | event :: rest, messages =>
    hydrateMessages (fun i => clock (i + 1)) rest <|
      match processEventToMessage codec scope event with
      | some message => appendMessage (clock 0) messages message
      | none => messages

/-- a hydration that reads the first events of the log, or whose appends fail after those of these events -/
structure Hydration where
  readEvents : Nat
  clock : Nat → Nat

def Hydration.run (log : List ProcessEvent) (messages : Messages) (hydration : Hydration) : Messages :=
  hydrateMessages codec scope hydration.clock (log.take hydration.readEvents) messages

/-- what the events write under a message id -/
def writesFor (messageId : String) (events : List ProcessEvent) : List (String × Message) :=
  ((events.filterMap (processEventToMessage codec scope)).filter fun message =>
    message.messageId = messageId).map Message.view

variable {codec scope}

theorem look_hydrateMessages (clock : Nat → Nat) (events : List ProcessEvent) (messages : Messages)
    (messageId : String) : look (hydrateMessages codec scope clock events messages) messageId =
      (writesFor codec scope messageId events).foldl Replaced.write (look messages messageId) := by
  induction events generalizing clock messages with
  | nil => rfl
  | cons event rest ih =>
    rw [hydrateMessages, ih, writesFor, writesFor]
    cases hm : processEventToMessage codec scope event with
    | none => rw [List.filterMap_cons_none hm]
    | some message =>
      rw [List.filterMap_cons_some hm, look_appendMessage]
      by_cases hid : messageId = message.messageId
      · rw [if_pos hid, List.filter_cons_of_pos (by simp [hid]), List.map_cons, List.foldl_cons]
      · rw [if_neg hid, List.filter_cons_of_neg (by simpa using Ne.symm hid)]

theorem writesFor_prefix (messageId : String) {events log : List ProcessEvent} (h : events <+: log) :
    writesFor codec scope messageId events <+: writesFor codec scope messageId log :=
  ((h.filterMap _).filter _).map _

theorem look_hydrations (log : List ProcessEvent) (hydrations : List Hydration) (messages : Messages)
    (messageId : String) :
    look (hydrations.foldl (Hydration.run codec scope log) messages) messageId =
      (hydrations.map fun hydration => writesFor codec scope messageId (log.take hydration.readEvents)).foldl
        (fun entry written => written.foldl Replaced.write entry) (look messages messageId) := by
  induction hydrations generalizing messages with
  | nil => rfl
  | cons hydration rest ih =>
    rw [List.foldl_cons, ih, List.map_cons, List.foldl_cons, Hydration.run, look_hydrateMessages]

/-- **hydrations of prefixes leave no trace**: after any of them, in any order and any number of times, a
hydration of the whole log leaves the messages and sort keys that it alone would leave -/
theorem hydrate_prefixes (log : List ProcessEvent) (hydrations : List Hydration) (messages : Messages)
    (clock clock' : Nat → Nat) :
    look (hydrateMessages codec scope clock log (hydrations.foldl (Hydration.run codec scope log) messages)) =
      look (hydrateMessages codec scope clock' log messages) := by
  funext messageId
  rw [look_hydrateMessages, look_hydrateMessages, look_hydrations]
  refine Replaced.foldl_write_of_prefixes _ (fun written hwritten => ?_) _
  obtain ⟨hydration, -, rfl⟩ := List.mem_map.mp hwritten
  exact writesFor_prefix messageId (List.take_prefix _ _)

end Tasks

namespace Tasks

open Text Data

/-! ## paths -/

def normalizeWorkspacePath (value : String) : String :=
  trimMatches (· == '/') (String.ofList (trimStartPair '.' '/' (replaceChar '\\' '/' (trim value)).toList))

def scalarKeys : List String :=
  ["artifact_path", "archive_path", "path", "output_path", "destination_path", "destination_zip_path",
    "manifest_path", "checksums_path", "perf_notes_path", "workspace_path", "destination_dir"]

def arrayKeys : List String :=
  ["artifacts", "artifact_paths", "all_artifacts", "archive_paths", "claimed_artifacts", "paths",
    "output_paths", "files", "created_files", "written_files", "verified_paths", "included_artifacts"]

/-- the path that a string names, unless nothing is left of it -/
def namedPath (value : Json) : Option String :=
  (value.asStr?.map normalizeWorkspacePath).filter (· ≠ "")

mutual

def collectPathFields : Json → List String
  | .obj fields =>
    scalarKeys.filterMap (fun key => ((Json.obj fields).get? key).bind namedPath) ++
      arrayKeys.flatMap fun key => (((fieldPaths fields).find? fun f => f.1 == key).map (·.2)).getD []
  | _ => []

/-- what the items of each field name, for the fields that hold an array -/
def fieldPaths : List (String × Json) → List (String × List String)
  | [] => []
  | (key, .arr items) :: fields => (key, itemPaths items) :: fieldPaths fields
  | (key, _) :: fields => (key, []) :: fieldPaths fields

def itemPaths : List Json → List String
  | [] => []
  | .str s :: items => (namedPath (.str s)).toList ++ itemPaths items
  | item :: items => collectPathFields item ++ itemPaths items

end

/-- sorted, and each path once -/
def artifactPathsFromValue (value : Json) : List String :=
  ((collectPathFields value).insertionSort (· ≤ ·)).dedup

theorem mem_artifactPathsFromValue {value : Json} {path : String} :
    path ∈ artifactPathsFromValue value ↔ path ∈ collectPathFields value := by
  rw [artifactPathsFromValue, List.mem_dedup, List.mem_insertionSort]

/-! ## what an event says -/

def capabilityIdOf (event : ProcessEvent) : Option String := event.data.strAt? "capability_id"

def receiptStatus (event : ProcessEvent) : String := (event.data.strAt? "status").getD "recorded"

/-- `artifact_paths_from_value` of the receipt that the event carries, or of the event itself -/
def eventPaths (event : ProcessEvent) : List String :=
  artifactPathsFromValue ((event.data.get? "data").getD event.data)

def writeCapabilities : List String :=
  ["os.write_artifact", "os.zip", "artifact.copy_source_set", "package.build_zip", "office.docx.create",
    "office.docx.rewrite_save_as", "office.docx.rewrite_in_place", "workspace.perf_inventory",
    "dataset.export_csv", "dataset.export_markdown", "model.generate_artifact"]

def verificationCapabilities : List String :=
  ["os.verify_artifact", "artifact.verify_typed", "artifact.audit_quality", "model.audit_artifact_quality"]

def isArtifactWriteCapability (capabilityId : Option String) : Bool :=
  capabilityId.any (writeCapabilities.contains ·)

def isVerificationCapability (capabilityId : Option String) : Bool :=
  capabilityId.any (verificationCapabilities.contains ·)

def isReceiptEvent (eventType : String) : Bool :=
  ["capability_receipt", "verify_event", "artifact_model_audit_receipt", "tx_rollback"].contains eventType

/-- a write of the path that succeeded -/
def Writes (path : String) (event : ProcessEvent) : Prop :=
  receiptStatus event = "success" ∧ isArtifactWriteCapability (capabilityIdOf event) = true ∧
    path ∈ eventPaths event

/-- a verification of the path that succeeded -/
def Verifies (path : String) (event : ProcessEvent) : Prop :=
  receiptStatus event = "success" ∧ isVerificationCapability (capabilityIdOf event) = true ∧
    path ∈ eventPaths event

/-- a verification of the path that did not succeed -/
def FailsToVerify (path : String) (event : ProcessEvent) : Prop :=
  receiptStatus event ≠ "success" ∧ isVerificationCapability (capabilityIdOf event) = true ∧
    path ∈ eventPaths event

theorem capabilities_apart :
    (verificationCapabilities.all fun id => !writeCapabilities.contains id) = true := by decide

theorem not_write_of_verification {capabilityId : Option String}
    (h : isVerificationCapability capabilityId = true) : isArtifactWriteCapability capabilityId = false := by
  cases capabilityId with
  | none => rfl
  | some id =>
    have hmem : id ∈ verificationCapabilities := List.contains_iff_mem.mp h
    have hid := List.all_eq_true.mp capabilities_apart id hmem
    rwa [Bool.not_eq_true'] at hid

theorem Verifies.apart {path : String} {event : ProcessEvent} (h : Verifies path event) :
    ¬ (Writes path event ∨ FailsToVerify path event) := by
  rintro (⟨-, hwrite, -⟩ | ⟨hstatus, -, -⟩)
  · rw [not_write_of_verification h.2.1] at hwrite
    exact Bool.false_ne_true hwrite
  · exact hstatus h.1

/-! ## artifacts -/

structure ArtifactRecord where
  artifactId : String
  containerId : String
  taskId : Option String
  title : String
  artifactType : String
  path : Option String
  status : String
  capabilityId : Option String
  receiptRef : Option String
  verified : Bool
  kind : Option String
  createdAtMs : Nat

structure TaskReceiptRecord where
  receiptId : String
  taskId : String
  capabilityId : Option String
  status : String
  kind : String
  receiptRef : Option String
  artifactPaths : List String
  summary : Option String
  createdAtMs : Nat

/-- the fields of an approval that the projection reads -/
structure ApprovalRecord where
  status : String
  createdAtMs : Nat
  resolvedAtMs : Option Nat

def artifactTitle (path : String) : String := ((fileName path).filter (· ≠ "")).getD path

def artifactType (path : String) (capabilityId : Option String) : String :=
  if capabilityId.any (["os.zip", "package.build_zip"].contains ·) then "zip"
  else if capabilityId.any (["office.docx.create", "office.docx.rewrite_save_as",
    "office.docx.rewrite_in_place"].contains ·) then "docx"
  else toAsciiLowercase (((fileExtension path).filter (· ≠ "")).getD "artifact")

section
variable (taskId containerId : String)

def eventRef (event : ProcessEvent) : String :=
  "process_event://" ++ taskId ++ "/" ++ toString event.eventId

def receiptFromEvent (event : ProcessEvent) : Option TaskReceiptRecord :=
  if isReceiptEvent event.eventType then
    let paths := eventPaths event
    let label := (capabilityIdOf event).getD event.eventType
    let count := if paths.isEmpty then "" else "; " ++ toString paths.length ++ " path(s)"
    some
      { receiptId := "receipt_" ++ taskId ++ "_" ++ toString event.eventId
        taskId := taskId
        capabilityId := capabilityIdOf event
        status := receiptStatus event
        kind := event.eventType
        receiptRef := some (eventRef taskId event)
        artifactPaths := paths
        summary := some (label ++ ": " ++ receiptStatus event ++ count)
        createdAtMs := event.timestampMs }
  else none

/-- the event is a verification that succeeded -/
def eventVerified (event : ProcessEvent) : Bool :=
  receiptStatus event == "success" && isVerificationCapability (capabilityIdOf event)

def eventArtifactStatus (event : ProcessEvent) : String :=
  if eventVerified event then "verified"
  else if receiptStatus event == "success" && isArtifactWriteCapability (capabilityIdOf event) ||
    event.eventType == "job_completed" || event.eventType == "completion_statement_recorded" then "ready"
  else receiptStatus event

def artifactsFromEvent (event : ProcessEvent) : List ArtifactRecord :=
  (eventPaths event).zipIdx.map fun (path, index) =>
    { artifactId := "artifact_" ++ taskId ++ "_" ++ toString event.eventId ++ "_" ++ toString index
      containerId := containerId
      taskId := some taskId
      title := artifactTitle path
      artifactType := artifactType path (capabilityIdOf event)
      path := some path
      status := eventArtifactStatus event
      capabilityId := capabilityIdOf event
      receiptRef := some (eventRef taskId event)
      verified := eventVerified event
      kind := some event.eventType
      createdAtMs := event.timestampMs }

end

def mergeArtifact (existing next : ArtifactRecord) : ArtifactRecord where
  artifactId := existing.artifactId
  containerId := existing.containerId
  taskId := existing.taskId
  title := existing.title
  artifactType := existing.artifactType
  path := existing.path
  status :=
    if next.verified then "verified"
    else if next.status = "ready" ∧ existing.status ≠ "verified" then "ready"
    else if existing.status ≠ "verified" then next.status
    else existing.status
  capabilityId := existing.capabilityId.or next.capabilityId
  receiptRef := next.receiptRef.or existing.receiptRef
  verified := existing.verified || next.verified
  kind := next.kind.or existing.kind
  createdAtMs := existing.createdAtMs

/-- `entry`, `and_modify` with `merge_artifact`, `or_insert` -/
def mergeRecord (artifacts : Table String ArtifactRecord) (record : ArtifactRecord) :
    Table String ArtifactRecord :=
  let key := record.path.getD record.artifactId
  artifacts.insert key ((artifacts.get? key).elim record (mergeArtifact · record))

/-! ## the projection -/

/-- what the loop over the events builds -/
structure Projecting where
  approvals : Table String ApprovalRecord
  artifacts : Table String ArtifactRecord
  receipts : Table String TaskReceiptRecord
  selectedOutputDir : Option String

structure TaskDetailProjection where
  artifacts : List ArtifactRecord
  approvals : List ApprovalRecord
  receipts : List TaskReceiptRecord
  selectedOutputDir : Option String
  destinationFulfilled : Option Bool

def closePendingApprovals (approvals : Table String ApprovalRecord) (event : ProcessEvent) (status : String) :
    Table String ApprovalRecord :=
  approvals.mapValues fun approval =>
    if approval.status = "pending" then
      { approval with status := status, resolvedAtMs := some event.timestampMs }
    else approval

/-- the status that `update_approval_status` gives -/
def approvalStatus (event : ProcessEvent) : String :=
  if event.eventType = "preview_tx_closed" then
    match event.data.strAt? "status" with
    | some "applied" => "approved"
    | some status => status
    | none => "closed"
  else "approved"

def updateApprovalStatus (approvals : Table String ApprovalRecord) (event : ProcessEvent) :
    Table String ApprovalRecord :=
  match ((event.data.get? "preview_id").or (event.data.get? "tx_id")).bind Json.asStr? with
  | some previewId =>
    approvals.modify previewId fun approval =>
      { approval with status := approvalStatus event, resolvedAtMs := some event.timestampMs }
  | none => approvals

/-- the approvals after an event -/
def projectApprovals (approvals : Table String ApprovalRecord) (event : ProcessEvent) :
    Table String ApprovalRecord :=
  match event.eventType with
  | "task_artifact_destination_guidance_attached" | "preview_tx_created" | "preview_created" => approvals
  | "preview_tx_approved" | "approval_token_issued" | "approval_token_consumed" | "approval_token_used"
  | "preview_tx_applied" | "preview_tx_closed" => updateApprovalStatus approvals event
  | "user_input_received" | "job_waiting_user" =>
    closePendingApprovals approvals event "resolved_by_user_input"
  | "job_completed" | "task_completed" | "process_completed" => closePendingApprovals approvals event "closed"
  | "job_cancelled" => closePendingApprovals approvals event "cancelled"
  | "job_interrupted_by_model_protocol_error" => closePendingApprovals approvals event "interrupted"
  | eventType =>
    if contains eventType "failed" || contains eventType "blocked" then
      closePendingApprovals approvals event "blocked"
    else approvals

/-- the chosen directory after an event -/
def projectOutputDir (selected : Option String) (event : ProcessEvent) : Option String :=
  if event.eventType = "task_artifact_destination_guidance_attached" then
    ((event.data.get? "selected_output_dir").bind namedPath).or selected
  else selected

def artifactPathMatchesDir (path : Option String) (targetDir : String) : Bool :=
  match path with
  | none => false
  | some path =>
    let path := normalizeWorkspacePath path
    let target := trimEndMatches '/' (normalizeWorkspacePath targetDir)
    target == "" || target == "." || path == target || (target ++ "/").toList.isPrefixOf path.toList

section
variable (taskId containerId : String)

def projectEvent (state : Projecting) (event : ProcessEvent) : Projecting where
  approvals := projectApprovals state.approvals event
  artifacts := (artifactsFromEvent taskId containerId event).foldl mergeRecord state.artifacts
  receipts := (receiptFromEvent taskId event).elim state.receipts fun record =>
    state.receipts.insert record.receiptId record
  selectedOutputDir := projectOutputDir state.selectedOutputDir event

def projectEvents (events : List ProcessEvent) : Projecting :=
  events.foldl (projectEvent taskId containerId)
    { approvals := Table.empty, artifacts := Table.empty, receipts := Table.empty, selectedOutputDir := none }

def projectTaskDetail (events : List ProcessEvent) : TaskDetailProjection :=
  let state := projectEvents taskId containerId events
  let artifacts := state.artifacts.values.insertionSort (·.createdAtMs ≤ ·.createdAtMs)
  { artifacts := artifacts
    approvals := state.approvals.values.insertionSort (·.createdAtMs ≤ ·.createdAtMs)
    receipts := state.receipts.values.insertionSort (·.createdAtMs ≤ ·.createdAtMs)
    selectedOutputDir := state.selectedOutputDir
    destinationFulfilled := state.selectedOutputDir.map fun targetDir =>
      artifacts.any fun artifact => artifact.verified && artifactPathMatchesDir artifact.path targetDir }

end

/-! ## approvals -/

theorem projectApprovals_empty (event : ProcessEvent) :
    (projectApprovals Table.empty event).entries = [] := by
  have hclose (status : String) : (closePendingApprovals Table.empty event status).entries = [] := rfl
  have hupdate : (updateApprovalStatus Table.empty event).entries = [] := by
    rw [updateApprovalStatus]
    split <;> rfl
  rw [projectApprovals]
  split
  all_goals first | rfl | exact hupdate | exact hclose _ | skip
  split
  · exact hclose _
  · rfl

section
variable {taskId containerId : String} {events : List ProcessEvent} {event : ProcessEvent}

theorem projectEvents_concat : projectEvents taskId containerId (events ++ [event]) =
    projectEvent taskId containerId (projectEvents taskId containerId events) event :=
  List.foldl_concat ..

theorem projectEvents_approvals : (projectEvents taskId containerId events).approvals = Table.empty := by
  induction events using List.reverseRecOn with
  | nil => rfl
  | append_singleton events event ih =>
    rw [projectEvents_concat, projectEvent, ih]
    have hentries := projectApprovals_empty event
    cases hafter : projectApprovals Table.empty event with
    | mk entries sorted =>
      rw [hafter] at hentries
      subst hentries
      rfl

theorem projectTaskDetail_approvals : (projectTaskDetail taskId containerId events).approvals = [] := by
  rw [projectTaskDetail, projectEvents_approvals]
  rfl

end

/-! ## verified artifacts -/

/-- every artifact stands under its path, and the verified ones are those of some paths -/
structure Marked (artifacts : Table String ArtifactRecord) (holds : String → Prop) : Prop where
  named : ∀ path record, artifacts.get? path = some record → record.path = some path
  verified_iff : ∀ path,
    (∃ record, artifacts.get? path = some record ∧ record.verified = true) ↔ holds path

section
variable {taskId containerId path : String} {artifacts : Table String ArtifactRecord} {record : ArtifactRecord}
  {holds : String → Prop} {events : List ProcessEvent} {event : ProcessEvent}

theorem Marked.congr {holds' : String → Prop} (h : Marked artifacts holds)
    (heq : ∀ path, holds path ↔ holds' path) :
    Marked artifacts holds' :=
  ⟨h.named, fun path => (h.verified_iff path).trans (heq path)⟩

theorem Marked.merge (h : Marked artifacts holds) (hpath : record.path = some path) :
    Marked (mergeRecord artifacts record) fun other => holds other ∨ other = path ∧ record.verified = true := by
  have hget (other : String) : (mergeRecord artifacts record).get? other =
      if other = path then some ((artifacts.get? path).elim record (mergeArtifact · record))
      else artifacts.get? other := by
    rw [mergeRecord, hpath, Option.getD_some]
    exact Table.get?_insert
  constructor
  · intro other shown hshown
    rw [hget] at hshown
    split at hshown
    · subst other
      cases hold : artifacts.get? path with
      | none =>
        rw [hold] at hshown
        rw [← Option.some.inj hshown]
        exact hpath
      | some existing =>
        rw [hold] at hshown
        rw [← Option.some.inj hshown]
        exact h.named path existing hold
    · exact h.named other shown hshown
  · intro other
    rw [hget]
    by_cases hother : other = path
    · subst other
      rw [if_pos rfl, ← h.verified_iff path]
      cases hold : artifacts.get? path with
      | none => simp
      | some existing => simp [mergeArtifact]
    · rw [if_neg hother, h.verified_iff other]
      simp [hother]

theorem Marked.foldl (h : Marked artifacts holds) (records : List ArtifactRecord)
    (hpath : ∀ record ∈ records, record.path.isSome = true) :
    Marked (records.foldl mergeRecord artifacts) fun path =>
      holds path ∨ ∃ record ∈ records, record.path = some path ∧ record.verified = true := by
  induction records using List.reverseRecOn with
  | nil => exact h.congr fun path => by simp
  | append_singleton records record ih =>
    have hbefore := ih fun other hother => hpath other (List.mem_append_left _ hother)
    obtain ⟨named, hnamed⟩ :=
      Option.isSome_iff_exists.mp (hpath record (List.mem_append_right _ List.mem_cons_self))
    rw [List.foldl_concat]
    refine (hbefore.merge hnamed).congr fun path => ?_
    simp only [List.mem_append, List.mem_singleton, or_and_right, exists_or, exists_eq_left, hnamed,
      Option.some.injEq, or_assoc, eq_comm (a := path)]

theorem mem_artifactsFromEvent (h : record ∈ artifactsFromEvent taskId containerId event) :
    ∃ path ∈ eventPaths event, record.path = some path ∧ record.verified = eventVerified event := by
  obtain ⟨⟨path, index⟩, hmem, rfl⟩ := List.mem_map.mp h
  exact ⟨path, List.fst_mem_of_mem_zipIdx hmem, rfl, rfl⟩

theorem exists_artifactsFromEvent : (∃ record ∈ artifactsFromEvent taskId containerId event,
    record.path = some path ∧ record.verified = true) ↔ Verifies path event := by
  constructor
  · rintro ⟨record, hrecord, hpath, hverified⟩
    obtain ⟨named, hnamed, hrecordPath, hevent⟩ := mem_artifactsFromEvent hrecord
    rw [hrecordPath] at hpath
    rw [hevent, eventVerified, Bool.and_eq_true, beq_iff_eq] at hverified
    exact ⟨hverified.1, hverified.2, Option.some.inj hpath ▸ hnamed⟩
  · rintro ⟨hstatus, hcapability, hmem⟩
    obtain ⟨index, hindex, hget⟩ := List.getElem_of_mem hmem
    refine ⟨_, List.mem_map_of_mem (List.mk_mem_zipIdx_iff_getElem?.mpr
      (List.getElem?_eq_some_iff.mpr ⟨hindex, hget⟩)), rfl, ?_⟩
    show eventVerified event = true
    rw [eventVerified, hstatus, hcapability]
    rfl

theorem marked_projectEvents : Marked (projectEvents taskId containerId events).artifacts fun path =>
    ∃ event ∈ events, Verifies path event := by
  induction events using List.reverseRecOn with
  | nil => exact ⟨fun _ _ h => absurd h (by simp [projectEvents]), fun path => by simp [projectEvents]⟩
  | append_singleton events event ih =>
    rw [projectEvents_concat, projectEvent]
    have hpath : ∀ record ∈ artifactsFromEvent taskId containerId event, record.path.isSome = true := by
      intro record hrecord
      obtain ⟨named, -, hnamed, -⟩ := mem_artifactsFromEvent hrecord
      rw [hnamed]
      rfl
    refine (ih.foldl _ hpath).congr fun path => ?_
    rw [exists_artifactsFromEvent]
    simp only [List.mem_append, List.mem_singleton, or_and_right, exists_or, exists_eq_left]

theorem mem_artifacts : record ∈ (projectTaskDetail taskId containerId events).artifacts ↔
    ∃ path, (projectEvents taskId containerId events).artifacts.get? path = some record := by
  rw [projectTaskDetail, List.mem_insertionSort, Table.mem_values]

/-- **An artifact is verified exactly when some event of the log verified its path.** -/
theorem artifact_verified_iff : (∃ record ∈ (projectTaskDetail taskId containerId events).artifacts,
    record.path = some path ∧ record.verified = true) ↔ ∃ event ∈ events, Verifies path event := by
  have hmarked : Marked (projectEvents taskId containerId events).artifacts _ := marked_projectEvents
  rw [← hmarked.verified_iff path]
  constructor
  · rintro ⟨record, hrecord, hpath, hverified⟩
    obtain ⟨key, hkey⟩ := mem_artifacts.mp hrecord
    have hsame := hmarked.named key record hkey
    rw [hpath, Option.some.injEq] at hsame
    exact ⟨record, hsame ▸ hkey, hverified⟩
  · rintro ⟨record, hget, hverified⟩
    exact ⟨record, mem_artifacts.mpr ⟨path, hget⟩, hmarked.named path record hget, hverified⟩

theorem artifact_path (h : record ∈ (projectTaskDetail taskId containerId events).artifacts) :
    ∃ path, record.path = some path := by
  obtain ⟨key, hkey⟩ := mem_artifacts.mp h
  exact ⟨key, marked_projectEvents.named key record hkey⟩

end

end Tasks

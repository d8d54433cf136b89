import Mathlib.Data.List.Dedup
import Mathlib.Data.List.Sort
import SuperNova.Provider.Tools

/-!
# The tools of a provider request

How the tools of a request are chosen among the capabilities of the kernel.

* `ProviderToolset.fromCapabilityDescriptors`: the tools and the bindings of a list of descriptors, under a limit;
* `ProviderToolsetPlanner.planAndRecord`: the plan of a task, by its mode, the groups and the capabilities that the
  model has asked for, and the approvals that are open;
* `ProviderToolsetPlanner.planChatRuntimeReadonly`: the plan of a chat turn.

Both plans cut their record at the limit themselves; a chat plan's tools are cut once more where they are built.
-/

set_option linter.unusedSectionVars false

namespace Provider

open Text

/-! ## capabilities and names -/

def startsWith (start s : String) : Bool := (stripPrefix start s).isSome

/-- `provider_tool_name_for_capability` -/
def providerToolNameForCapability (capabilityId : String) : String :=
  "cap_" ++ mapChars (fun c => if c.isAlphanum then c else '_') capabilityId

def providerToolCapabilityIsExposable (capabilityId : String) : Bool := !startsWith "model." capabilityId

def providerToolCapabilityIsTaskRuntimeExposable (capabilityId : String) : Bool :=
  providerToolCapabilityIsExposable capabilityId && !startsWith "chat." capabilityId &&
    capabilityId != "process.approval.record" && capabilityId != "process.request_preview" &&
    capabilityId != "process.preview.create" && capabilityId != "process.pending_approvals" &&
    capabilityId != "workspace.rename_batch_preview" && capabilityId != "os.write_source_mutation_preview" &&
    capabilityId != "office.docx.rewrite_in_place_preview"

def providerToolDomain (capabilityId : String) : String :=
  if capabilityId = "process.fork_child" then "child_process"
  else ((splitOnce '.' capabilityId).map (·.1)).getD "process"

def chatRuntimeProviderToolCapabilities : List String :=
  ["chat.answer", "chat.clarify", "chat.needs_task", "os.list_tree", "os.workspace_inventory", "os.stat_path",
    "os.read_file", "os.hash_path", "os.diff", "os.verify_artifact", "source_set.create", "source_set.read_page",
    "source_set.coverage_verify", "workspace.batch_hash", "workspace.find_duplicates", "workspace.recent_changes",
    "workspace.recent_changes_snapshot", "dataset.read_page", "data.csv.read_dataset", "dataset.coverage_verify",
    "artifact.inspect", "artifact.audit_readonly", "client_env.scan_overview", "client_env.scan_device",
    "client_env.scan_storage", "client_env.scan_network", "client_env.scan_runtimes", "client_env.read_snapshot",
    "client_env.request_sensitive_disclosure", "process.read_ref", "tool.result.page", "tool.result.search",
    "tool.result.inspect_schema", "office.inspect_workbook", "office.workbook.read_cells",
    "office.workbook.read_text", "office.docx.read_text", "document.pdf.extract_text", "office.docx.batch_read_text",
    "office.docx.batch_extract_metadata", "office.docx.batch_validate", "office.docx.diff_summary",
    "office.docx.validate"]

/-! ## tools -/

structure ProviderToolDefinition where
  name : String
  description : String
  parameters : Json
  strict : Option Bool

/-- what a tool shows of a capability's descriptor -/
structure ProviderToolSchemas (δ : Type) where
  capabilityId : δ → String
  description : δ → String
  parameters : δ → Json
  strictParameters : δ → Json → Bool → Option Json

structure ProviderToolset extends ProviderToolRegistry where
  tools : List ProviderToolDefinition

section

variable {δ : Type} (schemas : ProviderToolSchemas δ) (strictMode : Bool)

def providerToolDefinition (descriptor : δ) : ProviderToolDefinition :=
  let parameters := schemas.parameters descriptor
  let strictParameters := schemas.strictParameters descriptor parameters strictMode
  ⟨providerToolNameForCapability (schemas.capabilityId descriptor), schemas.description descriptor,
    strictParameters.getD parameters, if strictParameters.isSome then some true else none⟩

def providerToolBinding (capabilityId : String) : ProviderToolBinding :=
  ⟨capabilityId, !providerToolIsMutationApplyCapability capabilityId⟩

/-- the tool is pushed and its binding inserted; a binding of the same name is replaced -/
def ProviderToolset.offer (toolset : ProviderToolset) (descriptor : δ) : ProviderToolset :=
  let definition := providerToolDefinition schemas strictMode descriptor
  { tools := toolset.tools ++ [definition]
    bindings := (definition.name, providerToolBinding (schemas.capabilityId descriptor)) ::
      toolset.bindings.filter (·.1 != definition.name) }

/-- the loop over the descriptors -/
def ProviderToolset.collect (known : List String) (limit : Option Nat) : ProviderToolset → List δ → ProviderToolset
  | toolset, [] => toolset
  | toolset, descriptor :: rest =>
    if !known.contains (schemas.capabilityId descriptor) ||
        !providerToolCapabilityIsExposable (schemas.capabilityId descriptor) then
      ProviderToolset.collect known limit toolset rest
    else if limit.any (fun max => max ≤ toolset.tools.length) then toolset
    else ProviderToolset.collect known limit (toolset.offer schemas strictMode descriptor) rest

def ProviderToolset.fromCapabilityDescriptors (registry descriptors : List δ) (limit : Option Nat) :
    ProviderToolset :=
  ProviderToolset.collect schemas strictMode (registry.map schemas.capabilityId) limit ⟨⟨[]⟩, []⟩ descriptors

def ProviderToolset.fromCapabilityIdsWithLimit (registry : List δ) (capabilityIds : List String)
    (limit : Option Nat) : ProviderToolset :=
  ProviderToolset.fromCapabilityDescriptors schemas strictMode registry
    (registry.filter fun descriptor => capabilityIds.contains (schemas.capabilityId descriptor)) limit

def ProviderToolset.phase6Selected (registry : List δ) (capabilityIds : List String) : ProviderToolset :=
  ProviderToolset.fromCapabilityIdsWithLimit schemas strictMode registry capabilityIds none

def ProviderToolset.chatRuntimeReadonly (registry : List δ) (maxProviderToolsPerRequest : Nat) : ProviderToolset :=
  ProviderToolset.fromCapabilityIdsWithLimit schemas strictMode registry chatRuntimeProviderToolCapabilities
    (some maxProviderToolsPerRequest)

end

/-! ## groups -/

structure ProviderToolGroupDescriptor where
  groupId : String
  capabilityIds : List String
  alwaysOn : Bool

def providerToolGroupDescriptors : List ProviderToolGroupDescriptor :=
  [⟨"core_control", ["process.toolset.select", "process.complete", "process.fail", "process.clarify",
      "process.read_ref", "process.query_events", "tool.result.page", "tool.result.search",
      "tool.result.inspect_schema"], true⟩,
    ⟨"read_workspace", ["os.list_tree", "os.workspace_inventory", "os.stat_path", "os.read_file", "os.hash_path",
      "os.diff", "os.verify_artifact", "data.csv.read_dataset", "office.workbook.read_cells",
      "office.workbook.read_text", "document.pdf.extract_text"], true⟩,
    ⟨"ref_result_navigation", ["process.read_ref", "tool.result.page", "tool.result.search",
      "tool.result.inspect_schema"], true⟩,
    ⟨"source_set_batch", ["source_set.create", "source_set.read_page", "source_set.coverage_verify",
      "workspace.batch_hash", "workspace.find_duplicates", "workspace.recent_changes",
      "workspace.recent_changes_snapshot"], true⟩,
    ⟨"dataset_ops", ["dataset.coverage_verify", "data.csv.read_dataset", "dataset.export_csv",
      "dataset.export_markdown"], true⟩,
    ⟨"artifact_write", ["os.write_artifact", "os.write_temp_dataset", "workspace.tree_index",
      "workspace.perf_inventory", "dataset.export_csv", "dataset.export_markdown", "artifact.copy_source_set",
      "office.docx.create", "office.docx.rewrite_save_as"], false⟩,
    ⟨"artifact_quality", ["artifact.verify_typed", "artifact.audit_quality"], true⟩,
    ⟨"mutation_preview", ["workspace.plan_organize"], false⟩,
    ⟨"mutation_apply", ["os.write_file", "os.write_source_mutation_apply", "os.copy_path", "os.move_path",
      "os.rename_path", "os.delete_path", "os.unzip", "workspace.apply_organize_tx", "workspace.rename_batch_apply",
      "office.docx.rewrite_in_place"], false⟩,
    ⟨"office_docx", ["office.docx.read_text", "office.workbook.read_cells", "office.workbook.read_text",
      "document.pdf.extract_text", "office.docx.batch_read_text", "office.docx.batch_extract_metadata",
      "office.docx.batch_validate", "office.docx.rewrite_preview", "office.docx.diff_summary",
      "office.docx.validate", "office.docx.create", "office.docx.rewrite_save_as",
      "office.docx.rewrite_in_place"], true⟩,
    ⟨"package_release", ["package.build_zip", "os.zip"], false⟩,
    ⟨"client_environment_overview", ["client_env.scan_overview"], true⟩,
    ⟨"client_environment", ["client_env.scan_overview", "client_env.scan_device", "client_env.scan_storage",
      "client_env.scan_network", "client_env.scan_runtimes", "client_env.read_snapshot",
      "client_env.request_sensitive_disclosure"], false⟩,
    ⟨"terminal_fallback", ["terminal.run_command", "terminal.start_service", "terminal.stop_service",
      "terminal.service_status"], false⟩,
    ⟨"process_structure", ["process.fork_child"], false⟩,
    ⟨"rollback_recovery", ["os.rollback_tx"], false⟩]

def alwaysOnGroupIds : List String := (providerToolGroupDescriptors.filter (·.alwaysOn)).map (·.groupId)

def processControlCapabilities : List String :=
  ["process.complete", "process.fail", "process.clarify", "process.toolset.select", "process.read_ref",
    "process.query_events", "tool.result.page", "tool.result.search", "tool.result.inspect_schema"]

def readContextCapabilities : List String :=
  ["os.list_tree", "os.workspace_inventory", "os.stat_path", "os.read_file", "os.hash_path", "os.diff",
    "os.verify_artifact", "data.csv.read_dataset", "office.workbook.read_cells", "office.workbook.read_text",
    "document.pdf.extract_text", "client_env.scan_overview", "source_set.create", "source_set.read_page",
    "source_set.coverage_verify", "workspace.batch_hash", "workspace.find_duplicates", "workspace.recent_changes",
    "workspace.recent_changes_snapshot", "dataset.coverage_verify", "artifact.verify_typed",
    "artifact.audit_quality", "office.docx.read_text", "office.workbook.read_cells", "office.workbook.read_text",
    "document.pdf.extract_text", "office.docx.batch_read_text", "office.docx.batch_extract_metadata",
    "office.docx.batch_validate", "office.docx.rewrite_preview", "office.docx.diff_summary", "office.docx.validate"]

def artifactWriteAlwaysOnCapabilities : List String := ["os.write_artifact", "os.write_temp_dataset"]

def minimalDecisionCapabilities : List String :=
  processControlCapabilities ++ readContextCapabilities ++ artifactWriteAlwaysOnCapabilities

def domainScopedCapabilities : List String :=
  processControlCapabilities ++ readContextCapabilities ++ artifactWriteAlwaysOnCapabilities

/-- `dedupe_strings`: what was met before is dropped -/
def dedupeStrings (seen : List String) : List String → List String
  | [] => []
  | item :: rest =>
    if seen.contains item then dedupeStrings seen rest else item :: dedupeStrings (item :: seen) rest

def indexedGroupCapabilities (activeGroupIds selectedCapabilityIds : List String) : List String :=
  let ids := (providerToolGroupDescriptors.filter fun group => activeGroupIds.contains group.groupId).flatMap
    (·.capabilityIds)
  dedupeStrings [] (ids ++ selectedCapabilityIds ++ artifactWriteAlwaysOnCapabilities)

/-! ## what the log says -/

structure TruthEvent where
  eventId : Nat
  eventType : String
  data : Json

def stringArrayField (value : Json) (key : String) : List String :=
  (((value.get? key).bind Json.asArr?).map fun items => items.filterMap Json.asStr?).getD []

structure LatestToolsetSelection where
  selectionId : String
  acceptedGroups : List String
  acceptedCapabilityIds : List String
  ttlModelCalls : Nat
  eventId : Nat

/-- the selection the model recorded last, until as many calls have started as it lives -/
def latestToolsetSelection (events : List TruthEvent) : Option LatestToolsetSelection := do
  let event ← events.reverse.find? (·.eventType == "provider_toolset_selection_recorded")
  let ttlModelCalls := min (max (((event.data.get? "ttl_model_calls").bind Json.asNat?).getD 4) 1) 6
  let callsAfterSelection := (events.filter fun candidate =>
    event.eventId < candidate.eventId && candidate.eventType == "model_call_started").length
  if ttlModelCalls ≤ callsAfterSelection then none
  else some ⟨(event.data.strAt? "selection_id").getD "toolset_selection_unknown",
    stringArrayField event.data "accepted_groups", stringArrayField event.data "accepted_capability_ids",
    ttlModelCalls, event.eventId⟩

/-- the operations of the tokens that are issued, not consumed, and whose transaction is not closed -/
def activeApprovalOperationCapabilities (events : List TruthEvent) : List String :=
  let consumed := (events.filter fun event =>
    event.eventType == "approval_token_consumed" || event.eventType == "approval_token_used").filterMap
      fun event => event.data.strAt? "approval_token_id"
  let closedTxs := (events.filter (·.eventType == "preview_tx_closed")).filterMap
    fun event => event.data.strAt? "tx_id"
  let open' := events.filter fun event => event.eventType == "approval_token_issued" &&
    (event.data.strAt? "approval_token_id").any (fun tokenId => !consumed.contains tokenId) &&
    !(event.data.strAt? "tx_id").any closedTxs.contains
  ((open'.flatMap fun event => stringArrayField event.data "approved_operation_scope").insertionSort (· ≤ ·)).dedup

/-! ## the planner -/

inductive ProviderToolsetMode where
  | minimalDecision
  | domainScoped
  | stateAwareExpanded
  | indexedGroups
  | rc0FullVisible
  | fullRegistered
  deriving DecidableEq

namespace ProviderToolsetMode

/-- `matches!(mode, FullRegistered | Rc0FullVisible)` -/
def full : ProviderToolsetMode → Bool
  | .fullRegistered | .rc0FullVisible => true
  | _ => false

/-- `matches!(mode, IndexedGroups | StateAwareExpanded)` -/
def indexed : ProviderToolsetMode → Bool
  | .indexedGroups | .stateAwareExpanded => true
  | _ => false

/-- `lifecycle_stage` -/
def lifecycleStage : ProviderToolsetMode → String
  | .fullRegistered => "full_registered"
  | .rc0FullVisible => "rc0_full_visible"
  | .indexedGroups => "indexed_groups"
  | .stateAwareExpanded => "state_aware_expanded"
  | .domainScoped => "domain_scoped"
  | .minimalDecision => "minimal_decision"

/-- how `{:?}` writes the mode -/
def debug : ProviderToolsetMode → String
  | .fullRegistered => "FullRegistered"
  | .rc0FullVisible => "Rc0FullVisible"
  | .indexedGroups => "IndexedGroups"
  | .stateAwareExpanded => "StateAwareExpanded"
  | .domainScoped => "DomainScoped"
  | .minimalDecision => "MinimalDecision"

end ProviderToolsetMode

structure ToolCallingConfig where
  toolsetMode : ProviderToolsetMode
  maxProviderToolsPerRequest : Nat
  strictMode : Bool

def deepseekMaxProviderTools : Nat := 128

def ToolCallingConfig.providerLimit (config : ToolCallingConfig) : Nat :=
  max (min config.maxProviderToolsPerRequest deepseekMaxProviderTools) 1

structure ProviderToolsetOmission where
  capabilityId : String
  domain : String
  reason : String

structure ProviderToolsetRecord where
  modelCallId : String
  operation : String
  requestedMode : ProviderToolsetMode
  effectiveMode : ProviderToolsetMode
  lifecycleStage : String
  selectionId : Option String
  activeGroupIds : List String
  latestSelectedGroupIds : List String
  latestSelectedCapabilityIds : List String
  providerLimit : Nat
  schemaCoverageCount : Nat
  modelCapabilityExcludedCount : Nat
  selectedCount : Nat
  selectedCapabilityIds : List String
  selectedTools : List ProviderToolDefinition
  omittedTools : List ProviderToolsetOmission
  domainCounts : List (String × Nat)
  truncatedByProviderLimit : Bool
  downgradedForProviderLimit : Bool
  progressiveDisclosure : Bool

structure ProviderToolsetPlan where
  providerToolsetRef : String
  registry : ProviderToolset
  record : ProviderToolsetRecord

structure ProviderToolsetPlanError where
  errorCode : String
  message : String
  requestedMode : ProviderToolsetMode
  providerLimit : Nat
  schemaCoverageCount : Nat

structure ProviderToolsetPlanner (δ : Type) where
  schemas : ProviderToolSchemas δ
  registry : List δ
  config : ToolCallingConfig

def domainCounts (capabilityIds : List String) : List (String × Nat) :=
  let domains := capabilityIds.map providerToolDomain
  ((domains.insertionSort (· ≤ ·)).dedup).map fun domain => (domain, domains.count domain)

/-- what a plan leaves out of `coverage`, and why -/
def omissions (coverage before after : List String) (otherwise : String) : List ProviderToolsetOmission :=
  (coverage.filter fun capabilityId => !after.contains capabilityId).map fun capabilityId =>
    ⟨capabilityId, providerToolDomain capabilityId,
      if before.contains capabilityId then "provider_limit_trimmed" else otherwise⟩

namespace ProviderToolsetPlanner

variable {δ : Type} (planner : ProviderToolsetPlanner δ)

def capabilityIds : List String := planner.registry.map planner.schemas.capabilityId

def coverageCapabilityIds : List String :=
  planner.capabilityIds.filter providerToolCapabilityIsTaskRuntimeExposable

def modelCapabilityExcludedCount : Nat := (planner.capabilityIds.filter (startsWith "model.")).length

/-- the groups that are always on, and those of the latest selection -/
def activeGroupIds (latestSelectedGroupIds : List String) : List String :=
  alwaysOnGroupIds ++ dedupeStrings alwaysOnGroupIds latestSelectedGroupIds

/-- the capabilities that the mode asks for -/
def requestedCapabilities (latestSelection : Option LatestToolsetSelection) (active : List String) : List String :=
  match planner.config.toolsetMode with
  | .minimalDecision => minimalDecisionCapabilities ++ active
  | .domainScoped => domainScopedCapabilities ++ active
  | .stateAwareExpanded | .indexedGroups =>
    indexedGroupCapabilities (activeGroupIds ((latestSelection.map (·.acceptedGroups)).getD []))
      ((latestSelection.map (·.acceptedCapabilityIds)).getD []) ++ active
  | .rc0FullVisible | .fullRegistered => planner.coverageCapabilityIds

structure Selection where
  selected : List String
  effectiveMode : ProviderToolsetMode
  downgraded : Bool
  activeGroupIds : List String
  latestSelectedGroupIds : List String
  latestSelectedCapabilityIds : List String

/-- `select_capabilities` -/
def selectCapabilities (latestSelection : Option LatestToolsetSelection) (active : List String) : Selection :=
  let requestedMode := planner.config.toolsetMode
  let latestSelectedGroupIds := (latestSelection.map (·.acceptedGroups)).getD []
  let latestSelectedCapabilityIds := (latestSelection.map (·.acceptedCapabilityIds)).getD []
  let coverage := planner.coverageCapabilityIds
  let deduped := dedupeStrings [] ((planner.requestedCapabilities latestSelection active).filter coverage.contains)
  if requestedMode.full then
    ⟨deduped, requestedMode, false, [if requestedMode = .rc0FullVisible then "rc0_full_visible" else
      "full_registered"], latestSelectedGroupIds, latestSelectedCapabilityIds⟩
  else
    ⟨deduped, if requestedMode.indexed then .indexedGroups else requestedMode,
      decide (planner.config.providerLimit < coverage.length), activeGroupIds latestSelectedGroupIds,
      latestSelectedGroupIds, latestSelectedCapabilityIds⟩

/-- the plan of a task; `events` is the log, where it can be read, and `written` what writing the record gives -/
def planAndRecord (events : Option (List TruthEvent)) (modelCallId operation : String)
    (written : Except String String) : Except ProviderToolsetPlanError ProviderToolsetPlan :=
  let config := planner.config
  let coverageIds := planner.coverageCapabilityIds
  let providerLimit := config.providerLimit
  let latestSelection := events.bind latestToolsetSelection
  let selection := planner.selectCapabilities latestSelection
    ((events.map activeApprovalOperationCapabilities).getD [])
  if config.toolsetMode.full && decide (providerLimit < selection.selected.length) then
    .error ⟨"PROVIDER_TOOLSET_LIMIT_EXCEEDED",
      config.toolsetMode.debug ++ " provider toolset requested " ++ toString selection.selected.length ++
        " tools, exceeding provider limit " ++ toString providerLimit,
      config.toolsetMode, providerLimit, coverageIds.length⟩
  else
    let selectedIds := selection.selected.take providerLimit
    let registry := ProviderToolset.phase6Selected planner.schemas config.strictMode planner.registry selectedIds
    let record : ProviderToolsetRecord :=
      { modelCallId, operation, requestedMode := config.toolsetMode, effectiveMode := selection.effectiveMode
        lifecycleStage := selection.effectiveMode.lifecycleStage
        selectionId := latestSelection.map (·.selectionId)
        activeGroupIds := selection.activeGroupIds
        latestSelectedGroupIds := selection.latestSelectedGroupIds
        latestSelectedCapabilityIds := selection.latestSelectedCapabilityIds
        providerLimit, schemaCoverageCount := coverageIds.length
        modelCapabilityExcludedCount := planner.modelCapabilityExcludedCount
        selectedCount := selectedIds.length, selectedCapabilityIds := selectedIds, selectedTools := registry.tools
        omittedTools := omissions coverageIds selection.selected selectedIds "indexed_group_not_selected"
        domainCounts := Provider.domainCounts coverageIds
        truncatedByProviderLimit := decide (providerLimit < selection.selected.length)
        downgradedForProviderLimit := selection.downgraded
        progressiveDisclosure := config.toolsetMode.indexed }
    match written with
    | .ok providerToolsetRef => .ok ⟨providerToolsetRef, registry, record⟩
    | .error err => .error ⟨"PROVIDER_TOOLSET_RECORD_WRITE_FAILED", err, config.toolsetMode, providerLimit,
        coverageIds.length⟩

/-- the plan of a chat turn -/
def planChatRuntimeReadonly (modelCallId : String) (written : Except String String) :
    Except ProviderToolsetPlanError ProviderToolsetPlan :=
  let config := planner.config
  let providerLimit := config.providerLimit
  let before := chatRuntimeProviderToolCapabilities.filter planner.capabilityIds.contains
  let selectedIds := before.take providerLimit
  let registry := ProviderToolset.chatRuntimeReadonly planner.schemas config.strictMode planner.registry
    config.maxProviderToolsPerRequest
  let record : ProviderToolsetRecord :=
    { modelCallId, operation := "chat_turn", requestedMode := config.toolsetMode, effectiveMode := .domainScoped
      lifecycleStage := "chat_runtime_readonly", selectionId := none
      activeGroupIds := ["chat_control", "chat_readonly", "client_environment"]
      latestSelectedGroupIds := [], latestSelectedCapabilityIds := []
      providerLimit, schemaCoverageCount := chatRuntimeProviderToolCapabilities.length
      modelCapabilityExcludedCount := planner.modelCapabilityExcludedCount
      selectedCount := registry.tools.length, selectedCapabilityIds := selectedIds, selectedTools := registry.tools
      omittedTools := omissions chatRuntimeProviderToolCapabilities before selectedIds "chat_runtime_not_selected"
      domainCounts := Provider.domainCounts chatRuntimeProviderToolCapabilities
      truncatedByProviderLimit := decide (providerLimit < before.length)
      downgradedForProviderLimit := false, progressiveDisclosure := false }
  match written with
  | .ok providerToolsetRef => .ok ⟨providerToolsetRef, registry, record⟩
  | .error err => .error ⟨"CHAT_PROVIDER_TOOLSET_RECORD_WRITE_FAILED", err, config.toolsetMode, providerLimit,
      chatRuntimeProviderToolCapabilities.length⟩

end ProviderToolsetPlanner

end Provider

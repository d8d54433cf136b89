import SuperNova.Gate.Replay
import SuperNova.Gate.Verified
import SuperNova.Lib.Standing

/-!
# The verdict of the closure gate

`check_closure_gate` reads the event log of a job and the artifacts that are claimed for it, and finds what
stands in the way of its completion, and what is only told to the agent.

* `checkClosureGate`: the whole gate, with all its findings;
* `Completable`: what it asks of the log and of the disk, said without folds;
* `canComplete_iff` (**main**): the gate lets a job complete exactly when it is completable.
-/

set_option linter.unusedSectionVars false

namespace Gate

open Text Workspace Os FileTree

/-! ## artifacts -/

def isInternalRef (value : String) : Bool :=
  let lower := toAsciiLowercase (trim value)
  startsWith lower "blob://" || startsWith lower "dataset://" || startsWith lower "artifact://" ||
    startsWith lower "artifact_ref://" || startsWith lower "source_set://" ||
    startsWith lower "raw_document_set://"

/-- what the gate sees of the workspace: the root of the guard, the disk, and which of its files and
directories can be opened -/
structure Surroundings where
  root : Path
  disk : Disk
  opens : Path → Bool

/-- one artifact that is not there or cannot be read, as it is reported -/
def missingArtifact (w : Surroundings) (artifactPath : String) : Option String :=
  let trimmed := trim artifactPath
  if trimmed = "" ∨ isInternalRef trimmed then some artifactPath
  else
    match resolveWorkspacePath w.root trimmed with
    | .error err => some (trimmed ++ ":" ++ err)
    | .ok path =>
      if !w.disk.exists path || w.disk.isFile path && !w.opens path || w.disk.isDir path && !w.opens path then
        some trimmed
      else none

def missingArtifacts (w : Surroundings) (artifactRefs : List String) : List String :=
  artifactRefs.filterMap (missingArtifact w)

/-! ## verifications and audits -/

/-- the words by which an issue is hard -/
def hardWords : List String :=
  ["does not exist", "unreadable", "internal blob", "internal source ref", "blob/dataset", "dataset refs",
    "json/schema wrapper", "structured model"]

def isHardArtifactIssue (issue : String) : Bool := hardWords.any (contains (toAsciiLowercase issue))

def isHardVerificationFailure (failure : VerificationFailure) : Bool :=
  failure.capabilityId == "os.verify_artifact" || failure.issues.any isHardArtifactIssue

def hardFailedVerifications (events : List Event) : List String :=
  ((verificationFailures events).filter isHardVerificationFailure).map fun failure =>
    failure.capabilityId ++ ":" ++ failure.artifactPath ++ ":" ++ failure.status ++ ":" ++
      join "|" failure.issues

/-- the keys of an audit under which issues are listed -/
def issueKeys : List String :=
  ["blocking_issues", "factual_risks", "coverage_risks", "deliverability_risks", "findings", "schema_errors"]

/-- the artifact that an event of a model audit names -/
def auditedPath (event : Event) : Option String :=
  if event.eventType == "artifact_model_audit_receipt" then
    ((payloadValue event.data "artifact_path").bind Json.asStr?).map normalizePath
  else none

/-- the audits with the artifacts they name -/
def modelAudits (events : List Event) : List (String × Json) :=
  events.filterMap fun event => (auditedPath event).map fun path => (path, event.data)

def latestModelArtifactAudits (events : List Event) : Table String Json :=
  (modelAudits events).foldl (fun t audit => t.insert audit.1 audit.2) Table.empty

section
variable (codec : Codec)

/-- an issue of an audit as a text -/
def issueText : Json → Option String
  | .str text => some text
  | .obj fields => some (codec.render (.obj fields))
  | _ => none

def modelAuditIssueStrings (audit : Json) : List String :=
  issueKeys.flatMap fun key =>
    ((((payloadValue audit key).or
      ((payloadValue audit "audit_output").bind fun output => output.get? key)).bind Json.asArr?).getD []).filterMap
        (issueText codec)

def hardModelAuditFailures (events : List Event) : List String :=
  (latestModelArtifactAudits events).entries.flatMap fun entry =>
    ((modelAuditIssueStrings codec entry.2).filter isHardArtifactIssue).map fun issue =>
      "model.audit_artifact_quality:" ++ entry.1 ++ ":hard:" ++ issue

end

/-! ## calls of the model -/

/-- the id of the last model call that was completed -/
def lastSuccessEventId (log : TruthLog) : Nat :=
  ((log.entries.filter fun e => e.event.eventType == "model_call_completed").map (·.eventId)).foldl max 0

/-- what the gate says of a required call that failed -/
def requiredFailure (event : Event) : Option String :=
  if event.eventType == "model_call_failed" &&
      ((event.data.get? "required").bind Json.asBool?).getD true then
    some ((event.data.strAt? "capability_id").getD "model" ++ ":" ++
      ((((event.data.get? "error").bind fun err => err.get? "error_code").bind Json.asStr?).getD
        "model_call_failed"))
  else none

def unresolvedRequiredFailures (log : TruthLog) : List String :=
  (log.entries.filter fun e => ¬ e.eventId < lastSuccessEventId log).filterMap fun e => requiredFailure e.event

/-! ## gaps, which are told to the agent -/

def requiresCoverageVerification (path : String) : Bool :=
  let lower := toAsciiLowercase path
  artifactRoleForPath path == "required_user_artifact" &&
    (endsWith lower ".md" || endsWith lower ".txt" || endsWith lower ".csv" || endsWith lower ".docx")

def materializedArtifactRefs (events : List Event) : List String :=
  textSet ((payloads events).flatMap materializedPaths)

def completedLocalArtifactAudits (events : List Event) : List String :=
  textSet ((payloads events).filterMap fun payload =>
    if payload.strAt? "capability_id" == some "artifact.audit_quality" &&
        ["success", "failed"].contains ((payload.strAt? "status").getD "") &&
        ((payloadValue payload "local_mechanical_audit_completed").bind Json.asBool?).getD true then
      ((payloadValue payload "artifact_path").bind Json.asStr?).map normalizePath
    else none)

/-- the refs that the log materialized -/
def materializedOf (events : List Event) (artifactRefs : List String) : List String :=
  artifactRefs.filter fun path => (materializedArtifactRefs events).contains (normalizePath path)

def auditGaps (events : List Event) (artifactRefs : List String) : List String :=
  (((materializedOf events artifactRefs).filter requiresSemanticAudit).filter fun path =>
    !(completedLocalArtifactAudits events).contains (normalizePath path)).map fun path =>
      "artifact lacks completed local mechanical artifact.audit_quality receipt: " ++ path

/-- `blocking_issue_count` of an audit -/
def blockingIssueCount (audit : Json) : Nat :=
  ((payloadValue audit "blocking_issue_count").bind Json.asNat?).getD
    ((((payloadValue audit "audit_output").bind fun output => output.get? "blocking_issues").bind
      Json.asArr?).map (·.length) |>.getD 0)

/-- what the gate says of the model audit of an artifact -/
def modelAuditGap (codec : Codec) (events : List Event) (path : String) : Option String :=
  match (latestModelArtifactAudits events).get? (normalizePath path) with
  | none => some ("artifact lacks successful model-backed artifact audit receipt: " ++ path)
  | some audit =>
    let status := (audit.strAt? "status").getD ""
    let qualityPass := ((payloadValue audit "quality_pass").bind Json.asBool?).getD false
    let humanAcceptancePass := ((payloadValue audit "human_acceptance_pass").bind Json.asBool?).getD false
    if status ≠ "success" then
      some ("artifact model-backed audit did not succeed: " ++ path ++ ":" ++ status)
    else if (modelAuditIssueStrings codec audit).any isHardArtifactIssue then none
    else if !qualityPass || !humanAcceptancePass || 0 < blockingIssueCount audit then
      some ("artifact has unresolved model audit findings: " ++ path ++ ":quality_pass=" ++
        toString qualityPass ++ ":human_acceptance_pass=" ++ toString humanAcceptancePass ++
        ":blocking_issues=" ++ toString (blockingIssueCount audit))
    else none

def modelAuditGaps (codec : Codec) (events : List Event) (artifactRefs : List String) : List String :=
  ((materializedOf events artifactRefs).filter requiresSemanticAudit).filterMap (modelAuditGap codec events)

/-- a receipt of work on sources -/
def fromSources (payload : Json) : Bool :=
  (payloadValue payload "source_set_ref").isSome || (payloadValue payload "dataset_ref").isSome ||
    (payloadValue payload "raw_document_set_ref").isSome

/-- the artifact that a receipt says was verified -/
def coverageVerified (payload : Json) : Option String :=
  if (payload.strAt? "capability_id").any (["os.verify_artifact", "artifact.verify_coverage",
      "artifact.source_coverage_verify", "artifact.audit_quality"].contains ·) &&
      payload.strAt? "status" == some "success" then
    ((payloadValue payload "artifact_path").bind Json.asStr?).map normalizePath
  else none

def coverageGaps (events : List Event) (artifactRefs : List String) : List String :=
  let candidateArtifacts := (materializedOf events artifactRefs).filter requiresCoverageVerification
  if candidateArtifacts = [] ∨ (payloads events).any fromSources = false then []
  else
    ((candidateArtifacts.filter fun path => !startsWith path "blob://").filter fun path =>
      !((payloads events).filterMap coverageVerified).contains (normalizePath path)).map fun path =>
        "artifact lacks successful runtime verification: " ++ path

/-! ## the result -/

structure ClosureBlock where
  code : String
  source : String
  message : String
  artifactPath : Option String

structure ClosureFinding where
  category : String
  source : String
  message : String
  artifactPath : Option String
  severity : String

structure ClosureFact where
  factType : String
  source : String
  message : String

structure ArtifactRoleEvidence where
  artifactPath : String
  role : String
  expectedVerifier : String

structure ClosureGateResult where
  canComplete : Bool
  hardBlocks : List ClosureBlock
  advisoryFindings : List ClosureFinding
  completionFacts : List ClosureFact
  artifactRoles : List ArtifactRoleEvidence
  missingArtifacts : List String
  failedVerifications : List String
  pendingMutations : List String
  pendingApprovals : List String
  coverageGaps : List String
  auditGaps : List String
  modelAuditGaps : List String
  typedArtifactVerifierGaps : List String
  unresolvedRequiredFailures : List String
  humanReviewRequired : Bool

def artifactPathFromMessage (message : String) : Option String :=
  (splitOn ':' message)[1]?.bind fun part =>
    let candidate := trim part
    if candidate ≠ "" ∧ candidate ≠ "<unknown_artifact>" ∧
        (contains candidate "/" ∨ contains candidate "." ∨ startsWith candidate "blob://") then
      some candidate
    else none

def artifactRoleEvidence (scopedArtifacts : List String) : List ArtifactRoleEvidence :=
  scopedArtifacts.map fun path => ⟨path, artifactRoleForPath path, expectedVerifierForPath path⟩

/-- a block for each item of a list of findings -/
def blocksOf (code source : String) (artifactPath : String → Option String) (items : List String) :
    List ClosureBlock :=
  items.map fun item => ⟨code, source, item, artifactPath item⟩

def hardBlocks (gate : ClosureGateResult) : List ClosureBlock :=
  (gate.missingArtifacts.map fun item =>
    ⟨if isInternalRef item then "internal_ref_not_user_artifact" else "artifact_missing_or_unreadable",
      "artifact_ref", item, some item⟩) ++
  blocksOf "pending_approval" "approval_runtime" (fun _ => none) gate.pendingApprovals ++
  blocksOf "pending_mutation" "capability_kernel" (fun _ => none) gate.pendingMutations ++
  blocksOf "hard_verification_failure" "runtime_verifier" artifactPathFromMessage gate.failedVerifications ++
  blocksOf "unresolved_required_failure" "required_capability" (fun _ => none) gate.unresolvedRequiredFailures

/-- `extend_findings` -/
def findingsOf (category source severity : String) (messages : List String) : List ClosureFinding :=
  messages.map fun message => ⟨category, source, message, artifactPathFromMessage message, severity⟩

def verificationAdvisoryFindings (events : List Event) : List ClosureFinding :=
  ((verificationFailures events).filter fun failure => !isHardVerificationFailure failure).map fun failure =>
    { category := "verification"
      source := failure.capabilityId
      message := failure.capabilityId ++ ":" ++ failure.artifactPath ++ ":" ++
        (if failure.issues = [] then failure.status else failure.status ++ ":" ++ join "|" failure.issues)
      artifactPath := some failure.artifactPath
      severity := "advisory" }

def advisoryFindings (gate : ClosureGateResult) (events : List Event) : List ClosureFinding :=
  findingsOf "coverage" "coverage_verifier" "advisory" gate.coverageGaps ++
  findingsOf "local_audit" "artifact.audit_quality" "advisory" gate.auditGaps ++
  findingsOf "model_audit" "model.audit_artifact_quality" "advisory" gate.modelAuditGaps ++
  findingsOf "typed_verifier" "artifact.verify_typed" "advisory" gate.typedArtifactVerifierGaps ++
  verificationAdvisoryFindings events

def completionFacts (gate : ClosureGateResult) (scopedArtifacts : List String) : List ClosureFact :=
  ⟨"artifact_count", "process_truth_replay", toString scopedArtifacts.length⟩ ::
    if gate.humanReviewRequired then
      [⟨"human_review_required", "closure_gate",
        "user-facing artifacts are present; final acceptance remains a runner/human review concern"⟩]
    else []

/-- the findings of the gate, before they are sorted into blocks, advice and facts -/
def gateFindings (codec : Codec) (w : Surroundings) (log : TruthLog) (artifactRefs : List String) :
    ClosureGateResult where
  canComplete := true
  hardBlocks := []
  advisoryFindings := []
  completionFacts := []
  artifactRoles := artifactRoleEvidence (artifactScopeSet artifactRefs)
  missingArtifacts := missingArtifacts w artifactRefs
  failedVerifications := hardFailedVerifications log.events ++ hardModelAuditFailures codec log.events
  pendingMutations := pendingMutations log.events
  pendingApprovals := pendingApprovals log.events
  coverageGaps := coverageGaps log.events artifactRefs
  auditGaps := auditGaps log.events artifactRefs
  modelAuditGaps := modelAuditGaps codec log.events artifactRefs
  typedArtifactVerifierGaps := typedArtifactVerifierGaps log.events (artifactScopeSet artifactRefs)
  unresolvedRequiredFailures := unresolvedRequiredFailures log
  humanReviewRequired := artifactScopeSet artifactRefs ≠ []

/-- `check_closure_gate_for_artifacts` -/
def checkClosureGate (codec : Codec) (w : Surroundings) (log : TruthLog) (artifactRefs : List String) :
    ClosureGateResult :=
  let gate := gateFindings codec w log artifactRefs
  { gate with
    hardBlocks := hardBlocks gate
    advisoryFindings := advisoryFindings gate log.events
    completionFacts := completionFacts gate (artifactScopeSet artifactRefs)
    canComplete := (hardBlocks gate).isEmpty }

/-! ## what the gate asks for -/

/-- an event of this type has this text at a key -/
def Says (events : List Event) (eventType key value : String) : Prop :=
  ∃ e ∈ events, e.eventType = eventType ∧ e.data.strAt? key = some value

/-- a ref that leads to something in the workspace that can be opened -/
def Readable (w : Surroundings) (ref : String) : Prop :=
  trim ref ≠ "" ∧ isInternalRef ref = false ∧
    ∃ path, resolveWorkspacePath w.root (trim ref) = .ok path ∧ w.disk.exists path = true ∧ w.opens path = true

/-- the token that an event issues was consumed, and its transaction is closed -/
def Spent (events : List Event) (issued : Event) : Prop :=
  ∀ tokenId, issued.data.strAt? "approval_token_id" = some tokenId → tokenId ≠ "" →
    (Says events "approval_token_consumed" "approval_token_id" tokenId ∨
      Says events "approval_token_used" "approval_token_id" tokenId) ∧
    ∀ txId, issued.data.strAt? "tx_id" = some txId → txId ≠ "" → Says events "preview_tx_closed" "tx_id" txId

/-- nothing stands in the way of the completion of a job -/
structure Completable (codec : Codec) (w : Surroundings) (events : List Event) (artifactRefs : List String) :
    Prop where
  readable : ∀ ref ∈ artifactRefs, Readable w ref
  /-- every preview was approved or closed -/
  answered : ∀ previewId, Says events "preview_tx_created" "preview_id" previewId →
    Says events "approval_token_issued" "preview_id" previewId ∨
      Says events "preview_tx_closed" "preview_id" previewId
  unblocked : ∀ e ∈ events, blockedMutation e = none
  spent : ∀ e ∈ events, e.eventType = "approval_token_issued" → Spent events e
  /-- the latest verification of an artifact did not fail with a hard issue -/
  verified : ∀ v, Standing.Latest VerificationFailure.key ((payloads events).filterMap verification) v →
    v.status = "failed" ∨ v.status = "blocked" → isHardVerificationFailure v = false
  /-- the latest model audit of an artifact lists no hard issue -/
  audited : ∀ audit, Standing.Latest Prod.fst (modelAudits events) audit →
    ∀ issue ∈ modelAuditIssueStrings codec audit.2, isHardArtifactIssue issue = false
  /-- a required model call that failed was followed by one that was completed -/
  retried : ∀ before failed after, events = before ++ failed :: after → requiredFailure failed ≠ none →
    ∃ later ∈ after, later.eventType = "model_call_completed"

section
variable {codec : Codec} {w : Surroundings} {log : TruthLog} {events later : List Event}
  {artifactRefs : List String}

theorem mem_fieldsOf {eventType key value : String} :
    value ∈ fieldsOf events eventType key ↔ Says events eventType key value := by
  simp only [fieldsOf, Says, List.mem_filterMap, List.mem_filter, beq_iff_eq, and_assoc]

theorem missingArtifact_eq_none {ref : String} : missingArtifact w ref = none ↔ Readable w ref := by
  have hinternal : isInternalRef (trim ref) = isInternalRef ref := by rw [isInternalRef, trim_trim, isInternalRef]
  rw [missingArtifact, Readable, hinternal]
  by_cases hskip : trim ref = "" ∨ isInternalRef ref = true
  · rw [if_pos hskip]
    constructor
    · intro h
      cases h
    · rintro ⟨hne, href, -⟩
      rcases hskip with hskip | hskip
      · exact absurd hskip hne
      · exact absurd (href.symm.trans hskip) Bool.false_ne_true
  · rw [if_neg hskip]
    obtain ⟨hne, href⟩ := not_or.mp hskip
    rw [Bool.not_eq_true] at href
    cases hresolve : resolveWorkspacePath w.root (trim ref) with
    | error err => simp
    | ok path =>
      have hentry : w.disk.exists path = (w.disk.isFile path || w.disk.isDir path) := by
        rw [Tree.exists, Tree.isFile, Tree.isDir]
        cases w.disk.entry path with
        | none => rfl
        | some entry => cases entry <;> rfl
      simp only [Except.ok.injEq, exists_eq_left', hne, href, ne_eq, not_false_eq_true, true_and, hentry]
      cases w.disk.isFile path <;> cases w.disk.isDir path <;> cases w.opens path <;> simp

theorem missingArtifacts_eq_nil : missingArtifacts w artifactRefs = [] ↔ ∀ ref ∈ artifactRefs, Readable w ref := by
  simp only [missingArtifacts, List.filterMap_eq_nil_iff, missingArtifact_eq_none]

theorem pendingApprovals_eq_nil : pendingApprovals events = [] ↔
    ∀ previewId, Says events "preview_tx_created" "preview_id" previewId →
      Says events "approval_token_issued" "preview_id" previewId ∨
        Says events "preview_tx_closed" "preview_id" previewId := by
  rw [pendingApprovals, List.filter_eq_nil_iff]
  refine forall_congr' fun previewId => ?_
  rw [mem_textSet, mem_fieldsOf]
  refine imp_congr_right fun _ => ?_
  rw [Bool.and_eq_true, Bool.not_eq_true', Bool.not_eq_true', ← Bool.not_eq_true, ← Bool.not_eq_true,
    List.contains_iff_mem, List.contains_iff_mem, mem_fieldsOf, mem_fieldsOf]
  tauto

theorem pendingMutations_eq_nil : pendingMutations events = [] ↔ (∀ e ∈ events, blockedMutation e = none) ∧
    ∀ e ∈ events, e.eventType = "approval_token_issued" → Spent events e := by
  rw [pendingMutations, List.append_eq_nil_iff, List.filterMap_eq_nil_iff, List.filterMap_eq_nil_iff]
  refine and_congr_right' ?_
  simp only [List.mem_filter, beq_iff_eq, and_imp]
  refine forall_congr' fun e => imp_congr_right fun _ => imp_congr_right fun _ => ?_
  have hdefault (text : Option String) (P : String → Prop) :
      (text.getD "" ≠ "" → P (text.getD "")) ↔ ∀ s, text = some s → s ≠ "" → P s := by
    cases text with
    | none => simp
    | some s => simp
  rw [Spent, ← hdefault (e.data.strAt? "approval_token_id") fun tokenId =>
    (Says events "approval_token_consumed" "approval_token_id" tokenId ∨
      Says events "approval_token_used" "approval_token_id" tokenId) ∧
    ∀ txId, e.data.strAt? "tx_id" = some txId → txId ≠ "" → Says events "preview_tx_closed" "tx_id" txId,
    ← hdefault (e.data.strAt? "tx_id") fun txId => Says events "preview_tx_closed" "tx_id" txId]
  simp only [ite_eq_right_iff, reduceCtorEq, imp_false, List.mem_append, mem_fieldsOf]
  tauto

theorem forall_entries_fill {α κ ν : Type} [LinearOrder κ] (items : List α) (name : α → κ) (value : α → ν)
    (P : κ → ν → Prop) :
    (∀ e ∈ (items.foldl (fun t a => t.insert (name a) (value a)) (Table.empty : Table κ ν)).entries, P e.1 e.2) ↔
      ∀ a, Standing.Latest name items a → P (name a) (value a) := by
  have hget (k : κ) := @Table.get?_fillWith κ ν _ Table.empty k α items name value
  simp only [Table.get?_empty, Option.or_none] at hget
  constructor
  · intro h a hlatest
    refine h (name a, value a) (Table.mem_entries.mpr ?_)
    rw [hget, Standing.latest_iff.mp hlatest, Option.map_some]
  · rintro h ⟨k, v⟩ he
    rw [Table.mem_entries, hget] at he
    obtain ⟨a, hlast, rfl⟩ := Option.map_eq_some_iff.mp he
    have hkey : name a = k := beq_iff_eq.mp (List.mem_filter.mp (List.mem_of_getLast? hlast)).2
    rw [← hkey] at hlast ⊢
    exact h a (Standing.latest_iff.mpr hlast)

theorem hardFailedVerifications_eq_nil : hardFailedVerifications events = [] ↔
    ∀ v, Standing.Latest VerificationFailure.key ((payloads events).filterMap verification) v →
      v.status = "failed" ∨ v.status = "blocked" → isHardVerificationFailure v = false := by
  have hfill := forall_entries_fill ((payloads events).filterMap verification) VerificationFailure.key
    (fun v => v) fun _ v => v.status = "failed" ∨ v.status = "blocked" → isHardVerificationFailure v = false
  rw [← hfill, hardFailedVerifications, List.map_eq_nil_iff, List.filter_eq_nil_iff, verificationFailures,
    latestVerifications, Table.values]
  simp only [List.mem_filter, List.mem_map, Bool.or_eq_true, beq_iff_eq, Bool.not_eq_true, and_imp,
    forall_exists_index, forall_apply_eq_imp_iff₂]

theorem hardModelAuditFailures_eq_nil : hardModelAuditFailures codec events = [] ↔
    ∀ audit, Standing.Latest Prod.fst (modelAudits events) audit →
      ∀ issue ∈ modelAuditIssueStrings codec audit.2, isHardArtifactIssue issue = false := by
  rw [hardModelAuditFailures, latestModelArtifactAudits, List.flatMap_eq_nil_iff,
    ← forall_entries_fill (modelAudits events) Prod.fst Prod.snd fun _ audit =>
      ∀ issue ∈ modelAuditIssueStrings codec audit, isHardArtifactIssue issue = false]
  simp only [List.map_eq_nil_iff, List.filter_eq_nil_iff, Bool.not_eq_true]

theorem lt_lastSuccess {e : ProcessEvent} {before after : List ProcessEvent}
    (hlog : log.entries = before ++ e :: after) (hfailed : e.event.eventType ≠ "model_call_completed") :
    e.eventId < lastSuccessEventId log ↔ ∃ later ∈ after, later.event.eventType = "model_call_completed" := by
  have hids := log.increasing
  rw [hlog] at hids
  obtain ⟨-, hafter, hbefore⟩ := List.pairwise_append.mp hids
  have hmax : ∀ ids : List Nat, ∀ start n, n < ids.foldl max start ↔ n < start ∨ ∃ id ∈ ids, n < id := by
    intro ids
    induction ids with
    | nil => simp
    | cons a ids ih =>
      intro start n
      rw [List.foldl_cons, ih, lt_max_iff]
      simp [or_assoc]
  rw [lastSuccessEventId, hmax]
  simp only [Nat.not_lt_zero, false_or, List.mem_map, List.mem_filter, beq_iff_eq]
  constructor
  · rintro ⟨id, ⟨later, ⟨hmem, htype⟩, rfl⟩, hlt⟩
    refine ⟨later, ?_, htype⟩
    rw [hlog] at hmem
    rcases List.mem_append.mp hmem with hmem | hmem
    · exact absurd hlt (hbefore later hmem e List.mem_cons_self).asymm
    · rcases List.mem_cons.mp hmem with rfl | hmem
      · exact absurd htype hfailed
      · exact hmem
  · rintro ⟨later, hmem, htype⟩
    refine ⟨later.eventId, ⟨later, ⟨?_, htype⟩, rfl⟩, (List.pairwise_cons.mp hafter).1 later hmem⟩
    rw [hlog]
    exact List.mem_append_right _ (List.mem_cons_of_mem _ hmem)

theorem requiredFailure_type {e : Event} (h : requiredFailure e ≠ none) : e.eventType = "model_call_failed" := by
  by_contra htype
  refine h (if_neg ?_)
  rw [Bool.and_eq_true, beq_iff_eq]
  exact fun hboth => htype hboth.1

theorem unresolvedRequiredFailures_eq_nil : unresolvedRequiredFailures log = [] ↔
    ∀ before failed after, log.events = before ++ failed :: after → requiredFailure failed ≠ none →
      ∃ later ∈ after, later.eventType = "model_call_completed" := by
  rw [unresolvedRequiredFailures, List.filterMap_eq_nil_iff]
  simp only [List.mem_filter, decide_eq_true_eq, and_imp]
  constructor
  · intro h before failed after hsplit hfailed
    obtain ⟨pre, rest, hlog, rfl, hrest⟩ := List.map_eq_append_iff.mp hsplit
    obtain ⟨e, post, rfl, rfl, rfl⟩ := List.map_eq_cons_iff.mp hrest
    have htype : e.event.eventType ≠ "model_call_completed" := by
      rw [requiredFailure_type hfailed]
      decide
    by_contra hnone
    refine hfailed (h e (hlog ▸ List.mem_append_right _ List.mem_cons_self) fun hlt => hnone ?_)
    obtain ⟨later, hmem, hdone⟩ := (lt_lastSuccess hlog htype).mp hlt
    exact ⟨later.event, List.mem_map_of_mem hmem, hdone⟩
  · intro h e hmem hlast
    by_contra hfailed
    obtain ⟨pre, post, hlog⟩ := List.append_of_mem hmem
    have htype : e.event.eventType ≠ "model_call_completed" := by
      rw [requiredFailure_type hfailed]
      decide
    obtain ⟨later, hlater, hdone⟩ := h (pre.map (·.event)) e.event (post.map (·.event))
      (by rw [TruthLog.events, hlog, List.map_append, List.map_cons]) hfailed
    obtain ⟨done, hdoneMem, rfl⟩ := List.mem_map.mp hlater
    exact hlast ((lt_lastSuccess hlog htype).mpr ⟨done, hdoneMem, hdone⟩)

/-- **The gate lets a job complete exactly when every claimed artifact can be opened in the workspace, every
preview is answered, no mutation was refused by the policy, every approval that was given is spent, and the
latest verification, model audit and required model call of each kind left nothing open.** -/
theorem canComplete_iff : (checkClosureGate codec w log artifactRefs).canComplete = true ↔
    Completable codec w log.events artifactRefs := by
  have hblocks : (checkClosureGate codec w log artifactRefs).canComplete = true ↔
      missingArtifacts w artifactRefs = [] ∧ pendingApprovals log.events = [] ∧
      pendingMutations log.events = [] ∧
      (hardFailedVerifications log.events = [] ∧ hardModelAuditFailures codec log.events = []) ∧
      unresolvedRequiredFailures log = [] := by
    rw [checkClosureGate, List.isEmpty_iff, hardBlocks]
    simp only [List.append_eq_nil_iff, List.map_eq_nil_iff, blocksOf, gateFindings, and_assoc]
  rw [hblocks, missingArtifacts_eq_nil, pendingApprovals_eq_nil, pendingMutations_eq_nil,
    hardFailedVerifications_eq_nil, hardModelAuditFailures_eq_nil, unresolvedRequiredFailures_eq_nil]
  constructor
  · rintro ⟨hreadable, hanswered, ⟨hunblocked, hspent⟩, ⟨hverified, haudited⟩, hretried⟩
    exact ⟨hreadable, hanswered, hunblocked, hspent, hverified, haudited, hretried⟩
  · intro h
    exact ⟨h.readable, h.answered, ⟨h.unblocked, h.spent⟩, ⟨h.verified, h.audited⟩, h.retried⟩

end

end Gate

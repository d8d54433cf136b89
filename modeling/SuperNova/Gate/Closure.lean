import SuperNova.Lib.Table
import SuperNova.Os.Runtime

/-!
# The closure gate

A job completes when the gate finds nothing that blocks it.  Each of its findings is a fold of the event
log: previews that wait for an approval, approved mutations that were not made, verifications that
failed, and typed artifacts that no verifier has passed.

* `pendingApprovals`, `pendingMutations`: what is still open;
* `typedArtifactVerifierGaps`, `verificationFailures`: what the verifiers say of the artifacts.
-/

namespace Gate

open Text Workspace Os

/-- the set of some texts, in order -/
def textSet (items : List String) : List String :=
  (items.foldl (fun t item => t.insert item ()) (Table.empty : Table String Unit)).entries.map (·.1)

/-- the strings at a key of the events of one type -/
def fieldsOf (events : List Event) (eventType key : String) : List String :=
  (events.filter fun event => event.eventType == eventType).filterMap fun event =>
    event.data.strAt? key

/-! ## approvals and mutations -/

def pendingApprovals (events : List Event) : List String :=
  (textSet (fieldsOf events "preview_tx_created" "preview_id")).filter fun previewId =>
    !(fieldsOf events "approval_token_issued" "preview_id").contains previewId &&
      !(fieldsOf events "preview_tx_closed" "preview_id").contains previewId

def blockedMutation (event : Event) : Option String :=
  let blocked := ((event.data.get? "data").bind fun data => data.get? "mutation_policy_blocked").bind
    Json.asBool?
  if event.eventType == "capability_blocked" && blocked == some true then
    event.data.strAt? "capability_id"
  else none

/-- what the gate says of a token that was issued and not used to the end -/
def notConsumed (tokenId txId : String) : String :=
  "approved preview tx not consumed or closed: token=" ++ tokenId ++ " tx=" ++ txId

def pendingMutations (events : List Event) : List String :=
  let consumed := fieldsOf events "approval_token_consumed" "approval_token_id" ++
    fieldsOf events "approval_token_used" "approval_token_id"
  let closed := fieldsOf events "preview_tx_closed" "tx_id"
  events.filterMap blockedMutation ++
    (events.filter fun event => event.eventType == "approval_token_issued").filterMap fun event =>
      let tokenId := (event.data.strAt? "approval_token_id").getD ""
      let txId := (event.data.strAt? "tx_id").getD ""
      if tokenId ≠ "" ∧ (tokenId ∉ consumed ∨ txId ≠ "" ∧ txId ∉ closed) then
        some (notConsumed tokenId txId)
      else none

/-! ## artifacts -/

/-- `str::ends_with` -/
def endsWith (s ending : String) : Bool := ending.toList <:+ s.toList

/-- `str::starts_with` -/
def startsWith (s start : String) : Bool := start.toList <+: s.toList

def artifactRoleForPath (path : String) : String :=
  let lower := toAsciiLowercase (normalizePath path)
  if startsWith lower "previews/" || contains lower "/previews/" || startsWith lower "audit/" ||
      contains lower "/audit/" || contains lower "artifact_quality_review" then
    "audit_artifact"
  else if startsWith lower "tmp/" || startsWith lower "temp/" || contains lower "/tmp/" ||
      contains lower "/temp/" || endsWith lower ".preview.md" then
    "temporary_artifact"
  else if endsWith lower "perf_notes.json" || endsWith lower "sha256sums.txt" ||
      endsWith lower "pack_manifest.md" || endsWith lower "command_receipts.json" ||
      endsWith lower "model_call_ledger.json" then
    "supporting_artifact"
  else "required_user_artifact"

def requiresSemanticAudit (path : String) : Bool :=
  let lower := toAsciiLowercase path
  artifactRoleForPath path == "required_user_artifact" &&
    (endsWith lower ".md" || endsWith lower ".txt" || endsWith lower ".csv" || endsWith lower ".docx")

def expectedVerifierForPath (path : String) : String :=
  let lower := toAsciiLowercase path
  if endsWith lower ".zip" then "zip_verifier"
  else if endsWith lower "sha256sums.txt" then "checksum_verifier"
  else if endsWith lower "perf_notes.json" then "perf_json_schema_verifier"
  else if endsWith lower "pack_manifest.md" then "package_manifest_verifier"
  else if endsWith lower ".docx" then "openxml_validation_plus_quality_audit"
  else if requiresSemanticAudit path then "artifact_quality_and_model_audit"
  else "os_verify_artifact"

/-- the artifacts that a typed verifier is expected for -/
def isTyped (path : String) : Bool :=
  ["zip_verifier", "checksum_verifier", "perf_json_schema_verifier",
    "package_manifest_verifier"].contains (expectedVerifierForPath path)

def artifactScopeSet (artifactRefs : List String) : List String :=
  textSet ((artifactRefs.map fun item => normalizePath (trim item)).filter fun item => item ≠ "")

/-! ## receipts -/

def eventPayloads (event : Event) : List Json :=
  if (event.data.get? "capability_id").isSome then [event.data]
  else (event.data.get? "receipt").toList

/-- a field of a receipt, or of its data -/
def payloadValue (payload : Json) (key : String) : Option Json :=
  (payload.get? key).or ((payload.get? "data").bind fun data => data.get? key)

/-- every receipt of the log, in order -/
def payloads (events : List Event) : List Json := events.flatMap eventPayloads

/-- the path that a receipt of the typed verifier names -/
def typedPath (payload : Json) : Option String :=
  (((payloadValue payload "artifact_path").or (payloadValue payload "archive_path")).bind
    Json.asStr?).map normalizePath

def typedVerifiedArtifacts (events : List Event) : List String :=
  (payloads events).filterMap fun payload =>
    if payload.strAt? "status" == some "success" &&
        payload.strAt? "capability_id" == some "artifact.verify_typed" then
      typedPath payload
    else none

/-- what the gate says of a typed artifact that no verifier has passed -/
def typedGap (path : String) : String :=
  "artifact lacks typed verifier evidence: " ++ path ++ " requires " ++ expectedVerifierForPath path

def typedArtifactVerifierGaps (events : List Event) (artifacts : List String) : List String :=
  ((artifacts.filter isTyped).filter fun path =>
    !(typedVerifiedArtifacts events).contains (normalizePath path)).map typedGap

/-- `VerificationFailure` -/
structure VerificationFailure where
  capabilityId : String
  artifactPath : String
  status : String
  issues : List String

/-- the capabilities that verify an artifact -/
def verifiers : List String :=
  ["os.verify_artifact", "artifact.verify_coverage", "artifact.source_coverage_verify",
    "artifact.verify_typed", "artifact.audit_quality"]

/-- the verification that a receipt reports -/
def verification (payload : Json) : Option VerificationFailure :=
  match payload.strAt? "capability_id" with
  | none => none
  | some capabilityId =>
    if capabilityId ∈ verifiers then
      let issues := payloadValue payload
        (if capabilityId = "artifact.audit_quality" then "hard_risk_issues" else "blocking_issues")
      some
        { capabilityId := capabilityId
          artifactPath := normalizePath
            (((payloadValue payload "artifact_path").bind Json.asStr?).getD "<unknown_artifact>")
          status := (payload.strAt? "status").getD ""
          issues := ((issues.bind Json.asArr?).getD []).filterMap Json.asStr? }
    else none

def VerificationFailure.key (v : VerificationFailure) : String := v.capabilityId ++ ":" ++ v.artifactPath

/-- the latest verification under each key -/
def latestVerifications (events : List Event) : Table String VerificationFailure :=
  ((payloads events).filterMap verification).foldl (fun t v => t.insert v.key v) Table.empty

def verificationFailures (events : List Event) : List VerificationFailure :=
  (latestVerifications events).values.filter fun v => v.status == "failed" || v.status == "blocked"

/-! ## sets of texts -/

theorem mem_textSet {items : List String} {item : String} : item ∈ textSet items ↔ item ∈ items := by
  have hkeys : ∀ (items : List String) (t : Table String Unit),
      item ∈ (items.foldl (fun t item => t.insert item ()) t).entries.map (·.1) ↔
        item ∈ items ∨ item ∈ t.entries.map (·.1) := by
    intro items
    induction items with
    | nil => simp
    | cons a items ih =>
      intro t
      rw [List.foldl_cons, ih, Table.mem_keys_insert, List.mem_cons]
      tauto
  rw [textSet, hkeys]
  simp [Table.empty]

end Gate

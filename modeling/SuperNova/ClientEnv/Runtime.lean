import Mathlib.Algebra.Group.Nat.Defs
import SuperNova.Lib.Io
import SuperNova.Lib.Json
import SuperNova.Workspace.Guard

/-!
# The client environment

Scans of the machine, the snapshots they leave, and the disclosure of sensitive fields: a request, the
answer of the user, and the scan that refers to it.

The clock never runs backwards; how long it takes from one reading to the next is in a list of delays.
What the collectors find on the machine is a parameter of each scan.
-/

namespace ClientEnv

open Io

/-! ## data -/

structure ClientEnvScanOptions where
  sections : List String := []
  includeSensitiveFields : Bool := false
  authorizationId : Option String := none

structure ClientEnvSection where
  sectionId : String
  status : String
  facts : List (String × Json)
  unavailableFields : List String
  collectorWarnings : List String

structure ClientEnvRedactionReport where
  policy : String
  sensitiveFieldsRedacted : Bool
  redactedFieldCount : Nat
  requiresAuthorizationFor : List String

structure ClientEnvSnapshot where
  snapshotId : String
  capturedAtUnixMs : Nat
  sections : List ClientEnvSection
  redaction : ClientEnvRedactionReport
  sensitiveFieldsAvailable : List String
  sensitiveFieldsReturned : List String

structure ClientEnvDisclosureRequest where
  requestId : String
  requestedFields : List String
  reason : String
  createdAtUnixMs : Nat
  expiresAtUnixMs : Nat
  status : String

/-- the data of an approval event; its first fields are the `ClientEnvDisclosureToken` -/
structure Approval where
  authorizationId : String
  requestId : String
  allowedFields : List String
  expiresAtUnixMs : Nat
  userApproved : Bool
  note : String

/-- `sensitive_block_data` -/
structure BlockData where
  reason : String
  authorizationId : Option String
  requestedFields : List String

inductive ReceiptData where
  | blocked (data : BlockData)
  | requested (request : ClientEnvDisclosureRequest)
  | snapshot (ref : String) (snapshot : ClientEnvSnapshot)
  | page (ref : String) (snapshot : ClientEnvSnapshot) (offset limit total : Nat)
      (sections : List ClientEnvSection)

structure CapabilityReceipt where
  capabilityId : String
  status : String
  data : ReceiptData

/-- the events of the truth store that this runtime writes -/
inductive Event where
  | requested (request : ClientEnvDisclosureRequest)
  | approved (approval : Approval)
  | rejected (requestId reason : String)
  | snapshotRecorded (capabilityId snapshotId ref : String) (returned : List String)
  | sensitiveFieldsReturned (capabilityId snapshotId ref : String) (returned : List String)
  | capabilityReceipt (receipt : CapabilityReceipt)

/-- a receipt, the time at which it is returned, and the log up to then -/
structure Moment where
  now : Nat
  events : List Event
  receipt : CapabilityReceipt

structure ClientEnvState where
  clock : Nat
  delays : List Nat
  events : List Event
  blobs : List (List String × ClientEnvSnapshot)
  receipts : List Moment

abbrev ClientM := EStateM String ClientEnvState

/-- the job and process of a runtime; the chat runtime writes no events -/
structure Runtime where
  jobId : String
  pid : String
  emitCapabilityReceiptEvent : Bool

/-! ## clock and log -/

def ClientEnvState.nextReading (s : ClientEnvState) : Nat := s.clock + s.delays.headD 0

def nowMs : ClientM Nat := fun s =>
  .ok s.nextReading { s with clock := s.nextReading, delays := s.delays.tail }

/-- `append_event`, which reads the clock for the time stamp -/
def appendEvent (e : Event) : ClientM Unit := do
  let _ ← nowMs
  modify fun s => { s with events := s.events ++ [e] }

/-- a time as a JSON number -/
@[irreducible] def timeToJson (ms : Nat) : Except String Nat :=
  if ms < 2 ^ 64 then .ok ms else .error "number out of range"

def disclosureTtlMs : Nat := 10 * 60 * 1000

def returnReceipt (receipt : CapabilityReceipt) : ClientM Unit := do
  let now ← nowMs
  modify fun s => { s with receipts := s.receipts ++ [⟨now, s.events, receipt⟩] }

/-- events, unless the runtime writes none -/
def emitEvents (rt : Runtime) (events : List Event) : ClientM Unit :=
  (if rt.emitCapabilityReceiptEvent then events else []).forM appendEvent

def processCapabilityReceipt (rt : Runtime) (capabilityId status : String) (data : ReceiptData) :
    ClientM CapabilityReceipt := do
  let receipt := ⟨capabilityId, status, data⟩
  emitEvents rt [.capabilityReceipt receipt]
  returnReceipt receipt
  pure receipt

def safeBlobName (value : String) : String :=
  Text.mapChars (fun ch => if ch.isAlphanum || ch == '.' || ch == '-' || ch == '_' then ch else '_')
    (Text.replaceChar '\\' '/' value)

/-! ## fields -/

def networkFields : List String := ["network.local_ip", "network.mac_address"]

/-- `sensitive_fields_for_sections`, in order -/
def sensitiveFieldsForSections (sections : List String) : List String :=
  if "network" ∈ sections then networkFields else []

/-- the fields that can be requested, in order -/
def requestableFields : List String :=
  ["device.hostname", "device.username", "env.path", "env.vars", "network.local_ip",
    "network.mac_address", "network.proxy_url", "network.ssid"]

def sanitizeRequestedFields (fields : List String) : List String :=
  requestableFields.filter (· ∈ fields.map fun field => Text.toAsciiLowercase (Text.trim field))

/-! ## disclosure -/

/-- the request that `request_sensitive_disclosure` makes -/
def disclosureRequest (rt : Runtime) (requestedFields : List String) (reason : String) (now : Nat) :
    ClientEnvDisclosureRequest where
  requestId := "client_env_disclosure_" ++ rt.pid ++ "_" ++ toString now
  requestedFields :=
    if sanitizeRequestedFields requestedFields = [] then sensitiveFieldsForSections ["network"]
    else sanitizeRequestedFields requestedFields
  reason :=
    if Text.blank reason then "Client environment sensitive field disclosure requested." else reason
  createdAtUnixMs := now
  expiresAtUnixMs := now + disclosureTtlMs
  status := "pending"

def requestSensitiveDisclosure (rt : Runtime) (requestedFields : List String) (reason : String) :
    ClientM CapabilityReceipt := do
  let now ← nowMs
  let _ ← lift (timeToJson (now + disclosureTtlMs))
  let request := disclosureRequest rt requestedFields reason now
  emitEvents rt [.requested request]
  processCapabilityReceipt rt "client_env.request_sensitive_disclosure" "blocked" (.requested request)

/-- `disclosure_event_request_id` of an event that resolves a request -/
def Event.resolves? : Event → Option String
  | .approved a => some a.requestId
  | .rejected requestId _ => some requestId
  | _ => none

def Event.requests? : Event → Option String
  | .requested r => some r.requestId
  | _ => none

/-- the `event_type` of an event that resolves a request -/
def Event.resolvedBy : Event → String
  | .approved _ => "client_env_disclosure_approved"
  | _ => "client_env_disclosure_rejected"

/-- the last request with an id, and the events after it -/
def lastRequest (requestId : String) : List Event → Option (ClientEnvDisclosureRequest × List Event)
  | [] => none
  | e :: rest =>
    match lastRequest requestId rest with
    | some found => some found
    | none =>
      match e with
      | .requested r => if r.requestId = requestId then some (r, rest) else none
      | _ => none

def pendingDisclosureRequestForApproval (events : List Event) (requestId : String) (now : Nat) :
    Except String ClientEnvDisclosureRequest :=
  if Text.blank requestId then .error "client env disclosure request_id is required"
  else
    match lastRequest requestId events with
    | none => .error ("client env disclosure request not found: " ++ requestId)
    | some (request, later) =>
      if request.status ≠ "pending" then
        .error ("client env disclosure request is not pending: " ++ request.status)
      else if request.expiresAtUnixMs < now then
        .error "client env disclosure request expired"
      else
        match later.reverse.find? fun e => e.resolves? = some requestId with
        | some resolved =>
          .error ("client env disclosure request already resolved by " ++ resolved.resolvedBy)
        | none => .ok request

/-- the allowed fields that a request covers -/
def checkAllowedFields (request : ClientEnvDisclosureRequest) (allowedFields : List String) :
    Except String (List String) :=
  let allowed := sanitizeRequestedFields allowedFields
  let outOfScope := allowed.filter (· ∉ request.requestedFields)
  if allowed = [] then
    .error "client env disclosure approval requires at least one allowed field"
  else if outOfScope ≠ [] then
    .error ("client env disclosure approval contains fields outside request scope: " ++
      Text.join "," outOfScope)
  else .ok allowed

def approveSensitiveDisclosure (requestId : String) (allowedFields : List String) (note : String) :
    ClientM Approval := do
  let now ← nowMs
  let s ← get
  let request ← lift (pendingDisclosureRequestForApproval s.events requestId now)
  let allowed ← lift (checkAllowedFields request allowedFields)
  let expiresAt ← lift (timeToJson (now + disclosureTtlMs))
  let approval :=
    { authorizationId := "client_env_auth_" ++ safeBlobName requestId ++ "_" ++ toString now
      requestId
      allowedFields := allowed
      expiresAtUnixMs := expiresAt
      userApproved := true
      note }
  appendEvent (.approved approval)
  pure approval

def rejectSensitiveDisclosure (requestId reason : String) : ClientM Unit :=
  appendEvent (.rejected requestId reason)

/-! ## scans -/

/-- what the collectors find on the machine -/
structure Host where
  deviceFacts : List (String × Json)
  memoryTotalBucket : Option Json
  volumeBuckets : Option (Json × Json)
  loopbackBindAvailable : Bool
  localhostResolutionAvailable : Bool
  localIps : List String
  macAddresses : List String
  runtimeFacts : List (String × Json)

def collectDeviceSection (host : Host) : ClientEnvSection :=
  match host.memoryTotalBucket with
  | some bucket =>
    ⟨"device", "success", host.deviceFacts ++ [("memory_total_bucket", bucket)], [], []⟩
  | none =>
    ⟨"device", "partial", host.deviceFacts, ["device.memory_total_bucket"],
      ["total memory unavailable through safe collector"]⟩

def collectStorageSection (host : Host) : ClientEnvSection :=
  let facts := [("workspace_volume", .str "current_workspace_volume"),
    ("workspace_root_relation", .str "kernel_workspace_root")]
  match host.volumeBuckets with
  | some (capacity, free) =>
    ⟨"storage", "success", facts ++ [("capacity_bucket", capacity), ("free_space_bucket", free),
      ("filesystem_kind", .str "local_or_mounted")], [], []⟩
  | none =>
    ⟨"storage", "partial", facts, ["storage.capacity_bucket", "storage.free_space_bucket"],
      ["workspace volume capacity unavailable through safe collector"]⟩

def collectNetworkSection (host : Host) (authorizedFields : List String) : ClientEnvSection where
  sectionId := "network"
  status := "success"
  facts :=
    [("loopback_bind_available", .bool host.loopbackBindAvailable),
      ("localhost_resolution_available", .bool host.localhostResolutionAvailable),
      ("sensitive_fields_redacted", .bool (networkFields.all (· ∉ authorizedFields)))] ++
    (if "network.local_ip" ∈ authorizedFields then
      [("local_ip", .arr (host.localIps.map .str))] else []) ++
    (if "network.mac_address" ∈ authorizedFields then
      [("mac_address", .arr (host.macAddresses.map .str))] else [])
  unavailableFields := []
  collectorWarnings :=
    if networkFields.any (· ∈ authorizedFields) then
      ["sensitive network fields returned under explicit authorization"]
    else []

def collectRuntimesSection (host : Host) : ClientEnvSection :=
  ⟨"runtimes", "success", host.runtimeFacts, [], []⟩

def collectSection (host : Host) (authorizedFields : List String) (name : String) :
    ClientEnvSection :=
  if name = "device" then collectDeviceSection host
  else if name = "storage" then collectStorageSection host
  else if name = "network" then collectNetworkSection host authorizedFields
  else if name = "runtimes" then collectRuntimesSection host
  else ⟨name, "unavailable", [], [name], ["unsupported client environment section"]⟩

def lastApproval (events : List Event) (authorizationId : String) : Option Approval :=
  events.reverse.findSome? fun e =>
    match e with
    | .approved a => if a.authorizationId = authorizationId then some a else none
    | _ => none

/-- `authorized_fields` at a time; the fields that a scan may return, or why it is blocked -/
def authorizedFields (events : List Event) (now : Nat) (authorizationId : String)
    (requestedFields : List String) : Except BlockData (List String) :=
  let block reason := .error ⟨reason, some authorizationId, requestedFields⟩
  match lastApproval events authorizationId with
  | none => block "authorization_not_found"
  | some approval =>
    if approval.expiresAtUnixMs < now then block "authorization_expired"
    else
      let authorized := requestedFields.filter (· ∈ approval.allowedFields)
      if authorized = [] then block "authorization_scope_does_not_cover_requested_fields"
      else .ok authorized

/-- the authorisation that a scan asks for -/
def ClientEnvScanOptions.authorization? (options : ClientEnvScanOptions) : Option String :=
  options.authorizationId.filter fun id => !Text.blank id

/-- the fields that a scan may return; one that does not ask for sensitive fields returns none -/
def authorize (options : ClientEnvScanOptions) (requestedFields : List String) :
    ClientM (Except BlockData (List String)) :=
  if options.includeSensitiveFields then
    match options.authorization? with
    | none => pure (.error ⟨"missing_authorization_id", none, requestedFields⟩)
    | some authorizationId => do
      let now ← nowMs
      let s ← get
      pure (authorizedFields s.events now authorizationId requestedFields)
  else pure (.ok [])

def ClientEnvScanOptions.scanned (options : ClientEnvScanOptions) : List String :=
  if options.sections = [] then ["device"] else options.sections

def takeSnapshot (host : Host) (sections authorized : List String) (snapshotId : String)
    (capturedAt : Nat) : ClientEnvSnapshot :=
  let available := sensitiveFieldsForSections sections
  let returned := authorized.filter (· ∈ available)
  let redacted := available.filter (· ∉ returned)
  { snapshotId
    capturedAtUnixMs := capturedAt
    sections := sections.map (collectSection host authorized)
    redaction :=
      { policy := "standard"
        sensitiveFieldsRedacted := 0 < redacted.length
        redactedFieldCount := redacted.length
        requiresAuthorizationFor := redacted }
    sensitiveFieldsAvailable := available
    sensitiveFieldsReturned := returned }

def snapshotEvents (capabilityId ref : String) (snapshot : ClientEnvSnapshot) : List Event :=
  [.snapshotRecorded capabilityId snapshot.snapshotId ref snapshot.sensitiveFieldsReturned] ++
    if snapshot.sensitiveFieldsReturned = [] then []
    else [.sensitiveFieldsReturned capabilityId snapshot.snapshotId ref
      snapshot.sensitiveFieldsReturned]

/-- the snapshot of a scan is stored; its ref -/
def storeSnapshot (rt : Runtime) (host : Host) (sections authorized : List String) :
    ClientM (String × ClientEnvSnapshot) := do
  let named ← nowMs
  let capturedAt ← nowMs
  let snapshot := takeSnapshot host sections authorized
    ("client_env_snapshot_" ++ rt.pid ++ "_" ++ toString named) capturedAt
  let stored ← nowMs
  let name := ["client_env", safeBlobName snapshot.snapshotId ++ "_" ++ toString stored ++ ".json"]
  modify fun s => { s with blobs := (name, snapshot) :: s.blobs }
  pure ("blob://" ++ rt.jobId ++ "/" ++ Text.join "/" name, snapshot)

/-- the events of a snapshot, and the receipt -/
def reportSnapshot (rt : Runtime) (capabilityId ref : String) (snapshot : ClientEnvSnapshot) :
    ClientM CapabilityReceipt := do
  emitEvents rt (snapshotEvents capabilityId ref snapshot)
  processCapabilityReceipt rt capabilityId "success" (.snapshot ref snapshot)

/-- from the first section of a scan on -/
def recordScan (rt : Runtime) (host : Host) (capabilityId : String)
    (sections authorized : List String) : ClientM CapabilityReceipt := do
  let stored ← storeSnapshot rt host sections authorized
  reportSnapshot rt capabilityId stored.1 stored.2

def scan (rt : Runtime) (host : Host) (capabilityId : String) (options : ClientEnvScanOptions) :
    ClientM CapabilityReceipt := do
  match ← authorize options (sensitiveFieldsForSections options.scanned) with
  | .error data => processCapabilityReceipt rt capabilityId "blocked" (.blocked data)
  | .ok authorized => recordScan rt host capabilityId options.scanned authorized

inductive ScanKind where
  | overview
  | device
  | storage
  | network
  | runtimes

/-- the capability, and the options with the section of the scan: `scan_overview` and its siblings -/
def ScanKind.call (options : ClientEnvScanOptions) : ScanKind → String × ClientEnvScanOptions
  | .overview => ("client_env.scan_overview",
      if options.sections = [] then
        { options with sections := ["device", "storage", "network", "runtimes"] }
      else options)
  | .device => ("client_env.scan_device", { options with sections := ["device"] })
  | .storage => ("client_env.scan_storage", { options with sections := ["storage"] })
  | .network => ("client_env.scan_network", { options with sections := ["network"] })
  | .runtimes => ("client_env.scan_runtimes", { options with sections := ["runtimes"] })

/-! ## snapshots -/

/-- `resolve_blob_ref`, relative to the blobs of the job -/
def resolveBlobRef (jobId blobRef : String) : Except String (List String) :=
  match Text.stripPrefix ("blob://" ++ jobId ++ "/") blobRef with
  | none => .error "blob ref does not belong to this job"
  | some relative =>
    if relative = "" then .error "blob ref has no relative path"
    else if Workspace.isAbsolute relative ∨ ".." ∈ Workspace.components relative then
      .error "blob ref leaves blob store boundary"
    else .ok (Workspace.components relative)

/-- the file at a ref, when a snapshot is there -/
def findSnapshot (rt : Runtime) (blobs : List (List String × ClientEnvSnapshot)) (ref : String) :
    Except String ClientEnvSnapshot :=
  match resolveBlobRef rt.jobId ref with
  | .error e => .error e
  | .ok name =>
    match blobs.lookup name with
    | none => .error "the snapshot cannot be read"
    | some snapshot => .ok snapshot

def readSnapshot (rt : Runtime) (snapshotRef : String) (offset limit : Nat) :
    ClientM CapabilityReceipt := do
  let s ← get
  let snapshot ← lift (findSnapshot rt s.blobs snapshotRef)
  let limit := min (max limit 1) 50
  processCapabilityReceipt rt "client_env.read_snapshot" "success"
    (.page snapshotRef snapshot offset limit snapshot.sections.length
      ((snapshot.sections.drop offset).take limit))

/-! ## runs -/

inductive Call where
  | request (rt : Runtime) (requestedFields : List String) (reason : String)
  | approve (requestId : String) (allowedFields : List String) (note : String)
  | reject (requestId reason : String)
  | scan (rt : Runtime) (host : Host) (kind : ScanKind) (options : ClientEnvScanOptions)
  | readSnapshot (rt : Runtime) (snapshotRef : String) (offset limit : Nat)

/-- the state after a call, whether it fails or not -/
def ClientEnvState.call (s : ClientEnvState) : Call → ClientEnvState
  | .request rt fields reason => final (requestSensitiveDisclosure rt fields reason) s
  | .approve requestId fields note => final (approveSensitiveDisclosure requestId fields note) s
  | .reject requestId reason => final (rejectSensitiveDisclosure requestId reason) s
  | .scan rt host kind options =>
    final (ClientEnv.scan rt host (kind.call options).1 (kind.call options).2) s
  | .readSnapshot rt ref offset limit => final (ClientEnv.readSnapshot rt ref offset limit) s

def ClientEnvState.calls (s : ClientEnvState) (calls : List Call) : ClientEnvState :=
  calls.foldl ClientEnvState.call s

end ClientEnv

import Mathlib.Data.List.Sort
import SuperNova.Lib.Json
import SuperNova.Workspace.Disk

/-!
# The state under the runtimes of a job

A job works on a disk (the workspace and the runtime's own state directory are two places of it),
its blob store, its event log and the lock files of running mutations.  This file has the parts
every runtime shares: receipts and events, transaction ids, the record of a transaction with its
JSON form (`OsTxRecord.ofJson_toJson`), blobs, mutation locks and the resolution of paths.
-/

set_option linter.unusedSectionVars false

namespace Os

open Paths Io FileTree Workspace Text

/-- what a runtime of one job is built from: its guard, truth store and capability token -/
structure Runtime where
  workspaceRoot : Path
  stateRoot : Path
  jobId : String
  pid : String
  capabilities : List String
  emitEvents : Bool

/-- `CapabilityReceipt` -/
structure Receipt where
  capabilityId : String
  jobId : String
  pid : String
  status : String
  data : Json

def Receipt.toJson (r : Receipt) : Json :=
  .obj [("capability_id", .str r.capabilityId), ("job_id", .str r.jobId), ("pid", .str r.pid),
    ("status", .str r.status), ("data", r.data)]

/-- an event of the process truth log -/
structure Event where
  eventType : String
  data : Json

/-- everything a runtime reads and writes -/
structure Kernel where
  disk : Disk
  blobs : String → Option Json
  events : List Event
  locks : List String
  clock : Nat
  sequence : Nat

abbrev KernelM (α : Type) := EStateM Fault Kernel α

/-- run a program of the disk -/
def onDisk {α : Type} (m : DiskM α) : KernelM α := fun k =>
  match m k.disk with
  | .ok a d => .ok a { k with disk := d }
  | .error e d => .error e { k with disk := d }

theorem onDisk_ok {α : Type} {m : DiskM α} {k k' : Kernel} {a : α} :
    Ok (onDisk m) k a k' ↔ ∃ d, Ok m k.disk a d ∧ k' = { k with disk := d } := by
  unfold Ok onDisk
  constructor
  · intro h
    cases hm : m k.disk with
    | ok b d =>
      rw [hm] at h
      cases h
      exact ⟨d, rfl, rfl⟩
    | error e d =>
      rw [hm] at h
      cases h
  · rintro ⟨d, hm, rfl⟩
    rw [hm]

theorem onDisk_err {α : Type} {m : DiskM α} {k k' : Kernel} {e : Fault} :
    Err (onDisk m) k e k' ↔ ∃ d, Err m k.disk e d ∧ k' = { k with disk := d } := by
  unfold Err onDisk
  constructor
  · intro h
    cases hm : m k.disk with
    | ok b d =>
      rw [hm] at h
      cases h
    | error e d =>
      rw [hm] at h
      cases h
      exact ⟨d, rfl, rfl⟩
  · rintro ⟨d, hm, rfl⟩
    rw [hm]

/-! ## receipts and events -/

def appendEvent (eventType : String) (data : Json) : KernelM Unit :=
  modify fun k => { k with events := k.events ++ [⟨eventType, data⟩] }

/-- an event of a runtime that was not built without process truth events -/
def emitEvent (rt : Runtime) (eventType : String) (data : Json) : KernelM Unit :=
  if rt.emitEvents then appendEvent eventType data else pure ()

def emitReceipt (rt : Runtime) (eventType : String) (receipt : Receipt) : KernelM Unit :=
  emitEvent rt eventType receipt.toJson

def blockedReceiptWithData (rt : Runtime) (capabilityId : String) (data : Json) :
    KernelM Receipt := do
  let receipt : Receipt := ⟨capabilityId, rt.jobId, rt.pid, "blocked", data⟩
  emitReceipt rt "capability_blocked" receipt
  emitReceipt rt "capability_receipt" receipt
  pure receipt

def blockedReceipt (rt : Runtime) (capabilityId reason : String) : KernelM Receipt :=
  blockedReceiptWithData rt capabilityId (.obj [("reason", .str reason)])

/-- the receipt a finished capability emits and returns -/
def successReceipt (rt : Runtime) (capabilityId : String) (data : Json) : KernelM Receipt := do
  let receipt : Receipt := ⟨capabilityId, rt.jobId, rt.pid, "success", data⟩
  emitReceipt rt "capability_receipt" receipt
  pure receipt

/-- `ensure_capability`: the rest runs only when the token grants the capability -/
def withCapability (rt : Runtime) (capabilityId : String) (body : KernelM Receipt) :
    KernelM Receipt :=
  if capabilityId ∈ rt.capabilities then body
  else blockedReceipt rt capabilityId (capabilityId ++ " not granted")

/-! ## names -/

def safeBlobName (value : String) : String :=
  mapChars (fun c => if c.isAlphanum || c == '.' || c == '-' || c == '_' then c else '_')
    (replaceChar '\\' '/' value)

def newTxId (pfx : String) : KernelM String := fun k =>
  .ok (pfx ++ "_" ++ toString k.clock ++ "_" ++ toString k.sequence)
    { k with sequence := k.sequence + 1 }

def txBlobName (txId : String) : String := "tx/" ++ (safeBlobName txId ++ ".json")

def blobRef (rt : Runtime) (name : String) : String := "blob://" ++ rt.jobId ++ "/" ++ name

/-- `ProcessTruthStore::write_blob` -/
def writeBlob (rt : Runtime) (name : String) (content : Json) : KernelM String := do
  modify fun k => { k with blobs := Function.update k.blobs name (some content) }
  pure (blobRef rt name)

/-- the resolution of a capability's path argument -/
def resolvePath (rt : Runtime) (relativePath : String) : KernelM Path := fun k =>
  match resolveWorkspacePath rt.workspaceRoot relativePath with
  | .ok p => .ok p k
  | .error e => .error (.permissionDenied e) k

theorem resolvePath_ok {rt : Runtime} {s : String} {p : Path} {k k' : Kernel} :
    Ok (resolvePath rt s) k p k' ↔ resolveWorkspacePath rt.workspaceRoot s = .ok p ∧ k' = k := by
  unfold Ok resolvePath
  cases resolveWorkspacePath rt.workspaceRoot s with
  | ok q =>
    constructor
    · intro h
      cases h
      exact ⟨rfl, rfl⟩
    · rintro ⟨h, rfl⟩
      cases h
      rfl
  | error e =>
    constructor
    · intro h
      cases h
    · rintro ⟨h, -⟩
      cases h

theorem resolvePath_err {rt : Runtime} {s : String} {e : Fault} {k k' : Kernel}
    (h : Err (resolvePath rt s) k e k') : k' = k := by
  unfold Err resolvePath at h
  cases hr : resolveWorkspacePath rt.workspaceRoot s with
  | ok p =>
    rw [hr] at h
    cases h
  | error m =>
    rw [hr] at h
    cases h
    rfl

/-! ## the record of a transaction -/

/-- `OsTxRecord` -/
structure OsTxRecord where
  txId : String
  operation : String
  sourcePath : Option String
  destinationPath : Option String
  writeKind : Option String
  sourceBeforeExists : Bool
  destinationBeforeExists : Bool
  sourceBackupRef : Option String
  destinationBackupRef : Option String
  deriving DecidableEq

def optionToJson : Option String → Json
  | some s => .str s
  | none => .null

/-- an optional field of a record: absent and `null` both read as none -/
def optionOfJson : Option Json → Option (Option String)
  | none => some none
  | some .null => some none
  | some (.str s) => some (some s)
  | some _ => none

def boolOfJson : Option Json → Option Bool
  | some (.bool b) => some b
  | _ => none

def OsTxRecord.toJson (r : OsTxRecord) : Json :=
  .obj [("tx_id", .str r.txId), ("operation", .str r.operation),
    ("source_path", optionToJson r.sourcePath),
    ("destination_path", optionToJson r.destinationPath),
    ("write_kind", optionToJson r.writeKind),
    ("source_before_exists", .bool r.sourceBeforeExists),
    ("destination_before_exists", .bool r.destinationBeforeExists),
    ("source_backup_ref", optionToJson r.sourceBackupRef),
    ("destination_backup_ref", optionToJson r.destinationBackupRef)]

/-- reading a record back; every required field must be there with its type -/
def OsTxRecord.ofJson (v : Json) : Option OsTxRecord := do
  let txId ← v.strAt? "tx_id"
  let operation ← v.strAt? "operation"
  let sourcePath ← optionOfJson (v.get? "source_path")
  let destinationPath ← optionOfJson (v.get? "destination_path")
  let writeKind ← optionOfJson (v.get? "write_kind")
  let sourceBeforeExists ← boolOfJson (v.get? "source_before_exists")
  let destinationBeforeExists ← boolOfJson (v.get? "destination_before_exists")
  let sourceBackupRef ← optionOfJson (v.get? "source_backup_ref")
  let destinationBackupRef ← optionOfJson (v.get? "destination_backup_ref")
  pure ⟨txId, operation, sourcePath, destinationPath, writeKind, sourceBeforeExists,
    destinationBeforeExists, sourceBackupRef, destinationBackupRef⟩

theorem optionOfJson_toJson (o : Option String) : optionOfJson (some (optionToJson o)) = some o := by
  cases o <;> rfl

theorem OsTxRecord.ofJson_toJson (r : OsTxRecord) : ofJson r.toJson = some r := by
  have h1 : r.toJson.get? "source_path" = some (optionToJson r.sourcePath) := rfl
  have h2 : r.toJson.get? "destination_path" = some (optionToJson r.destinationPath) := rfl
  have h3 : r.toJson.get? "write_kind" = some (optionToJson r.writeKind) := rfl
  have h4 : r.toJson.get? "source_backup_ref" = some (optionToJson r.sourceBackupRef) := rfl
  have h5 : r.toJson.get? "destination_backup_ref" = some (optionToJson r.destinationBackupRef) :=
    rfl
  have h6 : r.toJson.strAt? "tx_id" = some r.txId := rfl
  have h7 : r.toJson.strAt? "operation" = some r.operation := rfl
  have h8 : boolOfJson (r.toJson.get? "source_before_exists") = some r.sourceBeforeExists := rfl
  have h9 : boolOfJson (r.toJson.get? "destination_before_exists") =
    some r.destinationBeforeExists := rfl
  simp only [ofJson, h1, h2, h3, h4, h5, h6, h7, h8, h9, optionOfJson_toJson]
  rfl

def recordTx (rt : Runtime) (record : OsTxRecord) : KernelM String := do
  let txRef ← writeBlob rt (txBlobName record.txId) record.toJson
  emitEvent rt "tx_recorded" (.obj [("tx_id", .str record.txId),
    ("operation", .str record.operation), ("tx_ref", .str txRef)])
  pure txRef

/-! ## mutation locks -/

def lockFile (normalizedPath : String) : String := safeBlobName normalizedPath ++ ".lock"

/-- the loop of `acquire_mutation_locks`: create each lock file, which must not be there -/
def acquireLoop : List String → List String → List String → Except String (List String)
  | _, acquired, [] => .ok acquired
  | present, acquired, path :: rest =>
    if lockFile path ∈ present then .error path
    else acquireLoop (lockFile path :: present) (lockFile path :: acquired) rest

/-- dropping the locks removes their files -/
def releaseLocks (acquired : List String) (k : Kernel) : Kernel :=
  { k with locks := k.locks.filter (· ∉ acquired) }

/-- `acquire_mutation_locks` around the rest of an operation; the guards drop when it ends -/
def withMutationLocks (rt : Runtime) (capabilityId : String) (normalizedPaths : List String)
    (body : KernelM Receipt) : KernelM Receipt := fun k =>
  let lockPaths := (normalizedPaths.insertionSort (· ≤ ·)).dedup
  match acquireLoop k.locks [] lockPaths with
  | .error conflict =>
    blockedReceiptWithData rt capabilityId (.obj [
      ("reason", .str "workspace_file_lock_conflict"),
      ("message", .str "target path is locked by another active run"),
      ("target_paths", .arr (lockPaths.map .str)),
      ("conflict_path", .str conflict),
      ("no_file_written", .bool true),
      ("recoverable_by_task_agent", .bool true)]) k
  | .ok acquired =>
    match body { k with locks := acquired ++ k.locks } with
    | .ok r k' => .ok r (releaseLocks acquired k')
    | .error e k' => .error e (releaseLocks acquired k')

/-! ## what the shared parts leave alone -/

section
variable {rt : Runtime} {k k' : Kernel} {r : Receipt} {cap : String}

theorem emitEvent_ok {e : String} {data : Json} {u : Unit}
    (h : Ok (emitEvent rt e data) k u k') : k'.disk = k.disk ∧ k'.blobs = k.blobs := by
  unfold emitEvent at h
  split at h <;> cases h <;> exact ⟨rfl, rfl⟩

theorem emitReceipt_ok {e : String} {u : Unit} (h : Ok (emitReceipt rt e r) k u k') :
    k'.disk = k.disk ∧ k'.blobs = k.blobs := emitEvent_ok h

theorem emitReceipt_total (rt : Runtime) (e : String) (r : Receipt) (k : Kernel) :
    ∃ k', Ok (emitReceipt rt e r) k () k' := by
  unfold emitReceipt emitEvent
  split <;> exact ⟨_, rfl⟩

theorem blockedReceiptWithData_ok {data : Json}
    (h : Ok (blockedReceiptWithData rt cap data) k r k') :
    r.status = "blocked" ∧ k'.disk = k.disk ∧ k'.blobs = k.blobs := by
  obtain ⟨_, k1, h1, g1⟩ := bind_ok.mp h
  obtain ⟨_, k2, h2, g2⟩ := bind_ok.mp g1
  cases g2
  obtain ⟨e1, e2⟩ := emitReceipt_ok h1
  obtain ⟨e3, e4⟩ := emitReceipt_ok h2
  exact ⟨rfl, e3.trans e1, e4.trans e2⟩

theorem successReceipt_ok {data : Json} (h : Ok (successReceipt rt cap data) k r k') :
    r.status = "success" ∧ r.data = data ∧ k'.disk = k.disk ∧ k'.blobs = k.blobs := by
  obtain ⟨_, k1, h1, g1⟩ := bind_ok.mp h
  cases g1
  obtain ⟨e1, e2⟩ := emitReceipt_ok h1
  exact ⟨rfl, rfl, e1, e2⟩

theorem withCapability_success {body : KernelM Receipt} (h : Ok (withCapability rt cap body) k r k')
    (hs : r.status = "success") : cap ∈ rt.capabilities ∧ Ok body k r k' := by
  unfold withCapability at h
  split at h
  · exact ⟨‹_›, h⟩
  · rw [(blockedReceiptWithData_ok h).1] at hs
    exact absurd hs (by decide)

theorem withCapability_of_mem {body : KernelM Receipt} (h : cap ∈ rt.capabilities) :
    withCapability rt cap body = body := if_pos h

theorem withMutationLocks_success {paths : List String} {body : KernelM Receipt}
    (h : Ok (withMutationLocks rt cap paths body) k r k') (hs : r.status = "success") :
    ∃ k1 k2, Ok body k1 r k2 ∧ k1.disk = k.disk ∧ k1.blobs = k.blobs ∧ k'.disk = k2.disk ∧
      k'.blobs = k2.blobs := by
  unfold withMutationLocks Ok at h
  simp only at h
  split at h
  · have := (blockedReceiptWithData_ok h).1
    rw [this] at hs
    exact absurd hs (by decide)
  · split at h
    · rename_i k2 hb
      cases h
      exact ⟨_, k2, hb, rfl, rfl, rfl, rfl⟩
    · cases h

theorem writeBlob_ok {name ref : String} {content : Json}
    (h : Ok (writeBlob rt name content) k ref k') :
    k'.disk = k.disk ∧ k'.blobs = Function.update k.blobs name (some content) := by
  cases h
  exact ⟨rfl, rfl⟩

theorem writeBlob_ref {name ref : String} {content : Json}
    (h : Ok (writeBlob rt name content) k ref k') : ref = blobRef rt name := by
  cases h
  rfl

theorem recordTx_ok {record : OsTxRecord} {ref : String} (h : Ok (recordTx rt record) k ref k') :
    k'.disk = k.disk ∧
      k'.blobs = Function.update k.blobs (txBlobName record.txId) (some record.toJson) := by
  obtain ⟨_, k1, h1, g1⟩ := bind_ok.mp h
  obtain ⟨_, k2, h2, g2⟩ := bind_ok.mp g1
  obtain ⟨d1, b1⟩ := writeBlob_ok h1
  obtain ⟨d2, b2⟩ := emitEvent_ok h2
  cases g2
  exact ⟨d2.trans d1, b2.trans b1⟩

theorem newTxId_ok {p txId : String} (h : Ok (newTxId p) k txId k') :
    txId = p ++ "_" ++ toString k.clock ++ "_" ++ toString k.sequence ∧ k'.disk = k.disk ∧
      k'.blobs = k.blobs := by
  cases h
  exact ⟨rfl, rfl, rfl⟩

theorem newTxId_total (p : String) (k : Kernel) : ∃ txId k', Ok (newTxId p) k txId k' :=
  ⟨_, _, rfl⟩

end

/-! ## generated ids are plain names -/

/-- only characters that `safe_blob_name` keeps -/
def SafeName (s : String) : Prop :=
  ∀ c ∈ s.toList, c.isAlphanum || c == '.' || c == '-' || c == '_'

instance (s : String) : Decidable (SafeName s) := List.decidableBAll _ s.toList

theorem safeBlobName_of_safe {s : String} (h : SafeName s) : safeBlobName s = s := by
  have h1 : replaceChar '\\' '/' s = s := by
    apply mapChars_of_fixed
    intro c hc
    have hne : c ≠ '\\' := by
      rintro rfl
      exact absurd (h _ hc) (by decide)
    exact if_neg hne
  rw [safeBlobName, h1]
  exact mapChars_of_fixed fun c hc => if_pos (h c hc)

theorem safeName_append {s t : String} (hs : SafeName s) (ht : SafeName t) : SafeName (s ++ t) := by
  intro c hc
  rw [String.toList_append] at hc
  exact (List.mem_append.mp hc).elim (hs c) (ht c)

theorem safeName_toString (n : Nat) : SafeName (toString n) := by
  intro c hc
  have hd : c.isDigit = true := by
    have e : toString n = String.ofList (Nat.toDigits 10 n) := rfl
    rw [e, String.toList_ofList] at hc
    exact Nat.isDigit_of_mem_toDigits (by decide) (by decide) hc
  simp [Char.isAlphanum, hd]

/-- the shape of the ids `new_tx_id` makes -/
def TxName (txId : String) : Prop := SafeName txId ∧ '_' ∈ txId.toList

theorem txName_of_new {p : String} (hp : SafeName p) (clock sequence : Nat) :
    TxName (p ++ "_" ++ toString clock ++ "_" ++ toString sequence) := by
  have h : SafeName "_" := by decide
  refine ⟨safeName_append (safeName_append (safeName_append (safeName_append hp h)
    (safeName_toString _)) h) (safeName_toString _), ?_⟩
  simp

theorem TxName.no_slash {txId : String} (h : TxName txId) : '/' ∉ txId.toList := fun c =>
  absurd (h.1 _ c) (by decide)

theorem TxName.ne {txId s : String} (h : TxName txId) (hs : '_' ∉ s.toList) : txId ≠ s := by
  rintro rfl
  exact hs h.2

theorem txBlobName_inj {id id' : String} (h : TxName id) (h' : TxName id')
    (e : txBlobName id = txBlobName id') : id = id' := by
  unfold txBlobName at e
  rw [safeBlobName_of_safe h.1, safeBlobName_of_safe h'.1] at e
  have e1 := congrArg String.toList e
  simp only [String.toList_append, List.append_cancel_right_eq, List.append_cancel_left_eq] at e1
  exact String.toList_injective e1

end Os

import SuperNova.Os.Zip

/-!
# The operations of the OS runtime

Every mutation backs up what it may destroy, changes the disk, and records a transaction that
`rollbackTx` interprets.  The definitions follow the source; what they do to the disk and to the
records is in `SuperNova.Os.Effects`.
-/

namespace Os

open Paths Io FileTree Workspace

/-! ## backups -/

def jobBackups (rt : Runtime) : Path := rt.stateRoot ++ ["tx_backups", rt.jobId]

/-- where the backup of one slot of a transaction lies -/
def backupPath (rt : Runtime) (txId slot : String) : Path := jobBackups rt ++ [txId] ++ [slot]

def backupRef (rt : Runtime) (txId slot : String) : String :=
  "txbackup://" ++ rt.jobId ++ "/" ++ txId ++ "/" ++ slot

/-- `if path.exists() { remove_path_any(path) }` -/
def removeIfExists (path : Path) : DiskM Unit := do
  let t ← get
  if t.exists path then removePathAny path else pure ()

/-- the copy of `backup_workspace_path` -/
def copyToBackup (backup path : Path) : DiskM Unit := do
  createDirAll backup.dropLast
  removeIfExists backup
  copyPathRecursive path backup

/-- `backup_workspace_path`: whether the path exists, and the reference of its backup -/
def backupWorkspacePath (rt : Runtime) (txId slot : String) (path : Path) :
    KernelM (Bool × Option String) := do
  let k ← get
  if k.disk.exists path then do
    onDisk (copyToBackup (backupPath rt txId slot) path)
    pure (true, some (backupRef rt txId slot))
  else pure (false, none)

/-! ## writing -/

def isValidWriteKind (writeKind : String) : Bool :=
  writeKind == "artifact" || writeKind == "source_mutation" || writeKind == "temp_dataset"

/-- `capability_kernel::normalize_path_string` -/
def normalizePathString (path : String) : String :=
  String.ofList (Text.trimStartPair '.' '/' (Text.trim (normalizePath path)).toList)

/-- one payload of an event names a produced path -/
def payloadNames (normalized : String) (payload : Json) : Bool :=
  if payload.strAt? "status" == some "blocked" then false
  else
    let path := ((payload.get? "artifact_path").or ((payload.get? "archive_path").or
      (payload.get? "destination_path"))).bind Json.asStr?
    (path.map fun p => normalizePathString p == normalized).getD false ||
      (((payload.get? "artifacts").bind Json.asArr?).map fun items =>
        (items.filterMap Json.asStr?).any fun p => normalizePathString p == normalized).getD false

def artifactPathGeneratedByCurrentJob (events : List Event) (artifactPath : String) : Bool :=
  events.any fun e => (e.data :: (e.data.get? "data").toList).any
    (payloadNames (normalizePathString artifactPath))

def artifactRevisionCount (events : List Event) (artifactPath : String) : Nat :=
  (events.filter fun e => e.eventType == "artifact_version_tx" &&
    ((e.data.strAt? "artifact_path").map fun p =>
      normalizePath p == normalizePath artifactPath).getD false).length

/-- one byte of `file_fingerprint` -/
def fnvByte (hash : UInt64) (b : UInt8) : UInt64 := (hash ^^^ b.toUInt64) * 0x100000001b3

def fnv1a64 (bytes : Bytes) : UInt64 := bytes.foldl fnvByte 0xcbf29ce484222325

/-- a number in hexadecimal, padded to 16 digits -/
def hex16 (n : Nat) : String :=
  let digits := Nat.toDigits 16 n
  String.ofList (List.replicate (16 - digits.length) '0' ++ digits)

def fileFingerprint (path : Path) : DiskM String := do
  let bytes ← read path
  pure ("fnv1a64:" ++ hex16 (fnv1a64 bytes).toNat)

/-- a fingerprint taken only for a revision -/
def revisionHash (isArtifactRevision : Bool) (path : Path) : DiskM (Option String) :=
  if isArtifactRevision then do
    let hash ← fileFingerprint path
    pure (some hash)
  else pure none

def versionBlobName (normalizedPath : String) (versionIndex : Nat) : String :=
  "artifact_versions/" ++ (safeBlobName normalizedPath ++ "_" ++ toString versionIndex ++
    "_diff_summary.json")

/-- the version record of a rewritten artifact; its reference -/
def recordArtifactVersion (rt : Runtime) (capabilityId normalizedPath txId : String)
    (previousHash newHash : Option String) : KernelM String := do
  let k ← get
  let versionIndex := artifactRevisionCount k.events normalizedPath + 1
  let fields : List (String × Json) := [("artifact_path", .str normalizedPath),
    ("previous_hash", optionToJson previousHash), ("new_hash", optionToJson newHash),
    ("revision_index", .num versionIndex), ("producer_capability", .str capabilityId),
    ("tx_id", .str txId)]
  let diffSummaryRef ← writeBlob rt (versionBlobName normalizedPath versionIndex)
    (.obj (fields ++ [("summary", .str
      "artifact content was rewritten by the same AgentJob; this is recorded as an artifact version transaction, not a user source mutation")]))
  emitEvent rt "artifact_version_tx" (.obj (fields ++ [("source_refs", .arr []),
    ("diff_summary_ref", .str diffSummaryRef), ("status", .str "recorded")]))
  pure diffSummaryRef

/-- the version record of a write, when it is a revision -/
def recordRevision (rt : Runtime) (isArtifactRevision : Bool)
    (capabilityId normalizedPath txId : String) (previousHash newHash : Option String) :
    KernelM (Option String) :=
  if isArtifactRevision then do
    let ref ← recordArtifactVersion rt capabilityId normalizedPath txId previousHash newHash
    pure (some ref)
  else pure none

/-- the disk part of a write -/
def writeAt (path : Path) (content : Bytes) : DiskM Unit := do
  createDirAll path.dropLast
  write path content

/-- the part of `write_file_with_capability` under the mutation lock -/
def writeLocked (rt : Runtime) (capabilityId normalizedPath : String) (path : Path)
    (content : Bytes) (writeKind : String) : KernelM Receipt := do
  let txId ← newTxId "os_write"
  let k ← get
  let isArtifactRevision := writeKind == "artifact" && k.disk.exists path &&
    artifactPathGeneratedByCurrentJob k.events normalizedPath
  let previousHash ← onDisk (revisionHash isArtifactRevision path)
  let destinationBackup ← backupWorkspacePath rt txId "destination" path
  onDisk (writeAt path content)
  let newHash ← onDisk (revisionHash isArtifactRevision path)
  let txRef ← recordTx rt
    { txId := txId, operation := capabilityId, sourcePath := none,
      destinationPath := some normalizedPath, writeKind := some writeKind,
      sourceBeforeExists := false, destinationBeforeExists := destinationBackup.1,
      sourceBackupRef := none, destinationBackupRef := destinationBackup.2 }
  let versionTxRef ← recordRevision rt isArtifactRevision capabilityId normalizedPath txId
    previousHash newHash
  successReceipt rt capabilityId (.obj [
    ("artifact_ref", .str ("artifact://" ++ normalizedPath)),
    ("artifact_path", .str normalizedPath), ("size_bytes", .num content.length),
    ("write_kind", .str writeKind), ("tx_id", .str txId), ("tx_ref", .str txRef),
    ("artifact_version_tx_ref", optionToJson versionTxRef)])

def writeFileWithCapability (rt : Runtime) (capabilityId relativePath : String) (content : Bytes)
    (writeKind : String) : KernelM Receipt :=
  withCapability rt capabilityId (
    if isValidWriteKind writeKind then do
      let path ← resolvePath rt relativePath
      let normalizedPath := normalizePath relativePath
      withMutationLocks rt capabilityId [normalizedPath]
        (writeLocked rt capabilityId normalizedPath path content writeKind)
    else blockedReceiptWithData rt capabilityId (.obj [
      ("reason", .str "invalid_write_kind"),
      ("message", .str "write_kind must be artifact, source_mutation, or temp_dataset"),
      ("schema_error", .bool true), ("recoverable_by_task_agent", .bool true),
      ("received_write_kind", .str writeKind),
      ("accepted_write_kinds",
        .arr [.str "artifact", .str "source_mutation", .str "temp_dataset"]),
      ("no_file_written", .bool true)]))

def writeFile (rt : Runtime) (relativePath : String) (content : Bytes) (writeKind : String) :
    KernelM Receipt :=
  writeFileWithCapability rt "os.write_file" relativePath content writeKind

def writeArtifact (rt : Runtime) (relativePath : String) (content : Bytes) : KernelM Receipt :=
  writeFileWithCapability rt "os.write_artifact" relativePath content "artifact"

def writeTempDataset (rt : Runtime) (relativePath : String) (content : Bytes) : KernelM Receipt :=
  writeFileWithCapability rt "os.write_temp_dataset" relativePath content "temp_dataset"

def writeSourceMutationApply (rt : Runtime) (relativePath : String) (content : Bytes) :
    KernelM Receipt :=
  writeFileWithCapability rt "os.write_source_mutation_apply" relativePath content
    "source_mutation"

/-! ## copy, move, rename -/

/-- the disk part of `copy_like` -/
def copyLikeAt (source destination : Path) (removeSource : Bool) : DiskM Unit := do
  createDirAll destination.dropLast
  removeIfExists destination
  copyPathRecursive source destination
  if removeSource then removePathAny source else pure ()

/-- the part of `copy_like` under the mutation locks -/
def copyLikeLocked (rt : Runtime) (capabilityId normalizedSource normalizedDestination : String)
    (source destination : Path) (removeSource : Bool) : KernelM Receipt := do
  let txId ← newTxId "os_mutation"
  let sourceBackup ← backupWorkspacePath rt txId "source" source
  let destinationBackup ← backupWorkspacePath rt txId "destination" destination
  onDisk (copyLikeAt source destination removeSource)
  let txRef ← recordTx rt
    { txId := txId, operation := capabilityId, sourcePath := some normalizedSource,
      destinationPath := some normalizedDestination, writeKind := some "source_mutation",
      sourceBeforeExists := sourceBackup.1, destinationBeforeExists := destinationBackup.1,
      sourceBackupRef := sourceBackup.2, destinationBackupRef := destinationBackup.2 }
  successReceipt rt capabilityId (.obj [("source_path", .str normalizedSource),
    ("destination_path", .str normalizedDestination), ("tx_id", .str txId),
    ("tx_ref", .str txRef)])

def copyLike (rt : Runtime) (capabilityId sourcePath destinationPath : String)
    (removeSource : Bool) : KernelM Receipt :=
  withCapability rt capabilityId do
    let source ← resolvePath rt sourcePath
    let destination ← resolvePath rt destinationPath
    let k ← get
    if k.disk.exists source then
      withMutationLocks rt capabilityId [normalizePath sourcePath, normalizePath destinationPath]
        (copyLikeLocked rt capabilityId (normalizePath sourcePath)
          (normalizePath destinationPath) source destination removeSource)
    else blockedReceipt rt capabilityId "source path does not exist"

def copyPath (rt : Runtime) (sourcePath destinationPath : String) : KernelM Receipt :=
  copyLike rt "os.copy_path" sourcePath destinationPath false

def movePath (rt : Runtime) (sourcePath destinationPath : String) : KernelM Receipt :=
  copyLike rt "os.move_path" sourcePath destinationPath true

def renamePath (rt : Runtime) (sourcePath destinationPath : String) : KernelM Receipt :=
  copyLike rt "os.rename_path" sourcePath destinationPath true

/-! ## delete -/

/-- the part of `delete_path` under the mutation lock -/
def deleteLocked (rt : Runtime) (normalizedPath : String) (path : Path) : KernelM Receipt := do
  let txId ← newTxId "os_delete"
  let sourceBackup ← backupWorkspacePath rt txId "source" path
  onDisk (removePathAny path)
  let txRef ← recordTx rt
    { txId := txId, operation := "os.delete_path", sourcePath := some normalizedPath,
      destinationPath := none, writeKind := some "source_mutation",
      sourceBeforeExists := sourceBackup.1, destinationBeforeExists := false,
      sourceBackupRef := sourceBackup.2, destinationBackupRef := none }
  successReceipt rt "os.delete_path" (.obj [("target_path", .str normalizedPath),
    ("tx_id", .str txId), ("tx_ref", .str txRef)])

def deletePath (rt : Runtime) (relativePath : String) : KernelM Receipt :=
  withCapability rt "os.delete_path" do
    let path ← resolvePath rt relativePath
    let k ← get
    if k.disk.exists path then
      withMutationLocks rt "os.delete_path" [normalizePath relativePath]
        (deleteLocked rt (normalizePath relativePath) path)
    else blockedReceipt rt "os.delete_path" "delete target does not exist"

/-! ## archives -/

def resolveSources (rt : Runtime) : List String → KernelM (List (String × Path))
  | [] => pure []
  | s :: rest => do
    let p ← resolvePath rt s
    let l ← resolveSources rt rest
    pure ((normalizePath s, p) :: l)

/-- the disk part of `zip_paths` -/
def zipAt (rt : Runtime) (sources : List (String × Path)) (destination : Path) : DiskM Nat := do
  createDirAll destination.dropLast
  writeStoreZip rt.workspaceRoot sources destination

def zipPaths (rt : Runtime) (sourcePaths : List String) (destinationZipPath : String) :
    KernelM Receipt :=
  withCapability rt "os.zip" do
    let txId ← newTxId "os_zip"
    let destination ← resolvePath rt destinationZipPath
    let destinationBackup ← backupWorkspacePath rt txId "destination" destination
    let sources ← resolveSources rt sourcePaths
    let entryCount ← onDisk (zipAt rt sources destination)
    let txRef ← recordTx rt
      { txId := txId, operation := "os.zip", sourcePath := none,
        destinationPath := some (normalizePath destinationZipPath), writeKind := some "artifact",
        sourceBeforeExists := false, destinationBeforeExists := destinationBackup.1,
        sourceBackupRef := none, destinationBackupRef := destinationBackup.2 }
    successReceipt rt "os.zip" (.obj [("archive_path", .str (normalizePath destinationZipPath)),
      ("entry_count", .num entryCount), ("tx_id", .str txId), ("tx_ref", .str txRef)])

/-- the disk part of `unzip_archive` -/
def unzipAt (archive destination : Path) : DiskM Nat := do
  createDirAll destination
  readStoreZip archive destination

/-- `unzip_archive`; its record names the archive as a source that was never backed up -/
def unzipArchive (rt : Runtime) (archivePath destinationDir : String) : KernelM Receipt :=
  withCapability rt "os.unzip" do
    let archive ← resolvePath rt archivePath
    let destination ← resolvePath rt destinationDir
    let k ← get
    if k.disk.isFile archive then do
      let txId ← newTxId "os_unzip"
      let destinationBackup ← backupWorkspacePath rt txId "destination" destination
      let entryCount ← onDisk (unzipAt archive destination)
      let txRef ← recordTx rt
        { txId := txId, operation := "os.unzip", sourcePath := some (normalizePath archivePath),
          destinationPath := some (normalizePath destinationDir), writeKind := some "artifact",
          sourceBeforeExists := true, destinationBeforeExists := destinationBackup.1,
          sourceBackupRef := none, destinationBackupRef := destinationBackup.2 }
      successReceipt rt "os.unzip" (.obj [("archive_path", .str (normalizePath archivePath)),
        ("destination_dir", .str (normalizePath destinationDir)),
        ("entry_count", .num entryCount), ("tx_id", .str txId), ("tx_ref", .str txRef)])
    else blockedReceipt rt "os.unzip" "archive target is not a file"

/-! ## rollback -/

/-- the path of a backup reference, which has to lie in the job's backups -/
def resolveBackupRef (rt : Runtime) (ref : String) : Except Fault Path :=
  match Text.stripPrefix ("txbackup://" ++ rt.jobId ++ "/") ref with
  | none => .error (.invalidInput "tx backup ref does not belong to this job")
  | some relative =>
    if isAbsolute relative ∨ ".." ∈ components relative then
      .error (.invalidInput "tx backup ref leaves backup boundary")
    else .ok (jobBackups rt ++ components relative)

def restoreTxBackup (rt : Runtime) (ref : String) (destination : Path) : DiskM Unit :=
  match resolveBackupRef rt ref with
  | .error e => throw e
  | .ok backup => copyPathRecursive backup destination

/-- one half of `restore_tx_record`: remove what is at the path, restore its backup if it has one -/
def restoreSlot (rt : Runtime) (path : Option String) (beforeExists : Bool)
    (backupRef : Option String) : KernelM Unit :=
  match path with
  | none => pure ()
  | some path => do
    let target ← resolvePath rt path
    onDisk (removeIfExists target)
    if beforeExists then
      match backupRef with
      | some ref => onDisk (restoreTxBackup rt ref target)
      | none => pure ()
    else pure ()

/-- `restore_tx_record`: the destination first, then the source -/
def restoreTxRecord (rt : Runtime) (record : OsTxRecord) : KernelM Unit := do
  restoreSlot rt record.destinationPath record.destinationBeforeExists record.destinationBackupRef
  restoreSlot rt record.sourcePath record.sourceBeforeExists record.sourceBackupRef

def rollbackTx (rt : Runtime) (txId : String) : KernelM Receipt :=
  withCapability rt "os.rollback_tx" do
    let k ← get
    match k.blobs (txBlobName txId) with
    | none => blockedReceipt rt "os.rollback_tx" "tx record does not exist"
    | some content =>
      match OsTxRecord.ofJson content with
      | none => throw (.invalidData "tx record")
      | some record => do
        restoreTxRecord rt record
        let receipt : Receipt := ⟨"os.rollback_tx", rt.jobId, rt.pid, "success",
          .obj [("tx_id", .str txId), ("rolled_back_operation", .str record.operation)]⟩
        emitReceipt rt "tx_rollback" receipt
        emitReceipt rt "capability_receipt" receipt
        pure receipt

/-! ## a small state to run on -/

/-- a disk with the given files -/
def diskOf (files : List (Path × Bytes)) : Disk :=
  final (files.forM fun f => writeAt f.1 f.2) Tree.empty

def kernelOf (files : List (Path × Bytes)) : Kernel :=
  ⟨diskOf files, fun _ => none, [], [], 0, 1⟩

/-- a runtime with its state outside the workspace -/
def sampleRuntime : Runtime where
  workspaceRoot := ["ws"]
  stateRoot := ["state"]
  jobId := "job"
  pid := "pid"
  capabilities := ["os.write_file", "os.copy_path", "os.move_path", "os.delete_path", "os.zip",
    "os.unzip", "os.rollback_tx"]
  emitEvents := true

end Os

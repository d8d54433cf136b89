import SuperNova.Package.Build

/-!
# Typed verification of artifacts

`artifact.verify_typed` picks a verifier by the name of the file and runs it on the bytes of the file.
-/

namespace Package

open Io FileTree Workspace Os Text

/-! ## files -/

/-- `fs::read` -/
def readFile (t : Disk) (path : Path) : Except Fault Bytes :=
  match t.entry path with
  | some (.file bytes) => .ok bytes
  | some .dir => .error .isADirectory
  | none => .error .notFound

/-- `fs::read_to_string` -/
def readToString (t : Disk) (path : Path) : Except Fault String := do
  let bytes ← readFile t path
  match String.fromUTF8? ⟨bytes.toArray⟩ with
  | some text => pure text
  | none => throw (.invalidData "stream did not contain valid UTF-8")

/-! ## archives -/

/-- `read_u16_le` and `read_u32_le` -/
def readHeader (width : Nat) (bytes : Bytes) (offset : Nat) : Except Fault Nat :=
  match readLe width bytes offset with
  | .ok v => .ok v
  | .error _ => .error (.invalidData "zip header truncated")

/-- one round of the loop: the offset after an entry, none at the end -/
def verifyEntry (bytes : Bytes) (offset : Nat) : Except Fault (Option Nat) := do
  let signature ← readHeader 4 bytes offset
  if signature = 0x02014b50 ∨ signature = 0x06054b50 then pure none
  else if signature ≠ 0x04034b50 then throw (.invalidData "unsupported zip local header")
  else do
    let method ← readHeader 2 bytes (offset + 8)
    if method ≠ 0 then throw (.invalidData "only store-method zip entries are supported by this verifier")
    else do
      let size ← readHeader 4 bytes (offset + 18)
      let nameLen ← readHeader 2 bytes (offset + 26)
      let extraLen ← readHeader 2 bytes (offset + 28)
      let dataEnd := offset + 30 + nameLen + extraLen + size
      if dataEnd > bytes.length then throw (.invalidData "zip entry exceeds archive bounds") else pure (some dataEnd)

/-- the loop of `verify_store_zip_file`; every round moves the offset, so `fuel` is the length -/
def verifyEntries (bytes : Bytes) : Nat → Nat → Nat → Except Fault Nat
  | 0, _, count => .ok count
  | fuel + 1, offset, count =>
    if offset + 4 ≤ bytes.length then
      match verifyEntry bytes offset with
      | .error e => .error e
      | .ok none => .ok count
      | .ok (some next) => verifyEntries bytes fuel next (count + 1)
    else .ok count

def verifyStoreZipFile (t : Disk) (path : Path) : Except Fault Nat := do
  let bytes ← readFile t path
  let count ← verifyEntries bytes (bytes.length + 1) 0 0
  if count = 0 then throw (.invalidData "no local zip entries found") else pure count

/-! ## checksums -/

def eqIgnoreAsciiCase (a b : String) : Bool := toAsciiLowercase a == toAsciiLowercase b

/-- the loop of `verify_sha256sum_ledger`, with the numbers of checked lines and of mismatches -/
def verifyLedgerLines (t : Disk) (root : Path) : List String → Nat → Nat → Except Fault (Nat × Nat)
  | [], checked, mismatches => .ok (checked, mismatches)
  | line :: rest, checked, mismatches =>
    let line := trim line
    if line = "" ∨ line.toList.head? = some '#' then verifyLedgerLines t root rest checked mismatches
    else
      match splitWhitespace line with
      | [] => .error (.invalidData "checksum line missing hash")
      | [_] => .error (.invalidData "checksum line missing path")
      | expected :: relativePath :: _ =>
        if expected.utf8ByteSize ≠ 64 ∨ ¬ expected.toList.all isHexDigit then
          .error (.invalidData "checksum hash is not a 64-character SHA-256 hex digest")
        else
          match resolveWorkspacePath root relativePath with
          | .error e => .error (.permissionDenied e)
          | .ok source =>
            match t.fileAt source with
            | none => verifyLedgerLines t root rest checked (mismatches + 1)
            | some bytes =>
              verifyLedgerLines t root rest (checked + 1)
                (if eqIgnoreAsciiCase (hexLower (sha256Bytes bytes)) expected then mismatches else mismatches + 1)

def verifySha256sumLedger (t : Disk) (root ledgerPath : Path) : Except Fault Json := do
  let text ← readToString t ledgerPath
  let (checked, mismatches) ← verifyLedgerLines t root (lines text) 0 0
  if checked = 0 then throw (.invalidData "checksum ledger has no file entries")
  else if mismatches ≠ 0 then throw (.invalidData ("checksum mismatches: " ++ toString mismatches))
  else pure (.obj [("checked_entries", .num checked), ("algorithm", .str "sha256")])

/-! ## manifests and notes -/

def manifestMarkers : List String :=
  ["# PACK_MANIFEST", "source_file_count", "included_count", "checksum_algorithm", "## Included Files"]

def verifyPackageManifest (t : Disk) (path : Path) : Except Fault Json := do
  let text ← readToString t path
  let missing := manifestMarkers.filter fun marker => !contains text marker
  if missing ≠ [] then throw (.invalidData ("manifest missing markers: " ++ join ", " missing))
  else pure (.obj [("required_markers_present", .arr (manifestMarkers.map .str)), ("bytes", .num text.utf8ByteSize)])

def hasNumber (value : Json) (keys : List String) : Bool :=
  keys.any fun key => (Data.natAt? value key).isSome

def verifyPerfJson (host : Host) (t : Disk) (path : Path) : Except Fault Json := do
  let text ← readToString t path
  match host.parse text with
  | .error e => throw (.invalidData e)
  | .ok (.obj fields) =>
    let hasElapsed := hasNumber (.obj fields) ["elapsed_ms", "duration_ms"]
    let hasCount := hasNumber (.obj fields)
      ["entry_count", "included_count", "file_count", "total_files", "document_count"]
    if !hasElapsed || !hasCount then
      throw (.invalidData "PERF_NOTES must include elapsed/duration and count fields")
    else pure (.obj [("elapsed_field_present", .bool hasElapsed), ("count_field_present", .bool hasCount)])
  | .ok _ => throw (.invalidData "PERF_NOTES is not a JSON object")

/-! ## verify_typed -/

def expectedTypedVerifierForPath (path : String) : String :=
  let lower := toAsciiLowercase path
  if hasEnding lower ".zip" then "zip_verifier"
  else if hasEnding lower "sha256sums.txt" then "checksum_verifier"
  else if hasEnding lower "pack_manifest.md" then "package_manifest_verifier"
  else if hasEnding lower "perf_notes.json" then "perf_json_schema_verifier"
  else "generic_artifact_verifier"

/-- the blocking issues and the evidence -/
structure Findings where
  blockingIssues : List String
  evidence : Json

/-- the findings of a verifier that has a result or an error -/
def findingsOf (host : Host) (what : String) : Except Fault Json → Findings
  | .ok evidence => ⟨[], evidence⟩
  | .error e => ⟨[what ++ " verifier failed: " ++ host.describe e], .obj []⟩

def zipFindings (host : Host) : Except Fault Nat → Findings
  | .ok entryCount =>
    ⟨if entryCount = 0 then ["zip archive has no entries"] else [], .obj [("entry_count", .num entryCount)]⟩
  | .error e => ⟨["zip verifier failed: " ++ host.describe e], .obj []⟩

def findings (host : Host) (t : Disk) (root artifact : Path) (verifier : String) : Findings :=
  if ¬ t.isFile artifact then ⟨["artifact does not exist or is not a file"], .obj []⟩
  else if verifier = "zip_verifier" then zipFindings host (verifyStoreZipFile t artifact)
  else if verifier = "checksum_verifier" then
    findingsOf host "checksum" (verifySha256sumLedger t root artifact)
  else if verifier = "package_manifest_verifier" then
    findingsOf host "package manifest" (verifyPackageManifest t artifact)
  else if verifier = "perf_json_schema_verifier" then findingsOf host "perf JSON" (verifyPerfJson host t artifact)
  else
    ⟨[], .obj [("typed_verifier_supported", .bool false), ("unsupported_verifier", .str verifier),
      ("informational", .bool true)]⟩

/-- verifiers that are no typed ones -/
def informalVerifiers : List String :=
  ["os_verify_artifact", "artifact_quality_and_model_audit", "openxml_validation_plus_quality_audit"]

/-- `receipt` of the artifact runtime -/
def artifactReceipt (rt : Runtime) (capabilityId status : String) (data : Json) : KernelM Receipt := do
  let receipt : Receipt := ⟨capabilityId, rt.jobId, rt.pid, status, data⟩
  emitEvent rt "capability_receipt" receipt.toJson
  emitEvent rt "artifact_review_receipt" receipt.toJson
  pure receipt

def verifyTypedArtifact (host : Host) (rt : Runtime) (artifactPath : String) : KernelM Receipt :=
  if "artifact.verify_typed" ∉ rt.capabilities then
    artifactReceipt rt "artifact.verify_typed" "blocked" (.obj [("reason", .str "artifact.verify_typed not granted")])
  else do
    let artifact ← resolvePath rt artifactPath
    let k ← get
    let verifier := expectedTypedVerifierForPath artifactPath
    let found := findings host k.disk rt.workspaceRoot artifact verifier
    let pass := found.blockingIssues.isEmpty
    artifactReceipt rt "artifact.verify_typed" (if pass then "success" else "failed")
      (.obj [("artifact_path", .str (normalizePath artifactPath)), ("expected_verifier", .str verifier),
        ("blocking_issues", .arr (found.blockingIssues.map .str)),
        ("unsupported_verifier", .bool (verifier ∈ informalVerifiers)),
        ("informational", .bool (pass && verifier ∈ informalVerifiers)), ("typed_verifier_pass", .bool pass),
        ("evidence", found.evidence),
        ("runtime_note",
          .str "typed artifact verifier checks file facts only; TaskAgent decides how to act on failures")])

end Package

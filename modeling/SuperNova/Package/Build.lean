import Mathlib.Data.List.GetD
import SuperNova.Data.Runtime
import SuperNova.Lib.Lines
import SuperNova.Os.Runtime
import SuperNova.Os.ZipFormat

/-!
# Packages

`sha256_bytes` and its text in hexadecimal digits, as `package_runtime` computes them.

`package.build_zip` writes the files of a source set to an archive, and beside it a manifest, the checksums of the
files and notes on the run.

* `length_sha256Bytes`: a digest has 32 bytes;
* `mem_hexDigits`, `length_hexLower`: its text has two digits for each.
-/

set_option linter.unusedSectionVars false

namespace Package

open Workspace

/-! ## the digest -/

def roundConstants : List UInt32 :=
  [0x428a2f98, 0x71374491, 0xb5c0fbcf, 0xe9b5dba5, 0x3956c25b, 0x59f111f1, 0x923f82a4,
    0xab1c5ed5, 0xd807aa98, 0x12835b01, 0x243185be, 0x550c7dc3, 0x72be5d74, 0x80deb1fe,
    0x9bdc06a7, 0xc19bf174, 0xe49b69c1, 0xefbe4786, 0x0fc19dc6, 0x240ca1cc, 0x2de92c6f,
    0x4a7484aa, 0x5cb0a9dc, 0x76f988da, 0x983e5152, 0xa831c66d, 0xb00327c8, 0xbf597fc7,
    0xc6e00bf3, 0xd5a79147, 0x06ca6351, 0x14292967, 0x27b70a85, 0x2e1b2138, 0x4d2c6dfc,
    0x53380d13, 0x650a7354, 0x766a0abb, 0x81c2c92e, 0x92722c85, 0xa2bfe8a1, 0xa81a664b,
    0xc24b8b70, 0xc76c51a3, 0xd192e819, 0xd6990624, 0xf40e3585, 0x106aa070, 0x19a4c116,
    0x1e376c08, 0x2748774c, 0x34b0bcb5, 0x391c0cb3, 0x4ed8aa4a, 0x5b9cca4f, 0x682e6ff3,
    0x748f82ee, 0x78a5636f, 0x84c87814, 0x8cc70208, 0x90befffa, 0xa4506ceb, 0xbef9a3f7,
    0xc67178f2]

/-- the eight words of the state -/
structure HashState where
  a : UInt32
  b : UInt32
  c : UInt32
  d : UInt32
  e : UInt32
  f : UInt32
  g : UInt32
  h : UInt32

def HashState.initial : HashState :=
  ⟨0x6a09e667, 0xbb67ae85, 0x3c6ef372, 0xa54ff53a, 0x510e527f, 0x9b05688c, 0x1f83d9ab, 0x5be0cd19⟩

/-- `u32::rotate_right` -/
def rotateRight (x n : UInt32) : UInt32 := (x >>> n) ||| (x <<< (32 - n))

/-- the low `n` bytes of a number, most significant first -/
def bigEndian (n v : Nat) : Bytes := (Os.littleEndian n v).reverse

/-- the message with its padding: a one bit, zeros up to 56 bytes of a block, and the length in bits -/
def padded (input : Bytes) : Bytes :=
  let msg := input ++ [0x80]
  msg ++ List.replicate ((120 - msg.length % 64) % 64) 0 ++ bigEndian 8 (input.length * 8)

/-- `u32::from_be_bytes` of the bytes of a block at a word -/
def wordAt (chunk : Bytes) (i : Nat) : UInt32 :=
  ((chunk.drop (i * 4)).take 4).foldl (fun w b => (w <<< 8) ||| b.toUInt32) 0

/-- the words of a block, and one more for each later round -/
def schedule (chunk : Bytes) : List UInt32 :=
  (List.range 48).foldl (fun w k =>
    let i := k + 16
    let w15 := w.getD (i - 15) 0
    let w2 := w.getD (i - 2) 0
    let s0 := rotateRight w15 7 ^^^ rotateRight w15 18 ^^^ (w15 >>> 3)
    let s1 := rotateRight w2 17 ^^^ rotateRight w2 19 ^^^ (w2 >>> 10)
    w ++ [w.getD (i - 16) 0 + s0 + w.getD (i - 7) 0 + s1])
    ((List.range 16).map (wordAt chunk))

def hashRound (s : HashState) (k w : UInt32) : HashState :=
  let s1 := rotateRight s.e 6 ^^^ rotateRight s.e 11 ^^^ rotateRight s.e 25
  let ch := (s.e &&& s.f) ^^^ (~~~s.e &&& s.g)
  let temp1 := s.h + s1 + ch + k + w
  let s0 := rotateRight s.a 2 ^^^ rotateRight s.a 13 ^^^ rotateRight s.a 22
  let maj := (s.a &&& s.b) ^^^ (s.a &&& s.c) ^^^ (s.b &&& s.c)
  let temp2 := s0 + maj
  ⟨temp1 + temp2, s.a, s.b, s.c, s.d + temp1, s.e, s.f, s.g⟩

/-- one block of 64 bytes -/
def compress (s : HashState) (chunk : Bytes) : HashState :=
  let r := (roundConstants.zip (schedule chunk)).foldl (fun s kw => hashRound s kw.1 kw.2) s
  ⟨s.a + r.a, s.b + r.b, s.c + r.c, s.d + r.d, s.e + r.e, s.f + r.f, s.g + r.g, s.h + r.h⟩

def HashState.bytes (s : HashState) : Bytes :=
  [s.a, s.b, s.c, s.d, s.e, s.f, s.g, s.h].flatMap fun w => bigEndian 4 w.toNat

def sha256Bytes (input : Bytes) : Bytes :=
  let msg := padded input
  ((List.range (msg.length / 64)).foldl (fun s i => compress s ((msg.drop (i * 64)).take 64)) .initial).bytes

/-! ## its text -/

def hexDigits : List Char := "0123456789abcdef".toList

def hexDigit (n : Nat) : Char := hexDigits.getD n '0'

def hexLower (bytes : Bytes) : String :=
  String.ofList (bytes.flatMap fun b : UInt8 => [hexDigit (b >>> 4).toNat, hexDigit (b &&& 0x0f).toNat])

/-- `char::is_ascii_hexdigit` -/
def isHexDigit (c : Char) : Bool := c.isDigit || ('a' ≤ c && c ≤ 'f') || ('A' ≤ c && c ≤ 'F')

theorem length_sha256Bytes (input : Bytes) : (sha256Bytes input).length = 32 := by
  simp [sha256Bytes, HashState.bytes, bigEndian, Os.length_littleEndian]

theorem hexDigit_mem (n : Nat) : hexDigit n ∈ hexDigits := by
  rw [hexDigit]
  by_cases hn : n < hexDigits.length
  · rw [List.getD_eq_getElem _ _ hn]
    exact List.getElem_mem hn
  · rw [List.getD_eq_default _ _ (Nat.not_lt.mp hn)]
    decide

section
variable {bytes : Bytes}

theorem mem_hexDigits {c : Char} (hc : c ∈ (hexLower bytes).toList) : c ∈ hexDigits := by
  rw [hexLower, String.toList_ofList, List.mem_flatMap] at hc
  obtain ⟨b, -, hb⟩ := hc
  rcases List.mem_cons.mp hb with rfl | hb
  · exact hexDigit_mem _
  · rw [List.mem_singleton.mp hb]
    exact hexDigit_mem _

theorem length_hexLower : (hexLower bytes).toList.length = 2 * bytes.length := by
  rw [hexLower, String.toList_ofList]
  induction bytes with
  | nil => rfl
  | cons b bytes ih =>
    rw [List.flatMap_cons, List.length_append, ih]
    show 2 + 2 * bytes.length = 2 * (bytes.length + 1)
    omega

end

example : hexLower (sha256Bytes (Os.utf8 "abc")) =
    "ba7816bf8f01cfea414140de5dae2223b00361a396177a9cb410ff61f20015ad" := by
  decide +kernel

end Package

namespace Package

open Io FileTree Workspace Os Text

/-! ## source sets -/

structure ScanDiagnostics where
  scannedFileCount : Nat
  excludedByExplicitExclude : Nat
  excludedByExtension : Nat
  excludedByIncludeGlob : Nat
  skippedByDepth : Nat

structure SourceSet where
  sourceSetId : String
  rootPath : String
  includeExtensions : List String
  includeGlobs : List String
  excludeGlobs : List String
  fileCount : Nat
  totalBytes : Nat
  files : List Data.SourceSetFile
  excludedCount : Nat
  scanDiagnostics : ScanDiagnostics

def ScanDiagnostics.ofJson (v : Json) : Option ScanDiagnostics := do
  let scannedFileCount ← Data.natAt? v "scanned_file_count"
  let excludedByExplicitExclude ← Data.natAt? v "excluded_by_explicit_exclude"
  let excludedByExtension ← Data.natAt? v "excluded_by_extension"
  let excludedByIncludeGlob ← Data.natAt? v "excluded_by_include_glob"
  let skippedByDepth ← Data.natAt? v "skipped_by_depth"
  pure ⟨scannedFileCount, excludedByExplicitExclude, excludedByExtension, excludedByIncludeGlob, skippedByDepth⟩

def SourceSet.ofJson (v : Json) : Option SourceSet := do
  let sourceSetId ← v.strAt? "source_set_id"
  let rootPath ← v.strAt? "root_path"
  let includeExtensions ← Data.listAt? v "include_extensions" Json.asStr?
  let includeGlobs ← Data.listAt? v "include_globs" Json.asStr?
  let excludeGlobs ← Data.listAt? v "exclude_globs" Json.asStr?
  let fileCount ← Data.natAt? v "file_count"
  let totalBytes ← Data.natAt? v "total_bytes"
  let files ← Data.sourceSetFiles v
  let excludedCount ← Data.natAt? v "excluded_count"
  let scanDiagnostics ← (v.get? "scan_diagnostics").bind ScanDiagnostics.ofJson
  pure ⟨sourceSetId, rootPath, includeExtensions, includeGlobs, excludeGlobs, fileCount, totalBytes, files,
    excludedCount, scanDiagnostics⟩

/-! ## globs -/

/-- what follows the first occurrence of a part -/
def dropThrough (part : List Char) : List Char → Option (List Char)
  | [] => if part = [] then some [] else none
  | c :: rest => if part <+: c :: rest then some ((c :: rest).drop part.length) else dropThrough part rest

/-- the loop of `glob_like_match` over the parts of the pattern -/
def matchParts : List String → List Char → Bool
  | [], _ => true
  | part :: parts, rest =>
    if part = "" then matchParts parts rest
    else
      match dropThrough part.toList rest with
      | some rest => matchParts parts rest
      | none => false

def globLikeMatch (path pattern : String) : Bool :=
  let pattern := normalizePath pattern
  if pattern = "*" ∨ pattern = "**/*" then true
  else if '*' ∉ pattern.toList then path == pattern || contains path pattern
  else matchParts (splitOn '*' pattern) path.toList

/-! ## texts -/

/-- what the code uses of the JSON library and of the system: pretty printing, parsing, the text of an error, and the
time that a call took -/
structure Host where
  pretty : Json → String
  parse : String → Except String Json
  describe : Fault → String
  elapsedMs : Nat

def excludeLines : List String → List String
  | [] => []
  | globs => "- exclude_globs:" :: globs.map fun pattern => "  - `" ++ pattern ++ "`"

def packageManifestMarkdown (sourceSet : SourceSet) (selected : List Data.SourceSetFile)
    (excludeGlobs : List String) : String :=
  unlines (["# PACK_MANIFEST", "", "## Summary", "",
    "- source_set_id: `" ++ sourceSet.sourceSetId ++ "`",
    "- source_file_count: `" ++ toString sourceSet.fileCount ++ "`",
    "- included_count: `" ++ toString selected.length ++ "`",
    "- excluded_count: `" ++ toString (sourceSet.fileCount - selected.length) ++ "`",
    "- checksum_algorithm: `sha256`"] ++
    excludeLines excludeGlobs ++
    ["", "## Included Files", ""] ++
    selected.map fun file => "- `" ++ file.path ++ "` (" ++ toString file.sizeBytes ++ " bytes)")

def sha256FileHex (path : Path) : DiskM String := do
  let bytes ← read path
  pure (hexLower (sha256Bytes bytes))

/-- the line of a file -/
def checksumLine (hash relativePath : String) : String := hash ++ "  " ++ relativePath

/-- the loop of `package_checksums_text` -/
def checksumLines : List (String × Path) → DiskM (List String)
  | [] => pure []
  | (relativePath, path) :: rest => do
    let hash ← sha256FileHex path
    let lines ← checksumLines rest
    pure (checksumLine hash relativePath :: lines)

def checksumsHeader : List String := ["# SHA256SUMS", "# algorithm=sha256"]

def packageChecksumsText (sources : List (String × Path)) : DiskM String := do
  let lines ← checksumLines sources
  pure (unlines (checksumsHeader ++ lines))

/-! ## build_zip -/

structure BuildZipCall where
  sourceSetRef : String
  destinationZipPath : String
  manifestPath : Option String
  checksumsPath : Option String
  perfNotesPath : Option String
  excludeGlobs : List String

namespace BuildZipCall

def manifest (call : BuildZipCall) : String := call.manifestPath.getD "PACK_MANIFEST.md"

def checksums (call : BuildZipCall) : String := call.checksumsPath.getD "SHA256SUMS.txt"

def perfNotes (call : BuildZipCall) : String := call.perfNotesPath.getD "PERF_NOTES.json"

/-- the files that no glob excludes -/
def selected (call : BuildZipCall) (sourceSet : SourceSet) : List Data.SourceSetFile :=
  sourceSet.files.filter fun file => !call.excludeGlobs.any (globLikeMatch file.path)

end BuildZipCall

/-- `emit_receipt`, which appends its event always -/
def emitPackageReceipt (receipt : Receipt) : KernelM Unit := appendEvent "capability_receipt" receipt.toJson

def blockedPackageReceipt (rt : Runtime) (capabilityId reason : String) : KernelM Receipt := do
  let receipt : Receipt := ⟨capabilityId, rt.jobId, rt.pid, "blocked", .obj [("reason", .str reason)]⟩
  emitPackageReceipt receipt
  pure receipt

def writeArtifactText (rt : Runtime) (relativePath content : String) : KernelM Unit := do
  let path ← resolvePath rt relativePath
  onDisk (createDirAll path.dropLast)
  onDisk (write path (utf8 content))

/-- the selected files with the paths they resolve to -/
def resolveSources (rt : Runtime) : List Data.SourceSetFile → KernelM (List (String × Path))
  | [] => pure []
  | file :: rest => do
    let path ← resolvePath rt file.path
    let sources ← resolveSources rt rest
    pure ((file.path, path) :: sources)

def perfNotesJson (host : Host) (call : BuildZipCall) (sourceSet : SourceSet) (entryCount : Nat) : Json :=
  .obj [("capability", .str "package.build_zip"), ("source_set_ref", .str call.sourceSetRef),
    ("destination_zip_path", .str (normalizePath call.destinationZipPath)), ("entry_count", .num entryCount),
    ("included_count", .num (call.selected sourceSet).length),
    ("excluded_count", .num ↑(sourceSet.fileCount - (call.selected sourceSet).length)),
    ("elapsed_ms", .num host.elapsedMs), ("checksum_algorithm", .str "sha256")]

def buildZipReceipt (host : Host) (rt : Runtime) (call : BuildZipCall) (sourceSet : SourceSet) (entryCount : Nat)
    (fingerprint : String) : Receipt where
  capabilityId := "package.build_zip"
  jobId := rt.jobId
  pid := rt.pid
  status := "success"
  data := .obj [("source_set_ref", .str call.sourceSetRef),
    ("archive_path", .str (normalizePath call.destinationZipPath)),
    ("artifact_path", .str (normalizePath call.destinationZipPath)),
    ("artifacts", .arr [.str (normalizePath call.destinationZipPath), .str (normalizePath call.manifest),
      .str (normalizePath call.checksums), .str (normalizePath call.perfNotes)]),
    ("manifest_path", .str (normalizePath call.manifest)), ("checksums_path", .str (normalizePath call.checksums)),
    ("perf_notes_path", .str (normalizePath call.perfNotes)), ("entry_count", .num entryCount),
    ("included_count", .num (call.selected sourceSet).length),
    ("excluded_count", .num ↑(sourceSet.fileCount - (call.selected sourceSet).length)),
    ("archive_fingerprint", .str fingerprint), ("checksum_algorithm", .str "sha256"),
    ("elapsed_ms", .num host.elapsedMs)]

/-- the archive and the three texts -/
def writePackage (host : Host) (rt : Runtime) (call : BuildZipCall) (sourceSet : SourceSet) (destination : Path)
    (sources : List (String × Path)) : KernelM Nat := do
  let entryCount ← onDisk (writeStoreZip rt.workspaceRoot sources destination)
  let checksums ← onDisk (packageChecksumsText sources)
  writeArtifactText rt call.manifest
    (packageManifestMarkdown sourceSet (call.selected sourceSet) call.excludeGlobs)
  writeArtifactText rt call.checksums checksums
  writeArtifactText rt call.perfNotes (host.pretty (perfNotesJson host call sourceSet entryCount))
  pure entryCount

def buildZip (host : Host) (rt : Runtime) (call : BuildZipCall) : KernelM Receipt :=
  if "package.build_zip" ∉ rt.capabilities then
    blockedPackageReceipt rt "package.build_zip" "package.build_zip not granted"
  else do
    let sourceSet ← Data.readParsed rt SourceSet.ofJson call.sourceSetRef
    let destination ← resolvePath rt call.destinationZipPath
    onDisk (createDirAll destination.dropLast)
    let sources ← resolveSources rt (call.selected sourceSet)
    let entryCount ← writePackage host rt call sourceSet destination sources
    let fingerprint ← onDisk (fileFingerprint destination)
    let receipt := buildZipReceipt host rt call sourceSet entryCount fingerprint
    emitPackageReceipt receipt
    pure receipt

end Package

import Mathlib.Algebra.GroupWithZero.Nat
import SuperNova.Data.Datasets
import SuperNova.Lib.Listing
import SuperNova.Office.Runtime
import SuperNova.Package.Build
import SuperNova.Workbench.Messages
import SuperNova.Workspace.Lengths

/-!
# Reading the documents of a source set

`office.docx.batch_read_text` lists the documents of a source set in a text file, and hands it to the worker, which
reads one path after another.  What the worker says becomes the raw document set, a blob.

* `Worker.batchReadText`: the worker's part, over its platform;
* `batchReadText`: the kernel's part;
* `batch_accounts_iff` (**main**): when each document of the source set has its own entry.
-/

namespace Office

open Paths Io FileTree Workspace Os Text

/-! ## the worker -/

/-- what is read of a document -/
structure Extraction where
  sourceHash : String
  paragraphs : List String
  headings : Json
  tables : Json
  styleIds : List String
  validationErrors : List Json

structure WorkerException where
  errorType : String
  message : String

/-- what the worker uses of its platform: the table of upper-case letters, the opening of a document, the digits of a
quotient, and what a path with a null character makes it throw -/
structure Platform where
  toUpper : Char → Char
  openDocx : String → Except WorkerException Extraction
  quotient : Nat → Nat → String
  nullPath : WorkerException

def nullCharacter : Char := Char.ofNat 0

/-- what `StringComparer.OrdinalIgnoreCase` compares -/
def ordinalIgnoreCase (platform : Platform) (s : String) : String := mapChars platform.toUpper s

/-- the names of a path in full -/
def fullNames (directory : Path) (path : String) : Path :=
  if isAbsolute path then normalForm (components path) else (components path).foldl stepInto directory

/-- a path in full; a separator at its end stays -/
def fullPath (directory : Path) (path : String) : String :=
  pathString (fullNames directory path) ++
    (if fullNames directory path ≠ [] ∧ path.toList.getLast? = some '/' then "/" else "")

/-- `Path.GetFullPath` -/
def getFullPath (directory : Path) (path : String) : Option String :=
  if nullCharacter ∈ path.toList then none else some (fullPath directory path)

/-- an entry of `documents`; the keys are in order -/
def documentJson (sourcePath : String) (extraction : Extraction) : Json := .obj [
  ("char_count", .num ((extraction.paragraphs.map Workbench.utf16Length).sum : Nat)),
  ("headings", extraction.headings),
  ("paragraph_count", .num extraction.paragraphs.length),
  ("paragraphs", .arr (extraction.paragraphs.map .str)),
  ("source_hash", .str extraction.sourceHash),
  ("source_path", .str sourcePath),
  ("style_ids", .arr (extraction.styleIds.map .str)),
  ("tables", extraction.tables),
  ("text", .str (join "\n" extraction.paragraphs)),
  ("validation_errors", .arr extraction.validationErrors)]

/-- an entry of `errors` -/
def errorJson (sourcePath : String) (exception : WorkerException) : Json := .obj [
  ("error", .str exception.message), ("error_type", .str exception.errorType), ("source_path", .str sourcePath)]

/-- the loop of the worker over the paths.  The handler of an exception asks for the path in full once more, and what
that throws ends the loop. -/
def readDocuments (platform : Platform) (directory : Path) :
    List String → List Json → List Json → Option (List Json × List Json)
  | [], documents, errors => some (documents, errors)
  | inputPath :: rest, documents, errors =>
    match getFullPath directory inputPath with
    | none => none
    | some sourcePath =>
      match platform.openDocx inputPath with
      | .ok extraction =>
        readDocuments platform directory rest (documents ++ [documentJson sourcePath extraction]) errors
      | .error exception =>
        readDocuments platform directory rest documents (errors ++ [errorJson sourcePath exception])

/-- the double that divides two numbers; nothing is covered in full -/
def coverageRatio (platform : Platform) (succeeded total : Nat) : Json :=
  if total = 0 then .num 1 else .real (platform.quotient succeeded total)

/-- `BatchReadText` of the worker, in the directory, on the text of the list -/
def workerBatchReadText (platform : Platform) (directory : Path) (inputList : String) : OfficeWorkerReceipt :=
  let inputPaths := readList (ordinalIgnoreCase platform) inputList
  match readDocuments platform directory inputPaths [] [] with
  | none => ⟨"office.worker", "failed", .obj [("error", .str platform.nullPath.message),
      ("error_type", .str platform.nullPath.errorType)]⟩
  | some (documents, errors) =>
    ⟨"office.docx.batch_read_text", if errors.length = 0 then "success" else "partial", .obj [
      ("coverage_ratio", coverageRatio platform documents.length inputPaths.length), ("documents", .arr documents),
      ("errors", .arr errors), ("failed_files", .num errors.length), ("succeeded_files", .num documents.length),
      ("total_files", .num inputPaths.length)]⟩

/-! ## the kernel -/

/-- the worker's process with what it runs on, and the printer of its receipts -/
structure BatchWorker extends Worker where
  platform : Platform
  print : OfficeWorkerReceipt → String
  stderr : String

/-- a receipt that is printed is read back -/
def BatchWorker.ReadsBack (w : BatchWorker) (receipt : OfficeWorkerReceipt) : Prop :=
  w.parseReceipt (w.print receipt) = .ok receipt

/-- the runtime of a job in a workspace, whose root is canonical -/
structure OfficeRuntime extends Runtime where
  canonical : ∀ name ∈ workspaceRoot, NormalName name

def batchCapability : String := "office.docx.batch_read_text"

def docxFiles (sourceSet : Package.SourceSet) : List Data.SourceSetFile :=
  sourceSet.files.filter fun file => toAsciiLowercase file.extension == ".docx"

/-- the paths of the files, and where they lead -/
def resolveFiles (root : Path) : List Data.SourceSetFile → Except String (List (String × Path))
  | [] => .ok []
  | file :: rest =>
    match resolveWorkspacePath root file.path with
    | .error e => .error e
    | .ok path =>
      match resolveFiles root rest with
      | .error e => .error e
      | .ok more => .ok ((file.path, path) :: more)

def docxPathsFromSourceSet (rt : OfficeRuntime) (sourceSet : Package.SourceSet) : KernelM (List (String × Path)) :=
  lift ((resolveFiles rt.workspaceRoot (docxFiles sourceSet)).mapError Fault.permissionDenied)

/-- what the worker's process leaves for the list -/
def batchOutput (rt : OfficeRuntime) (w : BatchWorker) (inputList : String) : WorkerOutput :=
  let receipt := workerBatchReadText w.platform rt.workspaceRoot inputList
  ⟨w.print receipt, w.stderr, some (if receipt.status = "success" then 0 else 1)⟩

def batchWorkerReceipt (rt : OfficeRuntime) (w : BatchWorker) (inputListPath : Path) (output : WorkerOutput)
    (workerReceiptRef : String) : Receipt :=
  let verdict := workerVerdict w.toWorker output
  ⟨batchCapability, rt.jobId, rt.pid, verdict.1, .obj [
    ("worker_project", .str w.project),
    ("worker_args", .arr [.str "batch-read-text", .str "--input-list", .str (pathString inputListPath)]),
    ("worker_receipt_ref", .str workerReceiptRef), ("worker_receipt", verdict.2),
    ("tx_id", .null), ("tx_ref", .null),
    ("stdout_bytes", .num output.stdout.utf8ByteSize),
    ("stderr_bytes", .num output.stderr.utf8ByteSize),
    ("exit_code", exitCodeJson output.exitCode)]⟩

/-- the worker on the list: `run_worker_receipt` for a call that changes nothing -/
def runBatchWorker (rt : OfficeRuntime) (w : BatchWorker) (inputListPath : Path) (inputList : String) :
    KernelM Receipt :=
  if batchCapability ∈ rt.capabilities then do
    let output := batchOutput rt w inputList
    let k ← get
    let workerReceiptRef ← writeBlob rt.toRuntime ("office_receipts/" ++ (safeBlobName batchCapability ++ "_" ++
      toString k.clock ++ ".json")) (.str output.stdout)
    let receipt := batchWorkerReceipt rt w inputListPath output workerReceiptRef
    Os.emitReceipt rt.toRuntime "office_receipt" receipt
    Os.emitReceipt rt.toRuntime "capability_receipt" receipt
    pure receipt
  else blockedReceipt rt.toRuntime batchCapability (batchCapability ++ " not granted")

def arrayAt (v : Json) (key : String) : List Json := ((v.get? key).bind Json.asArr?).getD []

/-- a path of the worker below the workspace; one that is not is left as it is -/
def relativePath (root : Path) (path : String) : String :=
  if isAbsolute path ∧ root <+: components path
  then normalizePath (join "/" ((components path).drop root.length))
  else normalizePath path

/-- an entry of `documents` of the raw document set -/
def normalizeDocument (root : Path) : Json → Json
  | .obj fields => .obj (Data.insertField "raw_text_ref" .null (
    match (Json.obj fields).strAt? "source_path" with
    | some path => Data.insertField "source_path" (.str (relativePath root path)) fields
    | none => fields))
  | item => item

/-- `normalize_batch_raw_documents`; the errors stay as the worker has written them -/
def normalizeBatchRawDocuments (root : Path) (sourceSetRef : String) (workerData : Json) : Json := .obj [
  ("source_set_ref", .str sourceSetRef), ("derivation_type", .str "raw"), ("is_lossless", .bool false),
  ("documents", .arr ((arrayAt workerData "documents").map (normalizeDocument root))),
  ("total_files", (workerData.get? "total_files").getD .null),
  ("succeeded_files", (workerData.get? "succeeded_files").getD .null),
  ("failed_files", (workerData.get? "failed_files").getD .null),
  ("coverage_ratio", (workerData.get? "coverage_ratio").getD .null),
  ("errors", (workerData.get? "errors").getD (.arr []))]

def workerData (receipt : Receipt) : Json :=
  ((receipt.data.get? "worker_receipt").bind fun v => v.get? "data").getD (.obj [])

/-- the fields that the call adds to its receipt -/
def withBatchFields (sourceSetRef rawDocumentSetRef : String) (docxCount : Nat) : Json → Json
  | .obj fields => .obj <|
    Data.insertField "coverage_required" (.bool true) <|
    Data.insertField "source_refs_required" (.bool true) <|
    Data.insertField "derivation_type" (.str "raw") <|
    Data.insertField "docx_count" (.num docxCount) <|
    Data.insertField "raw_document_set_ref" (.str rawDocumentSetRef) <|
    Data.insertField "source_set_ref" (.str sourceSetRef) fields
  | data => data

/-- `batch_read_text` -/
def batchReadText (rt : OfficeRuntime) (w : BatchWorker) (sourceSetRef : String) : KernelM Receipt := do
  let sourceSet ← Data.readParsed rt.toRuntime Package.SourceSet.ofJson sourceSetRef
  let docxPaths ← docxPathsFromSourceSet rt sourceSet
  let inputList := join "\n" (docxPaths.map fun docx => pathString docx.2)
  let k ← get
  let inputListFile := "batch_docx_list_" ++ toString k.clock ++ ".txt"
  let _ ← writeBlob rt.toRuntime ("office_inputs/" ++ inputListFile) (.str inputList)
  let receipt ← runBatchWorker rt w (rt.stateRoot ++ ["blobs", rt.jobId, "office_inputs", inputListFile]) inputList
  let rawDocumentSet := normalizeBatchRawDocuments rt.workspaceRoot sourceSetRef (workerData receipt)
  let k ← get
  let rawDocumentSetRef ← writeBlob rt.toRuntime ("raw_document_sets/docx_batch_" ++ toString k.clock ++ ".json")
    rawDocumentSet
  let receipt := { receipt with data := withBatchFields sourceSetRef rawDocumentSetRef docxPaths.length receipt.data }
  emitEvent rt.toRuntime "raw_document_set_created" (.obj [("source_set_ref", .str sourceSetRef),
    ("raw_document_set_ref", (receipt.data.get? "raw_document_set_ref").getD .null),
    ("docx_count", .num docxPaths.length)])
  Os.emitReceipt rt.toRuntime "capability_receipt" receipt
  pure receipt

/-! ## the statement -/

def sourcePath (item : Json) : Option String := item.strAt? "source_path"

/-- the paths under which a raw document set has entries -/
def reportedPaths (rawDocumentSet : Json) : List String :=
  (arrayAt rawDocumentSet "documents" ++ arrayAt rawDocumentSet "errors").filterMap sourcePath

/-- each document of the source set has its own entry, and the numbers of files agree -/
structure AccountsFor (sourceSet : Package.SourceSet) (receipt : Receipt) (rawDocumentSet : Json) : Prop where
  once : ∀ file ∈ docxFiles sourceSet, (reportedPaths rawDocumentSet).count file.path =
    ((docxFiles sourceSet).map fun file => file.path).count file.path
  total : Data.natAt? rawDocumentSet "total_files" = some (docxFiles sourceSet).length
  parts : ∃ succeeded failed, Data.natAt? rawDocumentSet "succeeded_files" = some succeeded ∧
    Data.natAt? rawDocumentSet "failed_files" = some failed ∧ succeeded + failed = (docxFiles sourceSet).length
  docxCount : Data.natAt? receipt.data "docx_count" = some (docxFiles sourceSet).length

/-- the call ends, and the raw document set that it names accounts for the source set -/
def BatchAccounts (rt : OfficeRuntime) (w : BatchWorker) (sourceSetRef : String) (sourceSet : Package.SourceSet)
    (k : Kernel) : Prop :=
  ∃ receipt k' name rawDocumentSet, Ok (batchReadText rt w sourceSetRef) k receipt k' ∧
    receipt.data.strAt? "raw_document_set_ref" = some (blobRef rt.toRuntime name) ∧
    k'.blobs name = some rawDocumentSet ∧ AccountsFor sourceSet receipt rawDocumentSet

/-- the line of a path in the list -/
def listLine (root : Path) (path : String) : String := pathString (root ++ normalForm (components path))

def docxNames (sourceSet : Package.SourceSet) : List String := (docxFiles sourceSet).map fun file => file.path

/-- what the worker answers for the source set -/
def batchAnswer (rt : OfficeRuntime) (w : BatchWorker) (sourceSet : Package.SourceSet) : OfficeWorkerReceipt :=
  workerBatchReadText w.platform rt.workspaceRoot
    (join "\n" ((docxNames sourceSet).map (listLine rt.workspaceRoot)))

/-- a path that comes back from the worker as it is, with a document that is opened -/
structure Told (platform : Platform) (root : Path) (path : String) : Prop where
  normal : join "/" (normalForm (components path)) = path
  separated : Separated path
  oneLine : OneLine (listLine root path)
  trimmed : trim (listLine root path) = listLine root path
  opened : ∃ extraction, platform.openDocx (listLine root path) = .ok extraction

/-- a path that the guard resolves and the worker can ask for -/
structure Listed (rt : OfficeRuntime) (w : BatchWorker) (path : String) : Prop
    extends Told w.platform rt.workspaceRoot path where
  resolved : ∃ p, resolveWorkspacePath rt.workspaceRoot path = .ok p
  noNull : nullCharacter ∉ (listLine rt.workspaceRoot path).toList

end Office

import SuperNova.Os.Logged

/-!
# The document mutations of the office runtime

Each mutation backs up the path it may overwrite, hands the work to a worker process and records a
transaction in the format of the OS runtime, whatever the worker answered.  The worker is a
parameter: `Worker.run` is the process, `Worker.parseReceipt` reads what it printed.
-/

namespace Office

open Paths Io FileTree Workspace Os Text

/-! ## the worker -/

/-- what a mutation asks the worker for -/
inductive WorkerCommand where
  | createDocx (output textFile : Path) (title : Option String)
  | rewriteSaveAs (input output textFile : Path)
  | rewriteInPlace (input textFile : Path)

def pathString (p : Path) : String := "/" ++ join "/" p

def WorkerCommand.args : WorkerCommand → List String
  | createDocx output textFile title =>
    ["create-docx", "--output", pathString output, "--text-file", pathString textFile] ++
      (title.map fun t => ["--title", t]).getD []
  | rewriteSaveAs input output textFile =>
    ["rewrite-save-as", "--input", pathString input, "--output", pathString output,
      "--text-file", pathString textFile]
  | rewriteInPlace input textFile =>
    ["rewrite-in-place", "--input", pathString input, "--text-file", pathString textFile]

/-- the file a command is to write -/
def WorkerCommand.target : WorkerCommand → Path
  | createDocx output _ _ => output
  | rewriteSaveAs _ output _ => output
  | rewriteInPlace input _ => input

/-- what a finished process leaves -/
structure WorkerOutput where
  stdout : String
  stderr : String
  exitCode : Option Int

/-- `OfficeWorkerReceipt` -/
structure OfficeWorkerReceipt where
  capabilityId : String
  status : String
  data : Json

/-- the worker project: its process and the parser of its receipts -/
structure Worker where
  project : String
  run : WorkerCommand → Disk → Except Fault (WorkerOutput × Disk)
  parseReceipt : String → Except String OfficeWorkerReceipt

/-- nothing but `target` changed: other files keep their content, and what is not nested with
`target` keeps its entry -/
structure OnlyOutput (target : Path) (d d' : Disk) : Prop where
  files : ∀ q, ¬ target <+: q → d'.fileAt q = d.fileAt q
  apart : ∀ q, Apart target q → d'.entry q = d.entry q

/-- a worker that changes nothing but its output file -/
def Worker.Disciplined (w : Worker) : Prop :=
  ∀ command d output d', w.run command d = .ok (output, d') → OnlyOutput command.target d d'

/-! ## shared parts -/

def blockedReceipt (rt : Runtime) (capabilityId reason : String) : KernelM Receipt := do
  let receipt : Receipt := ⟨capabilityId, rt.jobId, rt.pid, "blocked",
    .obj [("reason", .str reason)]⟩
  emitReceipt rt "office_blocked" receipt
  emitReceipt rt "capability_receipt" receipt
  pure receipt

/-- `write_text_input`: the text in a blob, and the blob's file -/
def writeTextInput (rt : Runtime) (name text : String) : KernelM Path := do
  let k ← get
  let file := safeBlobName name ++ "_" ++ toString k.clock ++ ".txt"
  let _ ← writeBlob rt ("office_inputs/" ++ file) (.str text)
  pure (rt.stateRoot ++ ["blobs", rt.jobId, "office_inputs", file])

/-- the worker process on the disk -/
def runWorker (w : Worker) (command : WorkerCommand) : KernelM WorkerOutput := fun k =>
  match w.run command k.disk with
  | .ok (output, d) => .ok output { k with disk := d }
  | .error e => .error e k

def exitCodeJson (code : Option Int) : Json := (code.map Json.num).getD .null

/-- the status of a receipt and the worker's part of it -/
def workerVerdict (w : Worker) (output : WorkerOutput) : String × Json :=
  match w.parseReceipt output.stdout with
  | .ok receipt =>
    (if output.exitCode = some 0 ∧ receipt.status = "success" then "success" else "failed",
      .obj [("capability_id", .str receipt.capabilityId), ("status", .str receipt.status),
        ("data", receipt.data)])
  | .error e =>
    ("failed", .obj [("parse_error", .str e), ("stdout", .str output.stdout),
      ("stderr", .str output.stderr), ("exit_code", exitCodeJson output.exitCode)])

/-- `run_worker_receipt`, for a call with a transaction plan -/
def runWorkerReceipt (rt : Runtime) (w : Worker) (capabilityId : String) (command : WorkerCommand)
    (plan : OsTxRecord) : KernelM Receipt :=
  if capabilityId ∈ rt.capabilities then do
    let output ← runWorker w command
    let k ← get
    let workerReceiptRef ← writeBlob rt ("office_receipts/" ++ (safeBlobName capabilityId ++ "_" ++
      toString k.clock ++ ".json")) (.str output.stdout)
    let verdict := workerVerdict w output
    let txRef ← recordTx rt plan
    let receipt : Receipt := ⟨capabilityId, rt.jobId, rt.pid, verdict.1, .obj [
      ("worker_project", .str w.project), ("worker_args", .arr (command.args.map .str)),
      ("worker_receipt_ref", .str workerReceiptRef), ("worker_receipt", verdict.2),
      ("tx_id", .str plan.txId), ("tx_ref", .str txRef),
      ("stdout_bytes", .num output.stdout.utf8ByteSize),
      ("stderr_bytes", .num output.stderr.utf8ByteSize),
      ("exit_code", exitCodeJson output.exitCode)]⟩
    emitReceipt rt "office_receipt" receipt
    emitReceipt rt "capability_receipt" receipt
    pure receipt
  else blockedReceipt rt capabilityId (capabilityId ++ " not granted")

/-! ## the mutations -/

def createDocx (rt : Runtime) (w : Worker) (outputPath text : String) (title : Option String) :
    KernelM Receipt := do
  let output ← resolvePath rt outputPath
  let textPath ← writeTextInput rt "create_docx" text
  let txId ← newTxId "office_create"
  let destinationBackup ← backupWorkspacePath rt txId "destination" output
  runWorkerReceipt rt w "office.docx.create" (.createDocx output textPath title)
    { txId := txId
      operation := "office.docx.create"
      sourcePath := none
      destinationPath := some (normalizePath outputPath)
      writeKind := some "artifact"
      sourceBeforeExists := false
      destinationBeforeExists := destinationBackup.1
      sourceBackupRef := none
      destinationBackupRef := destinationBackup.2 }

def rewriteSaveAs (rt : Runtime) (w : Worker) (inputPath outputPath text : String) :
    KernelM Receipt := do
  let input ← resolvePath rt inputPath
  let output ← resolvePath rt outputPath
  let textPath ← writeTextInput rt "rewrite_save_as" text
  let txId ← newTxId "office_rewrite_save_as"
  let destinationBackup ← backupWorkspacePath rt txId "destination" output
  -- the input is recorded as a source that existed, and is not backed up
  runWorkerReceipt rt w "office.docx.rewrite_save_as" (.rewriteSaveAs input output textPath)
    { txId := txId
      operation := "office.docx.rewrite_save_as"
      sourcePath := some (normalizePath inputPath)
      destinationPath := some (normalizePath outputPath)
      writeKind := some "artifact"
      sourceBeforeExists := true
      destinationBeforeExists := destinationBackup.1
      sourceBackupRef := none
      destinationBackupRef := destinationBackup.2 }

def rewriteInPlace (rt : Runtime) (w : Worker) (inputPath text : String) : KernelM Receipt := do
  let input ← resolvePath rt inputPath
  let textPath ← writeTextInput rt "rewrite_in_place" text
  let txId ← newTxId "office_rewrite_in_place"
  let sourceBackup ← backupWorkspacePath rt txId "source" input
  runWorkerReceipt rt w "office.docx.rewrite_in_place" (.rewriteInPlace input textPath)
    { txId := txId
      operation := "office.docx.rewrite_in_place"
      sourcePath := some (normalizePath inputPath)
      destinationPath := none
      writeKind := some "source_mutation"
      sourceBeforeExists := sourceBackup.1
      destinationBeforeExists := false
      sourceBackupRef := sourceBackup.2
      destinationBackupRef := none }

inductive Mutation where
  | createDocx (outputPath text : String) (title : Option String)
  | rewriteSaveAs (inputPath outputPath text : String)
  | rewriteInPlace (inputPath text : String)

namespace Mutation

def run (rt : Runtime) (w : Worker) : Mutation → KernelM Receipt
  | createDocx o text title => Office.createDocx rt w o text title
  | rewriteSaveAs i o text => Office.rewriteSaveAs rt w i o text
  | rewriteInPlace i text => Office.rewriteInPlace rt w i text

def paths : Mutation → List String
  | createDocx o _ _ => [o]
  | rewriteSaveAs i o _ => [i, o]
  | rewriteInPlace i _ => [i]

end Mutation

end Office

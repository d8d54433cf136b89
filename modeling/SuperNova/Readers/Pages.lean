import SuperNova.ClientEnv.Runtime
import SuperNova.Data.Csv
import SuperNova.Lib.Lines
import SuperNova.Lib.Offsets
import SuperNova.Package.Build
import SuperNova.Truth.Files

/-!
# Readers that page

Long contents are read in pages: the characters of a tool result, the records of a dataset or the lines of a blob that
is none, the files of a source set, the sections of a snapshot of the machine.  All readers but the last one keep each
page in a blob, and return its ref.

* `toolResultPage`, `datasetPage`, `rawTextPage`, `sourceSetPage`, `snapshotPage`: the receipts;
* `toolResult_complete_iff`: reading a tool result comes to an end unless its pages have no length;
* `dataset_complete_iff`, `sourceSet_complete_iff`: the stored count decides how far the others are read.
-/

set_option linter.unusedSectionVars false

namespace Readers

open Text Workspace Io Truth

/-! ## arguments -/

/-- the fields of `output_spec` that the readers take -/
structure PageArgs where
  offset : Option Json
  limitBytes : Option Json
  limit : Option Json

def usizeArg (field : Option Json) (defaultValue : Nat) : Nat := (field.bind Json.asNat?).getD defaultValue

/-- `usize::clamp` -/
def clampUsize (value low high : Nat) : Nat := min (max value low) high

/-- the limit of `tool.result.page`, which is not clamped -/
def toolResultLimit (args : PageArgs) : Nat := usizeArg (args.limitBytes <|> args.limit) (16 * 1024)

def datasetLimit (args : PageArgs) : Nat := clampUsize (usizeArg args.limit 100) 1 1000

def sourceSetLimit (args : PageArgs) : Nat := clampUsize (usizeArg args.limit 100) 1 500

def snapshotLimit (args : PageArgs) : Nat := clampUsize (usizeArg args.limit 20) 1 50

/-- the arguments at another offset -/
def PageArgs.atOffset (args : PageArgs) (offset : Nat) : PageArgs := { args with offset := some (.num (.ofNat offset)) }

/-! ## receipts -/

structure ToolResultPage where
  ref : String
  sourceKind : String
  offset : Nat
  limit : Nat
  totalChars : Nat
  hasMore : Bool
  pageRef : String
  page : String

structure DatasetPage where
  datasetRef : String
  datasetId : String
  schema : List String
  offset : Nat
  limit : Nat
  returned : Nat
  total : Nat
  pageRef : String
  rows : List Json

structure RawTextPage where
  datasetRef : String
  offset : Nat
  limit : Nat
  returned : Nat
  total : Nat
  pageRef : String
  lines : List String
  text : String
  rawBlobTextFallback : Bool
  originalDatasetParseError : String
  noWorkspaceMutation : Bool

structure SourceSetPage where
  sourceSetRef : String
  pageRef : String
  offset : Nat
  limit : Nat
  returned : Nat
  total : Nat

structure SnapshotPage where
  snapshotRef : String
  snapshotId : String
  offset : Nat
  limit : Nat
  returned : Nat
  total : Nat
  sections : List ClientEnv.ClientEnvSection
  redaction : ClientEnv.ClientEnvRedactionReport
  sensitiveFieldsAvailable : List String
  sensitiveFieldsReturned : List String

/-! ## pages -/

def pageText (content : String) (args : PageArgs) : String :=
  String.ofList ((content.toList.drop (usizeArg args.offset 0)).take (toolResultLimit args))

/-- `page_tool_result` -/
def toolResultPage (targetRef sourceKind content : String) (args : PageArgs) (pageRef : String) : ToolResultPage where
  ref := targetRef
  sourceKind
  offset := usizeArg args.offset 0
  limit := toolResultLimit args
  totalChars := content.toList.length
  hasMore := decide (usizeArg args.offset 0 + (pageText content args).toList.length < content.toList.length)
  pageRef
  page := pageText content args

def pageRows (dataset : Data.DataSet) (args : PageArgs) : List Json :=
  (dataset.records.drop (usizeArg args.offset 0)).take (datasetLimit args)

/-- `read_dataset_page` -/
def datasetPage (datasetRef : String) (dataset : Data.DataSet) (args : PageArgs) (pageRef : String) : DatasetPage where
  datasetRef
  datasetId := dataset.datasetId
  schema := dataset.schema
  offset := usizeArg args.offset 0
  limit := datasetLimit args
  returned := (pageRows dataset args).length
  total := dataset.rowCount
  pageRef
  rows := pageRows dataset args

def pageLines (text : String) (args : PageArgs) : List String :=
  ((lines text).drop (usizeArg args.offset 0)).take (datasetLimit args)

/-- `read_raw_blob_text_page`, on the text of the blob -/
def rawTextPage (datasetRef text parseError : String) (args : PageArgs) (pageRef : String) : RawTextPage where
  datasetRef
  offset := usizeArg args.offset 0
  limit := datasetLimit args
  returned := (pageLines text args).length
  total := (lines text).length
  pageRef
  lines := pageLines text args
  text := join "\n" (pageLines text args)
  rawBlobTextFallback := true
  originalDatasetParseError := parseError
  noWorkspaceMutation := true

def pageFiles (sourceSet : Package.SourceSet) (args : PageArgs) : List Data.SourceSetFile :=
  (sourceSet.files.drop (usizeArg args.offset 0)).take (sourceSetLimit args)

/-- `read_source_set_page`; its files are in the blob only -/
def sourceSetPage (sourceSetRef : String) (sourceSet : Package.SourceSet) (args : PageArgs) (pageRef : String) :
    SourceSetPage where
  sourceSetRef
  pageRef
  offset := usizeArg args.offset 0
  limit := sourceSetLimit args
  returned := (pageFiles sourceSet args).length
  total := sourceSet.fileCount

def pageSections (snapshot : ClientEnv.ClientEnvSnapshot) (args : PageArgs) : List ClientEnv.ClientEnvSection :=
  (snapshot.sections.drop (usizeArg args.offset 0)).take (snapshotLimit args)

/-- `read_snapshot` -/
def snapshotPage (snapshotRef : String) (snapshot : ClientEnv.ClientEnvSnapshot) (args : PageArgs) : SnapshotPage where
  snapshotRef
  snapshotId := snapshot.snapshotId
  offset := usizeArg args.offset 0
  limit := snapshotLimit args
  returned := (pageSections snapshot args).length
  total := snapshot.sections.length
  sections := pageSections snapshot args
  redaction := snapshot.redaction
  sensitiveFieldsAvailable := snapshot.sensitiveFieldsAvailable
  sensitiveFieldsReturned := snapshot.sensitiveFieldsReturned

/-! ## what a reader sees -/

/-- the receipt reports that more is left -/
def reportsMore (offset returned total : Nat) : Bool := decide (offset + returned < total)

section
variable (refs : Nat → String) (args : PageArgs)

def toolResultPages (targetRef sourceKind content : String) (offset : Nat) : Offsets.Page Char :=
  let receipt := toolResultPage targetRef sourceKind content (args.atOffset offset) (refs offset)
  ⟨receipt.page.toList, receipt.hasMore⟩

def datasetPages (datasetRef : String) (dataset : Data.DataSet) (offset : Nat) : Offsets.Page Json :=
  let receipt := datasetPage datasetRef dataset (args.atOffset offset) (refs offset)
  ⟨receipt.rows, reportsMore receipt.offset receipt.returned receipt.total⟩

def rawTextPages (datasetRef text parseError : String) (offset : Nat) : Offsets.Page String :=
  let receipt := rawTextPage datasetRef text parseError (args.atOffset offset) (refs offset)
  ⟨receipt.lines, reportsMore receipt.offset receipt.returned receipt.total⟩

/-- the files are those of the blob -/
def sourceSetPages (sourceSetRef : String) (sourceSet : Package.SourceSet) (offset : Nat) :
    Offsets.Page Data.SourceSetFile :=
  let receipt := sourceSetPage sourceSetRef sourceSet (args.atOffset offset) (refs offset)
  ⟨pageFiles sourceSet (args.atOffset offset), reportsMore receipt.offset receipt.returned receipt.total⟩

def snapshotPages (snapshotRef : String) (snapshot : ClientEnv.ClientEnvSnapshot) (offset : Nat) :
    Offsets.Page ClientEnv.ClientEnvSection :=
  let receipt := snapshotPage snapshotRef snapshot (args.atOffset offset)
  ⟨receipt.sections, reportsMore receipt.offset receipt.returned receipt.total⟩

/-- as many pages as a count asks for reach the end of the content, and the count is not beyond it -/
def Counts (count length limit : Nat) : Prop :=
  count ≤ length ∧ length ≤ limit * max 1 ((count + limit - 1) / limit)

theorem counts_self {length limit : Nat} (hlimit : 0 < limit) : Counts length length limit := by
  have hdiv := Nat.div_add_mod (length + limit - 1) limit
  have hmod := Nat.mod_lt (length + limit - 1) hlimit
  have hmax := Nat.mul_le_mul_left limit (Nat.le_max_right 1 ((length + limit - 1) / limit))
  refine ⟨le_rfl, ?_⟩
  omega

theorem clampUsize_pos {value low high : Nat} (hlow : 0 < low) (hhigh : low ≤ high) :
    0 < clampUsize value low high := by
  unfold clampUsize
  omega

theorem toolResultPages_eq (targetRef sourceKind content : String) : toolResultPages refs args targetRef sourceKind
    content = Offsets.slice content.toList content.toList.length (toolResultLimit args) := by
  funext offset
  have hpage : (pageText content (args.atOffset offset)).toList =
      (content.toList.drop offset).take (toolResultLimit args) := String.toList_ofList
  unfold toolResultPages toolResultPage Offsets.slice
  dsimp only
  rw [hpage]
  rfl

/-- **reading a tool result comes to an end unless its pages have no length** -/
theorem toolResult_complete_iff (targetRef sourceKind content : String) :
    Offsets.Complete (toolResultPages refs args targetRef sourceKind content) content.toList ↔
      0 < toolResultLimit args ∨ content = "" := by
  rw [toolResultPages_eq, Offsets.complete_slice_iff]
  rcases Nat.eq_zero_or_pos (toolResultLimit args) with hzero | hpos
  · rw [hzero, Nat.zero_mul]
    constructor
    · rintro ⟨-, hnil⟩
      exact Or.inr (String.toList_injective (List.length_eq_zero_iff.mp (Nat.le_zero.mp hnil)))
    · rintro (hpos | rfl)
      · exact absurd hpos (Nat.lt_irrefl 0)
      · exact ⟨le_rfl, le_rfl⟩
  · exact iff_of_true (counts_self hpos) (Or.inl hpos)

/-- **a dataset is read to its end exactly when its count fits its records** -/
theorem dataset_complete_iff (datasetRef : String) (dataset : Data.DataSet) :
    Offsets.Complete (datasetPages refs args datasetRef dataset) dataset.records ↔
      Counts dataset.rowCount dataset.records.length (datasetLimit args) := by
  have hpages : datasetPages refs args datasetRef dataset =
      Offsets.slice dataset.records dataset.rowCount (datasetLimit args) := rfl
  rw [hpages, Offsets.complete_slice_iff]
  rfl

theorem rawText_complete (datasetRef text parseError : String) :
    Offsets.Complete (rawTextPages refs args datasetRef text parseError) (lines text) := by
  have hpages : rawTextPages refs args datasetRef text parseError =
      Offsets.slice (lines text) (lines text).length (datasetLimit args) := rfl
  rw [hpages, Offsets.complete_slice_iff]
  exact counts_self (clampUsize_pos (by decide) (by decide))

theorem sourceSet_complete_iff (sourceSetRef : String) (sourceSet : Package.SourceSet) :
    Offsets.Complete (sourceSetPages refs args sourceSetRef sourceSet) sourceSet.files ↔
      Counts sourceSet.fileCount sourceSet.files.length (sourceSetLimit args) := by
  have hpages : sourceSetPages refs args sourceSetRef sourceSet =
      Offsets.slice sourceSet.files sourceSet.fileCount (sourceSetLimit args) := rfl
  rw [hpages, Offsets.complete_slice_iff]
  rfl

theorem snapshot_complete (snapshotRef : String) (snapshot : ClientEnv.ClientEnvSnapshot) :
    Offsets.Complete (snapshotPages args snapshotRef snapshot) snapshot.sections := by
  have hpages : snapshotPages args snapshotRef snapshot =
      Offsets.slice snapshot.sections snapshot.sections.length (snapshotLimit args) := rfl
  rw [hpages, Offsets.complete_slice_iff]
  exact counts_self (clampUsize_pos (by decide) (by decide))

theorem readSnapshot_page {rt : ClientEnv.Runtime} {ref : String} {s s' : ClientEnv.ClientEnvState}
    {receipt : ClientEnv.CapabilityReceipt}
    (h : Ok (ClientEnv.readSnapshot rt ref (usizeArg args.offset 0) (usizeArg args.limit 20)) s receipt s') :
    ∃ snapshot, receipt.data = .page ref snapshot (snapshotPage ref snapshot args).offset
      (snapshotPage ref snapshot args).limit (snapshotPage ref snapshot args).total
        (snapshotPage ref snapshot args).sections := by
  rw [ClientEnv.readSnapshot] at h
  obtain ⟨_, _, hget, h⟩ := bind_ok.mp h
  obtain ⟨snapshot, _, hfound, h⟩ := bind_ok.mp h
  refine ⟨snapshot, ?_⟩
  unfold ClientEnv.processCapabilityReceipt at h
  obtain ⟨_, _, -, h⟩ := bind_ok.mp h
  obtain ⟨_, _, -, h⟩ := bind_ok.mp h
  cases h
  rfl

end

end Readers

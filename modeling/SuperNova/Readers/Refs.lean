import SuperNova.Os.Receipts
import SuperNova.Readers.Pages

/-!
# The blobs of pages

The name of a page's blob is made from an id, the offset and, for all readers but that of source sets, the time.  It is
written again when the same name comes up again, with another limit or for another content.

* `Reader`, `Call`: what is read, and the calls of a run;
* `RefsHold`: every ref that was returned leads to the page that it was returned with, at every later moment;
* `refsHold_of_undisturbed`: it does when no later call writes another page under the same name;
* `undisturbed_of_session`: the calls of one reading do not;
* `paged_readers` (**main**): how far the contents are read, and that the refs hold.
-/

set_option linter.unusedSectionVars false

namespace Readers

open Paths Io FileTree Text Workspace Os Truth

/-! ## calls -/

structure Job where
  blobDir : Path
  jobId : String
  runtimeId : String
  capabilities : List String

/-- what is read: the arguments that stay, and what they lead to -/
inductive Reader where
  | toolResult (targetRef sourceKind content : String)
  | dataset (datasetRef : String) (dataset : Data.DataSet)
  | rawText (datasetRef text parseError : String)
  | sourceSet (sourceSetRef : String) (sourceSet : Package.SourceSet)
  | snapshot (snapshotRef : String) (snapshot : ClientEnv.ClientEnvSnapshot)

structure Call where
  reader : Reader
  args : PageArgs
  nowMs : Nat

inductive PageReceipt where
  | toolResult (page : ToolResultPage)
  | dataset (page : DatasetPage)
  | rawText (page : RawTextPage)
  | sourceSet (page : SourceSetPage)
  | snapshot (page : SnapshotPage)
  | blocked (reason : String)

def PageReceipt.pageRef : PageReceipt → Option String
  | .toolResult page => some page.pageRef
  | .dataset page => some page.pageRef
  | .rawText page => some page.pageRef
  | .sourceSet page => some page.pageRef
  | .snapshot _ => none
  | .blocked _ => none

/-- an offset and a time, as they stand in names -/
def stamped (offset nowMs : Nat) : String := toString offset ++ "_" ++ toString nowMs

def fileJson (file : Data.SourceSetFile) : Json :=
  .obj [("path", .str file.path), ("extension", .str file.extension), ("size_bytes", .num file.sizeBytes),
    ("modified_ms", .num file.modifiedMs)]

/-- the directory of the pages of a reader -/
def Reader.directory : Reader → String
  | .toolResult _ _ _ => "tool_result_pages"
  | .dataset _ _ => "datasets"
  | .rawText _ _ _ => "datasets"
  | .sourceSet _ _ => "source_sets"
  | .snapshot _ _ => ""

/-- the name of a page in there -/
def Reader.pageName (job : Job) (offset nowMs : Nat) : Reader → String
  | .toolResult _ _ _ => safeBlobName job.runtimeId ++ "_" ++ stamped offset nowMs ++ ".txt"
  | .dataset _ data => safeBlobName data.datasetId ++ "_page_" ++ stamped offset nowMs ++ ".json"
  | .rawText datasetRef _ _ => safeBlobName datasetRef ++ "_raw_text_page_" ++ stamped offset nowMs ++ ".json"
  | .sourceSet _ files => files.sourceSetId ++ "_page_" ++ toString offset ++ ".json"
  | .snapshot _ _ => ""

section
variable (job : Job) (render : Json → Bytes)

/-- the content of a page's blob; `render` is `serde_json::to_vec_pretty` -/
def Reader.pageBytes (args : PageArgs) : Reader → Bytes
  | .toolResult _ _ content => utf8 (pageText content args)
  | .dataset _ data => render (.arr (pageRows data args))
  | .rawText datasetRef text _ => render (.obj [("dataset_ref", .str datasetRef), ("limit", .num (datasetLimit args)),
      ("lines", .arr ((pageLines text args).map .str)), ("offset", .num (usizeArg args.offset 0))])
  | .sourceSet _ files => render (.arr ((pageFiles files args).map fileJson))
  | .snapshot _ _ => []

/-- the reader keeps its pages; the one of source sets asks for its capability first -/
def Reader.keepsPages : Reader → Bool
  | .sourceSet _ _ => decide ("source_set.read_page" ∈ job.capabilities)
  | .snapshot _ _ => false
  | _ => true

def Call.blobName (call : Call) : String :=
  call.reader.directory ++ "/" ++ call.reader.pageName job (usizeArg call.args.offset 0) call.nowMs

/-- the blob that a call writes -/
def Call.blob (call : Call) : Option (String × Bytes) :=
  if call.reader.keepsPages job then some (call.blobName job, call.reader.pageBytes render call.args) else none

def Call.receipt (call : Call) (pageRef : String) : PageReceipt :=
  match call.reader with
  | .toolResult targetRef sourceKind content =>
    .toolResult (toolResultPage targetRef sourceKind content call.args pageRef)
  | .dataset datasetRef dataset => .dataset (datasetPage datasetRef dataset call.args pageRef)
  | .rawText datasetRef text parseError => .rawText (rawTextPage datasetRef text parseError call.args pageRef)
  | .sourceSet sourceSetRef sourceSet =>
    if "source_set.read_page" ∈ job.capabilities then
      .sourceSet (sourceSetPage sourceSetRef sourceSet call.args pageRef)
    else .blocked "source_set.read_page not granted"
  | .snapshot snapshotRef snapshot => .snapshot (snapshotPage snapshotRef snapshot call.args)

def Call.perform (call : Call) : DiskM PageReceipt :=
  match call.blob job render with
  | none => pure (call.receipt job "")
  | some (name, content) => do
    let pageRef ← Truth.writeBlob job.blobDir job.jobId name content
    pure (call.receipt job pageRef)

/-- the disk after calls, whether they fail or not -/
def after (disk : Disk) (calls : List Call) : Disk :=
  calls.foldl (fun disk call => final (call.perform job render) disk) disk

/-! ## the property -/

/-- the ref leads to a file with the content -/
def LeadsTo (disk : Disk) (ref : String) (content : Bytes) : Prop :=
  ∃ path, resolveBlobRef job.jobId ref = .ok path ∧ disk.entry (job.blobDir ++ path) = some (.file content)

/-- every ref that is returned leads to its page, at once and after all later calls -/
def RefsHold (disk : Disk) (calls : List Call) : Prop :=
  ∀ front call back, calls = front ++ call :: back →
    ∀ receipt disk' ref, Ok (call.perform job render) (after job render disk front) receipt disk' →
      receipt.pageRef = some ref → ∀ later, later <+: back →
        LeadsTo job (after job render disk' later) ref (call.reader.pageBytes render call.args)

/-- no call writes another page to the place of an earlier one -/
def Undisturbed (calls : List Call) : Prop :=
  calls.Pairwise fun call call' => ∀ blob ∈ call.blob job render, ∀ blob' ∈ call'.blob job render,
    blobPath blob'.1 = blobPath blob.1 → blob'.2 = blob.2

/-- the pages of source sets stay below the blobs of the job: their ids are taken as they are -/
def Addressed (calls : List Call) : Prop :=
  ∀ call ∈ calls, ∀ sourceSetRef sourceSet, call.reader = .sourceSet sourceSetRef sourceSet →
    Plain (call.blobName job)

end

section
variable {job : Job} {render : Json → Bytes} {calls front back : List Call} {call call' : Call} {disk disk' : Disk}
  {receipt : PageReceipt} {ref dir leaf : String} {content : Bytes} {offset offset' nowMs nowMs' : Nat}
    {reader : Reader}

/-! ## names -/

theorem component_extended {name extension : String} (h : ∀ c ∈ (name ++ extension).toList, c ≠ '/' ∧ c ≠ '\\')
    (hlong : 3 ≤ extension.toList.length) : Component (name ++ extension) := by
  have hlength : 3 ≤ (name ++ extension).toList.length := by
    rw [String.toList_append, List.length_append]
    exact Nat.le_add_left_of_le hlong
  refine ⟨?_, ?_, ?_, fun hmem => (h _ hmem).1 rfl, fun hmem => (h _ hmem).2 rfl⟩
  all_goals
    intro hshort
    rw [hshort] at hlength
    exact absurd hlength (by decide)

theorem ne_slash_of_safeName {name : String} (h : SafeName name) : ∀ c ∈ name.toList, c ≠ '/' ∧ c ≠ '\\' := by
  intro c hc
  constructor <;>
  · rintro rfl
    exact absurd (h _ hc) (by decide)

theorem safeName_stamped (offset nowMs : Nat) : SafeName (stamped offset nowMs) :=
  safeName_append (safeName_append (safeName_toString offset) (by decide)) (safeName_toString nowMs)

theorem safeName_page {front between extension : String} (hfront : SafeName front) (hbetween : SafeName between)
    (hextension : SafeName extension) (offset nowMs : Nat) :
    SafeName (front ++ between ++ stamped offset nowMs ++ extension) :=
  safeName_append (safeName_append (safeName_append hfront hbetween) (safeName_stamped offset nowMs)) hextension

/-- the id of a source set is one name -/
def Reader.Named : Reader → Prop
  | .sourceSet _ files => ∀ c ∈ files.sourceSetId.toList, c ≠ '/' ∧ c ≠ '\\'
  | _ => True

theorem component_pageName (hnamed : reader.Named) (hkeeps : reader.keepsPages job = true) :
    Component (reader.pageName job offset nowMs) := by
  cases reader with
  | toolResult targetRef sourceKind content =>
    refine component_extended (ne_slash_of_safeName (safeName_page ?_ (by decide) (by decide) _ _)) (by decide)
    exact safeName_safeBlobName _
  | dataset datasetRef data =>
    refine component_extended (ne_slash_of_safeName (safeName_page ?_ (by decide) (by decide) _ _)) (by decide)
    exact safeName_safeBlobName _
  | rawText datasetRef text parseError =>
    refine component_extended (ne_slash_of_safeName (safeName_page ?_ (by decide) (by decide) _ _)) (by decide)
    exact safeName_safeBlobName _
  | sourceSet sourceSetRef sourceSet =>
    refine component_extended (fun c hc => ?_) (by decide)
    rw [String.toList_append, String.toList_append, String.toList_append, List.mem_append, List.mem_append,
      List.mem_append] at hc
    rcases hc with ((hc | hc) | hc) | hc
    · exact hnamed c hc
    · exact ne_slash_of_safeName (by decide : SafeName "_page_") c hc
    · exact ne_slash_of_safeName (safeName_toString offset) c hc
    · exact ne_slash_of_safeName (by decide : SafeName ".json") c hc
  | snapshot snapshotRef snapshot => cases hkeeps

theorem stamped_inj (h : stamped offset nowMs = stamped offset' nowMs') : offset = offset' := by
  have hdigits (n : Nat) : '_' ∉ (toString n).toList := fun hmem => absurd (isDigit_of_mem_toString hmem) (by decide)
  have hcut (n m : Nat) : splitOnce '_' (stamped n m) = some (toString n, toString m) :=
    splitOnce_append (toString m) (hdigits n)
  have hsame := (hcut offset nowMs).symm.trans ((congrArg (splitOnce '_') h).trans (hcut offset' nowMs'))
  exact toString_inj (Prod.mk.inj (Option.some.inj hsame)).1

theorem pageName_inj (hkeeps : reader.keepsPages job = true)
    (h : reader.pageName job offset nowMs = reader.pageName job offset' nowMs') : offset = offset' := by
  cases reader with
  | toolResult targetRef sourceKind content => exact stamped_inj (append_left_inj ((String.append_left_inj _).mp h))
  | dataset datasetRef data => exact stamped_inj (append_left_inj ((String.append_left_inj _).mp h))
  | rawText datasetRef text parseError => exact stamped_inj (append_left_inj ((String.append_left_inj _).mp h))
  | sourceSet sourceSetRef sourceSet => exact toString_inj (append_left_inj ((String.append_left_inj _).mp h))
  | snapshot snapshotRef snapshot => cases hkeeps

theorem component_directory (hkeeps : reader.keepsPages job = true) : Component reader.directory := by
  cases reader with
  | snapshot snapshotRef snapshot => cases hkeeps
  | _ =>
    rw [Reader.directory]
    exact ⟨by decide, by decide, by decide, by decide, by decide⟩

theorem plain_blobName (haddressed : Addressed job calls) (hmem : call ∈ calls)
    (hkeeps : call.reader.keepsPages job = true) : Plain (call.blobName job) := by
  by_cases hset : ∃ sourceSetRef sourceSet, call.reader = .sourceSet sourceSetRef sourceSet
  · obtain ⟨sourceSetRef, sourceSet, hreader⟩ := hset
    exact haddressed call hmem sourceSetRef sourceSet hreader
  · refine (component_directory hkeeps).plain.append (component_pageName ?_ hkeeps)
    unfold Reader.Named
    split
    · exact absurd ⟨_, _, ‹_›⟩ hset
    · trivial

/-! ## runs -/

theorem receipt_pageRef (hkeeps : call.reader.keepsPages job = true) (pageRef : String) :
    (call.receipt job pageRef).pageRef = some pageRef := by
  rw [Call.receipt]
  split <;> rename_i hreader <;> rw [hreader] at hkeeps
  · rfl
  · rfl
  · rfl
  · rw [if_pos (of_decide_eq_true hkeeps)]
    rfl
  · cases hkeeps

theorem receipt_pageRef_none (hkeeps : call.reader.keepsPages job = false) (pageRef : String) :
    (call.receipt job pageRef).pageRef = none := by
  rw [Call.receipt]
  split <;> rename_i hreader <;> rw [hreader] at hkeeps
  · cases hkeeps
  · cases hkeeps
  · cases hkeeps
  · rw [if_neg (of_decide_eq_false hkeeps)]
    rfl
  · rfl

theorem perform_ref (h : Ok (call.perform job render) disk receipt disk') (href : receipt.pageRef = some ref) :
    call.reader.keepsPages job = true ∧ Ok (Truth.writeBlob job.blobDir job.jobId (call.blobName job)
      (call.reader.pageBytes render call.args)) disk ref disk' := by
  rw [Call.perform, Call.blob] at h
  cases hkeeps : call.reader.keepsPages job with
  | true =>
    rw [hkeeps, if_pos rfl] at h
    obtain ⟨pageRef, made, hwrite, hpure⟩ := bind_ok.mp h
    cases hpure
    refine ⟨rfl, ?_⟩
    rw [receipt_pageRef hkeeps pageRef, Option.some.injEq] at href
    exact href ▸ hwrite
  | false =>
    rw [hkeeps, if_neg Bool.false_ne_true] at h
    cases h
    rw [receipt_pageRef_none hkeeps] at href
    cases href

theorem keeps_perform {path : Path}
    (h : ∀ blob ∈ call.blob job render, placeOf job.blobDir blob.1 = path → blob.2 = content) :
    Keeps (fun disk : Disk => disk.fileAt path = some content) (call.perform job render) := by
  rw [Call.perform]
  split
  · exact Keeps.pure _ _
  · next name bytes hblob =>
    exact Keeps.bind (keeps_writeBlob (h (name, bytes) hblob)) fun _ => Keeps.pure _ _

theorem after_keeps {path : Path} (h : ∀ call ∈ calls, ∀ blob ∈ call.blob job render,
    placeOf job.blobDir blob.1 = path → blob.2 = content) (hdisk : disk.fileAt path = some content) :
    (after job render disk calls).fileAt path = some content := by
  induction calls generalizing disk with
  | nil => exact hdisk
  | cons call calls ih =>
    exact ih (fun other hother => h other (List.mem_cons_of_mem call hother))
      (keeps_perform (h call List.mem_cons_self) disk hdisk)

/-- **every ref keeps its page when no later call writes another one under its name** -/
theorem refsHold_of_undisturbed (haddressed : Addressed job calls) (h : Undisturbed job render calls) :
    RefsHold job render disk calls := by
  rintro front call back rfl receipt disk' ref hperform href later hlater
  obtain ⟨hkeeps, hwrite⟩ := perform_ref hperform href
  have hplain := plain_blobName haddressed (List.mem_append_right front List.mem_cons_self) hkeeps
  obtain ⟨rfl, ⟨hentry, -⟩, -⟩ := Truth.writeBlob_ok hwrite
  refine ⟨components (call.blobName job), resolveBlobRef_blobRef job.jobId hplain, ?_⟩
  rw [placeOf_relative hplain.relative hplain.below] at hentry
  refine Tree.fileAt_eq_some.mp (after_keeps (fun other hother blob hblob hplace => ?_)
    (Tree.fileAt_eq_some.mpr hentry))
  have hlaterMem : other ∈ back := hlater.subset hother
  obtain ⟨-, hpair, -⟩ := List.pairwise_append.mp h
  have hsame := List.rel_of_pairwise_cons hpair hlaterMem (call.blobName job, call.reader.pageBytes render call.args)
    (by rw [Call.blob, hkeeps, if_pos rfl]; rfl) blob hblob
  apply hsame
  have hotherPlain : Plain blob.1 := by
    rw [Call.blob] at hblob
    split at hblob
    · next hotherKeeps =>
      cases hblob
      exact plain_blobName haddressed (List.mem_append_right front (List.mem_cons_of_mem call hlaterMem)) hotherKeeps
    · cases hblob
  rwa [placeOf_relative hotherPlain.relative hotherPlain.below, List.append_cancel_left_eq] at hplace

theorem undisturbed_of_session (hnamed : reader.Named) (hreader : ∀ call ∈ calls, call.reader = reader)
    (hoffsets : calls.Pairwise fun call call' => usizeArg call.args.offset 0 ≠ usizeArg call'.args.offset 0) :
    Undisturbed job render calls := by
  refine hoffsets.imp_of_mem fun {call call'} hcall hcall' hne blob hblob blob' hblob' hpath => absurd ?_ hne
  rw [Call.blob, hreader call hcall] at hblob
  rw [Call.blob, hreader call' hcall'] at hblob'
  split at hblob
  · next hkeeps =>
    rw [if_pos hkeeps] at hblob'
    cases hblob
    cases hblob'
    rw [blobPath, blobPath, Call.blobName, Call.blobName, hreader call hcall, hreader call' hcall', components_append,
      components_append, List.append_cancel_left_eq, (component_pageName hnamed hkeeps).components,
      (component_pageName hnamed hkeeps).components, List.singleton_inj] at hpath
    exact (pageName_inj hkeeps hpath).symm
  · cases hblob

end

/-- **a tool result is read to its end when its pages have a length, a dataset or a source set when its count fits what
it holds, plain text and a snapshot at any rate; and the refs hold when no later call writes another page under the
same name** -/
theorem paged_readers (refs : Nat → String) (args : PageArgs) :
    (∀ targetRef sourceKind content,
      Offsets.Complete (toolResultPages refs args targetRef sourceKind content) content.toList ↔
        0 < toolResultLimit args ∨ content = "") ∧
    (∀ datasetRef dataset, Offsets.Complete (datasetPages refs args datasetRef dataset) dataset.records ↔
      Counts dataset.rowCount dataset.records.length (datasetLimit args)) ∧
    (∀ datasetRef text parseError,
      Offsets.Complete (rawTextPages refs args datasetRef text parseError) (lines text)) ∧
    (∀ sourceSetRef sourceSet,
      Offsets.Complete (sourceSetPages refs args sourceSetRef sourceSet) sourceSet.files ↔
        Counts sourceSet.fileCount sourceSet.files.length (sourceSetLimit args)) ∧
    (∀ snapshotRef snapshot, Offsets.Complete (snapshotPages args snapshotRef snapshot) snapshot.sections) ∧
    ∀ job render disk calls, Addressed job calls → Undisturbed job render calls → RefsHold job render disk calls :=
  ⟨toolResult_complete_iff refs args, dataset_complete_iff refs args, rawText_complete refs args,
    sourceSet_complete_iff refs args, snapshot_complete args, fun _ _ _ _ => refsHold_of_undisturbed⟩

/-! ## runs on two files -/

def readingJob : Job := ⟨["blobs", "job"], "job", "runtime", ["source_set.read_page"]⟩

def twoFiles : Package.SourceSet :=
  ⟨"set", "", [], [], [], 2, 2, [⟨"a.txt", "txt", 1, 0⟩, ⟨"b.txt", "txt", 1, 0⟩], 0, ⟨2, 0, 0, 0, 0⟩⟩

/-- a call that reads a page of the two files -/
def readTwo (offset limit : Nat) : Call :=
  ⟨.sourceSet "blob://job/source_sets/set.json" twoFiles, ⟨some (.num offset), none, some (.num limit)⟩, 0⟩

theorem page_refs_of_session (render : Json → Bytes) :
    RefsHold readingJob render Tree.empty [readTwo 0 1, readTwo 1 1] := by
  have hnamed : (readTwo 0 1).reader.Named := by
    have hall : ("set" : String).toList.all (fun c => decide (c ≠ '/' ∧ c ≠ '\\')) = true := by decide +kernel
    exact fun c hc => of_decide_eq_true (List.all_eq_true.mp hall c hc)
  refine (paged_readers (fun _ => "") (readTwo 0 1).args).2.2.2.2.2 readingJob render Tree.empty _ ?_
    (undisturbed_of_session hnamed ?_ ?_)
  · intro call hcall _ _ _
    rcases List.mem_pair.mp hcall with rfl | rfl <;>
    exact ⟨by decide +kernel, by decide +kernel, by decide +kernel, by decide +kernel⟩
  · simp [readTwo]
  · simp [readTwo, usizeArg, Json.asNat?]

/-- the pages of the two files, as they are rendered -/
def renderTwo (page : Json) : Bytes :=
  let row (path : String) := "  \x7b\n    \"path\": \"" ++ path ++ "\",\n    \"extension\": \"txt\",\n" ++
    "    \"size_bytes\": 1,\n    \"modified_ms\": 0\n  \x7d"
  if page = .arr ((twoFiles.files.take 1).map fileJson) then utf8 ("[\n" ++ row "a.txt" ++ "\n]")
  else utf8 ("[\n" ++ row "a.txt" ++ ",\n" ++ row "b.txt" ++ "\n]")

/-- pages of no length never come to an end; and a page of source sets is overwritten by one of another length -/
theorem pages_lost :
    (∀ fuel, Offsets.read (toolResultPages (fun _ => "") ⟨none, some (.num 0), none⟩ "blob://job/a.txt" "blob" "a")
      fuel 0 = none) ∧
    ¬ RefsHold readingJob renderTwo Tree.empty [readTwo 0 1, readTwo 0 2] := by
  constructor
  · intro fuel
    have hempty : toolResultLimit ⟨none, some (.num 0), none⟩ = 0 := by decide
    rw [toolResultPages_eq, hempty]
    induction fuel with
    | zero => rfl
    | succ fuel ih =>
      have hpage : Offsets.slice "a".toList "a".toList.length 0 0 = ⟨[], true⟩ := by rfl
      rw [Offsets.read, hpage]
      exact Option.map_eq_none_iff.mpr ih
  · intro hhold
    obtain ⟨disk, hwrite⟩ := @exists_writeBlob ["blobs", "job"] "source_sets/set_page_0.json" "job"
      ((readTwo 0 1).reader.pageBytes renderTwo (readTwo 0 1).args) (by decide +kernel)
    have hname : (readTwo 0 1).blobName readingJob = "source_sets/set_page_0.json" := by decide +kernel
    have hfirst : Ok ((readTwo 0 1).perform readingJob renderTwo) Tree.empty ((readTwo 0 1).receipt readingJob
        (blobRef "job" "source_sets/set_page_0.json")) disk := by
      rw [Call.perform, Call.blob, hname]
      exact bind_ok.mpr ⟨_, disk, hwrite, rfl⟩
    obtain ⟨path, hpath, hentry⟩ := hhold [] (readTwo 0 1) [readTwo 0 2] rfl _ disk _ hfirst
      (receipt_pageRef (by decide) _) [readTwo 0 2] List.prefix_rfl
    have hplace : resolveBlobRef "job" (blobRef "job" "source_sets/set_page_0.json") =
        .ok ["source_sets", "set_page_0.json"] := by decide +kernel
    obtain rfl := Except.ok.inj (hplace.symm.trans hpath)
    have hother : (after readingJob renderTwo (final ((readTwo 0 1).perform readingJob renderTwo) Tree.empty)
        [readTwo 0 2]).fileAt ["blobs", "job", "source_sets", "set_page_0.json"] ≠
          some ((readTwo 0 1).reader.pageBytes renderTwo (readTwo 0 1).args) := by decide +kernel
    rw [final_of_ok hfirst] at hother
    exact hother (Tree.fileAt_eq_some.mpr hentry)

end Readers

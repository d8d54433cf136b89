import SuperNova.Office.Listed

/-!
# Documents that are accounted for

The list of documents crosses a text file, and the worker's paths are taken back below the workspace.

* `workerBatchReadText_data`, `reportedPaths_eq`: the entries of a raw document set;
* `listed_of_accounts`, `accounts_of_listed`: the two directions;
* `batch_accounts_iff` (**main**): each document of the source set has its own entry exactly when each path is
  resolved, opened, and comes back as it is, and the lines of the paths are told apart without regard to case.
-/

set_option linter.unusedSectionVars false

namespace Office

open Paths Io FileTree Workspace Os Text

section
variable {platform : Platform} {directory root : Path} {path : String} {l : List String}
  {documents errors : List Json}

/-! ## the entries -/

def documentOf (platform : Platform) (directory : Path) (path : String) : Option Json :=
  match platform.openDocx path with
  | .ok extraction => some (documentJson (fullPath directory path) extraction)
  | .error _ => none

def errorOf (platform : Platform) (directory : Path) (path : String) : Option Json :=
  match platform.openDocx path with
  | .ok _ => none
  | .error exception => some (errorJson (fullPath directory path) exception)

theorem readDocuments_eq (hnull : ∀ path ∈ l, nullCharacter ∉ path.toList) :
    readDocuments platform directory l documents errors =
      some (documents ++ l.filterMap (documentOf platform directory),
        errors ++ l.filterMap (errorOf platform directory)) := by
  induction l generalizing documents errors with
  | nil => simp [readDocuments]
  | cons path rest ih =>
    have hrest : ∀ path ∈ rest, nullCharacter ∉ path.toList := fun q hq => hnull q (List.mem_cons_of_mem path hq)
    rw [readDocuments, getFullPath, if_neg (hnull path List.mem_cons_self)]
    cases hopen : platform.openDocx path with
    | ok extraction =>
      have hdocument : documentOf platform directory path =
          some (documentJson (fullPath directory path) extraction) := by
        rw [documentOf, hopen]
      have herror : errorOf platform directory path = none := by rw [errorOf, hopen]
      rw [List.filterMap_cons_some hdocument, List.filterMap_cons_none herror]
      simp only [ih hrest, List.append_assoc, List.singleton_append]
    | error exception =>
      have hdocument : documentOf platform directory path = none := by rw [documentOf, hopen]
      have herror : errorOf platform directory path = some (errorJson (fullPath directory path) exception) := by
        rw [errorOf, hopen]
      rw [List.filterMap_cons_none hdocument, List.filterMap_cons_some herror]
      simp only [ih hrest, List.append_assoc, List.singleton_append]

theorem readDocuments_null (h : path ∈ l) (hnull : nullCharacter ∈ path.toList) :
    readDocuments platform directory l documents errors = none := by
  induction l generalizing documents errors with
  | nil => exact absurd h List.not_mem_nil
  | cons first rest ih =>
    rw [readDocuments, getFullPath]
    split
    · rfl
    · next hfull =>
      split at hfull
      · cases hfull
      · next hfirst =>
        have hrest : path ∈ rest := by
          rcases List.mem_cons.mp h with rfl | hrest
          · exact absurd hnull hfirst
          · exact hrest
        split <;> exact ih hrest

/-- the data of a receipt that is not a failure -/
def batchData (platform : Platform) (directory : Path) (l : List String) : Json :=
  let documents := l.filterMap (documentOf platform directory)
  let errors := l.filterMap (errorOf platform directory)
  .obj [("coverage_ratio", coverageRatio platform documents.length l.length), ("documents", .arr documents),
    ("errors", .arr errors), ("failed_files", .num errors.length), ("succeeded_files", .num documents.length),
    ("total_files", .num l.length)]

theorem workerBatchReadText_data {text : String} (hl : readList (ordinalIgnoreCase platform) text = l)
    (hnull : ∀ path ∈ l, nullCharacter ∉ path.toList) :
    (workerBatchReadText platform directory text).data = batchData platform directory l := by
  rw [workerBatchReadText, hl, readDocuments_eq hnull]
  rfl

theorem workerBatchReadText_null {text : String} (h : path ∈ readList (ordinalIgnoreCase platform) text)
    (hnull : nullCharacter ∈ path.toList) : (workerBatchReadText platform directory text).data =
      .obj [("error", .str platform.nullPath.message), ("error_type", .str platform.nullPath.errorType)] := by
  rw [workerBatchReadText, readDocuments_null h hnull]

theorem sourcePath_normalizeDocument (root : Path) (s : String) (extraction : Extraction) :
    sourcePath (normalizeDocument root (documentJson s extraction)) = some (relativePath root s) := by
  have hsource : (documentJson s extraction).strAt? "source_path" = some s := rfl
  rw [documentJson] at hsource
  rw [documentJson, normalizeDocument, hsource]
  simp only [sourcePath, Json.strAt?, Data.get?_insertField, String.reduceEq, if_true, if_false]
  rfl

theorem documents_reported (root : Path) (l : List String) :
    ((l.filterMap (documentOf platform root)).map (normalizeDocument root)).filterMap sourcePath =
      (l.filter (opens platform)).map fun path => relativePath root (fullPath root path) := by
  induction l with
  | nil => rfl
  | cons path rest ih =>
    cases hopen : platform.openDocx path with
    | ok extraction =>
      have hdocument : documentOf platform root path = some (documentJson (fullPath root path) extraction) := by
        rw [documentOf, hopen]
      rw [List.filterMap_cons_some hdocument, List.filter_cons_of_pos (opens_iff.mpr ⟨extraction, hopen⟩),
        List.map_cons, List.map_cons, List.filterMap_cons_some (sourcePath_normalizeDocument root _ extraction), ih]
    | error exception =>
      have hdocument : documentOf platform root path = none := by rw [documentOf, hopen]
      have hclosed : ¬ opens platform path = true := by simp [opens, hopen]
      rw [List.filterMap_cons_none hdocument, List.filter_cons_of_neg hclosed, ih]

theorem errors_reported (root : Path) (l : List String) :
    (l.filterMap (errorOf platform root)).filterMap sourcePath =
      (l.filter (rejects platform)).map (fullPath root) := by
  induction l with
  | nil => rfl
  | cons path rest ih =>
    cases hopen : platform.openDocx path with
    | ok extraction =>
      have herror : errorOf platform root path = none := by rw [errorOf, hopen]
      have hopens : ¬ rejects platform path = true := by simp [rejects, opens, hopen]
      rw [List.filterMap_cons_none herror, List.filter_cons_of_neg hopens, ih]
    | error exception =>
      have herror : errorOf platform root path = some (errorJson (fullPath root path) exception) := by
        rw [errorOf, hopen]
      have hsource : sourcePath (errorJson (fullPath root path) exception) = some (fullPath root path) := rfl
      have hclosed : rejects platform path = true := by simp [rejects, opens, hopen]
      rw [List.filterMap_cons_some herror, List.filter_cons_of_pos hclosed, List.map_cons,
        List.filterMap_cons_some hsource, ih]

/-- **the paths of a raw document set**: those of documents below the workspace, those of errors in full -/
theorem reportedPaths_eq (root : Path) (sourceSetRef : String) (l : List String) :
    reportedPaths (normalizeBatchRawDocuments root sourceSetRef (batchData platform root l)) =
      reportedOf platform root l := by
  rw [reportedOf, ← documents_reported, ← errors_reported, ← List.filterMap_append]
  rfl

theorem length_documents (root : Path) (l : List String) :
    (l.filterMap (documentOf platform root)).length = (l.filter (opens platform)).length := by
  rw [List.length_filterMap_eq_countP, List.countP_eq_length_filter]
  congr 2
  funext path
  rw [documentOf, opens]
  cases platform.openDocx path <;> rfl

theorem length_errors (root : Path) (l : List String) :
    (l.filterMap (errorOf platform root)).length = (l.filter (rejects platform)).length := by
  rw [List.length_filterMap_eq_countP, List.countP_eq_length_filter]
  congr 2
  funext path
  rw [errorOf, rejects, opens]
  cases platform.openDocx path <;> rfl

theorem natAt?_batchData (platform : Platform) (root : Path) (sourceSetRef : String) (l : List String) :
    Data.natAt? (normalizeBatchRawDocuments root sourceSetRef (batchData platform root l)) "total_files" =
        some l.length ∧
      Data.natAt? (normalizeBatchRawDocuments root sourceSetRef (batchData platform root l)) "succeeded_files" =
        some (l.filter (opens platform)).length ∧
      Data.natAt? (normalizeBatchRawDocuments root sourceSetRef (batchData platform root l)) "failed_files" =
        some (l.filter (rejects platform)).length := by
  rw [← length_documents root, ← length_errors root]
  exact ⟨rfl, rfl, rfl⟩

end

/-! ## the call -/

section
variable {rt : OfficeRuntime} {w : BatchWorker} {k k' : Kernel} {root : Path} {files : List Data.SourceSetFile}
  {docxPaths : List (String × Path)} {sourceSetRef text : String} {sourceSet : Package.SourceSet} {v : Json}
  {receipt : Receipt}

theorem resolveFiles_eq (h : ∀ file ∈ files, ∃ p, resolveWorkspacePath root file.path = .ok p) :
    resolveFiles root files = .ok (files.map fun file => (file.path, root ++ normalForm (components file.path))) := by
  induction files with
  | nil => rfl
  | cons file rest ih =>
    obtain ⟨p, hp⟩ := h file List.mem_cons_self
    obtain ⟨-, -, rfl⟩ := resolveWorkspacePath_ok_iff.mp hp
    rw [resolveFiles, hp, ih fun file hfile => h file (List.mem_cons_of_mem _ hfile)]
    rfl

theorem resolved_of_resolveFiles (h : resolveFiles root files = .ok docxPaths) :
    ∀ file ∈ files, ∃ p, resolveWorkspacePath root file.path = .ok p := by
  induction files generalizing docxPaths with
  | nil => exact nofun
  | cons file rest ih =>
    rw [resolveFiles] at h
    cases hp : resolveWorkspacePath root file.path with
    | error e =>
      rw [hp] at h
      cases h
    | ok p =>
      cases hmore : resolveFiles root rest with
      | error e =>
        rw [hp, hmore] at h
        cases h
      | ok more => exact List.forall_mem_cons.mpr ⟨⟨p, hp⟩, ih hmore⟩

theorem workerData_batchWorkerReceipt (inputListPath : Path) (inputList workerReceiptRef : String)
    (hreads : w.ReadsBack (workerBatchReadText w.platform rt.workspaceRoot inputList)) :
    workerData (batchWorkerReceipt rt w inputListPath (batchOutput rt w inputList) workerReceiptRef) =
      (workerBatchReadText w.platform rt.workspaceRoot inputList).data := by
  have hverdict : (workerVerdict w.toWorker (batchOutput rt w inputList)).2.get? "data" =
      some (workerBatchReadText w.platform rt.workspaceRoot inputList).data := by
    rw [workerVerdict, batchOutput, hreads]
    rfl
  exact congrArg (fun o : Option Json => o.getD (.obj [])) hverdict

theorem runBatchWorker_ok (hgranted : batchCapability ∈ rt.capabilities) (inputListPath : Path) (inputList : String)
    (k : Kernel) : ∃ workerReceiptRef k', Ok (runBatchWorker rt w inputListPath inputList) k
      (batchWorkerReceipt rt w inputListPath (batchOutput rt w inputList) workerReceiptRef) k' := by
  rw [runBatchWorker, if_pos hgranted]
  let output := batchOutput rt w inputList
  let name := "office_receipts/" ++ (safeBlobName batchCapability ++ "_" ++ toString k.clock ++ ".json")
  let receipt := batchWorkerReceipt rt w inputListPath output (blobRef rt.toRuntime name)
  obtain ⟨k1, h1⟩ := Os.emitReceipt_total rt.toRuntime "office_receipt" receipt
    { k with blobs := Function.update k.blobs name (some (.str output.stdout)) }
  obtain ⟨k2, h2⟩ := Os.emitReceipt_total rt.toRuntime "capability_receipt" receipt k1
  exact ⟨_, k2, bind_ok.mpr ⟨k, k, rfl, bind_ok.mpr ⟨_, _, rfl, bind_ok.mpr ⟨_, k1, h1,
    bind_ok.mpr ⟨_, k2, h2, rfl⟩⟩⟩⟩⟩

theorem inputList_eq (root : Path) (sourceSet : Package.SourceSet) :
    ((docxFiles sourceSet).map fun file => (file.path, root ++ normalForm (components file.path))).map
      (fun docx => pathString docx.2) = (docxNames sourceSet).map (listLine root) := by
  rw [docxNames, List.map_map, List.map_map]
  exact List.map_congr_left fun file _ => rfl

theorem withBatchFields_ref (sourceSetRef rawDocumentSetRef : String) (docxCount : Nat)
    (fields : List (String × Json)) :
    (withBatchFields sourceSetRef rawDocumentSetRef docxCount (.obj fields)).strAt? "raw_document_set_ref" =
      some rawDocumentSetRef := by
  simp only [withBatchFields, Json.strAt?, Data.get?_insertField, String.reduceEq, if_true, if_false]
  rfl

theorem withBatchFields_count (sourceSetRef rawDocumentSetRef : String) (docxCount : Nat)
    (fields : List (String × Json)) :
    Data.natAt? (withBatchFields sourceSetRef rawDocumentSetRef docxCount (.obj fields)) "docx_count" =
      some docxCount := by
  simp only [withBatchFields, Data.natAt?, Data.get?_insertField, String.reduceEq, if_true, if_false]
  rfl

/-- **a call whose paths are resolved** stores what becomes of the worker's data -/
theorem batchReadText_ok (hgranted : batchCapability ∈ rt.capabilities)
    (hread : Data.readBlob rt.toRuntime sourceSetRef k = .ok v) (hset : Package.SourceSet.ofJson v = some sourceSet)
    (hreads : w.ReadsBack (batchAnswer rt w sourceSet))
    (hresolved : ∀ file ∈ docxFiles sourceSet, ∃ p, resolveWorkspacePath rt.workspaceRoot file.path = .ok p) :
    ∃ receipt k' name, Ok (batchReadText rt w sourceSetRef) k receipt k' ∧
      receipt.data.strAt? "raw_document_set_ref" = some (blobRef rt.toRuntime name) ∧
      Data.natAt? receipt.data "docx_count" = some (docxFiles sourceSet).length ∧
      k'.blobs name = some (normalizeBatchRawDocuments rt.workspaceRoot sourceSetRef
        (batchAnswer rt w sourceSet).data) := by
  have hparsed : Ok (Data.readParsed rt.toRuntime Package.SourceSet.ofJson sourceSetRef) k sourceSet k :=
    Data.readParsed_ok.mpr ⟨⟨v, hread, hset⟩, rfl⟩
  obtain ⟨docxPaths, hdocx⟩ : ∃ docxPaths, docxPaths = (docxFiles sourceSet).map fun file =>
    (file.path, rt.workspaceRoot ++ normalForm (components file.path)) := ⟨_, rfl⟩
  have hpaths : Ok (docxPathsFromSourceSet rt sourceSet) k docxPaths k := by
    rw [docxPathsFromSourceSet, resolveFiles_eq hresolved, ← hdocx]
    rfl
  have hcount : docxPaths.length = (docxFiles sourceSet).length := by rw [hdocx, List.length_map]
  let inputList := join "\n" (docxPaths.map fun docx => pathString docx.2)
  have hlist : inputList = join "\n" ((docxNames sourceSet).map (listLine rt.workspaceRoot)) := by
    show join "\n" (docxPaths.map fun docx => pathString docx.2) = _
    rw [hdocx, inputList_eq]
  let inputListFile := "batch_docx_list_" ++ toString k.clock ++ ".txt"
  let k1 : Kernel := { k with
    blobs := Function.update k.blobs ("office_inputs/" ++ inputListFile) (some (.str inputList)) }
  let inputListPath := rt.stateRoot ++ ["blobs", rt.jobId, "office_inputs", inputListFile]
  obtain ⟨workerReceiptRef, k2, hworker⟩ := @runBatchWorker_ok rt w hgranted inputListPath inputList k1
  let receipt := batchWorkerReceipt rt w inputListPath (batchOutput rt w inputList) workerReceiptRef
  let rawDocumentSet := normalizeBatchRawDocuments rt.workspaceRoot sourceSetRef (workerData receipt)
  let name := "raw_document_sets/docx_batch_" ++ toString k2.clock ++ ".json"
  let k3 : Kernel := { k2 with blobs := Function.update k2.blobs name (some rawDocumentSet) }
  let final : Receipt := { receipt with
    data := withBatchFields sourceSetRef (blobRef rt.toRuntime name) docxPaths.length receipt.data }
  obtain ⟨k4, h4⟩ : ∃ k4, Ok (emitEvent rt.toRuntime "raw_document_set_created" (.obj [
      ("source_set_ref", .str sourceSetRef),
      ("raw_document_set_ref", (final.data.get? "raw_document_set_ref").getD .null),
      ("docx_count", .num docxPaths.length)])) k3 () k4 := by
    unfold emitEvent
    split <;> exact ⟨_, rfl⟩
  obtain ⟨k5, h5⟩ := Os.emitReceipt_total rt.toRuntime "capability_receipt" final k4
  refine ⟨final, k5, name, ?_, withBatchFields_ref _ _ _ _, ?_, ?_⟩
  · exact bind_ok.mpr ⟨_, _, hparsed, bind_ok.mpr ⟨_, _, hpaths, bind_ok.mpr ⟨k, k, rfl, bind_ok.mpr ⟨_, k1, rfl,
      bind_ok.mpr ⟨_, _, hworker, bind_ok.mpr ⟨k2, k2, rfl, bind_ok.mpr ⟨_, k3, rfl, bind_ok.mpr ⟨_, _, h4,
        bind_ok.mpr ⟨_, _, h5, rfl⟩⟩⟩⟩⟩⟩⟩⟩⟩
  · rw [← hcount]
    exact withBatchFields_count _ _ _ _
  · have hstored : k3.blobs name = some rawDocumentSet := Function.update_self name _ k2.blobs
    have hanswer : workerBatchReadText w.platform rt.workspaceRoot inputList = batchAnswer rt w sourceSet := by
      rw [hlist]
      rfl
    rw [(emitReceipt_ok h5).2, (emitEvent_ok h4).2, hstored, ← hanswer,
      ← workerData_batchWorkerReceipt inputListPath inputList workerReceiptRef (hanswer ▸ hreads)]

theorem resolved_of_batchReadText (hread : Data.readBlob rt.toRuntime sourceSetRef k = .ok v)
    (hset : Package.SourceSet.ofJson v = some sourceSet) (hok : Ok (batchReadText rt w sourceSetRef) k receipt k') :
    ∀ file ∈ docxFiles sourceSet, ∃ p, resolveWorkspacePath rt.workspaceRoot file.path = .ok p := by
  obtain ⟨parsed, k1, hparsed, hok⟩ := bind_ok.mp hok
  obtain ⟨⟨u, hu, hu'⟩, rfl⟩ := Data.readParsed_ok.mp hparsed
  obtain rfl := Except.ok.inj (hread.symm.trans hu)
  obtain rfl := Option.some.inj (hset.symm.trans hu')
  obtain ⟨docxPaths, k2, hresolved, -⟩ := bind_ok.mp hok
  obtain ⟨hresolved, -⟩ := lift_ok.mp hresolved
  cases hpaths : resolveFiles rt.workspaceRoot (docxFiles sourceSet) with
  | ok paths => exact resolved_of_resolveFiles hpaths
  | error e =>
    rw [hpaths] at hresolved
    cases hresolved

/-! ## the two directions -/

theorem natAt?_failure (root : Path) (sourceSetRef errorType message : String) :
    Data.natAt? (normalizeBatchRawDocuments root sourceSetRef
      (.obj [("error", .str message), ("error_type", .str errorType)])) "total_files" = none := rfl

theorem perm_of_accounts {root : Path} {l : List String} {platform : Platform} (h : AccountsFor sourceSet receipt
      (normalizeBatchRawDocuments root sourceSetRef (batchData platform root l))) :
    l.length = (docxNames sourceSet).length ∧ (reportedOf platform root l).Perm (docxNames sourceSet) := by
  obtain ⟨htotal, hsucceeded, hfailed⟩ := natAt?_batchData platform root sourceSetRef l
  obtain ⟨succeeded, failed, hs, hf, hsum⟩ := h.parts
  obtain rfl := Option.some.inj (hsucceeded.symm.trans hs)
  obtain rfl := Option.some.inj (hfailed.symm.trans hf)
  have hfiles : (docxNames sourceSet).length = (docxFiles sourceSet).length := List.length_map _
  refine ⟨(Option.some.inj (htotal.symm.trans h.total)).trans hfiles.symm, perm_of_counts ?_ ?_⟩
  · intro path hpath
    obtain ⟨file, hfile, rfl⟩ := List.mem_map.mp hpath
    rw [← reportedPaths_eq root sourceSetRef l]
    exact h.once file hfile
  · rw [reportedOf, List.length_append, List.length_map, List.length_map, hsum, hfiles]

/-- **what is accounted for** is listed, line by line -/
theorem listed_of_accounts (hgranted : batchCapability ∈ rt.capabilities)
    (hread : Data.readBlob rt.toRuntime sourceSetRef k = .ok v) (hset : Package.SourceSet.ofJson v = some sourceSet)
    (hreads : w.ReadsBack (batchAnswer rt w sourceSet)) (h : BatchAccounts rt w sourceSetRef sourceSet k) :
    (∀ file ∈ docxFiles sourceSet, Listed rt w file.path) ∧
      (docxFiles sourceSet).Pairwise fun a b => ordinalIgnoreCase w.platform (listLine rt.workspaceRoot a.path) ≠
        ordinalIgnoreCase w.platform (listLine rt.workspaceRoot b.path) := by
  obtain ⟨receipt, k', name, rawDocumentSet, hok, href, hblob, haccounts⟩ := h
  have hresolved := resolved_of_batchReadText hread hset hok
  obtain ⟨receipt', k'', name', hok', href', -, hblob'⟩ :=
    batchReadText_ok hgranted hread hset hreads hresolved
  obtain ⟨rfl, rfl⟩ := EStateM.Result.ok.inj (hok.symm.trans hok')
  obtain rfl : name = name' := append_left_inj (Option.some.inj (href.symm.trans href'))
  obtain rfl := Option.some.inj (hblob.symm.trans hblob')
  rw [batchAnswer] at haccounts
  obtain ⟨l, hl⟩ : ∃ l, readList (ordinalIgnoreCase w.platform)
    (join "\n" ((docxNames sourceSet).map (listLine rt.workspaceRoot))) = l := ⟨_, rfl⟩
  have hnull : ∀ line ∈ l, nullCharacter ∉ line.toList := by
    intro line hline hmem
    have htotal := haccounts.total
    rw [workerBatchReadText_null (hl ▸ hline) hmem, natAt?_failure] at htotal
    cases htotal
  rw [workerBatchReadText_data hl hnull] at haccounts
  obtain ⟨hlength, hreported⟩ := perm_of_accounts haccounts
  have hrelative : ∀ path ∈ docxNames sourceSet, isAbsolute path = false := by
    intro path hpath
    obtain ⟨file, hfile, rfl⟩ := List.mem_map.mp hpath
    obtain ⟨p, hp⟩ := hresolved file hfile
    exact (resolveWorkspacePath_ok_iff.mp hp).1
  obtain ⟨hlines, htold, hdistinct⟩ := told_of_reported rt.canonical hrelative hl hlength hreported
  rw [docxNames, List.pairwise_map] at hdistinct
  refine ⟨fun file hfile => ?_, hdistinct⟩
  have hpath : file.path ∈ docxNames sourceSet := List.mem_map_of_mem hfile
  exact { htold _ hpath with
    resolved := hresolved file hfile
    noNull := hnull _ (hlines ▸ List.mem_map_of_mem hpath) }

/-- **what is listed**, line by line, is accounted for -/
theorem accounts_of_listed (hgranted : batchCapability ∈ rt.capabilities)
    (hread : Data.readBlob rt.toRuntime sourceSetRef k = .ok v) (hset : Package.SourceSet.ofJson v = some sourceSet)
    (hreads : w.ReadsBack (batchAnswer rt w sourceSet)) (hlisted : ∀ file ∈ docxFiles sourceSet, Listed rt w file.path)
    (hdistinct : (docxFiles sourceSet).Pairwise fun a b =>
      ordinalIgnoreCase w.platform (listLine rt.workspaceRoot a.path) ≠
        ordinalIgnoreCase w.platform (listLine rt.workspaceRoot b.path)) :
    BatchAccounts rt w sourceSetRef sourceSet k := by
  obtain ⟨receipt, k', name, hok, href, hcount, hblob⟩ := batchReadText_ok hgranted hread hset hreads
    fun file hfile => (hlisted file hfile).resolved
  have htold : ∀ path ∈ docxNames sourceSet, Told w.platform rt.workspaceRoot path := by
    intro path hpath
    obtain ⟨file, hfile, rfl⟩ := List.mem_map.mp hpath
    exact (hlisted file hfile).toTold
  have hnull : ∀ line ∈ (docxNames sourceSet).map (listLine rt.workspaceRoot), nullCharacter ∉ line.toList := by
    intro line hline
    obtain ⟨path, hpath, rfl⟩ := List.mem_map.mp hline
    obtain ⟨file, hfile, rfl⟩ := List.mem_map.mp hpath
    exact (hlisted file hfile).noNull
  have hnames : (docxNames sourceSet).Pairwise fun a b =>
      ordinalIgnoreCase w.platform (listLine rt.workspaceRoot a) ≠
        ordinalIgnoreCase w.platform (listLine rt.workspaceRoot b) := List.pairwise_map.mpr hdistinct
  obtain ⟨hl, hreported⟩ := reported_of_told rt.canonical htold hnames
  rw [batchAnswer, workerBatchReadText_data hl hnull] at hblob
  obtain ⟨htotal, hsucceeded, hfailed⟩ := natAt?_batchData w.platform rt.workspaceRoot sourceSetRef
    ((docxNames sourceSet).map (listLine rt.workspaceRoot))
  have hlength : ((docxNames sourceSet).map (listLine rt.workspaceRoot)).length = (docxFiles sourceSet).length := by
    rw [List.length_map, docxNames, List.length_map]
  have hentries := congrArg List.length hreported
  rw [reportedOf, List.length_append, List.length_map, List.length_map, docxNames, List.length_map] at hentries
  refine ⟨receipt, k', name, _, hok, href, hblob, ?_⟩
  exact {
    once := fun file _ => by
      rw [reportedPaths_eq, hreported]
      rfl
    total := by rw [htotal, hlength]
    parts := ⟨_, _, hsucceeded, hfailed, hentries⟩
    docxCount := hcount }

/-- **each document of the source set has its own entry** exactly when every path is resolved, opened, and comes back
as it is, and the lines of the paths are told apart without regard to case -/
theorem batch_accounts_iff (hgranted : batchCapability ∈ rt.capabilities)
    (hread : Data.readBlob rt.toRuntime sourceSetRef k = .ok v) (hset : Package.SourceSet.ofJson v = some sourceSet)
    (hreads : w.ReadsBack (batchAnswer rt w sourceSet)) :
    BatchAccounts rt w sourceSetRef sourceSet k ↔ (∀ file ∈ docxFiles sourceSet, Listed rt w file.path) ∧
      (docxFiles sourceSet).Pairwise fun a b => ordinalIgnoreCase w.platform (listLine rt.workspaceRoot a.path) ≠
        ordinalIgnoreCase w.platform (listLine rt.workspaceRoot b.path) :=
  ⟨listed_of_accounts hgranted hread hset hreads, fun h => accounts_of_listed hgranted hread hset hreads h.1 h.2⟩

end

/-! ## documents in a workspace -/

def batchRuntime : OfficeRuntime where
  workspaceRoot := ["ws"]
  stateRoot := ["ws", ".supernova"]
  jobId := "job"
  pid := "pid"
  capabilities := [batchCapability]
  emitEvents := true
  canonical := List.forall_mem_singleton.mpr ⟨by decide, by decide, by decide, by decide⟩

/-- a platform that opens all files but some -/
def platformWith (broken : List String) : Platform where
  toUpper := Char.toUpper
  openDocx path := if path ∈ broken then .error ⟨"FileFormatException", "File contains corrupted data."⟩
    else .ok ⟨"", ["text"], .arr [], .arr [], [], []⟩
  quotient _ _ := "1"
  nullPath := ⟨"ArgumentException", "Null character in path. (Parameter 'path')"⟩

def printReceipt (receipt : OfficeWorkerReceipt) : String :=
  "\x7b\"capability_id\": \"" ++ receipt.capabilityId ++ "\", \"status\": \"" ++ receipt.status ++ "\"\x7d"

def docxSet (paths : List String) : Package.SourceSet where
  sourceSetId := "s"
  rootPath := "."
  includeExtensions := []
  includeGlobs := []
  excludeGlobs := []
  fileCount := paths.length
  totalBytes := 0
  files := paths.map fun path => ⟨path, ".docx", 0, 0⟩
  excludedCount := 0
  scanDiagnostics := ⟨paths.length, 0, 0, 0, 0⟩

def docxSetJson (paths : List String) : Json := .obj [("source_set_id", .str "s"), ("root_path", .str "."),
  ("include_extensions", .arr []), ("include_globs", .arr []), ("exclude_globs", .arr []),
  ("file_count", .num paths.length), ("total_bytes", .num 0),
  ("files", .arr (paths.map fun path => .obj [("path", .str path), ("extension", .str ".docx"), ("size_bytes", .num 0),
    ("modified_ms", .num 0)])),
  ("excluded_count", .num 0), ("scan_diagnostics", .obj [("scanned_file_count", .num paths.length),
    ("excluded_by_explicit_exclude", .num 0), ("excluded_by_extension", .num 0), ("excluded_by_include_glob", .num 0),
    ("skipped_by_depth", .num 0)])]

/-- the documents with the source set stored -/
def docxKernel (paths : List String) : Kernel :=
  { kernelOf (paths.map fun path => ("ws" :: components path, [1])) with
    blobs := fun name => if name = "source_sets/s.json" then some (docxSetJson paths) else none }

/-- a worker whose parser knows one receipt -/
def workerOf (platform : Platform) (known : OfficeWorkerReceipt) : BatchWorker where
  project := "SuperNova.OfficeWorker.csproj"
  run _ disk := .ok (⟨"", "", some 0⟩, disk)
  parseReceipt text := if text = printReceipt known then .ok known else .error "expected value"
  platform
  print := printReceipt
  stderr := ""

theorem readsBack_workerOf (platform : Platform) (known : OfficeWorkerReceipt) :
    (workerOf platform known).ReadsBack known := if_pos rfl

def sampleAnswer (broken paths : List String) : OfficeWorkerReceipt :=
  workerBatchReadText (platformWith broken) ["ws"] (join "\n" (paths.map (listLine ["ws"])))

def workerWith (broken paths : List String) : BatchWorker := workerOf (platformWith broken) (sampleAnswer broken paths)

theorem readBlob_docxKernel (paths : List String) :
    Data.readBlob batchRuntime.toRuntime "blob://job/source_sets/s.json" (docxKernel paths) =
      .ok (docxSetJson paths) := by
  have hname : Data.resolveBlobRef batchRuntime.toRuntime "blob://job/source_sets/s.json" =
      .ok "source_sets/s.json" := by decide
  rw [Data.readBlob, hname]
  rfl

theorem docxFiles_docxSet (paths : List String) :
    docxFiles (docxSet paths) = paths.map fun path => ⟨path, ".docx", 0, 0⟩ := by
  refine List.filter_eq_self.mpr fun file hfile => ?_
  obtain ⟨path, -, rfl⟩ := List.mem_map.mp hfile
  show (toAsciiLowercase ".docx" == ".docx") = true
  decide

theorem docxNames_docxSet (paths : List String) : docxNames (docxSet paths) = paths := by
  rw [docxNames, docxFiles_docxSet, List.map_map]
  exact List.map_id paths

theorem readsBack_workerWith (broken paths : List String) :
    (workerWith broken paths).ReadsBack (batchAnswer batchRuntime (workerWith broken paths) (docxSet paths)) := by
  have hanswer : batchAnswer batchRuntime (workerWith broken paths) (docxSet paths) =
      sampleAnswer broken paths := by
    rw [batchAnswer, docxNames_docxSet, sampleAnswer]
    rfl
  rw [hanswer]
  exact readsBack_workerOf (platformWith broken) (sampleAnswer broken paths)

theorem listed_workerWith {broken paths : List String} {path : String}
    (htold : Told (platformWith broken) ["ws"] path) (hresolved : ∃ p, resolveWorkspacePath ["ws"] path = .ok p)
    (hnull : nullCharacter ∉ (listLine ["ws"] path).toList) : Listed batchRuntime (workerWith broken paths) path :=
  { htold with resolved := hresolved, noNull := hnull }

theorem batch_accounts_two : BatchAccounts batchRuntime (workerWith [] ["a.docx", "docs/b.docx"])
    "blob://job/source_sets/s.json" (docxSet ["a.docx", "docs/b.docx"]) (docxKernel ["a.docx", "docs/b.docx"]) := by
  refine (batch_accounts_iff (List.mem_singleton_self _) (readBlob_docxKernel _) rfl (readsBack_workerWith _ _)).mpr
    ⟨?_, ?_⟩
  · intro file hfile
    have hpath : file.path ∈ ["a.docx", "docs/b.docx"] := by
      rw [← docxNames_docxSet ["a.docx", "docs/b.docx"]]
      exact List.mem_map_of_mem hfile
    have hlisted : ∀ path ∈ ["a.docx", "docs/b.docx"],
        Listed batchRuntime (workerWith [] ["a.docx", "docs/b.docx"]) path := by
      intro path hpath
      rcases List.mem_pair.mp hpath with rfl | rfl
      · exact listed_workerWith ⟨by decide, by decide, by decide, by decide, _, rfl⟩ ⟨_, rfl⟩ (by decide)
      · exact listed_workerWith ⟨by decide, by decide, by decide, by decide, _, rfl⟩ ⟨_, rfl⟩ (by decide)
    exact hlisted _ hpath
  · have hnames : (docxNames (docxSet ["a.docx", "docs/b.docx"])).Pairwise fun a b =>
        ordinalIgnoreCase (platformWith []) (listLine ["ws"] a) ≠
          ordinalIgnoreCase (platformWith []) (listLine ["ws"] b) := by
      rw [docxNames_docxSet]
      decide
    rwa [docxNames, List.pairwise_map] at hnames

/-- an error has its path in full, and of two paths that differ in case the worker reads one -/
theorem documents_unaccounted :
    ¬ BatchAccounts batchRuntime (workerWith ["/ws/a.docx"] ["a.docx"]) "blob://job/source_sets/s.json"
        (docxSet ["a.docx"]) (docxKernel ["a.docx"]) ∧
      ¬ BatchAccounts batchRuntime (workerWith [] ["a.docx", "A.docx"]) "blob://job/source_sets/s.json"
        (docxSet ["a.docx", "A.docx"]) (docxKernel ["a.docx", "A.docx"]) := by
  constructor
  · intro h
    obtain ⟨hlisted, -⟩ := listed_of_accounts (List.mem_singleton_self _) (readBlob_docxKernel _) rfl
      (readsBack_workerWith _ _) h
    have hfile : (⟨"a.docx", ".docx", 0, 0⟩ : Data.SourceSetFile) ∈ docxFiles (docxSet ["a.docx"]) := by
      rw [docxFiles_docxSet]
      exact List.mem_singleton_self _
    obtain ⟨extraction, hopened⟩ := (hlisted _ hfile).opened
    cases hopened
  · intro h
    obtain ⟨-, hdistinct⟩ := listed_of_accounts (List.mem_singleton_self _) (readBlob_docxKernel _) rfl
      (readsBack_workerWith _ _) h
    have hnames : (docxNames (docxSet ["a.docx", "A.docx"])).Pairwise fun a b =>
        ordinalIgnoreCase (platformWith []) (listLine ["ws"] a) ≠
          ordinalIgnoreCase (platformWith []) (listLine ["ws"] b) := by
      rw [docxNames, List.pairwise_map]
      exact hdistinct
    rw [docxNames_docxSet] at hnames
    exact absurd hnames (by decide)

end Office

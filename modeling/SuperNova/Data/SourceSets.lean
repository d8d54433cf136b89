import Mathlib.Algebra.GroupWithZero.Nat
import SuperNova.Data.Datasets
import SuperNova.Data.Globs
import SuperNova.Os.Receipts

/-!
# Source sets

`source_set.create` walks the directories below a root, down to a depth, and lists the files that its filters let pass.
What it leaves out it counts.

* `collectSourceFiles`, `createSourceSet`: the walk, and the call;
* `metIn`: what the walk meets, and `mem_metIn`: which files these are;
* `Counted`: what the filters make of a list of files;
* `createSourceSet_lists` (**main**): which files a source set lists, and how they add up with the counters.
-/

set_option linter.unusedSectionVars false

namespace Data

open Io FileTree Workspace Os Text
open Package (SourceSet ScanDiagnostics)

/-! ## the walk -/

/-- the filters of a source set -/
structure Filters where
  includeExtensions : List String
  includeGlobs : List String
  excludeGlobs : List String

/-- the files that are listed so far, and the counters -/
structure Scan where
  files : List SourceSetFile
  diagnostics : ScanDiagnostics

def Scan.start : Scan := ⟨[], 0, 0, 0, 0, 0⟩

/-- the path of a file below the workspace, as text -/
def relPath (workspaceRoot path : Path) : String := zipName workspaceRoot path

/-- the extension of a file name, in lower case and with its dot -/
def extensionText (name : String) : String :=
  match splitLastDot name with
  | some (_, extension) => "." ++ toAsciiLowercase extension
  | none => ""

/-- what is listed of a file; `modified` tells when files were changed -/
def sourceFile (t : Disk) (modified : Path → Nat) (workspaceRoot path : Path) : SourceSetFile where
  path := relPath workspaceRoot path
  extension := extensionText (path.getLast?.getD "")
  sizeBytes := ((t.fileAt path).getD []).length
  modifiedMs := modified path

/-- the part of `collect_source_files` for a file -/
def Filters.visit (filters : Filters) (s : Scan) (file : SourceSetFile) : Scan :=
  let d := { s.diagnostics with scannedFileCount := s.diagnostics.scannedFileCount + 1 }
  if filters.excludeGlobs.any (globLikeMatch file.path) then
    { s with diagnostics := { d with excludedByExplicitExclude := d.excludedByExplicitExclude + 1 } }
  else if filters.includeExtensions ≠ [] ∧ file.extension ∉ filters.includeExtensions then
    { s with diagnostics := { d with excludedByExtension := d.excludedByExtension + 1 } }
  else if filters.includeGlobs ≠ [] ∧ ¬ filters.includeGlobs.any (globLikeMatch file.path) then
    { s with diagnostics := { d with excludedByIncludeGlob := d.excludedByIncludeGlob + 1 } }
  else ⟨s.files ++ [file], d⟩

/-- a directory that is too deep -/
def Scan.skip (s : Scan) : Scan :=
  { s with diagnostics := { s.diagnostics with skippedByDepth := s.diagnostics.skippedByDepth + 1 } }

/-- `collect_source_files`; so many levels of directories may still be read -/
def collectSourceFiles (t : Disk) (modified : Path → Nat) (workspaceRoot : Path) (filters : Filters) :
    Nat → Path → Scan → Scan
  | 0, _, s => s.skip
  | levels + 1, current, s =>
    ((t.children current).filter (· ≠ runtimeDirName)).foldl (fun s name =>
      let path := current ++ [name]
      if t.isDir path then collectSourceFiles t modified workspaceRoot filters levels path s
      else filters.visit s (sourceFile t modified workspaceRoot path)) s

def zeroMatchReason (fileCount : Nat) (d : ScanDiagnostics) (extensionFilterPresent includeGlobFilterPresent : Bool) :
    Option String :=
  if fileCount > 0 then none
  else if d.scannedFileCount = 0 ∧ d.skippedByDepth > 0 then some "max_depth prevented traversal from reaching files"
  else if d.scannedFileCount = 0 then some "root_path contains no files within max_depth"
  else if extensionFilterPresent ∧ d.excludedByExtension = d.scannedFileCount then
    some "include_extensions matched no scanned files"
  else if includeGlobFilterPresent ∧ d.excludedByIncludeGlob = d.scannedFileCount then
    some "include_globs matched no scanned files"
  else if d.excludedByExplicitExclude = d.scannedFileCount then some "exclude_globs filtered every scanned file"
  else some "filters matched no files"

def normalizeExtensions (values : List String) : List String :=
  (((values.map fun item => toAsciiLowercase (trim item)).filter (· ≠ "")).map fun item =>
    if ['.'] <+: item.toList then item else "." ++ item).foldl (fun set item => insertKey item set) []

/-! ## the call -/

/-- what `source_set.create` is asked for -/
structure SourceSetCall where
  rootPath : String
  includeExtensions : List String
  includeGlobs : List String
  excludeGlobs : List String
  maxDepth : Nat

namespace SourceSetCall

variable (call : SourceSetCall)

def filters : Filters := ⟨normalizeExtensions call.includeExtensions, call.includeGlobs, call.excludeGlobs⟩

def scan (t : Disk) (modified : Path → Nat) (workspaceRoot root : Path) : Scan :=
  collectSourceFiles t modified workspaceRoot call.filters (call.maxDepth + 1) root .start

/-- the source set of a scan -/
def sourceSet (now : Nat) (s : Scan) : SourceSet where
  sourceSetId := "sourceset_" ++ toString now
  rootPath := normalizePath call.rootPath
  includeExtensions := call.filters.includeExtensions
  includeGlobs := call.includeGlobs
  excludeGlobs := call.excludeGlobs
  fileCount := s.files.length
  totalBytes := (s.files.map SourceSetFile.sizeBytes).sum
  files := s.files.insertionSort fun left right => left.path ≤ right.path
  excludedCount := s.diagnostics.excludedByExplicitExclude + s.diagnostics.excludedByExtension +
    s.diagnostics.excludedByIncludeGlob
  scanDiagnostics := s.diagnostics

def zeroMatchReason (s : Scan) : Option String :=
  Data.zeroMatchReason s.files.length s.diagnostics (call.filters.includeExtensions ≠ []) (call.includeGlobs ≠ [])

end SourceSetCall

def SourceSetFile.toJson (file : SourceSetFile) : Json :=
  .obj [("path", .str file.path), ("extension", .str file.extension), ("size_bytes", .num file.sizeBytes),
    ("modified_ms", .num file.modifiedMs)]

def diagnosticsJson (d : ScanDiagnostics) (zeroMatchReason : Option String) : Json :=
  .obj [("scanned_file_count", .num d.scannedFileCount),
    ("excluded_by_explicit_exclude", .num d.excludedByExplicitExclude),
    ("excluded_by_extension", .num d.excludedByExtension), ("excluded_by_include_glob", .num d.excludedByIncludeGlob),
    ("skipped_by_depth", .num d.skippedByDepth), ("zero_match_reason", .ofText? zeroMatchReason)]

def sourceSetJson (s : SourceSet) (zeroMatchReason : Option String) : Json :=
  .obj [("source_set_id", .str s.sourceSetId), ("root_path", .str s.rootPath),
    ("include_extensions", .arr (s.includeExtensions.map .str)), ("include_globs", .arr (s.includeGlobs.map .str)),
    ("exclude_globs", .arr (s.excludeGlobs.map .str)), ("file_count", .num s.fileCount),
    ("total_bytes", .num s.totalBytes), ("files", .arr (s.files.map SourceSetFile.toJson)),
    ("excluded_count", .num s.excludedCount), ("scan_diagnostics", diagnosticsJson s.scanDiagnostics zeroMatchReason)]

def sourceSetBlobName (sourceSetId : String) : String := "source_sets/" ++ safeBlobName sourceSetId ++ ".json"

def emptyResultActionability (reason : String) : String :=
  "file_count=0 because " ++ reason ++
    "; inspect root_path/include_extensions/include_globs/max_depth and retry if this was unexpected"

def SourceSetCall.receipt (call : SourceSetCall) (rt : Runtime) (s : Scan) (sourceSet : SourceSet)
    (sourceSetRef : String) : Receipt :=
  let reason := call.zeroMatchReason s
  ⟨"source_set.create", rt.jobId, rt.pid, "success",
    .obj [("source_set_ref", .str sourceSetRef), ("source_set_id", .str sourceSet.sourceSetId),
      ("file_count", .num sourceSet.fileCount), ("total_bytes", .num sourceSet.totalBytes),
      ("excluded_count", .num sourceSet.excludedCount), ("scan_diagnostics", diagnosticsJson s.diagnostics reason),
      ("empty_result_actionability", .ofText? (reason.map emptyResultActionability)),
      ("derivation_type", .str "metadata"), ("is_lossless", .bool false), ("source_of_truth", .str "workspace files")]⟩

def createSourceSet (rt : Runtime) (modified : Path → Nat) (call : SourceSetCall) : KernelM Receipt :=
  withCapability rt "source_set.create" do
    let root ← resolvePath rt call.rootPath
    let k ← get
    if ¬ k.disk.exists root then blockedReceipt rt "source_set.create" "source set root does not exist"
    else if ¬ k.disk.isDir root then throw .notADirectory
    else do
      let s := call.scan k.disk modified rt.workspaceRoot root
      let sourceSet := call.sourceSet k.clock s
      let sourceSetRef ← writeBlob rt (sourceSetBlobName sourceSet.sourceSetId)
        (sourceSetJson sourceSet (call.zeroMatchReason s))
      emitReceipt rt (call.receipt rt s sourceSet sourceSetRef)
      pure (call.receipt rt s sourceSet sourceSetRef)

/-! ## what the walk meets -/

/-- a file, or a directory that is too deep -/
inductive Met where
  | file (path : Path)
  | tooDeep (path : Path)

def Met.path : Met → Path
  | .file path => path
  | .tooDeep path => path

def Met.file? : Met → Option Path
  | .file path => some path
  | .tooDeep _ => none

def metIn (t : Disk) : Nat → Path → List Met
  | 0, current => [.tooDeep current]
  | levels + 1, current =>
    ((t.children current).filter (· ≠ runtimeDirName)).flatMap fun name =>
      if t.isDir (current ++ [name]) then metIn t levels (current ++ [name]) else [.file (current ++ [name])]

/-- the files that the walk meets -/
def metFiles (t : Disk) (levels : Nat) (current : Path) : List Path := (metIn t levels current).filterMap Met.file?

section
variable {t : Disk} {modified : Path → Nat} {workspaceRoot current p : Path} {filters : Filters} {levels : Nat}
  {s : Scan}
  {name : String} {m : Met}

/-- what the scan makes of what the walk meets -/
def Filters.meet (filters : Filters) (t : Disk) (modified : Path → Nat) (workspaceRoot : Path) (s : Scan) : Met → Scan
  | .file path => filters.visit s (sourceFile t modified workspaceRoot path)
  | .tooDeep _ => s.skip

theorem collectSourceFiles_eq : collectSourceFiles t modified workspaceRoot filters levels current s =
    (metIn t levels current).foldl (filters.meet t modified workspaceRoot) s := by
  induction levels generalizing current s with
  | zero => rfl
  | succ levels ih =>
    rw [collectSourceFiles, metIn, List.foldl_flatMap]
    refine List.foldl_ext _ _ s fun s name _ => ?_
    by_cases hdir : t.isDir (current ++ [name]) = true
    · simp only [if_pos hdir]
      exact ih
    · simp only [if_neg hdir]
      rfl

theorem mem_readNames (h : name ∈ (t.children current).filter (· ≠ runtimeDirName)) :
    t.entry (current ++ [name]) ≠ none ∧ name ≠ runtimeDirName := by
  obtain ⟨hname, hruntime⟩ := List.mem_filter.mp h
  exact ⟨Tree.mem_children.mp hname, of_decide_eq_true hruntime⟩

theorem readNames_mem (hentry : t.entry (current ++ [name]) ≠ none) (hruntime : name ≠ runtimeDirName) :
    name ∈ (t.children current).filter (· ≠ runtimeDirName) :=
  List.mem_filter.mpr ⟨Tree.mem_children.mpr hentry, decide_eq_true hruntime⟩

/-- a file below a directory that can be read within so many levels, outside the runtime's own directories -/
structure Within (t : Disk) (levels : Nat) (current names : Path) : Prop where
  nonempty : names ≠ []
  depth : names.length ≤ levels
  file : t.isFile (current ++ names) = true
  runtime : runtimeDirName ∉ names

theorem file_of_entry (hentry : t.entry p ≠ none) (hdir : ¬ t.isDir p = true) : t.isFile p = true := by
  rcases h : t.entry p with _ | (bytes | _)
  · exact absurd h hentry
  · exact Tree.isFile_iff.mpr ⟨bytes, h⟩
  · exact absurd (Tree.isDir_iff.mpr h) hdir

theorem not_dir_of_file (h : t.isFile p = true) : ¬ t.isDir p = true := by
  obtain ⟨bytes, hentry⟩ := Tree.isFile_iff.mp h
  rw [Tree.isDir_iff, hentry]
  exact fun hdir => nomatch hdir

/-- **the walk meets** the files within its levels -/
theorem mem_metIn : Met.file p ∈ metIn t levels current ↔ ∃ names, p = current ++ names ∧
    Within t levels current names := by
  induction levels generalizing current with
  | zero =>
    constructor
    · intro h
      cases List.mem_singleton.mp h
    · rintro ⟨names, -, h⟩
      exact absurd (List.length_eq_zero_iff.mp (Nat.le_zero.mp h.depth)) h.nonempty
  | succ levels ih =>
    rw [metIn, List.mem_flatMap]
    constructor
    · rintro ⟨name, hname, hp⟩
      obtain ⟨hentry, hruntime⟩ := mem_readNames hname
      by_cases hdir : t.isDir (current ++ [name]) = true
      · rw [if_pos hdir] at hp
        obtain ⟨names, rfl, hwithin⟩ := ih.mp hp
        have hpath : current ++ [name] ++ names = current ++ name :: names := List.append_cons .. |>.symm
        refine ⟨name :: names, hpath, List.cons_ne_nil _ _, Nat.succ_le_succ hwithin.depth, hpath ▸ hwithin.file, ?_⟩
        exact List.not_mem_cons_of_ne_of_not_mem (Ne.symm hruntime) hwithin.runtime
      · rw [if_neg hdir] at hp
        obtain rfl := Met.file.inj (List.mem_singleton.mp hp)
        refine ⟨[name], rfl, List.cons_ne_nil _ _, Nat.succ_le_succ (Nat.zero_le _), file_of_entry hentry hdir, ?_⟩
        exact List.not_mem_cons_of_ne_of_not_mem (Ne.symm hruntime) List.not_mem_nil
    · rintro ⟨names, rfl, hwithin⟩
      obtain ⟨name, rest, rfl⟩ := List.exists_cons_of_ne_nil hwithin.nonempty
      obtain ⟨bytes, hfile⟩ := Tree.isFile_iff.mp hwithin.file
      obtain ⟨hruntime, hrest⟩ := List.ne_and_not_mem_of_not_mem_cons hwithin.runtime
      cases rest with
      | nil =>
        refine ⟨name, readNames_mem (by rw [hfile]; exact Option.some_ne_none _) hruntime.symm, ?_⟩
        rw [if_neg (not_dir_of_file hwithin.file)]
        exact List.mem_singleton_self _
      | cons next rest =>
        have hpath : current ++ name :: next :: rest = current ++ [name] ++ next :: rest := List.append_cons ..
        have hdir : t.entry (current ++ [name]) = some .dir := by
          refine t.dir_above next rest ?_
          rw [← hpath, hfile]
          exact Option.some_ne_none _
        refine ⟨name, readNames_mem (by rw [hdir]; exact Option.some_ne_none _) hruntime.symm, ?_⟩
        rw [if_pos (Tree.isDir_iff.mpr hdir)]
        refine ih.mpr ⟨next :: rest, hpath, List.cons_ne_nil _ _, Nat.le_of_succ_le_succ hwithin.depth, ?_, hrest⟩
        rw [← hpath]
        exact hwithin.file

theorem prefix_of_mem_metIn (h : m ∈ metIn t levels current) : current <+: m.path := by
  induction levels generalizing current with
  | zero =>
    obtain rfl := List.mem_singleton.mp h
    exact List.prefix_rfl
  | succ levels ih =>
    obtain ⟨name, -, hm⟩ := List.mem_flatMap.mp h
    refine (List.prefix_append current [name]).trans ?_
    split at hm
    · exact ih hm
    · obtain rfl := List.mem_singleton.mp hm
      exact List.prefix_rfl

theorem nodup_metIn : (metIn t levels current).Nodup := by
  induction levels generalizing current with
  | zero => exact List.nodup_singleton _
  | succ levels ih =>
    refine List.nodup_flatMap.mpr ⟨fun name _ => ?_, ?_⟩
    · split
      · exact ih
      · exact List.nodup_singleton _
    · refine ((t.nodup_children current).filter _).imp fun {a b} hne m ha hb => hne ?_
      have hbegins (name : String) (hm : m ∈ if t.isDir (current ++ [name]) then metIn t levels (current ++ [name])
          else [.file (current ++ [name])]) : current ++ [name] <+: m.path := by
        split at hm
        · exact prefix_of_mem_metIn hm
        · obtain rfl := List.mem_singleton.mp hm
          exact List.prefix_rfl
      have hsame := List.prefix_of_prefix_length_le (hbegins a ha) (hbegins b hb) (by simp)
      have hpaths := hsame.eq_of_length (by simp)
      exact (List.cons.inj (List.append_cancel_left hpaths)).1

theorem mem_metFiles : p ∈ metFiles t levels current ↔ ∃ names, p = current ++ names ∧
    Within t levels current names := by
  rw [← mem_metIn, metFiles, List.mem_filterMap]
  constructor
  · rintro ⟨m, hm, hp⟩
    cases m with
    | file path =>
      obtain rfl := Option.some.inj hp
      exact hm
    | tooDeep path => cases hp
  · exact fun h => ⟨_, h, rfl⟩

theorem nodup_metFiles : (metFiles t levels current).Nodup := by
  refine nodup_metIn.filterMap ?_
  rintro (a | a) (b | b) p ha hb
  · exact congrArg Met.file ((Option.some.inj ha).trans (Option.some.inj hb).symm)
  · cases hb
  · cases ha
  · cases ha

end

/-! ## what the filters make of the files -/

inductive Verdict where
  | excluded
  | extension
  | notIncluded
  | listed
  deriving DecidableEq

namespace Filters

variable (filters : Filters) (file : SourceSetFile)

/-- which filter stops a file -/
def verdict : Verdict :=
  if filters.excludeGlobs.any (globLikeMatch file.path) then .excluded
  else if filters.includeExtensions ≠ [] ∧ file.extension ∉ filters.includeExtensions then .extension
  else if filters.includeGlobs ≠ [] ∧ ¬ filters.includeGlobs.any (globLikeMatch file.path) then .notIncluded
  else .listed

/-- no filter stops the file -/
structure Passes : Prop where
  notExcluded : ∀ pattern ∈ filters.excludeGlobs, ¬ globLikeMatch file.path pattern
  extension : filters.includeExtensions = [] ∨ file.extension ∈ filters.includeExtensions
  included : filters.includeGlobs = [] ∨ ∃ pattern ∈ filters.includeGlobs, globLikeMatch file.path pattern

end Filters

section
variable {filters : Filters} {file : SourceSetFile} {files : List SourceSetFile} {s : Scan}

theorem verdict_eq_listed : filters.verdict file = .listed ↔ filters.Passes file := by
  rw [Filters.verdict]
  constructor
  · intro h
    split at h
    · cases h
    split at h
    · cases h
    split at h
    · cases h
    next hexclude hextension hinclude =>
    refine ⟨fun pattern hpattern hmatch => hexclude (List.any_eq_true.mpr ⟨pattern, hpattern, hmatch⟩), ?_, ?_⟩
    · exact (not_and_or.mp hextension).imp not_not.mp not_not.mp
    · exact (not_and_or.mp hinclude).imp not_not.mp fun h => List.any_eq_true.mp (not_not.mp h)
  · intro h
    rw [if_neg, if_neg, if_neg]
    · exact fun hinclude => h.included.elim hinclude.1 fun hany => hinclude.2 (List.any_eq_true.mpr hany)
    · exact fun hextension => h.extension.elim hextension.1 hextension.2
    · intro hany
      obtain ⟨pattern, hpattern, hmatch⟩ := List.any_eq_true.mp hany
      exact h.notExcluded pattern hpattern hmatch

/-- how many files of a list each filter stops -/
structure Counted (filters : Filters) (files : List SourceSetFile) (tooDeep : Nat) (s s' : Scan) : Prop where
  listed : s'.files = s.files ++ files.filter fun file => filters.verdict file = .listed
  scanned : s'.diagnostics.scannedFileCount = s.diagnostics.scannedFileCount + files.length
  excluded : s'.diagnostics.excludedByExplicitExclude = s.diagnostics.excludedByExplicitExclude +
    files.countP fun file => filters.verdict file = .excluded
  extension : s'.diagnostics.excludedByExtension = s.diagnostics.excludedByExtension +
    files.countP fun file => filters.verdict file = .extension
  notIncluded : s'.diagnostics.excludedByIncludeGlob = s.diagnostics.excludedByIncludeGlob +
    files.countP fun file => filters.verdict file = .notIncluded
  skipped : s'.diagnostics.skippedByDepth = s.diagnostics.skippedByDepth + tooDeep

theorem counted_visit : Counted filters [file] 0 s (filters.visit s file) := by
  by_cases hexclude : filters.excludeGlobs.any (globLikeMatch file.path) = true
  · have hverdict : filters.verdict file = .excluded := if_pos hexclude
    rw [Filters.visit, if_pos hexclude]
    constructor <;> simp [hverdict]
  by_cases hextension : filters.includeExtensions ≠ [] ∧ file.extension ∉ filters.includeExtensions
  · have hverdict : filters.verdict file = .extension := (if_neg hexclude).trans (if_pos hextension)
    rw [Filters.visit, if_neg hexclude, if_pos hextension]
    constructor <;> simp [hverdict]
  by_cases hinclude : filters.includeGlobs ≠ [] ∧ ¬ filters.includeGlobs.any (globLikeMatch file.path) = true
  · have hverdict : filters.verdict file = .notIncluded :=
      (if_neg hexclude).trans ((if_neg hextension).trans (if_pos hinclude))
    rw [Filters.visit, if_neg hexclude, if_neg hextension, if_pos hinclude]
    constructor <;> simp [hverdict]
  · have hverdict : filters.verdict file = .listed :=
      (if_neg hexclude).trans ((if_neg hextension).trans (if_neg hinclude))
    rw [Filters.visit, if_neg hexclude, if_neg hextension, if_neg hinclude]
    constructor <;> simp [hverdict]

theorem counted_skip : Counted filters [] 1 s s.skip := by
  constructor <;> simp [Scan.skip]

theorem Counted.trans {files' : List SourceSetFile} {n n' : Nat} {s' s'' : Scan} (h : Counted filters files n s s')
    (h' : Counted filters files' n' s' s'') : Counted filters (files ++ files') (n + n') s s'' where
  listed := by rw [h'.listed, h.listed, List.filter_append, List.append_assoc]
  scanned := by rw [h'.scanned, h.scanned, List.length_append, Nat.add_assoc]
  excluded := by rw [h'.excluded, h.excluded, List.countP_append, Nat.add_assoc]
  extension := by rw [h'.extension, h.extension, List.countP_append, Nat.add_assoc]
  notIncluded := by rw [h'.notIncluded, h.notIncluded, List.countP_append, Nat.add_assoc]
  skipped := by rw [h'.skipped, h.skipped, Nat.add_assoc]

theorem counted_meets {t : Disk} {modified : Path → Nat} {workspaceRoot : Path} (met : List Met) (s : Scan) :
    Counted filters ((met.filterMap Met.file?).map (sourceFile t modified workspaceRoot))
      (met.countP fun m => m.file?.isNone) s (met.foldl (filters.meet t modified workspaceRoot) s) := by
  induction met generalizing s with
  | nil => constructor <;> simp
  | cons m met ih =>
    cases m with
    | file path =>
      have h := counted_visit.trans (ih (filters.visit s (sourceFile t modified workspaceRoot path)))
      rwa [Nat.zero_add] at h
    | tooDeep path =>
      rw [List.countP_cons_of_pos rfl, Nat.add_comm]
      exact counted_skip.trans (ih s.skip)

theorem length_eq_verdicts (filters : Filters) (files : List SourceSetFile) : files.length =
    (files.filter fun file => filters.verdict file = .listed).length +
      ((files.countP fun file => filters.verdict file = .excluded) +
        (files.countP fun file => filters.verdict file = .extension) +
        files.countP fun file => filters.verdict file = .notIncluded) := by
  induction files with
  | nil => rfl
  | cons file files ih =>
    rw [List.length_cons, ih]
    cases hverdict : filters.verdict file <;> simp [hverdict] <;> omega

end

/-! ## what a source set lists -/

/-- a file below the root that is to be listed: its directory is at most so deep, no name on the way is that of the
runtime's own directory, and the filters let it pass -/
def Selected (t : Disk) (modified : Path → Nat) (workspaceRoot root : Path) (filters : Filters) (maxDepth : Nat)
    (p : Path) : Prop :=
  ∃ names, p = root ++ names ∧ Within t (maxDepth + 1) root names ∧
    filters.Passes (sourceFile t modified workspaceRoot p)

/-- the source set lists the selected files, each once, in the order of their paths, and its counters add up -/
structure Lists (t : Disk) (modified : Path → Nat) (workspaceRoot root : Path) (filters : Filters) (maxDepth : Nat)
    (sourceSet : SourceSet) : Prop where
  files : ∃ paths : List Path, paths.Nodup ∧
    (∀ p, p ∈ paths ↔ Selected t modified workspaceRoot root filters maxDepth p) ∧
    sourceSet.files.Perm (paths.map (sourceFile t modified workspaceRoot))
  sorted : sourceSet.files.Pairwise fun a b => a.path ≤ b.path
  fileCount : sourceSet.fileCount = sourceSet.files.length
  scanned : sourceSet.scanDiagnostics.scannedFileCount = sourceSet.files.length +
    (sourceSet.scanDiagnostics.excludedByExplicitExclude + sourceSet.scanDiagnostics.excludedByExtension +
      sourceSet.scanDiagnostics.excludedByIncludeGlob)
  excludedCount : sourceSet.excludedCount = sourceSet.scanDiagnostics.excludedByExplicitExclude +
    sourceSet.scanDiagnostics.excludedByExtension + sourceSet.scanDiagnostics.excludedByIncludeGlob

section
variable {t : Disk} {modified : Path → Nat} {workspaceRoot root : Path} {call : SourceSetCall} {now : Nat}

theorem counted_scan : Counted call.filters
    ((metFiles t (call.maxDepth + 1) root).map (sourceFile t modified workspaceRoot))
    ((metIn t (call.maxDepth + 1) root).countP fun m => m.file?.isNone) .start
    (call.scan t modified workspaceRoot root) := by
  rw [SourceSetCall.scan, collectSourceFiles_eq]
  exact counted_meets _ _

theorem pairwise_sorted (files : List SourceSetFile) :
    (files.insertionSort fun left right => left.path ≤ right.path).Pairwise fun a b => a.path ≤ b.path :=
  have : Std.Total fun left right : SourceSetFile => left.path ≤ right.path := ⟨fun _ _ => le_total _ _⟩
  have : IsTrans SourceSetFile fun left right => left.path ≤ right.path := ⟨fun _ _ _ => le_trans⟩
  List.pairwise_insertionSort _ files

/-- **the source set of a scan** -/
theorem lists_scan (call : SourceSetCall) (now : Nat) : Lists t modified workspaceRoot root call.filters call.maxDepth
    (call.sourceSet now (call.scan t modified workspaceRoot root)) where
  files := by
    refine ⟨(metFiles t (call.maxDepth + 1) root).filter fun p =>
      call.filters.verdict (sourceFile t modified workspaceRoot p) = .listed, nodup_metFiles.filter _, fun p => ?_, ?_⟩
    · rw [List.mem_filter, mem_metFiles, decide_eq_true_iff, verdict_eq_listed]
      constructor
      · rintro ⟨⟨names, hp, hwithin⟩, hpasses⟩
        exact ⟨names, hp, hwithin, hpasses⟩
      · rintro ⟨names, hp, hwithin, hpasses⟩
        exact ⟨⟨names, hp, hwithin⟩, hpasses⟩
    · refine (List.perm_insertionSort _ _).trans (List.Perm.of_eq ?_)
      rw [counted_scan.listed, List.filter_map]
      rfl
  sorted := pairwise_sorted _
  fileCount := (List.perm_insertionSort _ _).length_eq.symm
  scanned := by
    have h : Counted call.filters ((metFiles t (call.maxDepth + 1) root).map (sourceFile t modified workspaceRoot))
        ((metIn t (call.maxDepth + 1) root).countP fun m => m.file?.isNone) .start
        (call.scan t modified workspaceRoot root) := counted_scan
    have hverdicts := length_eq_verdicts call.filters
      ((metFiles t (call.maxDepth + 1) root).map (sourceFile t modified workspaceRoot))
    simp only [SourceSetCall.sourceSet]
    rw [(List.perm_insertionSort _ _).length_eq, h.listed, h.scanned, h.excluded, h.extension, h.notIncluded, hverdicts]
    simp only [Scan.start, List.nil_append, Nat.zero_add]
  excludedCount := rfl

theorem ofJson_toJson (file : SourceSetFile) : SourceSetFile.ofJson file.toJson = some file := rfl

theorem mapM_toJson (files : List SourceSetFile) :
    (files.map SourceSetFile.toJson).mapM SourceSetFile.ofJson = some files := by
  induction files with
  | nil => rfl
  | cons file files ih => rw [List.map_cons, List.mapM_cons, ofJson_toJson, ih]; rfl

theorem mapM_asStr (texts : List String) : (texts.map Json.str).mapM Json.asStr? = some texts := by
  induction texts with
  | nil => rfl
  | cons text texts ih => rw [List.map_cons, List.mapM_cons, ih]; rfl

theorem ofJson_sourceSetJson (s : SourceSet) (reason : Option String) :
    SourceSet.ofJson (sourceSetJson s reason) = some s := by
  have hextensions : listAt? (sourceSetJson s reason) "include_extensions" Json.asStr? = some s.includeExtensions :=
    mapM_asStr _
  have hinclude : listAt? (sourceSetJson s reason) "include_globs" Json.asStr? = some s.includeGlobs := mapM_asStr _
  have hexclude : listAt? (sourceSetJson s reason) "exclude_globs" Json.asStr? = some s.excludeGlobs := mapM_asStr _
  have hfiles : sourceSetFiles (sourceSetJson s reason) = some s.files := mapM_toJson _
  rw [Package.SourceSet.ofJson, hextensions, hinclude, hexclude, hfiles]
  rfl

end

/-- the blob of the source set that a call stores -/
def storedSourceSet (rt : Runtime) (k : Kernel) (sourceSetRef : String) : Option SourceSet :=
  match readBlob rt sourceSetRef k with
  | .ok v => SourceSet.ofJson v
  | .error _ => none

section
variable {rt : Runtime} {k k' : Kernel} {call : SourceSetCall} {root : Path} {modified : Path → Nat}

theorem emitReceipt_total (rt : Runtime) (r : Receipt) (k : Kernel) : ∃ k', Ok (emitReceipt rt r) k () k' := by
  unfold emitReceipt emitEvent
  split
  · exact ⟨_, rfl⟩
  · exact ⟨k, rfl⟩

theorem store_total (rt : Runtime) (k : Kernel) (name : String) (content : Json) (receipt : String → Receipt) :
    ∃ k', k'.blobs name = some content ∧ Ok (do
      let ref ← writeBlob rt name content
      emitReceipt rt (receipt ref)
      pure (receipt ref)) k (receipt (blobRef rt name)) k' := by
  let written : Kernel := { k with blobs := Function.update k.blobs name (some content) }
  have hwrite : Ok (writeBlob rt name content) k (blobRef rt name) written := rfl
  obtain ⟨k', hemit⟩ := emitReceipt_total rt (receipt (blobRef rt name)) written
  refine ⟨k', ?_, bind_ok.mpr ⟨blobRef rt name, written, hwrite, bind_ok.mpr ⟨(), k', hemit, rfl⟩⟩⟩
  rw [(emitReceipt_ok hemit).2]
  exact Function.update_self ..

theorem storedSourceSet_of_written {s : SourceSet} {reason : Option String}
    (hblob : k'.blobs (sourceSetBlobName s.sourceSetId) = some (sourceSetJson s reason)) :
    storedSourceSet rt k' (blobRef rt (sourceSetBlobName s.sourceSetId)) = some s := by
  have hname : sourceSetBlobName s.sourceSetId = "source_sets" ++ "/" ++ (safeBlobName s.sourceSetId ++ ".json") := by
    rw [sourceSetBlobName, ← String.append_assoc]
    rfl
  have hresolve : resolveBlobRef rt (blobRef rt ("source_sets" ++ "/" ++ (safeBlobName s.sourceSetId ++ ".json"))) =
      .ok ("source_sets" ++ "/" ++ (safeBlobName s.sourceSetId ++ ".json")) :=
    resolveBlobRef_json (by decide) (by decide) (safeName_safeBlobName _)
  rw [storedSourceSet, readBlob, hname, hresolve]
  rw [hname] at hblob
  simp only [hblob]
  exact ofJson_sourceSetJson s reason

/-- **what `source_set.create` lists**: it succeeds on a directory, and stores a source set that lists what it should -/
theorem createSourceSet_lists (hcap : "source_set.create" ∈ rt.capabilities)
    (hroot : resolveWorkspacePath rt.workspaceRoot (pathArgument call.rootPath) = .ok root)
    (hdir : k.disk.isDir root = true) : ∃ r k' sourceSetRef sourceSet,
      Ok (createSourceSet rt modified call) k r k' ∧ r.status = "success" ∧
      r.data.get? "source_set_ref" = some (.str sourceSetRef) ∧
      storedSourceSet rt k' sourceSetRef = some sourceSet ∧
      Lists k.disk modified rt.workspaceRoot root call.filters call.maxDepth sourceSet := by
  have hexists : k.disk.exists root = true := by
    rw [Tree.exists_iff, Tree.isDir_iff.mp hdir]
    exact Option.some_ne_none _
  have hresolve : Ok (resolvePath rt call.rootPath) k root k := resolvePath_ok.mpr ⟨hroot, rfl⟩
  generalize hs : call.scan k.disk modified rt.workspaceRoot root = s
  obtain ⟨k', hblob, hstore⟩ := store_total rt k (sourceSetBlobName (call.sourceSet k.clock s).sourceSetId)
    (sourceSetJson (call.sourceSet k.clock s) (call.zeroMatchReason s)) (call.receipt rt s (call.sourceSet k.clock s))
  refine ⟨call.receipt rt s (call.sourceSet k.clock s) _, k', _, call.sourceSet k.clock s, ?_, rfl, rfl,
    storedSourceSet_of_written hblob, hs ▸ lists_scan call k.clock⟩
  rw [createSourceSet, withCapability_of_mem hcap]
  refine bind_ok.mpr ⟨root, k, hresolve, bind_ok.mpr ⟨k, k, rfl, ?_⟩⟩
  rw [if_neg (not_not.mpr hexists), if_neg (not_not.mpr hdir), hs]
  exact hstore

end

/-! ## a source set of a small workspace -/

/-- a workspace with one file, and a log of the runtime -/
def smallDisk : Disk :=
  (((Tree.empty : Disk).mkdirs ["ws", ".supernova_v2"]).put ["ws", ".supernova_v2", "log.md"] [1] (by decide)
    (by decide +kernel) (by decide +kernel)).put ["ws", "a.md"] [1, 2] (by decide) (by decide +kernel)
    (by decide +kernel)

def smallKernel : Kernel := ⟨smallDisk, fun _ => none, [], [], 7, 0⟩

def smallRuntime : Runtime := ⟨["ws"], ["ws", ".supernova_v2"], "job", "pid", ["source_set.create"], true⟩

/-- all files -/
def smallCall : SourceSetCall := ⟨".", [], [], [], 8⟩

theorem createSourceSet_lists_small : ∃ r k' sourceSetRef sourceSet,
    Ok (createSourceSet smallRuntime (fun _ => 0) smallCall) smallKernel r k' ∧ r.status = "success" ∧
    r.data.get? "source_set_ref" = some (.str sourceSetRef) ∧
    storedSourceSet smallRuntime k' sourceSetRef = some sourceSet ∧
    Lists smallDisk (fun _ => 0) ["ws"] ["ws"] smallCall.filters 8 sourceSet :=
  createSourceSet_lists (k := smallKernel) (by decide) (by decide +kernel) (by decide +kernel)

/-- a file of the runtime's own directory is not listed, whatever the filters -/
theorem runtime_file_missing : ¬ ∀ (t : Disk) (modified : Path → Nat) (workspaceRoot root names : Path)
    (call : SourceSetCall) (now : Nat), names ≠ [] → names.length ≤ call.maxDepth + 1 →
      t.isFile (root ++ names) = true →
      call.filters.Passes (sourceFile t modified workspaceRoot (root ++ names)) →
      relPath workspaceRoot (root ++ names) ∈
        (call.sourceSet now (call.scan t modified workspaceRoot root)).files.map SourceSetFile.path := by
  intro h
  have hlisted := h smallDisk (fun _ => 0) ["ws"] ["ws"] [".supernova_v2", "log.md"] smallCall 0 (by decide) (by decide)
    (by decide +kernel) ⟨fun pattern hpattern => absurd hpattern List.not_mem_nil, Or.inl (by decide), Or.inl rfl⟩
  exact absurd hlisted (by decide +kernel)

end Data

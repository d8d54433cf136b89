import Mathlib.Data.Prod.Lex
import SuperNova.Data.SourceSets
import SuperNova.Lib.Grouped
import SuperNova.Os.Fingerprint

/-!
# Duplicates in a source set

`workspace.find_duplicates` puts files of one size and one fingerprint in a group, and reports the groups with two files
or more.

* `findDuplicates`: the call;
* `Collides`: two contents that share size and fingerprint without being the same;
* `findDuplicates_groups` (**main**): which paths share a group, and that these are the ones with one content exactly when
  no two listed files collide.
-/

set_option linter.unusedSectionVars false

namespace Data

open Io FileTree Workspace Os Text
open Package (SourceSet ScanDiagnostics)

/-! ## the call -/

/-- the size and the fingerprint of a file -/
abbrev DuplicateKey := Nat ×ₗ String

structure DuplicateGroup where
  sizeBytes : Nat
  fingerprint : String
  paths : List String

def DuplicateGroup.recommendedKeep (g : DuplicateGroup) : String := g.paths.min?.getD ""

def DuplicateGroup.toJson (g : DuplicateGroup) : Json :=
  .obj [("fingerprint", .str g.fingerprint), ("fingerprint_algorithm", .str "fnv1a64"),
    ("size_bytes", .num g.sizeBytes), ("duplicate_count", .num g.paths.length), ("paths", .arr (g.paths.map .str)),
    ("recommended_keep", .str g.recommendedKeep), ("reason", .str "same size and same file fingerprint")]

/-- the files of a source set under their sizes and fingerprints -/
def groupFiles (rt : Runtime) : List SourceSetFile → Table DuplicateKey (List SourceSetFile) →
    KernelM (Table DuplicateKey (List SourceSetFile))
  | [], groups => pure groups
  | file :: rest, groups => do
    let path ← resolvePath rt file.path
    let fingerprint ← onDisk (fileFingerprint path)
    groupFiles rt rest (groups.push (toLex (file.sizeBytes, fingerprint)) file)

/-- a group is reported when it has two files -/
def duplicateGroup? (entry : DuplicateKey × List SourceSetFile) : Option DuplicateGroup :=
  if entry.2.length < 2 then none
  else some ⟨(ofLex entry.1).1, (ofLex entry.1).2, entry.2.map SourceSetFile.path⟩

def duplicateGroups (groups : Table DuplicateKey (List SourceSetFile)) : List DuplicateGroup :=
  groups.entries.filterMap duplicateGroup?

def duplicatesDataset (sourceSetRef : String) (sourceSet : SourceSet) (groups : List DuplicateGroup) (now : Nat) :
    DataSet :=
  newDataset "duplicate_groups" (some sourceSetRef) "metadata" (groups.map DuplicateGroup.toJson)
    (.obj [("source_count", .num sourceSet.fileCount), ("covered_count", .num sourceSet.fileCount),
      ("coverage_ratio", .real "1.0")]) now

def duplicatesReceipt (rt : Runtime) (sourceSetRef : String) (sourceSet : SourceSet) (dataset : DataSet)
    (datasetRef : String) : Receipt :=
  ⟨"workspace.find_duplicates", rt.jobId, rt.pid, "success",
    .obj [("source_set_ref", .str sourceSetRef), ("dataset_ref", .str datasetRef),
      ("duplicate_group_count", .num dataset.rowCount), ("source_count", .num sourceSet.fileCount)]⟩

def findDuplicates (rt : Runtime) (sourceSetRef : String) : KernelM Receipt :=
  withCapability rt "workspace.find_duplicates" do
    let sourceSet ← readParsed rt SourceSet.ofJson sourceSetRef
    let groups ← groupFiles rt sourceSet.files .empty
    let k ← get
    let dataset := duplicatesDataset sourceSetRef sourceSet (duplicateGroups groups) k.clock
    let datasetRef ← writeBlob rt (datasetBlobName dataset) dataset.toJson
    emitReceipt rt (duplicatesReceipt rt sourceSetRef sourceSet dataset datasetRef)
    pure (duplicatesReceipt rt sourceSetRef sourceSet dataset datasetRef)

/-! ## what the groups say -/

/-- the content of the file that a listed path leads to -/
def contentOf (rt : Runtime) (disk : Disk) (path : String) : Option Bytes :=
  match resolveWorkspacePath rt.workspaceRoot (pathArgument path) with
  | .ok p => disk.fileAt p
  | .error _ => none

/-- the listed files are there, and as large as they were -/
def Unchanged (rt : Runtime) (disk : Disk) (files : List SourceSetFile) : Prop :=
  ∀ file ∈ files, ∃ bytes, contentOf rt disk file.path = some bytes ∧ bytes.length = file.sizeBytes

/-- two paths stand in one group -/
def Grouped (groups : List DuplicateGroup) (p q : String) : Prop := ∃ g ∈ groups, p ∈ g.paths ∧ q ∈ g.paths

/-- two contents of one size and one fingerprint -/
def SamePrint (a b : Bytes) : Prop := a.length = b.length ∧ fingerprintOf a = fingerprintOf b

/-- two contents that only look the same -/
def Collides (a b : Bytes) : Prop := SamePrint a b ∧ a ≠ b

section
variable {rt : Runtime} {k k' : Kernel} {files : List SourceSetFile} {file : SourceSetFile} {p q : String} {a b : Bytes}

/-- what a file is grouped by -/
def duplicateKey (rt : Runtime) (disk : Disk) (file : SourceSetFile) : DuplicateKey :=
  toLex (file.sizeBytes, fingerprintOf ((contentOf rt disk file.path).getD []))

theorem duplicateKey_eq (h : contentOf rt k.disk file.path = some a) (hsize : a.length = file.sizeBytes) :
    duplicateKey rt k.disk file = toLex (a.length, fingerprintOf a) := by
  rw [duplicateKey, h, hsize]
  rfl

theorem contentOf_eq_some (h : contentOf rt k.disk p = some a) :
    ∃ path, Ok (resolvePath rt p) k path k ∧ k.disk.entry path = some (.file a) := by
  unfold contentOf at h
  split at h
  next path hpath => exact ⟨path, Os.resolvePath_ok.mpr ⟨hpath, rfl⟩, Tree.fileAt_eq_some.mp h⟩
  next => cases h

theorem groupFiles_ok (h : Unchanged rt k.disk files) (groups : Table DuplicateKey (List SourceSetFile)) :
    Ok (groupFiles rt files groups) k
      (files.foldl (fun t file => t.push (duplicateKey rt k.disk file) file) groups) k := by
  induction files generalizing groups with
  | nil => rfl
  | cons file files ih =>
    obtain ⟨bytes, hcontent, hsize⟩ := h file List.mem_cons_self
    obtain ⟨path, hresolve, hentry⟩ := contentOf_eq_some hcontent
    have hprint : Ok (onDisk (fileFingerprint path)) k (fingerprintOf bytes) k := by
      refine onDisk_ok.mpr ⟨k.disk, ?_, rfl⟩
      exact bind_ok.mpr ⟨bytes, k.disk, read_ok.mpr ⟨hentry, rfl⟩, rfl⟩
    have hkey : toLex (file.sizeBytes, fingerprintOf bytes) = duplicateKey rt k.disk file := by
      rw [duplicateKey_eq hcontent hsize, hsize]
    rw [groupFiles, List.foldl_cons, ← hkey]
    refine bind_ok.mpr ⟨path, k, hresolve, bind_ok.mpr ⟨_, k, hprint, ?_⟩⟩
    exact ih (fun file hfile => h file (List.mem_cons_of_mem _ hfile)) _

/-- the groups that are reported for files that did not change -/
def groupsOf (rt : Runtime) (disk : Disk) (files : List SourceSetFile) : List DuplicateGroup :=
  duplicateGroups (Table.grouped (duplicateKey rt disk) files)

theorem mem_groupsOf {g : DuplicateGroup} (h : g ∈ groupsOf rt k.disk files) :
    ∃ key group, (key, group) ∈ (Table.grouped (duplicateKey rt k.disk) files).entries ∧ 2 ≤ group.length ∧
      g.paths = group.map SourceSetFile.path := by
  obtain ⟨⟨key, group⟩, hentry, hg⟩ := List.mem_filterMap.mp h
  unfold duplicateGroup? at hg
  split at hg
  · cases hg
  next hlong =>
    obtain rfl := Option.some.inj hg
    exact ⟨key, group, hentry, Nat.le_of_not_lt hlong, rfl⟩

theorem two_le_length {α : Type} {l : List α} {x y : α} (hx : x ∈ l) (hy : y ∈ l) (hne : x ≠ y) : 2 ≤ l.length := by
  rcases l with _ | ⟨u, _ | ⟨v, l⟩⟩
  · exact absurd hx List.not_mem_nil
  · exact absurd ((List.mem_singleton.mp hx).trans (List.mem_singleton.mp hy).symm) hne
  · exact Nat.le_add_left 2 l.length

/-- **two listed paths share a group** when their files have one size and one fingerprint -/
theorem grouped_iff (h : Unchanged rt k.disk files) (hne : p ≠ q) (hp : p ∈ files.map SourceSetFile.path)
    (hq : q ∈ files.map SourceSetFile.path) (ha : contentOf rt k.disk p = some a)
    (hb : contentOf rt k.disk q = some b) : Grouped (groupsOf rt k.disk files) p q ↔ SamePrint a b := by
  have hkeyOf {file : SourceSetFile} {bytes : Bytes} (hfile : file ∈ files)
      (hcontent : contentOf rt k.disk file.path = some bytes) :
      duplicateKey rt k.disk file = toLex (bytes.length, fingerprintOf bytes) := by
    obtain ⟨bytes', hcontent', hsize⟩ := h file hfile
    obtain rfl := Option.some.inj (hcontent.symm.trans hcontent')
    exact duplicateKey_eq hcontent hsize
  have hsame {file file' : SourceSetFile} (hfile : file ∈ files) (hfile' : file' ∈ files) (hpath : file.path = p)
      (hpath' : file'.path = q) : duplicateKey rt k.disk file = duplicateKey rt k.disk file' ↔ SamePrint a b := by
    rw [hkeyOf hfile (hpath ▸ ha), hkeyOf hfile' (hpath' ▸ hb), toLex.apply_eq_iff_eq, Prod.mk.injEq, SamePrint]
  constructor
  · rintro ⟨g, hg, hgp, hgq⟩
    obtain ⟨key, group, hentry, -, hpaths⟩ := mem_groupsOf hg
    rw [hpaths] at hgp hgq
    obtain ⟨file, hfile, hpath⟩ := List.mem_map.mp hgp
    obtain ⟨file', hfile', hpath'⟩ := List.mem_map.mp hgq
    have hmem {file : SourceSetFile} (hfile : file ∈ group) : file ∈ files := by
      rw [(Table.mem_grouped.mp hentry).1] at hfile
      exact (List.mem_filter.mp hfile).1
    refine (hsame (hmem hfile) (hmem hfile') hpath hpath').mp ?_
    exact (Table.mem_group_iff (hmem hfile) (hmem hfile')).mp ⟨_, hentry, hfile, hfile'⟩
  · intro hprint
    obtain ⟨file, hfile, hpath⟩ := List.mem_map.mp hp
    obtain ⟨file', hfile', hpath'⟩ := List.mem_map.mp hq
    obtain ⟨⟨key, group⟩, hentry, hgroup, hgroup'⟩ :=
      (Table.mem_group_iff hfile hfile').mpr ((hsame hfile hfile' hpath hpath').mpr hprint)
    have hlong : 2 ≤ group.length := two_le_length hgroup hgroup' fun hsame => hne (hpath ▸ hpath' ▸ hsame ▸ rfl)
    refine ⟨⟨(ofLex key).1, (ofLex key).2, group.map SourceSetFile.path⟩, List.mem_filterMap.mpr ⟨_, hentry, ?_⟩,
      List.mem_map.mpr ⟨file, hgroup, hpath⟩, List.mem_map.mpr ⟨file', hgroup', hpath'⟩⟩
    exact if_neg (Nat.not_lt.mpr hlong)

theorem recommendedKeep_mem {g : DuplicateGroup} (h : g ∈ groupsOf rt k.disk files) : g.recommendedKeep ∈ g.paths := by
  obtain ⟨key, group, -, hlong, hpaths⟩ := mem_groupsOf h
  have hne : g.paths ≠ [] := by
    rw [hpaths]
    rintro hnil
    rw [List.map_eq_nil_iff.mp hnil] at hlong
    cases hlong
  cases hmin : g.paths.min? with
  | none => exact absurd (List.min?_eq_none_iff.mp hmin) hne
  | some p =>
    rw [DuplicateGroup.recommendedKeep, hmin]
    exact List.min?_mem hmin

/-- the groups that a call reports for files that did not change -/
structure Reports (rt : Runtime) (disk : Disk) (files : List SourceSetFile) (groups : List DuplicateGroup) : Prop where
  kept : ∀ g ∈ groups, g.recommendedKeep ∈ g.paths
  together : ∀ p q a b, p ≠ q → p ∈ files.map SourceSetFile.path → q ∈ files.map SourceSetFile.path →
    contentOf rt disk p = some a → contentOf rt disk q = some b → (Grouped groups p q ↔ SamePrint a b)

theorem reports_groupsOf (h : Unchanged rt k.disk files) : Reports rt k.disk files (groupsOf rt k.disk files) where
  kept _ := recommendedKeep_mem
  together _ _ _ _ := grouped_iff h

/-- two listed paths share a group exactly when their files have the same content -/
def Identical (rt : Runtime) (disk : Disk) (files : List SourceSetFile) (groups : List DuplicateGroup) : Prop :=
  ∀ p q a b, p ≠ q → p ∈ files.map SourceSetFile.path → q ∈ files.map SourceSetFile.path →
    contentOf rt disk p = some a → contentOf rt disk q = some b → (Grouped groups p q ↔ a = b)

/-- no two listed files only look the same -/
def NoCollision (rt : Runtime) (disk : Disk) (files : List SourceSetFile) : Prop :=
  ∀ p q a b, p ∈ files.map SourceSetFile.path → q ∈ files.map SourceSetFile.path →
    contentOf rt disk p = some a → contentOf rt disk q = some b → ¬ Collides a b

theorem identical_iff {groups : List DuplicateGroup} (h : Reports rt k.disk files groups) :
    Identical rt k.disk files groups ↔ NoCollision rt k.disk files := by
  constructor
  · rintro hidentical p q a b hp hq ha hb ⟨hprint, hdiffer⟩
    have hne : p ≠ q := by
      rintro rfl
      exact hdiffer (Option.some.inj (ha.symm.trans hb))
    exact hdiffer ((hidentical p q a b hne hp hq ha hb).mp ((h.together p q a b hne hp hq ha hb).mpr hprint))
  · intro hno p q a b hne hp hq ha hb
    rw [h.together p q a b hne hp hq ha hb]
    constructor
    · intro hprint
      by_contra hdiffer
      exact hno p q a b hp hq ha hb ⟨hprint, hdiffer⟩
    · rintro rfl
      exact ⟨rfl, rfl⟩

/-- what is stored and told of the groups -/
structure Told (rt : Runtime) (r : Receipt) (k' : Kernel) (groups : List DuplicateGroup)
    (dataset : DataSet) : Prop where
  status : r.status = "success"
  ref : r.data.get? "dataset_ref" = some (.str (blobRef rt (datasetBlobName dataset)))
  stored : k'.blobs (datasetBlobName dataset) = some dataset.toJson
  records : dataset.records = groups.map DuplicateGroup.toJson

variable {sourceSet : SourceSet} {sourceSetRef : String}

theorem readSourceSet_ok (h : storedSourceSet rt k sourceSetRef = some sourceSet) :
    Ok (readParsed rt SourceSet.ofJson sourceSetRef) k sourceSet k := by
  unfold storedSourceSet at h
  split at h
  next v hv => exact readParsed_ok.mpr ⟨⟨v, hv, h⟩, rfl⟩
  next => cases h

theorem findDuplicates_ok (hcap : "workspace.find_duplicates" ∈ rt.capabilities)
    (hread : storedSourceSet rt k sourceSetRef = some sourceSet) (h : Unchanged rt k.disk sourceSet.files) :
    ∃ r k' dataset, Ok (findDuplicates rt sourceSetRef) k r k' ∧
      Told rt r k' (groupsOf rt k.disk sourceSet.files) dataset := by
  generalize hdataset : duplicatesDataset sourceSetRef sourceSet (groupsOf rt k.disk sourceSet.files) k.clock = dataset
  have hrecords : dataset.records = (groupsOf rt k.disk sourceSet.files).map DuplicateGroup.toJson := by
    rw [← hdataset]
    rfl
  obtain ⟨k', hblob, hstore⟩ := store_total rt k (datasetBlobName dataset) dataset.toJson
    (duplicatesReceipt rt sourceSetRef sourceSet dataset)
  refine ⟨duplicatesReceipt rt sourceSetRef sourceSet dataset _, k', dataset, ?_, rfl, rfl, hblob, hrecords⟩
  rw [findDuplicates, withCapability_of_mem hcap]
  refine bind_ok.mpr ⟨sourceSet, k, readSourceSet_ok hread, bind_ok.mpr ⟨_, k, groupFiles_ok h .empty, ?_⟩⟩
  refine bind_ok.mpr ⟨k, k, rfl, ?_⟩
  rw [groupsOf, Table.grouped] at hdataset
  rw [hdataset]
  exact hstore

end

/-- **what `workspace.find_duplicates` reports**: two listed paths share a group exactly when their files have one size
and one fingerprint, so that files with the same content always do; and the groups are those of the same content
exactly when no two listed files collide -/
theorem findDuplicates_groups {rt : Runtime} {k : Kernel} {sourceSet : SourceSet} {sourceSetRef : String}
    (hcap : "workspace.find_duplicates" ∈ rt.capabilities)
    (hread : storedSourceSet rt k sourceSetRef = some sourceSet) (h : Unchanged rt k.disk sourceSet.files) :
    ∃ r k' groups dataset, Ok (findDuplicates rt sourceSetRef) k r k' ∧ Told rt r k' groups dataset ∧
      Reports rt k.disk sourceSet.files groups ∧
      (Identical rt k.disk sourceSet.files groups ↔ NoCollision rt k.disk sourceSet.files) := by
  obtain ⟨r, k', dataset, hrun, htold⟩ := findDuplicates_ok hcap hread h
  exact ⟨r, k', _, dataset, hrun, htold, reports_groupsOf h, identical_iff (reports_groupsOf h)⟩

/-! ## two files that collide -/

def twinDisk : Disk :=
  (((Tree.empty : Disk).mkdirs ["ws"]).put ["ws", "a"] (utf8 "8yn0iYCKYHlIj4-BwPqk") (by decide)
    (by decide +kernel) (by decide +kernel)).put ["ws", "b"] (utf8 "GReLUrM4wMqfg9yzV3KQ") (by decide)
    (by decide +kernel) (by decide +kernel)

def twinSet : SourceSet where
  sourceSetId := "s"
  rootPath := "."
  includeExtensions := []
  includeGlobs := []
  excludeGlobs := []
  fileCount := 2
  totalBytes := 40
  files := [⟨"a", "", 20, 0⟩, ⟨"b", "", 20, 0⟩]
  excludedCount := 0
  scanDiagnostics := ⟨2, 0, 0, 0, 0⟩

def twinKernel : Kernel :=
  ⟨twinDisk, Function.update (fun _ => none) (sourceSetBlobName "s") (some (sourceSetJson twinSet none)), [], [], 7, 0⟩

def twinRuntime : Runtime := ⟨["ws"], ["ws", ".supernova_v2"], "job", "pid", ["workspace.find_duplicates"], true⟩

theorem storedSourceSet_twin :
    storedSourceSet twinRuntime twinKernel (blobRef twinRuntime (sourceSetBlobName "s")) = some twinSet := by
  have hblob : Function.update (fun _ => none) (sourceSetBlobName "s") (some (sourceSetJson twinSet none))
      (sourceSetBlobName "s") = some (sourceSetJson twinSet none) := Function.update_self _ _ _
  exact @storedSourceSet_of_written twinRuntime twinKernel twinSet none hblob

theorem unchanged_twin : Unchanged twinRuntime twinDisk twinSet.files := by
  intro file hfile
  rcases List.mem_pair.mp hfile with rfl | rfl
  · exact ⟨utf8 "8yn0iYCKYHlIj4-BwPqk", by decide +kernel, by decide +kernel⟩
  · exact ⟨utf8 "GReLUrM4wMqfg9yzV3KQ", by decide +kernel, by decide +kernel⟩

theorem findDuplicates_groups_twin : ∃ r k' groups dataset,
    Ok (findDuplicates twinRuntime (blobRef twinRuntime (sourceSetBlobName "s"))) twinKernel r k' ∧
    Told twinRuntime r k' groups dataset ∧ Reports twinRuntime twinDisk twinSet.files groups ∧
    (Identical twinRuntime twinDisk twinSet.files groups ↔ NoCollision twinRuntime twinDisk twinSet.files) :=
  findDuplicates_groups (k := twinKernel) (by decide) storedSourceSet_twin unchanged_twin

/-- two files with different contents in one group -/
theorem twins_grouped : ∃ r k' groups dataset,
    Ok (findDuplicates twinRuntime (blobRef twinRuntime (sourceSetBlobName "s"))) twinKernel r k' ∧
    Told twinRuntime r k' groups dataset ∧ Grouped groups "a" "b" ∧
    ¬ Identical twinRuntime twinDisk twinSet.files groups := by
  obtain ⟨r, k', dataset, hrun, htold⟩ := findDuplicates_ok (k := twinKernel) (by decide) storedSourceSet_twin
    unchanged_twin
  have hgrouped : Grouped (groupsOf twinRuntime twinKernel.disk twinSet.files) "a" "b" :=
    (grouped_iff (k := twinKernel) unchanged_twin (by decide) (by decide) (by decide) (a := utf8 "8yn0iYCKYHlIj4-BwPqk")
      (b := utf8 "GReLUrM4wMqfg9yzV3KQ") (by decide +kernel) (by decide +kernel)).mpr
      ⟨by decide +kernel, by decide +kernel⟩
  refine ⟨r, k', _, dataset, hrun, htold, hgrouped, fun hidentical => ?_⟩
  have hsame := (hidentical "a" "b" (utf8 "8yn0iYCKYHlIj4-BwPqk") (utf8 "GReLUrM4wMqfg9yzV3KQ") (by decide) (by decide)
    (by decide) (by decide +kernel) (by decide +kernel)).mp hgrouped
  exact absurd hsame (by decide +kernel)

end Data

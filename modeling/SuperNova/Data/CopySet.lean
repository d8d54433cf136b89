import SuperNova.Data.Organize
import SuperNova.Os.Spared

/-!
# Copying a source set

`copySourceSet` clears the destination, makes it a directory, and copies file after file below it,
each at the path it has below the workspace.

* `copySourceSet_kept`, `copySourceSet_copied`: while no file of the set lies at or below the
  destination, every file of the set is there afterwards, and a success copied them all;
* `copySourceSet_loses`: a file at or below the destination is lost, unless a file outside has the
  same content;
* `copySourceSet_sources` (**main**): both together;
* `copy_into_source_directory`: a destination with a file of the set in it.
-/

set_option linter.unusedSectionVars false

namespace Data

open Paths Io FileTree Workspace Os Text

/-! ## the copy of the code -/

/-- where a path leads from a directory, its `..` followed -/
def walk (base : Path) (names : List String) : Path :=
  names.foldl (fun p name => if name = ".." then p.dropLast else p ++ [name]) base

/-- `create_dir_all` of a path that may have `..` in it: each directory on the way is made -/
def createDirsAlong (base : Path) : List String → DiskM Unit
  | [] => createDirAll base
  | name :: rest =>
    if name = ".." then createDirsAlong base.dropLast rest
    else do
      createDirAll (base ++ [name])
      createDirsAlong (base ++ [name]) rest

/-- a path whose text can only be that of a directory -/
def namesDirectory (path : String) : Bool :=
  (splitOn '/' path).getLast?.any fun name => name ∈ ["", ".", ".."]

/-- one round of the loop of `copy_source_set` -/
def copySourceFile (rt : Runtime) (destinationRoot : Path) (file : SourceSetFile) :
    KernelM Unit := do
  let source ← resolvePath rt file.path
  let names := components file.path
  onDisk (createDirsAlong destinationRoot names.dropLast)
  let k ← get
  if k.disk.isFile source ∧ namesDirectory file.path then throw .isADirectory
  else onDisk (copyPathRecursive source (walk destinationRoot names))

/-- what `copy_source_set` does to the disk: the destination is cleared and made, and the files are
copied one after another -/
def copySourceFiles (rt : Runtime) (destinationRoot : Path) (files : List SourceSetFile) :
    KernelM Unit := do
  onDisk (removeIfExists destinationRoot)
  onDisk (createDirAll destinationRoot)
  files.forM (copySourceFile rt destinationRoot)

def copySourceSet (rt : Runtime) (sourceSetRef destinationDir : String) : KernelM Receipt :=
  withCapability rt "artifact.copy_source_set" do
    let files ← readParsed rt sourceSetFiles sourceSetRef
    let destinationRoot ← resolvePath rt destinationDir
    copySourceFiles rt destinationRoot files
    let receipt : Receipt := ⟨"artifact.copy_source_set", rt.jobId, rt.pid, "success", .obj [
      ("source_set_ref", .str sourceSetRef),
      ("artifact_path", .str (normalizePath destinationDir)),
      ("copied_count", .num files.length),
      ("copied_paths", .arr (files.map fun file => .str file.path))]⟩
    emitReceipt rt receipt
    pure receipt

/-! ## what is promised -/

/-- a file of the set: its path below the workspace, where it is, and its content -/
structure IsSource (rt : Runtime) (sourceSetRef : String) (k : Kernel) (p : Path)
    (content : Bytes) : Prop where
  intro ::
  listed : ∃ v files file, readBlob rt sourceSetRef k = .ok v ∧ sourceSetFiles v = some files ∧
    file ∈ files ∧ resolves rt file.path = .ok p
  isFile : k.disk.fileAt p = some content

/-- every file of the set is there as it was -/
def SourcesKept (rt : Runtime) (sourceSetRef : String) (k k' : Kernel) : Prop :=
  ∀ p content, IsSource rt sourceSetRef k p content → k'.disk.fileAt p = some content

/-- the destination has every file of the set, at its path below the workspace -/
def SourcesCopied (rt : Runtime) (sourceSetRef destinationDir : String) (k k' : Kernel) : Prop :=
  ∃ destination, resolves rt destinationDir = .ok destination ∧
    ∀ p content, IsSource rt sourceSetRef k p content →
      k'.disk.fileAt (destination ++ p.drop rt.workspaceRoot.length) = some content

/-- no file of the set lies at or below the destination, if the copy gets that far -/
def SourcesOutside (rt : Runtime) (sourceSetRef destinationDir : String) (k : Kernel) : Prop :=
  "artifact.copy_source_set" ∈ rt.capabilities →
    ∀ destination, resolves rt destinationDir = .ok destination →
      ∀ p content, IsSource rt sourceSetRef k p content → ¬ destination <+: p

/-! ## where a file is copied to -/

section
variable {rt : Runtime} {root destination p q : Path} {k k' : Kernel} {t t' : Disk}

theorem pushComponents_walk (destination : Path) (names : List String) : ∀ r p,
    pushComponents root (root ++ r) names = .ok p →
      ∃ rel, p = root ++ rel ∧ walk (destination ++ r) names = destination ++ rel := by
  induction names with
  | nil =>
    intro r p h
    cases h
    exact ⟨r, rfl, rfl⟩
  | cons name rest ih =>
    intro r p h
    rw [pushComponents, pushComponent] at h
    by_cases hname : name = ".."
    · rw [if_pos hname] at h
      by_cases hr : r = []
      · rw [hr, List.append_nil, if_pos (Or.inl rfl)] at h
        cases h
      · have hroot : ¬ (root ++ r = root ∨ root ++ r = []) := by
          rintro (e | e)
          · exact hr (List.append_right_eq_self.mp e)
          · exact hr (List.append_eq_nil_iff.mp e).2
        rw [if_neg hroot, List.dropLast_append_of_ne_nil hr,
          if_neg (not_not.mpr (List.prefix_append ..))] at h
        obtain ⟨rel, hp, hwalk⟩ := ih _ _ h
        refine ⟨rel, hp, ?_⟩
        rw [← hwalk, walk, List.foldl_cons, if_pos hname, List.dropLast_append_of_ne_nil hr, walk]
    · rw [if_neg hname, List.append_assoc] at h
      obtain ⟨rel, hp, hwalk⟩ := ih _ _ h
      refine ⟨rel, hp, ?_⟩
      rw [← hwalk, walk, List.foldl_cons, if_neg hname, List.append_assoc, walk]

theorem walk_blank {s : String} (h : blank s) (destination : Path) :
    destination <+: walk destination (components s) := by
  have hslash : '/' ∉ s.toList := fun c => absurd (List.all_eq_true.mp h _ c) (by decide)
  have hname : s ≠ ".." := by
    rintro rfl
    exact absurd h (by decide)
  rw [components, splitOn, List.splitOn_eq_singleton hslash, List.map_singleton,
    String.ofList_toList, List.filter_cons]
  split
  · rw [List.filter_nil, walk, List.foldl_cons, if_neg hname]
    exact List.prefix_append ..
  · exact List.prefix_rfl

theorem walk_of_resolves {s : String} (h : resolves rt s = .ok p) (hblank : blank s = false)
    (destination : Path) : ∃ rel, p = rt.workspaceRoot ++ rel ∧
      walk destination (components s) = destination ++ rel := by
  unfold resolves pathArgument resolveWorkspacePath at h
  rw [hblank, if_neg Bool.false_ne_true] at h
  split at h
  · cases h
  · split at h
    · rename_i resolved hpush
      split at h
      · cases h
      · cases h
        have := @pushComponents_walk rt.workspaceRoot destination (components s) [] p
        rw [List.append_nil, List.append_nil] at this
        exact this hpush
    · cases h

theorem prefix_walk {s : String} (h : resolves rt s = .ok p) (destination : Path) :
    destination <+: walk destination (components s) := by
  cases hblank : blank s with
  | true => exact walk_blank hblank destination
  | false =>
    obtain ⟨rel, -, hwalk⟩ := walk_of_resolves h hblank destination
    rw [hwalk]
    exact List.prefix_append ..

/-! ## no file outside the destination is touched -/

theorem keepsFile_createDirsAlong (names : List String) : ∀ base : Path,
    KeepsFile q (createDirsAlong base names) := by
  induction names with
  | nil => exact fun base => keepsFile_createDirAll base
  | cons name rest ih =>
    intro base
    refine KeepsFile.ite (ih _) ?_
    exact KeepsFile.bind (keepsFile_createDirAll _) fun _ => ih _

theorem leavesFile_copySourceFile (h : ¬ destination <+: q) (file : SourceSetFile) :
    LeavesFile q (copySourceFile rt destination file) := by
  refine leavesFile_resolvePath_bind fun source hsource => ?_
  refine LeavesFile.bind (leavesFile_onDisk (keepsFile_createDirsAlong _ _)) fun _ => ?_
  refine LeavesFile.bind LeavesFile.get fun _ => LeavesFile.ite (LeavesFile.throw _) ?_
  refine leavesFile_onDisk (keepsFile_copyPathRecursive fun c => h ?_)
  exact (prefix_walk hsource destination).trans c

theorem leavesFile_readParsed {α : Type} (parse : Json → Option α) (ref : String) :
    LeavesFile q (readParsed rt parse ref) := by
  intro content k hk
  have h := @keepsDisk_readParsed rt _ parse ref k.disk k rfl
  dsimp only at h ⊢
  rw [h, hk]

theorem leavesFile_copySourceFiles (h : ¬ destination <+: q) (files : List SourceSetFile) :
    LeavesFile q (copySourceFiles rt destination files) :=
  LeavesFile.bind (leavesFile_onDisk (keepsFile_removeIfExists h)) fun _ =>
    LeavesFile.bind (leavesFile_onDisk (keepsFile_createDirAll _)) fun _ =>
      LeavesFile.forM _ fun file _ => leavesFile_copySourceFile h file

/-! ## every file of the set is copied -/

theorem copyPathRecursive_file {source : Path} {content : Bytes} {u : Unit} (hne : source ≠ q)
    (hs : t.fileAt source = some content) (h : Ok (copyPathRecursive source q) t u t') :
    t'.fileAt q = some content := by
  obtain ⟨_, _, hg, h⟩ := bind_ok.mp h
  cases hg
  have he := Tree.fileAt_eq_some.mp hs
  obtain ⟨hno, h⟩ := (copyLevels_succ_file he).mp h
  obtain ⟨c, hc, -, -, -, hq⟩ := copyFile_ok hne h
  have hkept := fileAt_mkdirs hno source
  rw [hs, Tree.fileAt_eq_some.mpr hc] at hkept
  cases hkept
  rw [Tree.fileAt_eq_some, hq, if_pos rfl]

/-- below the workspace and below the destination, both copies of one file -/
def Both (root destination rel : Path) (content : Bytes) (t : Disk) : Prop :=
  t.fileAt (root ++ rel) = some content ∧ t.fileAt (destination ++ rel) = some content

theorem copyLevels_both {rel : Path} {content : Bytes} (hout : ¬ destination <+: root ++ rel)
    (fuel : Nat) : ∀ (r : Path) {t t' : Disk} {u : Unit},
      Ok (copyLevels fuel (root ++ r) (destination ++ r)) t u t' →
      Both root destination rel content t → Both root destination rel content t' := by
  induction fuel with
  | zero => exact fun r _ _ _ h _ => nomatch h
  | succ fuel ih =>
    intro r t t' u h hboth
    rcases e : t.entry (root ++ r) with _ | (c | _)
    · exact absurd h (copyLevels_none e)
    · obtain ⟨hno, h⟩ := (copyLevels_succ_file e).mp h
      have hsource : (t.mkdirs (destination ++ r).dropLast).fileAt (root ++ rel) = some content :=
        (fileAt_mkdirs hno _).trans hboth.1
      have hcopy : (t.mkdirs (destination ++ r).dropLast).fileAt (destination ++ rel) =
          some content := (fileAt_mkdirs hno _).trans hboth.2
      have hne : root ++ rel ≠ destination ++ r := fun heq => hout (heq ▸ List.prefix_append ..)
      refine ⟨((keepsFile_copyFile hne).of_ok h).trans hsource, ?_⟩
      by_cases hr : r = rel
      · subst hr
        obtain ⟨c', hc', -, -, -, hq⟩ := copyFile_ok hne h
        rw [Tree.fileAt_eq_some.mpr hc'] at hsource
        cases hsource
        rw [Tree.fileAt_eq_some, hq, if_pos rfl]
      · have hother : destination ++ rel ≠ destination ++ r := fun heq =>
          hr (List.append_cancel_left heq).symm
        exact ((keepsFile_copyFile hother).of_ok h).trans hcopy
    · obtain ⟨hno, h⟩ := (copyLevels_succ_dir e).mp h
      refine forM_ok_induct (P := Both root destination rel content) _ ?_ h
        ⟨(fileAt_mkdirs hno _).trans hboth.1, (fileAt_mkdirs hno _).trans hboth.2⟩
      intro name _ s s' hname hs
      rw [List.append_assoc, List.append_assoc] at hname
      exact ih (r ++ [name]) hname hs

theorem not_copy_root {r : Path} {x : String} {u : Unit} (hd : t.entry root = some .dir) :
    ¬ Ok (copyPathRecursive root (root ++ x :: r)) t u t' := by
  intro h
  obtain ⟨_, _, hg, h⟩ := bind_ok.mp h
  cases hg
  exact copyLevels_nested _ _ _ _ _ _ _ hd h

theorem copySourceFile_ok {file : SourceSetFile} {u : Unit}
    (h : Ok (copySourceFile rt destination file) k u k') : ∃ source d d',
      resolves rt file.path = .ok source ∧
      (∀ q, d.fileAt q = k.disk.fileAt q) ∧
      Ok (copyPathRecursive source (walk destination (components file.path))) d () d' ∧
      k'.disk = d' := by
  obtain ⟨source, k1, h1, g1⟩ := bind_ok.mp h
  obtain ⟨hsource, e1⟩ := resolvePath_ok.mp h1
  subst e1
  obtain ⟨_, k2, h2, g2⟩ := bind_ok.mp g1
  obtain ⟨d, hd, rfl⟩ := onDisk_ok.mp h2
  obtain ⟨_, _, hg, g3⟩ := bind_ok.mp g2
  cases hg
  split at g3
  · cases g3
  · obtain ⟨d', hd', rfl⟩ := onDisk_ok.mp g3
    exact ⟨source, d, d', hsource, fun q => (keepsFile_createDirsAlong _ _).of_ok hd, hd', rfl⟩

/-- a file of the workspace that lies outside the destination, which is a proper part of it -/
structure Outside (rt : Runtime) (destination rel : Path) : Prop where
  intro ::
  strict : ∃ x r, destination = rt.workspaceRoot ++ x :: r
  proper : rel ≠ []
  outside : ¬ destination <+: rt.workspaceRoot ++ rel

theorem Outside.round {rel source : Path} {content : Bytes} {s : String} {u : Unit}
    (hout : Outside rt destination rel) (hs : resolves rt s = .ok source)
    (hfile : t.fileAt (rt.workspaceRoot ++ rel) = some content)
    (h : Ok (copyPathRecursive source (walk destination (components s))) t u t') :
    ∃ r, source = rt.workspaceRoot ++ r ∧ walk destination (components s) = destination ++ r := by
  cases hblank : blank s with
  | false => exact walk_of_resolves hs hblank destination
  | true =>
    have hsource : source = rt.workspaceRoot := by
      unfold resolves pathArgument at hs
      rw [hblank, if_pos rfl] at hs
      have hdot : components "." = [] := by decide
      have habs : isAbsolute "." = false := by decide
      rw [resolveWorkspacePath, habs, hdot] at hs
      dsimp only [pushComponents] at hs
      split at hs
      · cases hs
      · split at hs
        · cases hs
        · exact (Except.ok.inj hs).symm
    have hroot : t.entry rt.workspaceRoot = some .dir := by
      refine t.dir_of_strict (List.prefix_append _ rel) ?_ ?_
      · exact fun heq => hout.proper (List.append_right_eq_self.mp heq.symm)
      · rw [Tree.fileAt_eq_some.mp hfile]
        exact fun h => nomatch h
    obtain ⟨x, r, hstrict⟩ := hout.strict
    obtain ⟨r', hwalk⟩ := prefix_walk (p := source) hs destination
    rw [hsource, ← hwalk, hstrict, List.append_assoc, List.cons_append] at h
    exact absurd h (not_copy_root hroot)

theorem copySourceFile_copies {file : SourceSetFile} {rel : Path} {content : Bytes} {u : Unit}
    (hout : Outside rt destination rel)
    (hp : resolves rt file.path = .ok (rt.workspaceRoot ++ rel))
    (hfile : k.disk.fileAt (rt.workspaceRoot ++ rel) = some content)
    (h : Ok (copySourceFile rt destination file) k u k') :
    Both rt.workspaceRoot destination rel content k'.disk := by
  refine ⟨((leavesFile_copySourceFile hout.outside file).of_ok h).trans hfile, ?_⟩
  obtain ⟨source, d, d', hsource, hd, hcopy, rfl⟩ := copySourceFile_ok h
  cases hp.symm.trans hsource
  have hfile' := (hd _).trans hfile
  obtain ⟨r, hr, hwalk⟩ := hout.round hsource hfile' hcopy
  cases List.append_cancel_left hr
  rw [hwalk] at hcopy
  have hne : rt.workspaceRoot ++ rel ≠ destination ++ rel := by
    intro heq
    apply hout.outside
    rw [heq]
    exact List.prefix_append ..
  exact copyPathRecursive_file hne hfile' hcopy

theorem copySourceFile_both {file : SourceSetFile} {rel : Path} {content : Bytes} {u : Unit}
    (hout : Outside rt destination rel)
    (hboth : Both rt.workspaceRoot destination rel content k.disk)
    (h : Ok (copySourceFile rt destination file) k u k') :
    Both rt.workspaceRoot destination rel content k'.disk := by
  obtain ⟨source, d, d', hsource, hd, hcopy, rfl⟩ := copySourceFile_ok h
  have hboth' : Both rt.workspaceRoot destination rel content d :=
    ⟨(hd _).trans hboth.1, (hd _).trans hboth.2⟩
  obtain ⟨r, rfl, hwalk⟩ := hout.round hsource hboth'.1 hcopy
  rw [hwalk] at hcopy
  obtain ⟨_, _, hg, hcopy⟩ := bind_ok.mp hcopy
  cases hg
  exact copyLevels_both hout.outside _ r hcopy hboth'

theorem copyLoop_copies {file : SourceSetFile} {rel : Path} {content : Bytes}
    (hout : Outside rt destination rel)
    (hp : resolves rt file.path = .ok (rt.workspaceRoot ++ rel)) (files : List SourceSetFile) :
    ∀ {k k' : Kernel} {u : Unit}, Ok (files.forM (copySourceFile rt destination)) k u k' →
      k.disk.fileAt (rt.workspaceRoot ++ rel) = some content → file ∈ files →
      Both rt.workspaceRoot destination rel content k'.disk := by
  induction files with
  | nil => exact fun _ _ hmem => absurd hmem List.not_mem_nil
  | cons first rest ih =>
    intro k k' u h hfile hmem
    obtain ⟨k1, h1, h2⟩ := forM_cons_ok.mp h
    rcases List.mem_cons.mp hmem with rfl | hmem
    · exact forM_ok_induct (P := fun k : Kernel => Both rt.workspaceRoot destination rel content k.disk)
        rest (fun _ _ _ _ hround hboth => copySourceFile_both hout hboth hround) h2
        (copySourceFile_copies hout hp hfile h1)
    · exact ih h2 (((leavesFile_copySourceFile hout.outside first).of_ok h1).trans hfile) hmem

theorem outside_of_made {s s' : String} {content : Bytes} (hs : resolves rt s = .ok p)
    (hs' : resolves rt s' = .ok destination) (hout : ¬ destination <+: p)
    (hfile : t.fileAt p = some content) (hmade : t.entry destination = some .dir) :
    ∃ rel, p = rt.workspaceRoot ++ rel ∧ Outside rt destination rel := by
  obtain ⟨rel, rfl⟩ := resolveWorkspacePath_below hs
  obtain ⟨below, rfl⟩ := resolveWorkspacePath_below hs'
  have hbelow : below ≠ [] := by
    rintro rfl
    rw [List.append_nil] at hout
    exact hout (List.prefix_append ..)
  obtain ⟨x, r, rfl⟩ := List.exists_cons_of_ne_nil hbelow
  refine ⟨rel, rfl, ⟨⟨x, r, rfl⟩, ?_, hout⟩⟩
  rintro rfl
  rw [List.append_nil] at hfile
  have hroot : t.entry rt.workspaceRoot = some .dir :=
    t.dir_above x r (by rw [hmade]; exact fun h => nomatch h)
  rw [Tree.fileAt_of_dir hroot] at hfile
  cases hfile

theorem createDirAll_dir {u : Unit} (h : Ok (createDirAll destination : DiskM Unit) t u t') :
    t'.entry destination = some .dir := by
  rw [(createDirAll_ok.mp h).2, Tree.mkdirs_entry, if_pos List.prefix_rfl]

theorem copySourceFiles_copies {file : SourceSetFile} {files : List SourceSetFile}
    {content : Bytes} {s : String} {u : Unit} (hp : resolves rt file.path = .ok p)
    (hd : resolves rt s = .ok destination) (hmem : file ∈ files) (hout : ¬ destination <+: p)
    (hfile : k.disk.fileAt p = some content)
    (h : Ok (copySourceFiles rt destination files) k u k') :
    k'.disk.fileAt (destination ++ p.drop rt.workspaceRoot.length) = some content := by
  obtain ⟨_, k1, h1, g1⟩ := bind_ok.mp h
  obtain ⟨_, k2, h2, h3⟩ := bind_ok.mp g1
  have hfile1 : k1.disk.fileAt p = some content :=
    ((leavesFile_onDisk (keepsFile_removeIfExists hout)).of_ok h1).trans hfile
  have hfile2 : k2.disk.fileAt p = some content :=
    ((leavesFile_onDisk (keepsFile_createDirAll _)).of_ok h2).trans hfile1
  have hmade : k2.disk.entry destination = some .dir := by
    obtain ⟨d, hdir, rfl⟩ := onDisk_ok.mp h2
    exact createDirAll_dir hdir
  obtain ⟨rel, rfl, houtside⟩ := outside_of_made hp hd hout hfile2 hmade
  rw [List.drop_left]
  exact (copyLoop_copies houtside hp files h3 hfile2 hmem).2

theorem leavesFile_copySourceSet {sourceSetRef destinationDir : String}
    (h : "artifact.copy_source_set" ∈ rt.capabilities →
      ∀ destination, resolves rt destinationDir = .ok destination → ¬ destination <+: q) :
    LeavesFile q (copySourceSet rt sourceSetRef destinationDir) := by
  unfold copySourceSet withCapability
  by_cases hcap : "artifact.copy_source_set" ∈ rt.capabilities
  · rw [if_pos hcap]
    refine LeavesFile.bind (leavesFile_readParsed _ _) fun files => ?_
    refine leavesFile_resolvePath_bind fun destination hd => ?_
    refine LeavesFile.bind (leavesFile_copySourceFiles (h hcap destination hd) files) fun _ => ?_
    exact LeavesFile.bind (leavesFile_emitEvent _ _) fun _ => LeavesFile.pure _
  · rw [if_neg hcap]
    exact LeavesFile.bind (leavesFile_emitEvent _ _) fun _ => LeavesFile.pure _

theorem copySourceSet_success {sourceSetRef destinationDir : String} {r : Receipt}
    (h : Ok (copySourceSet rt sourceSetRef destinationDir) k r k') (hs : r.status = "success") :
    "artifact.copy_source_set" ∈ rt.capabilities ∧ ∃ v files destination k1,
      readBlob rt sourceSetRef k = .ok v ∧ sourceSetFiles v = some files ∧
      resolves rt destinationDir = .ok destination ∧
      Ok (copySourceFiles rt destination files) k () k1 ∧ k'.disk = k1.disk := by
  obtain ⟨hcap, g⟩ := withCapability_success h hs
  obtain ⟨files, k1, h1, g1⟩ := bind_ok.mp g
  obtain ⟨⟨v, hv, hfiles⟩, e1⟩ := readParsed_ok.mp h1
  obtain ⟨destination, k2, h2, g2⟩ := bind_ok.mp g1
  obtain ⟨hd, e2⟩ := resolvePath_ok.mp h2
  subst e1 e2
  obtain ⟨_, k3, h3, g3⟩ := bind_ok.mp g2
  obtain ⟨_, k4, h4, g4⟩ := bind_ok.mp g3
  cases g4
  exact ⟨hcap, v, files, destination, k3, hv, hfiles, hd, h3, (emitReceipt_ok h4).1⟩

theorem copySourceSet_kept {sourceSetRef destinationDir : String}
    (hout : SourcesOutside rt sourceSetRef destinationDir k) :
    SourcesKept rt sourceSetRef k (final (copySourceSet rt sourceSetRef destinationDir) k) := by
  intro p content hsource
  have h := @leavesFile_copySourceSet rt p sourceSetRef _
    fun hcap destination hd => hout hcap destination hd p content hsource
  exact (h.final k).trans hsource.isFile

theorem copySourceSet_copied {sourceSetRef destinationDir : String} {r : Receipt}
    (hout : SourcesOutside rt sourceSetRef destinationDir k)
    (h : Ok (copySourceSet rt sourceSetRef destinationDir) k r k') (hs : r.status = "success") :
    SourcesCopied rt sourceSetRef destinationDir k k' := by
  obtain ⟨hcap, v, files, destination, k1, hv, hfiles, hd, hcopy, hk⟩ := copySourceSet_success h hs
  refine ⟨destination, hd, fun p content hsource => ?_⟩
  obtain ⟨v', files', file, hv', hfiles', hmem, hp⟩ := hsource.listed
  cases hv.symm.trans hv'
  cases hfiles.symm.trans hfiles'
  rw [hk]
  exact copySourceFiles_copies hp hd hmem (hout hcap destination hd p content hsource)
    hsource.isFile hcopy

/-! ## a file in the destination is lost -/

/-- no file of the disk has the content -/
def Lacks (content : Bytes) (t : Disk) : Prop := ∀ q, t.fileAt q ≠ some content

theorem Lacks.of_entries {content : Bytes} (hlacks : Lacks content t)
    (h : ∀ q c, t'.entry q = some (.file c) → t.entry q = some (.file c) ∨ c ≠ content) :
    Lacks content t' := by
  intro q hq
  rcases h q content (Tree.fileAt_eq_some.mp hq) with he | hne
  · exact hlacks q (Tree.fileAt_eq_some.mpr he)
  · exact hne rfl

theorem keeps_createDirAll (content : Bytes) (p : Path) :
    Keeps (Lacks content) (createDirAll p : DiskM Unit) := by
  refine Keeps.step fun t t' hstep hlacks q => ?_
  obtain ⟨hno, rfl⟩ := createDirAll_ok.mp (step_ok (u := ()).mpr hstep)
  rw [fileAt_mkdirs hno]
  exact hlacks q

theorem keeps_write {content bytes : Bytes} (hne : bytes ≠ content) (p : Path) :
    Keeps (Lacks content) (write p bytes : DiskM Unit) := by
  refine Keeps.step fun t t' hstep hlacks => hlacks.of_entries fun q c hq => ?_
  obtain ⟨-, -, -, he⟩ := write_ok (step_ok (u := ()).mpr hstep)
  rw [he] at hq
  by_cases h : q = p
  · rw [if_pos h] at hq
    cases hq
    exact Or.inr hne
  · rw [if_neg h] at hq
    exact Or.inl hq

theorem ends_read {content : Bytes} (p : Path) (h : Lacks content t) :
    Ends (read p : DiskM Bytes) t (fun c s => Lacks content s ∧ c ≠ content) (Lacks content) := by
  cases hr : (read p : DiskM Bytes) t with
  | ok c s =>
    obtain ⟨hc, rfl⟩ := read_ok.mp hr
    refine Ends.of_ok hr ⟨h, ?_⟩
    rintro rfl
    exact h p (Tree.fileAt_eq_some.mpr hc)
  | error e s =>
    refine Ends.of_err hr ?_
    have hkept := fun q => (keepsFile_read (q := q) p).of_err hr
    intro q
    rw [hkept]
    exact h q

theorem keeps_copyFile {content : Bytes} (hne : ∅ ≠ content) (source destination : Path) :
    Keeps (Lacks content) (copyFile source destination) := by
  intro t hlacks
  refine Ends.final (Ends.bind (ends_read source hlacks) fun _ t1 h1 => ?_)
  refine Ends.bind (Ends.of_keeps (keeps_write hne destination) h1.1) fun _ t2 h2 => ?_
  refine Ends.bind (ends_read source h2) fun c t3 h3 => ?_
  exact Ends.of_keeps (keeps_write h3.2 destination) h3.1

theorem keeps_copyLevels {content : Bytes} (hne : ∅ ≠ content) (fuel : Nat) :
    ∀ source destination : Path, Keeps (Lacks content) (copyLevels fuel source destination) := by
  induction fuel with
  | zero => exact fun _ _ => Keeps.throw _ _
  | succ fuel ih =>
    intro source destination
    refine Keeps.bind (Keeps.get _) fun t => Keeps.ite ?_ (Keeps.ite ?_ (Keeps.throw _ _))
    · exact Keeps.bind (keeps_createDirAll _ _) fun _ => Keeps.bind (Keeps.get _) fun _ =>
        Keeps.forM _ fun name _ => ih _ _
    · exact Keeps.bind (keeps_createDirAll _ _) fun _ => keeps_copyFile hne _ _

theorem keeps_createDirsAlong (content : Bytes) (names : List String) : ∀ base : Path,
    Keeps (Lacks content) (createDirsAlong base names) := by
  induction names with
  | nil => exact fun base => keeps_createDirAll content base
  | cons name rest ih =>
    intro base
    refine Keeps.ite (ih _) ?_
    exact Keeps.bind (keeps_createDirAll _ _) fun _ => ih _

/-- the disk of the kernel has no file with the content -/
def DiskLacks (content : Bytes) (k : Kernel) : Prop := Lacks content k.disk

theorem keeps_onDisk {content : Bytes} {m : DiskM Unit} (h : Keeps (Lacks content) m) :
    Keeps (DiskLacks content) (onDisk m) := by
  intro k hk
  cases hm : m k.disk with
  | ok a d =>
    rw [final_of_ok (onDisk_ok.mpr ⟨d, hm, rfl⟩)]
    exact h.of_ok hm hk
  | error e d =>
    rw [final_of_err (onDisk_err.mpr ⟨d, hm, rfl⟩)]
    exact h.of_err hm hk

theorem keeps_of_leavesFile {α : Type} {content : Bytes} {m : KernelM α}
    (h : ∀ q, LeavesFile q m) : Keeps (DiskLacks content) m := by
  intro k hk q
  rw [(h q).final]
  exact hk q

theorem keeps_copySourceFile {content : Bytes} (hne : ∅ ≠ content) (file : SourceSetFile) :
    Keeps (DiskLacks content) (copySourceFile rt destination file) := by
  refine Keeps.bind (keeps_of_leavesFile fun q => leavesFile_resolvePath _) fun source => ?_
  refine Keeps.bind (keeps_onDisk (keeps_createDirsAlong _ _ _)) fun _ => ?_
  refine Keeps.bind (Keeps.get _) fun k => Keeps.ite (Keeps.throw _ _) (keeps_onDisk ?_)
  exact Keeps.bind (Keeps.get _) fun _ => keeps_copyLevels hne _ _ _

theorem copySourceFiles_loses {content : Bytes} (hdestination : destination ≠ [])
    (hne : ∅ ≠ content) (honly : ∀ q, k.disk.fileAt q = some content → destination <+: q)
    (files : List SourceSetFile) :
    DiskLacks content (final (copySourceFiles rt destination files) k) := by
  obtain ⟨d, hd⟩ := removeIfExists_total k.disk hdestination
  have hlacks : Lacks content d := by
    intro q hq
    have he := Tree.fileAt_eq_some.mp hq
    rw [removeIfExists_ok hd] at he
    by_cases hbelow : destination <+: q
    · rw [if_pos hbelow] at he
      cases he
    · rw [if_neg hbelow] at he
      exact hbelow (honly q (Tree.fileAt_eq_some.mpr he))
  rw [copySourceFiles, final_bind_of_ok (onDisk_ok.mpr ⟨d, hd, rfl⟩)]
  refine Keeps.bind (keeps_onDisk (keeps_createDirAll _ _)) (fun _ => ?_) _ hlacks
  exact Keeps.forM _ fun file _ => keeps_copySourceFile hne file

theorem copySourceSet_loses {sourceSetRef destinationDir : String} {content : Bytes}
    (hcap : "artifact.copy_source_set" ∈ rt.capabilities)
    (hd : resolves rt destinationDir = .ok destination) (hdestination : destination ≠ [])
    (hsource : IsSource rt sourceSetRef k p content) (hne : ∅ ≠ content)
    (honly : ∀ q, k.disk.fileAt q = some content → destination <+: q) :
    (final (copySourceSet rt sourceSetRef destinationDir) k).disk.fileAt p ≠ some content := by
  obtain ⟨v, files, file, hv, hfiles, -, -⟩ := hsource.listed
  have hread : Ok (readParsed rt sourceSetFiles sourceSetRef) k files k :=
    readParsed_ok.mpr ⟨⟨v, hv, hfiles⟩, rfl⟩
  have hresolve : Ok (resolvePath rt destinationDir) k destination k := resolvePath_ok.mpr ⟨hd, rfl⟩
  rw [copySourceSet, withCapability_of_mem hcap, final_bind_of_ok hread, final_bind_of_ok hresolve]
  have hlost := @copySourceFiles_loses rt _ _ _ hdestination hne honly files
  cases hcopy : copySourceFiles rt destination files k with
  | error e k1 =>
    rw [final_of_err hcopy] at hlost
    rw [final_bind_of_err hcopy]
    exact hlost p
  | ok u k1 =>
    rw [final_of_ok hcopy] at hlost
    rw [final_bind_of_ok hcopy]
    refine Keeps.bind (keeps_of_leavesFile fun q => ?_) (fun _ => Keeps.pure _ _) k1 hlost p
    exact leavesFile_emitEvent _ _

/-- a file of the set with a content that nothing outside the destination has, in a call that gets
as far as removing the destination -/
structure OnlyBelow (rt : Runtime) (sourceSetRef destinationDir : String) (k : Kernel) (p : Path)
    (content : Bytes) : Prop where
  intro ::
  granted : "artifact.copy_source_set" ∈ rt.capabilities
  below : ∃ destination, resolves rt destinationDir = .ok destination ∧ destination ≠ [] ∧
    ∀ q, k.disk.fileAt q = some content → destination <+: q
  source : IsSource rt sourceSetRef k p content
  filled : ∅ ≠ content

/-- **while no file of the set lies at or below the destination, every file of the set is there
afterwards and a success copied them all; a file of the set that only the destination has is lost** -/
theorem copySourceSet_sources (rt : Runtime) (sourceSetRef destinationDir : String) (k : Kernel) :
    (SourcesOutside rt sourceSetRef destinationDir k →
      SourcesKept rt sourceSetRef k (final (copySourceSet rt sourceSetRef destinationDir) k) ∧
        ∀ r k', Ok (copySourceSet rt sourceSetRef destinationDir) k r k' → r.status = "success" →
          SourcesCopied rt sourceSetRef destinationDir k k') ∧
      ∀ p content, OnlyBelow rt sourceSetRef destinationDir k p content →
        (final (copySourceSet rt sourceSetRef destinationDir) k).disk.fileAt p ≠ some content := by
  refine ⟨fun hout => ⟨copySourceSet_kept hout, fun r k' => copySourceSet_copied hout⟩, ?_⟩
  rintro p content ⟨hcap, ⟨destination, hd, hdestination, honly⟩, hsource, hne⟩
  exact copySourceSet_loses hcap hd hdestination hsource hne honly

end

/-! ## a workspace with one file -/

def copySetRuntime : Runtime :=
  { sampleRuntime with capabilities := ["artifact.copy_source_set"] }

theorem readBlob_organizeKernel (path : Path) (relativePath extension : String) :
    readBlob copySetRuntime "blob://job/source_sets/s.json"
      (organizeKernel path relativePath extension) = .ok (sourceSetOf relativePath extension) := by
  have hname : resolveBlobRef copySetRuntime "blob://job/source_sets/s.json" =
      .ok "source_sets/s.json" := by decide
  rw [readBlob, hname]
  rfl

theorem isSource_organizeKernel {path p : Path} {relativePath extension : String} {content : Bytes}
    (hp : resolves copySetRuntime relativePath = .ok path)
    (h : IsSource copySetRuntime "blob://job/source_sets/s.json"
      (organizeKernel path relativePath extension) p content) : p = path := by
  obtain ⟨v, files, file, hv, hfiles, hmem, hfile⟩ := h.listed
  cases (readBlob_organizeKernel path relativePath extension).symm.trans hv
  cases hfiles
  cases List.mem_singleton.mp hmem
  exact Except.ok.inj (hfile.symm.trans hp)

theorem isSource_docs : IsSource copySetRuntime "blob://job/source_sets/s.json"
    (organizeKernel ["ws", "docs", "a.txt"] "docs/a.txt" ".txt") ["ws", "docs", "a.txt"] [1] :=
  ⟨⟨sourceSetOf "docs/a.txt" ".txt", [⟨"docs/a.txt", ".txt", 1, 0⟩], ⟨"docs/a.txt", ".txt", 1, 0⟩,
    readBlob_organizeKernel _ _ _, rfl, List.mem_singleton_self _, by decide⟩, by decide⟩

theorem copySourceSet_sources_one :
    SourcesKept copySetRuntime "blob://job/source_sets/s.json"
        (organizeKernel ["ws", "a.txt"] "a.txt" ".txt")
        (final (copySourceSet copySetRuntime "blob://job/source_sets/s.json" "out")
          (organizeKernel ["ws", "a.txt"] "a.txt" ".txt")) ∧
      (final (copySourceSet copySetRuntime "blob://job/source_sets/s.json" "docs")
        (organizeKernel ["ws", "docs", "a.txt"] "docs/a.txt" ".txt")).disk.fileAt
          ["ws", "docs", "a.txt"] ≠ some [1] := by
  constructor
  · refine ((copySourceSet_sources copySetRuntime "blob://job/source_sets/s.json" "out"
      (organizeKernel ["ws", "a.txt"] "a.txt" ".txt")).1 fun _ destination hd p c hsource => ?_).1
    have hp : resolves copySetRuntime "a.txt" = .ok ["ws", "a.txt"] := by decide
    have hout : resolves copySetRuntime "out" = .ok ["ws", "out"] := by decide
    cases hout.symm.trans hd
    rw [isSource_organizeKernel hp hsource]
    decide
  · refine (copySourceSet_sources copySetRuntime "blob://job/source_sets/s.json" "docs"
      (organizeKernel ["ws", "docs", "a.txt"] "docs/a.txt" ".txt")).2 _ _
        ⟨by decide, ⟨["ws", "docs"], by decide, by decide, fun q hq => ?_⟩, isSource_docs, by decide⟩
    have hall : ∀ q ∈ (organizeKernel ["ws", "docs", "a.txt"] "docs/a.txt" ".txt").disk.paths,
        (organizeKernel ["ws", "docs", "a.txt"] "docs/a.txt" ".txt").disk.fileAt q = some [1] →
          ["ws", "docs"] <+: q := by decide
    refine hall q (Tree.covered _ q ?_) hq
    rw [Tree.fileAt_eq_some.mp hq]
    exact fun h => nomatch h

/-- copied into the directory it lies in, a file is lost -/
theorem copy_into_source_directory :
    ¬ SourcesKept copySetRuntime "blob://job/source_sets/s.json"
        (organizeKernel ["ws", "docs", "a.txt"] "docs/a.txt" ".txt")
        (final (copySourceSet copySetRuntime "blob://job/source_sets/s.json" "docs")
          (organizeKernel ["ws", "docs", "a.txt"] "docs/a.txt" ".txt")) := by
  intro h
  have hlost : (final (copySourceSet copySetRuntime "blob://job/source_sets/s.json" "docs")
      (organizeKernel ["ws", "docs", "a.txt"] "docs/a.txt" ".txt")).disk.fileAt
        ["ws", "docs", "a.txt"] = none := by decide +kernel
  have hkept := h ["ws", "docs", "a.txt"] [1] isSource_docs
  rw [hlost] at hkept
  cases hkept

end Data

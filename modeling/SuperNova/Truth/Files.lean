import SuperNova.Truth.Blobs
import SuperNova.Workspace.Kept
import SuperNova.Workspace.Lengths

/-!
# Where blobs are written

`write_blob` joins a name to the directory of the job as it is, and returns a ref with the name in it.  The resolver
walks along the components of the ref and refuses some of them.

* `writeBlob`: the writer, on the disk;
* `LeadsBack`: a write makes one file inside the directory, and its ref leads to that file;
* `keeps_writeBlob`: no write disturbs the content of a file, but at its own place;
* `leadsBack_iff` (**main**): the refs of a name lead back exactly when the name is plain, or cannot be written.
-/

set_option linter.unusedSectionVars false

namespace Truth

open Paths Io FileTree Text Workspace Os

section
variable (blobDir : Path) (jobId name : String)

/-- `blob_dir.join(name)` -/
def blobTarget : Raw := Raw.join ⟨blobDir, []⟩ name

/-- `ProcessTruthStore::write_blob` -/
def writeBlob (content : Bytes) : DiskM String := do
  createDirAll blobDir
  (blobTarget blobDir name).parent.createDirAll
  (blobTarget blobDir name).write content
  pure (blobRef jobId name)

/-- where the name leads -/
def placeOf : Path := placeAt (blobTarget blobDir name).base (blobTarget blobDir name).segments

/-- a file with the content stands at the place, and all other files are as they were -/
def Makes (disk disk' : Disk) (place : Path) (content : Bytes) : Prop :=
  disk'.entry place = some (.file content) ∧ ∀ q, q ≠ place → disk'.fileAt q = disk.fileAt q

/-- every write either fails or makes one file inside the directory, and its ref leads to that file -/
def LeadsBack : Prop :=
  ∀ disk content ref disk', Ok (writeBlob blobDir jobId name content) disk ref disk' →
    ∃ path, path ≠ [] ∧ resolveBlobRef jobId ref = .ok path ∧ Makes disk disk' (blobDir ++ path) content

/-- the directories along the segments -/
def passed (place : Path) : List String → List Path
  | [] => [place]
  | segment :: segments => place :: passed (advance place segment) segments

/-- no blob can be written: the name has a NUL, or does not end with a proper name, or leads to a directory that the call
itself makes -/
def Unwritable : Prop :=
  (blobTarget blobDir name).hasNul = true ∨
    (∃ last ∈ (blobTarget blobDir name).segments.getLast?, stays last = true ∨ last = "..") ∨
      ∃ q ∈ blobDir :: passed (blobTarget blobDir name).base (blobTarget blobDir name).segments.dropLast,
        placeOf blobDir name <+: q

instance : Decidable (Unwritable blobDir name) := by
  unfold Unwritable
  exact inferInstance

end

/-! ## the call -/

section
variable {blobDir place q : Path} {jobId name ref last : String} {segments front : List String} {content : Bytes}
  {disk disk' made : Disk}

theorem isDir_of_mkdirs (h : (disk.mkdirs place).isDir q = true) : disk.isDir q = true ∨ q <+: place := by
  rw [Tree.isDir_iff, Tree.mkdirs_entry] at h
  split at h
  · exact Or.inr ‹_›
  · exact Or.inl (Tree.isDir_iff.mpr h)

theorem makeDirs_files {u : Unit} (h : Ok (makeDirs place segments) disk u disk') :
    (∀ q, disk'.fileAt q = disk.fileAt q) ∧ ∀ q ∈ passed place segments, disk'.isDir q = true := by
  induction segments generalizing place disk with
  | nil =>
    obtain ⟨hfree, rfl⟩ := createDirAll_ok.mp h
    refine ⟨fun q => fileAt_mkdirs hfree q, fun q hq => ?_⟩
    obtain rfl := List.mem_singleton.mp hq
    rw [Tree.isDir_iff, Tree.mkdirs_entry]
    exact if_pos List.prefix_rfl
  | cons segment segments ih =>
    obtain ⟨_, first, hfirst, hrest⟩ := bind_ok.mp h
    obtain ⟨hfree, rfl⟩ := createDirAll_ok.mp hfirst
    obtain ⟨hfiles, hdirs⟩ := ih hrest
    obtain ⟨-, -, hkeep⟩ := makeDirs_ok hrest
    refine ⟨fun q => (hfiles q).trans (fileAt_mkdirs hfree q), fun q hq => ?_⟩
    rcases List.mem_cons.mp hq with rfl | hq
    · apply hkeep
      rw [Tree.isDir_iff, Tree.mkdirs_entry]
      exact if_pos List.prefix_rfl
    · exact hdirs q hq

theorem makeDirs_total (segments : List String) (hfree : ∀ q, disk.fileAt q = none) :
    ∃ disk', Ok (makeDirs place segments) disk () disk' ∧
      ∀ q, disk'.isDir q = true → disk.isDir q = true ∨ ∃ p ∈ passed place segments, q <+: p := by
  induction segments generalizing place disk with
  | nil =>
    refine ⟨disk.mkdirs place, createDirAll_ok.mpr ⟨fun q _ => hfree q, rfl⟩, fun q hq => ?_⟩
    exact (isDir_of_mkdirs hq).imp_right fun h => ⟨place, List.mem_singleton_self place, h⟩
  | cons segment segments ih =>
    have hfirst : Ok (createDirAll place) disk () (disk.mkdirs place) :=
      createDirAll_ok.mpr ⟨fun q _ => hfree q, rfl⟩
    obtain ⟨disk', hrest, hdirs⟩ := @ih (advance place segment) (disk.mkdirs place)
      fun q => (fileAt_mkdirs (fun q _ => hfree q) q).trans (hfree q)
    refine ⟨disk', bind_ok.mpr ⟨(), _, hfirst, hrest⟩, fun q hq => ?_⟩
    rcases hdirs q hq with hdir | ⟨p, hp, hprefix⟩
    · exact (isDir_of_mkdirs hdir).imp_right fun h => ⟨place, List.mem_cons_self, h⟩
    · exact Or.inr ⟨p, List.mem_cons_of_mem place hp, hprefix⟩

theorem fileAt_empty (q : Path) : (Tree.empty : Disk).fileAt q = none := by
  by_cases hq : q = []
  · exact Tree.fileAt_of_dir (if_pos hq)
  · exact Tree.fileAt_of_none (if_neg hq)

theorem segments_ne_nil (blobDir : Path) (name : String) : (blobTarget blobDir name).segments ≠ [] := by
  have hsplit : splitOn '/' name ≠ [] := fun h => List.splitOn_ne_nil _ _ (List.map_eq_nil_iff.mp h)
  rw [blobTarget, Raw.join]
  split
  · exact hsplit
  · exact List.append_ne_nil_of_right_ne_nil _ hsplit

theorem writeBlob_ok (h : Ok (writeBlob blobDir jobId name content) disk ref disk') :
    ref = blobRef jobId name ∧ Makes disk disk' (placeOf blobDir name) content ∧ ¬ Unwritable blobDir name := by
  rw [writeBlob] at h
  obtain ⟨_, first, hfirst, h⟩ := bind_ok.mp h
  obtain ⟨_, made, hmade, h⟩ := bind_ok.mp h
  obtain ⟨_, after, hwrite, hpure⟩ := bind_ok.mp h
  cases hpure
  obtain ⟨hfree, rfl⟩ := createDirAll_ok.mp hfirst
  obtain ⟨hnul, place, last, hwalk, hlast, hstays, hdots, hput⟩ := Raw.write_ok.mp hwrite
  obtain ⟨front, hsegments⟩ := List.getLast?_eq_some_iff.mp hlast
  have hparent : (blobTarget blobDir name).parent = ⟨(blobTarget blobDir name).base, front⟩ := by
    rw [Raw.parent, hsegments, List.rdropWhile_concat_neg _ _ _ (by simp [hstays]), List.dropLast_concat]
  rw [hparent] at hmade
  rw [hsegments, List.dropLast_concat] at hwalk
  have hplace : placeOf blobDir name = place ++ [last] := by
    rw [placeOf, hsegments, placeAt_append, ← walk_eq hwalk]
    exact advance_name hstays hdots
  obtain ⟨hfiles, hdirs⟩ := makeDirs_files (Raw.createDirAll_ok hmade)
  obtain ⟨-, -, hkeep⟩ := makeDirs_ok (Raw.createDirAll_ok hmade)
  obtain ⟨-, -, hnot, hentries⟩ := FileTree.write_ok hput
  rw [← hplace] at hnot hentries
  refine ⟨rfl, ⟨(hentries _).trans (if_pos rfl), fun q hq => ?_⟩, ?_⟩
  · have hsame : disk'.fileAt q = made.fileAt q := Tree.fileAt_congr ((hentries q).trans (if_neg hq))
    rw [hsame, hfiles, fileAt_mkdirs hfree q]
  · rintro (hbad | ⟨other, hother, hbad⟩ | ⟨q, hq, hprefix⟩)
    · rw [hnul] at hbad
      cases hbad
    · obtain rfl := Option.some.inj (hlast.symm.trans hother)
      rcases hbad with hbad | hbad
      · rw [hstays] at hbad
        cases hbad
      · exact hdots hbad
    · have hdir : made.isDir q = true := by
        rcases List.mem_cons.mp hq with rfl | hq
        · apply hkeep
          rw [Tree.isDir_iff, Tree.mkdirs_entry]
          exact if_pos List.prefix_rfl
        · rw [hsegments, List.dropLast_concat] at hq
          exact hdirs q hq
      rw [Tree.isDir_iff] at hdir
      by_cases hsame : placeOf blobDir name = q
      · exact hnot (hsame ▸ hdir)
      · exact hnot (Tree.dir_of_strict made hprefix hsame (by rw [hdir]; exact Option.some_ne_none _))

theorem keepsFile_makeDirs (q place : Path) (segments : List String) : KeepsFile q (makeDirs place segments) := by
  induction segments generalizing place with
  | nil => exact keepsFile_createDirAll place
  | cons segment segments ih => exact (keepsFile_createDirAll place).bind fun _ => ih _

theorem keeps_rawWrite {r : Raw} {bytes : Bytes} (h : placeAt r.base r.segments = q → bytes = content) :
    Keeps (fun t : Disk => t.fileAt q = some content) (r.write bytes) := by
  rw [Raw.write]
  split
  · exact fun t hcontent => hcontent
  refine Keeps.bind (Keeps.get _) fun before => ?_
  split
  · exact Keeps.throw _ _
  · exact Keeps.throw _ _
  · next place last hwalk hlast =>
    split
    · exact Keeps.throw _ _
    · next hproper =>
      rw [Bool.or_eq_true, not_or, Bool.not_eq_true, beq_iff_eq] at hproper
      obtain ⟨front, hsegments⟩ := List.getLast?_eq_some_iff.mp hlast
      have hplace : placeAt r.base r.segments = place ++ [last] := by
        rw [hsegments, List.dropLast_concat] at hwalk
        rw [hsegments, placeAt_append, ← walk_eq hwalk]
        exact advance_name hproper.1 hproper.2
      refine Keeps.step fun t t' hstep hcontent => ?_
      obtain ⟨-, -, -, hentries⟩ := FileTree.write_ok (step_ok (u := ()).mpr hstep)
      by_cases hq : place ++ [last] = q
      · rw [← h (hplace.trans hq), ← hq]
        exact Tree.fileAt_eq_some.mpr ((hentries _).trans (if_pos rfl))
      · exact (Tree.fileAt_congr ((hentries q).trans (if_neg (Ne.symm hq)))).trans hcontent

theorem keeps_writeBlob {bytes : Bytes} (h : placeOf blobDir name = q → bytes = content) :
    Keeps (fun t : Disk => t.fileAt q = some content) (writeBlob blobDir jobId name bytes) := by
  rw [writeBlob]
  refine Keeps.bind (keepsFile_createDirAll _ _) fun _ => Keeps.bind ?_ fun _ =>
    Keeps.bind (keeps_rawWrite h) fun _ => Keeps.pure _ _
  rw [Raw.createDirAll]
  exact Keeps.ite (Keeps.throw _ _) (keepsFile_makeDirs _ _ _ _)

/-- **a blob can be written under a name, on a disk without files, unless the name says otherwise** -/
theorem exists_writeBlob (jobId : String) (content : Bytes) (h : ¬ Unwritable blobDir name) :
    ∃ disk', Ok (writeBlob blobDir jobId name content) Tree.empty (blobRef jobId name) disk' := by
  rw [Unwritable, not_or, not_or, Bool.not_eq_true] at h
  obtain ⟨hnul, hproper, hfree⟩ := h
  obtain ⟨front, last, hsegments⟩ : ∃ front last, (blobTarget blobDir name).segments = front ++ [last] := by
    rcases List.eq_nil_or_concat (blobTarget blobDir name).segments with hnil | ⟨front, last, hsegments⟩
    · exact absurd hnil (segments_ne_nil blobDir name)
    · exact ⟨front, last, hsegments.trans List.concat_eq_append⟩
  have hlast : (blobTarget blobDir name).segments.getLast? = some last := by
    rw [hsegments, List.getLast?_concat]
  have hstays : stays last = false := Bool.not_eq_true _ ▸ fun h => hproper ⟨last, hlast, Or.inl h⟩
  have hdots : last ≠ ".." := fun h => hproper ⟨last, hlast, Or.inr h⟩
  have hplace : placeOf blobDir name = placeAt (blobTarget blobDir name).base front ++ [last] := by
    rw [placeOf, hsegments, placeAt_append]
    exact advance_name hstays hdots
  have hnone := fileAt_empty
  have hfirst : Ok (createDirAll blobDir) (Tree.empty : Disk) () ((Tree.empty : Disk).mkdirs blobDir) :=
    createDirAll_ok.mpr ⟨fun q _ => hnone q, rfl⟩
  obtain ⟨made, hmade, hdirs⟩ := @makeDirs_total (blobTarget blobDir name).base
    ((Tree.empty : Disk).mkdirs blobDir) front
    fun q => (fileAt_mkdirs (fun q _ => hnone q) q).trans (hnone q)
  obtain ⟨hwalk, hdir, -⟩ := makeDirs_ok hmade
  have hparent : (blobTarget blobDir name).parent = ⟨(blobTarget blobDir name).base, front⟩ := by
    rw [Raw.parent, hsegments, List.rdropWhile_concat_neg _ _ _ (by simp [hstays]), List.dropLast_concat]
  have hparents : Ok (blobTarget blobDir name).parent.createDirAll ((Tree.empty : Disk).mkdirs blobDir) () made := by
    have hparentNul : (blobTarget blobDir name).parent.hasNul = false := by
      rw [Raw.hasNul, List.any_eq_false] at hnul ⊢
      rw [hparent]
      exact fun segment hsegment => hnul segment (hsegments ▸ List.mem_append_left _ hsegment)
    rw [Raw.createDirAll, hparentNul, if_neg Bool.false_ne_true, hparent]
    exact hmade
  obtain ⟨disk', hwrite⟩ := @write_total _ _ _ made (placeAt (blobTarget blobDir name).base front ++ [last]) content
    (List.append_ne_nil_of_right_ne_nil _ (List.cons_ne_nil _ _))
    (by rw [List.dropLast_concat]; exact Tree.isDir_iff.mp hdir) fun hbad => by
      rw [← hplace] at hbad
      rcases hdirs _ (Tree.isDir_iff.mpr hbad) with hbefore | ⟨q, hq, hprefix⟩
      · rcases isDir_of_mkdirs hbefore with hempty | hprefix
        · rw [Tree.isDir_iff] at hempty
          by_cases hnil : placeOf blobDir name = []
          · rw [hplace] at hnil
            exact List.append_ne_nil_of_right_ne_nil _ (List.cons_ne_nil _ _) hnil
          · exact absurd ((if_neg hnil).symm.trans hempty) (Option.some_ne_none _).symm
        · exact hfree ⟨blobDir, List.mem_cons_self, hprefix⟩
      · refine hfree ⟨q, List.mem_cons_of_mem _ ?_, hprefix⟩
        rwa [hsegments, List.dropLast_concat]
  refine ⟨disk', bind_ok.mpr ⟨(), _, hfirst, bind_ok.mpr ⟨(), made, hparents, bind_ok.mpr ⟨(), disk', ?_, rfl⟩⟩⟩⟩
  refine Raw.write_ok.mpr ⟨hnul, _, last, ?_, hlast, hstays, hdots, hwrite⟩
  rw [hsegments, List.dropLast_concat]
  exact hwalk

/-! ## names and refs -/

theorem placeOf_relative (hrelative : isAbsolute name = false) (hbelow : ".." ∉ components name) :
    placeOf blobDir name = blobDir ++ components name := by
  have hnormal : ∀ c ∈ components name, NormalName c := by
    intro c hc
    obtain ⟨hempty, hdot, hslash⟩ := mem_components hc
    exact ⟨hempty, hdot, ne_of_mem_of_not_mem hc hbelow, hslash⟩
  rw [placeOf, blobTarget, Raw.join, hrelative, if_neg Bool.false_ne_true, List.nil_append, ← placeAt_filter,
    ← components_eq, placeAt_normal _ hnormal]

theorem dots_mem_components (h : ".." ∈ components name) : ".." ∈ components (normalizePath name) := by
  have hdots : ".." ∈ splitOn '/' name := List.mem_of_mem_filter h
  have hflat := @splitOn_normalizePath_join (splitOn '/' name) (List.ne_nil_of_mem hdots)
  rw [join_splitOn] at hflat
  rw [components, List.mem_filter, hflat]
  refine ⟨List.mem_flatMap.mpr ⟨"..", hdots, ?_⟩, by decide⟩
  decide

theorem relative_of_normalizePath (h : isAbsolute (normalizePath name) = false) : isAbsolute name = false := by
  rw [isAbsolute, beq_eq_false_iff_ne] at h ⊢
  intro hhead
  apply h
  rw [normalizePath, replaceChar, toList_mapChars, List.head?_map, hhead]
  decide

theorem resolveBlobRef_ok {path : Path} (h : resolveBlobRef jobId (blobRef jobId name) = .ok path) :
    normalizePath name ≠ "" ∧ isAbsolute (normalizePath name) = false ∧ ".." ∉ components (normalizePath name) ∧
      path = components (normalizePath name) := by
  rw [resolveBlobRef, blobRef, stripPrefix_append] at h
  dsimp only at h
  split at h
  · cases h
  · next hne =>
    split at h
    · cases h
    · next hboth =>
      rw [not_or, Bool.not_eq_true] at hboth
      exact ⟨hne, hboth.1, hboth.2, (Except.ok.inj h).symm⟩

/-- **the refs of a name lead back exactly when the name is plain, or cannot be written** -/
theorem leadsBack_iff : LeadsBack blobDir jobId name ↔ Unwritable blobDir name ∨ Plain name := by
  constructor
  · intro hback
    by_cases hwritable : Unwritable blobDir name
    · exact Or.inl hwritable
    obtain ⟨disk', hwrite⟩ := exists_writeBlob jobId [] hwritable
    obtain ⟨path, -, hresolve, hmakes⟩ := hback _ _ _ _ hwrite
    obtain ⟨-, hmakes', -⟩ := writeBlob_ok hwrite
    obtain ⟨hne, hrelative, hdots, rfl⟩ := resolveBlobRef_ok hresolve
    have hplace : blobDir ++ components (normalizePath name) = placeOf blobDir name := by
      by_contra hother
      have hnone := (hmakes'.2 _ hother).trans (fileAt_empty _)
      rw [Tree.fileAt_eq_some.mpr hmakes.1] at hnone
      cases hnone
    have hbelow : ".." ∉ components name := fun h => hdots (dots_mem_components h)
    have hnameRelative := relative_of_normalizePath hrelative
    rw [placeOf_relative hnameRelative hbelow, List.append_cancel_left_eq] at hplace
    refine Or.inr ⟨?_, separated_of_components fun c hc => ?_, hnameRelative, hbelow⟩
    · rintro rfl
      exact hne (by decide)
    · rw [← hplace] at hc
      exact separated_components hc
  · rintro (hunwritable | hplain) disk content ref disk' hwrite
    · exact absurd hunwritable (writeBlob_ok hwrite).2.2
    · obtain ⟨rfl, hmakes, hwritable⟩ := writeBlob_ok hwrite
      rw [placeOf_relative hplain.relative hplain.below] at hmakes
      refine ⟨components name, ?_, resolveBlobRef_blobRef jobId hplain, hmakes⟩
      intro hnil
      rw [hnil, List.append_nil] at hmakes
      refine hwritable (Or.inr (Or.inr ⟨blobDir, List.mem_cons_self, ?_⟩))
      rw [placeOf_relative hplain.relative hplain.below, hnil, List.append_nil]

end

end Truth

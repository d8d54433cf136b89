import SuperNova.Os.Overlap
import SuperNova.Os.Unzip

/-!
# Archives that cannot be unpacked

`read_store_zip` reads and writes entry after entry.  `archiveEntries` is what it reads: the entries
up to the first that is malformed, and whether it came to the end.

* `unzip_spares` (**main**): an archive that unpacks as a whole, or fails at its first entry, leaves
  all files as they are when the call fails.
-/

set_option linter.unusedSectionVars false

namespace Os

open Paths Io FileTree Workspace

/-- the entries `readEntries` reads before it stops, and whether no error stopped it -/
def archiveEntries (bytes : Bytes) (destination : Path) : Nat → Nat → List (Path × Bytes) × Bool
  | 0, _ => ([], true)
  | fuel + 1, offset =>
    if offset + 4 ≤ bytes.length then
      match readEntry bytes offset with
      | .error _ => ([], false)
      | .ok none => ([], true)
      | .ok (some (name, data, next)) =>
        match String.fromUTF8? ⟨name.toArray⟩ with
        | none => ([], false)
        | some name =>
          match resolveArchiveEntry destination name with
          | .error _ => ([], false)
          | .ok target =>
            let rest := archiveEntries bytes destination fuel next
            ((target, data) :: rest.1, rest.2)
    else ([], true)

/-- the writes of the loop -/
def unpackAll (entries : List (Path × Bytes)) : DiskM Unit :=
  entries.forM fun entry => writeAt entry.1 entry.2

/-- nothing stands in the way of an entry -/
def Free (t : Disk) (target : Path) : Prop := t.NoFileTo target.dropLast ∧ t.entry target ≠ some .dir

/-- nothing stands in the way of the entries, and no two of them of each other -/
structure Unpacks (t : Disk) (entries : List (Path × Bytes)) : Prop where
  intro ::
  free : ∀ entry ∈ entries, Free t entry.1
  apart : entries.Pairwise fun entry later => entry.1 = later.1 ∨ Apart entry.1 later.1

/-- the archive unpacks as a whole, or its first entry fails -/
def UnpacksOrFailsFirst (t : Disk) (entries : List (Path × Bytes)) (complete : Bool) : Prop :=
  (complete = true ∧ Unpacks t entries) ∨ ∀ entry ∈ entries.head?, ¬ Free t entry.1

/-- the id of the next transaction of an unzip -/
def unzipTxId (k : Kernel) : String :=
  "os_unzip" ++ "_" ++ toString k.clock ++ "_" ++ toString k.sequence

/-- an unzip that gets to the entries of its archive, outside the runtime's state -/
structure UnzipStarts (rt : Runtime) (archivePath destinationDir : String) (k : Kernel)
    (archive destination : Path) : Prop where
  intro ::
  granted : "os.unzip" ∈ rt.capabilities
  resolvesArchive : resolveWorkspacePath rt.workspaceRoot archivePath = .ok archive
  resolvesDestination : resolveWorkspacePath rt.workspaceRoot destinationDir = .ok destination
  backed : k.disk.entry destination ≠ none → Backed rt (unzipTxId k) "destination" k.disk destination
  outside : ¬ rt.stateRoot <+: destination
  noFileTo : k.disk.NoFileTo destination

/-- an unzip that starts finds an archive, which its own backup does not replace, that unpacks as a
whole or fails at its first entry -/
def UnzipSafe (rt : Runtime) (archivePath destinationDir : String) (k : Kernel) : Prop :=
  ∀ archive destination, UnzipStarts rt archivePath destinationDir k archive destination →
    ∀ bytes, k.disk.fileAt archive = some bytes →
      (k.disk.entry destination ≠ none →
        ¬ backupPath rt (unzipTxId k) "destination" <+: archive) ∧
      UnpacksOrFailsFirst (k.disk.mkdirs destination)
        (archiveEntries bytes destination (bytes.length + 1) 0).1
        (archiveEntries bytes destination (bytes.length + 1) 0).2

section
variable {rt : Runtime} {d t t' : Disk} {k k' : Kernel} {destination path q : Path}
variable {entries : List (Path × Bytes)} {bytes : Bytes}

/-! ## the loop and its writes -/

theorem readEntries_err (fuel : Nat) : ∀ (offset count : Nat) {t t' : Disk} {e : Fault},
    Err (readEntries bytes destination fuel offset count) t e t' →
      (∃ e', Err (unpackAll (archiveEntries bytes destination fuel offset).1) t e' t') ∨
      ((archiveEntries bytes destination fuel offset).2 = false ∧
        Ok (unpackAll (archiveEntries bytes destination fuel offset).1) t () t') := by
  induction fuel with
  | zero => exact fun _ _ _ _ _ h => nomatch h
  | succ fuel ih =>
    intro offset count t t' e h
    rw [readEntries] at h
    rw [archiveEntries]
    by_cases hmore : offset + 4 ≤ bytes.length
    swap
    · rw [if_neg hmore] at h
      cases h
    rw [if_pos hmore] at h ⊢
    rcases hread : readEntry bytes offset with e1 | (_ | ⟨name, data, next⟩)
    · rw [hread] at h
      cases h
      exact Or.inr ⟨rfl, rfl⟩
    · rw [hread] at h
      cases h
    · rw [hread] at h
      dsimp only at h ⊢
      cases hname : String.fromUTF8? ⟨name.toArray⟩ with
      | none =>
        rw [hname] at h
        cases h
        exact Or.inr ⟨rfl, rfl⟩
      | some name =>
        rw [hname] at h
        dsimp only at h ⊢
        cases htarget : resolveArchiveEntry destination name with
        | error e1 =>
          rw [htarget] at h
          cases h
          exact Or.inr ⟨rfl, rfl⟩
        | ok target =>
          rw [htarget] at h
          dsimp only at h ⊢
          rcases bind_err.mp h with h1 | ⟨_, t1, h1, g1⟩
          · exact Or.inl ⟨e, bind_err.mpr (Or.inl (bind_err.mpr (Or.inl h1)))⟩
          rcases bind_err.mp g1 with h2 | ⟨_, t2, h2, g2⟩
          · exact Or.inl ⟨e, bind_err.mpr (Or.inl (bind_err.mpr (Or.inr ⟨_, t1, h1, h2⟩)))⟩
          have hwrite : Ok (writeAt target data) t () t2 := bind_ok.mpr ⟨_, t1, h1, h2⟩
          rcases ih next (count + 1) g2 with ⟨e', h3⟩ | ⟨hfalse, h3⟩
          · exact Or.inl ⟨e', bind_err.mpr (Or.inr ⟨_, t2, hwrite, h3⟩)⟩
          · exact Or.inr ⟨hfalse, bind_ok.mpr ⟨_, t2, hwrite, h3⟩⟩

theorem archiveEntries_below (fuel : Nat) : ∀ offset : Nat,
    ∀ entry ∈ (archiveEntries bytes destination fuel offset).1, destination <+: entry.1 := by
  induction fuel with
  | zero => exact fun _ _ h => absurd h List.not_mem_nil
  | succ fuel ih =>
    intro offset entry h
    rw [archiveEntries] at h
    split at h
    · split at h
      · exact absurd h List.not_mem_nil
      · exact absurd h List.not_mem_nil
      · split at h
        · exact absurd h List.not_mem_nil
        · split at h
          · exact absurd h List.not_mem_nil
          · rename_i htarget
            rcases List.mem_cons.mp h with rfl | h
            · exact resolveArchiveEntry_below htarget
            · exact ih _ entry h
    · exact absurd h List.not_mem_nil

theorem writeAt_total (data : Bytes) (h : Free t path) (hp : path ≠ []) :
    ∃ t', Ok (writeAt path data) t () t' := by
  have h1 : Ok (createDirAll path.dropLast : DiskM Unit) t () _ := createDirAll_ok.mpr ⟨h.1, rfl⟩
  have hlen : ¬ path <+: path.dropLast := by
    apply not_prefix_of_length
    have := List.length_pos_iff.mpr hp
    rw [List.length_dropLast]
    omega
  have hdir : (t.mkdirs path.dropLast).entry path.dropLast = some .dir := by
    rw [Tree.mkdirs_entry, if_pos List.prefix_rfl]
  have hne : (t.mkdirs path.dropLast).entry path ≠ some .dir := by
    rw [Tree.mkdirs_entry, if_neg hlen]
    exact h.2
  obtain ⟨t', h2⟩ := write_total data hp hdir hne
  exact ⟨t', bind_ok.mpr ⟨_, _, h1, h2⟩⟩

theorem Free.after {data : Bytes} (hfree : Free t q) (h : Ok (writeAt path data) t () t')
    (ha : path = q ∨ Apart path q) : Free t' q := by
  obtain ⟨hp, -, -, he⟩ := writeAt_ok h
  have hlen : ¬ path <+: path.dropLast := by
    apply not_prefix_of_length
    have := List.length_pos_iff.mpr hp
    rw [List.length_dropLast]
    omega
  have habove : ∀ r, r <+: q.dropLast → r ≠ path := by
    rintro r hr rfl
    rcases ha with rfl | ha
    · exact hlen hr
    · exact ha.1 (hr.trans (dropLast_above q))
  constructor
  · intro r hr
    by_cases hdir : r <+: path
    · exact Tree.fileAt_of_dir (by rw [he, if_neg (habove r hr), if_pos hdir])
    · rw [← hfree.1 r hr]
      exact Tree.fileAt_congr (by rw [he, if_neg (habove r hr), if_neg hdir])
  · rcases ha with rfl | ha
    · rw [he, if_pos rfl]
      exact fun c => nomatch c
    · rw [he, if_neg ha.ne.symm, if_neg ha.2]
      exact hfree.2

theorem Free.ne_nil (h : Free t path) : path ≠ [] := fun hnil => h.2 (hnil ▸ t.root)

theorem unpackAll_total (entries : List (Path × Bytes)) : ∀ {t : Disk}, Unpacks t entries →
    ∃ t', Ok (unpackAll entries) t () t' := by
  induction entries with
  | nil => exact fun _ => ⟨_, rfl⟩
  | cons entry rest ih =>
    intro t h
    obtain ⟨hfirst, hrest⟩ := List.pairwise_cons.mp h.apart
    have hfree := h.free entry List.mem_cons_self
    obtain ⟨t1, h1⟩ := writeAt_total entry.2 hfree hfree.ne_nil
    obtain ⟨t2, h2⟩ := ih ⟨fun later hlater =>
      (h.free later (List.mem_cons_of_mem _ hlater)).after h1 (hfirst later hlater), hrest⟩
    exact ⟨t2, forM_cons_ok.mpr ⟨t1, h1, h2⟩⟩

theorem unpackAll_err {complete : Bool} (h : UnpacksOrFailsFirst t entries complete)
    (hrun : (∃ e, Err (unpackAll entries) t e t') ∨
      (complete = false ∧ Ok (unpackAll entries) t () t')) (q : Path) :
    t'.fileAt q = t.fileAt q := by
  rcases h with ⟨hcomplete, hunpacks⟩ | hfirst
  · obtain ⟨t1, h1⟩ := unpackAll_total entries hunpacks
    rcases hrun with ⟨e, herr⟩ | ⟨hfalse, -⟩
    · cases h1.symm.trans herr
    · cases hfalse.symm.trans hcomplete
  · cases entries with
    | nil =>
      rcases hrun with ⟨e, herr⟩ | ⟨-, hok⟩
      · cases herr
      · cases hok
        rfl
    | cons entry rest =>
      have hblocked : ∀ {t1 : Disk}, ¬ Ok (writeAt entry.1 entry.2) t () t1 := fun h1 =>
        hfirst entry rfl ⟨(writeAt_ok h1).2.1, (writeAt_ok h1).2.2.1⟩
      rcases hrun with ⟨e, herr⟩ | ⟨-, hok⟩
      · rcases bind_err.mp herr with h1 | ⟨_, _, h1, _⟩
        · exact writeAt_err h1 q
        · exact absurd h1 hblocked
      · obtain ⟨_, h1, _⟩ := forM_cons_ok.mp hok
        exact absurd h1 hblocked

theorem keepsFile_unpackAll (hentries : ∀ entry ∈ entries, destination <+: entry.1)
    (hq : ¬ destination <+: q) : KeepsFile q (unpackAll entries) := by
  refine KeepsFile.forM _ fun entry hentry => ?_
  refine KeepsFile.bind (keepsFile_createDirAll _) fun _ => keepsFile_write ?_ _
  rintro rfl
  exact hq (hentries entry hentry)

/-! ## the call -/

theorem Free.congr {target : Path} (hbelow : destination <+: target)
    (hdir : t.entry destination = some .dir)
    (h : ∀ q, destination <+: q → t'.entry q = t.entry q) : Free t' target ↔ Free t target := by
  have hdir' : t'.entry destination = some .dir := (h _ List.prefix_rfl).trans hdir
  have hfile : ∀ q, q <+: target.dropLast → t'.fileAt q = t.fileAt q := by
    intro q hq
    rcases List.prefix_or_prefix_of_prefix (hq.trans (dropLast_above _)) hbelow with hqd | hdq
    · rw [Tree.noFileTo_of_dir hdir q hqd, Tree.noFileTo_of_dir hdir' q hqd]
    · exact Tree.fileAt_congr (h q hdq)
  unfold Free Tree.NoFileTo
  rw [h target hbelow]
  exact and_congr_left' (forall₂_congr fun q hq => by rw [hfile q hq])

theorem UnpacksOrFailsFirst.congr {complete : Bool}
    (hentries : ∀ entry ∈ entries, destination <+: entry.1) (hdir : t.entry destination = some .dir)
    (h : ∀ q, destination <+: q → t'.entry q = t.entry q)
    (hsafe : UnpacksOrFailsFirst t entries complete) : UnpacksOrFailsFirst t' entries complete := by
  rcases hsafe with ⟨hcomplete, hunpacks⟩ | hfirst
  · refine Or.inl ⟨hcomplete, fun entry hentry => ?_, hunpacks.apart⟩
    exact (Free.congr (hentries entry hentry) hdir h).mpr (hunpacks.free entry hentry)
  · refine Or.inr fun entry hentry hfree => hfirst entry hentry ?_
    exact (Free.congr (hentries entry (List.mem_of_mem_head? hentry)) hdir h).mp hfree

theorem archive_after_backup {t t' : Disk} {archive slot : Path}
    (hno : t.NoFileTo slot.dropLast) (h : Grafted t t' destination slot)
    (hslot : ¬ slot <+: archive) (hfile : t.fileAt archive = some bytes) :
    t'.fileAt archive = some bytes := by
  have habove : ¬ archive <+: slot := by
    intro c
    rcases prefix_dropLast c with rfl | c
    · exact hslot List.prefix_rfl
    · rw [hno archive c] at hfile
      cases hfile
  rw [← hfile]
  exact Tree.fileAt_congr (by rw [h, if_neg hslot, if_neg habove])

/-- **an archive that unpacks as a whole or fails at its first entry** leaves all files as they are
when the call fails -/
theorem unzip_spares {archivePath destinationDir : String}
    (h : UnzipSafe rt archivePath destinationDir k) :
    Spares rt k.disk (unzipArchive rt archivePath destinationDir) k := by
  have hs := SameFiles.refl rt k.disk
  refine Spares.withCapability hs fun hcap => Spares.resolvePath_bind hs fun archive harchive => ?_
  refine Spares.resolvePath_bind hs fun destination hdestination => Spares.get_bind ?_
  by_cases hfile : k.disk.isFile archive = true
  swap
  · rw [if_neg hfile]
    exact Spares.blocked hs _
  rw [if_pos hfile]
  refine Spares.bind hs (fun _ _ => leavesFile_newTxId _) fun txId k1 h1 hs1 => ?_
  obtain ⟨htx, hd1, -⟩ := newTxId_ok h1
  change txId = unzipTxId k at htx
  subst htx
  refine Spares.bind hs1 (fun q hq => leavesFile_backupWorkspacePath _ _ hq) ?_
  rintro ⟨b, ref⟩ k2 h2 hs2
  have hsaved := backupWorkspacePath_backed h2
  rw [hd1] at hsaved
  refine Spares.onDisk_bind hs2 (fun e t' herr q hq => ?_) fun _ _ _ =>
    Spares.total_bind (total_recordTx _) fun _ _ => Spares.success _
  symm
  rcases bind_err.mp herr with h3 | ⟨_, t3, h3, g3⟩
  · exact (keepsFile_createDirAll destination).of_err h3
  obtain ⟨hno, rfl⟩ := createDirAll_ok.mp h3
  rw [← fileAt_mkdirs hno q]
  rcases bind_err.mp g3 with h4 | ⟨content, t4, h4, g4⟩
  · exact (keepsFile_read archive).of_err h4
  obtain ⟨hcontent, rfl⟩ := read_ok.mp h4
  obtain ⟨bytes, hbytes⟩ := Tree.isFile_iff.mp hfile
  have hbytes := Tree.fileAt_eq_some.mpr hbytes
  have hentries := @archiveEntries_below destination content (content.length + 1) 0
  have hrun := readEntries_err _ 0 0 g4
  by_cases hbelow : destination <+: q
  swap
  · rcases hrun with ⟨_, h5⟩ | ⟨-, h5⟩
    · exact (keepsFile_unpackAll hentries hbelow).of_err h5
    · exact (keepsFile_unpackAll hentries hbelow).of_ok h5
  have hout : ¬ rt.stateRoot <+: destination := fun c => hq (c.trans hbelow)
  have hstarts : UnzipStarts rt archivePath destinationDir k archive destination := by
    refine ⟨hcap, harchive, hdestination, fun hx => ?_, hout, fun p hp => ?_⟩
    · exact (hsaved.resolve_left fun hnone => hx hnone.1).2.1
    · exact (hs2 p fun c => hout (c.trans hp)).trans (hno p hp)
  obtain ⟨hslot, hsafe⟩ := h archive destination hstarts bytes hbytes
  have hcontent' : k2.disk.fileAt archive = some content :=
    (fileAt_mkdirs hno archive).symm.trans (Tree.fileAt_eq_some.mpr hcontent)
  have hdir : (k.disk.mkdirs destination).entry destination = some .dir := by
    rw [Tree.mkdirs_entry, if_pos List.prefix_rfl]
  rcases hsaved with ⟨-, hsame⟩ | ⟨hx, hbacked, hgrafted⟩
  · rw [hsame] at hcontent' hrun ⊢
    cases hcontent'.symm.trans hbytes
    exact unpackAll_err hsafe hrun q
  · rw [archive_after_backup (dropLast_backupPath rt _ _ ▸ hbacked.noFileTo) hgrafted (hslot hx)
      hbytes] at hcontent'
    cases hcontent'
    refine unpackAll_err (hsafe.congr hentries hdir fun p hp => ?_) hrun q
    rw [Tree.mkdirs_entry, Tree.mkdirs_entry]
    by_cases hpd : p <+: destination
    · rw [if_pos hpd, if_pos hpd]
    · rw [if_neg hpd, if_neg hpd]
      exact hgrafted.apart (hbacked.apart.symm.mono List.prefix_rfl hp)

end

end Os

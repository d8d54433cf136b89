import SuperNova.Lib.Undo
import SuperNova.Os.Unpack
import SuperNova.Os.Unzip

/-!
# Runs and failed calls

A run is a list of operations that all succeed, each at some time of the clock; it collects the
transaction ids the operations recorded.  `rollbackAll_restores`: rolling these ids back in
reverse order gives the workspace's files back, for every run without an unzip.  An unzip breaks
this (`unzip_rollback_loses_archive`): its record claims the archive as a source that has to be
removed and has no backup.

`failed_call_keeps` (**main**): every mutation of the OS runtime that is safe leaves the files outside
the runtime's state as they are when it returns an error or a receipt without success.  Writes,
deletions and zips are always safe.  A copy of a path onto itself, and an archive with a bad entry
after a good one, are not.
-/

set_option linter.unusedSectionVars false
set_option linter.unusedVariables false

namespace Os

open Paths Io FileTree Workspace

/-- a mutation of the OS runtime with its arguments -/
inductive Call where
  | writeFile (path : String) (content : Bytes) (writeKind : String)
  | writeArtifact (path : String) (content : Bytes)
  | writeTempDataset (path : String) (content : Bytes)
  | writeSourceMutationApply (path : String) (content : Bytes)
  | copyPath (source destination : String)
  | movePath (source destination : String)
  | renamePath (source destination : String)
  | deletePath (path : String)
  | zipPaths (sources : List String) (destination : String)
  | unzipArchive (archive destination : String)

namespace Call

def run (rt : Runtime) : Call → KernelM Receipt
  | writeFile path content kind => Os.writeFile rt path content kind
  | writeArtifact path content => Os.writeArtifact rt path content
  | writeTempDataset path content => Os.writeTempDataset rt path content
  | writeSourceMutationApply path content => Os.writeSourceMutationApply rt path content
  | copyPath s d => Os.copyPath rt s d
  | movePath s d => Os.movePath rt s d
  | renamePath s d => Os.renamePath rt s d
  | deletePath path => Os.deletePath rt path
  | zipPaths sources d => Os.zipPaths rt sources d
  | unzipArchive a d => Os.unzipArchive rt a d

/-- the paths a call changes, or stores in its record -/
def paths : Call → List String
  | writeFile path _ _ | writeArtifact path _ | writeTempDataset path _
  | writeSourceMutationApply path _ | deletePath path => [path]
  | copyPath s d | movePath s d | renamePath s d => [s, d]
  | zipPaths _ d => [d]
  | unzipArchive a d => [a, d]

def isUnzip : Call → Bool
  | unzipArchive _ _ => true
  | _ => false

end Call

/-- the operations of a run, each at its time; all must succeed; the ids they recorded -/
def runCalls (rt : Runtime) : List (Nat × Call) → Kernel → Option (List String × Kernel)
  | [], k => some ([], k)
  | (now, call) :: rest, k =>
    match call.run rt { k with clock := now } with
    | .ok r k' =>
      if r.status = "success" then
        (r.data.strAt? "tx_id").bind fun id =>
          (runCalls rt rest k').map fun res => (id :: res.1, res.2)
      else none
    | .error _ _ => none

/-- roll ids back one after another; every rollback must succeed -/
def rollbackAll (rt : Runtime) : List String → Kernel → Option Kernel
  | [], k => some k
  | id :: rest, k =>
    match rollbackTx rt id k with
    | .ok r k' => if r.status = "success" then rollbackAll rt rest k' else none
    | .error _ _ => none

/-- a run and then the rollback of its ids, last first -/
def runAndRollback (rt : Runtime) (calls : List (Nat × Call)) (k : Kernel) : Option Kernel :=
  (runCalls rt calls k).bind fun res => rollbackAll rt res.1.reverse res.2

variable {rt : Runtime} {k k' : Kernel} {r : Receipt}

/-- **a successful call logged the step that undoes it**, unless it unpacked an archive -/
theorem Call.logs {call : Call} (h : Ok (call.run rt) k r k') (hs : r.status = "success")
    (hsep : ∀ s ∈ call.paths, Separated s) (hclear : ∀ s ∈ call.paths, Clear rt s)
    (hunzip : call.isUnzip = false) : LogsStep rt k k' r := by
  cases call with
  | writeFile path c kind =>
    exact writeFile_logs h hs (hsep path (by simp [paths])) (hclear path (by simp [paths]))
  | writeArtifact path c =>
    exact writeFile_logs h hs (hsep path (by simp [paths])) (hclear path (by simp [paths]))
  | writeTempDataset path c =>
    exact writeFile_logs h hs (hsep path (by simp [paths])) (hclear path (by simp [paths]))
  | writeSourceMutationApply path c =>
    exact writeFile_logs h hs (hsep path (by simp [paths])) (hclear path (by simp [paths]))
  | copyPath s d =>
    exact copyLike_logs h hs (hsep s (by simp [paths])) (hsep d (by simp [paths]))
      (hclear s (by simp [paths])) (hclear d (by simp [paths]))
  | movePath s d =>
    exact copyLike_logs h hs (hsep s (by simp [paths])) (hsep d (by simp [paths]))
      (hclear s (by simp [paths])) (hclear d (by simp [paths]))
  | renamePath s d =>
    exact copyLike_logs h hs (hsep s (by simp [paths])) (hsep d (by simp [paths]))
      (hclear s (by simp [paths])) (hclear d (by simp [paths]))
  | deletePath path =>
    exact deletePath_logs h hs (hsep path (by simp [paths])) (hclear path (by simp [paths]))
  | zipPaths sources d =>
    exact zipPaths_logs h hs (hsep d (by simp [paths])) (hclear d (by simp [paths]))
  | unzipArchive a d => cases hunzip

/-! ## the undo log of a job -/

/-- the log of recorded transactions: what is observed are the files outside the runtime's state,
an entry is a record with its backups, and undoing it is a successful rollback -/
def txLog (rt : Runtime) : UndoLog Kernel String where
  same k k' := SameFiles rt k.disk k'.disk
  kept id k k' := TxName id → k'.blobs (txBlobName id) = k.blobs (txBlobName id) ∧
    ∀ q, txBackups rt id <+: q → k'.disk.entry q = k.disk.entry q
  undo id k k' := ∃ r, Ok (rollbackTx rt id) k r k' ∧ r.status = "success"
  same_refl k := SameFiles.refl rt k.disk
  same_trans h h' := h.trans h'
  kept_refl id k _ := ⟨rfl, fun _ _ => rfl⟩
  kept_trans h h' hn := ⟨(h' hn).1.trans (h hn).1,
    fun q hq => ((h' hn).2 q hq).trans ((h hn).2 q hq)⟩

theorem Logged.step {record : OsTxRecord} (hcap : "os.rollback_tx" ∈ rt.capabilities)
    (h : Logged rt k k' record) : (txLog rt).Step record.txId k k' where
  undoes t hsame hkept := by
    have hname := h.restorable.kept.name
    obtain ⟨hblob, hback⟩ := hkept hname
    obtain ⟨t', ⟨r, hr, hs, hfiles⟩, hstate, hblobs⟩ := rollbackTx_restores hcap
      (h.restorable.transfer hsame hback hblob)
    refine ⟨t', ⟨r, hr, hs⟩, hfiles, fun id _ => ⟨by rw [hblobs], fun q hq => ?_⟩⟩
    exact hstate q ((stateRoot_prefix_txBackups rt id).trans hq)
  others id hid hn := ⟨h.blobs id hn hid, h.backups id hid⟩

theorem runCalls_run (hcap : "os.rollback_tx" ∈ rt.capabilities) (calls : List (Nat × Call))
    (hsep : ∀ c ∈ calls, ∀ s ∈ c.2.paths, Separated s)
    (hclear : ∀ c ∈ calls, ∀ s ∈ c.2.paths, Clear rt s)
    (hunzip : ∀ c ∈ calls, c.2.isUnzip = false) :
    ∀ {k k' : Kernel} {ids : List String}, runCalls rt calls k = some (ids, k') →
      (txLog rt).Run k ids k' := by
  induction calls with
  | nil =>
    intro k k' ids h
    cases h
    exact .nil k
  | cons c rest ih =>
    obtain ⟨now, call⟩ := c
    intro k k' ids h
    rw [runCalls] at h
    split at h
    · rename_i r k1 hr
      split at h
      · rename_i hs
        obtain ⟨id, hid, h⟩ := Option.bind_eq_some_iff.mp h
        obtain ⟨⟨ids', k2⟩, h2, e⟩ := Option.map_eq_some_iff.mp h
        cases e
        obtain ⟨record, hl, hr'⟩ := Call.logs hr hs (hsep _ List.mem_cons_self)
          (hclear _ List.mem_cons_self) (hunzip _ List.mem_cons_self)
        rw [hid] at hr'
        cases hr'
        have hl' : Logged rt k k1 record := hl.congr rfl rfl rfl rfl
        exact .cons (hl'.step hcap) (ih (fun c hc => hsep c (List.mem_cons_of_mem _ hc))
          (fun c hc => hclear c (List.mem_cons_of_mem _ hc))
          (fun c hc => hunzip c (List.mem_cons_of_mem _ hc)) h2)
      · cases h
    · cases h

theorem rollbackAll_of_undoAll {ids : List String} (h : (txLog rt).UndoAll ids k k') :
    rollbackAll rt ids k = some k' := by
  induction h with
  | nil s => rfl
  | cons hu _ ih =>
    obtain ⟨r, hr, hs⟩ := hu
    rw [rollbackAll, hr]
    show (if r.status = "success" then _ else none) = _
    rw [if_pos hs, ih]

/-- **rolling a run back in reverse order restores the workspace's files** -/
theorem rollbackAll_restores (rt : Runtime) (k : Kernel) (calls : List (Nat × Call))
    (ids : List String) (k' : Kernel) (hrun : runCalls rt calls k = some (ids, k'))
    (hids : ids.Nodup) (hcap : "os.rollback_tx" ∈ rt.capabilities)
    (hsep : ∀ c ∈ calls, ∀ s ∈ c.2.paths, Separated s)
    (hclear : ∀ c ∈ calls, ∀ s ∈ c.2.paths, Clear rt s)
    (hunzip : ∀ c ∈ calls, c.2.isUnzip = false) :
    ∃ k'', rollbackAll rt ids.reverse k' = some k'' ∧ SameFiles rt k.disk k''.disk := by
  have hr := runCalls_run hcap calls hsep hclear hunzip hrun
  obtain ⟨k'', hu, hsame, -⟩ := hr.undo hids k' (SameFiles.refl rt _)
    fun id _ => (txLog rt).kept_refl id k'
  exact ⟨k'', rollbackAll_of_undoAll hu, hsame⟩

/-! ## two runs on a small disk -/

theorem sampleRuntime_clear (s : String) : Clear sampleRuntime s :=
  clear_of_apart (by decide) s

/-- overwriting a file and rolling the write back -/
theorem rollbackAll_restores_overwrite :
    ∃ ids k', runCalls sampleRuntime [(5, .writeFile "x" [1] "artifact")]
        (kernelOf [(["ws", "x"], [7])]) = some (ids, k') ∧
      ∃ k'', rollbackAll sampleRuntime ids.reverse k' = some k'' ∧
        SameFiles sampleRuntime (kernelOf [(["ws", "x"], [7])]).disk k''.disk := by
  have hrun : (runCalls sampleRuntime [(5, .writeFile "x" [1] "artifact")]
      (kernelOf [(["ws", "x"], [7])])).map (·.1) = some ["os_write_5_1"] := by decide
  obtain ⟨⟨ids, k'⟩, h, e⟩ := Option.map_eq_some_iff.mp hrun
  have hids : ids.Nodup := by
    rw [show ids = _ from e]
    decide
  exact ⟨ids, k', h, rollbackAll_restores sampleRuntime _ _ ids k' h hids (by decide) (by decide)
    (fun _ _ s _ => sampleRuntime_clear s) (by decide)⟩

/-- a workspace with one archive without entries -/
def archiveKernel : Kernel := kernelOf [(["ws", "a.zip"], zipBytes [])]

/-- unpacking an archive and rolling back loses the archive -/
theorem unzip_rollback_loses_archive :
    ∃ ids k' k'', runCalls sampleRuntime [(5, .unzipArchive "a.zip" "out")] archiveKernel =
        some (ids, k') ∧ ids.Nodup ∧ rollbackAll sampleRuntime ids.reverse k' = some k'' ∧
      k''.disk.fileAt ["ws", "a.zip"] ≠ archiveKernel.disk.fileAt ["ws", "a.zip"] := by
  have hfile : (archiveKernel.disk.fileAt ["ws", "a.zip"]).isSome := by decide
  have hrun : (runCalls sampleRuntime [(5, .unzipArchive "a.zip" "out")] archiveKernel).map
      (·.1) = some ["os_unzip_5_1"] := by decide
  obtain ⟨⟨ids, k'⟩, h, e⟩ := Option.map_eq_some_iff.mp hrun
  have hids : ids = ["os_unzip_5_1"] := e
  rw [runCalls] at h
  split at h
  · rename_i r k1 hr
    split at h
    · rename_i hs
      obtain ⟨p, id, r', k'', hp, -, hid, hroll, hs', hgone⟩ := unzipArchive_rollback hr hs
        (by decide) (by decide) (by decide) (sampleRuntime_clear _) (sampleRuntime_clear _)
      have hp' : p = ["ws", "a.zip"] := by
        have h0 : resolveWorkspacePath ["ws"] "a.zip" = .ok ["ws", "a.zip"] := by decide
        exact Except.ok.inj (hp.symm.trans h0)
      rw [hid] at h
      cases h
      refine ⟨[id], k1, k'', ?_, List.nodup_singleton id, ?_, ?_⟩
      · rw [runCalls, hr]
        show (if r.status = "success" then _ else none) = _
        rw [if_pos hs, hid]
        rfl
      · rw [List.reverse_singleton, rollbackAll, hroll]
        show (if r'.status = "success" then _ else none) = _
        rw [if_pos hs']
        rfl
      · rw [← hp', hgone, hp']
        intro c
        rw [← c] at hfile
        cases hfile
    · cases h
  · cases h

end Os

namespace Os

open Paths Io FileTree Workspace

/-- a copy starts on paths apart only, and an archive unpacks as a whole or not at all -/
def Call.Safe (rt : Runtime) (k : Kernel) : Call → Prop
  | .copyPath source destination => CopySafe rt "os.copy_path" source destination k
  | .movePath source destination => CopySafe rt "os.move_path" source destination k
  | .renamePath source destination => CopySafe rt "os.rename_path" source destination k
  | .unzipArchive archive destination => UnzipSafe rt archive destination k
  | .writeFile .. | .writeArtifact .. | .writeTempDataset .. | .writeSourceMutationApply ..
  | .deletePath .. | .zipPaths .. => True

theorem Call.spares {rt : Runtime} {k : Kernel} {call : Call} (h : call.Safe rt k) :
    Spares rt k.disk (call.run rt) k := by
  cases call with
  | writeFile path content kind => exact write_spares _ path content kind k
  | writeArtifact path content => exact write_spares _ path content _ k
  | writeTempDataset path content => exact write_spares _ path content _ k
  | writeSourceMutationApply path content => exact write_spares _ path content _ k
  | copyPath source destination => exact copyLike_spares h
  | movePath source destination => exact copyLike_spares h
  | renamePath source destination => exact copyLike_spares h
  | deletePath path => exact delete_spares path k
  | zipPaths sources destination => exact zip_spares sources destination k
  | unzipArchive archive destination => exact unzip_spares h

end Os

import SuperNova.Data.Rename
import SuperNova.Os.Runs

/-!
# Which announced transactions can be rolled back

The capabilities of the OS runtime and the two batch mutations of the data runtime all announce a
transaction with a `tx_recorded` event.  `rollback_tx` reads `tx/<id>.json`; the batch mutations
store `tx/<id>_rollback_plan.json`, so their transactions are not found (`applyOrganizeTx_unknown`,
`renameBatchApply_unknown`).  `rollback_restores_iff`: a rollback called next restores the files
exactly for the OS capabilities other than an unzip.
-/

set_option linter.unusedSectionVars false

namespace Data

open Paths Io FileTree Workspace Os Text

variable {rt : Runtime} {k k' : Kernel} {r : Receipt}

/-- a capability that announces a transaction, with its arguments -/
inductive TxCapability where
  | os (call : Os.Call)
  | applyOrganizeTx (organizePlanRef : String)
  | renameBatchApply (renamePlanRef : String)

namespace TxCapability

def run (rt : Runtime) : TxCapability → KernelM Receipt
  | os call => call.run rt
  | applyOrganizeTx ref => Data.applyOrganizeTx rt ref
  | renameBatchApply ref => Data.renameBatchApply rt ref

def paths : TxCapability → List String
  | os call => call.paths
  | applyOrganizeTx _ | renameBatchApply _ => []

/-- an OS capability that does not unpack an archive -/
def isUndoable : TxCapability → Bool
  | os call => !call.isUnzip
  | applyOrganizeTx _ | renameBatchApply _ => false

end TxCapability

/-! ## the records of a batch -/

theorem applyOperations_blobs {ops l : List WorkspaceMutationOp}
    (h : Ok (applyOperations rt ops) k l k') : k'.blobs = k.blobs := by
  induction ops generalizing k l with
  | nil =>
    cases h
    rfl
  | cons op rest ih =>
    obtain ⟨b, k1, h1, g1⟩ := bind_ok.mp h
    obtain ⟨l', k2, h2, g2⟩ := bind_ok.mp g1
    cases g2
    rw [ih h2]
    obtain ⟨s, t, -, -, ⟨-, -, rfl⟩ | ⟨-, -, d, -, rfl⟩⟩ := applyOperation_ok h1 <;> rfl

theorem rollbackPlanName_eq (txId : String) :
    rollbackPlanName txId = "tx/" ++ (safeBlobName txId ++ "_rollback_plan.json") := rfl

theorem rollbackPlanName_ne (txId : String) : txBlobName txId ≠ rollbackPlanName txId := by
  intro e
  rw [txBlobName, rollbackPlanName_eq] at e
  have e1 := congrArg String.toList e
  simp only [String.toList_append, List.append_cancel_left_eq] at e1
  exact absurd e1 (by decide)

theorem recordBatch_ok {txId operation ref : String} {l : List WorkspaceMutationOp}
    (h : Ok (recordBatch rt txId operation l) k ref k') :
    k'.disk = k.disk ∧ k'.blobs (txBlobName txId) = k.blobs (txBlobName txId) := by
  obtain ⟨_, k1, h1, g1⟩ := bind_ok.mp h
  obtain ⟨_, k2, h2, g2⟩ := bind_ok.mp g1
  cases g2
  obtain ⟨d1, b1⟩ := writeBlob_ok h1
  obtain ⟨d2, b2⟩ := emitEvent_ok h2
  refine ⟨d2.trans d1, ?_⟩
  rw [b2, b1, Function.update_of_ne (rollbackPlanName_ne txId)]

theorem batch_unknown {α : Type} {capability kind ref id : String} {parse : Json → Option α}
    {operations : α → List WorkspaceMutationOp}
    {receipt : α → String → List WorkspaceMutationOp → String → Receipt}
    (htx : ∀ plan txId moved rollbackRef, (receipt plan txId moved rollbackRef).data.strAt? "tx_id" = some txId)
    (h : Ok (withCapability rt capability do
      let plan ← readParsed rt parse ref
      let txId ← newTxId kind
      let moved ← applyOperations rt (operations plan)
      let rollbackRef ← recordBatch rt txId capability moved
      emitReceipt rt (receipt plan txId moved rollbackRef)
      pure (receipt plan txId moved rollbackRef)) k r k')
    (hs : r.status = "success") (hid : r.data.strAt? "tx_id" = some id) :
    k'.blobs (txBlobName id) = k.blobs (txBlobName id) := by
  obtain ⟨-, g⟩ := withCapability_success h hs
  obtain ⟨plan, k1, h1, g1⟩ := bind_ok.mp g
  obtain ⟨txId, k2, h2, g2⟩ := bind_ok.mp g1
  obtain ⟨moved, k3, h3, g3⟩ := bind_ok.mp g2
  obtain ⟨rollbackRef, k4, h4, g4⟩ := bind_ok.mp g3
  obtain ⟨_, k5, h5, g5⟩ := bind_ok.mp g4
  cases g5
  rw [htx] at hid
  cases hid
  rw [(emitReceipt_ok h5).2, (recordBatch_ok h4).2, applyOperations_blobs h3, (newTxId_ok h2).2.2,
    (readParsed_ok.mp h1).2]

theorem applyOrganizeTx_unknown {ref id : String} (h : Ok (applyOrganizeTx rt ref) k r k')
    (hs : r.status = "success") (hid : r.data.strAt? "tx_id" = some id) :
    k'.blobs (txBlobName id) = k.blobs (txBlobName id) := batch_unknown (fun _ _ _ _ => rfl) h hs hid

theorem renameBatchApply_unknown {ref id : String} (h : Ok (renameBatchApply rt ref) k r k')
    (hs : r.status = "success") (hid : r.data.strAt? "tx_id" = some id) :
    k'.blobs (txBlobName id) = k.blobs (txBlobName id) := batch_unknown (fun _ _ _ _ => rfl) h hs hid

theorem applyOrganizeTx_of_loop {ref : String} {plan : WorkspaceOrganizePlan} {k3 : Kernel}
    {l : List WorkspaceMutationOp} (hcap : "workspace.apply_organize_tx" ∈ rt.capabilities)
    (hread : readBlob rt ref k = .ok plan.toJson)
    (hloop : Ok (applyOperations rt plan.operations) { k with sequence := k.sequence + 1 } l k3) :
    ∃ r k', Ok (applyOrganizeTx rt ref) k r k' ∧ r.status = "success" ∧
      r.data.strAt? "tx_id" = some ("workspace_organize" ++ "_" ++ toString k.clock ++ "_" ++
        toString k.sequence) ∧ k'.disk = k3.disk := by
  have h1 : Ok (readParsed rt WorkspaceOrganizePlan.ofJson ref) k plan k :=
    readParsed_ok.mpr ⟨⟨_, hread, WorkspaceOrganizePlan.ofJson_toJson plan⟩, rfl⟩
  have h2 : Ok (newTxId "workspace_organize") k _ { k with sequence := k.sequence + 1 } := rfl
  unfold applyOrganizeTx Ok
  rw [withCapability_of_mem hcap, bind_of_ok h1, bind_of_ok h2, bind_of_ok hloop]
  unfold recordBatch emitReceipt emitEvent
  split <;> exact ⟨_, _, rfl, rfl, rfl, rfl⟩

theorem rollbackTx_unknown {id : String} {d : Disk} (h : k.blobs (txBlobName id) = none) :
    ¬ RollsBackTo rt id d k k' := by
  rintro ⟨r, hr, hs, -⟩
  obtain ⟨-, g⟩ := Os.withCapability_success hr hs
  obtain ⟨_, _, hg, g1⟩ := bind_ok.mp g
  cases hg
  rw [h] at g1
  rw [(blockedReceiptWithData_ok g1).1] at hs
  exact absurd hs (by decide)

/-- **the rollback called next restores the files exactly for the undoable capabilities** -/
theorem rollback_restores_iff {cap : TxCapability} {id : String} (h : Ok (cap.run rt) k r k')
    (hs : r.status = "success") (hid : r.data.strAt? "tx_id" = some id)
    (hfresh : k.blobs (txBlobName id) = none) (hcap : "os.rollback_tx" ∈ rt.capabilities)
    (hsep : ∀ s ∈ cap.paths, Separated s) (hclear : ∀ s ∈ cap.paths, Clear rt s) :
    (∃ k'', RollsBackTo rt id k.disk k' k'') ↔ cap.isUndoable := by
  cases cap with
  | os call =>
    cases hz : call.isUnzip with
    | false =>
      obtain ⟨record, hl, hr⟩ := Call.logs h hs hsep hclear hz
      rw [hid] at hr
      cases hr
      obtain ⟨k'', hback, -⟩ := rollbackTx_restores hcap hl.restorable
      simp only [TxCapability.isUndoable, hz, Bool.not_false, iff_true]
      exact ⟨k'', hback⟩
    | true =>
      simp only [TxCapability.isUndoable, hz, Bool.not_true, Bool.false_eq_true, iff_false]
      rintro ⟨k'', r', hr', -, hfiles⟩
      cases call with
      | unzipArchive a s =>
        obtain ⟨p, id', r2, k2, hp, hfile, hid', hr2, -, hgone⟩ := unzipArchive_rollback h hs hcap
          (hsep a List.mem_cons_self) (hsep s (List.mem_cons_of_mem _ List.mem_cons_self))
          (hclear a List.mem_cons_self) (hclear s (List.mem_cons_of_mem _ List.mem_cons_self))
        rw [hid] at hid'
        cases hid'
        cases hr'.symm.trans hr2
        obtain ⟨c, hc⟩ := Tree.isFile_iff.mp hfile
        have hsame := hfiles p (hclear a List.mem_cons_self p hp).2
        rw [Tree.fileAt_eq_some.mpr hc, hgone] at hsame
        cases hsame
      | _ => cases hz
  | applyOrganizeTx ref =>
    simp only [TxCapability.isUndoable, Bool.false_eq_true, iff_false]
    rintro ⟨k'', hr⟩
    exact rollbackTx_unknown ((applyOrganizeTx_unknown h hs hid).trans hfresh) hr
  | renameBatchApply ref =>
    simp only [TxCapability.isUndoable, Bool.false_eq_true, iff_false]
    rintro ⟨k'', hr⟩
    exact rollbackTx_unknown ((renameBatchApply_unknown h hs hid).trans hfresh) hr

/-! ## on a small disk -/

theorem rollback_restores_iff_write :
    ∃ r k', Ok (TxCapability.run sampleRuntime (.os (.writeFile "x" [1] "artifact")))
        (kernelOf [(["ws", "x"], [7])]) r k' ∧
      ((∃ k'', RollsBackTo sampleRuntime "os_write_0_1" (kernelOf [(["ws", "x"], [7])]).disk k' k'')
        ↔ TxCapability.isUndoable (.os (.writeFile "x" [1] "artifact")) = true) := by
  have hrun : okWith (fun r _ => r.status == "success" && r.data.strAt? "tx_id" == some "os_write_0_1")
      (TxCapability.run sampleRuntime (.os (.writeFile "x" [1] "artifact")))
      (kernelOf [(["ws", "x"], [7])]) = true := by decide
  obtain ⟨r, k', h, hrun⟩ := okWith_iff.mp hrun
  obtain ⟨hs, hid⟩ := Bool.and_eq_true_iff.mp hrun
  exact ⟨r, k', h, rollback_restores_iff h (eq_of_beq hs) (eq_of_beq hid) rfl (by decide)
    (by decide) fun s _ => sampleRuntime_clear s⟩

/-- a workspace with one file and a stored plan that moves it -/
def plannedKernel : Kernel :=
  { kernelOf [(["ws", "a.txt"], [1])] with
    blobs := fun name => if name = "workspace_plans/p.json" then some (WorkspaceOrganizePlan.toJson
      ⟨"p", "s", "out", [⟨"a.txt", "out/a.txt", "move"⟩]⟩) else none }

def batchRuntime : Runtime :=
  { sampleRuntime with capabilities := ["workspace.apply_organize_tx", "os.rollback_tx"] }

/-- an organize call moves the file, and the rollback of its transaction does not find a record -/
theorem organize_not_rolled_back :
    ∃ r k', Ok (TxCapability.run batchRuntime (.applyOrganizeTx
        "blob://job/workspace_plans/p.json")) plannedKernel r k' ∧
      r.status = "success" ∧ r.data.strAt? "tx_id" = some "workspace_organize_0_1" ∧
      k'.disk.fileAt ["ws", "a.txt"] ≠ plannedKernel.disk.fileAt ["ws", "a.txt"] ∧
      ¬ ∃ k'', RollsBackTo batchRuntime "workspace_organize_0_1" plannedKernel.disk k' k'' := by
  have hread : readBlob batchRuntime "blob://job/workspace_plans/p.json" plannedKernel =
      .ok (WorkspaceOrganizePlan.toJson
        ⟨"p", "s", "out", [⟨"a.txt", "out/a.txt", "move"⟩]⟩) := rfl
  have hentry : plannedKernel.disk.entry ["ws", "a.txt"] = some (.file [1]) := by decide
  obtain ⟨d, hd⟩ := @moveAt_total plannedKernel.disk ["ws", "a.txt"] ["ws", "out", "a.txt"]
    (by decide) (by rw [hentry]; exact Option.some_ne_none _)
    ((Tree.noFileTo_iff).mp (by decide))
  have hop : Ok (applyOperation batchRuntime ⟨"a.txt", "out/a.txt", "move"⟩)
      { plannedKernel with sequence := 2 } true { plannedKernel with disk := d, sequence := 2 } := by
    rw [Ok, @applyOperation_resolved batchRuntime _ ["ws", "a.txt"] ["ws", "out", "a.txt"]
      (by decide) (by decide)]
    rw [if_pos (by decide)]
    exact bind_ok.mpr ⟨(), _, onDisk_ok.mpr ⟨d, hd, rfl⟩, rfl⟩
  obtain ⟨r, k', h, hs, hid, hdisk⟩ := applyOrganizeTx_of_loop (List.mem_cons_self) hread
    (bind_ok.mpr ⟨true, _, hop, bind_ok.mpr ⟨[], _, rfl, rfl⟩⟩)
  refine ⟨r, k', h, hs, hid, ?_, ?_⟩
  · have hgone : d.fileAt ["ws", "a.txt"] = none := by
      apply Tree.fileAt_of_none
      rw [(moveAt_ok hd).2.2]
      exact Layout.move_source _ (by decide) List.prefix_rfl
    rw [hdisk, Tree.fileAt_eq_some.mpr hentry]
    show d.fileAt _ ≠ _
    rw [hgone]
    exact (Option.some_ne_none _).symm
  · rintro ⟨k'', hr⟩
    exact rollbackTx_unknown ((applyOrganizeTx_unknown h hs hid).trans rfl) hr

end Data

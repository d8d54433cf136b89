import SuperNova.Office.Runtime
import SuperNova.Os.Unzip

/-!
# Rolling a document mutation back

A disciplined worker changes only the file it was asked to write, so `createDocx` and
`rewriteInPlace` log what undoes them.  `rewriteSaveAs` records the document it read as a source that
existed, without a backup; a rollback removes it.  `mutation_rollback_iff`: the rollback called next
restores the files exactly when no file stood at the input of a `rewriteSaveAs`.
-/

set_option linter.unusedSectionVars false

namespace Office

open Paths Io FileTree Workspace Os Text

variable {rt : Runtime} {w : Worker} {k k' : Kernel} {r : Receipt}

/-! ## the parts -/

theorem OnlyOutput.userStep {target : Path} {d d' : Disk} (h : OnlyOutput target d d')
    (ha : Apart target rt.stateRoot) : UserStep rt (fun q => target <+: q) d d' where
  state q hq := h.apart q (ha.mono List.prefix_rfl hq)
  files q hq := h.files q hq

theorem OnlyOutput.noFileTo {target : Path} {d d' : Disk} (h : OnlyOutput target d d')
    (hx : d.entry target ≠ none) (hne : target ≠ []) : d'.NoFileTo target.dropLast := by
  intro q hq
  have hlen : ¬ target <+: q := by
    intro c
    have h1 := (c.trans hq).length_le
    have h2 := List.length_pos_iff.mpr hne
    rw [List.length_dropLast] at h1
    omega
  rw [h.files q hlen, Tree.noFileTo_dropLast hx hne q hq]

theorem officeBlob_ne (id name : String) :
    txBlobName id ≠ "office_inputs/" ++ name ∧ txBlobName id ≠ "office_receipts/" ++ name :=
  ⟨append_ne_append 't' 'o' (by decide) (by decide) (by decide) _ _,
    append_ne_append 't' 'o' (by decide) (by decide) (by decide) _ _⟩

theorem writeTextInput_ok {name text : String} {p : Path}
    (h : Ok (writeTextInput rt name text) k p k') :
    k'.disk = k.disk ∧ ∀ id, k'.blobs (txBlobName id) = k.blobs (txBlobName id) := by
  obtain ⟨_, _, hg, g1⟩ := bind_ok.mp h
  cases hg
  obtain ⟨_, k1, h1, g2⟩ := bind_ok.mp g1
  cases g2
  obtain ⟨d1, b1⟩ := writeBlob_ok h1
  refine ⟨d1, fun id => ?_⟩
  rw [b1, Function.update_of_ne (officeBlob_ne id _).1]

theorem blockedReceipt_ok {cap reason : String} (h : Ok (blockedReceipt rt cap reason) k r k') :
    r.data = .obj [("reason", .str reason)] := by
  obtain ⟨_, k1, h1, g1⟩ := bind_ok.mp h
  obtain ⟨_, k2, h2, g2⟩ := bind_ok.mp g1
  cases g2
  rfl

theorem runWorker_ok {command : WorkerCommand} {output : WorkerOutput} (hw : w.Disciplined)
    (h : Ok (runWorker w command) k output k') :
    OnlyOutput command.target k.disk k'.disk ∧ k'.blobs = k.blobs := by
  unfold runWorker Ok at h
  simp only at h
  split at h
  · rename_i o d hd
    cases h
    exact ⟨hw _ _ _ _ hd, rfl⟩
  · cases h

theorem runWorkerReceipt_ok {cap id : String} {command : WorkerCommand} {plan : OsTxRecord}
    (hw : w.Disciplined) (hname : TxName plan.txId)
    (h : Ok (runWorkerReceipt rt w cap command plan) k r k')
    (hid : r.data.strAt? "tx_id" = some id) : id = plan.txId ∧
      OnlyOutput command.target k.disk k'.disk ∧
      k'.blobs (txBlobName plan.txId) = some plan.toJson ∧
      ∀ id, TxName id → id ≠ plan.txId → k'.blobs (txBlobName id) = k.blobs (txBlobName id) := by
  unfold runWorkerReceipt at h
  split at h
  · obtain ⟨output, k1, h1, g1⟩ := bind_ok.mp h
    obtain ⟨_, _, hg, g2⟩ := bind_ok.mp g1
    cases hg
    obtain ⟨_, k2, h2, g3⟩ := bind_ok.mp g2
    obtain ⟨_, k3, h3, g4⟩ := bind_ok.mp g3
    obtain ⟨_, k4, h4, g5⟩ := bind_ok.mp g4
    obtain ⟨_, k5, h5, g6⟩ := bind_ok.mp g5
    cases g6
    cases hid
    obtain ⟨d2, b2⟩ := writeBlob_ok h2
    obtain ⟨d3, b3⟩ := recordTx_ok h3
    obtain ⟨d4, b4⟩ := emitReceipt_ok h4
    obtain ⟨d5, b5⟩ := emitReceipt_ok h5
    obtain ⟨hout, b1⟩ := runWorker_ok hw h1
    refine ⟨rfl, ?_, ?_, fun id hid hne => ?_⟩
    · rw [d5, d4, d3, d2]
      exact hout
    · rw [b5, b4, b3, Function.update_self]
    · rw [b5, b4, b3, update_txBlob hname hid hne, b2,
        Function.update_of_ne (officeBlob_ne id _).2, b1]
  · rw [blockedReceipt_ok h] at hid
    cases hid

/-! ## one mutation -/

/-- what a mutation of `target` did, whose path was backed up in `slot` -/
structure Mutated (rt : Runtime) (plan : OsTxRecord) (slot : String) (target : Path) (b : Bool)
    (ref : Option String) (k k' : Kernel) : Prop where
  name : TxName plan.txId
  steps : ∃ d, BackupStep rt plan.txId k.disk d ∧ UserStep rt (fun q => target <+: q) d k'.disk
  saved : Saved rt plan.txId slot k.disk target b ref k'.disk
  above : k.disk.entry target ≠ none → k'.disk.NoFileTo target.dropLast
  blob : k'.blobs (txBlobName plan.txId) = some plan.toJson
  blobs : ∀ id, TxName id → id ≠ plan.txId → k'.blobs (txBlobName id) = k.blobs (txBlobName id)

theorem mutated_of {name text p slot cap id : String} {tp target : Path} {b : Bool}
    {ref : Option String} {command : WorkerCommand} {plan : OsTxRecord} {k1 k2 k3 : Kernel}
    (hw : w.Disciplined) (hp : SafeName p) (ha : Apart target rt.stateRoot)
    (h4 : Ok (runWorkerReceipt rt w cap command plan) k3 r k')
    (h3 : Ok (backupWorkspacePath rt plan.txId slot target) k2 (b, ref) k3)
    (h2 : Ok (newTxId p) k1 plan.txId k2) (h1 : Ok (writeTextInput rt name text) k tp k1)
    (hid : r.data.strAt? "tx_id" = some id) (htarget : command.target = target) :
    id = plan.txId ∧ Mutated rt plan slot target b ref k k' := by
  subst htarget
  obtain ⟨d1, b1⟩ := writeTextInput_ok h1
  obtain ⟨hname, d2, b2⟩ := txName_of_newTxId hp h2
  obtain ⟨hback, b3, hsaved, -⟩ := backupWorkspacePath_ok ha h3
  rw [d2, d1] at hback hsaved
  obtain ⟨hid', hout, hblob, hblobs⟩ := runWorkerReceipt_ok hw hname h4 hid
  have huser := hout.userStep ha
  refine ⟨hid', hname, ⟨_, hback, huser⟩, hsaved.later fun q hq => ?_, fun hx => ?_, hblob,
    fun id hn hne => ?_⟩
  · exact huser.state q ((stateRoot_prefix_backupPath rt plan.txId slot).trans hq)
  · refine hout.noFileTo ?_ ha.ne_nil
    rwa [hback.apart _ ha]
  · rw [hblobs id hn hne, b3, b2, b1]

theorem Mutated.slotKept {plan : OsTxRecord} {slot s : String} {target : Path} {b : Bool}
    {ref : Option String} (h : Mutated rt plan slot target b ref k k')
    (hslot : slot ∈ ["source", "destination"])
    (hs : resolveWorkspacePath rt.workspaceRoot s = .ok target) (hsep : Separated s)
    (ha : Apart target rt.stateRoot) :
    SlotKept rt plan.txId k.disk k'.disk (some (normalizePath s)) b ref := by
  rw [normalizePath_of_separated hsep]
  exact h.saved.slotKept hslot hs ha h.above

theorem createDocx_logs {o text id : String} {title : Option String} (hw : w.Disciplined)
    (hsep : Separated o) (hclear : Clear rt o) (h : Ok (createDocx rt w o text title) k r k')
    (hid : r.data.strAt? "tx_id" = some id) :
    ∃ record, Logged rt k k' record ∧ id = record.txId := by
  obtain ⟨output, k1, h1, g1⟩ := bind_ok.mp h
  obtain ⟨ho, e1⟩ := resolvePath_ok.mp h1
  subst e1
  obtain ⟨tp, k2, h2, g2⟩ := bind_ok.mp g1
  obtain ⟨txId, k3, h3, g3⟩ := bind_ok.mp g2
  obtain ⟨⟨b, ref⟩, k4, h4, h5⟩ := bind_ok.mp g3
  have ha := hclear output ho
  obtain ⟨hid', hm⟩ := mutated_of hw (by decide) ha h5 h4 h3 h2 hid rfl
  obtain ⟨d, hback, huser⟩ := hm.steps
  have hdest := hm.slotKept (by decide) ho hsep ha
  refine ⟨_, logged_of hm.name hback huser (fun q hq => Or.inl ?_) hdest (SlotKept.none _ _ _ _ _ _) hm.blob
    hm.blobs, hid'⟩
  rw [normalizePath_of_separated hsep, covers_some ho]
  exact hq

theorem rewriteInPlace_logs {i text id : String} (hw : w.Disciplined)
    (hsep : Separated i) (hclear : Clear rt i) (h : Ok (rewriteInPlace rt w i text) k r k')
    (hid : r.data.strAt? "tx_id" = some id) :
    ∃ record, Logged rt k k' record ∧ id = record.txId := by
  obtain ⟨input, k1, h1, g1⟩ := bind_ok.mp h
  obtain ⟨hi, e1⟩ := resolvePath_ok.mp h1
  subst e1
  obtain ⟨tp, k2, h2, g2⟩ := bind_ok.mp g1
  obtain ⟨txId, k3, h3, g3⟩ := bind_ok.mp g2
  obtain ⟨⟨b, ref⟩, k4, h4, h5⟩ := bind_ok.mp g3
  have ha := hclear input hi
  obtain ⟨hid', hm⟩ := mutated_of hw (by decide) ha h5 h4 h3 h2 hid rfl
  obtain ⟨d, hback, huser⟩ := hm.steps
  have hsource := hm.slotKept (by decide) hi hsep ha
  refine ⟨_, logged_of hm.name hback huser (fun q hq => Or.inr ?_) (SlotKept.none _ _ _ _ _ _) hsource
    hm.blob hm.blobs, hid'⟩
  rw [normalizePath_of_separated hsep, covers_some hi]
  exact hq

theorem rewriteSaveAs_logs {i o text id : String} {p : Path} (hw : w.Disciplined)
    (hsep : Separated i) (hsep' : Separated o) (hclear : Clear rt i) (hclear' : Clear rt o)
    (hi : resolveWorkspacePath rt.workspaceRoot i = .ok p)
    (hfree : ∀ r, k.disk.fileAt (p ++ r) = none)
    (h : Ok (rewriteSaveAs rt w i o text) k r k') (hid : r.data.strAt? "tx_id" = some id) :
    ∃ record, Logged rt k k' record ∧ id = record.txId := by
  obtain ⟨input, k1, h1, g1⟩ := bind_ok.mp h
  obtain ⟨output, k2, h2, g2⟩ := bind_ok.mp g1
  obtain ⟨hi', e1⟩ := resolvePath_ok.mp h1
  obtain ⟨ho, e2⟩ := resolvePath_ok.mp h2
  subst e1 e2
  cases Except.ok.inj (hi.symm.trans hi')
  obtain ⟨tp, k3, h3, g3⟩ := bind_ok.mp g2
  obtain ⟨txId, k4, h4, g4⟩ := bind_ok.mp g3
  obtain ⟨⟨b, ref⟩, k5, h5, h6⟩ := bind_ok.mp g4
  have ha := hclear' output ho
  obtain ⟨hid', hm⟩ := mutated_of hw (by decide) ha h6 h5 h4 h3 hid rfl
  obtain ⟨d, hback, huser⟩ := hm.steps
  have hdest := hm.slotKept (by decide) ho hsep' ha
  have hsource : SlotKept rt txId k2.disk k'.disk (some (normalizePath i)) true none := by
    rw [normalizePath_of_separated hsep]
    intro s hs
    cases hs
    exact ⟨p, hi, hclear p hi, Or.inr ⟨Or.inr rfl, hfree⟩⟩
  refine ⟨_, logged_of hm.name hback huser (fun q hq => Or.inl ?_) hdest hsource hm.blob hm.blobs,
    hid'⟩
  rw [normalizePath_of_separated hsep', covers_some ho]
  exact hq

/-- **rolling a save-as back succeeds and removes what it read** -/
theorem rewriteSaveAs_rollback {i o text id : String} (hw : w.Disciplined)
    (hcap : "os.rollback_tx" ∈ rt.capabilities) (hsep : Separated i) (hsep' : Separated o)
    (hclear : Clear rt i) (hclear' : Clear rt o) (h : Ok (rewriteSaveAs rt w i o text) k r k')
    (hid : r.data.strAt? "tx_id" = some id) :
    ∃ p r' k'', resolveWorkspacePath rt.workspaceRoot i = .ok p ∧
      Ok (rollbackTx rt id) k' r' k'' ∧ ∀ q, p <+: q → k''.disk.fileAt q = none := by
  obtain ⟨input, k1, h1, g1⟩ := bind_ok.mp h
  obtain ⟨output, k2, h2, g2⟩ := bind_ok.mp g1
  obtain ⟨hi, e1⟩ := resolvePath_ok.mp h1
  obtain ⟨ho, e2⟩ := resolvePath_ok.mp h2
  subst e1 e2
  obtain ⟨tp, k3, h3, g3⟩ := bind_ok.mp g2
  obtain ⟨txId, k4, h4, g4⟩ := bind_ok.mp g3
  obtain ⟨⟨b, ref⟩, k5, h5, h6⟩ := bind_ok.mp g4
  have ha := hclear' output ho
  obtain ⟨hid', hm⟩ := mutated_of hw (by decide) ha h6 h5 h4 h3 hid rfl
  obtain ⟨k6, h6, -⟩ := restoreSlot_total hm.name (hm.slotKept (by decide) ho hsep' ha)
  obtain ⟨k7, h7, he, -⟩ := restoreSlot_removes hi (hclear input hi).ne_nil k6
  obtain ⟨r', k'', hr, -, hd, -⟩ := rollbackTx_total hcap hm.blob (bind_ok.mpr ⟨(), k6, h6, by
    show Ok (restoreSlot rt (some (normalizePath i)) true none) k6 () k7
    rw [normalizePath_of_separated hsep]
    exact h7⟩)
  refine ⟨input, r', k'', hi, by rw [hid']; exact hr, fun q hq => ?_⟩
  apply Tree.fileAt_of_none
  rw [hd, he, if_pos hq]

/-- the mutation reads a document of the tree that its record claims to change -/
def Mutation.ReadsSource (rt : Runtime) (d : Disk) : Mutation → Prop
  | .rewriteSaveAs i _ _ => ∃ p r c, resolveWorkspacePath rt.workspaceRoot i = .ok p ∧
      d.fileAt (p ++ r) = some c
  | .createDocx _ _ _ | .rewriteInPlace _ _ => False

/-- **the rollback called next restores the files exactly when no read document is on record as
changed** -/
theorem mutation_rollback_iff {m : Mutation} {id : String} (hw : w.Disciplined)
    (hcap : "os.rollback_tx" ∈ rt.capabilities) (hsep : ∀ s ∈ m.paths, Separated s)
    (hclear : ∀ s ∈ m.paths, Clear rt s) (h : Ok (m.run rt w) k r k')
    (hid : r.data.strAt? "tx_id" = some id) :
    (∃ k'', RollsBackTo rt id k.disk k' k'') ↔ ¬ m.ReadsSource rt k.disk := by
  have hlogged : (∃ record, Logged rt k k' record ∧ id = record.txId) →
      ∃ k'', RollsBackTo rt id k.disk k' k'' := by
    rintro ⟨record, hl, rfl⟩
    obtain ⟨k'', hback, -⟩ := rollbackTx_restores hcap hl.restorable
    exact ⟨k'', hback⟩
  cases m with
  | createDocx o text title =>
    refine iff_of_true (hlogged ?_) not_false
    exact createDocx_logs hw (hsep o List.mem_cons_self) (hclear o List.mem_cons_self) h hid
  | rewriteInPlace i text =>
    refine iff_of_true (hlogged ?_) not_false
    exact rewriteInPlace_logs hw (hsep i List.mem_cons_self) (hclear i List.mem_cons_self) h hid
  | rewriteSaveAs i o text =>
    have hi := hsep i List.mem_cons_self
    have ho := hsep o (List.mem_cons_of_mem _ List.mem_cons_self)
    have ci := hclear i List.mem_cons_self
    have co := hclear o (List.mem_cons_of_mem _ List.mem_cons_self)
    obtain ⟨p, r', k'', hp, hr', hgone⟩ := rewriteSaveAs_rollback hw hcap hi ho ci co h hid
    constructor
    · rintro ⟨k2, r2, hr2, -, hfiles⟩ ⟨p', q, c, hp', hc⟩
      cases Except.ok.inj (hp.symm.trans hp')
      cases hr'.symm.trans hr2
      have hq : ¬ rt.stateRoot <+: p ++ q := fun c' =>
        (ci p hp).not_both (List.prefix_append ..) c'
      have hsame := hfiles _ hq
      rw [hc, hgone _ (List.prefix_append ..)] at hsame
      cases hsame
    · intro hno
      refine hlogged (rewriteSaveAs_logs hw hi ho ci co hp (fun q => ?_) h hid)
      cases hc : k.disk.fileAt (p ++ q) with
      | none => rfl
      | some c => exact absurd ⟨p, q, c, hp, hc⟩ hno

/-! ## a worker that writes one byte -/

def sampleWorker : Worker where
  project := "OfficeWorker"
  run command d :=
    match writeAt command.target [9] d with
    | .ok _ d' => .ok (⟨"", "", some 0⟩, d')
    | .error e _ => .error e
  parseReceipt _ := .ok ⟨"office.docx", "success", .null⟩

theorem sampleWorker_disciplined : sampleWorker.Disciplined := by
  intro command d output d' h
  have hw : Ok (writeAt command.target [9]) d () d' := by
    simp only [sampleWorker] at h
    split at h
    · rename_i hw
      cases h
      exact hw
    · cases h
  obtain ⟨-, hno, -, he⟩ := writeAt_ok hw
  refine ⟨fun q hq => ?_, fun q hq => ?_⟩
  · have hne : q ≠ command.target := by
      rintro rfl
      exact hq List.prefix_rfl
    by_cases c : q <+: command.target
    · rw [hno q ((prefix_dropLast c).resolve_left hne)]
      apply Tree.fileAt_of_dir
      rw [he, if_neg hne, if_pos c]
    · apply Tree.fileAt_congr
      rw [he, if_neg hne, if_neg c]
  · rw [he, if_neg hq.ne.symm, if_neg hq.2]

def officeRuntime : Runtime :=
  { sampleRuntime with
    capabilities := ["office.docx.create", "office.docx.rewrite_save_as", "os.rollback_tx"] }

theorem officeRuntime_clear (s : String) : Clear officeRuntime s := clear_of_apart (by decide) s

def documentKernel : Kernel := kernelOf [(["ws", "a.docx"], [7])]

theorem mutation_rollback_iff_create :
    ∃ r k', Ok (Mutation.run officeRuntime sampleWorker (.createDocx "a.docx" "text" none))
        documentKernel r k' ∧
      ((∃ k'', RollsBackTo officeRuntime "office_create_0_1" documentKernel.disk k' k'') ↔
        ¬ Mutation.ReadsSource officeRuntime documentKernel.disk
          (.createDocx "a.docx" "text" none)) := by
  have hrun : okWith (fun r _ => r.data.strAt? "tx_id" == some "office_create_0_1")
      (Mutation.run officeRuntime sampleWorker (.createDocx "a.docx" "text" none)) documentKernel = true := by decide
  obtain ⟨r, k', h, hrun⟩ := okWith_iff.mp hrun
  exact ⟨r, k', h, mutation_rollback_iff sampleWorker_disciplined (by decide) (by decide)
    (fun s _ => officeRuntime_clear s) h (eq_of_beq hrun)⟩

/-- a save-as reads a document; the rollback of its transaction removes the document -/
theorem save_as_rollback_loses_input :
    ∃ r k', Ok (Mutation.run officeRuntime sampleWorker (.rewriteSaveAs "a.docx" "b.docx" "text"))
        documentKernel r k' ∧ r.data.strAt? "tx_id" = some "office_rewrite_save_as_0_1" ∧
      ∃ r' k'', Ok (rollbackTx officeRuntime "office_rewrite_save_as_0_1") k' r' k'' ∧
        k''.disk.fileAt ["ws", "a.docx"] ≠ documentKernel.disk.fileAt ["ws", "a.docx"] := by
  have hrun : okWith (fun r _ => r.data.strAt? "tx_id" == some "office_rewrite_save_as_0_1")
      (Mutation.run officeRuntime sampleWorker (.rewriteSaveAs "a.docx" "b.docx" "text")) documentKernel = true := by
    decide
  have hfile : documentKernel.disk.fileAt ["ws", "a.docx"] = some [7] := by decide
  obtain ⟨r, k', h, hrun⟩ := okWith_iff.mp hrun
  have hid := eq_of_beq hrun
  obtain ⟨p, r', k'', hp, hr', hgone⟩ := rewriteSaveAs_rollback sampleWorker_disciplined
    (by decide) (by decide) (by decide) (officeRuntime_clear _) (officeRuntime_clear _) h hid
  have hp' : resolveWorkspacePath officeRuntime.workspaceRoot "a.docx" =
      .ok ["ws", "a.docx"] := by decide
  cases Except.ok.inj (hp.symm.trans hp')
  refine ⟨r, k', h, hid, r', k'', hr', ?_⟩
  rw [hgone _ List.prefix_rfl, hfile]
  exact (Option.some_ne_none _).symm

end Office

import SuperNova.Os.Rollback

/-!
# Every operation logs what undoes it

A successful write, copy, move, rename, delete or zip leaves a state from which the record it
stored is restorable to the files before it (`Logged`); the only mutation that does not is
`unzipArchive`, whose record claims the archive as a source without a backup.
-/

set_option linter.unusedSectionVars false

namespace Os

open Paths Io FileTree Workspace

variable {rt : Runtime} {k k' : Kernel} {r : Receipt}

/-- no path the text resolves to is nested with the runtime's own state -/
def Clear (rt : Runtime) (s : String) : Prop :=
  ∀ p, resolveWorkspacePath rt.workspaceRoot s = .ok p → Apart p rt.stateRoot

theorem clear_of_apart (h : Apart rt.workspaceRoot rt.stateRoot) (s : String) : Clear rt s :=
  fun _ hp => h.mono (resolveWorkspacePath_below hp) List.prefix_rfl

/-- the step from `k` to `k'` stored `record`, which undoes it, and touched no other log entry -/
structure Logged (rt : Runtime) (k k' : Kernel) (record : OsTxRecord) : Prop where
  restorable : Restorable rt k.disk record k'
  blobs : ∀ id, TxName id → id ≠ record.txId → k'.blobs (txBlobName id) = k.blobs (txBlobName id)
  backups : ∀ id, id ≠ record.txId → ∀ q, txBackups rt id <+: q →
    k'.disk.entry q = k.disk.entry q

theorem SameFiles.refl (rt : Runtime) (d : Disk) : SameFiles rt d d := fun _ _ => rfl

theorem SameFiles.trans {d d' d'' : Disk} (h : SameFiles rt d d') (h' : SameFiles rt d' d'') :
    SameFiles rt d d'' := fun q hq => (h q hq).trans (h' q hq)

/-! ## from a backup to a half of the record -/

theorem Saved.slotKept {txId slot s : String} {p : Path} {d0 d : Disk} {b : Bool}
    {ref : Option String} (h : Saved rt txId slot d0 p b ref d)
    (hslot : slot ∈ ["source", "destination"])
    (hp : resolveWorkspacePath rt.workspaceRoot s = .ok p) (ha : Apart p rt.stateRoot)
    (hno : d0.entry p ≠ none → d.NoFileTo p.dropLast) :
    SlotKept rt txId d0 d (some s) b ref := by
  intro s' hs'
  cases hs'
  refine ⟨p, hp, ha, ?_⟩
  rcases h with ⟨h1, h2, -⟩ | ⟨h1, h2, h3, h4⟩
  · refine Or.inr ⟨Or.inl h2, fun q => Tree.fileAt_of_none ?_⟩
    exact d0.none_of_prefix (List.prefix_append ..) h1
  · exact Or.inl ⟨h2, slot, hslot, h3, h1, hno h1, h4⟩

theorem others_kept {txId : String} {touched : Path → Prop} {d0 d1 d2 : Disk}
    (hb : BackupStep rt txId d0 d1) (hu : UserStep rt touched d1 d2) (id : String)
    (hid : id ≠ txId) (q : Path) (hq : txBackups rt id <+: q) : d2.entry q = d0.entry q := by
  rw [hu.state q ((stateRoot_prefix_txBackups rt id).trans hq), hb.others id hid q hq]

theorem update_txBlob {blobs : String → Option Json} {record : OsTxRecord} {id : String}
    (h : TxName record.txId) (hid : TxName id) (hne : id ≠ record.txId) :
    Function.update blobs (txBlobName record.txId) (some record.toJson) (txBlobName id) =
      blobs (txBlobName id) :=
  Function.update_of_ne (fun e => hne (txBlobName_inj hid h e)) _ _

theorem logged_of {record : OsTxRecord} {touched : Path → Prop} {d1 : Disk}
    (hname : TxName record.txId) (hb : BackupStep rt record.txId k.disk d1)
    (hu : UserStep rt touched d1 k'.disk)
    (htouched : ∀ q, touched q → Covers rt record.destinationPath q ∨ Covers rt record.sourcePath q)
    (hdest : SlotKept rt record.txId k.disk k'.disk record.destinationPath
      record.destinationBeforeExists record.destinationBackupRef)
    (hsource : SlotKept rt record.txId k.disk k'.disk record.sourcePath
      record.sourceBeforeExists record.sourceBackupRef)
    (hblob : k'.blobs (txBlobName record.txId) = some record.toJson)
    (hblobs : ∀ id, TxName id → id ≠ record.txId →
      k'.blobs (txBlobName id) = k.blobs (txBlobName id)) : Logged rt k k' record := by
  refine ⟨⟨⟨hname, hdest, hsource, fun q hq hd hs => ?_⟩, hblob⟩, hblobs, others_kept hb hu⟩
  rw [hu.files q fun c => (htouched q c).elim hd hs, hb.files q hq]

theorem Logged.congr {k1 k2 : Kernel} {record : OsTxRecord} (h : Logged rt k1 k2 record)
    (hd : k1.disk = k.disk) (hb : k1.blobs = k.blobs) (hd' : k'.disk = k2.disk)
    (hb' : k'.blobs = k2.blobs) : Logged rt k k' record := by
  refine ⟨⟨?_, ?_⟩, ?_, ?_⟩
  · rw [← hd, hd']
    exact h.restorable.kept
  · rw [hb']
    exact h.restorable.blob
  · rw [hb', ← hb]
    exact h.blobs
  · rw [hd', ← hd]
    exact h.backups

/-! ## the parts that do not touch the disk -/

theorem revisionHash_ok {b : Bool} {p : Path} {t t' : Disk} {o : Option String}
    (h : Ok (revisionHash b p) t o t') : t' = t := by
  unfold revisionHash at h
  split at h
  · obtain ⟨_, t1, h1, g1⟩ := bind_ok.mp h
    cases g1
    obtain ⟨_, t2, h2, g2⟩ := bind_ok.mp h1
    cases g2
    exact (read_ok.mp h2).2
  · cases h
    rfl

theorem onDisk_revisionHash_ok {b : Bool} {p : Path} {o : Option String}
    (h : Ok (onDisk (revisionHash b p)) k o k') : k' = k := by
  obtain ⟨d, hd, rfl⟩ := onDisk_ok.mp h
  rw [revisionHash_ok hd]

theorem versionBlobName_ne (path id : String) (n : Nat) :
    txBlobName id ≠ versionBlobName path n :=
  Text.append_ne_append 't' 'a' (by decide) (by decide) (by decide) _ _

theorem recordRevision_ok {b : Bool} {cap path txId : String} {p n o : Option String}
    (h : Ok (recordRevision rt b cap path txId p n) k o k') :
    k'.disk = k.disk ∧ ∀ id, k'.blobs (txBlobName id) = k.blobs (txBlobName id) := by
  unfold recordRevision at h
  split at h
  · obtain ⟨_, k1, h1, g1⟩ := bind_ok.mp h
    cases g1
    obtain ⟨_, _, hg, g2⟩ := bind_ok.mp h1
    cases hg
    obtain ⟨_, k2, h2, g3⟩ := bind_ok.mp g2
    obtain ⟨_, k3, h3, g4⟩ := bind_ok.mp g3
    obtain ⟨d2, b2⟩ := writeBlob_ok h2
    obtain ⟨d3, b3⟩ := emitEvent_ok h3
    cases g4
    refine ⟨d3.trans d2, fun id => ?_⟩
    rw [b3, b2, Function.update_of_ne (versionBlobName_ne path id _)]
  · cases h
    exact ⟨rfl, fun _ => rfl⟩

theorem resolveSources_ok {l : List String} {out : List (String × Path)} :
    ∀ {k k' : Kernel}, Ok (resolveSources rt l) k out k' → k' = k := by
  induction l generalizing out with
  | nil =>
    intro k k' h
    cases h
    rfl
  | cons s l ih =>
    intro k k' h
    obtain ⟨_, k1, h1, g1⟩ := bind_ok.mp h
    obtain ⟨_, k2, h2, g2⟩ := bind_ok.mp g1
    cases g2
    rw [ih h2]
    exact (resolvePath_ok.mp h1).2

theorem txName_of_newTxId {p txId : String} (hp : SafeName p) (h : Ok (newTxId p) k txId k') :
    TxName txId ∧ k'.disk = k.disk ∧ k'.blobs = k.blobs := by
  obtain ⟨rfl, hd, hb⟩ := newTxId_ok h
  exact ⟨txName_of_new hp _ _, hd, hb⟩

theorem recorded_ok {record : OsTxRecord} {cap ref : String} {data : Json}
    {k1 k2 : Kernel} (h1 : Ok (recordTx rt record) k ref k1)
    (h2 : Ok (successReceipt rt cap data) k1 r k2) :
    k2.disk = k.disk ∧
      k2.blobs = Function.update k.blobs (txBlobName record.txId) (some record.toJson) ∧
      r.data = data := by
  obtain ⟨d1, b1⟩ := recordTx_ok h1
  obtain ⟨-, hdata, d2, b2⟩ := successReceipt_ok h2
  exact ⟨d2.trans d1, b2.trans b1, hdata⟩

/-! ## the operations -/

/-- a successful operation logged its step under the transaction id of its receipt -/
def LogsStep (rt : Runtime) (k k' : Kernel) (r : Receipt) : Prop :=
  ∃ record, Logged rt k k' record ∧ r.data.strAt? "tx_id" = some record.txId

theorem LogsStep.congr {k1 k2 : Kernel} (h : LogsStep rt k1 k2 r)
    (hd : k1.disk = k.disk) (hb : k1.blobs = k.blobs) (hd' : k'.disk = k2.disk)
    (hb' : k'.blobs = k2.blobs) : LogsStep rt k k' r := by
  obtain ⟨record, hl, hr⟩ := h
  exact ⟨record, hl.congr hd hb hd' hb', hr⟩

theorem writeLocked_logs {cap s writeKind : String} {path : Path} {content : Bytes}
    (hp : resolveWorkspacePath rt.workspaceRoot s = .ok path) (ha : Apart path rt.stateRoot)
    (h : Ok (writeLocked rt cap s path content writeKind) k r k') : LogsStep rt k k' r := by
  obtain ⟨txId, k1, h1, g1⟩ := bind_ok.mp h
  obtain ⟨_, _, hg, g2⟩ := bind_ok.mp g1
  cases hg
  obtain ⟨_, k2, h2, g3⟩ := bind_ok.mp g2
  obtain ⟨⟨b, ref⟩, k3, h3, g4⟩ := bind_ok.mp g3
  obtain ⟨_, k4, h4, g5⟩ := bind_ok.mp g4
  obtain ⟨_, k5, h5, g6⟩ := bind_ok.mp g5
  obtain ⟨_, k6, h6, g7⟩ := bind_ok.mp g6
  obtain ⟨_, k7, h7, h8⟩ := bind_ok.mp g7
  obtain ⟨hname, d1, b1⟩ := txName_of_newTxId (by decide) h1
  obtain ⟨hback, b3, hsaved, -⟩ := backupWorkspacePath_ok ha h3
  rw [onDisk_revisionHash_ok h2] at hback hsaved b3
  rw [d1] at hback hsaved
  obtain ⟨d4, hw, e4⟩ := onDisk_ok.mp h4
  obtain ⟨huser, hno⟩ := writeAt_user ha hw
  obtain ⟨d6, b6⟩ := recordTx_ok h6
  obtain ⟨d7, b7⟩ := recordRevision_ok h7
  obtain ⟨-, hdata, d8, b8⟩ := successReceipt_ok h8
  have hdisk : k'.disk = d4 := by
    rw [d8, d7, d6, onDisk_revisionHash_ok h5, e4]
  let record : OsTxRecord := ⟨txId, cap, none, some s, some writeKind, false, b, none, ref⟩
  have hblobs : ∀ id, k'.blobs (txBlobName id) =
      Function.update k.blobs (txBlobName record.txId) (some record.toJson) (txBlobName id) := by
    intro id
    rw [b8, b7, b6, onDisk_revisionHash_ok h5, e4, ← b1, ← b3]
  refine ⟨record, logged_of hname hback (hdisk ▸ huser) ?_ ?_
    (SlotKept.none rt txId k.disk k'.disk false none) ?_ ?_, ?_⟩
  · exact fun q hq => Or.inl ((covers_some hp).mpr hq)
  · rw [hdisk]
    refine (hsaved.later fun q hq => huser.state q ?_).slotKept (by decide) hp ha fun _ => hno
    exact (stateRoot_prefix_backupPath rt txId _).trans hq
  · rw [hblobs, Function.update_self]
  · intro id hid hne
    rw [hblobs, update_txBlob hname hid hne]
  · rw [hdata]
    rfl

theorem writeFile_logs {cap path writeKind : String} {content : Bytes}
    (h : Ok (writeFileWithCapability rt cap path content writeKind) k r k')
    (hs : r.status = "success") (hsep : Separated path) (hclear : Clear rt path) :
    LogsStep rt k k' r := by
  obtain ⟨-, g⟩ := withCapability_success h hs
  split at g
  · obtain ⟨p, k1, h1, g1⟩ := bind_ok.mp g
    obtain ⟨hp, rfl⟩ := resolvePath_ok.mp h1
    obtain ⟨k2, k3, h2, d2, b2, d3, b3⟩ := withMutationLocks_success g1 hs
    rw [normalizePath_of_separated hsep] at h2
    exact (writeLocked_logs hp (hclear p hp) h2).congr d2 b2 d3 b3
  · rw [(blockedReceiptWithData_ok g).1] at hs
    exact absurd hs (by decide)

theorem copyLikeLocked_logs {cap s s' : String} {source destination : Path} {removeSource : Bool}
    (hp : resolveWorkspacePath rt.workspaceRoot s = .ok source)
    (hp' : resolveWorkspacePath rt.workspaceRoot s' = .ok destination)
    (ha : Apart source rt.stateRoot) (ha' : Apart destination rt.stateRoot)
    (h : Ok (copyLikeLocked rt cap s s' source destination removeSource) k r k') :
    LogsStep rt k k' r := by
  obtain ⟨txId, k1, h1, g1⟩ := bind_ok.mp h
  obtain ⟨⟨b, ref⟩, k2, h2, g2⟩ := bind_ok.mp g1
  obtain ⟨⟨b', ref'⟩, k3, h3, g3⟩ := bind_ok.mp g2
  obtain ⟨_, k4, h4, g4⟩ := bind_ok.mp g3
  obtain ⟨_, k5, h5, h6⟩ := bind_ok.mp g4
  obtain ⟨hname, d1, b1⟩ := txName_of_newTxId (by decide) h1
  obtain ⟨hback, b2, hsaved, -⟩ := backupWorkspacePath_ok ha h2
  obtain ⟨hback', b3, hsaved', hslot⟩ := backupWorkspacePath_ok ha' h3
  rw [d1] at hback hsaved
  obtain ⟨d4, hc, e4⟩ := onDisk_ok.mp h4
  obtain ⟨huser, hno, hno'⟩ := copyLikeAt_user ha ha' hc
  obtain ⟨dr, br, hdata⟩ := recorded_ok h5 h6
  have hdisk : k'.disk = d4 := by rw [dr, e4]
  have hslots : ∀ slot q, backupPath rt txId slot <+: q → d4.entry q = k3.disk.entry q :=
    fun slot q hq => huser.state q ((stateRoot_prefix_backupPath rt txId slot).trans hq)
  let record : OsTxRecord :=
    ⟨txId, cap, some s, some s', some "source_mutation", b, b', ref, ref'⟩
  have hblobs : k'.blobs =
      Function.update k.blobs (txBlobName record.txId) (some record.toJson) := by
    rw [br, e4, ← b1, ← b2, ← b3]
  refine ⟨record, logged_of hname (hback.trans hback') (hdisk ▸ huser) ?_ ?_ ?_ ?_ ?_, ?_⟩
  · rintro q (hq | hq)
    · exact Or.inr ((covers_some hp).mpr hq)
    · exact Or.inl ((covers_some hp').mpr hq)
  · rw [hdisk]
    exact ((hsaved'.before ha' hback).later (hslots _)).slotKept (by decide) hp' ha' fun _ => hno'
  · rw [hdisk]
    refine (hsaved.later fun q hq => ?_).slotKept (by decide) hp ha fun _ => hno
    rw [hslots _ q hq, hslot "source" (by decide) q hq]
  · rw [hblobs, Function.update_self]
  · intro id hid hne
    rw [hblobs, update_txBlob hname hid hne]
  · rw [hdata]
    rfl

theorem copyLike_logs {cap s s' : String} {removeSource : Bool}
    (h : Ok (copyLike rt cap s s' removeSource) k r k') (hs : r.status = "success")
    (hsep : Separated s) (hsep' : Separated s') (hclear : Clear rt s) (hclear' : Clear rt s') :
    LogsStep rt k k' r := by
  obtain ⟨-, g⟩ := withCapability_success h hs
  obtain ⟨p, k1, h1, g1⟩ := bind_ok.mp g
  obtain ⟨p', k2, h2, g2⟩ := bind_ok.mp g1
  obtain ⟨hp, e1⟩ := resolvePath_ok.mp h1
  obtain ⟨hp', e2⟩ := resolvePath_ok.mp h2
  subst e1 e2
  obtain ⟨_, _, hg, g3⟩ := bind_ok.mp g2
  cases hg
  split at g3
  · obtain ⟨k2, k3, h3, d2, b2, d3, b3⟩ := withMutationLocks_success g3 hs
    rw [normalizePath_of_separated hsep, normalizePath_of_separated hsep'] at h3
    exact (copyLikeLocked_logs hp hp' (hclear p hp) (hclear' p' hp') h3).congr d2 b2 d3 b3
  · rw [(blockedReceiptWithData_ok g3).1] at hs
    exact absurd hs (by decide)

theorem deleteLocked_logs {s : String} {path : Path}
    (hp : resolveWorkspacePath rt.workspaceRoot s = .ok path) (ha : Apart path rt.stateRoot)
    (h : Ok (deleteLocked rt s path) k r k') : LogsStep rt k k' r := by
  obtain ⟨txId, k1, h1, g1⟩ := bind_ok.mp h
  obtain ⟨⟨b, ref⟩, k2, h2, g2⟩ := bind_ok.mp g1
  obtain ⟨_, k3, h3, g3⟩ := bind_ok.mp g2
  obtain ⟨_, k4, h4, h5⟩ := bind_ok.mp g3
  obtain ⟨hname, d1, b1⟩ := txName_of_newTxId (by decide) h1
  obtain ⟨hback, b2, hsaved, -⟩ := backupWorkspacePath_ok ha h2
  rw [d1] at hback hsaved
  obtain ⟨d3, hr, e3⟩ := onDisk_ok.mp h3
  obtain ⟨huser, hno⟩ := removePathAny_user ha hr
  obtain ⟨dr, br, hdata⟩ := recorded_ok h4 h5
  have hdisk : k'.disk = d3 := by rw [dr, e3]
  let record : OsTxRecord :=
    ⟨txId, "os.delete_path", some s, none, some "source_mutation", b, false, ref, none⟩
  have hblobs : k'.blobs =
      Function.update k.blobs (txBlobName record.txId) (some record.toJson) := by
    rw [br, e3, ← b1, ← b2]
  refine ⟨record, logged_of hname hback (hdisk ▸ huser) ?_
    (SlotKept.none rt txId k.disk k'.disk false none) ?_ ?_ ?_, ?_⟩
  · exact fun q hq => Or.inr ((covers_some hp).mpr hq)
  · rw [hdisk]
    refine (hsaved.later fun q hq => huser.state q ?_).slotKept (by decide) hp ha fun hx => hno ?_
    · exact (stateRoot_prefix_backupPath rt txId _).trans hq
    · rwa [hback.apart path ha]
  · rw [hblobs, Function.update_self]
  · intro id hid hne
    rw [hblobs, update_txBlob hname hid hne]
  · rw [hdata]
    rfl

theorem deletePath_logs {s : String} (h : Ok (deletePath rt s) k r k')
    (hs : r.status = "success") (hsep : Separated s) (hclear : Clear rt s) :
    LogsStep rt k k' r := by
  obtain ⟨-, g⟩ := withCapability_success h hs
  obtain ⟨p, k1, h1, g1⟩ := bind_ok.mp g
  obtain ⟨hp, e1⟩ := resolvePath_ok.mp h1
  subst e1
  obtain ⟨_, _, hg, g2⟩ := bind_ok.mp g1
  cases hg
  split at g2
  · obtain ⟨k2, k3, h2, d2, b2, d3, b3⟩ := withMutationLocks_success g2 hs
    rw [normalizePath_of_separated hsep] at h2
    exact (deleteLocked_logs hp (hclear p hp) h2).congr d2 b2 d3 b3
  · rw [(blockedReceiptWithData_ok g2).1] at hs
    exact absurd hs (by decide)

theorem zipPaths_logs {sources : List String} {s : String} (h : Ok (zipPaths rt sources s) k r k')
    (hs : r.status = "success") (hsep : Separated s) (hclear : Clear rt s) :
    LogsStep rt k k' r := by
  obtain ⟨-, g⟩ := withCapability_success h hs
  obtain ⟨txId, k1, h1, g1⟩ := bind_ok.mp g
  obtain ⟨p, k2, h2, g2⟩ := bind_ok.mp g1
  obtain ⟨⟨b, ref⟩, k3, h3, g3⟩ := bind_ok.mp g2
  obtain ⟨_, k4, h4, g4⟩ := bind_ok.mp g3
  obtain ⟨_, k5, h5, g5⟩ := bind_ok.mp g4
  obtain ⟨_, k6, h6, h7⟩ := bind_ok.mp g5
  obtain ⟨hname, d1, b1⟩ := txName_of_newTxId (by decide) h1
  obtain ⟨hp, e2⟩ := resolvePath_ok.mp h2
  have ha := hclear p hp
  obtain ⟨hback, b3, hsaved, -⟩ := backupWorkspacePath_ok ha h3
  rw [e2, d1] at hback hsaved
  obtain ⟨d5, hz, e5⟩ := onDisk_ok.mp h5
  obtain ⟨bytes, hw⟩ := zipAt_ok hz
  rw [resolveSources_ok h4] at hw e5
  obtain ⟨huser, hno⟩ := writeAt_user ha hw
  obtain ⟨dr, br, hdata⟩ := recorded_ok h6 h7
  have hdisk : k'.disk = d5 := by rw [dr, e5]
  let record : OsTxRecord :=
    ⟨txId, "os.zip", none, some (normalizePath s), some "artifact", false, b, none, ref⟩
  have hblobs : k'.blobs =
      Function.update k.blobs (txBlobName record.txId) (some record.toJson) := by
    rw [br, e5, ← b1, ← e2, ← b3]
  have hp' : resolveWorkspacePath rt.workspaceRoot (normalizePath s) = .ok p := by
    rwa [normalizePath_of_separated hsep]
  refine ⟨record, logged_of hname hback (hdisk ▸ huser) ?_ ?_
    (SlotKept.none rt txId k.disk k'.disk false none) ?_ ?_, ?_⟩
  · exact fun q hq => Or.inl ((covers_some hp').mpr hq)
  · rw [hdisk]
    refine (hsaved.later fun q hq => huser.state q ?_).slotKept (by decide) hp' ha fun _ => hno
    exact (stateRoot_prefix_backupPath rt txId _).trans hq
  · rw [hblobs, Function.update_self]
  · intro id hid hne
    rw [hblobs, update_txBlob hname hid hne]
  · rw [hdata]
    rfl

end Os

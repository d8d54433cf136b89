import SuperNova.Os.Effects

/-!
# Rolling a recorded transaction back

`RecordKept rt d0 d1 record` says that a disk `d1` still has all that `record` needs to give the
files of `d0` back: each path it names was either free of files or is saved in the job's
backups, and nothing else changed.  `rollbackTx_restores` turns it into a successful rollback,
from any state with the same files, the same backups and the record in place.
-/

set_option linter.unusedSectionVars false

namespace Os

open Paths Io FileTree Workspace

variable {rt : Runtime} {txId slot : String} {d d0 d1 : Disk}

/-- equal files outside the runtime's own state -/
def SameFiles (rt : Runtime) (d d' : Disk) : Prop :=
  ∀ q, ¬ rt.stateRoot <+: q → d.fileAt q = d'.fileAt q

/-- the path argument `path` covers `q` -/
def Covers (rt : Runtime) (path : Option String) (q : Path) : Prop :=
  ∃ s p, path = some s ∧ resolveWorkspacePath rt.workspaceRoot s = .ok p ∧ p <+: q

/-- one half of a record can give the files of `d0` back on the disk `d`: the path was saved in a
slot of the transaction, or it held no files -/
def SlotKept (rt : Runtime) (txId : String) (d0 d : Disk) (path : Option String)
    (beforeExists : Bool) (ref : Option String) : Prop :=
  ∀ s, path = some s → ∃ p, resolveWorkspacePath rt.workspaceRoot s = .ok p ∧
    Apart p rt.stateRoot ∧
    ((beforeExists = true ∧ ∃ slot ∈ ["source", "destination"],
        ref = some (backupRef rt txId slot) ∧ d0.entry p ≠ none ∧ d.NoFileTo p.dropLast ∧
        ∀ r, d.entry (backupPath rt txId slot ++ r) = d0.entry (p ++ r)) ∨
      ((beforeExists = false ∨ ref = none) ∧ ∀ r, d0.fileAt (p ++ r) = none))

/-- a record from which the files of `d0` can be given back on the disk `d1` -/
structure RecordKept (rt : Runtime) (d0 d1 : Disk) (record : OsTxRecord) : Prop where
  name : TxName record.txId
  destination : SlotKept rt record.txId d0 d1 record.destinationPath
    record.destinationBeforeExists record.destinationBackupRef
  source : SlotKept rt record.txId d0 d1 record.sourcePath record.sourceBeforeExists
    record.sourceBackupRef
  files : ∀ q, ¬ rt.stateRoot <+: q → ¬ Covers rt record.destinationPath q →
    ¬ Covers rt record.sourcePath q → d1.fileAt q = d0.fileAt q

theorem SlotKept.none (rt : Runtime) (txId : String) (d0 d : Disk) (b : Bool)
    (ref : Option String) : SlotKept rt txId d0 d none b ref := fun s h => by cases h

/-! ## references of backups -/

theorem resolveBackupRef_backupRef (h : TxName txId) (hslot : slot ∈ ["source", "destination"]) :
    resolveBackupRef rt (backupRef rt txId slot) = .ok (backupPath rt txId slot) := by
  have hs : '/' ∉ slot.toList ∧ slot ≠ "" ∧ slot ≠ "." ∧ slot ≠ ".." := by
    simp only [List.mem_cons, List.not_mem_nil, or_false] at hslot
    rcases hslot with rfl | rfl <;> decide
  have e : backupRef rt txId slot = ("txbackup://" ++ rt.jobId ++ "/") ++ (txId ++ "/" ++ slot) := by
    simp [backupRef, String.append_assoc]
  have hc : components (txId ++ "/" ++ slot) = [txId, slot] := by
    have hsp : Text.splitOn '/' (txId ++ "/" ++ slot) = [txId, slot] :=
      Text.splitOn_pair h.no_slash hs.1
    rw [components, hsp]
    simp [h.ne (s := "") (by decide), h.ne (s := ".") (by decide), hs.2.1, hs.2.2.1]
  have hnabs : isAbsolute (txId ++ "/" ++ slot) = false := by
    unfold isAbsolute
    have hne : txId.toList ≠ [] := fun c => by
      have := h.2
      rw [c] at this
      cases this
    obtain ⟨c, l, hcl⟩ := List.exists_cons_of_ne_nil hne
    have hc' : c ≠ '/' := fun e => h.no_slash (by rw [hcl, e]; exact List.mem_cons_self)
    simp [String.toList_append, hcl, hc']
  rw [resolveBackupRef, e, Text.stripPrefix_append]
  simp only [hc, hnabs]
  rw [if_neg]
  · simp [backupPath]
  · have h1 : ".." ∉ [txId, slot] := by
      simp [(h.ne (s := "..") (by decide)).symm, hs.2.2.2.symm]
    simp [h1]

/-! ## one half of a record -/

theorem SlotKept.transfer {path : Option String} {b : Bool} {ref : Option String}
    (h : SlotKept rt txId d0 d1 path b ref) (hno : ∀ s p, path = some s →
      resolveWorkspacePath rt.workspaceRoot s = .ok p → Apart p rt.stateRoot →
      d0.entry p ≠ Option.none → d1.NoFileTo p.dropLast → d.NoFileTo p.dropLast)
    (hback : ∀ q, txBackups rt txId <+: q → d.entry q = d1.entry q) :
    SlotKept rt txId d0 d path b ref := by
  intro s hs
  obtain ⟨p, hp, ha, hcase⟩ := h s hs
  refine ⟨p, hp, ha, ?_⟩
  rcases hcase with ⟨hb, slot, hslot, href, hd0, hnf, hsaved⟩ | hfree
  · refine Or.inl ⟨hb, slot, hslot, href, hd0, hno s p hs hp ha hd0 hnf, fun r => ?_⟩
    rw [hback _ ((txBackups_below rt txId slot).trans (List.prefix_append ..)), hsaved]
  · exact Or.inr hfree

/-- what restoring one half of a record does: the files it covers are those of `d0` -/
structure SlotRestored (rt : Runtime) (d0 : Disk) (path : Option String) (k k' : Kernel) :
    Prop where
  covered : ∀ q, Covers rt path q → k'.disk.fileAt q = d0.fileAt q
  files : ∀ q, ¬ Covers rt path q → k'.disk.fileAt q = k.disk.fileAt q
  state : ∀ q, rt.stateRoot <+: q → k'.disk.entry q = k.disk.entry q
  blobs : k'.blobs = k.blobs

theorem not_covers_none (q : Path) : ¬ Covers rt none q := by
  rintro ⟨s, p, h, -⟩
  cases h

theorem restoreSlot_none (k : Kernel) (b : Bool) (ref : Option String) :
    Ok (restoreSlot rt none b ref) k () k ∧ SlotRestored rt d0 none k k :=
  ⟨rfl, ⟨fun q h => absurd h (not_covers_none q), fun _ _ => rfl, fun _ _ => rfl, rfl⟩⟩

theorem covers_some {s : String} {p q : Path}
    (hp : resolveWorkspacePath rt.workspaceRoot s = .ok p) : Covers rt (some s) q ↔ p <+: q := by
  constructor
  · rintro ⟨s', p', hs, hp', h⟩
    cases hs
    rw [hp] at hp'
    cases hp'
    exact h
  · exact fun h => ⟨s, p, rfl, hp, h⟩

theorem restoreSlot_free {s : String} {p : Path} {k : Kernel} {b : Bool} {ref : Option String}
    (hp : resolveWorkspacePath rt.workspaceRoot s = .ok p) (ha : Apart p rt.stateRoot)
    (hb : b = false ∨ ref = none) (hfree : ∀ r, d0.fileAt (p ++ r) = none) :
    ∃ k', Ok (restoreSlot rt (some s) b ref) k () k' ∧ SlotRestored rt d0 (some s) k k' := by
  obtain ⟨t, ht⟩ := removeIfExists_total k.disk ha.ne_nil
  have he := removeIfExists_ok ht
  refine ⟨{ k with disk := t }, ?_, fun q hq => ?_, fun q hq => ?_, fun q hq => ?_, rfl⟩
  · refine bind_ok.mpr ⟨p, k, resolvePath_ok.mpr ⟨hp, rfl⟩, ?_⟩
    refine bind_ok.mpr ⟨(), _, onDisk_ok.mpr ⟨t, ht, rfl⟩, ?_⟩
    rcases hb with rfl | rfl
    · rfl
    · cases b <;> rfl
  · rw [covers_some hp] at hq
    obtain ⟨r, rfl⟩ := hq
    rw [hfree]
    apply Tree.fileAt_of_none
    rw [he, if_pos (List.prefix_append ..)]
  · rw [covers_some hp] at hq
    apply Tree.fileAt_congr
    rw [he, if_neg hq]
  · show t.entry q = k.disk.entry q
    rw [he, if_neg (ha.symm.not_both hq)]

theorem restoreSlot_saved {s : String} {p : Path} {k : Kernel} (htx : TxName txId)
    (hslot : slot ∈ ["source", "destination"])
    (hp : resolveWorkspacePath rt.workspaceRoot s = .ok p) (ha : Apart p rt.stateRoot)
    (hd0 : d0.entry p ≠ none) (hno : k.disk.NoFileTo p.dropLast)
    (hsaved : ∀ r, k.disk.entry (backupPath rt txId slot ++ r) = d0.entry (p ++ r)) :
    ∃ k', Ok (restoreSlot rt (some s) true (some (backupRef rt txId slot))) k () k' ∧
      SlotRestored rt d0 (some s) k k' := by
  obtain ⟨t, ht⟩ := removeIfExists_total k.disk ha.ne_nil
  have he := removeIfExists_ok ht
  have hap : Apart (backupPath rt txId slot) p :=
    (ha.mono List.prefix_rfl (stateRoot_prefix_backupPath rt txId slot)).symm
  have hsrc : ∀ r, t.entry (backupPath rt txId slot ++ r) = d0.entry (p ++ r) := by
    intro r
    rw [he, if_neg (hap.not_both (List.prefix_append ..)), hsaved]
  have hno' : t.NoFileTo p.dropLast := by
    intro q hq
    rw [← hno q hq]
    apply Tree.fileAt_congr
    rw [he, if_neg]
    intro c
    have h1 := (c.trans hq).length_le
    have h2 := List.length_pos_iff.mpr ha.ne_nil
    rw [List.length_dropLast] at h1
    omega
  have hs : t.entry (backupPath rt txId slot) ≠ none := by
    have := hsrc []
    rw [List.append_nil, List.append_nil] at this
    rwa [this]
  have hf : t.entry p = none := by rw [he, if_pos List.prefix_rfl]
  obtain ⟨t', ht', hg⟩ := copyPathRecursive_total hap hs hf hno'
  refine ⟨{ k with disk := t' }, ?_, fun q hq => ?_, fun q hq => ?_, fun q hq => ?_, rfl⟩
  · refine bind_ok.mpr ⟨p, k, resolvePath_ok.mpr ⟨hp, rfl⟩, ?_⟩
    refine bind_ok.mpr ⟨(), _, onDisk_ok.mpr ⟨t, ht, rfl⟩, ?_⟩
    refine onDisk_ok.mpr ⟨t', ?_, rfl⟩
    unfold restoreTxBackup
    rw [resolveBackupRef_backupRef htx hslot]
    exact ht'
  · rw [covers_some hp] at hq
    obtain ⟨r, rfl⟩ := hq
    apply Tree.fileAt_congr
    rw [hg.below, hsrc]
  · rw [covers_some hp] at hq
    by_cases c : q <+: p
    · have hne : q ≠ p := by
        rintro rfl
        exact hq List.prefix_rfl
      have hd : t'.entry q = some .dir := by rw [hg q, if_neg hq, if_pos c]
      rw [hno q ((prefix_dropLast c).resolve_left hne)]
      exact Tree.fileAt_of_dir hd
    · apply Tree.fileAt_congr
      rw [hg q, if_neg hq, if_neg c, he, if_neg hq]
  · show t'.entry q = k.disk.entry q
    have hpq : Apart p q := ha.mono List.prefix_rfl hq
    rw [hg.apart hpq, he, if_neg hpq.1]

theorem restoreSlot_total {path : Option String} {b : Bool} {ref : Option String} {k : Kernel}
    (htx : TxName txId) (h : SlotKept rt txId d0 k.disk path b ref) :
    ∃ k', Ok (restoreSlot rt path b ref) k () k' ∧ SlotRestored rt d0 path k k' := by
  cases path with
  | none => exact ⟨k, restoreSlot_none k b ref⟩
  | some s =>
    obtain ⟨p, hp, ha, hcase⟩ := h s rfl
    rcases hcase with ⟨rfl, slot, hslot, rfl, hd0, hno, hsaved⟩ | ⟨hb, hfree⟩
    · exact restoreSlot_saved htx hslot hp ha hd0 hno hsaved
    · exact restoreSlot_free hp ha hb hfree

/-! ## the whole record -/

/-- a state from which the transaction of `record` can be rolled back to the files of `d0` -/
structure Restorable (rt : Runtime) (d0 : Disk) (record : OsTxRecord) (k : Kernel) : Prop where
  kept : RecordKept rt d0 k.disk record
  blob : k.blobs (txBlobName record.txId) = some record.toJson

theorem Restorable.transfer {record : OsTxRecord} {k k' : Kernel} (h : Restorable rt d0 record k)
    (hfiles : SameFiles rt k.disk k'.disk)
    (hback : ∀ q, txBackups rt record.txId <+: q → k'.disk.entry q = k.disk.entry q)
    (hblob : k'.blobs (txBlobName record.txId) = k.blobs (txBlobName record.txId)) :
    Restorable rt d0 record k' := by
  have hno : ∀ p : Path, Apart p rt.stateRoot → k.disk.NoFileTo p.dropLast →
      k'.disk.NoFileTo p.dropLast := by
    intro p ha hno q hq
    rw [← hfiles q fun c => ha.2 (c.trans (hq.trans (dropLast_above p))), hno q hq]
  refine ⟨⟨h.kept.name, ?_, ?_, ?_⟩, hblob.trans h.blob⟩
  · exact h.kept.destination.transfer (fun s p _ _ ha _ => hno p ha) hback
  · exact h.kept.source.transfer (fun s p _ _ ha _ => hno p ha) hback
  · intro q hq hd hs
    rw [← hfiles q hq, h.kept.files q hq hd hs]

theorem restoreTxRecord_restores {record : OsTxRecord} {k : Kernel}
    (h : RecordKept rt d0 k.disk record) :
    ∃ k', Ok (restoreTxRecord rt record) k () k' ∧ SameFiles rt d0 k'.disk ∧
      (∀ q, rt.stateRoot <+: q → k'.disk.entry q = k.disk.entry q) ∧ k'.blobs = k.blobs := by
  obtain ⟨k1, h1, r1⟩ := restoreSlot_total h.name h.destination
  have hsource : SlotKept rt record.txId d0 k1.disk record.sourcePath record.sourceBeforeExists
      record.sourceBackupRef := by
    refine h.source.transfer (fun s p hs hp ha hd0 hno => ?_) fun q hq =>
      r1.state q ((stateRoot_prefix_txBackups rt record.txId).trans hq)
    intro q hq
    by_cases c : Covers rt record.destinationPath q
    · rw [r1.covered q c]
      exact Tree.noFileTo_dropLast hd0 ha.ne_nil q hq
    · rw [r1.files q c, hno q hq]
  obtain ⟨k2, h2, r2⟩ := restoreSlot_total h.name hsource
  refine ⟨k2, bind_ok.mpr ⟨(), k1, h1, h2⟩, fun q hq => ?_, fun q hq => ?_,
    r2.blobs.trans r1.blobs⟩
  · by_cases cs : Covers rt record.sourcePath q
    · rw [r2.covered q cs]
    · rw [r2.files q cs]
      by_cases cd : Covers rt record.destinationPath q
      · rw [r1.covered q cd]
      · rw [r1.files q cd, h.files q hq cd cs]
  · rw [r2.state q hq, r1.state q hq]

theorem rollbackTx_total {record : OsTxRecord} {k k1 : Kernel}
    (hcap : "os.rollback_tx" ∈ rt.capabilities)
    (hblob : k.blobs (txBlobName record.txId) = some record.toJson)
    (h : Ok (restoreTxRecord rt record) k () k1) :
    ∃ r k', Ok (rollbackTx rt record.txId) k r k' ∧ r.status = "success" ∧ k'.disk = k1.disk ∧
      k'.blobs = k1.blobs := by
  let receipt : Receipt := ⟨"os.rollback_tx", rt.jobId, rt.pid, "success",
    .obj [("tx_id", .str record.txId), ("rolled_back_operation", .str record.operation)]⟩
  obtain ⟨k2, h2⟩ := emitReceipt_total rt "tx_rollback" receipt k1
  obtain ⟨k3, h3⟩ := emitReceipt_total rt "capability_receipt" receipt k2
  obtain ⟨d2, b2⟩ := emitReceipt_ok h2
  obtain ⟨d3, b3⟩ := emitReceipt_ok h3
  refine ⟨receipt, k3, ?_, rfl, d3.trans d2, b3.trans b2⟩
  unfold rollbackTx
  rw [withCapability_of_mem hcap]
  refine bind_ok.mpr ⟨k, k, rfl, ?_⟩
  rw [hblob]
  simp only [OsTxRecord.ofJson_toJson]
  refine bind_ok.mpr ⟨(), k1, h, ?_⟩
  refine bind_ok.mpr ⟨(), k2, h2, ?_⟩
  exact bind_ok.mpr ⟨(), k3, h3, rfl⟩

/-- a rollback that succeeded and gave the files of `d0` back -/
def RollsBackTo (rt : Runtime) (txId : String) (d0 : Disk) (k k' : Kernel) : Prop :=
  ∃ r, Ok (rollbackTx rt txId) k r k' ∧ r.status = "success" ∧ SameFiles rt d0 k'.disk

/-- **a restorable transaction is rolled back** -/
theorem rollbackTx_restores {record : OsTxRecord} {k : Kernel}
    (hcap : "os.rollback_tx" ∈ rt.capabilities) (h : Restorable rt d0 record k) :
    ∃ k', RollsBackTo rt record.txId d0 k k' ∧
      (∀ q, rt.stateRoot <+: q → k'.disk.entry q = k.disk.entry q) ∧ k'.blobs = k.blobs := by
  obtain ⟨k1, h1, hfiles, hstate, hblobs⟩ := restoreTxRecord_restores h.kept
  obtain ⟨r, k', hr, hs, hd, hb⟩ := rollbackTx_total hcap h.blob h1
  refine ⟨k', ⟨r, hr, hs, ?_⟩, fun q hq => ?_, hb.trans hblobs⟩
  · rw [hd]
    exact hfiles
  · rw [hd, hstate q hq]

end Os

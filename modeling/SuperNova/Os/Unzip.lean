import SuperNova.Os.Logged

/-!
# Rolling an unzip back

The record of an unzip names the archive as a source that existed before and has no backup.
Rolling it back therefore restores the destination and then removes the archive
(`unzipArchive_rollback`): it succeeds, and the archive, a file before, is gone.
-/

set_option linter.unusedSectionVars false

namespace Os

open Paths Io FileTree Workspace

variable {rt : Runtime} {k k' : Kernel} {r : Receipt} {archive destination path : Path}
  {t t' d d0 : Disk}

/-- directories stay, and nothing apart from `destination` changes -/
structure FilledBelow (destination : Path) (t t' : Disk) : Prop where
  dirs : ∀ q, t.entry q = some .dir → t'.entry q = some .dir
  apart : ∀ q, Apart destination q → t'.entry q = t.entry q

theorem FilledBelow.refl (destination : Path) (t : Disk) : FilledBelow destination t t :=
  ⟨fun _ h => h, fun _ _ => rfl⟩

theorem FilledBelow.trans {t'' : Disk} (h : FilledBelow destination t t')
    (h' : FilledBelow destination t' t'') : FilledBelow destination t t'' :=
  ⟨fun q hq => h'.dirs q (h.dirs q hq), fun q hq => (h'.apart q hq).trans (h.apart q hq)⟩

theorem filledBelow_write {u v : Unit} {t1 : Disk} {content : Bytes} (hp : destination <+: path)
    (h1 : Ok (createDirAll path.dropLast) t u t1) (h2 : Ok (write path content) t1 v t') :
    FilledBelow destination t t' := by
  obtain ⟨-, -, hn, he⟩ := writeAt_ok (bind_ok.mpr ⟨_, t1, h1, h2⟩)
  refine ⟨fun q hq => ?_, fun q hq => ?_⟩
  · have hne : q ≠ path := by
      rintro rfl
      exact hn hq
    rw [he, if_neg hne, hq, ite_self]
  · have ha : Apart path q := hq.mono hp List.prefix_rfl
    rw [he, if_neg ha.ne.symm, if_neg ha.2]

theorem resolveArchiveEntry_below {name : String} (h : resolveArchiveEntry destination name =
    .ok path) : destination <+: path := by
  unfold resolveArchiveEntry at h
  split at h
  · cases h
  · cases h
    exact List.prefix_append _ _

theorem readEntries_filled {bytes : Bytes} (fuel : Nat) : ∀ (offset count n : Nat) (t t' : Disk),
    Ok (readEntries bytes destination fuel offset count) t n t' →
      FilledBelow destination t t' := by
  induction fuel with
  | zero =>
    intro offset count n t t' h
    cases h
    exact FilledBelow.refl _ _
  | succ fuel ih =>
    intro offset count n t t' h
    rw [readEntries] at h
    split at h
    · split at h
      · cases h
      · cases h
        exact FilledBelow.refl _ _
      · split at h
        · cases h
        · split at h
          · cases h
          · rename_i target htarget
            obtain ⟨_, t1, h1, g1⟩ := bind_ok.mp h
            obtain ⟨_, t2, h2, g2⟩ := bind_ok.mp g1
            exact (filledBelow_write (resolveArchiveEntry_below htarget) h1 h2).trans
              (ih _ _ _ _ _ g2)
    · cases h
      exact FilledBelow.refl _ _

theorem unzipAt_ok {n : Nat} (h : Ok (unzipAt archive destination) t n t') :
    t.NoFileTo destination ∧ t'.entry destination = some .dir ∧
      ∀ q, Apart destination q → t'.entry q = t.entry q := by
  obtain ⟨_, t1, h1, g1⟩ := bind_ok.mp h
  obtain ⟨hno, rfl⟩ := createDirAll_ok.mp h1
  obtain ⟨_, t2, h2, g2⟩ := bind_ok.mp g1
  obtain ⟨-, rfl⟩ := read_ok.mp h2
  have hf := readEntries_filled _ _ _ _ _ _ g2
  refine ⟨hno, hf.dirs _ ?_, fun q hq => ?_⟩
  · rw [Tree.mkdirs_entry, if_pos List.prefix_rfl]
  · rw [hf.apart q hq, Tree.mkdirs_entry, if_neg hq.2]

theorem restoreSlot_removes {s : String} {p : Path}
    (hp : resolveWorkspacePath rt.workspaceRoot s = .ok p) (hne : p ≠ []) (k : Kernel) :
    ∃ k', Ok (restoreSlot rt (some s) true none) k () k' ∧
      (∀ q, k'.disk.entry q = if p <+: q then none else k.disk.entry q) ∧ k'.blobs = k.blobs := by
  obtain ⟨t, ht⟩ := removeIfExists_total k.disk hne
  refine ⟨{ k with disk := t }, ?_, removeIfExists_ok ht, rfl⟩
  refine bind_ok.mpr ⟨p, k, resolvePath_ok.mpr ⟨hp, rfl⟩, ?_⟩
  exact bind_ok.mpr ⟨(), _, onDisk_ok.mpr ⟨t, ht, rfl⟩, rfl⟩

theorem unzipArchive_ok {a s : String} (h : Ok (unzipArchive rt a s) k r k')
    (hs : r.status = "success") (hsep : Separated a) (hsep' : Separated s) (hclear' : Clear rt s) :
    ∃ p, ∃ record : OsTxRecord, resolveWorkspacePath rt.workspaceRoot a = .ok p ∧
      k.disk.isFile p = true ∧
      r.data.strAt? "tx_id" = some record.txId ∧ TxName record.txId ∧
      k'.blobs (txBlobName record.txId) = some record.toJson ∧
      record.sourcePath = some a ∧ record.sourceBeforeExists = true ∧
      record.sourceBackupRef = none ∧
      SlotKept rt record.txId k.disk k'.disk record.destinationPath
        record.destinationBeforeExists record.destinationBackupRef := by
  obtain ⟨-, g⟩ := withCapability_success h hs
  obtain ⟨p, k1, h1, g1⟩ := bind_ok.mp g
  obtain ⟨p', k2, h2, g2⟩ := bind_ok.mp g1
  obtain ⟨hp, e1⟩ := resolvePath_ok.mp h1
  obtain ⟨hp', e2⟩ := resolvePath_ok.mp h2
  subst e1 e2
  obtain ⟨_, _, hg, g3⟩ := bind_ok.mp g2
  cases hg
  split at g3
  · rename_i hfile
    obtain ⟨txId, k3, h3, g4⟩ := bind_ok.mp g3
    obtain ⟨⟨b, ref⟩, k4, h4, g5⟩ := bind_ok.mp g4
    obtain ⟨_, k5, h5, g6⟩ := bind_ok.mp g5
    obtain ⟨_, k6, h6, h7⟩ := bind_ok.mp g6
    obtain ⟨hname, d3, -⟩ := txName_of_newTxId (by decide) h3
    have ha := hclear' p' hp'
    obtain ⟨-, -, hsaved, -⟩ := backupWorkspacePath_ok ha h4
    rw [d3] at hsaved
    obtain ⟨d5, hz, e5⟩ := onDisk_ok.mp h5
    obtain ⟨-, hdir, hapart⟩ := unzipAt_ok hz
    obtain ⟨dr, br, hdata⟩ := recorded_ok h6 h7
    have hdisk : k'.disk = d5 := by rw [dr, e5]
    let record : OsTxRecord := ⟨txId, "os.unzip", some (normalizePath a), some (normalizePath s),
      some "artifact", true, b, none, ref⟩
    refine ⟨p, record, hp, hfile, ?_, hname, ?_, ?_, rfl, rfl, ?_⟩
    · rw [hdata]
      rfl
    · rw [br, Function.update_self]
    · exact congrArg some (normalizePath_of_separated hsep)
    · rw [hdisk]
      refine (hsaved.later fun q hq => hapart q ?_).slotKept (by decide)
        (by rwa [normalizePath_of_separated hsep']) ha fun _ => ?_
      · exact ha.mono List.prefix_rfl ((stateRoot_prefix_backupPath rt txId _).trans hq)
      · exact (Tree.noFileTo_of_dir hdir).mono (dropLast_above p')
  · rw [(blockedReceiptWithData_ok g3).1] at hs
    exact absurd hs (by decide)

/-- **rolling an unzip back succeeds and loses the archive** -/
theorem unzipArchive_rollback {a s : String} (h : Ok (unzipArchive rt a s) k r k')
    (hs : r.status = "success") (hcap : "os.rollback_tx" ∈ rt.capabilities)
    (hsep : Separated a) (hsep' : Separated s) (hclear : Clear rt a) (hclear' : Clear rt s) :
    ∃ p id r' k'', resolveWorkspacePath rt.workspaceRoot a = .ok p ∧
      k.disk.isFile p = true ∧ r.data.strAt? "tx_id" = some id ∧
      Ok (rollbackTx rt id) k' r' k'' ∧ r'.status = "success" ∧ k''.disk.fileAt p = none := by
  obtain ⟨p, record, hp, hfile, hid, hname, hblob, hsrc, hbefore, href, hdest⟩ :=
    unzipArchive_ok h hs hsep hsep' hclear'
  obtain ⟨k1, h1, -⟩ := restoreSlot_total hname hdest
  obtain ⟨k2, h2, he, -⟩ := restoreSlot_removes hp (hclear p hp).ne_nil k1
  have hrestore : Ok (restoreTxRecord rt record) k' () k2 := by
    refine bind_ok.mpr ⟨(), k1, h1, ?_⟩
    rw [hsrc, hbefore, href]
    exact h2
  obtain ⟨r', k'', hr, hs', hd, -⟩ := rollbackTx_total hcap hblob hrestore
  refine ⟨p, record.txId, r', k'', hp, hfile, hid, hr, hs', ?_⟩
  apply Tree.fileAt_of_none
  rw [hd, he, if_pos List.prefix_rfl]

end Os

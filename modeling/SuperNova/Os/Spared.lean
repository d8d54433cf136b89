import SuperNova.Os.Effects
import SuperNova.Os.Logged
import SuperNova.Workspace.Kept

/-!
# Calls that fail

The rules of `SuperNova.Workspace.Kept` for programs over the whole kernel: receipts, events, blobs
and locks do not touch the disk, and a backup touches the runtime's own state only.

A call fails when it returns an error or a receipt that reports no success.  `Spares rt d m k` says
that `m`, run from `k`, leaves the files of `d` outside the runtime's state if it fails.  The rules
follow a call from step to step; what is left to show is that nothing fails any more once a file was
changed.

* `write_spares`, `delete_spares`, `zip_spares`: these calls change their one file last.
-/

set_option linter.unusedSectionVars false

namespace Os

open Paths Io FileTree Workspace

/-- the program leaves the file at `q` (or that there is none) as it is, also when it fails -/
def LeavesFile {α : Type} (q : Path) (m : KernelM α) : Prop :=
  ∀ content, Keeps (fun k : Kernel => k.disk.fileAt q = content) m

section
variable {α β : Type} {q path : Path} {rt : Runtime} {k k' : Kernel} {cap : String}

theorem LeavesFile.bind {m : KernelM α} {f : α → KernelM β} (hm : LeavesFile q m)
    (hf : ∀ a, LeavesFile q (f a)) : LeavesFile q (m >>= f) :=
  fun content => Keeps.bind (hm content) fun a => hf a content

theorem LeavesFile.pure (a : α) : LeavesFile q (pure a) := fun _ => Keeps.pure _ a

theorem LeavesFile.throw (e : Fault) : LeavesFile q (throw e : KernelM α) :=
  fun _ => Keeps.throw _ e

theorem LeavesFile.get : LeavesFile q (get : KernelM Kernel) := fun _ => Keeps.get _

theorem LeavesFile.ite {c : Prop} [Decidable c] {m m' : KernelM α} (hm : LeavesFile q m)
    (hm' : LeavesFile q m') : LeavesFile q (if c then m else m') :=
  fun content => Keeps.ite (hm content) (hm' content)

theorem LeavesFile.forM {f : α → KernelM PUnit} (l : List α) (h : ∀ a ∈ l, LeavesFile q (f a)) :
    LeavesFile q (l.forM f) :=
  fun content => Keeps.forM l fun a ha => h a ha content

theorem LeavesFile.final {m : KernelM α} (h : LeavesFile q m) (k : Kernel) :
    (final m k).disk.fileAt q = k.disk.fileAt q := h _ k rfl

theorem LeavesFile.of_ok {m : KernelM α} {a : α} (h : LeavesFile q m) (hm : Ok m k a k') :
    k'.disk.fileAt q = k.disk.fileAt q := (h _).of_ok hm rfl

/-! ## the shared parts -/

theorem leavesFile_onDisk {m : DiskM α} (h : KeepsFile q m) : LeavesFile q (onDisk m) := by
  intro content k hk
  cases hm : m k.disk with
  | ok a d =>
    rw [final_of_ok (onDisk_ok.mpr ⟨d, hm, rfl⟩)]
    exact (h.of_ok hm).trans hk
  | error e d =>
    rw [final_of_err (onDisk_err.mpr ⟨d, hm, rfl⟩)]
    exact (h.of_err hm).trans hk

theorem leavesFile_modify {f : Kernel → Kernel} (h : ∀ k, (f k).disk = k.disk) :
    LeavesFile q (modify f) := by
  intro content k hk
  rw [final_of_ok (modify_apply f k), h, hk]

theorem leavesFile_resolvePath (s : String) : LeavesFile q (resolvePath rt s) := by
  intro content k hk
  unfold Io.final resolvePath
  cases resolveWorkspacePath rt.workspaceRoot s with
  | ok p => exact hk
  | error e => exact hk

theorem leavesFile_resolvePath_bind {s : String} {f : Path → KernelM α}
    (hf : ∀ p, resolveWorkspacePath rt.workspaceRoot s = .ok p → LeavesFile q (f p)) :
    LeavesFile q (resolvePath rt s >>= f) := by
  intro content k hk
  cases hr : resolvePath rt s k with
  | ok p k1 =>
    obtain ⟨hp, rfl⟩ := resolvePath_ok.mp hr
    rw [final_bind_of_ok hr]
    exact hf p hp content k1 hk
  | error e k1 =>
    rw [final_bind_of_err hr, resolvePath_err hr]
    exact hk

theorem leavesFile_newTxId (pfx : String) : LeavesFile q (newTxId pfx) := fun _ _ hk => hk

theorem leavesFile_emitEvent (eventType : String) (data : Json) :
    LeavesFile q (emitEvent rt eventType data) :=
  LeavesFile.ite (leavesFile_modify fun _ => rfl) (LeavesFile.pure _)

theorem leavesFile_blockedReceiptWithData (data : Json) :
    LeavesFile q (blockedReceiptWithData rt cap data) :=
  LeavesFile.bind (leavesFile_emitEvent _ _) fun _ =>
    LeavesFile.bind (leavesFile_emitEvent _ _) fun _ => LeavesFile.pure _

theorem keepsFile_removeIfExists {p : Path} (h : ¬ p <+: q) : KeepsFile q (removeIfExists p) :=
  KeepsFile.bind KeepsFile.get fun _ => KeepsFile.ite (keepsFile_removePathAny h)
    (KeepsFile.pure _)

theorem leavesFile_backupWorkspacePath (txId slot : String) (h : ¬ rt.stateRoot <+: q) :
    LeavesFile q (backupWorkspacePath rt txId slot path) := by
  have hbackup : ¬ backupPath rt txId slot <+: q := fun c =>
    h ((stateRoot_prefix_backupPath rt txId slot).trans c)
  refine LeavesFile.bind LeavesFile.get fun k => LeavesFile.ite ?_ (LeavesFile.pure _)
  refine LeavesFile.bind (leavesFile_onDisk ?_) fun _ => LeavesFile.pure _
  exact KeepsFile.bind (keepsFile_createDirAll _) fun _ =>
    KeepsFile.bind (keepsFile_removeIfExists hbackup) fun _ => keepsFile_copyPathRecursive hbackup

end

end Os

namespace Os

open Paths Io FileTree Workspace

/-- the rest of a call that began on the disk `d` changes none of its files if it fails -/
def Spares (rt : Runtime) (d : Disk) (m : KernelM Receipt) (k : Kernel) : Prop :=
  Ends m k (fun r k' => r.status ≠ "success" → SameFiles rt d k'.disk)
    fun k' => SameFiles rt d k'.disk

/-- the program never fails -/
def Total {α : Type} (m : KernelM α) : Prop := ∀ k, ∃ a k', Ok m k a k'

section
variable {α : Type} {rt : Runtime} {d : Disk} {k : Kernel} {t t' : Disk} {p q : Path} {cap : String}

theorem SameFiles.leaves {m : KernelM α} (hs : SameFiles rt d k.disk)
    (hm : ∀ q, ¬ rt.stateRoot <+: q → LeavesFile q m) : SameFiles rt d (final m k).disk :=
  fun q hq => (hs q hq).trans ((hm q hq).final k).symm

theorem Spares.bind {m : KernelM α} {f : α → KernelM Receipt} (hs : SameFiles rt d k.disk)
    (hm : ∀ q, ¬ rt.stateRoot <+: q → LeavesFile q m)
    (hf : ∀ a k', Ok m k a k' → SameFiles rt d k'.disk → Spares rt d (f a) k') :
    Spares rt d (m >>= f) k := by
  have hfinal := hs.leaves hm
  refine Ends.bind_run (fun e k' herr => ?_) fun a k' hok => hf a k' hok ?_
  · rwa [final_of_err herr] at hfinal
  · rwa [final_of_ok hok] at hfinal

theorem Spares.of_leaves {m : KernelM Receipt} (hs : SameFiles rt d k.disk)
    (hm : ∀ q, ¬ rt.stateRoot <+: q → LeavesFile q m) : Spares rt d m k := by
  have hfinal := hs.leaves hm
  cases hr : m k with
  | ok r k' =>
    rw [final_of_ok hr] at hfinal
    exact Ends.of_ok hr fun _ => hfinal
  | error e k' =>
    rw [final_of_err hr] at hfinal
    exact Ends.of_err hr hfinal

theorem Spares.get_bind {f : Kernel → KernelM Receipt} (h : Spares rt d (f k) k) :
    Spares rt d (get >>= f) k := h

theorem Spares.blocked (hs : SameFiles rt d k.disk) (data : Json) :
    Spares rt d (blockedReceiptWithData rt cap data) k :=
  Spares.of_leaves hs fun _ _ => leavesFile_blockedReceiptWithData data

theorem Spares.withCapability {body : KernelM Receipt} (hs : SameFiles rt d k.disk)
    (h : cap ∈ rt.capabilities → Spares rt d body k) : Spares rt d (withCapability rt cap body) k := by
  unfold Os.withCapability
  by_cases hcap : cap ∈ rt.capabilities
  · rw [if_pos hcap]
    exact h hcap
  · rw [if_neg hcap]
    exact Spares.blocked hs _

theorem Spares.resolvePath_bind {s : String} {f : Path → KernelM Receipt}
    (hs : SameFiles rt d k.disk)
    (hf : ∀ p, resolveWorkspacePath rt.workspaceRoot s = .ok p → Spares rt d (f p) k) :
    Spares rt d (resolvePath rt s >>= f) k := by
  refine Spares.bind hs (fun _ _ => leavesFile_resolvePath s) fun p k' hok _ => ?_
  obtain ⟨hp, rfl⟩ := resolvePath_ok.mp hok
  exact hf p hp

theorem Spares.withMutationLocks {paths : List String} {body : KernelM Receipt}
    (hs : SameFiles rt d k.disk)
    (h : ∀ acquired, acquireLoop k.locks [] (paths.insertionSort (· ≤ ·)).dedup = .ok acquired →
      Spares rt d body { k with locks := acquired ++ k.locks }) :
    Spares rt d (withMutationLocks rt cap paths body) k := by
  unfold Os.withMutationLocks Spares Ends
  dsimp only
  cases hlocks : acquireLoop k.locks [] (paths.insertionSort (· ≤ ·)).dedup with
  | error conflict => exact Spares.blocked hs _
  | ok acquired =>
    have hbody := h acquired hlocks
    unfold Spares Ends at hbody
    dsimp only
    cases hrun : body { k with locks := acquired ++ k.locks } with
    | ok r k' =>
      rw [hrun] at hbody
      exact hbody
    | error e k' =>
      rw [hrun] at hbody
      exact hbody

/-! ## what never fails -/

theorem Total.bind {β : Type} {m : KernelM α} {f : α → KernelM β} (hm : Total m)
    (hf : ∀ a, Total (f a)) : Total (m >>= f) := by
  intro k
  obtain ⟨a, k1, h1⟩ := hm k
  obtain ⟨b, k2, h2⟩ := hf a k1
  exact ⟨b, k2, bind_ok.mpr ⟨a, k1, h1, h2⟩⟩

theorem Total.pure (a : α) : Total (pure a) := fun k => ⟨a, k, rfl⟩

theorem total_emitEvent (eventType : String) (data : Json) : Total (emitEvent rt eventType data) := by
  unfold emitEvent
  split
  · exact fun k => ⟨_, _, rfl⟩
  · exact Total.pure _

theorem total_writeBlob (name : String) (content : Json) : Total (writeBlob rt name content) :=
  fun _ => ⟨_, _, rfl⟩

theorem total_recordTx (record : OsTxRecord) : Total (recordTx rt record) :=
  (total_writeBlob _ _).bind fun _ => (total_emitEvent _ _).bind fun _ => Total.pure _

theorem total_recordRevision (b : Bool) (cap path txId : String) (previous new : Option String) :
    Total (recordRevision rt b cap path txId previous new) := by
  unfold recordRevision
  split
  · refine Total.bind (Total.bind (fun k => ⟨k, k, rfl⟩) fun k => ?_) fun _ => Total.pure _
    exact (total_writeBlob _ _).bind fun _ => (total_emitEvent _ _).bind fun _ => Total.pure _
  · exact Total.pure _

theorem Spares.total_bind {m : KernelM α} {f : α → KernelM Receipt} (hm : Total m)
    (hf : ∀ a k', Spares rt d (f a) k') : Spares rt d (m >>= f) k := by
  obtain ⟨a, k', h⟩ := hm k
  unfold Spares Ends
  rw [bind_of_ok h]
  exact hf a k'

theorem Spares.success (data : Json) : Spares rt d (successReceipt rt cap data) k := by
  have ht : Total (emitEvent rt "capability_receipt"
      (Receipt.toJson ⟨cap, rt.jobId, rt.pid, "success", data⟩)) := total_emitEvent _ _
  obtain ⟨u, k', h⟩ := ht k
  exact Ends.of_ok (bind_ok.mpr ⟨u, k', h, rfl⟩) fun hne => absurd rfl hne

/-! ## errors of the disk programs -/

theorem writeAt_err {content : Bytes} {e : Fault} (h : Err (writeAt p content) t e t') (q : Path) :
    t'.fileAt q = t.fileAt q := by
  rcases bind_err.mp h with h1 | ⟨_, t1, h1, h2⟩
  · exact (keepsFile_createDirAll p.dropLast).of_err h1
  · rw [step_err h2]
    exact (keepsFile_createDirAll p.dropLast).of_ok h1

theorem zipAt_err {sources : List (String × Path)} {e : Fault} (h : Err (zipAt rt sources p) t e t')
    (q : Path) : t'.fileAt q = t.fileAt q := by
  rcases bind_err.mp h with h1 | ⟨_, t1, h1, h2⟩
  · exact (keepsFile_createDirAll p.dropLast).of_err h1
  · rcases bind_err.mp h2 with h3 | ⟨_, _, hg, h3⟩
    · cases h3
    · cases hg
      rcases bind_err.mp h3 with h4 | ⟨_, _, _, h4⟩
      · rw [step_err h4]
        exact (keepsFile_createDirAll p.dropLast).of_ok h1
      · cases h4

theorem removePathAny_err {e : Fault} (h : Err (removePathAny p) t e t') : t' = t := by
  rcases bind_err.mp h with h1 | ⟨_, _, hg, h1⟩
  · cases h1
  · cases hg
    split at h1
    · exact step_err h1
    · split at h1
      · exact step_err h1
      · cases h1

theorem removeIfExists_err {e : Fault} (h : Err (removeIfExists p) t e t') : t' = t := by
  rcases bind_err.mp h with h1 | ⟨_, _, hg, h1⟩
  · cases h1
  · cases hg
    split at h1
    · exact removePathAny_err h1
    · cases h1

theorem Spares.onDisk_bind {m : DiskM α} {f : α → KernelM Receipt} (hs : SameFiles rt d k.disk)
    (herr : ∀ e t', Err m k.disk e t' → SameFiles rt k.disk t')
    (hok : ∀ a t', Ok m k.disk a t' → Spares rt d (f a) { k with disk := t' }) :
    Spares rt d (onDisk m >>= f) k := by
  refine Ends.bind_run (fun e k' h => ?_) fun a k' h => ?_
  · obtain ⟨t', ht', rfl⟩ := onDisk_err.mp h
    exact hs.trans (herr e t' ht')
  · obtain ⟨t', ht', rfl⟩ := onDisk_ok.mp h
    exact hok a t' ht'

theorem keepsFile_revisionHash (b : Bool) (path : Path) : KeepsFile q (revisionHash b path) := by
  unfold revisionHash
  split
  · refine KeepsFile.bind (KeepsFile.bind (keepsFile_read path) fun _ => KeepsFile.pure _) ?_
    exact fun _ => KeepsFile.pure _
  · exact KeepsFile.pure _

theorem revisionHash_total {content : Bytes} (b : Bool) (h : t.entry p = some (.file content)) :
    ∃ o, Ok (revisionHash b p) t o t := by
  unfold revisionHash
  cases b with
  | false => exact ⟨none, rfl⟩
  | true =>
    have hread : Ok (read p : DiskM Bytes) t content t := read_ok.mpr ⟨h, rfl⟩
    exact ⟨_, bind_ok.mpr ⟨_, t, bind_ok.mpr ⟨content, t, hread, rfl⟩, rfl⟩⟩

/-! ## writes, deletions and archives -/

theorem writeLocked_spares {normalizedPath writeKind : String} {content : Bytes}
    (hs : SameFiles rt d k.disk) :
    Spares rt d (writeLocked rt cap normalizedPath p content writeKind) k := by
  refine Spares.bind hs (fun _ _ => leavesFile_newTxId _) fun txId k1 _ h1 => ?_
  refine Spares.get_bind (Spares.bind h1 (fun _ _ => ?_) fun previousHash k2 _ h2 => ?_)
  · exact leavesFile_onDisk (keepsFile_revisionHash _ _)
  refine Spares.bind h2 (fun q hq => leavesFile_backupWorkspacePath _ _ hq) fun backup k3 _ h3 => ?_
  refine Spares.onDisk_bind h3 (fun e t' herr q _ => (writeAt_err herr q).symm) fun _ t' hwrite => ?_
  -- the file is there now, and nothing fails any more
  obtain ⟨-, -, -, he⟩ := writeAt_ok hwrite
  obtain ⟨hash, hhash⟩ := revisionHash_total (writeKind == "artifact" && k1.disk.exists p &&
    artifactPathGeneratedByCurrentJob k1.events normalizedPath)
    ((he p).trans (if_pos rfl))
  have hrun : Ok _ { k3 with disk := t' } hash _ := onDisk_ok.mpr ⟨t', hhash, rfl⟩
  unfold Spares Ends
  rw [bind_of_ok hrun]
  refine Spares.total_bind (total_recordTx _) fun _ _ => ?_
  exact Spares.total_bind (total_recordRevision _ _ _ _ _ _) fun _ _ => Spares.success _

theorem write_spares (cap relativePath : String) (content : Bytes) (writeKind : String)
    (k : Kernel) :
    Spares rt k.disk (writeFileWithCapability rt cap relativePath content writeKind) k := by
  have hs := SameFiles.refl rt k.disk
  refine Spares.withCapability hs fun _ => ?_
  split
  · refine Spares.resolvePath_bind hs fun p _ => ?_
    exact Spares.withMutationLocks hs fun acquired _ => writeLocked_spares hs
  · exact Spares.blocked hs _

theorem delete_spares (relativePath : String) (k : Kernel) :
    Spares rt k.disk (deletePath rt relativePath) k := by
  have hs := SameFiles.refl rt k.disk
  refine Spares.withCapability hs fun _ => Spares.resolvePath_bind hs fun p _ => ?_
  refine Spares.get_bind ?_
  split
  · refine Spares.withMutationLocks hs fun acquired _ => ?_
    refine Spares.bind hs (fun _ _ => leavesFile_newTxId _) fun txId k1 _ h1 => ?_
    refine Spares.bind h1 (fun q hq => leavesFile_backupWorkspacePath _ _ hq) fun _ k2 _ h2 => ?_
    refine Spares.onDisk_bind h2 (fun e t' herr => ?_) fun _ t' _ => ?_
    · rw [removePathAny_err herr]
      exact SameFiles.refl rt _
    · exact Spares.total_bind (total_recordTx _) fun _ _ => Spares.success _
  · exact Spares.blocked hs _

theorem leavesFile_resolveSources (sources : List String) :
    LeavesFile q (resolveSources rt sources) := by
  induction sources with
  | nil => exact LeavesFile.pure _
  | cons s rest ih =>
    exact LeavesFile.bind (leavesFile_resolvePath s) fun _ => LeavesFile.bind ih fun _ =>
      LeavesFile.pure _

theorem zip_spares (sourcePaths : List String) (destinationZipPath : String) (k : Kernel) :
    Spares rt k.disk (zipPaths rt sourcePaths destinationZipPath) k := by
  have hs := SameFiles.refl rt k.disk
  refine Spares.withCapability hs fun _ => ?_
  refine Spares.bind hs (fun _ _ => leavesFile_newTxId _) fun txId k1 _ h1 => ?_
  refine Spares.resolvePath_bind h1 fun destination _ => ?_
  refine Spares.bind h1 (fun q hq => leavesFile_backupWorkspacePath _ _ hq) fun _ k2 _ h2 => ?_
  refine Spares.bind h2 (fun _ _ => leavesFile_resolveSources _) fun _ k3 _ h3 => ?_
  refine Spares.onDisk_bind h3 (fun e t' herr q _ => (zipAt_err herr q).symm) fun _ t' _ => ?_
  exact Spares.total_bind (total_recordTx _) fun _ _ => Spares.success _

end

end Os

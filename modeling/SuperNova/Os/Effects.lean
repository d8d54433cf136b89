import SuperNova.Os.Runtime

/-!
# What the operations do to the disk

The disk programs under the operations, each with what every path holds after it succeeded:
`copyToBackup_ok`, `writeAt_ok`, `copyLikeAt_ok`, and from them what an operation's backups keep
(`BackupStep`).
-/

set_option linter.unusedSectionVars false

namespace Os

open Paths Io FileTree Workspace

variable {t t' : Disk} {p q backup path source destination : Path}

theorem removeIfExists_ok {u : Unit} (h : Ok (removeIfExists p) t u t') (q : Path) :
    t'.entry q = if p <+: q then none else t.entry q := by
  obtain ⟨_, _, hg, h⟩ := bind_ok.mp h
  cases hg
  by_cases hx : t.exists p = true
  · rw [if_pos hx] at h
    exact (removePathAny_ok h).2 q
  · rw [if_neg hx] at h
    cases h
    by_cases c : p <+: q
    · have hn : t.entry p = none := by
        by_contra e
        exact hx (Tree.exists_iff.mpr e)
      rw [if_pos c, t.none_of_prefix c hn]
    · rw [if_neg c]

theorem removeIfExists_total (t : Disk) (hp : p ≠ []) : ∃ t', Ok (removeIfExists p) t () t' := by
  by_cases hx : t.exists p = true
  · obtain ⟨t', h⟩ := removePathAny_total t hp
    exact ⟨t', bind_ok.mpr ⟨t, t, rfl, by rwa [if_pos hx]⟩⟩
  · exact ⟨t, bind_ok.mpr ⟨t, t, rfl, by rw [if_neg hx]; rfl⟩⟩

theorem prepared_ok {t1 t2 : Disk} {u v : Unit} (h1 : Ok (createDirAll p.dropLast) t u t1)
    (h2 : Ok (removeIfExists p) t1 v t2) (hp : p ≠ []) :
    t.NoFileTo p.dropLast ∧ t2.entry p = none ∧ t2.NoFileTo p.dropLast ∧
      ∀ q, t2.entry q = if p <+: q then none else if q <+: p then some .dir else t.entry q := by
  obtain ⟨hno, rfl⟩ := createDirAll_ok.mp h1
  have he : ∀ q, t2.entry q =
      if p <+: q then none else if q <+: p then some .dir else t.entry q := by
    intro q
    rw [removeIfExists_ok h2]
    by_cases c : p <+: q
    · rw [if_pos c, if_pos c]
    · have hne : q ≠ p := by
        rintro rfl
        exact c List.prefix_rfl
      have hiff : q <+: p.dropLast ↔ q <+: p :=
        ⟨fun h => h.trans (dropLast_above _), fun h => (prefix_dropLast h).resolve_left hne⟩
      rw [if_neg c, if_neg c, Tree.mkdirs_entry]
      simp only [hiff]
  refine ⟨hno, ?_, ?_, he⟩
  · rw [he, if_pos List.prefix_rfl]
  · apply Tree.noFileTo_of_dir
    have hlen : ¬ p <+: p.dropLast := by
      apply not_prefix_of_length
      have := List.length_pos_iff.mpr hp
      rw [List.length_dropLast]
      omega
    rw [he, if_neg hlen, if_pos (dropLast_above p)]

theorem copyToBackup_ok {u : Unit} (hb : backup ≠ []) (ha : Apart path backup)
    (h : Ok (copyToBackup backup path) t u t') :
    t.NoFileTo backup.dropLast ∧ Grafted t t' path backup := by
  obtain ⟨_, t1, h1, h⟩ := bind_ok.mp h
  obtain ⟨_, t2, h2, h3⟩ := bind_ok.mp h
  obtain ⟨hno, hf, hno2, he⟩ := prepared_ok h1 h2 hb
  obtain ⟨-, -, hg⟩ := copyPathRecursive_ok hf hno2 h3
  have hsrc : ∀ r, t2.entry (path ++ r) = t.entry (path ++ r) := by
    intro r
    have hr : Apart (path ++ r) backup := ha.mono (List.prefix_append ..) List.prefix_rfl
    rw [he, if_neg hr.2, if_neg hr.1]
  refine ⟨hno, fun q => ?_⟩
  rw [hg q]
  by_cases c : backup <+: q
  · rw [if_pos c, if_pos c, hsrc]
  · rw [if_neg c, if_neg c]
    by_cases d : q <+: backup
    · rw [if_pos d, if_pos d]
    · rw [if_neg d, if_neg d, he, if_neg c, if_neg d]

theorem writeAt_ok {u : Unit} {content : Bytes} (h : Ok (writeAt path content) t u t') :
    path ≠ [] ∧ t.NoFileTo path.dropLast ∧ t.entry path ≠ some .dir ∧
      ∀ q, t'.entry q = if q = path then some (.file content)
        else if q <+: path then some .dir else t.entry q := by
  obtain ⟨_, t1, h1, h⟩ := bind_ok.mp h
  obtain ⟨hno, rfl⟩ := createDirAll_ok.mp h1
  obtain ⟨hp, -, hn, he⟩ := write_ok h
  refine ⟨hp, hno, ?_, fun q => ?_⟩
  · intro e
    exact hn (mkdirs_keeps_dir e)
  · rw [he]
    by_cases e : q = path
    · rw [if_pos e, if_pos e]
    · have hiff : q <+: path.dropLast ↔ q <+: path :=
        ⟨fun h => h.trans (dropLast_above _), fun h => (prefix_dropLast h).resolve_left e⟩
      rw [if_neg e, if_neg e, Tree.mkdirs_entry]
      simp only [hiff]

theorem zipAt_ok {rt : Runtime} {sources : List (String × Path)} {n : Nat}
    (h : Ok (zipAt rt sources path) t n t') : ∃ bytes, Ok (writeAt path bytes) t () t' := by
  obtain ⟨_, t1, h1, h⟩ := bind_ok.mp h
  obtain ⟨bytes, h⟩ := writeStoreZip_ok h
  exact ⟨bytes, bind_ok.mpr ⟨(), t1, h1, h⟩⟩

theorem copyLikeAt_ok {u : Unit} {removeSource : Bool} (hd : destination ≠ [])
    (h : Ok (copyLikeAt source destination removeSource) t u t') :
    Apart source destination ∧ t.NoFileTo destination.dropLast ∧ t.entry source ≠ none ∧
      ∀ q, t'.entry q = if removeSource = true ∧ source <+: q then none
        else if destination <+: q then t.entry (source ++ q.drop destination.length)
        else if q <+: destination then some .dir else t.entry q := by
  obtain ⟨_, t1, h1, h⟩ := bind_ok.mp h
  obtain ⟨_, t2, h2, h⟩ := bind_ok.mp h
  obtain ⟨_, t3, h3, h4⟩ := bind_ok.mp h
  obtain ⟨hno, hf, hno2, he⟩ := prepared_ok h1 h2 hd
  obtain ⟨ha, hs, hg⟩ := copyPathRecursive_ok hf hno2 h3
  have hsrc : ∀ r, t2.entry (source ++ r) = t.entry (source ++ r) := by
    intro r
    have hr : Apart (source ++ r) destination := ha.mono (List.prefix_append ..) List.prefix_rfl
    rw [he, if_neg hr.2, if_neg hr.1]
  have he3 : ∀ q, t3.entry q =
      if destination <+: q then t.entry (source ++ q.drop destination.length)
      else if q <+: destination then some .dir else t.entry q := by
    intro q
    rw [hg q]
    by_cases c : destination <+: q
    · rw [if_pos c, if_pos c, hsrc]
    · rw [if_neg c, if_neg c]
      by_cases d : q <+: destination
      · rw [if_pos d, if_pos d]
      · rw [if_neg d, if_neg d, he, if_neg c, if_neg d]
  refine ⟨ha, hno, ?_, fun q => ?_⟩
  · have := hsrc []
    rw [List.append_nil] at this
    rwa [← this]
  · cases removeSource with
    | false =>
      cases h4
      rw [if_neg (by simp), he3]
    | true =>
      rw [(removePathAny_ok h4).2]
      by_cases c : source <+: q
      · rw [if_pos c, if_pos ⟨rfl, c⟩]
      · rw [if_neg c, if_neg fun d => c d.2, he3]

/-! ## backups touch the job's own place only -/

section
variable {rt : Runtime} {txId slot : String} {d d' : Disk}

def txBackups (rt : Runtime) (txId : String) : Path := jobBackups rt ++ [txId]

theorem stateRoot_prefix_txBackups (rt : Runtime) (txId : String) :
    rt.stateRoot <+: txBackups rt txId :=
  (List.prefix_append _ _).trans (List.prefix_append _ _)

theorem txBackups_below (rt : Runtime) (txId slot : String) :
    txBackups rt txId <+: backupPath rt txId slot := List.prefix_append _ _

theorem stateRoot_prefix_backupPath (rt : Runtime) (txId slot : String) :
    rt.stateRoot <+: backupPath rt txId slot :=
  (stateRoot_prefix_txBackups rt txId).trans (txBackups_below rt txId slot)

theorem backupPath_ne_nil (rt : Runtime) (txId slot : String) : backupPath rt txId slot ≠ [] := by
  simp [backupPath]

theorem txBackups_apart {id id' : String} (h : id ≠ id') :
    Apart (txBackups rt id) (txBackups rt id') :=
  apart_append_left.mpr (apart_of_ne_head h [] [])

theorem backupPath_apart {slot' : String} (h : slot ≠ slot') :
    Apart (backupPath rt txId slot) (backupPath rt txId slot') :=
  apart_append_left.mpr (apart_of_ne_head h [] [])

/-- what taking a backup of transaction `txId` leaves alone -/
structure BackupStep (rt : Runtime) (txId : String) (d d' : Disk) : Prop where
  files : ∀ q, ¬ rt.stateRoot <+: q → d'.fileAt q = d.fileAt q
  apart : ∀ q, Apart q rt.stateRoot → d'.entry q = d.entry q
  others : ∀ id, id ≠ txId → ∀ q, txBackups rt id <+: q → d'.entry q = d.entry q

theorem BackupStep.refl (rt : Runtime) (txId : String) (d : Disk) : BackupStep rt txId d d :=
  ⟨fun _ _ => rfl, fun _ _ => rfl, fun _ _ _ _ => rfl⟩

theorem BackupStep.trans {d'' : Disk} (h : BackupStep rt txId d d') (h' : BackupStep rt txId d' d'') :
    BackupStep rt txId d d'' :=
  ⟨fun q hq => (h'.files q hq).trans (h.files q hq), fun q hq => (h'.apart q hq).trans (h.apart q hq),
    fun id hid q hq => (h'.others id hid q hq).trans (h.others id hid q hq)⟩

theorem backupStep_of_grafted (hno : d.NoFileTo (backupPath rt txId slot).dropLast)
    (hg : Grafted d d' path (backupPath rt txId slot)) : BackupStep rt txId d d' := by
  have hst := stateRoot_prefix_backupPath rt txId slot
  refine ⟨fun q hq => ?_, fun q hq => ?_, fun id hid q hq => ?_⟩
  · by_cases c : q <+: backupPath rt txId slot
    · have hne : q ≠ backupPath rt txId slot := by
        rintro rfl
        exact hq hst
      have hd : d'.entry q = some .dir := by
        rw [hg q, if_neg fun e => hq (hst.trans e), if_pos c]
      rw [Tree.fileAt_of_dir hd, hno q ((prefix_dropLast c).resolve_left hne)]
    · apply Tree.fileAt_congr
      rw [hg q, if_neg fun e => hq (hst.trans e), if_neg c]
  · exact hg.apart (hq.symm.mono hst List.prefix_rfl)
  · exact hg.apart ((txBackups_apart (Ne.symm hid)).mono (txBackups_below rt txId slot) hq)

/-- what a backup call answered, while the backup lies on the disk `d`: nothing stood at the path
of `d0`, or the slot holds what stood there -/
def Saved (rt : Runtime) (txId slot : String) (d0 : Disk) (path : Path) (b : Bool)
    (ref : Option String) (d : Disk) : Prop :=
  (d0.entry path = none ∧ b = false ∧ ref = none) ∨
    (d0.entry path ≠ none ∧ b = true ∧ ref = some (backupRef rt txId slot) ∧
      ∀ r, d.entry (backupPath rt txId slot ++ r) = d0.entry (path ++ r))

theorem Saved.later {d0 : Disk} {b : Bool} {ref : Option String}
    (h : Saved rt txId slot d0 path b ref d)
    (hd : ∀ q, backupPath rt txId slot <+: q → d'.entry q = d.entry q) :
    Saved rt txId slot d0 path b ref d' := by
  rcases h with h | ⟨h1, h2, h3, h4⟩
  · exact Or.inl h
  · exact Or.inr ⟨h1, h2, h3, fun r => (hd _ (List.prefix_append ..)).trans (h4 r)⟩

theorem Saved.before {d0 d0' : Disk} {b : Bool} {ref : Option String}
    (h : Saved rt txId slot d0' path b ref d) (ha : Apart path rt.stateRoot)
    (hd : BackupStep rt txId d0 d0') : Saved rt txId slot d0 path b ref d := by
  have he : ∀ r, d0'.entry (path ++ r) = d0.entry (path ++ r) := fun r =>
    hd.apart _ (ha.mono (List.prefix_append ..) List.prefix_rfl)
  have he0 := he []
  rw [List.append_nil] at he0
  rcases h with ⟨h1, h2, h3⟩ | ⟨h1, h2, h3, h4⟩
  · exact Or.inl ⟨by rw [← he0, h1], h2, h3⟩
  · exact Or.inr ⟨by rwa [← he0], h2, h3, fun r => (h4 r).trans (he r)⟩

theorem backupWorkspacePath_cases {k k' : Kernel} {b : Bool} {ref : Option String}
    (h : Ok (backupWorkspacePath rt txId slot path) k (b, ref) k') :
    (k.disk.entry path = none ∧ b = false ∧ ref = none ∧ k' = k) ∨
      (k.disk.entry path ≠ none ∧ b = true ∧ ref = some (backupRef rt txId slot) ∧
        ∃ d, Ok (copyToBackup (backupPath rt txId slot) path) k.disk () d ∧ k' = { k with disk := d }) := by
  obtain ⟨_, _, hg, h⟩ := bind_ok.mp h
  cases hg
  by_cases hx : k.disk.exists path = true
  · rw [if_pos hx] at h
    obtain ⟨_, k1, h1, h⟩ := bind_ok.mp h
    cases h
    obtain ⟨d, hd, rfl⟩ := onDisk_ok.mp h1
    exact Or.inr ⟨Tree.exists_iff.mp hx, rfl, rfl, d, hd, rfl⟩
  · rw [if_neg hx] at h
    cases h
    refine Or.inl ⟨?_, rfl, rfl, rfl⟩
    by_contra hne
    exact hx (Tree.exists_iff.mpr hne)

theorem backupWorkspacePath_ok {k k' : Kernel} {b : Bool} {ref : Option String}
    (ha : Apart path rt.stateRoot) (h : Ok (backupWorkspacePath rt txId slot path) k (b, ref) k') :
    BackupStep rt txId k.disk k'.disk ∧ k'.blobs = k.blobs ∧
      Saved rt txId slot k.disk path b ref k'.disk ∧
      ∀ slot', slot' ≠ slot → ∀ q, backupPath rt txId slot' <+: q →
        k'.disk.entry q = k.disk.entry q := by
  rcases backupWorkspacePath_cases h with ⟨hn, rfl, rfl, rfl⟩ | ⟨hx, rfl, rfl, d, hd, rfl⟩
  · exact ⟨BackupStep.refl _ _ _, rfl, Or.inl ⟨hn, rfl, rfl⟩, fun _ _ _ _ => rfl⟩
  · have hap : Apart path (backupPath rt txId slot) :=
      ha.mono List.prefix_rfl (stateRoot_prefix_backupPath rt txId slot)
    obtain ⟨hno, hgr⟩ := copyToBackup_ok (backupPath_ne_nil rt txId slot) hap hd
    refine ⟨backupStep_of_grafted hno hgr, rfl, Or.inr ⟨hx, rfl, rfl, ?_⟩, ?_⟩
    · exact hgr.below
    · exact fun slot' hs q hq => hgr.apart ((backupPath_apart (Ne.symm hs)).mono List.prefix_rfl hq)

/-! ## the user's part of an operation -/

/-- a change of the disk that leaves the runtime's state alone and touches only some files -/
structure UserStep (rt : Runtime) (touched : Path → Prop) (d d' : Disk) : Prop where
  state : ∀ q, rt.stateRoot <+: q → d'.entry q = d.entry q
  files : ∀ q, ¬ touched q → d'.fileAt q = d.fileAt q

theorem writeAt_user {u : Unit} {content : Bytes} (ha : Apart path rt.stateRoot)
    (h : Ok (writeAt path content) d u d') :
    UserStep rt (fun q => path <+: q) d d' ∧ d'.NoFileTo path.dropLast := by
  obtain ⟨hp, hno, -, he⟩ := writeAt_ok h
  refine ⟨⟨fun q hq => ?_, fun q hq => ?_⟩, ?_⟩
  · have hne : q ≠ path := by
      rintro rfl
      exact ha.2 hq
    rw [he, if_neg hne, if_neg (ha.mono List.prefix_rfl hq).2]
  · have hne : q ≠ path := by
      rintro rfl
      exact hq List.prefix_rfl
    by_cases c : q <+: path
    · have hd : d'.entry q = some .dir := by rw [he, if_neg hne, if_pos c]
      rw [Tree.fileAt_of_dir hd, hno q ((prefix_dropLast c).resolve_left hne)]
    · apply Tree.fileAt_congr
      rw [he, if_neg hne, if_neg c]
  · apply Tree.noFileTo_dropLast _ hp
    rw [he, if_pos rfl]
    simp

theorem removePathAny_user {u : Unit} (ha : Apart path rt.stateRoot)
    (h : Ok (removePathAny path) d u d') :
    UserStep rt (fun q => path <+: q) d d' ∧ (d.entry path ≠ none → d'.NoFileTo path.dropLast) := by
  obtain ⟨hp, he⟩ := removePathAny_ok h
  refine ⟨⟨fun q hq => ?_, fun q hq => ?_⟩, fun hx q hq => ?_⟩
  · rw [he, if_neg (ha.symm.not_both hq)]
  · apply Tree.fileAt_congr
    rw [he, if_neg hq]
  · rw [← Tree.noFileTo_dropLast hx hp q hq]
    apply Tree.fileAt_congr
    rw [he, if_neg]
    intro c
    have h1 := (c.trans hq).length_le
    have h2 := List.length_pos_iff.mpr hp
    rw [List.length_dropLast] at h1
    omega

theorem copyLikeAt_user {u : Unit} {removeSource : Bool} (has : Apart source rt.stateRoot)
    (had : Apart destination rt.stateRoot)
    (h : Ok (copyLikeAt source destination removeSource) d u d') :
    UserStep rt (fun q => source <+: q ∨ destination <+: q) d d' ∧
      d'.NoFileTo source.dropLast ∧ d'.NoFileTo destination.dropLast := by
  obtain ⟨hap, hno, hs, he⟩ := copyLikeAt_ok had.ne_nil h
  have hfiles : ∀ q, ¬ (source <+: q ∨ destination <+: q) → d'.fileAt q = d.fileAt q := by
    intro q hq
    rw [not_or] at hq
    have hne : q ≠ destination := by
      rintro rfl
      exact hq.2 List.prefix_rfl
    by_cases c : q <+: destination
    · have hd : d'.entry q = some .dir := by
        rw [he, if_neg fun e => hq.1 e.2, if_neg hq.2, if_pos c]
      rw [Tree.fileAt_of_dir hd, hno q ((prefix_dropLast c).resolve_left hne)]
    · apply Tree.fileAt_congr
      rw [he, if_neg fun e => hq.1 e.2, if_neg hq.2, if_neg c]
  have hlen : ∀ {p q : Path}, p ≠ [] → q <+: p.dropLast → ¬ p <+: q := by
    intro p q hp hq c
    have h1 := (c.trans hq).length_le
    have h2 := List.length_pos_iff.mpr hp
    rw [List.length_dropLast] at h1
    omega
  refine ⟨⟨fun q hq => ?_, hfiles⟩, fun q hq => ?_, fun q hq => ?_⟩
  · rw [he, if_neg fun e => (has.mono List.prefix_rfl hq).1 e.2,
      if_neg (had.mono List.prefix_rfl hq).1, if_neg (had.mono List.prefix_rfl hq).2]
  · rw [hfiles q, Tree.noFileTo_dropLast hs has.ne_nil q hq]
    rintro (c | c)
    · exact hlen has.ne_nil hq c
    · exact hap.2 (c.trans (hq.trans (dropLast_above source)))
  · rw [hfiles q, hno q hq]
    rintro (c | c)
    · exact hap.1 (c.trans (hq.trans (dropLast_above destination)))
    · exact hlen had.ne_nil hq c

end

end Os

import SuperNova.Os.Effects

/-!
# Moving one path over another

Both batch mutations of the data runtime move path after path: the destination's parents are made,
whatever stands at the destination is removed, and the source is renamed there (or copied and
removed when the rename fails).  `moveAt_ok` and `moveAt_total` say exactly when that succeeds
and what the tree is then; `moveAt_err_keeps` says what a failing move leaves alone.
-/

set_option linter.unusedSectionVars false

namespace Data

open Paths Io FileTree Workspace Os

/-! ## the abstract move -/

/-- what every path holds -/
abbrev Layout := Path → Option (Entry Bytes)

/-- the layout after `source` moved to `destination`, replacing what was there -/
def Layout.move (f : Layout) (source destination : Path) : Layout := fun q =>
  if destination <+: q then f (source ++ q.drop destination.length)
  else if source <+: q then none
  else if q <+: destination then some .dir
  else f q

def Layout.fileAt (f : Layout) (q : Path) : Option Bytes :=
  match f q with
  | some (.file c) => some c
  | _ => none

theorem fileAt_entry (d : Disk) (q : Path) : Layout.fileAt d.entry q = d.fileAt q := by
  unfold Layout.fileAt Tree.fileAt
  rcases d.entry q with _ | (c | _) <;> rfl

theorem Layout.fileAt_congr {f g : Layout} {q q' : Path} (h : f q = g q') :
    f.fileAt q = g.fileAt q' := by
  unfold fileAt
  rw [h]

theorem Layout.move_below (f : Layout) (source destination r : Path) :
    f.move source destination (destination ++ r) = f (source ++ r) := by
  rw [move, if_pos (List.prefix_append ..), List.drop_left]

theorem Layout.move_source (f : Layout) {source destination q : Path}
    (ha : Apart source destination) (hq : source <+: q) : f.move source destination q = none := by
  rw [move, if_neg (ha.not_both hq), if_pos hq]

theorem Layout.move_apart (f : Layout) {source destination q : Path} (h1 : ¬ destination <+: q)
    (h2 : ¬ source <+: q) (h3 : ¬ q <+: destination) : f.move source destination q = f q := by
  rw [move, if_neg h1, if_neg h2, if_neg h3]

theorem Layout.move_fileAt {f : Layout} {source destination q : Path}
    (h1 : ¬ destination <+: q) (h2 : ¬ source <+: q)
    (hno : ∀ q, q <+: destination.dropLast → f.fileAt q = none) :
    (f.move source destination).fileAt q = f.fileAt q := by
  by_cases c : q <+: destination
  · have hne : q ≠ destination := by
      rintro rfl
      exact h1 List.prefix_rfl
    have e : f.move source destination q = some .dir := by
      rw [move, if_neg h1, if_neg h2, if_pos c]
    rw [hno q ((prefix_dropLast c).resolve_left hne), fileAt, e]
  · exact fileAt_congr (move_apart f h1 h2 c)

/-! ## the move of the code -/

/-- `fs::rename`, or a copy and a removal where it fails -/
def renameOrCopy (source destination : Path) : DiskM Unit := fun t =>
  match rename source destination t with
  | .ok _ t' => .ok () t'
  | .error _ t' => (do
      copyPathRecursive source destination
      removePathAny source : DiskM Unit) t'

/-- one round of `apply_organize_tx` and of `rename_batch_apply`, for an existing source -/
def moveAt (source destination : Path) : DiskM Unit := do
  createDirAll destination.dropLast
  removeIfExists destination
  renameOrCopy source destination

variable {t t' d d' : Disk} {p q source destination : Path}

theorem removeIfExists_ne_nil {u : Unit} (h : Ok (removeIfExists p) t u t') : p ≠ [] := by
  rintro rfl
  have he := removeIfExists_ok h []
  rw [if_pos List.prefix_rfl, t'.root] at he
  cases he

theorem rename_err {e : Fault} (h : Err (rename source destination) t e t') : t' = t := by
  unfold rename at h
  exact step_err h

theorem renameOrCopy_apply (source destination : Path) (t : Disk) :
    renameOrCopy source destination t =
      match rename source destination t with
      | .ok _ t' => .ok () t'
      | .error _ t' => (do
          copyPathRecursive source destination
          removePathAny source : DiskM Unit) t' := rfl

theorem renameOrCopy_of_ok {u : Unit} (h : Ok (rename source destination) t u t') :
    Ok (renameOrCopy source destination) t () t' := by
  rw [Ok, renameOrCopy_apply, h]

theorem renameOrCopy_of_err {e : Fault} (h : Err (rename source destination) t e t') :
    renameOrCopy source destination t = (do
      copyPathRecursive source destination
      removePathAny source : DiskM Unit) t := by
  rw [renameOrCopy_apply, h, rename_err h]

theorem renameOrCopy_ok {u : Unit} (hf : t.entry destination = none)
    (hno : t.NoFileTo destination.dropLast) (h : Ok (renameOrCopy source destination) t u t') :
    Apart source destination ∧ t.entry source ≠ none ∧
      ∀ q, t'.entry q = if destination <+: q then t.entry (source ++ q.drop destination.length)
        else if source <+: q then none
        else if q <+: destination then some .dir else t.entry q := by
  cases hr : rename source destination t with
  | ok v t1 =>
    rw [Ok, renameOrCopy_of_ok hr] at h
    cases h
    obtain ⟨hs, hcase⟩ := rename_ok hr
    rcases hcase with ⟨rfl, -⟩ | ⟨hnp, hd, hdst, he⟩
    · exact absurd hf hs
    · have ha : Apart source destination :=
        ⟨hnp, fun c => hs (t.none_of_prefix c hf)⟩
      refine ⟨ha, hs, fun q => ?_⟩
      rw [he]
      by_cases c : destination <+: q
      · rw [if_pos c, if_pos c]
      · rw [if_neg c, if_neg c]
        by_cases c' : source <+: q
        · rw [if_pos c', if_pos c']
        · rw [if_neg c', if_neg c']
          by_cases c'' : q <+: destination
          · have hne : q ≠ destination := by
              rintro rfl
              exact c List.prefix_rfl
            have hq : q <+: destination.dropLast := (prefix_dropLast c'').resolve_left hne
            rw [if_pos c'']
            by_cases e : q = destination.dropLast
            · rw [e, hd]
            · exact t.dir_of_strict hq e (by rw [hd]; simp)
          · rw [if_neg c'']
  | error e t1 =>
    rw [Ok, renameOrCopy_of_err hr] at h
    obtain ⟨_, t2, h2, h3⟩ := bind_ok.mp h
    obtain ⟨ha, hs, hg⟩ := copyPathRecursive_ok hf hno h2
    refine ⟨ha, hs, fun q => ?_⟩
    rw [(removePathAny_ok h3).2, hg q]
    by_cases c : destination <+: q
    · rw [if_neg (ha.symm.not_both c), if_pos c, if_pos c]
    · rw [if_neg c, if_neg c]

theorem renameOrCopy_total (ha : Apart source destination) (hs : t.entry source ≠ none)
    (hf : t.entry destination = none) (hd : t.entry destination.dropLast = some .dir) :
    ∃ t', Ok (renameOrCopy source destination) t () t' :=
  ⟨_, renameOrCopy_of_ok (rename_total hs ha.1 hd ha.symm.ne_nil hf)⟩

/-- **a move that succeeds joins two paths that are apart, and moves the layout** -/
theorem moveAt_ok {u : Unit} (h : Ok (moveAt source destination) t u t') :
    Apart source destination ∧ t.NoFileTo destination.dropLast ∧
      t'.entry = Layout.move t.entry source destination := by
  obtain ⟨_, t1, h1, g1⟩ := bind_ok.mp h
  obtain ⟨_, t2, h2, h3⟩ := bind_ok.mp g1
  obtain ⟨hno, hf, hno2, he⟩ := prepared_ok h1 h2 (removeIfExists_ne_nil h2)
  obtain ⟨ha, -, hm⟩ := renameOrCopy_ok hf hno2 h3
  have hsrc : ∀ r, t2.entry (source ++ r) = t.entry (source ++ r) := by
    intro r
    have hr : Apart (source ++ r) destination := ha.mono (List.prefix_append ..) List.prefix_rfl
    rw [he, if_neg hr.2, if_neg hr.1]
  refine ⟨ha, hno, funext fun q => ?_⟩
  rw [hm, Layout.move]
  by_cases c : destination <+: q
  · rw [if_pos c, if_pos c, hsrc]
  · rw [if_neg c, if_neg c]
    by_cases c' : source <+: q
    · rw [if_pos c', if_pos c']
    · rw [if_neg c', if_neg c']
      by_cases c'' : q <+: destination
      · rw [if_pos c'', if_pos c'']
      · rw [if_neg c'', if_neg c'', he, if_neg c, if_neg c'']

theorem moveAt_total (ha : Apart source destination) (hs : t.entry source ≠ none)
    (hno : t.NoFileTo destination.dropLast) : ∃ t', Ok (moveAt source destination) t () t' := by
  have h1 : Ok (createDirAll destination.dropLast) t () (t.mkdirs destination.dropLast) :=
    createDirAll_ok.mpr ⟨hno, rfl⟩
  obtain ⟨t2, h2⟩ := removeIfExists_total (t.mkdirs destination.dropLast) ha.symm.ne_nil
  obtain ⟨-, hf, -, he⟩ := prepared_ok h1 h2 ha.symm.ne_nil
  have hs2 : t2.entry source ≠ none := by rwa [he, if_neg ha.2, if_neg ha.1]
  have hd : t2.entry destination.dropLast = some .dir := by
    have hlen : ¬ destination <+: destination.dropLast := by
      apply not_prefix_of_length
      have := List.length_pos_iff.mpr ha.symm.ne_nil
      rw [List.length_dropLast]
      omega
    rw [he, if_neg hlen, if_pos (dropLast_above _)]
  obtain ⟨t3, h3⟩ := renameOrCopy_total ha hs2 hf hd
  exact ⟨t3, bind_ok.mpr ⟨(), _, h1, bind_ok.mpr ⟨(), t2, h2, h3⟩⟩⟩

/-! ## what a failing move keeps -/

theorem createDirAll_keeps (c : Bytes) : Keeps (fun t : Disk => t.fileAt q = some c)
    (createDirAll p) := by
  apply Keeps.step
  intro s s' h hq
  split at h
  · rename_i hno
    cases h
    have hn : ¬ q <+: p := fun hp => by
      rw [Tree.noFileTo_iff.mp hno q hp] at hq
      cases hq
    rw [← hq]
    exact Tree.fileAt_congr (by rw [Tree.mkdirs_entry, if_neg hn])
  · cases h

theorem write_keeps (c content : Bytes) (hne : q ≠ p) :
    Keeps (fun t : Disk => t.fileAt q = some c) (write p content) := by
  apply Keeps.step
  intro s s' h hq
  split at h
  · cases h
    rw [← hq]
    exact Tree.fileAt_congr (by rw [Tree.put_entry, if_neg hne])
  · cases h

theorem read_keeps (P : Disk → Prop) : Keeps P (FileTree.read p) := by
  intro s hp
  unfold final FileTree.read
  rcases s.entry p with _ | (c | _) <;> exact hp

theorem copyFile_keeps (c : Bytes) (hne : q ≠ destination) :
    Keeps (fun t : Disk => t.fileAt q = some c) (copyFile source destination) :=
  Keeps.bind (read_keeps _) fun _ => Keeps.bind (write_keeps c _ hne) fun _ =>
    Keeps.bind (read_keeps _) fun _ => write_keeps c _ hne

theorem copyLevels_keeps (c : Bytes) (fuel : Nat) : ∀ {source destination : Path},
    ¬ destination <+: q →
      Keeps (fun t : Disk => t.fileAt q = some c) (copyLevels fuel source destination) := by
  induction fuel with
  | zero => exact fun _ => Keeps.throw _ _
  | succ fuel ih =>
    intro source destination hq
    have hne : q ≠ destination := by
      rintro rfl
      exact hq List.prefix_rfl
    rw [copyLevels]
    refine Keeps.bind (Keeps.get _) fun t => Keeps.ite ?_ (Keeps.ite ?_ (Keeps.throw _ _))
    · refine Keeps.bind (createDirAll_keeps c) fun _ => Keeps.bind (Keeps.get _) fun t' => ?_
      exact Keeps.forM _ fun x _ => ih fun h => hq ((List.prefix_append ..).trans h)
    · exact Keeps.bind (createDirAll_keeps c) fun _ => copyFile_keeps c hne

theorem copyPathRecursive_keeps (c : Bytes) (hq : ¬ destination <+: q) :
    Keeps (fun t : Disk => t.fileAt q = some c) (copyPathRecursive source destination) :=
  Keeps.bind (Keeps.get _) fun t => copyLevels_keeps c (t.depth + 1) hq

theorem removePathAny_err {e : Fault} (h : Err (removePathAny p) t e t') : t' = t := by
  unfold removePathAny at h
  rcases bind_err.mp h with h | ⟨_, _, hg, h⟩
  · cases h
  · cases hg
    split at h
    · exact step_err h
    · split at h
      · exact step_err h
      · cases h

theorem removeIfExists_keeps (c : Bytes) (hq : ¬ p <+: q) :
    Keeps (fun t : Disk => t.fileAt q = some c) (removeIfExists p) := by
  intro s hs
  cases hr : removeIfExists p s with
  | ok u s' =>
    rw [final_of_ok hr, ← hs]
    exact Tree.fileAt_congr (by rw [removeIfExists_ok hr, if_neg hq])
  | error e s' =>
    rw [final_of_err hr]
    rcases bind_err.mp hr with h | ⟨_, _, hg, h⟩
    · cases h
    · cases hg
      split at h
      · rw [removePathAny_err h]
        exact hs
      · cases h

/-- **a failing move keeps every file that is not at or below its destination** -/
theorem moveAt_err_keeps {e : Fault} {c : Bytes} (h : Err (moveAt source destination) t e t')
    (hq : ¬ destination <+: q) (hc : t.fileAt q = some c) : t'.fileAt q = some c := by
  rcases bind_err.mp h with h | ⟨_, t1, h1, h⟩
  · exact (createDirAll_keeps c).of_err h hc
  · have hc1 := (createDirAll_keeps c).of_ok h1 hc
    rcases bind_err.mp h with h | ⟨_, t2, h2, h⟩
    · exact (removeIfExists_keeps c hq).of_err h hc1
    · have hc2 := (removeIfExists_keeps c hq).of_ok h2 hc1
      cases hr : rename source destination t2 with
      | ok v t3 =>
        rw [Err, renameOrCopy_of_ok hr] at h
        cases h
      | error e' t3 =>
        rw [Err, renameOrCopy_of_err hr] at h
        rcases bind_err.mp h with h | ⟨_, t3, h3, h⟩
        · exact (copyPathRecursive_keeps c hq).of_err h hc2
        · rw [removePathAny_err h]
          exact (copyPathRecursive_keeps c hq).of_ok h3 hc2

theorem moveAt_err_blocked {e : Fault} (hno : ¬ t.NoFileTo destination.dropLast)
    (h : Err (moveAt source destination) t e t') : t' = t := by
  rcases bind_err.mp h with h | ⟨_, t1, h1, -⟩
  · exact (createDirAll_err h).2
  · exact absurd (createDirAll_ok.mp h1).1 hno

theorem moveAt_self (hs : t.entry source ≠ none) (hne : source ≠ []) :
    ∃ e t', Err (moveAt source source) t e t' ∧ t'.entry source = none := by
  have hno : t.NoFileTo source.dropLast := Tree.noFileTo_dropLast hs hne
  have h1 : Ok (createDirAll source.dropLast) t () (t.mkdirs source.dropLast) :=
    createDirAll_ok.mpr ⟨hno, rfl⟩
  obtain ⟨t2, h2⟩ := removeIfExists_total (t.mkdirs source.dropLast) hne
  obtain ⟨-, hf, hno2, -⟩ := prepared_ok h1 h2 hne
  have hfail : ∀ u t', ¬ Ok (renameOrCopy source source) t2 u t' := fun u t' h =>
    (renameOrCopy_ok hf hno2 h).1.ne rfl
  cases h3 : renameOrCopy source source t2 with
  | ok u t3 => exact absurd h3 (hfail u t3)
  | error e t3 =>
    refine ⟨e, t3, bind_err.mpr (Or.inr ⟨(), _, h1, bind_err.mpr (Or.inr ⟨(), t2, h2, h3⟩)⟩), ?_⟩
    cases hr : rename source source t2 with
    | ok v t4 =>
      rw [renameOrCopy_of_ok hr] at h3
      cases h3
    | error e' t4 =>
      rw [renameOrCopy_of_err hr] at h3
      rcases bind_err.mp h3 with h4 | ⟨_, t5, h5, -⟩
      · have h6 := (@copyPathRecursive_missing _ source source hf).symm.trans h4
        cases h6
        exact hf
      · exact absurd (copyPathRecursive_ok hf hno2 h5).1.ne (fun h => h rfl)

end Data

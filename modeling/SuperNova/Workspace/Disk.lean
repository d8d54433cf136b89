import Mathlib.Data.String.Basic
import SuperNova.Lib.FileOps
import SuperNova.Workspace.Guard

/-!
# Removing and copying paths of the disk

`removePathAny` and `copyPathRecursive` are the two helpers every mutation of the workspace is
built from.  The copy recurses over the directories it meets, and a directory copied into itself
never ends: the operating system stops it when the path grows too long, which the model does
after as many levels as the disk is deep.

* `copyPathRecursive_total`: a copy to a free path apart from the source succeeds and grafts the
  source's entries there (`Grafted`);
* `copyPathRecursive_ok`: a copy to a free path that succeeds was such a copy.
-/

set_option linter.unusedSectionVars false

namespace Workspace

open Paths Io FileTree

abbrev Bytes := List UInt8

abbrev Disk := Tree String Bytes

/-- a program over the disk -/
abbrev DiskM (α : Type) := Fs String Bytes α

def removePathAny (path : Path) : DiskM Unit := do
  let t ← get
  if t.isDir path then removeDirAll path
  else if t.exists path then removeFile path
  else pure ()

/-- the recursion of `copy_path_recursive`, at most `fuel` levels deep -/
def copyLevels : Nat → Path → Path → DiskM Unit
  | 0, _, _ => throw .nameTooLong
  | fuel + 1, source, destination => do
    let t ← get
    if t.isDir source then do
      createDirAll destination
      -- the directory is listed after the destination was created, which may lie in it
      let t ← get
      (t.children source).forM fun name =>
        copyLevels fuel (source ++ [name]) (destination ++ [name])
    else if t.isFile source then do
      createDirAll destination.dropLast
      copyFile source destination
    else throw (.invalidInput "unsupported path type")

def copyPathRecursive (source destination : Path) : DiskM Unit := do
  let t ← get
  copyLevels (t.depth + 1) source destination

/-! ## removing -/

variable {t t' : Disk} {p q source destination : Path}

theorem removePathAny_ok {u : Unit} (h : Ok (removePathAny p) t u t') :
    p ≠ [] ∧ ∀ q, t'.entry q = if p <+: q then none else t.entry q := by
  obtain ⟨_, _, hg, h⟩ := bind_ok.mp h
  cases hg
  by_cases hd : t.isDir p = true
  · rw [if_pos hd] at h
    obtain ⟨hp, -, rfl⟩ := removeDirAll_ok.mp h
    refine ⟨hp, fun q => ?_⟩
    rw [Tree.erase_entry]
    by_cases c : p <+: q <;> simp [hp, c]
  · rw [if_neg hd] at h
    have hp : p ≠ [] := by
      rintro rfl
      exact hd (Tree.isDir_iff.mpr t.root)
    refine ⟨hp, fun q => ?_⟩
    by_cases hx : t.exists p = true
    · rw [if_pos hx] at h
      obtain ⟨-, rfl⟩ := removeFile_ok.mp h
      rw [Tree.erase_entry]
      by_cases c : p <+: q <;> simp [hp, c]
    · rw [if_neg hx] at h
      cases h
      by_cases c : p <+: q
      · have hn : t.entry p = none := by
          by_contra e
          exact hx (Tree.exists_iff.mpr e)
        rw [if_pos c, t.none_of_prefix c hn]
      · rw [if_neg c]

theorem removePathAny_total (t : Disk) (hp : p ≠ []) : ∃ t', Ok (removePathAny p) t () t' := by
  have key : ∃ t', Ok (if t.isDir p then removeDirAll p else
      if t.exists p then removeFile p else pure ()) t () t' := by
    by_cases hd : t.isDir p = true
    · rw [if_pos hd]
      exact ⟨_, removeDirAll_ok.mpr ⟨hp, hd, rfl⟩⟩
    · rw [if_neg hd]
      by_cases hx : t.exists p = true
      · rw [if_pos hx]
        refine ⟨_, removeFile_ok.mpr ⟨?_, rfl⟩⟩
        rw [Tree.isFile_iff]
        rcases e : t.entry p with _ | (c | _)
        · exact absurd e (Tree.exists_iff.mp hx)
        · exact ⟨c, rfl⟩
        · exact absurd (Tree.isDir_iff.mpr e) hd
      · rw [if_neg hx]
        exact ⟨t, rfl⟩
  obtain ⟨t', h⟩ := key
  exact ⟨t', bind_ok.mpr ⟨t, t, rfl, h⟩⟩

/-! ## copying to a free path -/

/-- `t'` is `t` with the entries at and below `source` also at and below `destination` -/
def Grafted (t t' : Disk) (source destination : Path) : Prop :=
  ∀ q, t'.entry q =
    if destination <+: q then t.entry (source ++ q.drop destination.length)
    else if q <+: destination then some .dir else t.entry q

theorem Grafted.below (h : Grafted t t' source destination) (r : Path) :
    t'.entry (destination ++ r) = t.entry (source ++ r) := by
  rw [h, if_pos (List.prefix_append ..), List.drop_left]

theorem Grafted.apart (h : Grafted t t' source destination) (hq : Apart destination q) :
    t'.entry q = t.entry q := by
  rw [h, if_neg hq.1, if_neg hq.2]

theorem copyLevels_succ_dir {fuel : Nat} {u : Unit} (hd : t.entry source = some .dir) :
    Ok (copyLevels (fuel + 1) source destination) t u t' ↔
      t.NoFileTo destination ∧
        Ok (((t.mkdirs destination).children source).forM fun name =>
          copyLevels fuel (source ++ [name]) (destination ++ [name])) (t.mkdirs destination) u t' := by
  rw [copyLevels, bind_ok]
  constructor
  · rintro ⟨_, _, hg, h⟩
    cases hg
    rw [if_pos (Tree.isDir_iff.mpr hd)] at h
    obtain ⟨_, t1, h1, h⟩ := bind_ok.mp h
    obtain ⟨hno, rfl⟩ := createDirAll_ok.mp h1
    obtain ⟨_, _, hg, h⟩ := bind_ok.mp h
    cases hg
    exact ⟨hno, h⟩
  · rintro ⟨hno, h⟩
    refine ⟨t, t, rfl, ?_⟩
    rw [if_pos (Tree.isDir_iff.mpr hd)]
    refine bind_ok.mpr ⟨(), t.mkdirs destination, createDirAll_ok.mpr ⟨hno, rfl⟩, ?_⟩
    exact bind_ok.mpr ⟨_, _, rfl, h⟩

theorem copyLevels_succ_dir_err {fuel : Nat} {e : Fault} (hd : t.entry source = some .dir)
    (hno : t.NoFileTo destination)
    (h : Err (((t.mkdirs destination).children source).forM fun name =>
      copyLevels fuel (source ++ [name]) (destination ++ [name])) (t.mkdirs destination) e t') :
    Err (copyLevels (fuel + 1) source destination) t e t' := by
  rw [copyLevels]
  refine bind_err.mpr (Or.inr ⟨t, t, rfl, ?_⟩)
  rw [if_pos (Tree.isDir_iff.mpr hd)]
  refine bind_err.mpr (Or.inr ⟨(), t.mkdirs destination, createDirAll_ok.mpr ⟨hno, rfl⟩, ?_⟩)
  exact bind_err.mpr (Or.inr ⟨_, _, rfl, h⟩)

theorem copyLevels_succ_file {fuel : Nat} {u : Unit} {c : Bytes}
    (hs : t.entry source = some (.file c)) :
    Ok (copyLevels (fuel + 1) source destination) t u t' ↔
      t.NoFileTo destination.dropLast ∧
        Ok (copyFile source destination) (t.mkdirs destination.dropLast) u t' := by
  have hd : t.isDir source = false := by simp [Tree.isDir, hs]
  have hf : t.isFile source = true := Tree.isFile_iff.mpr ⟨c, hs⟩
  rw [copyLevels, bind_ok]
  constructor
  · rintro ⟨_, _, hg, h⟩
    cases hg
    rw [hd, if_neg Bool.false_ne_true, if_pos hf] at h
    obtain ⟨_, t1, h1, h⟩ := bind_ok.mp h
    obtain ⟨hno, rfl⟩ := createDirAll_ok.mp h1
    exact ⟨hno, h⟩
  · rintro ⟨hno, h⟩
    refine ⟨t, t, rfl, ?_⟩
    rw [hd, if_neg Bool.false_ne_true, if_pos hf]
    exact bind_ok.mpr ⟨(), _, createDirAll_ok.mpr ⟨hno, rfl⟩, h⟩

theorem copyLevels_none {fuel : Nat} {u : Unit} (hs : t.entry source = none) :
    ¬ Ok (copyLevels fuel source destination) t u t' := by
  cases fuel with
  | zero => exact fun h => by cases h
  | succ fuel =>
    intro h
    rw [copyLevels] at h
    obtain ⟨_, _, hg, h⟩ := bind_ok.mp h
    cases hg
    have hd : t.isDir source = false := by simp [Tree.isDir, hs]
    have hf : t.isFile source = false := by simp [Tree.isFile, hs]
    rw [hd, hf] at h
    cases h

theorem copyPathRecursive_missing (hs : t.entry source = none) :
    copyPathRecursive source destination t = .error (.invalidInput "unsupported path type") t := by
  have hd : t.isDir source = false := by simp [Tree.isDir, hs]
  have hf : t.isFile source = false := by simp [Tree.isFile, hs]
  have h : copyLevels (t.depth + 1) source destination t =
      .error (.invalidInput "unsupported path type") t := by
    rw [copyLevels, bind_apply, get_apply]
    simp only [hd, hf]
    rfl
  exact h

theorem copyFile_grafted {c : Bytes} (ha : Apart source destination)
    (hs : t.entry source = some (.file c)) (hf : t.entry destination = none) :
    ∃ t', Ok (copyFile source destination) (t.mkdirs destination.dropLast) () t' ∧
      Grafted t t' source destination := by
  have hlen : ¬ destination <+: destination.dropLast := by
    apply not_prefix_of_length
    have := List.length_pos_iff.mpr ha.symm.ne_nil
    rw [List.length_dropLast]
    omega
  have hs' : (t.mkdirs destination.dropLast).entry source = some (.file c) := by
    rw [Tree.mkdirs_entry, if_neg, hs]
    exact fun h => ha.1 (h.trans (dropLast_above _))
  have hd : (t.mkdirs destination.dropLast).entry destination.dropLast = some .dir := by
    rw [Tree.mkdirs_entry, if_pos List.prefix_rfl]
  have hn : (t.mkdirs destination.dropLast).entry destination ≠ some .dir := by
    rw [Tree.mkdirs_entry, if_neg hlen, hf]
    simp
  obtain ⟨t', h⟩ := copyFile_total ha.ne hs' ha.symm.ne_nil hd hn
  refine ⟨t', h, fun q => ?_⟩
  obtain ⟨c', hc', -, -, -, he⟩ := copyFile_ok ha.ne h
  rw [hs'] at hc'
  cases hc'
  rw [he, Tree.mkdirs_entry]
  by_cases hq : destination <+: q
  · obtain ⟨r, rfl⟩ := hq
    rw [if_pos (List.prefix_append ..), List.drop_left]
    cases r with
    | nil => rw [List.append_nil, List.append_nil, if_pos rfl, hs]
    | cons x r =>
      have h1 : ¬ destination ++ x :: r <+: destination.dropLast := fun h =>
        hlen ((List.prefix_append ..).trans h)
      have h2 : t.entry (source ++ x :: r) = none :=
        t.none_below (List.prefix_append ..) (by simp) (by rw [hs]; simp)
      rw [if_neg (by simp), if_neg h1, t.none_of_prefix (List.prefix_append ..) hf, h2]
  · have hne : q ≠ destination := by
      rintro rfl
      exact hq List.prefix_rfl
    have hiff : q <+: destination.dropLast ↔ q <+: destination :=
      ⟨fun h => h.trans (dropLast_above _), fun h => (prefix_dropLast h).resolve_left hne⟩
    rw [if_neg hne, if_neg hq]
    simp only [hiff]

/-- the state of the copy loop: the names in `done` are copied -/
def CopiedNames (t s : Disk) (source destination : Path) (done : List String) : Prop :=
  ∀ q, s.entry q =
    if ∃ x ∈ done, destination ++ [x] <+: q then t.entry (source ++ q.drop destination.length)
    else (t.mkdirs destination).entry q

theorem CopiedNames.nil (t : Disk) (source destination : Path) :
    CopiedNames t (t.mkdirs destination) source destination [] := fun q => by simp

section
variable {s s' : Disk} {done : List String} {x : String}

theorem not_copied_at (done : List String) (destination : Path) :
    ¬ ∃ y ∈ done, destination ++ [y] <+: destination := by
  rintro ⟨y, -, hy⟩
  exact not_prefix_of_length (by simp) hy

theorem copied_iff (done : List String) (destination r : Path) :
    (∃ y ∈ done, destination ++ [y] <+: destination ++ x :: r) ↔ x ∈ done := by
  constructor
  · rintro ⟨y, hy, hp⟩
    rw [List.prefix_append_right_inj, List.cons_prefix_cons] at hp
    exact hp.1 ▸ hy
  · intro hx
    refine ⟨x, hx, ?_⟩
    rw [List.prefix_append_right_inj, List.cons_prefix_cons]
    exact ⟨rfl, List.nil_prefix⟩

theorem CopiedNames.below_source (h : CopiedNames t s source destination done)
    (ha : Apart source destination) (r : Path) : s.entry (source ++ r) = t.entry (source ++ r) := by
  have h1 : ¬ ∃ y ∈ done, destination ++ [y] <+: source ++ r := by
    rintro ⟨y, -, hy⟩
    exact ha.symm.not_both ((List.prefix_append ..).trans hy) (List.prefix_append ..)
  have h2 : ¬ source ++ r <+: destination := fun c => ha.1 ((List.prefix_append ..).trans c)
  rw [h, if_neg h1, Tree.mkdirs_entry, if_neg h2]

theorem CopiedNames.free (h : CopiedNames t s source destination done) (hx : x ∉ done)
    (hf : t.entry destination = none) : s.entry (destination ++ [x]) = none := by
  have h2 : ¬ destination ++ [x] <+: destination := not_prefix_of_length (by simp)
  rw [h, if_neg (mt (copied_iff done destination []).mp hx), Tree.mkdirs_entry, if_neg h2,
    t.none_of_prefix (List.prefix_append ..) hf]

theorem CopiedNames.dir (h : CopiedNames t s source destination done) :
    s.entry destination = some .dir := by
  rw [h, if_neg (not_copied_at done destination), Tree.mkdirs_entry, if_pos List.prefix_rfl]

theorem CopiedNames.step (h : CopiedNames t s source destination done)
    (ha : Apart source destination) (hg : Grafted s s' (source ++ [x]) (destination ++ [x])) :
    CopiedNames t s' source destination (done ++ [x]) := by
  intro q
  by_cases hx : destination ++ [x] <+: q
  · have hex : ∃ y ∈ done ++ [x], destination ++ [y] <+: q := ⟨x, by simp, hx⟩
    rw [if_pos hex]
    obtain ⟨r, rfl⟩ := hx
    rw [hg.below, List.append_assoc, List.append_assoc, List.drop_left, h.below_source ha]
  · have hex : (∃ y ∈ done ++ [x], destination ++ [y] <+: q) ↔
        ∃ y ∈ done, destination ++ [y] <+: q := by
      constructor
      · rintro ⟨y, hy, hq⟩
        rcases List.mem_append.mp hy with hy | hy
        · exact ⟨y, hy, hq⟩
        · exact absurd (List.mem_singleton.mp hy ▸ hq) hx
      · rintro ⟨y, hy, hq⟩
        exact ⟨y, List.mem_append_left _ hy, hq⟩
    rw [hg q, if_neg hx]
    simp only [hex]
    by_cases hq : q <+: destination ++ [x]
    · have hq' : q <+: destination := (prefix_concat_iff.mp hq).resolve_left fun e =>
        hx (e ▸ List.prefix_rfl)
      have hno : ¬ ∃ y ∈ done, destination ++ [y] <+: q := by
        rintro ⟨y, -, hy⟩
        exact not_prefix_of_length (by simp) (hy.trans hq')
      rw [if_pos hq, if_neg hno, Tree.mkdirs_entry, if_pos hq']
    · rw [if_neg hq, h q]

theorem CopiedNames.grafted (h : CopiedNames t s source destination done)
    (hd : t.entry source = some .dir)
    (hf : t.entry destination = none) (hdone : ∀ x, t.entry (source ++ [x]) ≠ none → x ∈ done) :
    Grafted t s source destination := by
  intro q
  by_cases hq : destination <+: q
  · obtain ⟨r, rfl⟩ := hq
    rw [if_pos (List.prefix_append ..), List.drop_left]
    cases r with
    | nil => rw [List.append_nil, List.append_nil, h.dir, hd]
    | cons x r =>
      rw [h]
      by_cases hx : x ∈ done
      · rw [if_pos ((copied_iff done destination r).mpr hx), List.drop_left]
      · have h2 : ¬ destination ++ x :: r <+: destination := not_prefix_of_length (by simp)
        have h3 : t.entry (source ++ [x]) = none := by
          by_contra c
          exact hx (hdone x c)
        have h4 : source ++ [x] <+: source ++ x :: r := by
          rw [List.prefix_append_right_inj, List.cons_prefix_cons]
          exact ⟨rfl, List.nil_prefix⟩
        rw [if_neg (mt (copied_iff done destination r).mp hx), Tree.mkdirs_entry, if_neg h2,
          t.none_of_prefix (List.prefix_append ..) hf, t.none_of_prefix h4 h3]
  · have h1 : ¬ ∃ y ∈ done, destination ++ [y] <+: q := by
      rintro ⟨y, -, hp⟩
      exact hq ((List.prefix_append ..).trans hp)
    rw [h q, if_neg h1, if_neg hq, Tree.mkdirs_entry]

end

theorem copyLevels_total (fuel : Nat) : ∀ (t : Disk) (source destination : Path),
    Apart source destination → t.entry source ≠ none →
    (∀ r, t.entry (source ++ r) ≠ none → r.length < fuel) →
    t.entry destination = none → t.NoFileTo destination.dropLast →
    ∃ t', Ok (copyLevels fuel source destination) t () t' ∧ Grafted t t' source destination := by
  induction fuel with
  | zero =>
    intro t source destination _ hs hfuel _ _
    exact absurd (hfuel [] (by rwa [List.append_nil])) (Nat.not_lt_zero _)
  | succ fuel ih =>
    intro t source destination ha hs hfuel hf hno
    rcases e : t.entry source with _ | (c | _)
    · exact absurd e hs
    · obtain ⟨t', h, hg⟩ := copyFile_grafted ha e hf
      exact ⟨t', (copyLevels_succ_file e).mpr ⟨hno, h⟩, hg⟩
    · have hno' : t.NoFileTo destination := fun q hq => by
        rcases prefix_dropLast hq with rfl | hq
        · exact Tree.fileAt_of_none hf
        · exact hno q hq
      have hkids : ∀ x, x ∈ (t.mkdirs destination).children source ↔
          t.entry (source ++ [x]) ≠ none := by
        intro x
        rw [Tree.mem_children, Tree.mkdirs_entry,
          if_neg fun c => ha.1 ((List.prefix_append ..).trans c)]
      -- the loop keeps: the names done are copied, the others are still free
      obtain ⟨t', h, hc⟩ := forM_total (f := fun name =>
          copyLevels fuel (source ++ [name]) (destination ++ [name]))
        (fun done s => CopiedNames t s source destination done)
        ((t.mkdirs destination).children source) [] (t.mkdirs destination)
        (CopiedNames.nil t source destination) (by
          intro d x r s hdx hs
          rw [List.nil_append] at hdx
          have hxd : x ∉ d := by
            have hnd := Tree.nodup_children (t.mkdirs destination) source
            rw [hdx, List.nodup_append] at hnd
            exact fun c => hnd.2.2 x c x List.mem_cons_self rfl
          have hx : s.entry (source ++ [x]) ≠ none := by
            rw [hs.below_source ha]
            exact (hkids x).mp (by rw [hdx]; simp)
          have hdeep : ∀ r, s.entry (source ++ [x] ++ r) ≠ none → r.length < fuel := by
            intro r hr
            rw [List.append_assoc, hs.below_source ha] at hr
            have := hfuel _ hr
            rw [List.singleton_append, List.length_cons] at this
            omega
          obtain ⟨s', h', hg⟩ := ih s (source ++ [x]) (destination ++ [x]) (ha.append _ _) hx hdeep
            (hs.free hxd hf) (by rw [List.dropLast_concat]; exact Tree.noFileTo_of_dir hs.dir)
          exact ⟨s', h', hs.step ha hg⟩)
      exact ⟨t', (copyLevels_succ_dir e).mpr ⟨hno', h⟩,
        hc.grafted e hf fun x hx => (hkids x).mpr hx⟩

/-- **copying to a free path apart from the source succeeds and grafts the source there** -/
theorem copyPathRecursive_total (ha : Apart source destination) (hs : t.entry source ≠ none)
    (hf : t.entry destination = none) (hno : t.NoFileTo destination.dropLast) :
    ∃ t', Ok (copyPathRecursive source destination) t () t' ∧ Grafted t t' source destination := by
  have hdeep : ∀ r, t.entry (source ++ r) ≠ none → r.length < t.depth + 1 := by
    intro r hr
    have := t.length_le_depth hr
    rw [List.length_append] at this
    omega
  obtain ⟨t', h, hg⟩ := copyLevels_total (t.depth + 1) t source destination ha hs hdeep hf hno
  exact ⟨t', bind_ok.mpr ⟨t, t, rfl, h⟩, hg⟩

/-! ## copying a directory into itself -/

theorem copyFile_keeps_dir {u : Unit} (hne : source ≠ destination)
    (h : Ok (copyFile source destination) t u t') (hq : t.entry q = some .dir) :
    t'.entry q = some .dir := by
  obtain ⟨c, -, -, -, hn, he⟩ := copyFile_ok hne h
  have hqd : q ≠ destination := by
    rintro rfl
    exact hn hq
  rw [he, if_neg hqd, hq]

theorem mkdirs_keeps_dir (hq : t.entry q = some .dir) : (t.mkdirs p).entry q = some .dir := by
  rw [Tree.mkdirs_entry]
  by_cases c : q <+: p
  · rw [if_pos c]
  · rw [if_neg c, hq]

theorem copyLevels_keeps_dir (fuel : Nat) : ∀ (t t' : Disk) (source destination : Path) (u : Unit),
    source ≠ destination → Ok (copyLevels fuel source destination) t u t' →
    t.entry q = some .dir → t'.entry q = some .dir := by
  induction fuel with
  | zero => exact fun t t' source destination u _ h _ => by cases h
  | succ fuel ih =>
    intro t t' source destination u hne h hq
    rcases e : t.entry source with _ | (c | _)
    · exact absurd h (copyLevels_none e)
    · obtain ⟨-, h⟩ := (copyLevels_succ_file e).mp h
      exact copyFile_keeps_dir hne h (mkdirs_keeps_dir hq)
    · obtain ⟨-, h⟩ := (copyLevels_succ_dir e).mp h
      refine forM_ok_induct (P := fun s : Disk => s.entry q = some .dir) _ ?_ h
        (mkdirs_keeps_dir hq)
      intro x _ s s' hx hs
      exact ih s s' _ _ _ (fun c => hne (List.append_cancel_right c)) hx hs

theorem copyLevels_nested (fuel : Nat) : ∀ (t t' : Disk) (source : Path) (x : String) (r : Path)
    (u : Unit), t.entry source = some .dir →
    ¬ Ok (copyLevels fuel source (source ++ x :: r)) t u t' := by
  induction fuel with
  | zero => exact fun t t' source x r u _ h => by cases h
  | succ fuel ih =>
    intro t t' source x r u hd h
    obtain ⟨-, h⟩ := (copyLevels_succ_dir hd).mp h
    have hx : source ++ [x] <+: source ++ x :: r := by
      rw [List.prefix_append_right_inj, List.cons_prefix_cons]
      exact ⟨rfl, List.nil_prefix⟩
    have hxd : (t.mkdirs (source ++ x :: r)).entry (source ++ [x]) = some .dir := by
      rw [Tree.mkdirs_entry, if_pos hx]
    have hmem : x ∈ (t.mkdirs (source ++ x :: r)).children source :=
      Tree.mem_children.mpr (by rw [hxd]; simp)
    -- the loop reaches the name the destination lies under, and its copy is nested again
    obtain ⟨s1, s2, hs1, hcopy⟩ := forM_ok_mem
      (P := fun s : Disk => s.entry (source ++ [x]) = some .dir) _
      (fun y _ s s' hy hs => copyLevels_keeps_dir fuel s s' _ _ _ (by simp) hy hs) hmem h hxd
    have e : source ++ x :: r ++ [x] = source ++ [x] ++ (r ++ [x]) := by simp
    rw [e] at hcopy
    obtain ⟨y, r', hr⟩ : ∃ y r', r ++ [x] = y :: r' := by
      cases r with
      | nil => exact ⟨x, [], rfl⟩
      | cons y r => exact ⟨y, r ++ [x], rfl⟩
    rw [hr] at hcopy
    exact ih s1 s2 (source ++ [x]) y r' _ hs1 hcopy

/-- **a copy to a free path that succeeds had an existing source apart from it** -/
theorem copyPathRecursive_ok {u : Unit} (hf : t.entry destination = none)
    (hno : t.NoFileTo destination.dropLast) (h : Ok (copyPathRecursive source destination) t u t') :
    Apart source destination ∧ t.entry source ≠ none ∧ Grafted t t' source destination := by
  have hc : Ok (copyLevels (t.depth + 1) source destination) t u t' := by
    obtain ⟨_, _, hg, h⟩ := bind_ok.mp h
    cases hg
    exact h
  have hs : t.entry source ≠ none := fun e => copyLevels_none e hc
  have ha : Apart source destination := by
    rcases apart_or source destination with ha | hp | hp
    · exact ha
    · have hne : source ≠ destination := by
        rintro rfl
        exact hs hf
      exfalso
      rcases e : t.entry source with _ | (c | _)
      · exact hs e
      · have := hno source ((prefix_dropLast hp).resolve_left hne)
        rw [Tree.fileAt_eq_some.mpr e] at this
        cases this
      · obtain ⟨x, r, rfl⟩ := exists_of_strict hp hne
        exact copyLevels_nested _ t t' source x r u e hc
    · exact absurd (t.none_of_prefix hp hf) hs
  obtain ⟨t1, h1, hg⟩ := copyPathRecursive_total ha hs hf hno
  have e : t1 = t' := by
    have := h1.symm.trans h
    cases this
    rfl
  exact ⟨ha, hs, e ▸ hg⟩

end Workspace

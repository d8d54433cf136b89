import Mathlib.Data.List.Lex
import SuperNova.Os.Fingerprint
import SuperNova.Os.ZipNames

/-!
# What a diff tells

A snapshot keeps the kind, the length and the fingerprint of everything below the root, by its reported name, in which
every `\` is a `/`.  Two snapshots are compared name by name.

* `get?_snapshot`: of the paths with a name, the last one in the order of the walk stands for all;
* `Accounts`: the diff accounts for all that changed;
* `Told`: the changes that a diff can tell;
* `accounts_iff` (**main**): the diff accounts for all that changed exactly when nothing else did.
-/

set_option linter.unusedSectionVars false

namespace Os

open FileTree Workspace

/-! ## the walk -/

/-- the state that is kept of a path -/
def stateOf (t : Disk) (q : Path) : WorkspaceEntryState :=
  match t.entry q with
  | some (.file bytes) => ⟨"file", bytes.length, fingerprintOf bytes⟩
  | _ => ⟨"dir", 0, "dir"⟩

/-- the paths in the order in which `snapshot_workspace_inner` comes to them -/
def walkPaths (t : Disk) : Nat → Path → List Path
  | 0, _ => []
  | fuel + 1, current =>
    ((t.children current).filter (· ≠ runtimeDirName)).flatMap fun name =>
      (current ++ [name]) :: walkPaths t fuel (current ++ [name])

def walk (t : Disk) (root : Path) : List Path := walkPaths t (t.depth + 1) root

/-- the path lies in the workspace and not in the runtime's directory -/
structure Visible (t : Disk) (root q : Path) : Prop where
  below : root <+: q
  proper : q ≠ root
  shown : runtimeDirName ∉ q.drop root.length
  entry : t.entry q ≠ none

section
variable {t before after : Disk} {root current q q' : Path} {fuel : Nat} {name : String} {snapshot : Snapshot}

theorem walkPaths_file (h : ∀ name, t.entry (current ++ [name]) = none) : walkPaths t fuel current = [] := by
  cases fuel with
  | zero => rfl
  | succ fuel =>
    have hchildren : t.children current = [] :=
      List.eq_nil_iff_forall_not_mem.mpr fun name hname => Tree.mem_children.mp hname (h name)
    rw [walkPaths, hchildren]
    rfl

theorem entry_below_file {bytes : Bytes} (h : t.entry q = some (.file bytes)) (name : String) :
    t.entry (q ++ [name]) = none := by
  by_contra hne
  have hdir := t.dir_above name [] (by simpa using hne)
  rw [h] at hdir
  cases hdir

theorem snapshotInner_eq (fuel : Nat) : ∀ (current : Path) (snapshot : Snapshot),
    snapshotInner t root fuel current snapshot =
      (walkPaths t fuel current).foldl (fun s q => s.insert (zipName root q) (stateOf t q)) snapshot := by
  induction fuel with
  | zero => exact fun _ _ => rfl
  | succ fuel ih =>
    intro current snapshot
    rw [snapshotInner, walkPaths, List.foldl_flatMap]
    refine List.foldl_ext _ _ _ fun s name hname => ?_
    have hexists := Tree.mem_children.mp (List.mem_of_mem_filter hname)
    rw [List.foldl_cons]
    dsimp only
    cases hentry : t.entry (current ++ [name]) with
    | none => exact absurd hentry hexists
    | some entry =>
      cases entry with
      | dir =>
        have hstate : stateOf t (current ++ [name]) = ⟨"dir", 0, "dir"⟩ := by rw [stateOf, hentry]
        rw [hstate]
        exact ih _ _
      | file bytes =>
        have hstate : stateOf t (current ++ [name]) = ⟨"file", bytes.length, fingerprintOf bytes⟩ := by
          rw [stateOf, hentry]
        rw [hstate, walkPaths_file (entry_below_file hentry)]
        rfl

theorem mem_walkPaths (fuel : Nat) : ∀ {current q : Path}, q ∈ walkPaths t fuel current ↔
    ∃ r, r ≠ [] ∧ q = current ++ r ∧ runtimeDirName ∉ r ∧ t.entry q ≠ none ∧ r.length ≤ fuel := by
  induction fuel with
  | zero =>
    intro current q
    refine iff_of_false List.not_mem_nil ?_
    rintro ⟨r, hne, -, -, -, hlength⟩
    exact hne (List.length_eq_zero_iff.mp (Nat.le_zero.mp hlength))
  | succ fuel ih =>
    intro current q
    rw [walkPaths, List.mem_flatMap]
    constructor
    · rintro ⟨name, hname, hq⟩
      obtain ⟨hchild, hshown⟩ := List.mem_filter.mp hname
      have hother : runtimeDirName ≠ name := fun h => of_decide_eq_true hshown h.symm
      rcases List.mem_cons.mp hq with rfl | hq
      · refine ⟨[name], List.cons_ne_nil _ _, rfl, ?_, Tree.mem_children.mp hchild, Nat.succ_le_succ (Nat.zero_le _)⟩
        rwa [List.mem_singleton]
      · obtain ⟨r, hne, rfl, hr, hentry, hlength⟩ := ih.mp hq
        refine ⟨name :: r, List.cons_ne_nil _ _, List.append_assoc _ _ _, ?_, hentry, Nat.succ_le_succ hlength⟩
        rw [List.mem_cons, not_or]
        exact ⟨hother, hr⟩
    · rintro ⟨r, hne, rfl, hshown, hentry, hlength⟩
      obtain ⟨name, r, rfl⟩ := List.exists_cons_of_ne_nil hne
      rw [List.mem_cons, not_or] at hshown
      have hsplit : current ++ name :: r = current ++ [name] ++ r := by simp
      have hchild : t.entry (current ++ [name]) ≠ none := by
        cases r with
        | nil => exact hentry
        | cons x r =>
          have hdir := t.dir_above (p := current ++ [name]) x r (by rwa [← hsplit])
          rw [hdir]
          exact Option.some_ne_none _
      refine ⟨name, List.mem_filter.mpr ⟨Tree.mem_children.mpr hchild, decide_eq_true (Ne.symm hshown.1)⟩, ?_⟩
      cases r with
      | nil => exact List.mem_cons_self
      | cons x r =>
        refine List.mem_cons_of_mem _ (ih.mpr ⟨x :: r, List.cons_ne_nil _ _, hsplit, hshown.2, hentry, ?_⟩)
        exact Nat.le_of_succ_le_succ hlength

theorem mem_walk : q ∈ walk t root ↔ Visible t root q := by
  rw [walk, mem_walkPaths]
  constructor
  · rintro ⟨r, hne, rfl, hshown, hentry, -⟩
    refine ⟨List.prefix_append root r, fun h => hne (List.append_right_eq_self.mp h), ?_, hentry⟩
    rwa [List.drop_left]
  · rintro ⟨⟨r, rfl⟩, hproper, hshown, hentry⟩
    rw [List.drop_left] at hshown
    refine ⟨r, ?_, rfl, hshown, hentry, ?_⟩
    · rintro rfl
      exact hproper (List.append_nil root)
    · have hdepth := t.length_le_depth hentry
      rw [List.length_append] at hdepth
      omega

theorem append_lt_append (current : Path) {r r' : Path} (h : r < r') : current ++ r < current ++ r' :=
  List.Lex.append_left (· < ·) h current

theorem pairwise_walkPaths (fuel : Nat) : ∀ current : Path, (walkPaths t fuel current).Pairwise (· < ·) := by
  induction fuel with
  | zero => exact fun _ => List.Pairwise.nil
  | succ fuel ih =>
    intro current
    have hbehind : ∀ name, ∀ q ∈ (current ++ [name]) :: walkPaths t fuel (current ++ [name]),
        ∃ r, q = current ++ name :: r := by
      intro name q hq
      rcases List.mem_cons.mp hq with rfl | hq
      · exact ⟨[], rfl⟩
      · obtain ⟨r, -, rfl, -⟩ := (mem_walkPaths fuel).mp hq
        exact ⟨r, List.append_assoc _ _ _⟩
    rw [walkPaths, List.pairwise_flatMap]
    constructor
    · intro name hname
      refine List.pairwise_cons.mpr ⟨fun q hq => ?_, ih _⟩
      obtain ⟨r, hne, rfl, -⟩ := (mem_walkPaths fuel).mp hq
      obtain ⟨x, r, rfl⟩ := List.exists_cons_of_ne_nil hne
      have hlonger := append_lt_append (current ++ [name]) (List.Lex.nil : List.Lex (· < ·) [] (x :: r))
      rwa [List.append_nil] at hlonger
    · have hsorted : (t.children current).Pairwise (· < ·) := by
        refine ((List.pairwise_insertionSort (· ≤ ·) _).and (t.nodup_children current)).imp ?_
        exact fun hboth => lt_of_le_of_ne hboth.1 hboth.2
      refine (hsorted.filter _).imp fun {name name'} hless q hq q' hq' => ?_
      obtain ⟨r, rfl⟩ := hbehind name q hq
      obtain ⟨r', rfl⟩ := hbehind name' q' hq'
      exact append_lt_append current (List.Lex.rel hless)

/-- the paths with a reported name, in the order of the walk -/
def named (t : Disk) (root : Path) (name : String) : List Path := (walk t root).filter fun q => zipName root q == name

theorem get?_snapshot : (snapshotWorkspace t root).get? name = (named t root name).getLast?.map (stateOf t) := by
  rw [snapshotWorkspace, snapshotInner_eq]
  exact (Table.get?_fillWith _ _ _).trans Option.or_none

theorem mem_named : q ∈ named t root name ↔ Visible t root q ∧ zipName root q = name := by
  rw [named, List.mem_filter, mem_walk, beq_iff_eq]

theorem pairwise_named : (named t root name).Pairwise (· < ·) := (pairwise_walkPaths _ root).filter _

end

/-! ## the diff -/

/-- what became of a path, and what a diff says of a name -/
inductive Fate where
  | absent
  | addedFile
  | addedDir
  | removedFile
  | removedDir
  | changed
  | kept
  | turned
  deriving DecidableEq

def fate (before after : Disk) (q : Path) : Fate :=
  match before.entry q, after.entry q with
  | none, none => .absent
  | none, some (.file _) => .addedFile
  | none, some .dir => .addedDir
  | some (.file _), none => .removedFile
  | some .dir, none => .removedDir
  | some (.file old), some (.file new) => if old = new then .kept else .changed
  | some .dir, some .dir => .kept
  | some (.file _), some .dir => .turned
  | some .dir, some (.file _) => .turned

section
variable (before after : Disk) (root : Path)

def diffOf : WorkspaceDiff := diffWorkspaceSnapshots (snapshotWorkspace before root) (snapshotWorkspace after root)

def Seen (q : Path) : Prop := Visible before root q ∨ Visible after root q

/-- the diff accounts for all that changed: files and directories are those before without the removed ones and with the
added ones, and the changed files are those with other contents -/
structure Accounts : Prop where
  files : ∀ q, Seen before after root q → (after.fileAt q ≠ none ↔
    before.fileAt q ≠ none ∧ zipName root q ∉ (diffOf before after root).removedFiles ∨
      zipName root q ∈ (diffOf before after root).addedFiles)
  dirs : ∀ q, Seen before after root q → (after.entry q = some .dir ↔
    before.entry q = some .dir ∧ zipName root q ∉ (diffOf before after root).removedDirs ∨
      zipName root q ∈ (diffOf before after root).addedDirs)
  changed : ∀ q, Seen before after root q → (zipName root q ∈ (diffOf before after root).changedFiles ↔
    ∃ old new, before.fileAt q = some old ∧ after.fileAt q = some new ∧ old ≠ new)

/-- the changes that a diff can tell: no path changes its kind, paths with one name share their fate, and of changed files
with one name the last one has another length or fingerprint -/
structure Told : Prop where
  kinds : ∀ q, Seen before after root q → fate before after q ≠ .turned
  alike : ∀ q q', Seen before after root q → Seen before after root q' → zipName root q = zipName root q' →
    fate before after q = fate before after q'
  shown : ∀ q old new, Visible before root q → before.fileAt q = some old → after.fileAt q = some new → old ≠ new →
    (∀ q', Seen before after root q' → zipName root q' = zipName root q → q' ≤ q) →
      old.length ≠ new.length ∨ fingerprintOf old ≠ fingerprintOf new

/-- what the diff says of a name -/
def verdict (name : String) : Fate :=
  match (snapshotWorkspace before root).get? name, (snapshotWorkspace after root).get? name with
  | none, none => .absent
  | none, some new => if new.kind = "dir" then .addedDir else .addedFile
  | some old, none => if old.kind = "dir" then .removedDir else .removedFile
  | some old, some new => if old.kind = "file" ∧ new.kind = "file" ∧ old ≠ new then .changed else .kept

end

section
variable {t before after : Disk} {root q q' : Path} {name : String} {s s' : Snapshot} {dirs : Bool}

theorem mem_keysBut : name ∈ s.keysBut s' dirs ↔
    ∃ state, s.get? name = some state ∧ s'.get? name = none ∧ (state.kind == "dir") = dirs := by
  rw [Snapshot.keysBut, List.mem_map]
  constructor
  · rintro ⟨e, he, rfl⟩
    obtain ⟨hmem, hkept⟩ := List.mem_filter.mp he
    rw [Bool.and_eq_true, Option.isNone_iff_eq_none, beq_iff_eq] at hkept
    exact ⟨e.2, Table.mem_entries.mp hmem, hkept⟩
  · rintro ⟨state, hget, hnone, hdirs⟩
    refine ⟨(name, state), List.mem_filter.mpr ⟨Table.mem_entries.mpr hget, ?_⟩, rfl⟩
    rw [Bool.and_eq_true, Option.isNone_iff_eq_none, beq_iff_eq]
    exact ⟨hnone, hdirs⟩

theorem mem_changedFiles : name ∈ (diffWorkspaceSnapshots s s').changedFiles ↔
    ∃ old new, s.get? name = some old ∧ s'.get? name = some new ∧
      old.kind = "file" ∧ new.kind = "file" ∧ old ≠ new := by
  unfold diffWorkspaceSnapshots
  dsimp only
  rw [List.mem_map]
  constructor
  · rintro ⟨e, he, rfl⟩
    obtain ⟨hmem, hkept⟩ := List.mem_filter.mp he
    cases hnew : s'.get? e.1 with
    | none =>
      rw [hnew] at hkept
      cases hkept
    | some new =>
      rw [hnew] at hkept
      exact ⟨e.2, new, Table.mem_entries.mp hmem, rfl, by simpa [and_assoc] using hkept⟩
  · rintro ⟨old, new, hold, hnew, hkept⟩
    refine ⟨(name, old), List.mem_filter.mpr ⟨Table.mem_entries.mpr hold, ?_⟩, rfl⟩
    dsimp only
    rw [hnew]
    simpa [and_assoc] using hkept

theorem mem_diff : (name ∈ (diffOf before after root).addedFiles ↔ verdict before after root name = .addedFile) ∧
    (name ∈ (diffOf before after root).removedFiles ↔ verdict before after root name = .removedFile) ∧
    (name ∈ (diffOf before after root).changedFiles ↔ verdict before after root name = .changed) ∧
    (name ∈ (diffOf before after root).addedDirs ↔ verdict before after root name = .addedDir) ∧
    (name ∈ (diffOf before after root).removedDirs ↔ verdict before after root name = .removedDir) := by
  have hadded (dirs : Bool) := @mem_keysBut name (snapshotWorkspace after root) (snapshotWorkspace before root) dirs
  have hremoved (dirs : Bool) := @mem_keysBut name (snapshotWorkspace before root) (snapshotWorkspace after root) dirs
  refine ⟨(hadded false).trans ?_, (hremoved false).trans ?_, mem_changedFiles.trans ?_, (hadded true).trans ?_,
    (hremoved true).trans ?_⟩
  all_goals
    unfold verdict
    cases (snapshotWorkspace before root).get? name <;> cases (snapshotWorkspace after root).get? name
    all_goals simp
    all_goals split <;> decide

theorem Visible.congr {t' : Disk} (h : Visible t root q) (hentry : t'.entry q ≠ none) : Visible t' root q :=
  ⟨h.below, h.proper, h.shown, hentry⟩

theorem Seen.visible (h : Seen before after root q) (hentry : t.entry q ≠ none) : Visible t root q :=
  h.elim (·.congr hentry) (·.congr hentry)

theorem get?_of_visible (h : Visible t root q) : (snapshotWorkspace t root).get? (zipName root q) ≠ none := by
  rw [get?_snapshot, Ne, Option.map_eq_none_iff, List.getLast?_eq_none_iff]
  exact List.ne_nil_of_mem (mem_named.mpr ⟨h, rfl⟩)

theorem entry_of_get? (h : Seen before after root q) (hnone : (snapshotWorkspace t root).get? (zipName root q) = none) :
    t.entry q = none := by
  by_contra hentry
  exact get?_of_visible (h.visible hentry) hnone

theorem verdict_fits (h : Seen before after root q) :
    verdict before after root (zipName root q) ≠ .absent ∧ verdict before after root (zipName root q) ≠ .turned ∧
    (verdict before after root (zipName root q) = .addedFile ∨ verdict before after root (zipName root q) = .addedDir →
      before.entry q = none) ∧
    (verdict before after root (zipName root q) = .removedFile ∨
      verdict before after root (zipName root q) = .removedDir → after.entry q = none) := by
  have hbefore := @entry_of_get? before before after root q h
  have hafter := @entry_of_get? after before after root q h
  have hseen : before.entry q ≠ none ∨ after.entry q ≠ none := h.imp Visible.entry Visible.entry
  unfold verdict
  cases hold : (snapshotWorkspace before root).get? (zipName root q) <;>
    cases hnew : (snapshotWorkspace after root).get? (zipName root q)
  · exact absurd hseen (by simp [hbefore hold, hafter hnew])
  · dsimp only
    split <;> simp [hbefore hold]
  · dsimp only
    split <;> simp [hafter hnew]
  · dsimp only
    split <;> simp

theorem clauses_iff (h : Seen before after root q) :
    ((after.fileAt q ≠ none ↔ before.fileAt q ≠ none ∧ zipName root q ∉ (diffOf before after root).removedFiles ∨
        zipName root q ∈ (diffOf before after root).addedFiles) ∧
      (after.entry q = some .dir ↔ before.entry q = some .dir ∧
        zipName root q ∉ (diffOf before after root).removedDirs ∨
          zipName root q ∈ (diffOf before after root).addedDirs) ∧
      (zipName root q ∈ (diffOf before after root).changedFiles ↔
        ∃ old new, before.fileAt q = some old ∧ after.fileAt q = some new ∧ old ≠ new)) ↔
      fate before after q = verdict before after root (zipName root q) := by
  obtain ⟨haddedFiles, hremovedFiles, hchanged, haddedDirs, hremovedDirs⟩ :=
    @mem_diff before after root (zipName root q)
  have hseen : before.entry q ≠ none ∨ after.entry q ≠ none := h.imp Visible.entry Visible.entry
  have hfits := verdict_fits h
  rw [haddedFiles, hremovedFiles, hchanged, haddedDirs, hremovedDirs]
  unfold Tree.fileAt fate
  clear haddedFiles hremovedFiles hchanged haddedDirs hremovedDirs
  generalize verdict before after root (zipName root q) = said, before.entry q = old, after.entry q = new at *
  -- the pairs of entries that fit each verdict
  rcases old with _ | (old | _) <;> rcases new with _ | (new | _) <;> cases said <;> simp_all

theorem accounts_iff_verdict : Accounts before after root ↔
    ∀ q, Seen before after root q → fate before after q = verdict before after root (zipName root q) := by
  constructor
  · exact fun haccounts q hq =>
      (clauses_iff hq).mp ⟨haccounts.files q hq, haccounts.dirs q hq, haccounts.changed q hq⟩
  · intro h
    exact ⟨fun q hq => ((clauses_iff hq).mpr (h q hq)).1, fun q hq => ((clauses_iff hq).mpr (h q hq)).2.1,
      fun q hq => ((clauses_iff hq).mpr (h q hq)).2.2⟩

/-! ## paths with one name -/

/-- what stands at a path of each fate -/
def FateFits (before after : Option (Entry Bytes)) : Fate → Prop
  | .absent => before = none ∧ after = none
  | .addedFile => before = none ∧ ∃ new, after = some (.file new)
  | .addedDir => before = none ∧ after = some .dir
  | .removedFile => (∃ old, before = some (.file old)) ∧ after = none
  | .removedDir => before = some .dir ∧ after = none
  | .changed => ∃ old new, before = some (.file old) ∧ after = some (.file new) ∧ old ≠ new
  | .kept => before = after ∧ before ≠ none
  | .turned => before ≠ none ∧ after ≠ none ∧ before ≠ after

theorem fits_fate (before after : Disk) (q : Path) : FateFits (before.entry q) (after.entry q)
    (fate before after q) := by
  unfold fate
  rcases before.entry q with _ | (old | _) <;> rcases after.entry q with _ | (new | _)
  case some.file.some.file =>
    dsimp only
    split
    · next hsame => exact ⟨by rw [hsame], Option.some_ne_none _⟩
    · next hother => exact ⟨old, new, rfl, rfl, hother⟩
  all_goals simp [FateFits]

theorem exists_last (h : q ∈ named t root name) :
    ∃ last ∈ named t root name, (named t root name).getLast? = some last ∧ ∀ q' ∈ named t root name, q' ≤ last := by
  obtain ⟨front, last, hsplit⟩ := (List.eq_nil_or_concat' (named t root name)).resolve_left (List.ne_nil_of_mem h)
  have hsorted := @pairwise_named t root name
  rw [hsplit] at hsorted ⊢
  refine ⟨last, List.mem_append_right _ (List.mem_singleton_self last), List.getLast?_concat, fun q' hq' => ?_⟩
  rcases List.mem_append.mp hq' with hq' | hq'
  · exact ((List.pairwise_append.mp hsorted).2.2 q' hq' last (List.mem_singleton_self last)).le
  · exact (List.mem_singleton.mp hq').le

theorem Seen.exists_last (h : Seen before after root q) (hentry : t.entry q ≠ none) :
    ∃ last ∈ named t root (zipName root q), (named t root (zipName root q)).getLast? = some last ∧
      ∀ q' ∈ named t root (zipName root q), q' ≤ last :=
  Os.exists_last (mem_named.mpr ⟨h.visible hentry, rfl⟩)

theorem get?_of_last (h : (named t root name).getLast? = some q) :
    (snapshotWorkspace t root).get? name = some (stateOf t q) := by
  rw [get?_snapshot, h]
  rfl

theorem get?_none (h : ∀ q ∈ named t root name, t.entry q = none) : (snapshotWorkspace t root).get? name = none := by
  have hnil : named t root name = [] :=
    List.eq_nil_iff_forall_not_mem.mpr fun q hq => (mem_named.mp hq).1.entry (h q hq)
  rw [get?_snapshot, hnil]
  rfl

theorem named_eq (h : ∀ q, Seen before after root q → zipName root q = name →
    before.entry q ≠ none ∧ after.entry q ≠ none) : named before root name = named after root name := by
  refine List.Pairwise.eq_of_mem_iff pairwise_named pairwise_named fun q => ⟨fun hq => ?_, fun hq => ?_⟩
  · obtain ⟨hvisible, hname⟩ := mem_named.mp hq
    exact mem_named.mpr ⟨hvisible.congr (h q (Or.inl hvisible) hname).2, hname⟩
  · obtain ⟨hvisible, hname⟩ := mem_named.mp hq
    exact mem_named.mpr ⟨hvisible.congr (h q (Or.inr hvisible) hname).1, hname⟩

theorem stateOf_file {bytes : Bytes} (h : t.entry q = some (.file bytes)) :
    stateOf t q = ⟨"file", bytes.length, fingerprintOf bytes⟩ := by
  rw [stateOf, h]

theorem stateOf_dir (h : t.entry q = some .dir) : stateOf t q = ⟨"dir", 0, "dir"⟩ := by
  rw [stateOf, h]

/-- **a diff says of a name what became of its paths**, if that can be told -/
theorem verdict_of_told (h : Told before after root) (hq : Seen before after root q) :
    fate before after q = verdict before after root (zipName root q) := by
  have halike : ∀ q', Seen before after root q' → zipName root q' = zipName root q →
      FateFits (before.entry q') (after.entry q') (fate before after q) := by
    intro q' hseen hname
    rw [h.alike q q' hq hseen hname.symm]
    exact fits_fate before after q'
  have hbefore : ∀ q' ∈ named before root (zipName root q),
      FateFits (before.entry q') (after.entry q') (fate before after q) :=
    fun q' hq' => halike q' (Or.inl (mem_named.mp hq').1) (mem_named.mp hq').2
  have hafter : ∀ q' ∈ named after root (zipName root q),
      FateFits (before.entry q') (after.entry q') (fate before after q) :=
    fun q' hq' => halike q' (Or.inr (mem_named.mp hq').1) (mem_named.mp hq').2
  have hself := fits_fate before after q
  have hkinds := h.kinds q hq
  cases hfate : fate before after q <;> rw [hfate] at hself halike hbefore hafter hkinds <;> unfold verdict
  case absent =>
    rcases hq with hv | hv
    · exact absurd hself.1 hv.entry
    · exact absurd hself.2 hv.entry
  case turned => exact absurd rfl hkinds
  case addedFile =>
    obtain ⟨-, new, hnew⟩ := hself
    obtain ⟨last, hmem, hlast, -⟩ := hq.exists_last (t := after) (by rw [hnew]; exact Option.some_ne_none _)
    obtain ⟨-, lastNew, hlastNew⟩ := hafter last hmem
    rw [get?_none fun q' hq' => (hbefore q' hq').1, get?_of_last hlast, stateOf_file hlastNew]
    rfl
  case addedDir =>
    obtain ⟨last, hmem, hlast, -⟩ := hq.exists_last (t := after) (by rw [hself.2]; exact Option.some_ne_none _)
    rw [get?_none fun q' hq' => (hbefore q' hq').1, get?_of_last hlast, stateOf_dir (hafter last hmem).2]
    rfl
  case removedFile =>
    obtain ⟨⟨old, hold⟩, -⟩ := hself
    obtain ⟨last, hmem, hlast, -⟩ := hq.exists_last (t := before) (by rw [hold]; exact Option.some_ne_none _)
    obtain ⟨⟨lastOld, hlastOld⟩, -⟩ := hbefore last hmem
    have hnone := @get?_none after root (zipName root q) fun q' hq' => (hafter q' hq').2
    rw [hnone, get?_of_last hlast, stateOf_file hlastOld]
    rfl
  case removedDir =>
    obtain ⟨last, hmem, hlast, -⟩ := hq.exists_last (t := before) (by rw [hself.1]; exact Option.some_ne_none _)
    have hnone := @get?_none after root (zipName root q) fun q' hq' => (hafter q' hq').2
    rw [hnone, get?_of_last hlast, stateOf_dir (hbefore last hmem).1]
    rfl
  case changed =>
    have hstand : ∀ q', Seen before after root q' → zipName root q' = zipName root q →
        before.entry q' ≠ none ∧ after.entry q' ≠ none := by
      intro q' hseen hname
      obtain ⟨old, new, hold, hnew, -⟩ := halike q' hseen hname
      rw [hold, hnew]
      exact ⟨Option.some_ne_none _, Option.some_ne_none _⟩
    obtain ⟨last, hmem, hlast, hgreatest⟩ := hq.exists_last (t := before) (hstand q hq rfl).1
    have hlastAfter := hlast
    rw [named_eq hstand] at hlastAfter
    obtain ⟨old, new, hold, hnew, hne⟩ := hbefore last hmem
    obtain ⟨hvisible, hname⟩ := mem_named.mp hmem
    have hshown := h.shown last old new hvisible (Tree.fileAt_eq_some.mpr hold) (Tree.fileAt_eq_some.mpr hnew) hne
      fun q' hseen hname' => hgreatest q' (mem_named.mpr
        ⟨hseen.visible (hstand q' hseen (hname'.trans hname)).1, hname'.trans hname⟩)
    rw [get?_of_last hlast, get?_of_last hlastAfter, stateOf_file hold, stateOf_file hnew]
    refine (if_pos ⟨rfl, rfl, fun hsame => ?_⟩).symm
    rw [WorkspaceEntryState.mk.injEq] at hsame
    exact hshown.elim (fun hlength => hlength hsame.2.1) fun hprint => hprint hsame.2.2
  case kept =>
    have hstand : ∀ q', Seen before after root q' → zipName root q' = zipName root q →
        before.entry q' ≠ none ∧ after.entry q' ≠ none := by
      intro q' hseen hname
      obtain ⟨hsame, hentry⟩ := halike q' hseen hname
      exact ⟨hentry, hsame ▸ hentry⟩
    obtain ⟨last, hmem, hlast, -⟩ := hq.exists_last (t := before) (hstand q hq rfl).1
    have hlastAfter := hlast
    rw [named_eq hstand] at hlastAfter
    have hstate : stateOf before last = stateOf after last := by
      rw [stateOf, stateOf, (hbefore last hmem).1]
    rw [get?_of_last hlast, get?_of_last hlastAfter, hstate]
    exact (if_neg fun hboth => hboth.2.2 rfl).symm

theorem told_of_verdict (h : ∀ q, Seen before after root q →
    fate before after q = verdict before after root (zipName root q)) : Told before after root where
  kinds := fun q hq => by
    rw [h q hq]
    exact (verdict_fits hq).2.1
  alike := fun q q' hq hq' hname => by rw [h q hq, h q' hq', hname]
  shown := by
    intro q old new hvisible hold hnew hne hgreatest
    have hfate : fate before after q = .changed := by
      rw [fate, Tree.fileAt_eq_some.mp hold, Tree.fileAt_eq_some.mp hnew]
      exact if_neg hne
    have hverdict := h q (Or.inl hvisible)
    rw [hfate] at hverdict
    have hstand : ∀ q', Seen before after root q' → zipName root q' = zipName root q →
        before.entry q' ≠ none ∧ after.entry q' ≠ none := by
      intro q' hseen hname
      have hfits := fits_fate before after q'
      rw [h q' hseen, hname, ← hverdict] at hfits
      obtain ⟨old', new', hold', hnew', -⟩ := hfits
      rw [hold', hnew']
      exact ⟨Option.some_ne_none _, Option.some_ne_none _⟩
    obtain ⟨last, hmem, hlast, hlastGreatest⟩ := exists_last (mem_named.mpr ⟨hvisible, rfl⟩)
    obtain rfl : last = q := le_antisymm
      (hgreatest last (Or.inl (mem_named.mp hmem).1) (mem_named.mp hmem).2)
      (hlastGreatest q (mem_named.mpr ⟨hvisible, rfl⟩))
    have hlastAfter := hlast
    rw [named_eq hstand] at hlastAfter
    rw [verdict, get?_of_last hlast, get?_of_last hlastAfter, stateOf_file (Tree.fileAt_eq_some.mp hold),
      stateOf_file (Tree.fileAt_eq_some.mp hnew)] at hverdict
    by_contra hhidden
    rw [not_or, not_not, not_not] at hhidden
    rw [hhidden.1, hhidden.2] at hverdict
    have hkept : Fate.changed = Fate.kept := hverdict.trans (if_neg fun hboth => hboth.2.2 rfl)
    cases hkept

/-- **the diff accounts for all that changed exactly when** no path changes its kind, paths with one reported name share
their fate, and changed files show it in their length or fingerprint -/
theorem accounts_iff : Accounts before after root ↔ Told before after root :=
  accounts_iff_verdict.trans ⟨told_of_verdict, fun h _ => verdict_of_told h⟩

end

/-! ## changes that a diff does not tell -/

def fileA (bytes : Bytes) : Disk := (Tree.empty : Disk).put ["a"] bytes (by decide) (by decide) (by decide)

def dirA : Disk := (Tree.empty : Disk).mkdirs ["a"]

/-- two contents with one fingerprint -/
def contentOld : Bytes := utf8 "8yn0iYCKYHlIj4-BwPqk"

def contentNew : Bytes := utf8 "GReLUrM4wMqfg9yzV3KQ"

theorem visible_a {t : Disk} (h : t.entry ["a"] ≠ none) : Visible t [] ["a"] :=
  ⟨List.nil_prefix, by decide, by decide, h⟩

theorem eq_of_visible_fileA {q : Path} {bytes : Bytes} (h : Visible (fileA bytes) [] q) : q = ["a"] := by
  by_contra hne
  have hentry : (fileA bytes).entry q = none := (if_neg hne).trans (if_neg h.proper)
  exact h.entry hentry

/-- a file that becomes a directory is in no list; and another content with the same length and fingerprint is not -/
theorem diff_silent : ¬ Accounts (fileA []) dirA [] ∧ ¬ Accounts (fileA contentOld) (fileA contentNew) [] := by
  constructor
  · intro haccounts
    exact (accounts_iff.mp haccounts).kinds ["a"] (Or.inl (visible_a (by decide))) (by decide)
  · intro haccounts
    have hprint : fingerprintOf contentOld = fingerprintOf contentNew := by decide +kernel
    have hlength : contentOld.length = contentNew.length := by decide +kernel
    rcases (accounts_iff.mp haccounts).shown ["a"] contentOld contentNew (visible_a (by decide)) (by rfl) (by rfl)
      (by decide +kernel) fun q hseen _ =>
        (hseen.elim eq_of_visible_fileA eq_of_visible_fileA).le with hother | hother
    · exact hother hlength
    · exact hother hprint

end Os

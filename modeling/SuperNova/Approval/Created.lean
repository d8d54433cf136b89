import SuperNova.Approval.Calls

/-!
# What a created preview records

The operations of a created preview are normalized, so the event that records them yields them again,
and a token can always be issued from it.

* `createPreviewTx_ok`: the operations are normalized and there are some;
* `previewOperations_toJson`: the event yields the operations;
* `tokenFor_created`: the token that is issued from the event.
-/

set_option linter.unusedSectionVars false

namespace Approval

open Text Workspace Os FileTree

/-! ## normalized scopes -/

/-- an item as `normalize_preview_scope` leaves it -/
structure CleanItem (item : String) : Prop where
  separated : normalizePath item = item
  trimmed : trim item = item
  ne : item ≠ ""
  explicit : item ≠ "*"

theorem not_mem_normalizePath (item : String) : '\\' ∉ (normalizePath item).toList := by
  intro h
  rw [normalizePath, replaceChar, toList_mapChars] at h
  obtain ⟨c, -, hc⟩ := List.mem_map.mp h
  by_cases hslash : c = '\\'
  · rw [if_pos hslash] at hc
    exact absurd hc (by decide)
  · rw [if_neg hslash] at hc
    exact hslash hc

theorem cleanItem_of {item : String} (hne : trim (normalizePath item) ≠ "")
    (hstar : trim (normalizePath item) ≠ "*") : CleanItem (trim (normalizePath item)) where
  separated := normalizePath_of_separated fun h => not_mem_normalizePath item (mem_of_mem_trim h)
  trimmed := trim_trim _
  ne := hne
  explicit := hstar

theorem CleanItem.normal {item : String} (h : CleanItem item) : trim (normalizePath item) = item := by
  rw [h.separated, h.trimmed]

/-! ## texts that are kept once -/

section
variable {α : Type} {text : α → String} {seen : List String} {item : α} {items : List α} {x : String}

theorem kept_skip (h : text item = "" ∨ text item ∈ seen) :
    (x ∈ seen ∨ x ≠ "" ∧ ∃ found ∈ items, text found = x) ↔
      x ∈ seen ∨ x ≠ "" ∧ ∃ found ∈ item :: items, text found = x := by
  constructor
  · rintro (hx | ⟨hne, found, hfound, hx⟩)
    · exact Or.inl hx
    · exact Or.inr ⟨hne, found, List.mem_cons_of_mem _ hfound, hx⟩
  · rintro (hx | ⟨hne, found, hfound, rfl⟩)
    · exact Or.inl hx
    · rcases List.mem_cons.mp hfound with rfl | hfound
      · exact Or.inl (h.resolve_left hne)
      · exact Or.inr ⟨hne, found, hfound, rfl⟩

theorem kept_add (h : ¬ (text item = "" ∨ text item ∈ seen)) :
    (x ∈ seen ++ [text item] ∨ x ≠ "" ∧ ∃ found ∈ items, text found = x) ↔
      x ∈ seen ∨ x ≠ "" ∧ ∃ found ∈ item :: items, text found = x := by
  constructor
  · rintro (hx | ⟨hne, found, hfound, hx⟩)
    · rcases List.mem_append.mp hx with hx | hx
      · exact Or.inl hx
      · rw [List.mem_singleton] at hx
        exact Or.inr ⟨fun e => h (Or.inl (hx.symm.trans e)), item, List.mem_cons_self, hx.symm⟩
    · exact Or.inr ⟨hne, found, List.mem_cons_of_mem _ hfound, hx⟩
  · rintro (hx | ⟨hne, found, hfound, rfl⟩)
    · exact Or.inl (List.mem_append_left _ hx)
    · rcases List.mem_cons.mp hfound with rfl | hfound
      · exact Or.inl (List.mem_append_right _ (List.mem_singleton_self _))
      · exact Or.inr ⟨hne, found, hfound, rfl⟩

end

/-! ## scopes -/

section
variable {field : String} {out : List String}

theorem normalizeItems_ok {items : List String} : ∀ {normalized : List String},
    normalizeItems field normalized items = .ok out →
      (∀ item ∈ items, trim (normalizePath item) ≠ "*") ∧
        ∀ x, x ∈ out ↔ x ∈ normalized ∨ x ≠ "" ∧ ∃ item ∈ items, trim (normalizePath item) = x := by
  induction items with
  | nil =>
    intro normalized h
    cases h
    simp
  | cons item items ih =>
    intro normalized h
    rw [normalizeItems] at h
    split at h
    · cases h
    rename_i hstar
    split at h
    · rename_i hskip
      obtain ⟨hstars, hout⟩ := ih h
      exact ⟨by simpa using ⟨hstar, hstars⟩, fun x => (hout x).trans
        (@kept_skip _ (fun item => trim (normalizePath item)) _ _ _ _ hskip)⟩
    · rename_i hkeep
      obtain ⟨hstars, hout⟩ := ih h
      exact ⟨by simpa using ⟨hstar, hstars⟩, fun x => (hout x).trans
        (@kept_add _ (fun item => trim (normalizePath item)) _ _ _ _ hkeep)⟩

theorem normalizeItems_total {items : List String} : ∀ {normalized : List String},
    (∀ item ∈ items, trim (normalizePath item) ≠ "*") →
      ∃ out, normalizeItems field normalized items = .ok out := by
  induction items with
  | nil => exact fun _ => ⟨_, rfl⟩
  | cons item items ih =>
    intro normalized h
    rw [normalizeItems, if_neg (h item List.mem_cons_self)]
    split
    · exact ih fun found hfound => h found (List.mem_cons_of_mem _ hfound)
    · exact ih fun found hfound => h found (List.mem_cons_of_mem _ hfound)

theorem normalizePreviewScope_ok {items : List String}
    (h : normalizePreviewScope field items = .ok out) :
    out ≠ [] ∧ (∀ x ∈ out, CleanItem x) ∧
      ∀ x, x ∈ out ↔ x ≠ "" ∧ ∃ item ∈ items, trim (normalizePath item) = x := by
  obtain ⟨normalized, hitems, hout⟩ := Io.result_bind_ok.mp h
  obtain ⟨hstars, hmem⟩ := normalizeItems_ok hitems
  split at hout
  · cases hout
  rename_i hne
  cases hout
  have hmem' : ∀ x, x ∈ out ↔ x ≠ "" ∧ ∃ item ∈ items, trim (normalizePath item) = x := by
    intro x
    rw [hmem x]
    simp
  refine ⟨hne, fun x hx => ?_, hmem'⟩
  obtain ⟨hx, item, hitem, rfl⟩ := (hmem' x).mp hx
  exact cleanItem_of hx (hstars item hitem)

end

/-! ## normalized operations -/

/-- an operation as `normalize_executable_operations` leaves it -/
structure Normalized (op : ExecutablePreviewOperation) : Prop where
  trimmed : trim op.capabilityId = op.capabilityId
  named : op.capabilityId ≠ ""
  clean : ∀ path ∈ op.targetPaths, CleanItem path
  targeted : op.targetPaths ≠ []

theorem normalizeOperation_ok {op op' : ExecutablePreviewOperation}
    (h : normalizeOperation op = .ok op') : Normalized op' := by
  unfold normalizeOperation at h
  dsimp only at h
  split at h
  · cases h
  rename_i hnamed
  obtain ⟨paths, hpaths, hop⟩ := Io.result_bind_ok.mp h
  obtain ⟨hne, hclean, -⟩ := normalizePreviewScope_ok hpaths
  cases hop
  exact ⟨trim_trim _, fun e => hnamed (Or.inl e), hclean, hne⟩

theorem of_mem_mapM {α β ε : Type} {f : α → Except ε β} {l : List α} : ∀ {l' : List β},
    l.mapM f = .ok l' → l'.length = l.length ∧ ∀ b ∈ l', ∃ a ∈ l, f a = .ok b := by
  induction l with
  | nil =>
    intro l' h
    cases h
    simp
  | cons a l ih =>
    intro l' h
    rw [List.mapM_cons] at h
    obtain ⟨b, hb, hrest⟩ := Io.result_bind_ok.mp h
    obtain ⟨rest, hl, hcons⟩ := Io.result_bind_ok.mp hrest
    cases hcons
    obtain ⟨hlength, hmem⟩ := ih hl
    refine ⟨by simp [hlength], fun x hx => ?_⟩
    rcases List.mem_cons.mp hx with rfl | hx
    · exact ⟨a, List.mem_cons_self, hb⟩
    · obtain ⟨y, hy, hfy⟩ := hmem x hx
      exact ⟨y, List.mem_cons_of_mem _ hy, hfy⟩

structure Operations (operations : List ExecutablePreviewOperation) : Prop where
  some : operations ≠ []
  normalized : ∀ op ∈ operations, Normalized op

theorem normalizeExecutableOperations_ok {operations normalized : List ExecutablePreviewOperation}
    (h : normalizeExecutableOperations operations = .ok normalized) : Operations normalized := by
  unfold normalizeExecutableOperations at h
  split at h
  · cases h
  rename_i hne
  obtain ⟨hlength, hmem⟩ := of_mem_mapM h
  refine ⟨fun e => ?_, fun op hop => ?_⟩
  · rw [e] at hlength
    exact hne (List.isEmpty_iff_length_eq_zero.mpr hlength.symm)
  · obtain ⟨given, -, hgiven⟩ := hmem op hop
    exact normalizeOperation_ok hgiven

section
variable {operations : List ExecutablePreviewOperation}

theorem mem_capabilityIdsFrom {x : String} : ∀ {seen : List String},
    x ∈ capabilityIdsFrom seen operations ↔
      x ∈ seen ∨ x ≠ "" ∧ ∃ op ∈ operations, trim op.capabilityId = x := by
  induction operations with
  | nil => simp [capabilityIdsFrom]
  | cons op operations ih =>
    intro seen
    rw [capabilityIdsFrom]
    split
    · rename_i hskip
      rw [ih]
      exact @kept_skip _ (fun op : ExecutablePreviewOperation => trim op.capabilityId) _ _ _ _ hskip
    · rename_i hkeep
      rw [ih]
      exact @kept_add _ (fun op : ExecutablePreviewOperation => trim op.capabilityId) _ _ _ _ hkeep

theorem mem_operationCapabilityIds (h : Operations operations) {x : String} :
    x ∈ operationCapabilityIds operations ↔ ∃ op ∈ operations, op.capabilityId = x := by
  rw [operationCapabilityIds, mem_capabilityIdsFrom]
  constructor
  · rintro (hx | ⟨-, op, hop, hx⟩)
    · cases hx
    · exact ⟨op, hop, (h.normalized op hop).trimmed ▸ hx⟩
  · rintro ⟨op, hop, rfl⟩
    exact Or.inr ⟨(h.normalized op hop).named, op, hop, (h.normalized op hop).trimmed⟩

theorem operationCapabilityIds_ne (h : Operations operations) :
    operationCapabilityIds operations ≠ [] := by
  obtain ⟨op, hop⟩ := List.exists_mem_of_ne_nil _ h.some
  exact List.ne_nil_of_mem ((mem_operationCapabilityIds h).mpr ⟨op, hop, rfl⟩)

theorem mem_operationTargetPaths (h : Operations operations) {x : String} :
    x ∈ operationTargetPaths operations ↔ ∃ op ∈ operations, x ∈ op.targetPaths := by
  have hclean : ∀ item ∈ operations.flatMap (·.targetPaths), CleanItem item := by
    intro item hitem
    obtain ⟨op, hop, hitem⟩ := List.mem_flatMap.mp hitem
    exact (h.normalized op hop).clean item hitem
  obtain ⟨op, hop⟩ := List.exists_mem_of_ne_nil _ h.some
  obtain ⟨path, hpath⟩ := List.exists_mem_of_ne_nil _ (h.normalized op hop).targeted
  have hfirst : path ∈ operations.flatMap (·.targetPaths) := List.mem_flatMap.mpr ⟨op, hop, hpath⟩
  have hstars : ∀ item ∈ operations.flatMap (·.targetPaths), trim (normalizePath item) ≠ "*" := by
    intro item hitem
    rw [(hclean item hitem).normal]
    exact (hclean item hitem).explicit
  obtain ⟨out, hout⟩ : ∃ out, normalizeItems "target_paths" []
      (operations.flatMap (·.targetPaths)) = .ok out := normalizeItems_total hstars
  obtain ⟨-, hmem⟩ := normalizeItems_ok hout
  have hmem' : ∀ x, x ∈ out ↔ ∃ op ∈ operations, x ∈ op.targetPaths := by
    intro x
    rw [hmem x]
    constructor
    · rintro (hx | ⟨-, item, hitem, hx⟩)
      · cases hx
      · rw [(hclean item hitem).normal] at hx
        exact List.mem_flatMap.mp (hx ▸ hitem)
    · rintro hx
      have hitem := List.mem_flatMap.mpr hx
      exact Or.inr ⟨(hclean x hitem).ne, x, hitem, (hclean x hitem).normal⟩
  have hne : out ≠ [] := List.ne_nil_of_mem ((hmem' path).mpr ⟨op, hop, hpath⟩)
  have hscope : normalizePreviewScope "target_paths" (operations.flatMap (·.targetPaths)) =
      .ok out := by
    rw [normalizePreviewScope, hout]
    exact if_neg hne
  rw [operationTargetPaths, hscope]
  exact hmem' x

theorem operationTargetPaths_ne (h : Operations operations) :
    operationTargetPaths operations ≠ [] := by
  obtain ⟨op, hop⟩ := List.exists_mem_of_ne_nil _ h.some
  obtain ⟨path, hpath⟩ := List.exists_mem_of_ne_nil _ (h.normalized op hop).targeted
  exact List.ne_nil_of_mem ((mem_operationTargetPaths h).mpr ⟨op, hop, hpath⟩)

end

/-! ## reading the operations back -/

theorem scopeOf_str {items : List String} (h : ∀ item ∈ items, CleanItem item) :
    scopeOf (some (.arr (items.map .str))) = items := by
  show valuesToStrings (items.map .str) = items
  rw [valuesToStrings, List.filterMap_map]
  have hread : items.filterMap (Json.asStr? ∘ Json.str) = items := List.filterMap_some
  rw [hread]
  have hsep : items.map normalizePath = items := by
    rw [List.map_congr_left fun item hitem => (h item hitem).separated]
    exact List.map_id' _
  rw [hsep, List.filter_eq_self]
  intro item hitem
  rw [blank_of_trimmed (h item hitem).trimmed (h item hitem).ne]
  rfl

theorem previewOperation_toJson {op : ExecutablePreviewOperation} (h : Normalized op) :
    previewOperation op.toJson = some op := by
  have hpaths := scopeOf_str h.clean
  have hpolicy : op.toJson.strAt? "rollback_policy" = op.rollbackPolicy := by
    cases op with
    | mk _ _ _ _ policy => cases policy <;> rfl
  show some (ExecutablePreviewOperation.mk op.capabilityId op.arguments
    (scopeOf (some (.arr (op.targetPaths.map .str)))) op.humanDescription
    (op.toJson.strAt? "rollback_policy")) = _
  rw [hpaths, hpolicy]

theorem previewOperations_toJson {p : PreviewTx} (h : Operations p.executableOperations) :
    previewOperations p.toJson = some p.executableOperations := by
  show ((p.executableOperations.map (·.toJson)).mapM previewOperation) = _
  have hread : ∀ operations : List ExecutablePreviewOperation, (∀ op ∈ operations, Normalized op) →
      (operations.map (·.toJson)).mapM previewOperation = some operations := by
    intro operations
    induction operations with
    | nil => exact fun _ => rfl
    | cons op operations ih =>
      intro hops
      rw [List.map_cons, List.mapM_cons, previewOperation_toJson (hops op List.mem_cons_self),
        ih fun other hother => hops other (List.mem_cons_of_mem _ hother)]
      rfl
  exact hread _ h.normalized

/-! ## created previews and their tokens -/

theorem createPreviewTx_ok {jobId previewMarkdown riskLevel : String} {previewMs txMs : Nat}
    {operations : List ExecutablePreviewOperation} {p : PreviewTx}
    (h : createPreviewTx jobId previewMs txMs previewMarkdown operations riskLevel = .ok p) :
    Operations p.executableOperations ∧ p.previewId = "preview_" ++ toString previewMs ∧
      p.txId = "preview_tx_" ++ toString txMs := by
  obtain ⟨normalized, hnormalized, hp⟩ := Io.result_bind_ok.mp h
  cases hp
  exact ⟨normalizeExecutableOperations_ok hnormalized, rfl, rfl⟩

def tokenOf (render : Json → Bytes) (tokenMs expiresMs : Nat) (p : PreviewTx) (approvalNote : String) :
    ApprovalTokenRecord where
  approvalTokenId := "approval_" ++ safeBlobName p.previewId ++ "_" ++ toString tokenMs
  txId := p.txId
  previewId := p.previewId
  approvedOperationScope := operationCapabilityIds p.executableOperations
  approvedActionScope := operationCapabilityIds p.executableOperations
  approvedPathScope := operationTargetPaths p.executableOperations
  allowedOpsHash := approvalScopeHash render p.toJson
  expiresAtMs := expiresMs + 24 * 60 * 60 * 1000
  approvalNote := approvalNote

theorem tokenFor_created (render : Json → Bytes) (tokenMs expiresMs : Nat) {p : PreviewTx}
    (approvalNote : String) (h : Operations p.executableOperations) :
    tokenFor render tokenMs expiresMs p.toJson approvalNote =
      .ok (tokenOf render tokenMs expiresMs p approvalNote) := by
  have hscope {key : String} {scope : List ExecutablePreviewOperation → List String}
      (hne : scope p.executableOperations ≠ []) :
      scopeOrField p.toJson key scope = some (scope p.executableOperations) := by
    rw [scopeOrField, previewOperations_toJson h]
    cases hitems : scope p.executableOperations with
    | nil => exact absurd hitems hne
    | cons item items => simp only [Option.map_some, hitems]
  have hrequired {items : List String} (hne : items ≠ []) (message : String) :
      scopeRequired (some items) message = .ok items := by
    cases items with
    | nil => exact absurd rfl hne
    | cons item items => rfl
  rw [tokenFor, previewOperationCapabilityIds, previewOperationTargetPaths,
    hscope (operationCapabilityIds_ne h), hscope (operationTargetPaths_ne h),
    hrequired (operationCapabilityIds_ne h), hrequired (operationTargetPaths_ne h)]
  rfl

end Approval

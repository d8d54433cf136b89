import SuperNova.Packs.Recent

/-!
# Cycles of saving and materializing a context pack

The product keeps packs whose items name their kinds by strings; the kernel adds the recent items of the
timeline.  What the kernel added is told from what the user selected by its priority and kind, and taken out
again before a pack is saved or shown.

* `selection_kept_iff` (**main**): what the user selected comes back from every materializing and from every
  sequence of cycles, exactly when none of it looks like an added item and all kinds and modes are known;
* `stripped_of_materialized`: nothing that was added is left;
* `selected_artifact_lost`: a selected artifact of priority 50.
-/

set_option linter.unusedSectionVars false

namespace Packs

open Picked

/-! ## packs of the product -/

structure ContextPackItem where
  itemKind : String
  refId : String
  label : Option String
  includeMode : String
  priority : UInt8
  deriving DecidableEq

structure ContextPack where
  contextPackId : String
  containerId : String
  selectedItems : List ContextPackItem
  excludedItems : List ContextPackItem
  autoPolicy : ContextPackAutoPolicy
  summaryRef : Option String
  estimatedTokens : Option UInt64
  deriving DecidableEq

def itemKind (value : String) : ContextPackItemKind :=
  if value = "chat_turn" then .chatTurn
  else if value = "chat_thread" then .chatThread
  else if value = "task_run" then .taskRun
  else if value = "task_artifact" then .taskArtifact
  else if value = "artifact" then .artifact
  else if value = "memory_summary" then .memorySummary
  else if value = "container_summary" then .containerSummary
  else .sourceRef

def itemKindStr : ContextPackItemKind → String
  | .chatTurn => "chat_turn"
  | .chatThread => "chat_thread"
  | .taskRun => "task_run"
  | .taskArtifact => "task_artifact"
  | .artifact => "artifact"
  | .sourceRef => "source_ref"
  | .memorySummary => "memory_summary"
  | .containerSummary => "container_summary"

def includeMode (value : String) : ContextPackIncludeMode :=
  if value = "full" then .full
  else if value = "metadata_only" then .metadataOnly
  else if value = "ref_only" then .refOnly
  else .summary

/-- `ContextPackIncludeMode::as_str` -/
def ContextPackIncludeMode.asStr : ContextPackIncludeMode → String
  | full => "full"
  | summary => "summary"
  | metadataOnly => "metadata_only"
  | refOnly => "ref_only"

def toKernelItem (item : ContextPackItem) : KernelContextPackItem :=
  ⟨itemKind item.itemKind, item.refId, item.label, includeMode item.includeMode, item.priority⟩

def fromKernelItem (item : KernelContextPackItem) : ContextPackItem :=
  ⟨itemKindStr item.itemKind, item.refId, item.label, item.includeMode.asStr, item.priority⟩

def toKernelContextPack (pack : ContextPack) : KernelContextPack where
  contextPackId := pack.contextPackId
  containerId := pack.containerId
  selectedItems := pack.selectedItems.map toKernelItem
  excludedItems := pack.excludedItems.map toKernelItem
  autoPolicy := pack.autoPolicy
  summaryRef := pack.summaryRef
  estimatedTokens := pack.estimatedTokens

def fromKernelContextPack (pack : KernelContextPack) : ContextPack where
  contextPackId := pack.contextPackId
  containerId := pack.containerId
  selectedItems := pack.selectedItems.map fromKernelItem
  excludedItems := pack.excludedItems.map fromKernelItem
  autoPolicy := pack.autoPolicy
  summaryRef := pack.summaryRef
  estimatedTokens := pack.estimatedTokens

/-! ## the service -/

/-- the kinds of the items that the kernel adds -/
def autoKinds : List String := ["chat_turn", "task_run", "artifact", "container_summary"]

def looksMaterialized (item : ContextPackItem) : Bool := item.priority == 50 && autoKinds.contains item.itemKind

def stripMaterializedAutoItems (pack : ContextPack) : ContextPack :=
  { pack with selectedItems := pack.selectedItems.filter fun item => !looksMaterialized item }

/-- `KernelBridge::materialize_context_pack` -/
def materializeContextPack (t : Timeline) (pack : ContextPack) : ContextPack :=
  fromKernelContextPack (materializeContextPackAutoItems t (toKernelContextPack pack))

/-- `KernelBridge::upsert_context_pack`, with the id that a pack without one gets -/
def upsertContextPack (newId : String) (pack : ContextPack) : ContextPack :=
  let pack := toKernelContextPack pack
  fromKernelContextPack (if Text.blank pack.contextPackId then { pack with contextPackId := newId } else pack)

/-- the packs of the product's database, in the order of their row ids -/
abbrev PackRows := List ContextPack

/-- `INSERT OR REPLACE`, which gives the row the greatest id -/
def saveContextPack (newId : String) (rows : PackRows) (pack : ContextPack) : PackRows :=
  let pack := if pack.contextPackId = "" then { pack with contextPackId := newId } else pack
  rows.filter (fun row => row.contextPackId ≠ pack.contextPackId) ++ [pack]

/-- `ContextPackService::current` -/
def current (rows : PackRows) (containerId : String) : ContextPack :=
  match (rows.filter fun row => row.containerId == containerId).getLast? with
  | some pack => stripMaterializedAutoItems pack
  | none => ⟨"", containerId, [], [], ⟨6, 3, true⟩, none, some 0⟩

/-- what a step takes from outside the product's database: the timeline, and an id for a new pack -/
structure Surroundings where
  timeline : Timeline
  newId : String

variable (estimate : ContextPack → UInt64)

/-- `ContextPackService::save`, with the kernel's estimate of a pack -/
def save (s : Surroundings) (rows : PackRows) (pack : ContextPack) : PackRows :=
  let pack := upsertContextPack s.newId (stripMaterializedAutoItems pack)
  let materialized := materializeContextPack s.timeline pack
  let pack := upsertContextPack s.newId { pack with estimatedTokens := some (estimate materialized) }
  saveContextPack s.newId rows pack

/-- a pack is loaded, materialized and saved, which strips it -/
def cycle (containerId : String) (rows : PackRows) (s : Surroundings) : PackRows :=
  save estimate s rows (materializeContextPack s.timeline (current rows containerId))

/-- what the user selected comes back from a materialized pack, and after the pack was saved from every
sequence of cycles -/
structure RoundTrips (pack : ContextPack) : Prop where
  intro ::
  stripped : ∀ t, (stripMaterializedAutoItems (materializeContextPack t pack)).selectedItems = pack.selectedItems
  cycles : ∀ (estimate : ContextPack → UInt64) (s : Surroundings) (rows : PackRows) (steps : List Surroundings),
    (current (steps.foldl (cycle estimate pack.containerId) (save estimate s rows pack))
      pack.containerId).selectedItems =
      pack.selectedItems

/-! ## items that keep -/

def knownKinds : List String :=
  ["chat_turn", "chat_thread", "task_run", "task_artifact", "artifact", "source_ref", "memory_summary",
    "container_summary"]

def knownModes : List String := ["full", "summary", "metadata_only", "ref_only"]

/-- an item that does not look added, of a kind and a mode that the kernel knows -/
structure Keeps (item : ContextPackItem) : Prop where
  intro ::
  notAuto : ¬ (item.priority = 50 ∧ item.itemKind ∈ autoKinds)
  kind : item.itemKind ∈ knownKinds
  mode : item.includeMode ∈ knownModes

section
variable {t : Timeline} {pack : ContextPack} {item : ContextPackItem} {rows : PackRows} {containerId newId : String}

/-- an item as it comes back from the kernel -/
def normal (item : ContextPackItem) : ContextPackItem := fromKernelItem (toKernelItem item)

theorem itemKindStr_itemKind (value : String) : itemKindStr (itemKind value) = value ↔ value ∈ knownKinds := by
  constructor
  · intro h
    rw [← h]
    cases itemKind value <;> decide
  · intro h
    have hall : knownKinds.all fun v => itemKindStr (itemKind v) == v := by decide
    exact beq_iff_eq.mp (List.all_eq_true.mp hall value h)

theorem asStr_includeMode (value : String) : (includeMode value).asStr = value ↔ value ∈ knownModes := by
  constructor
  · intro h
    rw [← h]
    cases includeMode value <;> decide
  · intro h
    have hall : knownModes.all fun v => (includeMode v).asStr == v := by decide
    exact beq_iff_eq.mp (List.all_eq_true.mp hall value h)

theorem normal_eq_iff : normal item = item ↔ item.itemKind ∈ knownKinds ∧ item.includeMode ∈ knownModes := by
  obtain ⟨kind, refId, label, mode, priority⟩ := item
  rw [← itemKindStr_itemKind, ← asStr_includeMode]
  constructor
  · intro h
    exact ⟨congrArg ContextPackItem.itemKind h, congrArg ContextPackItem.includeMode h⟩
  · rintro ⟨hkind, hmode⟩
    dsimp only at hkind hmode
    show ContextPackItem.mk (itemKindStr (itemKind kind)) refId label (includeMode mode).asStr priority = _
    rw [hkind, hmode]

theorem looksMaterialized_iff : looksMaterialized item = true ↔ item.priority = 50 ∧ item.itemKind ∈ autoKinds := by
  rw [looksMaterialized, Bool.and_eq_true, beq_iff_eq, List.contains_iff_mem]

theorem keeps_iff : Keeps item ↔ looksMaterialized item = false ∧ normal item = item := by
  rw [normal_eq_iff, Bool.eq_false_iff, ne_eq, looksMaterialized_iff]
  exact ⟨fun h => ⟨h.notAuto, h.kind, h.mode⟩, fun h => ⟨h.1, h.2.1, h.2.2⟩⟩

theorem normal_normal (item : ContextPackItem) : normal (normal item) = normal item := by
  rw [normal_eq_iff]
  show itemKindStr (itemKind item.itemKind) ∈ knownKinds ∧ (includeMode item.includeMode).asStr ∈ knownModes
  constructor
  · cases itemKind item.itemKind <;> decide
  · cases includeMode item.includeMode <;> decide

theorem looksMaterialized_autoItem (policy : ContextPackAutoPolicy) (item : ContainerTimelineItem) :
    looksMaterialized (fromKernelItem (autoItem policy item)) = true := by
  rw [looksMaterialized_iff]
  refine ⟨rfl, ?_⟩
  show itemKindStr (autoItem policy item).itemKind ∈ autoKinds
  unfold autoItem autoItemOf
  dsimp only
  cases item.itemKind <;> decide

/-! ## one materializing -/

/-- the items of a pack that are left, as the kernel returns them -/
def leftItems (items : List ContextPackItem) : List ContextPackItem :=
  (items.map normal).filter fun item => !looksMaterialized item

/-- **nothing that was added is left of a materialized pack** -/
theorem stripped_of_materialized (t : Timeline) (pack : ContextPack) :
    (stripMaterializedAutoItems (materializeContextPack t pack)).selectedItems = leftItems pack.selectedItems := by
  have hadded : ((autoAdded t (toKernelContextPack pack)).map
      (fromKernelItem ∘ autoItem pack.autoPolicy)).filter (fun item => !looksMaterialized item) = [] := by
    rw [List.filter_eq_nil_iff]
    intro item hitem
    obtain ⟨added, -, rfl⟩ := List.mem_map.mp hitem
    rw [Function.comp_apply, looksMaterialized_autoItem]
    decide
  have hmaterialized : (materializeContextPack t pack).selectedItems = pack.selectedItems.map normal ++
      (autoAdded t (toKernelContextPack pack)).map (fromKernelItem ∘ autoItem pack.autoPolicy) := by
    rw [materializeContextPack, materialize_eq]
    show List.map fromKernelItem (pack.selectedItems.map toKernelItem ++ _) = _
    rw [List.map_append, List.map_map, List.map_map]
    rfl
  show List.filter _ (materializeContextPack t pack).selectedItems = _
  rw [hmaterialized, List.filter_append, hadded, List.append_nil, leftItems]

theorem leftItems_eq_iff (items : List ContextPackItem) : leftItems items = items ↔ ∀ item ∈ items, Keeps item := by
  constructor
  · intro h
    have hlength : (items.map normal).filter (fun item => !looksMaterialized item) = items.map normal :=
      List.filter_sublist.eq_of_length (by rw [← leftItems, h, List.length_map])
    have hmap : items.map normal = items := hlength.symm.trans h
    intro item hitem
    have hnormal : normal item = item := List.map_inj_left.mp (hmap.trans (List.map_id items).symm) item hitem
    refine keeps_iff.mpr ⟨?_, hnormal⟩
    have hunmarked := List.filter_eq_self.mp hlength item (List.mem_map.mpr ⟨item, hitem, hnormal⟩)
    rwa [Bool.not_eq_true'] at hunmarked
  · intro h
    have hmap : items.map normal = items :=
      (List.map_congr_left fun item hitem => (keeps_iff.mp (h item hitem)).2).trans (List.map_id items)
    rw [leftItems, hmap, List.filter_eq_self]
    intro item hitem
    rw [(keeps_iff.mp (h item hitem)).1]
    rfl

/-! ## saving and cycles -/

theorem getLast?_saveContextPack (newId : String) (rows : PackRows) (pack : ContextPack) :
    ((saveContextPack newId rows pack).filter fun row => row.containerId == pack.containerId).getLast? =
      some (if pack.contextPackId = "" then { pack with contextPackId := newId } else pack) := by
  have hcontainer : (if pack.contextPackId = "" then { pack with contextPackId := newId } else pack).containerId =
      pack.containerId := by
    split
    · rfl
    · rfl
  rw [saveContextPack, List.filter_append, List.filter_singleton, hcontainer, beq_self_eq_true, cond_true]
  exact List.getLast?_concat

theorem selectedItems_current_save (estimate : ContextPack → UInt64) (s : Surroundings) (rows : PackRows)
    (pack : ContextPack) : (current (save estimate s rows pack) pack.containerId).selectedItems =
      leftItems (stripMaterializedAutoItems pack).selectedItems := by
  have hupsert (pack : ContextPack) : (upsertContextPack s.newId pack).selectedItems = pack.selectedItems.map normal ∧
      (upsertContextPack s.newId pack).containerId = pack.containerId := by
    unfold upsertContextPack
    dsimp only
    split
    · exact ⟨List.map_map, rfl⟩
    · exact ⟨List.map_map, rfl⟩
  obtain ⟨hitems, hcontainer⟩ := hupsert (stripMaterializedAutoItems pack)
  rw [save]
  generalize upsertContextPack s.newId (stripMaterializedAutoItems pack) = upserted at hitems hcontainer ⊢
  obtain ⟨hitems', hcontainer'⟩ := hupsert
    { upserted with estimatedTokens := some (estimate (materializeContextPack s.timeline upserted)) }
  generalize upsertContextPack s.newId
    { upserted with estimatedTokens := some (estimate (materializeContextPack s.timeline upserted)) } = written
      at hitems' hcontainer' ⊢
  have hwritten : written.selectedItems = (stripMaterializedAutoItems pack).selectedItems.map normal := by
    rw [hitems']
    show upserted.selectedItems.map normal = _
    rw [hitems, List.map_map]
    exact List.map_congr_left fun item _ => normal_normal item
  have hsame : pack.containerId = written.containerId := (hcontainer'.trans hcontainer).symm
  rw [hsame, current, getLast?_saveContextPack]
  show List.filter _
    (if written.contextPackId = "" then { written with contextPackId := s.newId } else written).selectedItems = _
  have hid : (if written.contextPackId = "" then { written with contextPackId := s.newId } else written).selectedItems =
      written.selectedItems := by
    split
    · rfl
    · rfl
  rw [hid, hwritten, leftItems]

theorem containerId_current (rows : PackRows) (containerId : String) :
    (current rows containerId).containerId = containerId := by
  unfold current
  rcases h : (rows.filter fun row => row.containerId == containerId).getLast? with _ | pack
  · rw [h]
  · rw [h]
    exact beq_iff_eq.mp (List.mem_filter.mp (List.mem_of_getLast? h)).2

theorem selectedItems_cycle (estimate : ContextPack → UInt64) (containerId : String) (rows : PackRows)
    (s : Surroundings) :
    (current (cycle estimate containerId rows s) containerId).selectedItems =
      leftItems (leftItems (current rows containerId).selectedItems) := by
  have hcontainer : (materializeContextPack s.timeline (current rows containerId)).containerId = containerId :=
    containerId_current rows containerId
  have h := selectedItems_current_save estimate s rows (materializeContextPack s.timeline (current rows containerId))
  rw [hcontainer, stripped_of_materialized] at h
  exact h

theorem selectedItems_cycles (estimate : ContextPack → UInt64) {items : List ContextPackItem}
    (hkeeps : ∀ item ∈ items, Keeps item) (steps : List Surroundings) : ∀ rows : PackRows,
    (current rows containerId).selectedItems = items →
    (current (steps.foldl (cycle estimate containerId) rows) containerId).selectedItems = items := by
  have hleft := (leftItems_eq_iff items).mpr hkeeps
  induction steps with
  | nil => exact fun _ h => h
  | cons s steps ih =>
    intro rows h
    rw [List.foldl_cons]
    exact ih _ (by rw [selectedItems_cycle, h, hleft, hleft])

theorem strip_of_keeps (hkeeps : ∀ item ∈ pack.selectedItems, Keeps item) :
    (stripMaterializedAutoItems pack).selectedItems = pack.selectedItems := by
  show List.filter _ pack.selectedItems = _
  rw [List.filter_eq_self]
  intro item hitem
  rw [(keeps_iff.mp (hkeeps item hitem)).1]
  rfl

/-- **what the user selected comes back from materializing and from all cycles exactly when none of it looks
like an added item and the kernel knows its kinds and modes** -/
theorem selection_kept_iff (pack : ContextPack) : RoundTrips pack ↔ ∀ item ∈ pack.selectedItems, Keeps item := by
  constructor
  · intro h
    have hstripped := h.stripped ⟨[], List.nodup_nil⟩
    rw [stripped_of_materialized] at hstripped
    exact (leftItems_eq_iff _).mp hstripped
  · intro hkeeps
    have hleft := (leftItems_eq_iff _).mpr hkeeps
    refine ⟨fun t => (stripped_of_materialized t pack).trans hleft, fun estimate s rows steps => ?_⟩
    refine selectedItems_cycles estimate hkeeps steps _ ?_
    rw [selectedItems_current_save, strip_of_keeps hkeeps, hleft]

end

/-- a pack for which the user selected an artifact with the priority of added items -/
def artifactPack : ContextPack where
  contextPackId := "pack"
  containerId := "container"
  selectedItems := [⟨"artifact", "artifact://report.md", none, "summary", 50⟩]
  excludedItems := []
  autoPolicy := ⟨6, 3, true⟩
  summaryRef := none
  estimatedTokens := none

theorem selected_artifact_lost : ¬ RoundTrips artifactPack := by
  intro h
  exact absurd (h.stripped ⟨[], List.nodup_nil⟩) (by decide +kernel)

end Packs

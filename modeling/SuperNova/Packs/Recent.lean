import Mathlib.Data.List.Sort
import Mathlib.Data.Prod.Lex
import Mathlib.Data.String.Basic
import SuperNova.Lib.Picked
import SuperNova.Lib.Text

/-!
# The items that a context pack is given

A context pack holds the items that the user selected and excluded.  For a request the store adds recent
items of the container's timeline: chat items and task items up to the numbers of the pack's policy,
artifacts, and compactions of the context.

* `materialize_adds` (**main**): no excluded item is added, none that the user selected, and none twice; on a
  timeline of at most a thousand items the added ones are the most recent of their kinds;
* `adds_more_and_less`: artifacts are added too, and a longer timeline hides its newest items.
-/

set_option linter.unusedSectionVars false

namespace Packs

open Picked

/-! ## timelines and packs -/

inductive ContainerTimelineItemKind where
  | chatTurn | chatThread | taskRun | artifact | approvalRequest | memorySnapshot | contextCompaction
  deriving DecidableEq

structure ContainerTimelineItem where
  containerId : String
  itemId : String
  itemKind : ContainerTimelineItemKind
  title : Option String
  status : String
  createdAtMs : Int
  updatedAtMs : Int
  refId : String
  summaryRef : Option String
  deriving DecidableEq

inductive ContextPackItemKind where
  | chatTurn | chatThread | taskRun | taskArtifact | artifact | sourceRef | memorySummary | containerSummary
  deriving DecidableEq

inductive ContextPackIncludeMode where
  | full | summary | metadataOnly | refOnly
  deriving DecidableEq

structure KernelContextPackItem where
  itemKind : ContextPackItemKind
  refId : String
  label : Option String
  includeMode : ContextPackIncludeMode
  priority : UInt8
  deriving DecidableEq

structure ContextPackAutoPolicy where
  includeRecentChatTurns : Nat
  includeRecentTasks : Nat
  preferSummaries : Bool
  deriving DecidableEq

/-- the pack of the kernel -/
structure KernelContextPack where
  contextPackId : String
  containerId : String
  selectedItems : List KernelContextPackItem
  excludedItems : List KernelContextPackItem
  autoPolicy : ContextPackAutoPolicy
  summaryRef : Option String
  estimatedTokens : Option UInt64
  deriving DecidableEq

/-- the rows of `container_timeline`; `item_id` is the primary key -/
structure Timeline where
  rows : List ContainerTimelineItem
  ids : (rows.map ContainerTimelineItem.itemId).Nodup

/-- `created_at_ms, item_id` -/
def ContainerTimelineItem.place (item : ContainerTimelineItem) : Lex (Int × List Char) :=
  toLex (item.createdAtMs, item.itemId.toList)

def Timeline.ofContainer (t : Timeline) (containerId : String) : List ContainerTimelineItem :=
  t.rows.filter fun item => item.containerId == containerId

def listTimeline (t : Timeline) (containerId : String) (limit : Nat) : List ContainerTimelineItem :=
  ((t.ofContainer containerId).insertionSort fun a b => a.place ≤ b.place).take limit

/-! ## the loop over the timeline -/

/-- the kind of the item that is added, and the numbers of chat and task items then -/
def autoKind (policy : ContextPackAutoPolicy) (recentChatTurns recentTasks : Nat) :
    ContainerTimelineItemKind → Option (ContextPackItemKind × Nat × Nat)
  | .chatTurn | .chatThread =>
    if recentChatTurns < policy.includeRecentChatTurns then
      some (.chatTurn, recentChatTurns + 1, recentTasks) else none
  | .taskRun =>
    if recentTasks < policy.includeRecentTasks then some (.taskRun, recentChatTurns, recentTasks + 1) else none
  | .artifact => some (.artifact, recentChatTurns, recentTasks)
  | .contextCompaction => some (.containerSummary, recentChatTurns, recentTasks)
  | .approvalRequest | .memorySnapshot => none

def autoItemOf (policy : ContextPackAutoPolicy) (itemKind : ContextPackItemKind) (item : ContainerTimelineItem) :
    KernelContextPackItem where
  itemKind := itemKind
  refId := item.refId
  label := item.title
  includeMode := if policy.preferSummaries && item.summaryRef.isSome then .summary else .refOnly
  priority := 50

/-- the loop of `materialize_context_pack_auto_items` -/
def addAutoItems (policy : ContextPackAutoPolicy) (excludedRefs : List String) :
    List ContainerTimelineItem → List String → Nat → Nat → List KernelContextPackItem → List KernelContextPackItem
  | [], _, _, _, items => items
  | item :: rest, selectedRefs, recentChatTurns, recentTasks, items =>
    if item.refId ∈ excludedRefs ∨ item.refId ∈ selectedRefs then
      addAutoItems policy excludedRefs rest selectedRefs recentChatTurns recentTasks items
    else match autoKind policy recentChatTurns recentTasks item.itemKind with
      | none => addAutoItems policy excludedRefs rest selectedRefs recentChatTurns recentTasks items
      | some (itemKind, recentChatTurns, recentTasks) =>
        addAutoItems policy excludedRefs rest (item.refId :: selectedRefs) recentChatTurns recentTasks
          (items ++ [autoItemOf policy itemKind item])

def excludedRefs (pack : KernelContextPack) : List String := pack.excludedItems.map (·.refId)

def selectedRefs (pack : KernelContextPack) : List String := pack.selectedItems.map (·.refId)

def materializeContextPackAutoItems (t : Timeline) (pack : KernelContextPack) : KernelContextPack :=
  { pack with
    selectedItems := addAutoItems pack.autoPolicy (excludedRefs pack) (listTimeline t pack.containerId 1000).reverse
      (selectedRefs pack) 0 0 pack.selectedItems }

/-! ## what is to be added -/

/-- the sorts of timeline items that are added -/
inductive AutoSort where
  | chat | task | other
  deriving DecidableEq

def autoSort : ContainerTimelineItemKind → Option AutoSort
  | .chatTurn | .chatThread => some .chat
  | .taskRun => some .task
  | .artifact | .contextCompaction => some .other
  | .approvalRequest | .memorySnapshot => none

/-- what is added of a timeline, by its refs -/
def autoRule (policy : ContextPackAutoPolicy) : Rule ContainerTimelineItem String AutoSort where
  key := ContainerTimelineItem.refId
  sort item := autoSort item.itemKind
  wanted
    | .chat => some policy.includeRecentChatTurns
    | .task => some policy.includeRecentTasks
    | .other => none

/-- the item of the pack for an item of the timeline -/
def autoItem (policy : ContextPackAutoPolicy) (item : ContainerTimelineItem) : KernelContextPackItem :=
  autoItemOf policy (match item.itemKind with
    | .taskRun => .taskRun
    | .artifact => .artifact
    | .contextCompaction => .containerSummary
    | _ => .chatTurn) item

def Newer (a b : ContainerTimelineItem) : Prop := b.place < a.place

instance : DecidableRel Newer := fun a b => inferInstanceAs (Decidable (b.place < a.place))

/-- the items of the timeline, newest first, that the pack is given besides its own -/
structure Adds (t : Timeline) (pack : KernelContextPack) (added : List ContainerTimelineItem) : Prop where
  intro ::
  materialized : materializeContextPackAutoItems t pack =
    { pack with selectedItems := pack.selectedItems ++ added.map (autoItem pack.autoPolicy) }
  newestFirst : added.Pairwise Newer
  distinct : (added.map ContainerTimelineItem.refId).Nodup
  notExcluded : ∀ item ∈ added, item.refId ∉ excludedRefs pack
  notSelected : ∀ item ∈ added, item.refId ∉ selectedRefs pack

/-- the added items are those of the container, of the given sorts, that are not excluded nor selected by
the user, unless a newer added one has the same ref or enough newer ones of the sort are added -/
def AddsMostRecent (t : Timeline) (pack : KernelContextPack) (sorts : AutoSort → Prop)
    (added : List ContainerTimelineItem) : Prop :=
  ∀ item, item ∈ added ↔ item ∈ t.ofContainer pack.containerId ∧ (∃ g, autoSort item.itemKind = some g ∧ sorts g) ∧
    Picks Newer (autoRule pack.autoPolicy) (selectedRefs pack ++ excludedRefs pack) (fun _ => 0) added item

section
variable {t : Timeline} {pack : KernelContextPack} {policy : ContextPackAutoPolicy} {containerId : String}

/-! ## the loop picks by the rule -/

theorem full_chat {n : Nat} : (autoRule policy).full .chat n ↔ policy.includeRecentChatTurns ≤ n :=
  ⟨fun ⟨_, e, h⟩ => Option.some.inj e ▸ h, fun h => ⟨_, rfl, h⟩⟩

theorem full_task {n : Nat} : (autoRule policy).full .task n ↔ policy.includeRecentTasks ≤ n :=
  ⟨fun ⟨_, e, h⟩ => Option.some.inj e ▸ h, fun h => ⟨_, rfl, h⟩⟩

theorem not_full_other {n : Nat} : ¬ (autoRule policy).full .other n := nofun

/-- an item is passed over by the loop and by the rule, or both take it -/
def SameRound (policy : ContextPackAutoPolicy) (taken : AutoSort → Nat) (item : ContainerTimelineItem) : Prop :=
  (autoKind policy (taken .chat) (taken .task) item.itemKind = none ∧ (autoSort item.itemKind = none ∨
    ∃ g, autoSort item.itemKind = some g ∧ (autoRule policy).full g (taken g))) ∨
  ∃ itemKind g, autoSort item.itemKind = some g ∧ ¬ (autoRule policy).full g (taken g) ∧
    autoItem policy item = autoItemOf policy itemKind item ∧
    autoKind policy (taken .chat) (taken .task) item.itemKind = some (itemKind,
      Function.update taken g (taken g + 1) .chat, Function.update taken g (taken g + 1) .task)

theorem sameRound_chat {taken : AutoSort → Nat} {item : ContainerTimelineItem}
    (hsort : autoSort item.itemKind = some .chat)
    (hkind : autoItem policy item = autoItemOf policy .chatTurn item)
    (hauto : autoKind policy (taken .chat) (taken .task) item.itemKind =
      if taken .chat < policy.includeRecentChatTurns then some (.chatTurn, taken .chat + 1, taken .task) else none) :
    SameRound policy taken item := by
  by_cases hlt : taken .chat < policy.includeRecentChatTurns
  · rw [if_pos hlt] at hauto
    exact Or.inr ⟨.chatTurn, .chat, hsort, mt full_chat.mp (by omega), hkind, hauto⟩
  · rw [if_neg hlt] at hauto
    exact Or.inl ⟨hauto, Or.inr ⟨.chat, hsort, full_chat.mpr (by omega)⟩⟩

theorem sameRound (policy : ContextPackAutoPolicy) (taken : AutoSort → Nat) (item : ContainerTimelineItem) :
    SameRound policy taken item := by
  obtain ⟨containerId, itemId, itemKind, title, status, createdAtMs, updatedAtMs, refId, summaryRef⟩ := item
  cases itemKind with
  | chatTurn => exact sameRound_chat rfl rfl rfl
  | chatThread => exact sameRound_chat rfl rfl rfl
  | taskRun =>
    by_cases hlt : taken .task < policy.includeRecentTasks
    · exact Or.inr ⟨.taskRun, .task, rfl, mt full_task.mp (by omega), rfl, if_pos hlt⟩
    · exact Or.inl ⟨if_neg hlt, Or.inr ⟨.task, rfl, full_task.mpr (by omega)⟩⟩
  | artifact => exact Or.inr ⟨.artifact, .other, rfl, not_full_other, rfl, rfl⟩
  | contextCompaction => exact Or.inr ⟨.containerSummary, .other, rfl, not_full_other, rfl, rfl⟩
  | approvalRequest => exact Or.inl ⟨rfl, Or.inl rfl⟩
  | memorySnapshot => exact Or.inl ⟨rfl, Or.inl rfl⟩

theorem addAutoItems_eq (policy : ContextPackAutoPolicy) (excluded : List String) (l : List ContainerTimelineItem) :
    ∀ (selected : List String) (taken : AutoSort → Nat) (items : List KernelContextPackItem),
      addAutoItems policy excluded l selected (taken .chat) (taken .task) items =
        items ++ (pick (autoRule policy) (selected ++ excluded) taken l).map (autoItem policy) := by
  induction l with
  | nil =>
    intro selected taken items
    rw [addAutoItems, pick, List.map_nil, List.append_nil]
  | cons item l ih =>
    intro selected taken items
    by_cases hseen : item.refId ∈ excluded ∨ item.refId ∈ selected
    · have hmem : (autoRule policy).key item ∈ selected ++ excluded := List.mem_append.mpr hseen.symm
      rw [addAutoItems, if_pos hseen, ih, pick_seen hmem]
    · have hmem : (autoRule policy).key item ∉ selected ++ excluded :=
        fun h => hseen (List.mem_append.mp h).symm
      rw [addAutoItems, if_neg hseen]
      rcases sameRound policy taken item with ⟨hkind, hwhy⟩ | ⟨itemKind, g, hsort, hfull, hitem, hkind⟩
      · rw [hkind]
        dsimp only
        rw [ih]
        rcases hwhy with hnone | ⟨g, hsort, hfull⟩
        · rw [pick_unsorted (r := autoRule policy) hnone]
        · rw [pick_full (r := autoRule policy) hsort hfull]
      · rw [hkind]
        dsimp only
        rw [ih, pick_cons (r := autoRule policy) hmem hsort hfull, List.map_cons, hitem, List.append_assoc,
          List.singleton_append]
        rfl

/-! ## the timeline, newest first -/

/-- the items that are added, of the part of the timeline that is read -/
def autoAdded (t : Timeline) (pack : KernelContextPack) : List ContainerTimelineItem :=
  pick (autoRule pack.autoPolicy) (selectedRefs pack ++ excludedRefs pack) (fun _ => 0)
    (listTimeline t pack.containerId 1000).reverse

theorem materialize_eq (t : Timeline) (pack : KernelContextPack) : materializeContextPackAutoItems t pack =
    { pack with selectedItems := pack.selectedItems ++ (autoAdded t pack).map (autoItem pack.autoPolicy) } := by
  rw [materializeContextPackAutoItems, autoAdded,
    ← addAutoItems_eq pack.autoPolicy (excludedRefs pack) _ (selectedRefs pack) (fun _ => 0)]

theorem listTimeline_sublist (t : Timeline) (containerId : String) (limit : Nat) :
    (listTimeline t containerId limit).Sublist
      ((t.ofContainer containerId).insertionSort fun a b => a.place ≤ b.place) :=
  List.take_sublist limit _

theorem listTimeline_ascending (t : Timeline) (containerId : String) (limit : Nat) :
    (listTimeline t containerId limit).Pairwise fun a b => a.place < b.place := by
  have hsorted : ((t.ofContainer containerId).insertionSort fun a b => a.place ≤ b.place).Pairwise
      fun a b => a.place ≤ b.place := by
    have : Std.Total fun a b : ContainerTimelineItem => a.place ≤ b.place := ⟨fun a b => le_total _ _⟩
    have : IsTrans ContainerTimelineItem fun a b => a.place ≤ b.place := ⟨fun a b c => le_trans⟩
    exact List.pairwise_insertionSort _ _
  have hids : (((t.ofContainer containerId).insertionSort fun a b => a.place ≤ b.place).map
      ContainerTimelineItem.itemId).Nodup := by
    refine ((List.perm_insertionSort _ _).map _).nodup_iff.mpr ?_
    exact t.ids.sublist (List.filter_sublist.map _)
  have hboth := hsorted.and (List.pairwise_map.mp hids)
  refine (hboth.imp fun {a b} ⟨hle, hne⟩ => lt_of_le_of_ne hle fun e => hne ?_).sublist (listTimeline_sublist ..)
  have hpair : (a.createdAtMs, a.itemId.toList) = (b.createdAtMs, b.itemId.toList) := toLex_inj.mp e
  exact String.toList_inj.mp (Prod.mk.inj hpair).2

theorem newestFirst (t : Timeline) (containerId : String) (limit : Nat) :
    (listTimeline t containerId limit).reverse.Pairwise Newer :=
  List.pairwise_reverse.mpr (listTimeline_ascending t containerId limit)

theorem mem_listTimeline {limit : Nat} (hlimit : (t.ofContainer containerId).length ≤ limit)
    {item : ContainerTimelineItem} : item ∈ listTimeline t containerId limit ↔ item ∈ t.ofContainer containerId := by
  rw [listTimeline, List.take_of_length_le (by rwa [List.length_insertionSort])]
  exact List.mem_insertionSort _

theorem adds_autoAdded (t : Timeline) (pack : KernelContextPack) : Adds t pack (autoAdded t pack) := by
  obtain ⟨hnodup, hfresh⟩ := nodup_keys_pick (r := autoRule pack.autoPolicy)
    (listTimeline t pack.containerId 1000).reverse (selectedRefs pack ++ excludedRefs pack) (fun _ => 0)
  refine ⟨materialize_eq t pack, (newestFirst t _ _).sublist (pick_sublist _ _ _), hnodup, ?_, ?_⟩
  · exact fun item hitem hmem => hfresh item hitem (List.mem_append_right _ hmem)
  · exact fun item hitem hmem => hfresh item hitem (List.mem_append_left _ hmem)

/-- **what a pack is given: nothing excluded, nothing that it has, nothing twice, and on a timeline of at
most a thousand items the most recent items of each kind** -/
theorem materialize_adds (t : Timeline) (pack : KernelContextPack) : ∃ added, Adds t pack added ∧
    ((t.ofContainer pack.containerId).length ≤ 1000 → AddsMostRecent t pack (fun _ => True) added) := by
  refine ⟨autoAdded t pack, adds_autoAdded t pack, fun hlength item => ?_⟩
  have hirrefl : ∀ a, ¬ Newer a a := fun a => lt_irrefl a.place
  have hasymm : ∀ a b, Newer a b → ¬ Newer b a := fun _ _ => lt_asymm
  rw [autoAdded, mem_pick_iff hirrefl hasymm _ (newestFirst t _ _),
    List.mem_reverse, mem_listTimeline hlength]
  refine and_congr_right fun _ => ⟨fun hpicks => ⟨?_, hpicks⟩, fun h => h.2⟩
  obtain ⟨g, hsort, -⟩ := hpicks.sorted
  exact ⟨g, hsort, trivial⟩

end

/-- a pack that wants one chat item and no task items -/
def onePack : KernelContextPack where
  contextPackId := "pack"
  containerId := "container"
  selectedItems := []
  excludedItems := []
  autoPolicy := ⟨1, 0, false⟩
  summaryRef := none
  estimatedTokens := none

def timelineItem (itemKind : ContainerTimelineItemKind) (n : Nat) : ContainerTimelineItem where
  containerId := "container"
  itemId := toString n
  itemKind := itemKind
  title := none
  status := "completed"
  createdAtMs := n
  updatedAtMs := n
  refId := toString n
  summaryRef := none

def oneArtifact : Timeline := ⟨[timelineItem .artifact 0], List.nodup_singleton _⟩

def chatTimeline (length : Nat) : Timeline where
  rows := (List.range length).map (timelineItem .chatThread)
  ids := by
    rw [List.map_map]
    exact List.nodup_range.map fun m n h => Text.toString_inj h

/-- only chat and task items are added, and they are the most recent of any timeline -/
def AddsOnlyChatsAndTasks (t : Timeline) (pack : KernelContextPack) : Prop :=
  ∃ added, Adds t pack added ∧ AddsMostRecent t pack (· ≠ .other) added

theorem artifact_added : ¬ AddsOnlyChatsAndTasks oneArtifact onePack := by
  rintro ⟨added, hadds, hmost⟩
  have hitems := congrArg KernelContextPack.selectedItems hadds.materialized
  have hadded : added.map (autoItem onePack.autoPolicy) =
      [autoItemOf onePack.autoPolicy .artifact (timelineItem .artifact 0)] :=
    hitems.symm.trans (by decide +kernel)
  obtain ⟨item, rest, rfl, -, -⟩ := List.map_eq_cons_iff.mp hadded
  obtain ⟨hmem, ⟨g, hsort, hg⟩, -⟩ := (hmost item).mp List.mem_cons_self
  have hitem : item = timelineItem .artifact 0 := List.mem_singleton.mp (List.mem_of_mem_filter hmem)
  rw [hitem] at hsort
  exact hg (Option.some.inj hsort).symm

theorem ofContainer_chatTimeline (length : Nat) :
    (chatTimeline length).ofContainer "container" = (List.range length).map (timelineItem .chatThread) := by
  rw [Timeline.ofContainer, chatTimeline, List.filter_eq_self]
  intro item hitem
  obtain ⟨n, -, rfl⟩ := List.mem_map.mp hitem
  rfl

theorem place_lt {m n : Nat} (h : m < n) : (timelineItem .chatThread m).place < (timelineItem .chatThread n).place :=
  Prod.Lex.toLex_lt_toLex.mpr (Or.inl (Int.ofNat_lt.mpr h))

theorem listTimeline_chatTimeline (length limit : Nat) : listTimeline (chatTimeline length) "container" limit =
    (List.range (min limit length)).map (timelineItem .chatThread) := by
  have hsorted : ((List.range length).map (timelineItem .chatThread)).Pairwise fun a b => a.place ≤ b.place :=
    List.pairwise_map.mpr (List.pairwise_lt_range.imp fun h => (place_lt h).le)
  rw [listTimeline, ofContainer_chatTimeline, hsorted.insertionSort_eq, ← List.map_take, List.take_range]

theorem newest_not_added {n : Nat} (hn : 1000 ≤ n) : ¬ AddsOnlyChatsAndTasks (chatTimeline (n + 1)) onePack := by
  rintro ⟨added, hadds, hmost⟩
  have hcontainer : onePack.containerId = "container" := rfl
  have hnone : ∀ item ∈ added, ¬ Newer item (timelineItem .chatThread n) := by
    intro item hitem hnewer
    obtain ⟨hmem, -⟩ := (hmost item).mp hitem
    rw [hcontainer, ofContainer_chatTimeline] at hmem
    obtain ⟨m, hm, rfl⟩ := List.mem_map.mp hmem
    rcases Nat.lt_or_ge m n with hlt | hge
    · exact absurd hnewer (not_lt.mpr (place_lt hlt).le)
    · have hmn : m = n := Nat.le_antisymm (Nat.lt_succ_iff.mp (List.mem_range.mp hm)) hge
      exact absurd hnewer (hmn ▸ lt_irrefl _)
  have hnewest : timelineItem .chatThread n ∈ added := by
    refine (hmost _).mpr ⟨?_, ⟨.chat, rfl, nofun⟩, nofun, fun b hb hb' => absurd hb' (hnone b hb), .chat, rfl, ?_⟩
    · rw [hcontainer, ofContainer_chatTimeline]
      exact List.mem_map.mpr ⟨n, List.mem_range.mpr (Nat.lt_succ_self n), rfl⟩
    · rw [pickedBefore_first hnone, full_chat]
      decide
  have hitems : added.map (autoItem onePack.autoPolicy) =
      (autoAdded (chatTimeline (n + 1)) onePack).map (autoItem onePack.autoPolicy) :=
    congrArg KernelContextPack.selectedItems (hadds.materialized.symm.trans (materialize_eq _ onePack))
  have hread : autoItem onePack.autoPolicy (timelineItem .chatThread n) ∈
      (autoAdded (chatTimeline (n + 1)) onePack).map (autoItem onePack.autoPolicy) :=
    hitems ▸ List.mem_map_of_mem hnewest
  obtain ⟨item, hitem, e⟩ := List.mem_map.mp hread
  have hmem := List.mem_reverse.mp ((pick_sublist _ _ _).subset hitem)
  rw [hcontainer, listTimeline_chatTimeline] at hmem
  obtain ⟨m, hm, rfl⟩ := List.mem_map.mp hmem
  have hrefs : toString m = toString n := congrArg KernelContextPackItem.refId e
  have hlt := List.mem_range.mp hm
  rw [Text.toString_inj hrefs] at hlt
  omega

/-- an artifact is added to the chats and tasks, and the newest item of a long timeline is not -/
theorem adds_more_and_less :
    ¬ AddsOnlyChatsAndTasks oneArtifact onePack ∧ ¬ AddsOnlyChatsAndTasks (chatTimeline 1001) onePack :=
  ⟨artifact_added, newest_not_added (Nat.le_refl 1000)⟩

end Packs

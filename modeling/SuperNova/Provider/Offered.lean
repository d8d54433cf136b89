import SuperNova.Lib.Firsts
import SuperNova.Provider.Toolset

/-!
# Offered tools are the selected ones

A plan names the capabilities it has selected, offers tools under names made from capability ids, and decodes a name
by the binding that was inserted last.

* `offers_iff`: tools built from descriptors are the tools of `selected`, and decode to them, exactly when the
  descriptors are those of `selected` and have different names;
* `planAndRecord_exact_iff`: a task plan is exact where no two descriptors of what it selects share a name;
* `planChatRuntimeReadonly_exact_iff`: a chat plan is exact where the registry lists first what the chat's list does;
* `plans_exact_iff` (**main**).
-/

set_option linter.unusedSectionVars false

namespace Provider

open Text

section

variable {δ : Type} {schemas : ProviderToolSchemas δ} {strictMode : Bool} {known : List String}
  {limit : Option Nat} {toolset : ProviderToolset} {descriptors : List δ}

/-- the name of a descriptor's tool -/
def ProviderToolSchemas.toolName (schemas : ProviderToolSchemas δ) (descriptor : δ) : String :=
  providerToolNameForCapability (schemas.capabilityId descriptor)

/-- the tools of a list, offered one after the other -/
def offerAll (schemas : ProviderToolSchemas δ) (strictMode : Bool) (toolset : ProviderToolset)
    (descriptors : List δ) : ProviderToolset :=
  descriptors.foldl (fun toolset descriptor => toolset.offer schemas strictMode descriptor) toolset

theorem collect_eq
    (h : ∀ d ∈ descriptors, schemas.capabilityId d ∈ known ∧
      providerToolCapabilityIsExposable (schemas.capabilityId d) = true) :
    toolset.collect schemas strictMode known limit descriptors =
      offerAll schemas strictMode toolset
        (limit.elim descriptors fun max => descriptors.take (max - toolset.tools.length)) := by
  induction descriptors generalizing toolset with
  | nil => cases limit <;> simp [ProviderToolset.collect, offerAll]
  | cons d rest ih =>
    obtain ⟨hknown, hexposable⟩ := h d List.mem_cons_self
    have hcontains : known.contains (schemas.capabilityId d) = true := List.contains_iff_mem.mpr hknown
    have hrest := @ih (toolset.offer schemas strictMode d) fun d' hd' => h d' (List.mem_cons_of_mem _ hd')
    rw [ProviderToolset.collect, hcontains, hexposable]
    simp only [Bool.not_true, Bool.or_self, Bool.false_eq_true, if_false]
    cases limit with
    | none => exact hrest
    | some max =>
      by_cases hfull : max ≤ toolset.tools.length
      · rw [if_pos (by simpa using hfull), Option.elim, Nat.sub_eq_zero_of_le hfull, List.take_zero, offerAll,
          List.foldl_nil]
      · rw [if_neg (by simpa using hfull), hrest]
        have hsub : max - toolset.tools.length =
            max - (toolset.offer schemas strictMode d).tools.length + 1 := by
          rw [ProviderToolset.offer, List.length_append, List.length_singleton]
          omega
        rw [Option.elim, Option.elim, hsub, List.take_succ_cons, offerAll, offerAll, List.foldl_cons]

theorem tools_offerAll : (offerAll schemas strictMode toolset descriptors).tools =
    toolset.tools ++ descriptors.map (providerToolDefinition schemas strictMode) := by
  induction descriptors generalizing toolset with
  | nil => simp [offerAll]
  | cons d rest ih =>
    rw [offerAll, List.foldl_cons, ← offerAll, ih, ProviderToolset.offer, List.append_assoc, List.map_cons]
    rfl

theorem binding_offer (d : δ) (name : String) :
    (toolset.offer schemas strictMode d).bindingForToolName name =
      if schemas.toolName d = name then some (providerToolBinding (schemas.capabilityId d))
      else toolset.bindingForToolName name := by
  have hname : (providerToolDefinition schemas strictMode d).name = schemas.toolName d := rfl
  rw [ProviderToolRegistry.bindingForToolName, ProviderToolset.offer]
  simp only [hname]
  by_cases h : schemas.toolName d = name
  · rw [if_pos h, List.find?_cons_of_pos (by simpa using h), Option.map_some]
  · rw [if_neg h, List.find?_cons_of_neg (by simpa using h), ProviderToolRegistry.bindingForToolName,
      List.find?_filter]
    congr 2
    funext binding
    by_cases hb : binding.1 = name
    · simp [hb, Ne.symm h]
    · simp [hb]

theorem binding_offerAll_of_ne {name : String} (h : ∀ d ∈ descriptors, schemas.toolName d ≠ name) :
    (offerAll schemas strictMode toolset descriptors).bindingForToolName name =
      toolset.bindingForToolName name := by
  induction descriptors generalizing toolset with
  | nil => rfl
  | cons d rest ih =>
    rw [offerAll, List.foldl_cons, ← offerAll, ih fun d' hd' => h d' (List.mem_cons_of_mem _ hd'), binding_offer,
      if_neg (h d List.mem_cons_self)]

theorem binding_offerAll {d : δ} (hnames : (descriptors.map schemas.toolName).Nodup) (hd : d ∈ descriptors) :
    (offerAll schemas strictMode toolset descriptors).bindingForToolName (schemas.toolName d) =
      some (providerToolBinding (schemas.capabilityId d)) := by
  induction descriptors generalizing toolset with
  | nil => exact absurd hd List.not_mem_nil
  | cons e rest ih =>
    obtain ⟨hout, hrest⟩ := List.nodup_cons.mp hnames
    rw [offerAll, List.foldl_cons, ← offerAll]
    rcases List.mem_cons.mp hd with rfl | hd
    · have hne : ∀ d' ∈ rest, schemas.toolName d' ≠ schemas.toolName d := fun d' hd' hsame =>
        hout (hsame ▸ List.mem_map_of_mem hd')
      rw [binding_offerAll_of_ne hne, binding_offer, if_pos rfl]
    · exact ih hrest hd

theorem exists_of_binding {name : String} {binding : ProviderToolBinding}
    (h : (offerAll schemas strictMode ⟨⟨[]⟩, []⟩ descriptors).bindingForToolName name = some binding) :
    ∃ d ∈ descriptors, schemas.toolName d = name ∧ binding.capabilityId = schemas.capabilityId d := by
  induction descriptors using List.reverseRecOn with
  | nil => cases h
  | append_singleton rest d ih =>
    rw [offerAll, List.foldl_append, List.foldl_cons, List.foldl_nil, ← offerAll, binding_offer] at h
    split at h
    · next hname =>
      cases h
      exact ⟨d, List.mem_append_right _ List.mem_cons_self, hname, rfl⟩
    · obtain ⟨d', hd', hfound⟩ := ih h
      exact ⟨d', List.mem_append_left _ hd', hfound⟩

/-! ## tools of a selection -/

/-- `toolset` offers the tools of `selected`, and decodes their names -/
structure ProviderToolset.Offers (toolset : ProviderToolset) (selected : List String) : Prop where
  offered : (toolset.tools.map (·.name)).Perm (selected.map providerToolNameForCapability)
  decoded : ∀ capabilityId ∈ selected,
    (toolset.bindingForToolName (providerToolNameForCapability capabilityId)).map (·.capabilityId) =
      some capabilityId

theorem ProviderToolset.Offers.names_nodup {selected : List String} (h : toolset.Offers selected)
    (hnodup : selected.Nodup) : (selected.map providerToolNameForCapability).Nodup := by
  refine List.Nodup.map_on (fun a ha b hb hname => ?_) hnodup
  have hdecode := h.decoded a ha
  rw [hname, h.decoded b hb] at hdecode
  exact (Option.some.inj hdecode).symm

theorem names_offerAll : (offerAll schemas strictMode ⟨⟨[]⟩, []⟩ descriptors).tools.map (·.name) =
    descriptors.map schemas.toolName := by
  rw [tools_offerAll, List.nil_append, List.map_map]
  rfl

/-- **what is offered** are the tools of `selected` -/
theorem offers_iff {selected : List String} (hnodup : selected.Nodup) :
    (offerAll schemas strictMode ⟨⟨[]⟩, []⟩ descriptors).Offers selected ↔
      (descriptors.map schemas.capabilityId).Perm selected ∧ (descriptors.map schemas.toolName).Nodup := by
  constructor
  · intro h
    have hnames : (descriptors.map schemas.toolName).Nodup := by
      have hoffered : ((offerAll schemas strictMode ⟨⟨[]⟩, []⟩ descriptors).tools.map (·.name)).Nodup :=
        h.offered.nodup_iff.mpr (h.names_nodup hnodup)
      rwa [names_offerAll] at hoffered
    have hids : (descriptors.map schemas.capabilityId).Nodup := by
      refine List.Nodup.of_map providerToolNameForCapability ?_
      rwa [List.map_map]
    refine ⟨(List.perm_ext_iff_of_nodup hids hnodup).mpr fun capabilityId => ⟨fun hmem => ?_, fun hmem => ?_⟩, hnames⟩
    · obtain ⟨d, hd, rfl⟩ := List.mem_map.mp hmem
      have hoffered : schemas.toolName d ∈ selected.map providerToolNameForCapability := by
        rw [← h.offered.mem_iff, names_offerAll]
        exact List.mem_map_of_mem hd
      obtain ⟨capabilityId, hselected, hname⟩ := List.mem_map.mp hoffered
      have hdecode := h.decoded capabilityId hselected
      rw [hname, binding_offerAll hnames hd] at hdecode
      rwa [show schemas.capabilityId d = capabilityId from Option.some.inj hdecode]
    · obtain ⟨binding, hbinding, hcapability⟩ := Option.map_eq_some_iff.mp (h.decoded capabilityId hmem)
      obtain ⟨d, hd, -, hsame⟩ := exists_of_binding hbinding
      exact List.mem_map.mpr ⟨d, hd, hsame.symm.trans hcapability⟩
  · rintro ⟨hids, hnames⟩
    refine ⟨?_, fun capabilityId hmem => ?_⟩
    · rw [names_offerAll]
      have hmap := hids.map providerToolNameForCapability
      rwa [List.map_map] at hmap
    · obtain ⟨d, hd, rfl⟩ := List.mem_map.mp (hids.mem_iff.mpr hmem)
      exact congrArg (Option.map (·.capabilityId)) (binding_offerAll hnames hd)

end

/-! ## plans -/

theorem mem_dedupeStrings {a : String} {seen l : List String} :
    a ∈ dedupeStrings seen l ↔ a ∈ l ∧ a ∉ seen := by
  induction l generalizing seen with
  | nil => simp [dedupeStrings]
  | cons b rest ih =>
    rw [dedupeStrings]
    by_cases hb : b ∈ seen
    · rw [if_pos (List.contains_iff_mem.mpr hb), ih]
      constructor
      · exact fun ⟨hrest, hout⟩ => ⟨List.mem_cons_of_mem _ hrest, hout⟩
      · rintro ⟨hmem, hout⟩
        rcases List.mem_cons.mp hmem with rfl | hrest
        · exact absurd hb hout
        · exact ⟨hrest, hout⟩
    · rw [if_neg (by simpa using hb), List.mem_cons, ih, List.mem_cons, List.mem_cons, not_or]
      constructor
      · rintro (rfl | ⟨hrest, -, hout⟩)
        · exact ⟨Or.inl rfl, hb⟩
        · exact ⟨Or.inr hrest, hout⟩
      · rintro ⟨rfl | hrest, hout⟩
        · exact Or.inl rfl
        · by_cases hab : a = b
          · exact Or.inl hab
          · exact Or.inr ⟨hrest, hab, hout⟩

theorem nodup_dedupeStrings {seen l : List String} : (dedupeStrings seen l).Nodup := by
  induction l generalizing seen with
  | nil => exact List.nodup_nil
  | cons b rest ih =>
    rw [dedupeStrings]
    split
    · exact ih
    · exact List.nodup_cons.mpr ⟨fun hb => (mem_dedupeStrings.mp hb).2 List.mem_cons_self, ih⟩

/-- the tools offered are those of the selected capabilities: as many as the provider takes, each decoding to its own -/
structure ProviderToolsetPlan.Exact {δ : Type} (planner : ProviderToolsetPlanner δ) (plan : ProviderToolsetPlan) :
    Prop where
  recorded : plan.record.selectedTools = plan.registry.tools
  offers : plan.registry.Offers plan.record.selectedCapabilityIds
  described : ∀ tool ∈ plan.registry.tools, ∃ descriptor ∈ planner.registry,
    planner.schemas.capabilityId descriptor ∈ plan.record.selectedCapabilityIds ∧
      tool = providerToolDefinition planner.schemas planner.config.strictMode descriptor
  bounded : plan.registry.tools.length ≤ plan.record.providerLimit

namespace ProviderToolsetPlanner

variable {δ : Type} (planner : ProviderToolsetPlanner δ)

/-- the descriptors of the registry under the ids of a list -/
def descriptorsOf (ids : List String) : List δ :=
  planner.registry.filter fun descriptor => ids.contains (planner.schemas.capabilityId descriptor)

theorem mem_descriptorsOf {ids : List String} {d : δ} :
    d ∈ planner.descriptorsOf ids ↔ d ∈ planner.registry ∧ planner.schemas.capabilityId d ∈ ids := by
  rw [descriptorsOf, List.mem_filter, List.contains_iff_mem]

theorem map_descriptorsOf (ids : List String) : (planner.descriptorsOf ids).map planner.schemas.capabilityId =
    planner.capabilityIds.filter ids.contains := by
  rw [capabilityIds, List.filter_map]
  rfl

theorem fromCapabilityIds_eq {strictMode : Bool} {ids : List String} {limit : Option Nat}
    (h : ∀ capabilityId ∈ ids, providerToolCapabilityIsExposable capabilityId = true) :
    ProviderToolset.fromCapabilityIdsWithLimit planner.schemas strictMode planner.registry ids limit =
      offerAll planner.schemas strictMode ⟨⟨[]⟩, []⟩
        (limit.elim (planner.descriptorsOf ids) fun max => (planner.descriptorsOf ids).take max) := by
  refine collect_eq fun d hd => ?_
  obtain ⟨hregistry, hid⟩ := planner.mem_descriptorsOf.mp hd
  exact ⟨List.mem_map_of_mem hregistry, h _ hid⟩

/-- a plan whose tools are built from `descriptors` is exact when they are those of its selection, with different
names -/
theorem exact_iff {plan : ProviderToolsetPlan} {descriptors : List δ} (hsub : descriptors ⊆ planner.registry)
    (htools : plan.registry = offerAll planner.schemas planner.config.strictMode ⟨⟨[]⟩, []⟩ descriptors)
    (hrecorded : plan.record.selectedTools = plan.registry.tools)
    (hnodup : plan.record.selectedCapabilityIds.Nodup)
    (hbounded : plan.record.selectedCapabilityIds.length ≤ plan.record.providerLimit) :
    plan.Exact planner ↔
      (descriptors.map planner.schemas.capabilityId).Perm plan.record.selectedCapabilityIds ∧
        (descriptors.map planner.schemas.toolName).Nodup := by
  have hoffers := @offers_iff δ planner.schemas planner.config.strictMode descriptors _ hnodup
  rw [← htools] at hoffers
  constructor
  · exact fun h => hoffers.mp h.offers
  · intro h
    have hdefinitions : plan.registry.tools =
        descriptors.map (providerToolDefinition planner.schemas planner.config.strictMode) := by
      rw [htools, tools_offerAll, List.nil_append]
    refine ⟨hrecorded, hoffers.mpr h, fun tool htool => ?_, ?_⟩
    · rw [hdefinitions] at htool
      obtain ⟨d, hd, rfl⟩ := List.mem_map.mp htool
      exact ⟨d, hsub hd, h.1.mem_iff.mp (List.mem_map_of_mem hd), rfl⟩
    · rw [hdefinitions, List.length_map]
      have hlength := h.1.length_eq
      rw [List.length_map] at hlength
      exact hlength ▸ hbounded

/-! ## task plans -/

/-- the capabilities that a task plan selects, by the mode and what the log says -/
def selectedFor (events : Option (List TruthEvent)) : List String :=
  (planner.selectCapabilities (events.bind latestToolsetSelection)
    ((events.map activeApprovalOperationCapabilities).getD [])).selected.take planner.config.providerLimit

/-- no two descriptors of a selected capability share a tool name -/
def NamesDiffer (events : Option (List TruthEvent)) : Prop :=
  (planner.descriptorsOf (planner.selectedFor events)).Pairwise fun d d' =>
    planner.schemas.toolName d ≠ planner.schemas.toolName d'

theorem selected_eq (latestSelection : Option LatestToolsetSelection) (active : List String) :
    (planner.selectCapabilities latestSelection active).selected = dedupeStrings []
      ((planner.requestedCapabilities latestSelection active).filter planner.coverageCapabilityIds.contains) := by
  rw [selectCapabilities]
  split <;> rfl

theorem selectedFor_nodup (events : Option (List TruthEvent)) : (planner.selectedFor events).Nodup := by
  rw [selectedFor, selected_eq]
  exact nodup_dedupeStrings.sublist (List.take_sublist _ _)

theorem coverage_of_selectedFor {events : Option (List TruthEvent)} {capabilityId : String}
    (h : capabilityId ∈ planner.selectedFor events) :
    capabilityId ∈ planner.capabilityIds ∧ providerToolCapabilityIsExposable capabilityId = true := by
  rw [selectedFor, selected_eq] at h
  have hfilter := (mem_dedupeStrings.mp (List.mem_of_mem_take h)).1
  have hcoverage := List.contains_iff_mem.mp (List.mem_filter.mp hfilter).2
  obtain ⟨hmem, htask⟩ := List.mem_filter.mp hcoverage
  refine ⟨hmem, ?_⟩
  simp only [providerToolCapabilityIsTaskRuntimeExposable, Bool.and_eq_true] at htask
  tauto

theorem planAndRecord_eq {events : Option (List TruthEvent)} {modelCallId operation : String}
    {written : Except String String} {plan : ProviderToolsetPlan}
    (h : planner.planAndRecord events modelCallId operation written = .ok plan) :
    plan.record.selectedCapabilityIds = planner.selectedFor events ∧
      plan.record.providerLimit = planner.config.providerLimit ∧
      plan.record.selectedTools = plan.registry.tools ∧
      plan.registry = ProviderToolset.phase6Selected planner.schemas planner.config.strictMode planner.registry
        (planner.selectedFor events) := by
  rw [planAndRecord] at h
  split at h
  · cases h
  · cases written with
    | error err => cases h
    | ok ref =>
      cases h
      exact ⟨rfl, rfl, rfl, rfl⟩

/-- **a task plan is exact** where the tool names of what it selects differ -/
theorem planAndRecord_exact_iff {events : Option (List TruthEvent)} {modelCallId operation : String}
    {written : Except String String} {plan : ProviderToolsetPlan}
    (h : planner.planAndRecord events modelCallId operation written = .ok plan) :
    plan.Exact planner ↔ planner.NamesDiffer events := by
  obtain ⟨hselected, hlimit, hrecorded, hregistry⟩ := planner.planAndRecord_eq h
  have htools : plan.registry = offerAll planner.schemas planner.config.strictMode ⟨⟨[]⟩, []⟩
      (planner.descriptorsOf (planner.selectedFor events)) := by
    rw [hregistry, ProviderToolset.phase6Selected]
    exact planner.fromCapabilityIds_eq fun _ hid => (planner.coverage_of_selectedFor hid).2
  have hnodup := planner.selectedFor_nodup events
  rw [planner.exact_iff (List.filter_subset_self _) htools hrecorded (hselected ▸ hnodup)
    (by rw [hselected, hlimit, selectedFor, List.length_take]; exact Nat.min_le_left _ _), hselected, NamesDiffer,
    ← List.pairwise_map, ← List.Nodup]
  refine ⟨And.right, fun hnames => ⟨?_, hnames⟩⟩
  have hids : ((planner.descriptorsOf (planner.selectedFor events)).map planner.schemas.capabilityId).Nodup := by
    refine List.Nodup.of_map providerToolNameForCapability ?_
    rwa [List.map_map]
  refine (List.perm_ext_iff_of_nodup hids hnodup).mpr fun capabilityId => ?_
  rw [map_descriptorsOf, List.mem_filter, List.contains_iff_mem]
  exact and_iff_right_of_imp fun hmem => (planner.coverage_of_selectedFor hmem).1

/-! ## chat plans -/

/-- the capabilities of the chat's list, in the order of the registry -/
def chatCapabilities : List String := planner.capabilityIds.filter chatRuntimeProviderToolCapabilities.contains

/-- as far as the limit goes, the registry lists each of the chat's capabilities once and before those that the chat's
list has later -/
def ChatOrder : Prop :=
  let offered := planner.chatCapabilities.take planner.config.maxProviderToolsPerRequest
  planner.chatCapabilities = [] ∨ 0 < planner.config.maxProviderToolsPerRequest ∧ offered.Nodup ∧
    ∀ a ∈ offered, ∀ b ∈ planner.chatCapabilities, b ∉ offered →
      chatRuntimeProviderToolCapabilities.idxOf a < chatRuntimeProviderToolCapabilities.idxOf b

theorem chat_nodup : chatRuntimeProviderToolCapabilities.Nodup := by decide +kernel

theorem chat_exposable : ∀ capabilityId ∈ chatRuntimeProviderToolCapabilities,
    providerToolCapabilityIsExposable capabilityId = true := by decide +kernel

/-- a number for the characters of a name behind its prefix: numbers are faster to compare than strings -/
def nameCode (capabilityId : String) : Nat :=
  (capabilityId.toList.map fun c => if c.isAlphanum then c else '_').foldl (fun n c => n * 0x110000 + c.toNat) 0

theorem names_nodup {ids : List String} (h : (ids.map nameCode).Nodup) :
    (ids.map providerToolNameForCapability).Nodup := by
  refine List.Nodup.of_map (fun name => (name.toList.drop 4).foldl (fun n c => n * 0x110000 + c.toNat) 0) ?_
  have hcode : ids.map ((fun name => (name.toList.drop 4).foldl (fun n c => n * 0x110000 + c.toNat) 0) ∘
      providerToolNameForCapability) = ids.map nameCode := by
    refine List.map_congr_left fun id _ => ?_
    simp [providerToolNameForCapability, Text.mapChars, nameCode]
  rw [List.map_map, hcode]
  exact h

theorem chat_names_nodup : (chatRuntimeProviderToolCapabilities.map providerToolNameForCapability).Nodup :=
  names_nodup (by decide +kernel)

theorem chat_names_inj {a b : String} (ha : a ∈ chatRuntimeProviderToolCapabilities)
    (hb : b ∈ chatRuntimeProviderToolCapabilities)
    (h : providerToolNameForCapability a = providerToolNameForCapability b) : a = b :=
  List.inj_on_of_nodup_map chat_names_nodup ha hb h

theorem present_eq : chatRuntimeProviderToolCapabilities.filter planner.capabilityIds.contains =
    Firsts.present chatRuntimeProviderToolCapabilities planner.chatCapabilities := by
  refine List.filter_congr fun capabilityId hchat => ?_
  rw [Bool.eq_iff_iff, List.contains_iff_mem, decide_eq_true_iff, chatCapabilities, List.mem_filter,
    List.contains_iff_mem]
  exact (and_iff_left hchat).symm

theorem take_providerLimit (hlimit : 0 < planner.config.maxProviderToolsPerRequest) :
    (Firsts.present chatRuntimeProviderToolCapabilities planner.chatCapabilities).take planner.config.providerLimit =
      (Firsts.present chatRuntimeProviderToolCapabilities planner.chatCapabilities).take
        planner.config.maxProviderToolsPerRequest := by
  have hlength : (Firsts.present chatRuntimeProviderToolCapabilities planner.chatCapabilities).length ≤ 43 :=
    Firsts.length_present_le
  rw [ToolCallingConfig.providerLimit, deepseekMaxProviderTools]
  by_cases hbig : planner.config.maxProviderToolsPerRequest ≤ 128
  · rw [Nat.min_eq_left hbig, Nat.max_eq_left hlimit]
  · rw [List.take_of_length_le (by omega), List.take_of_length_le (by omega)]

theorem present_eq_nil :
    Firsts.present chatRuntimeProviderToolCapabilities planner.chatCapabilities = [] ↔
      planner.chatCapabilities = [] := by
  rw [List.eq_nil_iff_forall_not_mem, List.eq_nil_iff_forall_not_mem]
  refine forall_congr' fun capabilityId => not_congr ?_
  rw [Firsts.mem_present]
  exact and_iff_right_of_imp fun hmem => List.contains_iff_mem.mp (List.mem_filter.mp hmem).2

theorem chat_perm_iff : (planner.chatCapabilities.take planner.config.maxProviderToolsPerRequest).Perm
      ((Firsts.present chatRuntimeProviderToolCapabilities planner.chatCapabilities).take
        planner.config.providerLimit) ↔ planner.ChatOrder := by
  have hsub : planner.chatCapabilities ⊆ chatRuntimeProviderToolCapabilities := fun _ hmem =>
    List.contains_iff_mem.mp (List.mem_filter.mp hmem).2
  rcases Nat.eq_zero_or_pos planner.config.maxProviderToolsPerRequest with hzero | hpos
  · -- the tools are cut at nothing, the record at one
    rw [ChatOrder, hzero, ToolCallingConfig.providerLimit, hzero, Nat.zero_min, Nat.zero_max, List.take_zero,
      List.nil_perm, List.take_eq_nil_iff, present_eq_nil]
    simp
  · rw [planner.take_providerLimit hpos, Firsts.perm_take_iff chat_nodup hsub, ChatOrder]
    constructor
    · exact fun h => Or.inr ⟨hpos, h⟩
    · rintro (hnone | ⟨-, h⟩)
      · simp [hnone]
      · exact h

theorem planChatRuntimeReadonly_eq {modelCallId : String} {written : Except String String}
    {plan : ProviderToolsetPlan} (h : planner.planChatRuntimeReadonly modelCallId written = .ok plan) :
    plan.record.selectedCapabilityIds = (Firsts.present chatRuntimeProviderToolCapabilities
        planner.chatCapabilities).take planner.config.providerLimit ∧
      plan.record.providerLimit = planner.config.providerLimit ∧
      plan.record.selectedTools = plan.registry.tools ∧
      plan.registry = ProviderToolset.chatRuntimeReadonly planner.schemas planner.config.strictMode planner.registry
        planner.config.maxProviderToolsPerRequest := by
  cases written with
  | error err => cases h
  | ok ref =>
    cases h
    rw [← present_eq]
    exact ⟨rfl, rfl, rfl, rfl⟩

/-- **a chat plan is exact** where the registry lists first what the chat's list does -/
theorem planChatRuntimeReadonly_exact_iff {modelCallId : String} {written : Except String String}
    {plan : ProviderToolsetPlan} (h : planner.planChatRuntimeReadonly modelCallId written = .ok plan) :
    plan.Exact planner ↔ planner.ChatOrder := by
  obtain ⟨hselected, hlimit, hrecorded, hregistry⟩ := planner.planChatRuntimeReadonly_eq h
  have htools : plan.registry = offerAll planner.schemas planner.config.strictMode ⟨⟨[]⟩, []⟩
      ((planner.descriptorsOf chatRuntimeProviderToolCapabilities).take
        planner.config.maxProviderToolsPerRequest) := by
    rw [hregistry, ProviderToolset.chatRuntimeReadonly]
    exact planner.fromCapabilityIds_eq chat_exposable
  have hids : ((planner.descriptorsOf chatRuntimeProviderToolCapabilities).take
      planner.config.maxProviderToolsPerRequest).map planner.schemas.capabilityId =
        planner.chatCapabilities.take planner.config.maxProviderToolsPerRequest := by
    rw [List.map_take, map_descriptorsOf, chatCapabilities]
  have hnodup : plan.record.selectedCapabilityIds.Nodup := by
    rw [hselected]
    exact (Firsts.nodup_present chat_nodup).sublist (List.take_sublist _ _)
  have hsub : (planner.descriptorsOf chatRuntimeProviderToolCapabilities).take
      planner.config.maxProviderToolsPerRequest ⊆ planner.registry := fun _ hd =>
    (planner.mem_descriptorsOf.mp (List.mem_of_mem_take hd)).1
  rw [planner.exact_iff hsub htools hrecorded hnodup
    (by rw [hselected, hlimit, List.length_take]; exact Nat.min_le_left _ _), hids, hselected, chat_perm_iff]
  refine and_iff_left_of_imp fun horder => ?_
  -- names of the chat's list differ, so those of different ids do
  have hperm := planner.chat_perm_iff.mpr horder
  rw [← hselected] at hperm
  have hdistinct := (hperm.nodup_iff.mpr hnodup).map_on fun a ha b hb hname => by
    have hchat : ∀ c ∈ planner.chatCapabilities.take planner.config.maxProviderToolsPerRequest,
        c ∈ chatRuntimeProviderToolCapabilities := fun c hc =>
      List.contains_iff_mem.mp (List.mem_filter.mp (List.mem_of_mem_take hc)).2
    exact chat_names_inj (hchat a ha) (hchat b hb) hname
  rw [← hids, List.map_map] at hdistinct
  exact hdistinct

theorem namesDiffer_of_nodup (h : (planner.registry.map planner.schemas.toolName).Nodup)
    (events : Option (List TruthEvent)) : planner.NamesDiffer events := by
  rw [List.Nodup, List.pairwise_map] at h
  exact h.sublist List.filter_sublist

theorem chatOrder_of_all (hids : planner.capabilityIds.Nodup)
    (hall : planner.chatCapabilities.length ≤ planner.config.maxProviderToolsPerRequest) : planner.ChatOrder := by
  rcases Nat.eq_zero_or_pos planner.config.maxProviderToolsPerRequest with hzero | hpos
  · exact Or.inl (List.eq_nil_of_length_eq_zero (by omega))
  · refine Or.inr ⟨hpos, ?_⟩
    rw [List.take_of_length_le hall]
    exact ⟨hids.sublist List.filter_sublist, fun _ _ b hb hout => absurd hb hout⟩

/-- **which plans are exact**, of a task and of a chat turn -/
theorem plans_exact_iff :
    (∀ events modelCallId operation written plan,
        planner.planAndRecord events modelCallId operation written = .ok plan →
          (plan.Exact planner ↔ planner.NamesDiffer events)) ∧
      ∀ modelCallId written plan, planner.planChatRuntimeReadonly modelCallId written = .ok plan →
        (plan.Exact planner ↔ planner.ChatOrder) :=
  ⟨fun _ _ _ _ _ h => planner.planAndRecord_exact_iff h, fun _ _ _ h => planner.planChatRuntimeReadonly_exact_iff h⟩

/-! ## the kernel's own registry -/

/-- `default_capability_registry`, by the ids -/
def defaultCapabilityIds : List String :=
["os.list_tree", "os.workspace_inventory", "source_set.create", "source_set.read_page", "dataset.read_page",
    "data.csv.read_dataset", "source_set.coverage_verify", "workspace.batch_hash", "workspace.find_duplicates",
    "workspace.recent_changes", "workspace.plan_organize", "workspace.apply_organize_tx",
    "workspace.rename_batch_preview", "workspace.rename_batch_apply", "workspace.tree_index",
    "workspace.perf_inventory", "workspace.recent_changes_snapshot", "dataset.export_csv",
    "dataset.export_markdown", "dataset.coverage_verify", "artifact.inspect", "artifact.audit_readonly",
    "client_env.scan_overview", "client_env.scan_device", "client_env.scan_storage", "client_env.scan_network",
    "client_env.scan_runtimes", "client_env.read_snapshot", "client_env.request_sensitive_disclosure",
    "artifact.copy_source_set", "os.write_artifact", "os.write_temp_dataset", "os.stat_path", "os.read_file",
    "os.write_file", "os.write_source_mutation_preview", "os.write_source_mutation_apply", "os.copy_path",
    "os.move_path", "os.rename_path", "os.delete_path", "os.hash_path", "os.zip", "os.unzip", "os.diff",
    "os.rollback_tx", "os.verify_artifact", "process.read_ref", "tool.result.page", "tool.result.search",
    "tool.result.inspect_schema", "process.query_events", "process.toolset.select", "process.fork_child",
    "process.request_preview", "process.preview.create", "process.approval.record", "process.pending_approvals",
    "chat.answer", "chat.clarify", "chat.needs_task", "process.clarify", "process.complete", "process.fail",
    "terminal.run_command", "terminal.start_service", "terminal.stop_service", "terminal.service_status",
    "model.invoke", "model.decide_next_action", "model.chat_turn", "model.compact_container_context",
    "model.compact_chat_context", "model.compact_task_context", "model.extract_json", "model.extract_dataset",
    "model.summarize_dataset", "model.synthesize_artifact_from_dataset", "model.audit_artifact",
    "model.audit_artifact_quality", "model.summarize", "model.rewrite", "model.generate_artifact", "model.audit",
    "model.render_entity_reply", "office.docx.read_text", "office.inspect_workbook",
    "office.workbook.read_cells", "office.workbook.read_text", "document.pdf.extract_text",
    "office.docx.batch_read_text", "office.docx.batch_extract_metadata", "office.docx.batch_validate",
    "office.docx.create", "office.docx.rewrite_save_as", "office.docx.rewrite_preview",
    "office.docx.rewrite_in_place_preview", "office.docx.rewrite_in_place", "office.docx.diff_summary",
    "office.docx.validate", "package.build_zip", "artifact.verify_coverage", "artifact.source_coverage_verify",
    "artifact.verify_typed", "artifact.audit_quality"]

/-- a planner over bare ids -/
def ofIds (registry : List String) (toolsetMode : ProviderToolsetMode) (maxProviderToolsPerRequest : Nat) :
    ProviderToolsetPlanner String :=
  ⟨⟨id, fun _ => "", fun _ => .obj [], fun _ _ _ => none⟩, registry, ⟨toolsetMode, maxProviderToolsPerRequest, true⟩⟩

theorem namesDiffer_ofIds {ids : List String} (h : (ids.map providerToolNameForCapability).Nodup)
    (toolsetMode : ProviderToolsetMode) (limit : Nat) (events : Option (List TruthEvent)) :
    (ofIds ids toolsetMode limit).NamesDiffer events := by
  refine namesDiffer_of_nodup _ ?_ events
  exact h

theorem plans_exact_iff_two :
    (∃ plan, (ofIds ["process.fail", "chat.answer"] .minimalDecision 1).planAndRecord none "mcall_1"
        "decide_next_action" (.ok "blobs/plan") = .ok plan ∧
          plan.Exact (ofIds ["process.fail", "chat.answer"] .minimalDecision 1)) ∧
      ∃ plan, (ofIds ["process.fail", "chat.answer"] .minimalDecision 1).planChatRuntimeReadonly "mcall_1"
        (.ok "blobs/plan") = .ok plan ∧ plan.Exact (ofIds ["process.fail", "chat.answer"] .minimalDecision 1) := by
  have hexact := plans_exact_iff (ofIds ["process.fail", "chat.answer"] .minimalDecision 1)
  refine ⟨⟨_, rfl, (hexact.1 none "mcall_1" "decide_next_action" (.ok "blobs/plan") _ rfl).mpr ?_⟩,
    ⟨_, rfl, (hexact.2 "mcall_1" (.ok "blobs/plan") _ rfl).mpr ?_⟩⟩
  · exact namesDiffer_ofIds (by decide +kernel) .minimalDecision 1 none
  · refine chatOrder_of_all _ ?_ ?_
    · decide +kernel
    · decide +kernel

/-- the registry lists `os.list_tree` before the chat's own tools: under a limit of one the record selects
`chat.answer`, and the provider is offered `os.list_tree` -/
theorem chat_offers_another_tool : ∃ plan, (ofIds defaultCapabilityIds .rc0FullVisible 1).planChatRuntimeReadonly
      "mcall_1" (.ok "blobs/plan") = .ok plan ∧
    plan.record.selectedCapabilityIds = ["chat.answer"] ∧
    plan.registry.tools.map (·.name) = ["cap_os_list_tree"] ∧
    ¬ plan.Exact (ofIds defaultCapabilityIds .rc0FullVisible 1) := by
  refine ⟨_, rfl, ?_, ?_, fun hexact => ?_⟩
  · decide +kernel
  · decide +kernel
  · have hperm := hexact.offers.offered
    revert hperm
    decide +kernel

end ProviderToolsetPlanner

end Provider

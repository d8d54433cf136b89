import Mathlib.Algebra.Group.Nat.Defs
import Mathlib.Algebra.GroupWithZero.Nat
import Mathlib.Order.Lattice
import Mathlib.Order.Defs.LinearOrder
import SuperNova.Provider.Transcript

/-!
# The context window

`estimate` counts the tokens of the parts of a request and adds the reserves; `decide` compares the
part of the window that is used with the thresholds of the configuration.  The ratio of two counts is
a floating-point number: the type `F` of such numbers and the division `usage` are parameters.
-/

set_option linter.unusedSectionVars false

namespace Provider

/-- `u64::saturating_add` -/
def saturatingAddU64 (a b : Nat) : Nat := min (a + b) (2 ^ 64 - 1)

/-! ## configuration and parts -/

structure ContextWindowControlConfig (F : Type) where
  enabled : Bool
  advisoryRatio : F
  proactiveCompactRatio : F
  hardCompactRatio : F
  emergencyRatio : F
  minLiveSuffixTurns : Nat
  reserveOutputTokens : Nat
  reserveReasoningTokens : Nat

/-- `ContextWindowRequestParts` -/
structure ContextWindowRequestParts where
  provider : String := ""
  model : String := ""
  contextWindowTokens : Nat := 0
  systemPrompt : String := ""
  developerPrompt : String := ""
  userMessage : String := ""
  inputPayloads : List String := []
  providerTranscriptMessages : List Json := []
  toolSchema : Json := .null
  toolChoice : Option Json := none
  contextPackPayload : Json := .null
  providerOptions : Json := .null
  reservedOutputTokens : Option Nat := none
  reservedReasoningTokens : Option Nat := none
  providerReportedLastPromptTokens : Option Nat := none

structure ContextWindowBreakdown where
  systemPromptTokens : Nat
  developerPromptTokens : Nat
  userMessageTokens : Nat
  inputPayloadTokens : Nat
  providerTranscriptTokens : Nat
  toolSchemaTokens : Nat
  toolChoiceTokens : Nat
  contextPackTokens : Nat
  providerOptionsTokens : Nat

def ContextWindowBreakdown.estimatedInputTokens (b : ContextWindowBreakdown) : Nat :=
  [b.developerPromptTokens, b.userMessageTokens, b.inputPayloadTokens, b.providerTranscriptTokens,
    b.toolSchemaTokens, b.toolChoiceTokens, b.contextPackTokens, b.providerOptionsTokens].foldl
    saturatingAddU64 b.systemPromptTokens

structure ContextWindowEstimate (F : Type) where
  provider : String
  model : String
  contextWindowTokens : Nat
  estimatedInputTokens : Nat
  reservedOutputTokens : Nat
  reservedReasoningTokens : Nat
  estimatedTotalTokens : Nat
  usageRatio : F
  breakdown : ContextWindowBreakdown
  providerReportedLastPromptTokens : Option Nat

/-! ## the estimate -/

/-- the text of a part; a null part has none -/
def partText (codec : Codec) : Json → String
  | .null => ""
  | value => codec.render value

theorem partText_null (codec : Codec) : partText codec .null = "" := rfl

theorem estimateTextTokens_empty : estimateTextTokensConservative "" = 0 := rfl

def breakdownOf (codec : Codec) (parts : ContextWindowRequestParts) : ContextWindowBreakdown where
  systemPromptTokens := estimateTextTokensConservative parts.systemPrompt
  developerPromptTokens := estimateTextTokensConservative parts.developerPrompt
  userMessageTokens := estimateTextTokensConservative parts.userMessage
  inputPayloadTokens := (parts.inputPayloads.map estimateTextTokensConservative).sum
  providerTranscriptTokens :=
    estimateTextTokensConservative (codec.render (.arr parts.providerTranscriptMessages))
  toolSchemaTokens := estimateTextTokensConservative (partText codec parts.toolSchema)
  toolChoiceTokens :=
    estimateTextTokensConservative ((parts.toolChoice.map codec.render).getD "")
  contextPackTokens := estimateTextTokensConservative (partText codec parts.contextPackPayload)
  providerOptionsTokens := estimateTextTokensConservative (partText codec parts.providerOptions)

variable {F : Type}

/-- `ContextWindowController::estimate` -/
def estimate (codec : Codec) (usage : Nat → Nat → F) (config : ContextWindowControlConfig F)
    (parts : ContextWindowRequestParts) : ContextWindowEstimate F :=
  let breakdown := breakdownOf codec parts
  let reservedOutput := parts.reservedOutputTokens.getD config.reserveOutputTokens
  let reservedReasoning := parts.reservedReasoningTokens.getD config.reserveReasoningTokens
  let total := saturatingAddU64 (saturatingAddU64 breakdown.estimatedInputTokens reservedOutput)
    reservedReasoning
  let window := max parts.contextWindowTokens 1
  { provider := parts.provider
    model := parts.model
    contextWindowTokens := window
    estimatedInputTokens := breakdown.estimatedInputTokens
    reservedOutputTokens := reservedOutput
    reservedReasoningTokens := reservedReasoning
    estimatedTotalTokens := total
    usageRatio := usage total window
    breakdown
    providerReportedLastPromptTokens := parts.providerReportedLastPromptTokens }

/-! ## the decision -/

inductive ContextWindowDecisionKind where
  | sendAsIs
  | advisory
  | compactProactive
  | compactRequired
  | emergency
  deriving DecidableEq

structure ContextWindowDecision where
  kind : ContextWindowDecisionKind
  reason : String
  compactBeforeSend : Bool
  hardBlockIfCompactionFails : Bool

structure ContextWindowPreflight (F : Type) where
  estimate : ContextWindowEstimate F
  decision : ContextWindowDecision

variable [LinearOrder F]

/-- `ContextWindowController::decide` -/
def decideWindow (config : ContextWindowControlConfig F) (e : ContextWindowEstimate F) :
    ContextWindowDecision :=
  if config.enabled = false then
    ⟨.sendAsIs, "context-window controller disabled", false, false⟩
  else if config.emergencyRatio ≤ e.usageRatio then
    ⟨.emergency, "usage reached emergency threshold", true, true⟩
  else if config.hardCompactRatio ≤ e.usageRatio then
    ⟨.compactRequired, "usage reached hard compaction threshold", true, true⟩
  else if config.proactiveCompactRatio ≤ e.usageRatio then
    ⟨.compactProactive, "usage reached proactive compaction threshold", true, false⟩
  else if config.advisoryRatio ≤ e.usageRatio then
    ⟨.advisory, "usage reached advisory threshold", false, false⟩
  else ⟨.sendAsIs, "usage below advisory threshold", false, false⟩

/-- `ContextWindowControlConfig::validate`; a number in a JSON document is finite -/
def ContextWindowControlConfig.validate [Zero F] [One F] (config : ContextWindowControlConfig F) :
    Except String Unit :=
  let ratios := [config.advisoryRatio, config.proactiveCompactRatio, config.hardCompactRatio,
    config.emergencyRatio]
  if ∃ ratio ∈ ratios, ratio ≤ 0 ∨ 1 < ratio then
    .error "context-window ratios must be finite values in 0.0..=1.0"
  else if ¬ (config.advisoryRatio ≤ config.proactiveCompactRatio ∧
      config.proactiveCompactRatio ≤ config.hardCompactRatio ∧
      config.hardCompactRatio ≤ config.emergencyRatio) then
    .error "context-window ratios must be ordered advisory <= proactive <= hard <= emergency"
  else .ok ()

/-- `ContextWindowController::preflight` -/
def preflight [Zero F] [One F] (codec : Codec) (usage : Nat → Nat → F)
    (config : ContextWindowControlConfig F) (parts : ContextWindowRequestParts) :
    Except String (ContextWindowPreflight F) :=
  match config.validate with
  | .error e => .error e
  | .ok _ =>
    let e := estimate codec usage config parts
    .ok ⟨e, decideWindow config e⟩

theorem foldl_saturatingAddU64 (l : List Nat) (n : Nat) :
    l.foldl saturatingAddU64 (min n (2 ^ 64 - 1)) = min (n + l.sum) (2 ^ 64 - 1) := by
  induction l generalizing n with
  | nil => rfl
  | cons a l ih =>
    have h : saturatingAddU64 (min n (2 ^ 64 - 1)) a = min (n + a) (2 ^ 64 - 1) := by
      unfold saturatingAddU64
      omega
    rw [List.foldl_cons, h, ih, List.sum_cons, Nat.add_assoc]

/-- the tokens of all parts of a request, with nothing saturated -/
def ContextWindowBreakdown.sum (b : ContextWindowBreakdown) : Nat :=
  b.systemPromptTokens + b.developerPromptTokens + b.userMessageTokens + b.inputPayloadTokens +
    b.providerTranscriptTokens + b.toolSchemaTokens + b.toolChoiceTokens + b.contextPackTokens +
    b.providerOptionsTokens

theorem estimatedInputTokens_eq (b : ContextWindowBreakdown) :
    b.estimatedInputTokens = min b.sum (2 ^ 64 - 1) := by
  have h : saturatingAddU64 b.systemPromptTokens b.developerPromptTokens =
      min (b.systemPromptTokens + b.developerPromptTokens) (2 ^ 64 - 1) := rfl
  rw [ContextWindowBreakdown.estimatedInputTokens, List.foldl_cons, h, foldl_saturatingAddU64,
    ContextWindowBreakdown.sum]
  simp only [List.sum_cons, List.sum_nil]
  congr 1
  omega

/-- **the total** is the sum of all parts and both reserves, as far as 64 bits go -/
theorem estimatedTotalTokens_eq (codec : Codec) (usage : Nat → Nat → F)
    (config : ContextWindowControlConfig F) (parts : ContextWindowRequestParts) :
    (estimate codec usage config parts).estimatedTotalTokens =
      min ((breakdownOf codec parts).sum +
        parts.reservedOutputTokens.getD config.reserveOutputTokens +
        parts.reservedReasoningTokens.getD config.reserveReasoningTokens) (2 ^ 64 - 1) := by
  show saturatingAddU64 (saturatingAddU64 (breakdownOf codec parts).estimatedInputTokens _) _ = _
  rw [estimatedInputTokens_eq]
  unfold saturatingAddU64
  omega

end Provider

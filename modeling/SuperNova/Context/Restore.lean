import Mathlib.Algebra.Order.Field.Rat
import SuperNova.Provider.Replace
import SuperNova.Provider.Window

/-!
# Compactions that do not take effect

`compactTaskModelContext` and `compactChatModelContext`: ask the model for a summary, replace the
front of the provider transcript by it, check the result, and estimate again.  The result is the
handoff that takes the place of the input refs, if the compaction took effect.

The stores and the summary model are parameters: `steps` says which read or write fails, `receipt` what
the summary model returned.

The transcript is replaced before the result is checked and estimated again, and nothing puts the old
one back.

* `failed_compaction_keeps_iff` (**main**): a compaction that fails, or leaves the input refs as they
  were, keeps the provider-visible transcript exactly when nothing goes wrong after a replacement;
* `replaced_and_failed`: a task whose emergency handoff does not fit in the window.
-/

set_option linter.unusedSectionVars false

namespace Context

open Provider Io

/-! ## surroundings -/

/-- what a compaction uses of a model call receipt, with the text at its `output_ref` -/
structure CompactionReceipt where
  status : String
  outputRef : Option String
  outputText : String

/-- a blob and its text -/
structure Handoff where
  ref : String
  text : String

/-- one attempt to compact a context -/
structure Attempt (F : Type) where
  codec : Codec
  renderPretty : Json → String
  usage : Nat → Nat → F
  config : ContextWindowControlConfig F
  provider : String
  model : String
  preflight : ContextWindowPreflight F
  steps : Steps
  receipt : Except String CompactionReceipt
  /-- the emergency handoff: the fields before its instruction, and the ref it is written to -/
  trimFields : List (String × Json)
  trimRef : String

/-- `task_provider_protocol`, `provider_protocol` -/
def providerProtocol (provider : String) : String :=
  if provider = "deepseek" then "deepseek_chat_completions" else "model_provider_transcript"

variable {F : Type} [LinearOrder F] (a : Attempt F)

def Attempt.hard : Bool := a.preflight.decision.hardBlockIfCompactionFails

/-- the failed event is written, and then a hard threshold is an error and a soft one is not -/
def Attempt.failSoftly {α : Type} (message : String) : Except String (Option α) := do
  a.steps .compactionFailedEvent
  if a.hard then .error message else .ok none

/-! ## the summary -/

def validateSummarySchema (value : Json) (expected label : String) : Except String Unit :=
  if (value.strAt? "schema").getD "" ≠ expected then .error (label ++ " schema mismatch")
  else if Text.blank ((value.strAt? "summary").getD "") then .error (label ++ " summary is empty")
  else .ok ()

def validateTaskContextSummary (value : Json) : Except String Unit :=
  validateSummarySchema value "supernova_task_context_summary.v1" "task context summary"

def validateChatContextSummary (value : Json) : Except String Unit :=
  validateSummarySchema value "supernova_chat_context_summary.v1" "chat context summary"

def taskCompactionFailed : String :=
  "task context compaction failed before a hard-threshold provider request"

def chatCompactionFailed : String :=
  "chat context compaction failed before a hard-threshold provider request"

def acceptTaskSummary (summary : Handoff) : Except String (Option Handoff) :=
  match a.codec.parse summary.text with
  | .error e => .error e
  | .ok value =>
    match validateTaskContextSummary value with
    | .error e => a.failSoftly e
    | .ok _ => .ok (some summary)

/-- `compact_task_model_context` up to the summary -/
def taskSummary : Except String (Option Handoff) := do
  a.steps.run [.checkpointBlob, .checkpointEvent, .readTaskContextState, .readProviderTranscript,
    .readProcessTruth, .readContextPack, .instructionBlob, .inputBlob, .callStartedEvent]
  let receipt ← a.receipt
  a.steps .callCompletedEvent
  if receipt.status ≠ "success" then a.failSoftly taskCompactionFailed
  else
    match receipt.outputRef with
    | none => .error "successful task compaction did not produce output_ref"
    | some ref => do
      a.steps .readSummary
      acceptTaskSummary a ⟨ref, receipt.outputText⟩

/-- the summary of a chat that its check accepts, once it is stored -/
def acceptChatSummary (summary : Handoff) : Except String (Option Handoff) :=
  match a.codec.parse summary.text with
  | .error _ => a.failSoftly chatCompactionFailed
  | .ok value =>
    match validateChatContextSummary value with
    | .error _ => a.failSoftly chatCompactionFailed
    | .ok _ => do
      a.steps.run [.chatSummaryBlob, .chatSummaryEvent]
      .ok (some summary)

/-- `compact_chat_model_context` up to the summary; a summary that cannot be read is empty -/
def chatSummary : Except String (Option Handoff) := do
  a.steps.run [.chatStartedEvent, .readChatEvents, .chatCheckpointBlob, .checkpointBlob,
    .checkpointEvent, .instructionBlob, .inputBlob, .callStartedEvent]
  let receipt ← a.receipt
  a.steps .callCompletedEvent
  if receipt.status ≠ "success" then a.failSoftly chatCompactionFailed
  else
    match receipt.outputRef with
    | none => .error "successful chat compaction did not produce output_ref"
    | some ref =>
      acceptChatSummary a
        ⟨ref, if a.steps .readSummary = .ok () then receipt.outputText else ""⟩

/-! ## after the replacement -/

/-- the parts that are estimated again: the text of the handoff and the reserves -/
def reestimateParts (text : String) : ContextWindowRequestParts where
  provider := a.provider
  model := a.model
  contextWindowTokens := a.preflight.estimate.contextWindowTokens
  inputPayloads := [text]
  reservedOutputTokens := some a.preflight.estimate.reservedOutputTokens
  reservedReasoningTokens := some a.preflight.estimate.reservedReasoningTokens

def reestimate (text : String) : ContextWindowEstimate F :=
  estimate a.codec a.usage a.config (reestimateParts a text)

/-- the estimate calls for the emergency trim -/
def needsTrim (text : String) : Prop :=
  a.config.emergencyRatio ≤ (reestimate a text).usageRatio ∨
    (reestimate a text).estimatedTotalTokens > (reestimate a text).contextWindowTokens

instance (text : String) : Decidable (needsTrim a text) := instDecidableOr

/-- the estimate does not fit in the window -/
def exceeds (text : String) : Prop :=
  (reestimate a text).estimatedTotalTokens > (reestimate a text).contextWindowTokens

instance (text : String) : Decidable (exceeds a text) := Nat.decLt _ _

def trimHandoff (instruction : String) : Handoff where
  ref := a.trimRef
  text := a.renderPretty (.obj (a.trimFields ++ [("instruction", .str instruction)]))

/-- in what the two runtimes differ after the replacement: the steps that check it, the emergency
handoff, the reads it needs, its text as it is read back, and the texts of two errors -/
structure Finish where
  checkSteps : List CompactionStep
  trim : Handoff
  trimReads : List CompactionStep
  readBack : Except String String
  invalid : String
  exceeded : String

def taskTrim : Handoff :=
  trimHandoff a ("Continue the same task from this compacted handoff. Resolve facts only through " ++
    "ProcessTruth refs and Kernel receipts; do not treat this summary as execution proof.")

def chatTrim : Handoff :=
  trimHandoff a ("Continue the same chat turn from this compacted handoff. Use refs and read-only " ++
    "receipts as facts; do not treat summary text as execution proof.")

def taskFinish : Finish where
  checkSteps := [.readReplacement, .replacementEvent]
  trim := taskTrim a
  trimReads := [.readTrimState, .readTrimContextPack]
  readBack := (a.steps .readTrim).map fun _ => (taskTrim a).text
  invalid := "TASK_PROVIDER_TRANSCRIPT_PROTOCOL_INVALID_AFTER_COMPACTION"
  exceeded := "TASK_CONTEXT_WINDOW_EXCEEDED_AFTER_EMERGENCY_TRIM"

/-- a chat takes a handoff that cannot be read back as empty -/
def chatFinish : Finish where
  checkSteps := [.upsertTranscript, .readReplacement, .replacementEvent]
  trim := chatTrim a
  trimReads := []
  readBack := .ok (if a.steps .readTrim = .ok () then (chatTrim a).text else "")
  invalid := chatCompactionFailed
  exceeded := "CHAT_CONTEXT_WINDOW_EXCEEDED_AFTER_EMERGENCY_TRIM"

def emergencyTrim (f : Finish) : Except String (Option Handoff) := do
  a.steps.run (f.trimReads ++ [.trimBlob])
  let text ← f.readBack
  a.steps .trimEvent
  if exceeds a text then .error f.exceeded else .ok (some f.trim)

/-- from the event of the replaced context to the end -/
def finishCompaction (f : Finish) (summary : Handoff) : Except String (Option Handoff) := do
  a.steps.run [.contextReplacedEvent, .protocolValidatedEvent, .reestimateEvent]
  if needsTrim a summary.text then emergencyTrim a f else .ok (some summary)

/-- after the replacement: the messages that replaced the old ones, if any, are checked first -/
def afterReplacement (f : Finish) (summary : Handoff) :
    Option (List ProviderTranscriptMessage) → Except String (Option Handoff)
  | none => finishCompaction a f summary
  | some messages => do
    a.steps.run f.checkSteps
    if (validateDeepseekNativeMessages messages).valid then finishCompaction a f summary
    else a.failSoftly f.invalid

/-! ## the compaction -/

/-- the replacement by an accepted summary, and what comes after it -/
def replaceAndFinish (f : Finish) (summary : Handoff) : TranscriptM (Option Handoff) := do
  let messages ← replaceProviderVisibleTranscript a.steps a.provider (providerProtocol a.provider)
    summary.text a.config.minLiveSuffixTurns
  lift (afterReplacement a f summary messages)

/-- a compaction with a given summary -/
def compactWith (f : Finish) : Option Handoff → TranscriptM (Option Handoff)
  | none => pure none
  | some summary => replaceAndFinish a f summary

/-- `compact_task_model_context`; none leaves the input refs as they were -/
def compactTaskModelContext : TranscriptM (Option Handoff) :=
  lift (taskSummary a) >>= compactWith a (taskFinish a)

def compactChatModelContext : TranscriptM (Option Handoff) :=
  lift (chatSummary a) >>= compactWith a (chatFinish a)

end Context

namespace Context

open Provider Io

variable {F : Type} [LinearOrder F] {a : Attempt F} {t : Transcript}

/-- from the event of the replaced context on every step succeeds, and an emergency handoff that is
needed fits in the window -/
structure Finishes (a : Attempt F) (f : Finish) (summary : Handoff) : Prop where
  recorded :
    a.steps.run [.contextReplacedEvent, .protocolValidatedEvent, .reestimateEvent] = .ok ()
  trimmed : needsTrim a summary.text → a.steps.run (f.trimReads ++ [.trimBlob]) = .ok () ∧
    a.steps .trimEvent = .ok () ∧ ∃ text, f.readBack = .ok text ∧ ¬ exceeds a text

/-- nothing goes wrong after a replacement: the replaced messages are read and follow the protocol,
and the compaction finishes -/
structure Completes (a : Attempt F) (f : Finish) (summary : Handoff)
    (messages : List ProviderTranscriptMessage) : Prop where
  checked : a.steps.run f.checkSteps = .ok ()
  valid : (validateDeepseekNativeMessages messages).valid
  finishes : Finishes a f summary

/-- the compaction takes effect -/
def Took (r : Except String (Option Handoff)) : Prop := ∃ handoff, r = .ok (some handoff)

theorem took_bind {α : Type} {x : Except String α} {f : α → Except String (Option Handoff)} :
    Took (x >>= f) ↔ ∃ b, x = .ok b ∧ Took (f b) := by
  cases x with
  | error e =>
    exact iff_of_false (fun ⟨_, h⟩ => nomatch h) fun ⟨_, h, _⟩ => nomatch h
  | ok b =>
    exact ⟨fun h => ⟨b, rfl, h⟩, fun ⟨c, hc, h⟩ => Except.ok.inj hc ▸ h⟩

theorem failSoftly_not_took (message : String) : ¬ Took (a.failSoftly message) := by
  rw [Attempt.failSoftly, took_bind]
  rintro ⟨u, -, h⟩
  split at h <;> obtain ⟨_, h⟩ := h <;> cases h

theorem emergencyTrim_took (f : Finish) :
    Took (emergencyTrim a f) ↔ a.steps.run (f.trimReads ++ [.trimBlob]) = .ok () ∧
      a.steps .trimEvent = .ok () ∧ ∃ text, f.readBack = .ok text ∧ ¬ exceeds a text := by
  rw [emergencyTrim, took_bind]
  constructor
  · rintro ⟨u, hblob, h⟩
    obtain ⟨text, hread, h⟩ := took_bind.mp h
    obtain ⟨u', hevent, h⟩ := took_bind.mp h
    refine ⟨hblob, hevent, text, hread, fun he => ?_⟩
    rw [if_pos he] at h
    obtain ⟨_, h⟩ := h
    cases h
  · rintro ⟨hblob, hevent, text, hread, he⟩
    refine ⟨(), hblob, took_bind.mpr ⟨text, hread, took_bind.mpr ⟨(), hevent, ?_⟩⟩⟩
    rw [if_neg he]
    exact ⟨_, rfl⟩

theorem finishCompaction_took (f : Finish) (summary : Handoff) :
    Took (finishCompaction a f summary) ↔ Finishes a f summary := by
  rw [finishCompaction, took_bind]
  constructor
  · rintro ⟨u, hrecorded, h⟩
    refine ⟨hrecorded, fun hneeds => ?_⟩
    rw [if_pos hneeds] at h
    exact (emergencyTrim_took f).mp h
  · intro h
    refine ⟨(), h.recorded, ?_⟩
    split
    · rename_i hneeds
      exact (emergencyTrim_took f).mpr (h.trimmed hneeds)
    · exact ⟨_, rfl⟩

/-- **after a replacement** the compaction takes effect exactly when nothing goes wrong -/
theorem afterReplacement_took (f : Finish) (summary : Handoff)
    (messages : List ProviderTranscriptMessage) :
    Took (afterReplacement a f summary (some messages)) ↔ Completes a f summary messages := by
  rw [afterReplacement, took_bind]
  constructor
  · rintro ⟨u, hchecked, h⟩
    split at h
    · rename_i hvalid
      exact ⟨hchecked, hvalid, (finishCompaction_took f summary).mp h⟩
    · exact absurd h (failSoftly_not_took _)
  · intro h
    refine ⟨(), h.checked, ?_⟩
    rw [if_pos h.valid]
    exact (finishCompaction_took f summary).mpr h.finishes

/-! ## programs that keep the transcript when they take no effect -/

/-- when the program fails or has no result, the provider sees what it saw before -/
def KeepsVisible (m : TranscriptM (Option Handoff)) (t : Transcript) : Prop :=
  ∀ t', (∃ e, Err m t e t') ∨ Ok m t none t' → visible t' = visible t

theorem keepsVisible_of_err {m : TranscriptM (Option Handoff)} {e : String} (h : Err m t e t) :
    KeepsVisible m t := by
  rintro t' (⟨e', h'⟩ | h')
  · cases h.symm.trans h'
    rfl
  · cases h.symm.trans h'

theorem keepsVisible_of_ok {m : TranscriptM (Option Handoff)} {r : Option Handoff} (h : Ok m t r t) :
    KeepsVisible m t := by
  rintro t' (⟨e', h'⟩ | h')
  · cases h.symm.trans h'
  · cases h.symm.trans h'
    rfl

theorem keepsVisible_bind {α : Type} {x : TranscriptM α} {f : α → TranscriptM (Option Handoff)}
    {b : α} {t' : Transcript} (h : Ok x t b t') :
    KeepsVisible (x >>= f) t ↔
      ∀ t'', (∃ e, Err (f b) t' e t'') ∨ Ok (f b) t' none t'' → visible t'' = visible t := by
  simp only [KeepsVisible, Err, Ok, bind_of_ok h]

theorem keeps_lift_iff (r : Except String (Option Handoff)) (t t' : Transcript) :
    (∀ t'', (∃ e, Err (lift r : TranscriptM _) t' e t'') ∨ Ok (lift r) t' none t'' →
      visible t'' = visible t) ↔ (visible t' ≠ visible t → Took r) := by
  constructor
  · intro h hne
    match r with
    | .error e => exact absurd (h t' (Or.inl ⟨e, rfl⟩)) hne
    | .ok none => exact absurd (h t' (Or.inr rfl)) hne
    | .ok (some handoff) => exact ⟨handoff, rfl⟩
  · intro h t'' hend
    have hsame : t'' = t' := by
      rcases hend with ⟨e, he⟩ | ho
      · exact (lift_err.mp he).2
      · exact (lift_ok.mp ho).2
    subst hsame
    by_contra hne
    obtain ⟨handoff, rfl⟩ := h hne
    rcases hend with ⟨e, he⟩ | ho
    · cases he
    · cases ho

/-- the replacement made by an attempt -/
def Attempt.Replaces (a : Attempt F) (summary : Handoff) (t : Transcript)
    (messages : List ProviderTranscriptMessage) : Prop :=
  Provider.Replaces a.steps a.provider (providerProtocol a.provider) summary.text
    a.config.minLiveSuffixTurns t messages

theorem replaces_unique {summary : Handoff} {m m' : List ProviderTranscriptMessage}
    (h : a.Replaces summary t m) (h' : a.Replaces summary t m') : m = m' :=
  h.eq.trans h'.eq.symm

theorem replaceAndFinish_keeps_iff (f : Finish) (summary : Handoff) :
    KeepsVisible (replaceAndFinish a f summary) t ↔
      ∀ messages, a.Replaces summary t messages → messages ≠ t.messages →
        Completes a f summary messages := by
  by_cases hreplaces : ∃ messages, a.Replaces summary t messages
  · obtain ⟨messages, hr⟩ := hreplaces
    rw [replaceAndFinish, keepsVisible_bind (replace_of_replaces hr), keeps_lift_iff, Ne,
      visible_replaced hr.there, afterReplacement_took]
    exact ⟨fun h m hm hne => replaces_unique hr hm ▸ h (replaces_unique hr hm ▸ hne),
      fun h hne => h messages hr hne⟩
  · refine iff_of_true ?_ fun m hm => absurd ⟨m, hm⟩ hreplaces
    rcases replace_of_not (not_exists.mp hreplaces) with ⟨e, he⟩ | hnothing
    · exact keepsVisible_of_err (bind_of_err he)
    · rw [replaceAndFinish, keepsVisible_bind (replace_of_nothing hnothing), keeps_lift_iff]
      exact fun hne => absurd rfl hne

theorem compactWith_keeps_iff (f : Finish) (r : Except String (Option Handoff)) :
    KeepsVisible (lift r >>= compactWith a f) t ↔
      ∀ summary, r = .ok (some summary) → ∀ messages, a.Replaces summary t messages →
        messages ≠ t.messages → Completes a f summary messages := by
  match r with
  | .error e =>
    exact iff_of_true (keepsVisible_of_err (bind_of_err (lift_err.mpr ⟨rfl, rfl⟩)))
      fun _ h => nomatch h
  | .ok none =>
    exact iff_of_true (keepsVisible_of_ok (r := none) (bind_of_ok (lift_ok.mpr ⟨rfl, rfl⟩)))
      fun _ h => nomatch h
  | .ok (some summary) =>
    rw [keepsVisible_bind (lift_ok.mpr ⟨rfl, rfl⟩)]
    refine (replaceAndFinish_keeps_iff f summary).trans ?_
    exact ⟨fun h s hs => Option.some.inj (Except.ok.inj hs) ▸ h, fun h => h summary rfl⟩

/-- **compactions without effect**: a compaction of a task or chat context that fails, or leaves the
input refs as they were, keeps the provider-visible transcript exactly when nothing goes wrong after
an accepted summary has replaced its messages by others -/
theorem failed_compaction_keeps_iff {F : Type} [LinearOrder F] (a : Attempt F) (t : Transcript) :
    (KeepsVisible (compactTaskModelContext a) t ↔
      ∀ summary, taskSummary a = .ok (some summary) → ∀ messages, a.Replaces summary t messages →
        messages ≠ t.messages → Completes a (taskFinish a) summary messages) ∧
    (KeepsVisible (compactChatModelContext a) t ↔
      ∀ summary, chatSummary a = .ok (some summary) → ∀ messages, a.Replaces summary t messages →
        messages ≠ t.messages → Completes a (chatFinish a) summary messages) :=
  ⟨compactWith_keeps_iff _ _, compactWith_keeps_iff _ _⟩

/-! ## a handoff that does not fit -/

theorem exceeds_of_length {text : String}
    (hwindow : max a.preflight.estimate.contextWindowTokens 1 < 2 ^ 64 - 1)
    (h : max a.preflight.estimate.contextWindowTokens 1 < text.length) : exceeds a text := by
  have htext : text.length ≤ estimateTextTokensConservative text := by
    unfold estimateTextTokensConservative
    split
    · rename_i he
      rw [he]
      exact Nat.le_refl 0
    · exact Nat.le_max_left _ _
  have hsum : estimateTextTokensConservative text ≤
      (breakdownOf a.codec (reestimateParts a text)).sum := by
    simp only [ContextWindowBreakdown.sum, breakdownOf, reestimateParts, List.map_cons, List.map_nil,
      List.sum_cons, List.sum_nil]
    omega
  show (max a.preflight.estimate.contextWindowTokens 1) < _
  rw [reestimate, estimatedTotalTokens_eq]
  omega

def sampleSummary : Handoff where
  ref := "model_outputs/mcall_1.txt"
  text := "\x7b\"schema\":\"supernova_task_context_summary.v1\",\"summary\":\"Two files read.\"\x7d"

def sampleCodec : Codec where
  parse _ := .ok (.obj [("schema", .str "supernova_task_context_summary.v1"),
    ("summary", .str "Two files read.")])
  render _ := "[]"

def sampleConfig : ContextWindowControlConfig ℚ where
  enabled := true
  advisoryRatio := 7 / 10
  proactiveCompactRatio := 8 / 10
  hardCompactRatio := 85 / 100
  emergencyRatio := 95 / 100
  minLiveSuffixTurns := 1
  reserveOutputTokens := 0
  reserveReasoningTokens := 0

def exactRatio (total window : Nat) : ℚ := total / window

/-- a window of 10 tokens -/
def exceedingAttempt : Attempt ℚ where
  codec := sampleCodec
  renderPretty value := "\x7b\n  \"instruction\": \"" ++ (value.strAt? "instruction").getD "" ++
    "\"\n\x7d"
  usage := exactRatio
  config := sampleConfig
  provider := "deepseek"
  model := "deepseek-chat"
  preflight :=
    let e := estimate sampleCodec exactRatio sampleConfig
      { contextWindowTokens := 10, inputPayloads := ["Compare both files."] }
    ⟨e, decideWindow sampleConfig e⟩
  steps _ := .ok ()
  receipt := .ok ⟨"success", some sampleSummary.ref, sampleSummary.text⟩
  trimFields := []
  trimRef := "context_window/emergency_trim/turn_1.json"

def sampleMessages : List ProviderTranscriptMessage :=
  [userMessage "Read both files.", ⟨"assistant", some "Done.", none, [], none⟩,
    userMessage "Now compare them."]

def sampleTranscript : Transcript :=
  ⟨sampleMessages, .transcriptCreated :: sampleMessages.map .transcriptAppended⟩

/-- the summary replaces the first message, the emergency handoff exceeds the window, and the error
leaves the summary in the transcript -/
theorem replaced_and_failed :
    ¬ KeepsVisible (compactTaskModelContext exceedingAttempt) sampleTranscript := by
  have hsummary : taskSummary exceedingAttempt = .ok (some sampleSummary) := rfl
  have hreplaces : exceedingAttempt.Replaces sampleSummary sampleTranscript
      [userMessage sampleSummary.text, ⟨"assistant", some "Done.", none, [], none⟩,
        userMessage "Now compare them."] :=
    ⟨rfl, rfl, List.cons_ne_nil _ _, rfl, fun _ => by decide, rfl⟩
  have hlong : ∀ text : String, 10 < text.length → exceeds exceedingAttempt text :=
    fun text h => exceeds_of_length (by decide) h
  have htrim : 10 < (taskTrim exceedingAttempt).text.length := by
    show 10 < ("\x7b\n  \"instruction\": \"" ++ _ ++ _).length
    rw [String.length_append, String.length_append]
    exact Nat.lt_of_lt_of_le (by decide) (Nat.le_trans (Nat.le_add_right _ _) (Nat.le_add_right _ _))
  intro h
  have hdone := (compactWith_keeps_iff _ _).mp h _ hsummary _ hreplaces fun e => by
    have := congrArg (fun l : List ProviderTranscriptMessage => l.head?.bind (·.content)) e
    revert this
    decide
  obtain ⟨-, -, text, htext, hfits⟩ := hdone.finishes.trimmed (Or.inr (hlong _ (by decide)))
  cases htext
  exact hfits (hlong _ htrim)

end Context

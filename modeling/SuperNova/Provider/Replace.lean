import SuperNova.Lib.Text
import SuperNova.Provider.Transcript

/-!
# Replacing the front of a transcript by a summary

The validator of the message protocol, the start of the live suffix that stays, and the replacement
itself with all the steps at which it can fail.

* `liveSuffixStartIndex_fixed`: the loop that extends the suffix ends because nothing changes;
* `replace_cases`: the replacement fails or does nothing and leaves the transcript alone, or it puts
  the summary in front of the live suffix.
-/

set_option linter.unusedSectionVars false

namespace Provider

open Io

/-! ## the protocol -/

structure ProviderTranscriptValidationReceipt where
  valid : Bool
  messageCount : Nat
  pendingToolCallIds : List String
  errors : List String

/-- the local variables of the validator -/
structure ProtocolScan where
  pending : List String
  completed : List String
  errors : List String

def ProtocolScan.error (scan : ProtocolScan) (text : String) : ProtocolScan :=
  { scan with errors := scan.errors ++ [text] }

/-- one tool call of an assistant message -/
def scanToolCall (index : Nat) (scan : ProtocolScan) (call : ProviderToolCall) : ProtocolScan :=
  if Text.blank call.id then
    scan.error ("assistant tool_call at index " ++ toString index ++ " has empty id")
  else if call.id ∈ scan.pending ∨ call.id ∈ scan.completed then
    scan.error ("duplicate tool_call_id " ++ call.id)
  else { scan with pending := scan.pending ++ [call.id] }

def scanToolMessage (index : Nat) (scan : ProtocolScan) (message : ProviderTranscriptMessage)
    (id : String) : ProtocolScan :=
  let scan := if id ∈ scan.pending then
      { scan with pending := scan.pending.filter (· ≠ id), completed := scan.completed ++ [id] }
    else scan.error ("orphan tool message for " ++ id)
  if message.toolCalls = [] then scan
  else scan.error
    ("tool message at index " ++ toString index ++ " must not contain nested tool_calls")

def scanMessage (scan : ProtocolScan) (item : ProviderTranscriptMessage × Nat) : ProtocolScan :=
  let (message, index) := item
  if message.role = "assistant" then
    let scan := if message.toolCallId.isSome then
        scan.error
          ("assistant message at index " ++ toString index ++ " must not carry tool_call_id")
      else scan
    message.toolCalls.foldl (scanToolCall index) scan
  else if message.role = "tool" then
    match message.toolCallId with
    | none => scan.error ("tool message at index " ++ toString index ++ " missing tool_call_id")
    | some id => scanToolMessage index scan message id
  else if message.role = "system" ∨ message.role = "user" then
    if message.toolCallId.isSome ∨ message.toolCalls ≠ [] then
      scan.error (message.role ++ " message at index " ++ toString index ++
        " must not carry tool-call fields")
    else scan
  else scan.error ("unsupported provider transcript role " ++ message.role)

def validateDeepseekNativeMessages (messages : List ProviderTranscriptMessage) :
    ProviderTranscriptValidationReceipt :=
  let scan := messages.zipIdx.foldl scanMessage ⟨[], [], []⟩
  { valid := scan.errors.isEmpty && scan.pending.isEmpty
    messageCount := messages.length
    pendingToolCallIds := scan.pending
    errors := scan.errors }

/-! ## the live suffix -/

/-- an assistant message with the tool call -/
def asksFor (id : String) (message : ProviderTranscriptMessage) : Bool :=
  message.role == "assistant" && message.toolCalls.any (·.id == id)

/-- `rposition` among the items before an index -/
def lastBefore (p : ProviderTranscriptMessage → Bool) (messages : List ProviderTranscriptMessage)
    (index : Nat) : Option Nat :=
  (List.range (min index messages.length)).reverse.find? fun i => (messages[i]?).any p

/-- one index of the loop over the suffix; whether the start has changed -/
def suffixStep (messages : List ProviderTranscriptMessage) (st : Nat × Bool) (index : Nat) :
    Nat × Bool :=
  match messages[index]? with
  | none => st
  | some message =>
    if message.role = "tool" then
      match message.toolCallId.bind fun id => lastBefore (asksFor id) messages index with
      | some assistantIndex => if assistantIndex < st.1 then (assistantIndex, true) else st
      | none => st
    else if message.role = "assistant" then
      message.toolCalls.foldl (fun st call =>
        match (messages.drop (index + 1)).findIdx? fun candidate =>
            candidate.role == "tool" && candidate.toolCallId == some call.id with
        | some toolIndex => if index + 1 + toolIndex < st.1 then (index, true) else st
        | none => st) st
    else st

def suffixRound (messages : List ProviderTranscriptMessage) (start : Nat) : Nat × Bool :=
  (List.range' start (messages.length - start)).foldl (suffixStep messages) (start, false)

/-- the loop, which ends when a round changes nothing -/
def suffixLoop (messages : List ProviderTranscriptMessage) : Nat → Nat → Nat
  | 0, start => start
  | n + 1, start =>
    match suffixRound messages start with
    | (start', true) => suffixLoop messages n start'
    | (start', false) => start'

/-- the start before the loop: enough turns, and every pending call -/
def suffixFirst (messages : List ProviderTranscriptMessage)
    (pendingToolCalls : List ProviderToolCallState) (minLiveSuffixTurns : Nat) : Nat :=
  pendingToolCalls.foldl (fun start pending =>
    match messages.findIdx? (asksFor pending.providerToolCallId) with
    | some index => min start index
    | none => start) (messages.length - max (minLiveSuffixTurns * 2) 1)

/-- `live_suffix_start_index`; every round that changes the start lowers it -/
def liveSuffixStartIndex (messages : List ProviderTranscriptMessage)
    (pendingToolCalls : List ProviderToolCallState) (minLiveSuffixTurns : Nat) : Nat :=
  let first := suffixFirst messages pendingToolCalls minLiveSuffixTurns
  suffixLoop messages (first + 1) first

/-- nothing has changed, or the start has moved down -/
def Lowers (st st' : Nat × Bool) : Prop := st' = st ∨ st'.1 < st.1 ∧ st'.2 = true

theorem Lowers.trans {a b c : Nat × Bool} (h : Lowers a b) (h' : Lowers b c) : Lowers a c := by
  rcases h with rfl | ⟨hlt, hb⟩
  · exact h'
  · rcases h' with rfl | ⟨hlt', hc⟩
    · exact Or.inr ⟨hlt, hb⟩
    · exact Or.inr ⟨Nat.lt_trans hlt' hlt, hc⟩

theorem lowers_foldl {α : Type} {f : Nat × Bool → α → Nat × Bool} (l : List α)
    (h : ∀ a ∈ l, ∀ st, Lowers st (f st a)) (st : Nat × Bool) : Lowers st (l.foldl f st) := by
  induction l generalizing st with
  | nil => exact Or.inl rfl
  | cons a l ih =>
    exact (h a List.mem_cons_self st).trans (ih (fun b hb => h b (List.mem_cons_of_mem a hb)) _)

theorem lowers_ite {st : Nat × Bool} {n m : Nat} (h : n < st.1 → m < st.1) :
    Lowers st (if n < st.1 then (m, true) else st) := by
  split
  · rename_i hlt
    exact Or.inr ⟨h hlt, rfl⟩
  · exact Or.inl rfl

theorem suffixStep_lowers (messages : List ProviderTranscriptMessage) (st : Nat × Bool)
    (index : Nat) : Lowers st (suffixStep messages st index) := by
  unfold suffixStep
  cases messages[index]? with
  | none => exact Or.inl rfl
  | some message =>
    dsimp only
    split
    · split
      · exact lowers_ite id
      · exact Or.inl rfl
    · split
      · refine lowers_foldl _ (fun call _ st => ?_) st
        split
        · exact lowers_ite fun h => by omega
        · exact Or.inl rfl
      · exact Or.inl rfl

theorem suffixRound_lowers (messages : List ProviderTranscriptMessage) (start : Nat) :
    Lowers (start, false) (suffixRound messages start) :=
  lowers_foldl _ (fun index _ st => suffixStep_lowers messages st index) (start, false)

theorem suffixLoop_fixed (messages : List ProviderTranscriptMessage) (n : Nat) :
    ∀ start, start < n → suffixRound messages (suffixLoop messages n start) =
      (suffixLoop messages n start, false) := by
  induction n with
  | zero => exact fun start h => absurd h (Nat.not_lt_zero start)
  | succ n ih =>
    intro start h
    have hl := suffixRound_lowers messages start
    unfold suffixLoop
    cases hr : suffixRound messages start with
    | mk start' changed =>
      rw [hr] at hl
      cases changed with
      | true =>
        rcases hl with hl | ⟨hlt, -⟩
        · cases hl
        · exact ih start' (Nat.lt_of_lt_of_le hlt (Nat.le_of_lt_succ h))
      | false =>
        rcases hl with hl | ⟨-, hl⟩
        · cases hl
          exact hr
        · cases hl

/-- **the suffix is closed**: a further round over the suffix that was found changes nothing -/
theorem liveSuffixStartIndex_fixed (messages : List ProviderTranscriptMessage)
    (pendingToolCalls : List ProviderToolCallState) (minLiveSuffixTurns : Nat) :
    suffixRound messages (liveSuffixStartIndex messages pendingToolCalls minLiveSuffixTurns) =
      (liveSuffixStartIndex messages pendingToolCalls minLiveSuffixTurns, false) :=
  suffixLoop_fixed messages _ _ (Nat.lt_succ_self _)

/-! ## the replacement -/

/-- the steps of a compaction that read or write a store, and can fail -/
inductive CompactionStep where
  | chatStartedEvent
  | readChatEvents
  | chatCheckpointBlob
  | checkpointBlob
  | checkpointEvent
  | readTaskContextState
  | readProviderTranscript
  | readProcessTruth
  | readContextPack
  | instructionBlob
  | inputBlob
  | callStartedEvent
  | callCompletedEvent
  | compactionFailedEvent
  | readSummary
  | chatSummaryBlob
  | chatSummaryEvent
  | readMessages
  | liveSuffixBlob
  | messagesBlob
  | transcriptSummaryBlob
  | transcriptCompactedEvent
  | upsertTranscript
  | readReplacement
  | replacementEvent
  | contextReplacedEvent
  | protocolValidatedEvent
  | reestimateEvent
  | readTrimState
  | readTrimContextPack
  | trimBlob
  | readTrim
  | trimEvent
  deriving DecidableEq

abbrev Steps := CompactionStep → Except String Unit

/-- several steps, up to the first that fails -/
def Steps.run (steps : Steps) (l : List CompactionStep) : Except String Unit :=
  l.forM steps

theorem Steps.run_ok (steps : Steps) (l : List CompactionStep) :
    steps.run l = .ok () ↔ ∀ step ∈ l, steps step = .ok () := by
  induction l with
  | nil => exact iff_of_true rfl fun _ h => absurd h List.not_mem_nil
  | cons step l ih =>
    rw [List.forall_mem_cons, ← ih]
    show (steps step >>= fun _ => steps.run l) = .ok () ↔ _
    cases steps step with
    | error e => exact iff_of_false (fun h => nomatch h) fun h => nomatch h.1
    | ok u => exact (and_iff_right rfl).symm

def deepseekProtocol (provider protocol : String) : Bool :=
  provider == "deepseek" && protocol == "deepseek_chat_completions"

def replacementMessages (t : Transcript) (pending : List ProviderToolCallState) (summary : String)
    (minLiveSuffixTurns : Nat) : List ProviderTranscriptMessage :=
  userMessage summary ::
    t.messages.drop (liveSuffixStartIndex t.messages pending minLiveSuffixTurns)

def commitSteps : List CompactionStep :=
  [.liveSuffixBlob, .messagesBlob, .transcriptSummaryBlob, .transcriptCompactedEvent]

/-- `replace_provider_visible_transcript_with_summary`, for the transcript of the provider; the
messages that replace the old ones -/
def replaceProviderVisibleTranscript (steps : Steps) (provider protocol summary : String)
    (minLiveSuffixTurns : Nat) : TranscriptM (Option (List ProviderTranscriptMessage)) := do
  let t ← get
  match replayProviderTranscriptState t.events with
  | none => pure none
  | some pending => do
    lift (steps .readMessages)
    if t.messages = [] then pure none
    else
      let replacement := replacementMessages t pending summary minLiveSuffixTurns
      let validation := validateDeepseekNativeMessages replacement
      if deepseekProtocol provider protocol ∧ validation.valid = false then
        throw ("provider transcript replacement rejected before commit: " ++
          Text.join "; " validation.errors)
      else do
        lift (steps.run commitSteps)
        set (⟨replacement, t.events ++ [.transcriptCompacted]⟩ : Transcript)
        pure (some replacement)

/-- the replacement is made: there is a transcript with messages, a DeepSeek replacement follows the
protocol, and the files and the event are written -/
structure Replaces (steps : Steps) (provider protocol summary : String) (minLiveSuffixTurns : Nat)
    (t : Transcript) (messages : List ProviderTranscriptMessage) : Prop where
  there : t.Exists
  read : steps .readMessages = .ok ()
  nonempty : t.messages ≠ []
  eq : messages = replacementMessages t (pendingToolCalls t.events) summary minLiveSuffixTurns
  valid : deepseekProtocol provider protocol → (validateDeepseekNativeMessages messages).valid
  written : steps.run commitSteps = .ok ()

def Transcript.replaced (t : Transcript) (messages : List ProviderTranscriptMessage) : Transcript :=
  ⟨messages, t.events ++ [.transcriptCompacted]⟩

variable {steps : Steps} {provider protocol summary : String} {minTurns : Nat} {t : Transcript}
  {messages : List ProviderTranscriptMessage}

theorem replace_of_replaces (h : Replaces steps provider protocol summary minTurns t messages) :
    Ok (replaceProviderVisibleTranscript steps provider protocol summary minTurns) t
      (some messages) (t.replaced messages) := by
  have hvalid : ¬ (deepseekProtocol provider protocol = true ∧ (validateDeepseekNativeMessages
      (replacementMessages t (pendingToolCalls t.events) summary minTurns)).valid = false) := by
    rintro ⟨hp, hv⟩
    have := h.valid hp
    rw [h.eq, hv] at this
    cases this
  unfold replaceProviderVisibleTranscript Ok
  rw [bind_of_ok (get_apply t), replay_of_exists h.there]
  dsimp only
  rw [bind_of_ok (lift_ok.mpr ⟨h.read, rfl⟩), if_neg h.nonempty, if_neg hvalid,
    bind_of_ok (lift_ok.mpr ⟨h.written, rfl⟩), h.eq]
  rfl

/-- there is no transcript, or it has no messages -/
def NothingToReplace (steps : Steps) (t : Transcript) : Prop :=
  ¬ t.Exists ∨ steps .readMessages = .ok () ∧ t.messages = []

theorem replace_of_nothing (h : NothingToReplace steps t) :
    Ok (replaceProviderVisibleTranscript steps provider protocol summary minTurns) t none t := by
  unfold replaceProviderVisibleTranscript Ok
  rw [bind_of_ok (get_apply t)]
  by_cases he : t.Exists
  · obtain ⟨hread, hm⟩ := h.resolve_left (not_not_intro he)
    rw [replay_of_exists he]
    dsimp only
    rw [bind_of_ok (lift_ok.mpr ⟨hread, rfl⟩), if_pos hm]
    rfl
  · rw [replay_of_not_exists he]
    rfl

theorem replace_of_not (h : ∀ messages,
      ¬ Replaces steps provider protocol summary minTurns t messages) :
    (∃ e, Err (replaceProviderVisibleTranscript steps provider protocol summary minTurns) t e t) ∨
      NothingToReplace steps t := by
  by_cases hnothing : NothingToReplace steps t
  · exact Or.inr hnothing
  have he : t.Exists := by
    by_contra he
    exact hnothing (Or.inl he)
  refine Or.inl ?_
  unfold replaceProviderVisibleTranscript Err
  rw [bind_of_ok (get_apply t), replay_of_exists he]
  dsimp only
  cases hread : steps .readMessages with
  | error e => exact ⟨e, bind_of_err (lift_err.mpr ⟨rfl, rfl⟩)⟩
  | ok u =>
    have hm : t.messages ≠ [] := fun hm => hnothing (Or.inr ⟨hread, hm⟩)
    rw [bind_of_ok (lift_ok.mpr ⟨rfl, rfl⟩), if_neg hm]
    split
    · exact ⟨_, rfl⟩
    · rename_i hvalid
      cases hw : steps.run commitSteps with
      | error e => exact ⟨e, bind_of_err (lift_err.mpr ⟨rfl, rfl⟩)⟩
      | ok u =>
        refine absurd ⟨he, hread, hm, rfl, fun hp => ?_, hw⟩ (h _)
        by_contra hv
        exact hvalid ⟨hp, Bool.not_eq_true _ ▸ hv⟩

/-! ## what a provider sees -/

/-- the messages that are sent, and the ids that wait for a result -/
def visible (t : Transcript) : List ProviderTranscriptMessage × List String :=
  (readMessagesFromState t, pendingIds t)

theorem visible_replaced (h : t.Exists) :
    visible (t.replaced messages) = visible t ↔ messages = t.messages := by
  have hthere : (t.replaced messages).Exists := by
    rw [Transcript.Exists, Transcript.replaced, List.any_append]
    exact Bool.or_true _
  have hpending : pendingIds (t.replaced messages) = pendingIds t := by
    rw [pendingIds, pendingIds, Transcript.replaced, pendingToolCalls, pendingToolCalls,
      List.foldl_append]
    rfl
  rw [visible, visible, readMessages_of_exists hthere, readMessages_of_exists h, hpending]
  exact ⟨fun e => congrArg Prod.fst e, fun e => congrArg (·, _) e⟩

end Provider

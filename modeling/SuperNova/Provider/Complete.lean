import SuperNova.Provider.Written

/-!
# A recorder that ends

* `After`: the file of messages, the calls and the counts that a recorder leaves behind;
* `after_assistant`, `after_tool`, `after_user` (**main**): what each recorder makes of them.
-/

set_option linter.unusedSectionVars false

namespace Provider

open Answers Workspace Truth

/-! ## what the events tell -/

/-- the file of messages that an event names -/
def StoredEvent.names : StoredEvent → Option String
  | .transcriptAppended messagesRef _ _ _ _ _ _ _ => some messagesRef
  | .transcriptCompacted messagesRef _ => some messagesRef
  | _ => none

def StoredEvent.pendingCount : StoredEvent → Option Nat
  | .transcriptAppended _ _ _ _ _ _ _ count => some count
  | _ => none

/-- the last count that was written to an event -/
def writtenCount (events : List StoredEvent) : Option Nat :=
  (events.filterMap StoredEvent.pendingCount).getLast?

/-- what an event does to the calls -/
def replayCalls (calls : List ProviderToolCallState) : StoredEvent → List ProviderToolCallState
  | .toolCallRequested id name _ => calls ++ [⟨id, name, .requested⟩]
  | .toolResultRecorded id _ _ _ _ => calls.map (completeCall id)
  | _ => calls

theorem calls_replayStored (replay : Replay) (event : StoredEvent) :
    (replayStored replay event).calls = replayCalls replay.calls event := by
  cases event <;> rfl

theorem calls_foldl (events : List StoredEvent) (replay : Replay) :
    (events.foldl replayStored replay).calls = events.foldl replayCalls replay.calls := by
  induction events generalizing replay with
  | nil => rfl
  | cons event events ih => rw [List.foldl_cons, List.foldl_cons, ih, calls_replayStored]

theorem messagesRef_replayStored (replay : Replay) (event : StoredEvent) :
    (replayStored replay event).messagesRef = event.names.or replay.messagesRef := by
  cases event <;> rfl

theorem messagesRef_foldl (events : List StoredEvent) (replay : Replay) :
    (events.foldl replayStored replay).messagesRef =
      (events.filterMap StoredEvent.names).getLast?.or replay.messagesRef := by
  induction events using List.reverseRecOn with
  | nil => rfl
  | append_singleton events event ih =>
    rw [List.foldl_concat, messagesRef_replayStored, ih, List.filterMap_append, List.getLast?_append]
    cases hnames : event.names <;> simp [hnames]

theorem messagesRef_replayAll (events : List StoredEvent) :
    (replayAll events).messagesRef = (events.filterMap StoredEvent.names).getLast? := by
  rw [replayAll, messagesRef_foldl, Replay.start, Option.or_none]

theorem calls_replayAll (events more : List StoredEvent) :
    (replayAll (events ++ more)).calls = more.foldl replayCalls (replayAll events).calls := by
  rw [replayAll, List.foldl_append, calls_foldl, replayAll]

section
variable {r : Recorder} {s : TruthStore} {messages : List ProviderTranscriptMessage}
  {event : StoredEvent}

/-! ## what a recorder leaves behind -/

/-- the file of messages, the calls and the counts in a store -/
structure After (r : Recorder) (s : TruthStore) (messages : List ProviderTranscriptMessage)
    (calls : List ProviderToolCallState) (count : Nat) : Prop where
  named : (replayAll s.events).messagesRef = some (r.ref .messages)
  stored : s.files (r.path .messages) = some (.messages messages)
  calls : (replayAll s.events).calls = calls
  summary : ∃ summary, s.files (r.path .summary) = some (.summary summary) ∧
    summary.pendingToolCallCount = count
  written : writtenCount s.events = some count

theorem read_of_named {file : TranscriptFile}
    (hnamed : (replayAll s.events).messagesRef = some (r.ref file))
    (hstored : s.files (r.path file) = some (.messages messages)) :
    readMessages r s (replayState s.events) = .ok messages := by
  rw [replayState, hnamed]
  show readProviderMessages r s _ = _
  unfold readProviderMessages
  dsimp only
  rw [resolve_ref]
  dsimp only
  rw [hstored]

theorem After.read {calls : List ProviderToolCallState} {count : Nat} (h : After r s messages calls count) :
    readMessages r s (replayState s.events) = .ok messages :=
  read_of_named h.named h.stored

theorem getLast_filterMap {α β : Type} {f : α → Option β} {front back : List α} {a : α} {b : β}
    (h : f a = some b) (hback : ∀ x ∈ back, f x = none) :
    ((front ++ a :: back).filterMap f).getLast? = some b := by
  have hnone : back.filterMap f = [] := List.filterMap_eq_nil_iff.mpr hback
  rw [List.filterMap_append, List.filterMap_cons_some h, hnone]
  exact List.getLast?_concat

theorem foldl_quiet {calls : List ProviderToolCallState} {events : List StoredEvent}
    (h : ∀ e ∈ events, ∀ calls, replayCalls calls e = calls) : events.foldl replayCalls calls = calls := by
  induction events generalizing calls with
  | nil => rfl
  | cons e events ih =>
    obtain ⟨he, hrest⟩ := List.forall_mem_cons.mp h
    rw [List.foldl_cons, he, ih hrest]

section transcript
variable {latest : Option String} {pendingCount : Nat} {reasoningRefs : List String}

theorem quiet_transcriptWrites :
    ∀ e ∈ eventsOf (transcriptWrites r messages latest pendingCount reasoningRefs),
      ∀ calls, replayCalls calls e = calls := by
  unfold transcriptWrites
  split <;> simp [eventsOf, replayCalls]

theorem mem_transcriptWrites :
    .file .messages (.messages (compactIfLarge r.codec messages)) ∈
      transcriptWrites r messages latest pendingCount reasoningRefs := by
  simp [transcriptWrites]

theorem mem_summary : ∃ summary : TranscriptSummary, .file .summary (.summary summary) ∈
    transcriptWrites r messages latest pendingCount reasoningRefs ∧
      summary.pendingToolCallCount = pendingCount := by
  refine ⟨_, List.mem_append_right _ (List.mem_singleton_self _), rfl⟩

theorem quiet_created (state : Option ProviderTranscriptState) :
    ∀ e ∈ eventsOf (createdWrites state), ∀ calls, replayCalls calls e = calls := by
  cases state <;> simp [createdWrites, eventsOf, replayCalls]

theorem quiet_reasoning (index : Nat) (reasoning : Option String) :
    ∀ e ∈ eventsOf (reasoningWrites r index reasoning), ∀ calls, replayCalls calls e = calls := by
  cases reasoning <;> simp [reasoningWrites, eventsOf, replayCalls]

theorem after_transcript (before after : List StoredEvent) {front back : List Write} {summaryRef : String}
    {latest' reasoning tool : Option String} {index total : Nat}
    (hproper : Proper r (front ++ transcriptWrites r messages latest pendingCount reasoningRefs ++ back))
    (hfront : ∀ e ∈ eventsOf front, ∀ calls, replayCalls calls e = calls)
    (hback : eventsOf back = before ++ .transcriptAppended (r.ref .messages) summaryRef latest' reasoning
      tool index total pendingCount :: after)
    (hnames : ∀ e ∈ after, e.names = none) (hwritten : ∀ e ∈ after, e.pendingCount = none) :
    After r ((front ++ transcriptWrites r messages latest pendingCount reasoningRefs ++ back).foldl
        (TruthStore.write r) s)
      (compactIfLarge r.codec messages) ((eventsOf back).foldl replayCalls (replayAll s.events).calls)
      pendingCount where
  named := by
    rw [messagesRef_replayAll, events_writes, eventsOf_append, hback, ← List.append_assoc, ← List.append_assoc]
    exact getLast_filterMap rfl hnames
  stored := hproper.written (List.mem_append_left _ (List.mem_append_right _ mem_transcriptWrites))
  calls := by
    rw [events_writes, calls_replayAll, eventsOf_append, eventsOf_append, List.foldl_append,
      List.foldl_append, foldl_quiet hfront, foldl_quiet quiet_transcriptWrites]
  summary := by
    obtain ⟨summary, hmem, hcount⟩ := @mem_summary r messages latest pendingCount reasoningRefs
    exact ⟨summary, hproper.written (List.mem_append_left _ (List.mem_append_right _ hmem)), hcount⟩
  written := by
    rw [writtenCount, events_writes, eventsOf_append, hback, ← List.append_assoc, ← List.append_assoc]
    exact getLast_filterMap rfl hwritten

end transcript

/-! ## each recorder -/

theorem after_tool {previous : ProviderTranscriptState} (id : String) (toolResult : Json) :
    After r ((toolWrites r previous messages id toolResult).foldl (TruthStore.write r) s)
      (compactIfLarge r.codec (messages ++ [toolMessage r.codec id toolResult]))
      ((replayAll s.events).calls.map (completeCall id))
      ((completeFirst id previous.pendingToolCalls).filter (·.status ≠ .completed)).length :=
  after_transcript [_] [] (proper_tool id toolResult) (by simp [eventsOf]) rfl
    (by simp) (by simp)

/-- the state of a call that is asked for -/
def requestedState (call : ProviderToolCall) : ProviderToolCallState :=
  ⟨call.id, call.function.strAt? "name", .requested⟩

theorem eventsOf_requests (index : Nat) (assistant : ProviderAssistantMessage) :
    eventsOf (requestWrites r index assistant) = assistant.toolCalls.map fun call =>
      .toolCallRequested call.id (call.function.strAt? "name") (r.ref (.assistant index)) := by
  unfold requestWrites
  induction assistant.toolCalls with
  | nil => rfl
  | cons call calls ih => exact congrArg (_ :: ·) ih

theorem foldl_requests {calls : List ProviderToolCallState} {index : Nat}
    {assistant : ProviderAssistantMessage} :
    (eventsOf (requestWrites r index assistant)).foldl replayCalls calls =
      calls ++ assistant.toolCalls.map requestedState := by
  rw [eventsOf_requests]
  induction assistant.toolCalls generalizing calls with
  | nil => exact (List.append_nil calls).symm
  | cons call requests ih =>
    rw [List.map_cons, List.foldl_cons, ih, List.map_cons]
    exact List.append_assoc _ [requestedState call] _

theorem after_assistant {state : Option ProviderTranscriptState} (assistant : ProviderAssistantMessage)
    (store : Bool) :
    After r ((assistantWrites r state messages assistant store).foldl (TruthStore.write r) s)
      (compactIfLarge r.codec (messages ++ [assistantMessage assistant]))
      ((replayAll s.events).calls ++ assistant.toolCalls.map requestedState)
      (((state.map (·.pendingToolCalls)).getD []).length + assistant.toolCalls.length) := by
  have hproper : Proper r (assistantWrites r state messages assistant store) :=
    proper_assistant state assistant store
  unfold assistantWrites at hproper ⊢
  dsimp only at hproper ⊢
  rw [List.append_assoc _ [_, _]] at hproper ⊢
  rw [← @foldl_requests r _ messages.length]
  refine after_transcript [] (_ :: eventsOf (requestWrites r messages.length assistant)) hproper ?_ rfl ?_ ?_
  · rw [eventsOf_append, eventsOf_append]
    exact List.forall_mem_append.mpr ⟨List.forall_mem_append.mpr
      ⟨quiet_created state, quiet_reasoning _ _⟩, by simp [eventsOf]⟩
  · rw [eventsOf_requests]
    simp [StoredEvent.names]
  · rw [eventsOf_requests]
    simp [StoredEvent.pendingCount]

theorem after_user {state : Option ProviderTranscriptState} {message : ProviderTranscriptMessage}
    {file : TranscriptFile} {event : StoredEvent}
    (hproper : Proper r (createdWrites state ++ userWrites r state messages message file event))
    (hevent : ∀ calls, replayCalls calls event = calls) :
    After r ((createdWrites state ++ userWrites r state messages message file event).foldl
        (TruthStore.write r) s)
      (compactIfLarge r.codec (messages ++ [message])) (replayAll s.events).calls
      ((state.map (·.pendingToolCalls)).getD []).length := by
  unfold userWrites at hproper ⊢
  dsimp only at hproper ⊢
  rw [← List.append_assoc, ← List.append_assoc] at hproper ⊢
  have hafter := after_transcript (s := s) [event] [] hproper ?_ rfl (by simp)
    (by simp)
  · rw [foldl_quiet] at hafter
    · exact hafter
    · simp only [eventsOf, List.forall_mem_cons]
      exact ⟨hevent, fun _ => rfl, fun _ h => absurd h List.not_mem_nil⟩
  · rw [eventsOf_append]
    exact List.forall_mem_append.mpr ⟨quiet_created state, by simp [eventsOf]⟩

theorem read_replacement {previous : ProviderTranscriptState} {suffix : List ProviderTranscriptMessage}
    {stamp : Nat} :
    readMessages r ((replacementWrites r previous suffix messages stamp).foldl (TruthStore.write r) s)
      (replayState ((replacementWrites r previous suffix messages stamp).foldl
        (TruthStore.write r) s).events) = .ok messages := by
  have hproper : Proper r (replacementWrites r previous suffix messages stamp) :=
    proper_replacement suffix messages stamp
  refine @read_of_named r _ messages (.messagesCompacted stamp) ?_ (hproper.written ?_)
  · rw [messagesRef_replayAll, events_writes]
    exact getLast_filterMap rfl (fun _ h => absurd h List.not_mem_nil)
  · simp [replacementWrites]

/-! ## the messages after a move -/

theorem run_concat (r : Recorder) (moves : List Move) (move : Move) :
    TruthStore.run r (moves ++ [move]) = (TruthStore.run r moves).step r move :=
  List.foldl_concat _ _ _ _

theorem writes_eq_nil {move : Move} (h : ∀ writes, writesOf r s move.op = .ok writes → writes = []) :
    move.writes r s = [] := by
  unfold Move.writes
  cases hwrites : writesOf r s move.op with
  | error e => rfl
  | ok writes =>
    rw [h writes hwrites]
    cases move.stop with
    | none => rfl
    | some n => exact List.take_nil

theorem step_nothing {move : Move} (h : move.writes r s = []) : s.step r move = s := by
  unfold TruthStore.step
  rw [h]
  rfl

theorem step_complete {op : Op} {writes : List Write} (h : writesOf r s op = .ok writes) :
    s.step r ⟨op, none⟩ = writes.foldl (TruthStore.write r) s := by
  unfold TruthStore.step Move.writes
  rw [h]
  rfl

/-- the messages that the next recorder reads, and the calls -/
structure Holds (r : Recorder) (s : TruthStore) (messages : List ProviderTranscriptMessage)
    (calls : List ProviderToolCallState) : Prop where
  read : readMessages r s (replayState s.events) = .ok messages
  calls : (replayAll s.events).calls = calls

theorem After.holds {calls : List ProviderToolCallState} {count : Nat} (h : After r s messages calls count) :
    Holds r s messages calls := ⟨h.read, h.calls⟩

section
variable {calls : List ProviderToolCallState}

theorem holds_user (h : Holds r s messages calls) (content : String) :
    Holds r (s.step r ⟨.userMessage content, none⟩)
      (compactIfLarge r.codec (messages ++ [userMessage content])) calls := by
  have hwrites : writesOf r s (.userMessage content) = .ok (createdWrites (replayState s.events) ++
      userWrites r (replayState s.events) messages (userMessage content) (.user messages.length)
        (.userMessageRecorded (r.ref (.user messages.length)) (r.ref .messages) (r.ref .summary)
          messages.length)) := Io.result_bind_ok.mpr ⟨messages, h.read, rfl⟩
  rw [step_complete hwrites, ← h.calls]
  exact (after_user (writesOf_proper hwrites) fun _ => rfl).holds

theorem holds_assistant (h : Holds r s messages calls) {response : ModelProviderResponse}
    {assistant : ProviderAssistantMessage} (hassistant : assistantOf response = some assistant)
    (store : Bool) :
    Holds r (s.step r ⟨.assistantResponse response store, none⟩)
      (compactIfLarge r.codec (messages ++ [assistantMessage assistant]))
      (calls ++ assistant.toolCalls.map requestedState) := by
  rw [step_complete (writesOf_assistant hassistant h.read), ← h.calls]
  exact (after_assistant assistant store).holds

theorem holds_replacement (h : Holds r s messages calls) (hmessages : messages ≠ [])
    (hprovider : deepseekProtocol r.provider r.protocol = false) (summaryText : String) (n stamp : Nat) :
    Holds r (s.step r ⟨.replacement summaryText n stamp, none⟩)
      (userMessage summaryText ::
        messages.drop (liveSuffixStartIndex messages (calls.filter (·.status ≠ .completed)) n)) calls := by
  obtain ⟨hread, hcalls⟩ := h
  cases hprevious : replayState s.events with
  | none =>
    rw [hprevious] at hread
    cases hread
    exact absurd rfl hmessages
  | some previous =>
    rw [hprevious] at hread
    have hpending : previous.pendingToolCalls = calls.filter (·.status ≠ .completed) := by
      rw [replayState, hcalls] at hprevious
      obtain ⟨ref, -, rfl⟩ := Option.map_eq_some_iff.mp hprevious
      rfl
    rw [← hpending]
    have hwrites : writesOf r s (.replacement summaryText n stamp) = .ok (replacementWrites r previous
        (messages.drop (liveSuffixStartIndex messages previous.pendingToolCalls n))
        (userMessage summaryText ::
          messages.drop (liveSuffixStartIndex messages previous.pendingToolCalls n)) stamp) := by
      show s.replaceProviderVisibleTranscript r summaryText n stamp = _
      unfold TruthStore.replaceProviderVisibleTranscript
      rw [hprevious]
      refine Io.result_bind_ok.mpr ⟨messages, hread, ?_⟩
      rw [if_neg hmessages]
      dsimp only
      rw [if_neg (by simp [hprovider])]
    rw [step_complete hwrites]
    refine ⟨read_replacement, ?_⟩
    rw [events_writes, calls_replayAll, hcalls]
    rfl

end

end

end Provider

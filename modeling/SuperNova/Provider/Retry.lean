import SuperNova.Provider.Counts

/-!
# A tool result that is recorded again

The recorder of a tool result stops after some of its writes, and is called again with the same result.

* `Named`: the events name a file of messages, in every store that a run can reach;
* `holds_stopped`: what the second call finds;
* `retried_iff` (**main**): the second call makes up for the first exactly when the stop was safe.
-/

set_option linter.unusedSectionVars false

namespace Provider

open Answers Workspace Truth

/-! ## the files that the events name -/

/-- a file of all messages -/
def TranscriptFile.OfMessages : TranscriptFile → Prop
  | messages | messagesCompacted _ => True
  | _ => False

/-- an event names only files of messages -/
def NamesFile (r : Recorder) (e : StoredEvent) : Prop :=
  ∀ ref, e.names = some ref → ∃ file : TranscriptFile, file.OfMessages ∧ ref = r.ref file

section
variable {r : Recorder} {s : TruthStore} {op : Op} {writes : List Write}

theorem namesFile_messages {e : StoredEvent} (h : ∀ ref, e.names = some ref → ref = r.ref .messages) :
    NamesFile r e := by
  intro ref href
  exact ⟨.messages, trivial, h ref href⟩

theorem namesFile_none {e : StoredEvent} (h : e.names = none) : NamesFile r e := by
  intro ref href
  rw [h] at href
  cases href

theorem namesFile_transcript {messages : List ProviderTranscriptMessage} {latest : Option String}
    {pendingCount : Nat} {reasoningRefs : List String} :
    ∀ e ∈ eventsOf (transcriptWrites r messages latest pendingCount reasoningRefs), NamesFile r e := by
  have hcompacted : NamesFile r (.transcriptCompacted (r.ref .messages) none) :=
    namesFile_messages fun ref href => (Option.some.inj href).symm
  unfold transcriptWrites
  split <;> simp [eventsOf, hcompacted]

theorem namesFile_created (previous : Option ProviderTranscriptState) :
    ∀ e ∈ eventsOf (createdWrites previous), NamesFile r e := by
  cases previous with
  | some previous => exact fun e h => absurd h List.not_mem_nil
  | none => exact fun e h => List.mem_singleton.mp h ▸ namesFile_none rfl

theorem namesFile_appended {summaryRef : String} {latest reasoning tool : Option String}
    {index total count : Nat} : NamesFile r
      (.transcriptAppended (r.ref .messages) summaryRef latest reasoning tool index total count) :=
  namesFile_messages fun _ href => (Option.some.inj href).symm

theorem namesFile_user {state : Option ProviderTranscriptState} {messages : List ProviderTranscriptMessage}
    {message : ProviderTranscriptMessage} {file : TranscriptFile} {event : StoredEvent}
    (hevent : event.names = none) :
    ∀ e ∈ eventsOf (userWrites r state messages message file event), NamesFile r e := by
  unfold userWrites
  simp only [eventsOf_append, List.forall_mem_append]
  refine ⟨⟨fun e h => absurd h List.not_mem_nil, namesFile_transcript⟩, ?_⟩
  simp only [eventsOf, List.forall_mem_cons]
  exact ⟨namesFile_none hevent, namesFile_appended, fun e h => absurd h List.not_mem_nil⟩

theorem namesFile_writes (h : writesOf r s op = .ok writes) : ∀ e ∈ eventsOf writes, NamesFile r e := by
  cases writesOf_cases h with
  | nothing => exact fun e h => absurd h List.not_mem_nil
  | assistant store hassistant hmessages =>
    unfold assistantWrites
    simp only [eventsOf_append, List.forall_mem_append]
    refine ⟨⟨⟨⟨⟨namesFile_created _, ?_⟩, fun e h => absurd h List.not_mem_nil⟩, namesFile_transcript⟩, ?_⟩, ?_⟩
    · intro e he
      unfold reasoningWrites at he
      split at he
      · exact absurd he List.not_mem_nil
      · exact List.mem_singleton.mp he ▸ namesFile_none rfl
    · simp only [eventsOf, List.forall_mem_cons]
      exact ⟨namesFile_appended, namesFile_none rfl, fun e h => absurd h List.not_mem_nil⟩
    · rw [eventsOf_requests]
      intro e he
      obtain ⟨call, -, rfl⟩ := List.mem_map.mp he
      exact namesFile_none rfl
  | tool toolResult hprevious hpending hmessages =>
    unfold toolWrites
    simp only [eventsOf_append, List.forall_mem_append]
    refine ⟨⟨fun e h => absurd h List.not_mem_nil, namesFile_transcript⟩, ?_⟩
    simp only [eventsOf, List.forall_mem_cons]
    exact ⟨namesFile_none rfl, namesFile_appended, fun e h => absurd h List.not_mem_nil⟩
  | user content hmessages =>
    rw [eventsOf_append]
    exact List.forall_mem_append.mpr ⟨namesFile_created _, namesFile_user rfl⟩
  | control controlMessage hprevious hmessages => exact namesFile_user rfl
  | replacement summaryText minLiveSuffixTurns stamp hprevious hmessages =>
    intro e he
    rw [List.mem_singleton.mp he]
    exact fun ref href => ⟨.messagesCompacted stamp, trivial, (Option.some.inj href).symm⟩

theorem eventsOf_take {n : Nat} {e : StoredEvent} (h : e ∈ eventsOf (writes.take n)) : e ∈ eventsOf writes := by
  rw [← List.take_append_drop n writes, eventsOf_append]
  exact List.mem_append_left _ h

theorem named_run (r : Recorder) (moves : List Move) :
    ∀ e ∈ (TruthStore.run r moves).events, NamesFile r e := by
  induction moves using List.reverseRecOn with
  | nil => exact fun e h => absurd h List.not_mem_nil
  | append_singleton moves move ih =>
    rw [run_concat, TruthStore.step, events_writes]
    refine List.forall_mem_append.mpr ⟨ih, fun e he => ?_⟩
    unfold Move.writes at he
    cases hwrites : writesOf r (TruthStore.run r moves) move.op with
    | error error =>
      rw [hwrites] at he
      exact absurd he List.not_mem_nil
    | ok writes =>
      rw [hwrites] at he
      refine namesFile_writes hwrites e ?_
      cases hstop : move.stop with
      | none => rwa [hstop] at he
      | some n =>
        rw [hstop] at he
        exact eventsOf_take he

end

/-! ## a second call -/

/-- the messages that the provider is sent, and the calls that wait for a result -/
def storedTranscript (r : Recorder) (s : TruthStore) :
    Except String (List ProviderTranscriptMessage) × Option (List ProviderToolCallState) :=
  (readMessages r s (replayState s.events), (replayState s.events).map (·.pendingToolCalls))

/-- a recorder that stops after `k` writes, and is called again with the same result -/
def retried (r : Recorder) (s : TruthStore) (id : String) (toolResult : Json) (k : Nat) : TruthStore :=
  (s.step r ⟨.toolResult id toolResult, some k⟩).step r ⟨.toolResult id toolResult, none⟩

/-- the transcript is that of one call, and ends with one more message for the id -/
structure Retried (r : Recorder) (s : TruthStore) (id : String) (toolResult : Json) (k : Nat) : Prop where
  same : storedTranscript r (retried r s id toolResult k) =
    storedTranscript r (s.step r ⟨.toolResult id toolResult, none⟩)
  ends : ∀ previous messages, replayState s.events = some previous →
    previous.pendingToolCalls.any (·.providerToolCallId == id) = true →
    readProviderMessages r s previous = .ok messages →
    ∃ front, readMessages r (retried r s id toolResult k)
        (replayState (retried r s id toolResult k).events) =
          .ok (front ++ [toolMessage r.codec id toolResult]) ∧
      front.countP (answersTo id) = messages.countP (answersTo id)

/-- the stop comes before `messages.json` is written, or the events name this file after the stop
exactly when `provider_tool_result_recorded` is there; there is one write more when the transcript is
large -/
def SafeStop (r : Recorder) (s : TruthStore) (id : String) (toolResult : Json) (k : Nat) : Prop :=
  ∀ previous messages, replayState s.events = some previous →
    previous.pendingToolCalls.any (·.providerToolCallId == id) = true →
    readProviderMessages r s previous = .ok messages →
    let isLarge := large r.codec (messages ++ [toolMessage r.codec id toolResult])
    let recorded := if isLarge then 5 else 4
    k ≤ 1 ∨ ((previous.messagesRef = r.ref .messages ∨ (isLarge = true ∧ 3 ≤ k) ∨ recorded < k) ↔ recorded ≤ k)

section
variable {r : Recorder} {s : TruthStore} {writes : List Write} {id : String} {toolResult : Json}
  {previous : ProviderTranscriptState} {messages found : List ProviderTranscriptMessage}
  {calls : List ProviderToolCallState} {file : TranscriptFile}

theorem storedTranscript_of_holds (h : Holds r s messages calls)
    (hstate : replayState s.events = some previous) :
    storedTranscript r s = (.ok messages, some (calls.filter isPending)) := by
  unfold storedTranscript
  rw [h.read, hstate, Option.map_some, pending_of_state hstate, h.calls]

theorem storedTranscript_of_after {count : Nat} (h : After r s messages calls count) :
    storedTranscript r s = (.ok messages, some (calls.filter isPending)) := by
  obtain ⟨state, hstate, -⟩ := h.state
  exact storedTranscript_of_holds h.holds hstate

theorem read_of_holds (h : Holds r s messages calls) (hstate : replayState s.events = some previous) :
    readProviderMessages r s previous = .ok messages := by
  have hread := h.read
  rw [hstate] at hread
  exact hread

theorem not_pending_completed : (((calls.map (completeCall id)).filter isPending).any (hasId id)) = false := by
  rw [List.any_eq_false]
  intro call hcall hid
  obtain ⟨hmem, hpending⟩ := List.mem_filter.mp hcall
  obtain ⟨before, -, rfl⟩ := List.mem_map.mp hmem
  rw [hasId_completeCall] at hid
  rw [isPending_completeCall, hid] at hpending
  simp at hpending

theorem second_pending (toolResult : Json) (h : Holds r s found calls) (hstate : replayState s.events = some previous)
    (hpending : (calls.filter isPending).any (hasId id) = true) :
    storedTranscript r (s.step r ⟨.toolResult id toolResult, none⟩) =
      (.ok (compactIfLarge r.codec (found ++ [toolMessage r.codec id toolResult])),
        some ((calls.map (completeCall id)).filter isPending)) := by
  have hfound : previous.pendingToolCalls.any (·.providerToolCallId == id) = true := by
    rw [pending_of_state hstate, h.calls]
    exact hpending
  rw [step_complete (writesOf_tool hstate hfound (read_of_holds h hstate))]
  rw [← h.calls]
  exact storedTranscript_of_after (after_tool id toolResult)

theorem second_recorded (h : Holds r s found (calls.map (completeCall id)))
    (hstate : replayState s.events = some previous) :
    storedTranscript r (s.step r ⟨.toolResult id toolResult, none⟩) =
      (.ok found, some ((calls.map (completeCall id)).filter isPending)) := by
  have hrefused : ¬ ((replayAll s.events).calls.filter isPending).any (hasId id) = true := by
    rw [h.calls, not_pending_completed]
    exact Bool.false_ne_true
  rw [tool_refused hrefused]
  exact storedTranscript_of_holds h hstate

/-! ## what the second call finds -/

theorem stored_of_read (h : readProviderMessages r s previous = .ok messages)
    (hnamed : previous.messagesRef = r.ref file) : s.files (r.path file) = some (.messages messages) := by
  unfold readProviderMessages at h
  rw [hnamed, resolve_ref] at h
  dsimp only at h
  split at h
  · next found hfile =>
    cases h
    exact hfile
  · cases h
  · cases h

theorem ref_of_state (h : replayState s.events = some previous) :
    (replayAll s.events).messagesRef = some previous.messagesRef := by
  obtain ⟨ref, href, rfl⟩ := Option.map_eq_some_iff.mp h
  exact href

theorem file_of_state (hnames : ∀ e ∈ s.events, NamesFile r e) (h : replayState s.events = some previous) :
    ∃ file : TranscriptFile, file.OfMessages ∧ previous.messagesRef = r.ref file := by
  have href := ref_of_state h
  rw [messagesRef_replayAll] at href
  obtain ⟨e, he, hname⟩ := List.mem_filterMap.mp (List.mem_of_getLast? href)
  exact hnames e he _ hname

theorem state_after (h : replayState s.events = some previous) :
    ∃ state, replayState (writes.foldl (TruthStore.write r) s).events = some state := by
  have href := ref_of_state h
  have hafter : ((replayAll (writes.foldl (TruthStore.write r) s).events).messagesRef).isSome := by
    rw [events_writes, replayAll, List.foldl_append, messagesRef_foldl]
    show (Option.or _ (replayAll s.events).messagesRef).isSome
    rw [href, Option.isSome_or, Option.isSome_some, Bool.or_true]
  obtain ⟨ref, hsome⟩ := Option.isSome_iff_exists.mp hafter
  rw [replayState, hsome]
  exact ⟨_, rfl⟩

theorem calls_after : (replayAll (writes.foldl (TruthStore.write r) s).events).calls =
    (eventsOf writes).foldl replayCalls (replayAll s.events).calls := by
  rw [events_writes, calls_replayAll]

theorem named_after (hnamed : (replayAll s.events).messagesRef = some (r.ref file))
    (h : ∀ e ∈ eventsOf writes, e.names = none) :
    (replayAll (writes.foldl (TruthStore.write r) s).events).messagesRef = some (r.ref file) := by
  rw [messagesRef_replayAll] at hnamed
  rw [messagesRef_replayAll, events_writes, List.filterMap_append, List.filterMap_eq_nil_iff.mpr h,
    List.append_nil, hnamed]

theorem holds_kept (hnamed : (replayAll s.events).messagesRef = some (r.ref file))
    (hstored : s.files (r.path file) = some (.messages messages))
    (h : ∀ e ∈ eventsOf writes, e.names = none) (hfiles : ∀ c ∈ filesOf writes, c.1.key ≠ file.key) :
    Holds r (writes.foldl (TruthStore.write r) s) messages
      ((eventsOf writes).foldl replayCalls (replayAll s.events).calls) :=
  ⟨read_of_named (named_after hnamed h) ((not_written hfiles).trans hstored), calls_after⟩

theorem holds_over (hnamed : (replayAll s.events).messagesRef = some (r.ref .messages))
    (hproper : Proper r writes) (h : ∀ e ∈ eventsOf writes, e.names = none)
    (hfile : .file .messages (.messages found) ∈ writes) :
    Holds r (writes.foldl (TruthStore.write r) s) found
      ((eventsOf writes).foldl replayCalls (replayAll s.events).calls) :=
  ⟨read_of_named (named_after hnamed h) (hproper.written hfile), calls_after⟩

theorem holds_named (before after : List StoredEvent) {e : StoredEvent} (hproper : Proper r writes)
    (hevents : eventsOf writes = before ++ e :: after) (he : e.names = some (r.ref .messages))
    (hafter : ∀ e ∈ after, e.names = none) (hfile : .file .messages (.messages found) ∈ writes) :
    Holds r (writes.foldl (TruthStore.write r) s) found
      ((eventsOf writes).foldl replayCalls (replayAll s.events).calls) := by
  refine ⟨read_of_named ?_ (hproper.written hfile), calls_after⟩
  rw [messagesRef_replayAll, events_writes, hevents, ← List.append_assoc]
  exact getLast_filterMap he hafter

theorem holds_unnamed (hstate : replayState s.events = some previous)
    (hread : readProviderMessages r s previous = .ok messages)
    (hnames : ∀ e ∈ s.events, NamesFile r e) (hproper : Proper r writes)
    (hfile : .file .messages (.messages found) ∈ writes) (h : ∀ e ∈ eventsOf writes, e.names = none)
    (hkept : ∀ c ∈ filesOf writes, ∀ stamp, c.1.key ≠ .messagesCompacted stamp) :
    Holds r (writes.foldl (TruthStore.write r) s)
      (if previous.messagesRef = r.ref .messages then found else messages)
      ((eventsOf writes).foldl replayCalls (replayAll s.events).calls) := by
  have href := ref_of_state hstate
  by_cases hmessages : previous.messagesRef = r.ref .messages
  · rw [if_pos hmessages]
    rw [hmessages] at href
    exact holds_over href hproper h hfile
  · rw [if_neg hmessages]
    obtain ⟨file, hkind, hfileref⟩ := file_of_state hnames hstate
    rw [hfileref] at href
    cases file with
    | messages => exact absurd hfileref hmessages
    | messagesCompacted stamp =>
      exact holds_kept href (stored_of_read hread hfileref) h fun c hc => hkept c hc stamp
    | _ => exact False.elim hkind

section stopped
variable (hstate : replayState s.events = some previous)
  (hread : readProviderMessages r s previous = .ok messages) (hnames : ∀ e ∈ s.events, NamesFile r e)
include hstate hread hnames

theorem holds_early (id : String) (toolResult : Json) {k : Nat} (hk : k ≤ 1) :
    Holds r (((toolWrites r previous messages id toolResult).take k).foldl (TruthStore.write r) s) messages
      (replayAll s.events).calls := by
  obtain ⟨file, hkind, hfileref⟩ := file_of_state hnames hstate
  have href := ref_of_state hstate
  rw [hfileref] at href
  have hwrites : (toolWrites r previous messages id toolResult).take k = [] ∨
      (toolWrites r previous messages id toolResult).take k =
        [.file (.tool id) (.message (toolMessage r.codec id toolResult))] := by
    obtain rfl | rfl : k = 0 ∨ k = 1 := by omega
    · exact Or.inl rfl
    · exact Or.inr rfl
  have hstored := stored_of_read hread hfileref
  rcases hwrites with hnil | hone
  · rw [hnil]
    exact holds_kept href hstored (fun e h => absurd h List.not_mem_nil) (fun c h => absurd h List.not_mem_nil)
  · rw [hone]
    refine holds_kept href hstored (fun e h => absurd h List.not_mem_nil) fun c hc => ?_
    rw [List.mem_singleton.mp hc]
    cases file with
    | tool id' => exact False.elim hkind
    | _ => exact nofun

omit hstate hread hnames in
theorem toolWrites_small
    (hlarge : large r.codec (messages ++ [toolMessage r.codec id toolResult]) = false) :
    ∃ summary recorded appended cites, toolWrites r previous messages id toolResult =
        [.file (.tool id) (.message (toolMessage r.codec id toolResult)),
         .file .messages (.messages (compactIfLarge r.codec (messages ++ [toolMessage r.codec id toolResult]))),
         .file .summary (.summary summary), .event recorded cites, .event appended cites] ∧
      recorded.names = none ∧ appended.names = some (r.ref .messages) ∧
      (∀ calls, replayCalls calls recorded = calls.map (completeCall id)) ∧
      ∀ calls, replayCalls calls appended = calls := by
  unfold toolWrites transcriptWrites
  dsimp only
  rw [hlarge]
  exact ⟨_, _, _, _, rfl, rfl, rfl, fun _ => rfl, fun _ => rfl⟩

omit hstate hread hnames in
theorem toolWrites_large
    (hlarge : large r.codec (messages ++ [toolMessage r.codec id toolResult]) = true) :
    ∃ compacted summary recorded appended cites, toolWrites r previous messages id toolResult =
        [.file (.tool id) (.message (toolMessage r.codec id toolResult)),
         .file .messages (.messages (compactIfLarge r.codec (messages ++ [toolMessage r.codec id toolResult]))),
         .event compacted [], .file .summary (.summary summary), .event recorded cites,
         .event appended cites] ∧
      compacted.names = some (r.ref .messages) ∧ recorded.names = none ∧
      appended.names = some (r.ref .messages) ∧ (∀ calls, replayCalls calls compacted = calls) ∧
      (∀ calls, replayCalls calls recorded = calls.map (completeCall id)) ∧
      ∀ calls, replayCalls calls appended = calls := by
  unfold toolWrites transcriptWrites
  dsimp only
  rw [hlarge]
  exact ⟨_, _, _, _, _, rfl, rfl, rfl, rfl, fun _ => rfl, fun _ => rfl, fun _ => rfl⟩

theorem holds_small {k : Nat} (hk : 2 ≤ k)
    (hlarge : large r.codec (messages ++ [toolMessage r.codec id toolResult]) = false) :
    Holds r (((toolWrites r previous messages id toolResult).take k).foldl (TruthStore.write r) s)
      (if previous.messagesRef = r.ref .messages ∨ 4 < k then
        compactIfLarge r.codec (messages ++ [toolMessage r.codec id toolResult]) else messages)
      (if 4 ≤ k then (replayAll s.events).calls.map (completeCall id) else (replayAll s.events).calls) := by
  have hproper : Proper r (toolWrites r previous messages id toolResult) := proper_tool id toolResult
  obtain ⟨summary, recorded, appended, cites, hwrites, hrecorded, happended, hcompletes, hquiet⟩ :=
    @toolWrites_small r id toolResult previous messages hlarge
  rw [hwrites] at hproper ⊢
  by_cases hall : 4 < k
  · -- the last event names the file
    rw [List.take_of_length_le hall, if_pos (Or.inr hall), if_pos (by omega)]
    have hholds := holds_named (s := s) [recorded] [] hproper rfl happended (by simp)
        (List.mem_cons_of_mem _ List.mem_cons_self)
    simpa [eventsOf, hcompletes, hquiet] using hholds
  · rw [if_congr (or_iff_left hall) rfl rfl]
    obtain rfl | rfl | rfl : k = 2 ∨ k = 3 ∨ k = 4 := by omega
    · have hholds := holds_unnamed (s := s) hstate hread hnames (hproper.take 2)
        (List.mem_cons_of_mem _ List.mem_cons_self) (by simp [eventsOf]) (by simp [filesOf, TranscriptFile.key])
      exact hholds
    · have hholds := holds_unnamed (s := s) hstate hread hnames (hproper.take 3)
        (List.mem_cons_of_mem _ List.mem_cons_self) (by simp [eventsOf]) (by simp [filesOf, TranscriptFile.key])
      exact hholds
    · have hholds := holds_unnamed (s := s) hstate hread hnames (hproper.take 4)
        (List.mem_cons_of_mem _ List.mem_cons_self) (by simp [eventsOf, hrecorded])
        (by simp [filesOf, TranscriptFile.key])
      simpa [eventsOf, hcompletes] using hholds

theorem holds_large {k : Nat} (hk : 2 ≤ k)
    (hlarge : large r.codec (messages ++ [toolMessage r.codec id toolResult]) = true) :
    Holds r (((toolWrites r previous messages id toolResult).take k).foldl (TruthStore.write r) s)
      (if previous.messagesRef = r.ref .messages ∨ 3 ≤ k then
        compactIfLarge r.codec (messages ++ [toolMessage r.codec id toolResult]) else messages)
      (if 5 ≤ k then (replayAll s.events).calls.map (completeCall id) else (replayAll s.events).calls) := by
  have hproper : Proper r (toolWrites r previous messages id toolResult) := proper_tool id toolResult
  obtain ⟨compacted, summary, recorded, appended, cites, hwrites, hcompacted, hrecorded, happended, hsilent,
    hcompletes, hquiet⟩ := @toolWrites_large r id toolResult previous messages hlarge
  rw [hwrites] at hproper ⊢
  by_cases htwo : k = 2
  · subst htwo
    rw [if_congr (or_iff_left (by omega)) rfl rfl]
    have hholds := holds_unnamed (s := s) hstate hread hnames (hproper.take 2)
      (List.mem_cons_of_mem _ List.mem_cons_self) (by simp [eventsOf]) (by simp [filesOf, TranscriptFile.key])
    exact hholds
  · rw [if_pos (Or.inr (by omega))]
    by_cases hall : 5 < k
    · rw [List.take_of_length_le hall, if_pos (by omega)]
      have hholds := holds_named (s := s) [compacted, recorded] [] hproper rfl happended (by simp)
        (List.mem_cons_of_mem _ List.mem_cons_self)
      simpa [eventsOf, hsilent, hcompletes, hquiet] using hholds
    · -- the event of the compaction names the file
      obtain rfl | rfl | rfl : k = 3 ∨ k = 4 ∨ k = 5 := by omega
      · have hholds := holds_named (s := s) [] [] (hproper.take 3) rfl hcompacted (by simp)
          (List.mem_cons_of_mem _ List.mem_cons_self)
        simpa [eventsOf, hsilent] using hholds
      · have hholds := holds_named (s := s) [] [] (hproper.take 4) rfl hcompacted (by simp)
          (List.mem_cons_of_mem _ List.mem_cons_self)
        simpa [eventsOf, hsilent] using hholds
      · have hholds := holds_named (s := s) [] [recorded] (hproper.take 5) rfl hcompacted
          (by simpa using hrecorded) (List.mem_cons_of_mem _ List.mem_cons_self)
        simpa [eventsOf, hsilent, hcompletes] using hholds

end stopped

/-! ## when the second call makes up for the first -/

theorem length_compactIfLarge (codec : Codec) :
    (compactIfLarge codec messages).length = messages.length := by
  unfold compactIfLarge
  split
  · exact List.length_map _
  · rfl

theorem compact_concat (codec : Codec) (messages : List ProviderTranscriptMessage) (id : String)
    (toolResult : Json) : ∃ front,
    compactIfLarge codec (messages ++ [toolMessage codec id toolResult]) =
      front ++ [toolMessage codec id toolResult] ∧
    front.countP (answersTo id) = messages.countP (answersTo id) := by
  have hsame : compactReasoning (toolMessage codec id toolResult) = toolMessage codec id toolResult :=
    if_neg fun h => absurd h.1 (by simp [toolMessage])
  unfold compactIfLarge
  split
  · refine ⟨compactNonMandatoryReasoning messages, ?_, ?_⟩
    · rw [compactNonMandatoryReasoning, List.map_append, List.map_singleton, hsame]
      rfl
    · rw [compactNonMandatoryReasoning, List.countP_map]
      exact List.countP_congr fun m _ => by rw [Function.comp_apply, answersTo_compactReasoning]
  · exact ⟨messages, rfl, rfl⟩

theorem second_iff {named recorded : Prop} [Decidable named] [Decidable recorded]
    (h : Holds r s
      (if named then compactIfLarge r.codec (messages ++ [toolMessage r.codec id toolResult]) else messages)
      (if recorded then calls.map (completeCall id) else calls))
    (hstate : replayState s.events = some previous)
    (hpending : (calls.filter isPending).any (hasId id) = true) :
    storedTranscript r (s.step r ⟨.toolResult id toolResult, none⟩) =
      (.ok (compactIfLarge r.codec (messages ++ [toolMessage r.codec id toolResult])),
        some ((calls.map (completeCall id)).filter isPending)) ↔ (named ↔ recorded) := by
  have hlonger : ∀ l : List ProviderTranscriptMessage,
      compactIfLarge r.codec (l ++ [toolMessage r.codec id toolResult]) ≠ l := by
    intro l heq
    have hlength := congrArg List.length heq
    rw [length_compactIfLarge, List.length_append, List.length_singleton] at hlength
    omega
  by_cases hrecorded : recorded
  · rw [if_pos hrecorded] at h
    rw [second_recorded h hstate]
    by_cases hnamed : named
    · rw [if_pos hnamed]
      exact iff_of_true rfl (iff_of_true hnamed hrecorded)
    · rw [if_neg hnamed]
      refine iff_of_false (fun heq => ?_) (fun hiff => hnamed (hiff.mpr hrecorded))
      exact hlonger messages (Except.ok.inj (Prod.mk.inj heq).1).symm
  · rw [if_neg hrecorded] at h
    rw [second_pending toolResult h hstate hpending]
    by_cases hnamed : named
    · rw [if_pos hnamed]
      refine iff_of_false (fun heq => ?_) (fun hiff => hrecorded (hiff.mp hnamed))
      exact hlonger _ (Except.ok.inj (Prod.mk.inj heq).1)
    · rw [if_neg hnamed]
      exact iff_of_true rfl (iff_of_false hnamed hrecorded)

section accepted
variable (hstate : replayState s.events = some previous)
  (hpending : previous.pendingToolCalls.any (·.providerToolCallId == id) = true)
  (hread : readProviderMessages r s previous = .ok messages) (hnames : ∀ e ∈ s.events, NamesFile r e)
include hstate hpending hread hnames

theorem retried_eq_iff (toolResult : Json) (k : Nat) : storedTranscript r (retried r s id toolResult k) =
      (.ok (compactIfLarge r.codec (messages ++ [toolMessage r.codec id toolResult])),
        some (((replayAll s.events).calls.map (completeCall id)).filter isPending)) ↔
    SafeStop r s id toolResult k := by
  have hfirst : s.step r ⟨.toolResult id toolResult, some k⟩ =
      ((toolWrites r previous messages id toolResult).take k).foldl (TruthStore.write r) s := by
    unfold TruthStore.step Move.writes
    rw [writesOf_tool hstate hpending hread]
    rfl
  obtain ⟨state, hstopped⟩ := @state_after r s ((toolWrites r previous messages id toolResult).take k)
    previous hstate
  have hany : ((replayAll s.events).calls.filter isPending).any (hasId id) = true := by
    rw [← pending_of_state hstate]
    exact hpending
  have hsafe : SafeStop r s id toolResult k ↔
      k ≤ 1 ∨ ((previous.messagesRef = r.ref .messages ∨
        (large r.codec (messages ++ [toolMessage r.codec id toolResult]) = true ∧ 3 ≤ k) ∨
        (if large r.codec (messages ++ [toolMessage r.codec id toolResult]) then 5 else 4) < k) ↔
        (if large r.codec (messages ++ [toolMessage r.codec id toolResult]) then 5 else 4) ≤ k) := by
    constructor
    · exact fun h => h previous messages hstate hpending hread
    · intro h previous' messages' hstate' _ hread'
      cases hstate.symm.trans hstate'
      cases hread.symm.trans hread'
      exact h
  rw [hsafe]
  unfold retried
  rw [hfirst]
  by_cases hk : k ≤ 1
  · have hearly := holds_early hstate hread hnames id toolResult hk
    exact iff_of_true (second_pending toolResult hearly hstopped hany) (Or.inl hk)
  · rw [or_iff_right hk]
    cases hlarge : large r.codec (messages ++ [toolMessage r.codec id toolResult]) with
    | false =>
      refine (second_iff (holds_small hstate hread hnames (by omega) hlarge) hstopped hany).trans ?_
      simp
    | true =>
      refine (second_iff (holds_large hstate hread hnames (by omega) hlarge) hstopped hany).trans ?_
      have hlast : (3 ≤ k ∨ 5 < k) ↔ 3 ≤ k := by omega
      simp only [if_true, true_and, hlast]

end accepted

end

/-- **a tool result that is recorded again**: after a stop the second call makes up for the first one
exactly when the stop was safe -/
theorem retried_iff (r : Recorder) (moves : List Move) (id : String) (toolResult : Json) (k : Nat) :
    Retried r (TruthStore.run r moves) id toolResult k ↔
      SafeStop r (TruthStore.run r moves) id toolResult k := by
  have hnames := named_run r moves
  generalize TruthStore.run r moves = s at hnames ⊢
  by_cases haccepted : ∃ previous messages, replayState s.events = some previous ∧
      previous.pendingToolCalls.any (·.providerToolCallId == id) = true ∧
      readProviderMessages r s previous = .ok messages
  · obtain ⟨previous, messages, hstate, hpending, hread⟩ := haccepted
    have hholds : Holds r s messages (replayAll s.events).calls := ⟨by rw [hstate]; exact hread, rfl⟩
    have hany : ((replayAll s.events).calls.filter isPending).any (hasId id) = true := by
      rw [← pending_of_state hstate]
      exact hpending
    have honce := second_pending toolResult hholds hstate hany
    have hiff := retried_eq_iff hstate hpending hread hnames toolResult k
    rw [← honce] at hiff
    rw [← hiff]
    constructor
    · exact fun h => h.same
    · intro hsame
      refine ⟨hsame, fun previous' messages' hstate' _ hread' => ?_⟩
      cases hstate.symm.trans hstate'
      cases hread.symm.trans hread'
      obtain ⟨front, hfront, hcount⟩ := compact_concat r.codec messages id toolResult
      refine ⟨front, ?_, hcount⟩
      rw [← hfront]
      exact congrArg Prod.fst (hsame.trans honce)
  · have hnothing : ∀ stop, s.step r ⟨.toolResult id toolResult, stop⟩ = s := by
      intro stop
      refine step_nothing (writes_eq_nil fun writes hwrites => ?_)
      cases writesOf_cases hwrites with
      | nothing => rfl
      | tool toolResult hstate hpending hread => exact absurd ⟨_, _, hstate, hpending, hread⟩ haccepted
    refine iff_of_true ⟨?_, ?_⟩ ?_
    · unfold retried
      rw [hnothing (some k)]
    · intro previous messages hstate hpending hread
      exact absurd ⟨previous, messages, hstate, hpending, hread⟩ haccepted
    · intro previous messages hstate hpending hread
      exact absurd ⟨previous, messages, hstate, hpending, hread⟩ haccepted

/-! ## a stop after `messages.json` -/

def oneCall : ModelProviderResponse :=
  ⟨"", some ⟨"assistant", none, none, [⟨"call_1", "function", .null⟩]⟩, none, [], .null, none, .null, false,
    false, none, 0, 0, none, none, none⟩

/-- the second call appends a second message for the result -/
theorem stop_appends_twice : ¬ ∀ r moves id toolResult k, Retried r (TruthStore.run r moves) id toolResult k := by
  intro hall
  let r : Recorder := ⟨"job", "openai", "chat", ⟨fun _ => .error "", fun _ => ""⟩⟩
  let asked : Move := ⟨.assistantResponse oneCall false, none⟩
  have hsame := (hall r ([] ++ [asked]) "call_1" .null 2).same
  have hnames := named_run r ([] ++ [asked])
  rw [run_concat] at hsame hnames
  have hafter : After r ((TruthStore.run r []).step r asked) [assistantMessage ⟨"assistant", none, none,
      [⟨"call_1", "function", .null⟩]⟩] [⟨"call_1", none, .requested⟩] 1 := by
    rw [step_complete (writesOf_assistant (rfl : assistantOf oneCall = some _) rfl)]
    exact after_assistant _ false
  obtain ⟨previous, hstate, hcalls⟩ := hafter.state
  have hpending : previous.pendingToolCalls.any (·.providerToolCallId == "call_1") = true := by
    rw [hcalls]
    rfl
  have hread := read_of_holds hafter.holds hstate
  have hany : ((replayAll ((TruthStore.run r []).step r asked).events).calls.filter isPending).any
      (hasId "call_1") = true := by
    rw [hafter.calls]
    rfl
  rw [second_pending .null ⟨hafter.read, rfl⟩ hstate hany,
    retried_eq_iff hstate hpending hread hnames .null 2] at hsame
  have hnamed : previous.messagesRef = r.ref .messages :=
    Option.some.inj ((ref_of_state hstate).symm.trans hafter.named)
  rcases hsame previous _ hstate hpending hread with hearly | hiff
  · exact absurd hearly (by decide)
  · exact absurd (hiff.mp (Or.inl hnamed)) (by decide)

end Provider

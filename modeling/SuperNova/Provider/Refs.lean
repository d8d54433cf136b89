import SuperNova.Lib.Recorded
import SuperNova.Provider.Complete

/-!
# Refs to recorded messages

An event refers to the file of a message, which is named after the index of the message or the id of a
tool call.  After a compaction there are fewer messages than before, so that an index comes again.

* `RefsResolve`: every ref in an event leads to what was recorded with it;
* `Fresh`: a recorder reuses no name for another message;
* `refs_kept` (**main**): along a run all refs resolve exactly when every recorder finds fresh names.
-/

set_option linter.unusedSectionVars false

namespace Provider

open Answers Workspace Truth

/-- every ref in the events still leads to what was recorded with it -/
structure RefsResolve (r : Recorder) (s : TruthStore) : Prop where
  refs : s.events.flatMap (·.messageRefs) = s.cited.map fun c => r.ref c.1
  resolves : ∀ c ∈ s.cited, ∃ path, resolveBlobRef r.jobId (r.ref c.1) = .ok path ∧ s.files path = some c.2

/-- the recorder gets to its write number `n` -/
def Move.Reaches (move : Move) (n : Nat) : Prop := ∀ k ∈ move.stop, n < k

/-- a message that was recorded under the index, or the safe form of the id, is the same -/
def Fresh (r : Recorder) (s : TruthStore) (move : Move) : Prop :=
  match move.op with
  | .assistantResponse response storeReasoningContent =>
    ∀ assistant messages, assistantOf response = some assistant →
      readMessages r s (replayState s.events) = .ok messages →
      (∀ text, storedReasoning assistant storeReasoningContent = some text →
        move.Reaches (createdWrites (replayState s.events)).length →
        ∀ content, (.reasoning messages.length, content) ∈ s.cited → content = .reasoning text) ∧
      (move.Reaches ((createdWrites (replayState s.events)).length +
          (reasoningWrites r messages.length (storedReasoning assistant storeReasoningContent)).length) →
        ∀ content, (.assistant messages.length, content) ∈ s.cited →
          content = .message (assistantMessage assistant))
  | .toolResult id toolResult =>
    ∀ previous messages, replayState s.events = some previous →
      previous.pendingToolCalls.any (·.providerToolCallId == id) = true →
      readProviderMessages r s previous = .ok messages → move.Reaches 0 →
      ∀ id' content, (.tool id', content) ∈ s.cited → safeBlobName id' = safeBlobName id →
        content = .message (toolMessage r.codec id toolResult)
  | _ => True

section
variable {r : Recorder} {s : TruthStore} {move : Move} {op : Op} {writes front back : List Write}
  {file : TranscriptFile} {content : Blob} {stop : Option Nat}

/-! ## what is written before a stop -/

theorem mem_of_mem_cut {w : Write} (h : w ∈ cutWrites stop writes) : w ∈ writes := by
  cases stop with
  | none => exact h
  | some n => exact List.mem_of_mem_take h

theorem mem_cutWrites {w : Write} (hfront : w ∉ front) :
    w ∈ cutWrites stop (front ++ w :: back) ↔ ∀ k ∈ stop, front.length < k := by
  cases stop with
  | none => simp [cutWrites]
  | some n =>
    have hfirst : w ∉ front.take n := fun h => hfront (List.mem_of_mem_take h)
    show w ∈ (front ++ w :: back).take n ↔ ∀ k ∈ some n, front.length < k
    rw [List.take_append, List.mem_append, or_iff_right hfirst]
    cases hrest : n - front.length with
    | zero =>
      have hle : ¬ front.length < n := by omega
      simp [hle]
    | succ m =>
      have hlt : front.length < n := by omega
      simp [hlt]

theorem writes_of_ok (h : writesOf r s move.op = .ok writes) :
    move.writes r s = cutWrites move.stop writes := by
  unfold Move.writes
  rw [h]

theorem Proper.of_move (r : Recorder) (s : TruthStore) (move : Move) : Proper r (move.writes r s) := by
  unfold Move.writes
  cases hwrites : writesOf r s move.op with
  | error e => exact proper_nil
  | ok writes => exact (writesOf_proper hwrites).cut move.stop

/-! ## what is cited -/

/-- the citations are those of the events, and all of messages -/
structure Cites (r : Recorder) (s : TruthStore) : Prop where
  refs : s.events.flatMap (·.messageRefs) = s.cited.map fun c => r.ref c.1
  ofMessage : ∀ c ∈ s.cited, c.1.OfMessage

theorem cites_write {w : Write} (h : Cites r s) (hw : w.RefsCited r) : Cites r (s.write r w) := by
  cases w with
  | file file content => exact ⟨h.refs, h.ofMessage⟩
  | event event cites =>
    constructor
    · show (s.events ++ [event]).flatMap (·.messageRefs) = (s.cited ++ cites).map fun c => r.ref c.1
      rw [List.flatMap_append, List.map_append, h.refs, List.flatMap_singleton, hw.1]
    · exact List.forall_mem_append.mpr ⟨h.ofMessage, hw.2⟩

theorem cites_writes (h : Cites r s) (hwrites : ∀ w ∈ writes, w.RefsCited r) :
    Cites r (writes.foldl (TruthStore.write r) s) := by
  induction writes generalizing s with
  | nil => exact h
  | cons w writes ih =>
    obtain ⟨hw, hrest⟩ := List.forall_mem_cons.mp hwrites
    exact ih (cites_write h hw) hrest

theorem cites_run (r : Recorder) (moves : List Move) : Cites r (TruthStore.run r moves) := by
  induction moves using List.reverseRecOn with
  | nil => exact ⟨rfl, fun c hc => absurd hc List.not_mem_nil⟩
  | append_singleton moves move ih =>
    unfold TruthStore.run at ih ⊢
    rw [List.foldl_append]
    exact cites_writes ih (Proper.of_move r _ move).refs

/-! ## the names that a move uses again -/

/-- the files that are written over cited ones are the same -/
def Keeps (s : TruthStore) (writes : List Write) : Prop :=
  ∀ file content, .file file content ∈ writes → ∀ c ∈ s.cited, c.1.key = file.key → c.2 = content

theorem keeps_iff_agrees :
    Keeps s writes ↔ (s.evidence r).Agrees ((filesOf writes).map r.at) := by
  constructor
  · intro h x hx c hc hname
    obtain ⟨⟨file, content⟩, hfile, rfl⟩ := List.mem_map.mp hx
    obtain ⟨⟨file', content'⟩, hcited, rfl⟩ := List.mem_map.mp hc
    exact h file content (mem_filesOf.mp hfile) _ hcited ((path_eq_iff r).mp hname)
  · intro h file content hfile c hc hkey
    exact h (r.at (file, content)) (List.mem_map_of_mem (mem_filesOf.mpr hfile)) (r.at c)
      (List.mem_map_of_mem hc) ((path_eq_iff r).mpr hkey)

theorem resolves_iff_intact :
    (∀ c ∈ s.cited, ∃ path, resolveBlobRef r.jobId (r.ref c.1) = .ok path ∧ s.files path = some c.2) ↔
      (s.evidence r).Intact := by
  constructor
  · intro h x hx
    obtain ⟨c, hc, rfl⟩ := List.mem_map.mp hx
    obtain ⟨path, hpath, hcontent⟩ := h c hc
    rw [resolve_ref] at hpath
    cases hpath
    exact hcontent
  · intro h c hc
    exact ⟨r.path c.1, resolve_ref r c.1, h (r.at c) (List.mem_map_of_mem hc)⟩

theorem resolve_step (h : RefsResolve r s) (hcites : Cites r s) :
    RefsResolve r (s.step r move) ↔ Keeps s (move.writes r s) := by
  have hproper := Proper.of_move r s move
  have hintact := resolves_iff_intact.mp h.resolves
  have hmem : ∀ c ∈ (citesOf (move.writes r s)).map r.at, c ∈ (filesOf (move.writes r s)).map r.at := by
    intro x hx
    obtain ⟨c, hc, rfl⟩ := List.mem_map.mp hx
    exact List.mem_map_of_mem (hproper.cites.mem hc)
  have hrecord := Evidence.intact_record hintact (nodup_paths hproper.distinct) hmem
  rw [← evidence_writes, ← keeps_iff_agrees] at hrecord
  rw [← hrecord]
  constructor
  · exact fun h' => resolves_iff_intact.mp h'.resolves
  · exact fun h' => ⟨(cites_writes hcites hproper.refs).refs, resolves_iff_intact.mpr h'⟩

theorem ofMessage_key {f : TranscriptFile} : f.key.OfMessage ↔ f.OfMessage := by
  cases f with
  | tool id => exact ⟨fun _ => ofMessage_tool id, fun _ => ofMessage_tool (safeBlobName id)⟩
  | _ => rfl

theorem key_of_message {f g : TranscriptFile} (hf : f.OfMessage) (hg : ¬ g.OfMessage) : f.key ≠ g.key := by
  intro h
  rw [← ofMessage_key, h, ofMessage_key] at hf
  exact hg hf

theorem eq_of_key {f g : TranscriptFile} (h : f.key = g) (hg : ∀ id, g ≠ .tool id) : f = g := by
  cases f with
  | tool id => exact absurd h.symm (hg _)
  | _ => exact h

theorem others_transcriptWrites {messages : List ProviderTranscriptMessage} {latest : Option String}
    {pendingCount : Nat} {reasoningRefs : List String} :
    ∀ x ∈ filesOf (transcriptWrites r messages latest pendingCount reasoningRefs), ¬ x.1.OfMessage := by
  unfold transcriptWrites
  split <;> simp [filesOf, TranscriptFile.OfMessage]

theorem keeps_others (hcites : ∀ c ∈ s.cited, c.1.OfMessage)
    (h : ∀ x ∈ filesOf writes, ¬ x.1.OfMessage) : Keeps s (cutWrites stop writes) := by
  intro file content hfile c hc hkey
  have hother := h _ (mem_filesOf.mpr (mem_of_mem_cut hfile))
  exact absurd hkey (key_of_message (hcites c hc) hother)

theorem keeps_iff_messages (hcites : ∀ c ∈ s.cited, c.1.OfMessage) : Keeps s writes ↔
    ∀ file content, file.OfMessage → .file file content ∈ writes →
      ∀ c ∈ s.cited, c.1.key = file.key → c.2 = content := by
  constructor
  · exact fun h file content _ hfile => h file content hfile
  · intro h file content hfile c hc hkey
    by_cases hmessage : file.OfMessage
    · exact h file content hmessage hfile c hc hkey
    · exact absurd hkey (key_of_message (hcites c hc) hmessage)

theorem mem_toolWrites {previous : ProviderTranscriptState} {messages : List ProviderTranscriptMessage}
    {id : String} {toolResult : Json} (hmessage : file.OfMessage) :
    .file file content ∈ cutWrites stop (toolWrites r previous messages id toolResult) ↔
      (file = .tool id ∧ content = .message (toolMessage r.codec id toolResult)) ∧ ∀ k ∈ stop, 0 < k := by
  have hfirst : .file (.tool id) (.message (toolMessage r.codec id toolResult)) ∈
      cutWrites stop (toolWrites r previous messages id toolResult) ↔ ∀ k ∈ stop, 0 < k :=
    mem_cutWrites List.not_mem_nil
  constructor
  · intro h
    have hmem := mem_filesOf.mpr (mem_of_mem_cut h)
    unfold toolWrites at hmem
    rw [filesOf_append, filesOf_append, List.mem_append, List.mem_append] at hmem
    rcases hmem with (hfile | htranscript) | hevent
    · obtain ⟨rfl, rfl⟩ := Prod.mk.inj (List.mem_singleton.mp hfile)
      exact ⟨⟨rfl, rfl⟩, hfirst.mp h⟩
    · exact absurd hmessage (others_transcriptWrites _ htranscript)
    · exact absurd hevent List.not_mem_nil
  · rintro ⟨⟨rfl, rfl⟩, hreaches⟩
    exact hfirst.mpr hreaches

theorem not_mem_created (state : Option ProviderTranscriptState) :
    .file file content ∉ createdWrites state := by
  intro h
  have hmem := mem_filesOf.mpr h
  rw [filesOf_created] at hmem
  exact absurd hmem List.not_mem_nil

section assistant
variable {state : Option ProviderTranscriptState} {messages : List ProviderTranscriptMessage}
  {assistant : ProviderAssistantMessage} {store : Bool} {text : String}

theorem assistantWrites_eq : ∃ back, assistantWrites r state messages assistant store =
      createdWrites state ++ reasoningWrites r messages.length (storedReasoning assistant store) ++
        .file (.assistant messages.length) (.message (assistantMessage assistant)) :: back ∧
      ∀ x ∈ filesOf back, ¬ x.1.OfMessage := by
  unfold assistantWrites
  simp only [List.append_assoc, List.cons_append, List.nil_append]
  refine ⟨_, rfl, ?_⟩
  simp only [filesOf_append, filesOf, filesOf_requests, List.append_nil]
  exact others_transcriptWrites

theorem mem_message : .file (.assistant messages.length) (.message (assistantMessage assistant)) ∈
      cutWrites stop (assistantWrites r state messages assistant store) ↔
    ∀ k ∈ stop, (createdWrites state).length +
      (reasoningWrites r messages.length (storedReasoning assistant store)).length < k := by
  obtain ⟨back, heq, -⟩ := @assistantWrites_eq r state messages assistant store
  rw [heq, mem_cutWrites, List.length_append]
  intro h
  rcases List.mem_append.mp h with hcreated | hreasoning
  · exact not_mem_created state hcreated
  · have hmem := mem_filesOf.mpr hreasoning
    rw [filesOf_reasoning] at hmem
    obtain ⟨text, -, heq⟩ := List.mem_map.mp hmem
    cases heq

theorem mem_reasoning (hstored : storedReasoning assistant store = some text) :
    .file (.reasoning messages.length) (.reasoning text) ∈
      cutWrites stop (assistantWrites r state messages assistant store) ↔
    ∀ k ∈ stop, (createdWrites state).length < k := by
  obtain ⟨back, heq, -⟩ := @assistantWrites_eq r state messages assistant store
  rw [heq, hstored, List.append_assoc]
  exact mem_cutWrites (not_mem_created state)

theorem mem_assistantWrites (hmessage : file.OfMessage)
    (h : .file file content ∈ assistantWrites r state messages assistant store) :
    (∃ text, storedReasoning assistant store = some text ∧ file = .reasoning messages.length ∧
      content = .reasoning text) ∨
    (file = .assistant messages.length ∧ content = .message (assistantMessage assistant)) := by
  obtain ⟨back, heq, hback⟩ := @assistantWrites_eq r state messages assistant store
  have hmem := mem_filesOf.mpr h
  rw [heq, filesOf_append, filesOf_append, filesOf_created, filesOf_reasoning, List.nil_append] at hmem
  rcases List.mem_append.mp hmem with hreasoning | hrest
  · obtain ⟨text, htext, hfile⟩ := List.mem_map.mp hreasoning
    obtain ⟨rfl, rfl⟩ := Prod.mk.inj hfile
    exact Or.inl ⟨text, Option.mem_toList.mp htext, rfl, rfl⟩
  · rcases List.mem_cons.mp hrest with hfile | hother
    · exact Or.inr (Prod.mk.inj hfile)
    · exact absurd hmessage (hback _ hother)

theorem keeps_assistant (hcites : ∀ c ∈ s.cited, c.1.OfMessage) :
    Keeps s (cutWrites stop (assistantWrites r state messages assistant store)) ↔
      (∀ text, storedReasoning assistant store = some text →
        (∀ k ∈ stop, (createdWrites state).length < k) →
        ∀ content, (.reasoning messages.length, content) ∈ s.cited → content = .reasoning text) ∧
      ((∀ k ∈ stop, (createdWrites state).length +
          (reasoningWrites r messages.length (storedReasoning assistant store)).length < k) →
        ∀ content, (.assistant messages.length, content) ∈ s.cited →
          content = .message (assistantMessage assistant)) := by
  rw [keeps_iff_messages hcites]
  constructor
  · intro h
    constructor
    · intro text hstored hreaches content hcited
      exact h _ _ (ofMessage_reasoning _) ((mem_reasoning hstored).mpr hreaches) _ hcited rfl
    · intro hreaches content hcited
      exact h _ _ (ofMessage_assistant _) (mem_message.mpr hreaches) _ hcited rfl
  · rintro ⟨hreasoning, hassistant⟩ file content hmessage hfile ⟨file', content'⟩ hc hkey
    rcases mem_assistantWrites hmessage (mem_of_mem_cut hfile) with ⟨text, hstored, rfl, rfl⟩ | ⟨rfl, rfl⟩
    · have hname : file' = .reasoning messages.length := eq_of_key hkey (fun _ => nofun)
      subst hname
      exact hreasoning text hstored ((mem_reasoning hstored).mp hfile) content' hc
    · have hname : file' = .assistant messages.length := eq_of_key hkey (fun _ => nofun)
      subst hname
      exact hassistant (mem_message.mp hfile) content' hc

end assistant

theorem keeps_tool (hcites : ∀ c ∈ s.cited, c.1.OfMessage) {previous : ProviderTranscriptState}
    {messages : List ProviderTranscriptMessage} {id : String} {toolResult : Json} :
    Keeps s (cutWrites stop (toolWrites r previous messages id toolResult)) ↔
      ((∀ k ∈ stop, 0 < k) → ∀ id' content, (.tool id', content) ∈ s.cited →
        safeBlobName id' = safeBlobName id → content = .message (toolMessage r.codec id toolResult)) := by
  rw [keeps_iff_messages hcites]
  constructor
  · intro h hreaches id' content hcited hsafe
    have hkey : (TranscriptFile.tool id').key = (TranscriptFile.tool id).key := congrArg TranscriptFile.tool hsafe
    exact h _ _ (ofMessage_tool id) ((mem_toolWrites (ofMessage_tool id)).mpr ⟨⟨rfl, rfl⟩, hreaches⟩) _ hcited hkey
  · rintro h file content hmessage hfile ⟨file', content'⟩ hc hkey
    obtain ⟨⟨rfl, rfl⟩, hreaches⟩ := (mem_toolWrites hmessage).mp hfile
    cases file' with
    | tool id' => exact h hreaches id' content' hc (TranscriptFile.tool.inj hkey)
    | _ => simp [TranscriptFile.key] at hkey

theorem keeps_nil : Keeps s [] := fun _ _ h => absurd h List.not_mem_nil

theorem keeps_move (hcites : ∀ c ∈ s.cited, c.1.OfMessage)
    (h : ∀ writes, writesOf r s move.op = .ok writes → ∀ x ∈ filesOf writes, ¬ x.1.OfMessage) :
    Keeps s (move.writes r s) := by
  unfold Move.writes
  cases hwrites : writesOf r s move.op with
  | error e => exact keeps_nil
  | ok writes => exact keeps_others hcites (h writes hwrites)

theorem others_userWrites {state : Option ProviderTranscriptState}
    {messages : List ProviderTranscriptMessage} {message : ProviderTranscriptMessage}
    {event : StoredEvent} (hfile : ¬ file.OfMessage) :
    ∀ x ∈ filesOf (userWrites r state messages message file event), ¬ x.1.OfMessage := by
  unfold userWrites
  simp only [filesOf_append, filesOf, List.append_nil, List.singleton_append]
  exact List.forall_mem_cons.mpr ⟨hfile, others_transcriptWrites⟩

theorem keeps_iff_fresh (hcites : ∀ c ∈ s.cited, c.1.OfMessage) :
    Keeps s (move.writes r s) ↔ Fresh r s move := by
  obtain ⟨op, stop⟩ := move
  cases op with
  | assistantResponse response store =>
    by_cases hwrites : ∃ assistant messages, assistantOf response = some assistant ∧
        readMessages r s (replayState s.events) = .ok messages
    · obtain ⟨assistant, messages, hassistant, hmessages⟩ := hwrites
      rw [writes_of_ok (writesOf_assistant hassistant hmessages)]
      refine (keeps_assistant hcites).trans ⟨?_, fun h => h assistant messages hassistant hmessages⟩
      intro h assistant' messages' hassistant' hmessages'
      cases hassistant.symm.trans hassistant'
      cases hmessages.symm.trans hmessages'
      exact h
    · have hnil : (Move.mk (.assistantResponse response store) stop).writes r s = [] := by
        refine writes_eq_nil fun writes h => ?_
        cases writesOf_cases h with
        | nothing => rfl
        | assistant store hassistant hmessages => exact absurd ⟨_, _, hassistant, hmessages⟩ hwrites
      rw [hnil]
      refine ⟨fun _ assistant messages hassistant hmessages => ?_, fun _ => keeps_nil⟩
      exact absurd ⟨assistant, messages, hassistant, hmessages⟩ hwrites
  | toolResult id toolResult =>
    by_cases hwrites : ∃ previous messages, replayState s.events = some previous ∧
        previous.pendingToolCalls.any (·.providerToolCallId == id) = true ∧
        readProviderMessages r s previous = .ok messages
    · obtain ⟨previous, messages, hprevious, hpending, hmessages⟩ := hwrites
      rw [writes_of_ok (writesOf_tool hprevious hpending hmessages)]
      refine (keeps_tool hcites).trans ⟨?_, fun h => h previous messages hprevious hpending hmessages⟩
      intro h previous' messages' _ _ _
      exact h
    · have hnil : (Move.mk (.toolResult id toolResult) stop).writes r s = [] := by
        refine writes_eq_nil fun writes h => ?_
        cases writesOf_cases h with
        | nothing => rfl
        | tool toolResult hprevious hpending hmessages =>
          exact absurd ⟨_, _, hprevious, hpending, hmessages⟩ hwrites
      rw [hnil]
      refine ⟨fun _ previous messages hprevious hpending hmessages => ?_, fun _ => keeps_nil⟩
      exact absurd ⟨previous, messages, hprevious, hpending, hmessages⟩ hwrites
  | userMessage content =>
    refine ⟨fun _ => trivial, fun _ => keeps_move hcites fun writes h => ?_⟩
    cases writesOf_cases h with
    | nothing => simp [filesOf]
    | user content hmessages =>
      rw [filesOf_append, filesOf_created]
      exact others_userWrites (by simp [TranscriptFile.OfMessage])
  | userControl controlMessage =>
    refine ⟨fun _ => trivial, fun _ => keeps_move hcites fun writes h => ?_⟩
    cases writesOf_cases h with
    | nothing => simp [filesOf]
    | control controlMessage hprevious hmessages =>
      exact others_userWrites (by simp [TranscriptFile.OfMessage])
  | replacement summaryText minLiveSuffixTurns stamp =>
    refine ⟨fun _ => trivial, fun _ => keeps_move hcites fun writes h => ?_⟩
    cases writesOf_cases h with
    | nothing => simp [filesOf]
    | replacement summaryText minLiveSuffixTurns stamp hprevious hmessages =>
      simp [replacementWrites, filesOf, TranscriptFile.OfMessage]

end

/-- **what was recorded stays**: along every run, also of recorders that stop between two writes, the refs
in the events lead to what was recorded with them exactly when each recorder finds fresh names -/
theorem refs_kept (r : Recorder) (moves : List Move) :
    (∀ before, before <+: moves → RefsResolve r (TruthStore.run r before)) ↔
      ∀ before move, before ++ [move] <+: moves → Fresh r (TruthStore.run r before) move := by
  refine Recorded.forall_prefix_iff ?_ ?_ moves
  · exact ⟨rfl, fun c hc => absurd hc List.not_mem_nil⟩
  · intro before move h
    have hcites := cites_run r before
    rw [run_concat, resolve_step h hcites]
    exact keeps_iff_fresh hcites.ofMessage

/-! ## an index that comes again -/

theorem cited_step {r : Recorder} {s : TruthStore} {move : Move} {c : TranscriptFile × Blob}
    (h : c ∈ s.cited) : c ∈ (s.step r move).cited := by
  unfold TruthStore.step
  rw [cited_writes]
  exact List.mem_append_left _ h

theorem cited_assistant {r : Recorder} {s : TruthStore} {messages : List ProviderTranscriptMessage}
    {calls : List ProviderToolCallState} {response : ModelProviderResponse}
    {assistant : ProviderAssistantMessage} (h : Holds r s messages calls)
    (hassistant : assistantOf response = some assistant) (store : Bool) :
    (.assistant messages.length, .message (assistantMessage assistant)) ∈
      (s.step r ⟨.assistantResponse response store, none⟩).cited := by
  have hwrite : .event (.assistantMessageRecorded (r.ref (.assistant messages.length)) (r.ref .messages)
      ((storedReasoning assistant store).map fun _ => r.ref (.reasoning messages.length))
      assistant.toolCalls.length messages.length)
      ((.assistant messages.length, .message (assistantMessage assistant)) ::
        reasoningCites messages.length (storedReasoning assistant store)) ∈
      assistantWrites r (replayState s.events) messages assistant store := by
    unfold assistantWrites
    exact List.mem_append_left _ (List.mem_append_right _ (List.mem_cons_of_mem _ List.mem_cons_self))
  rw [step_complete (writesOf_assistant hassistant h.read), cited_writes]
  exact List.mem_append_right _ (mem_citesOf hwrite List.mem_cons_self)

def sampleRecorder : Recorder := ⟨"job", "openai", "chat", ⟨fun _ => .error "", fun _ => ""⟩⟩

def answerOf (text : String) : ModelProviderResponse :=
  ⟨text, some ⟨"assistant", some text, none, []⟩, none, [], .null, none, .null, false, false, none, 0, 0,
    none, none, none⟩

def answerMessage (text : String) : ProviderTranscriptMessage := ⟨"assistant", some text, none, [], none⟩

def firstMoves : List Move := [⟨.userMessage "a", none⟩, ⟨.userMessage "b", none⟩]

def answer (text : String) : Move := ⟨.assistantResponse (answerOf text) false, none⟩

/-- of the three messages, the compaction leaves two -/
def compaction : Move := ⟨.replacement "a and b" 0 7, none⟩

theorem holds_firstMoves : Holds sampleRecorder (TruthStore.run sampleRecorder firstMoves)
    [userMessage "a", userMessage "b"] [] := by
  have hstart : Holds sampleRecorder TruthStore.empty [] [] := ⟨rfl, rfl⟩
  unfold TruthStore.run firstMoves
  rw [List.foldl_cons, List.foldl_cons, List.foldl_nil]
  exact holds_user (holds_user hstart "a") "b"

/-- the next answer is written over the one before the compaction -/
theorem answer_overwritten : ¬ ∀ r moves, RefsResolve r (TruthStore.run r moves) := by
  intro hall
  let moves := firstMoves ++ [answer "c"] ++ [compaction]
  have hcites := cites_run sampleRecorder moves
  have hnext := hall sampleRecorder (moves ++ [answer "d"])
  rw [run_concat] at hnext
  have hfresh : Fresh sampleRecorder (TruthStore.run sampleRecorder moves) (answer "d") :=
    (keeps_iff_fresh hcites.ofMessage).mp ((resolve_step (hall sampleRecorder moves) hcites).mp hnext)
  have hanswered : Holds sampleRecorder (TruthStore.run sampleRecorder (firstMoves ++ [answer "c"]))
      [userMessage "a", userMessage "b", answerMessage "c"] [] := by
    rw [run_concat]
    exact holds_assistant holds_firstMoves (rfl : assistantOf (answerOf "c") = some _) false
  have hcompacted : Holds sampleRecorder (TruthStore.run sampleRecorder moves)
      [userMessage "a and b", answerMessage "c"] [] := by
    rw [run_concat]
    exact holds_replacement hanswered (by simp) rfl "a and b" 0 7
  have hcited : (.assistant 2, .message (answerMessage "c")) ∈ (TruthStore.run sampleRecorder moves).cited := by
    have hrecorded := cited_assistant holds_firstMoves (rfl : assistantOf (answerOf "c") = some _) false
    rw [run_concat, run_concat]
    exact cited_step hrecorded
  have hsame := (hfresh _ _ rfl hcompacted.read).2 (fun k hk => nomatch hk) _ hcited
  have htext : some "c" = some "d" := congrArg (·.content) (Blob.message.inj hsame)
  exact absurd htext (by decide)

end Provider

import SuperNova.Chat.Sequence
import SuperNova.Chat.Service

/-!
# Answers and the messages that show them

An answer is shown by the message of its event, or by a message that the model streamed it into.  When the
events of a thread are projected an answer is left out if any streamed message of the page has its text, also
one of another turn.

* `TurnLog.step`: turns of a thread that nobody closes, one after the other, and hydrations at any moment;
* `ShownOnce`: exactly one message of an answer's own turn carries it;
* `shown_once_iff` (**main**): after every projection each answer is shown once exactly when an answer that is
  left out was shown once before, and one that is not was not streamed by its turn;
* `same_answer_twice`: an answer that an earlier turn has streamed.
-/

set_option linter.unusedSectionVars false

namespace ChatService

open Chat Feed Runs Stream

/-! ## turns -/

/-- the log of a thread and what the product has of it; `sink` is that of the turn that runs -/
structure TurnLog where
  events : List ChatEvent
  state : ThreadState
  sink : ProductChatStreamSink

def emptyLog : TurnLog := ⟨[], ⟨⟨.empty, .empty⟩, .empty⟩, .empty⟩

inductive LogMove where
  | start (userStamp phaseStamp : Stamp) (message workerId runId : String) (now : Nat)
  | stream (stamp : Stamp) (delta : ModelStreamDelta)
  /-- the kernel appends an event -/
  | append (eventType : String) (payload : Json) (blobRef : Option String) (eventId : String) (nowMs : Int)
  /-- the turn is recorded with what the kernel returned -/
  | finish (stamps : String → Stamp) (now : Nat) (runId : String) (status : ChatTurnStatus)
      (assistantContent : Option String)
  | fail (stamps : String → Stamp) (stamp : Stamp) (runId error : String)
  | hydrate (now : Nat)

variable (codec : Codec) (readChatBlobText : String → Option String) (scope : ThreadScope)

def nextEventSeq (events : List ChatEvent) : Nat := (events.map (·.eventSeq)).foldr max 0 + 1

def TurnLog.step (log : TurnLog) : LogMove → TurnLog
  | .start userStamp phaseStamp message workerId runId now =>
    let db := log.state.db
    let main := appendMessage phaseStamp.1
      (appendMessage userStamp.1 db.main (pendingUserMessage scope userStamp message))
      (runningPhase scope phaseStamp)
    { log with
      state := ⟨{ db with main }, startChatRun scope log.state.runs workerId runId now⟩
      sink := .empty }
  | .stream stamp delta =>
    let streamed := onModelStreamDelta scope stamp log.sink log.state.db delta
    { log with state := { log.state with db := streamed.2 }, sink := streamed.1 }
  | .append eventType payload blobRef eventId nowMs =>
    { log with
      events := log.events ++ [eventOf ⟨scope.chatThreadId, scope.containerId, eventType, payload, blobRef⟩
        (nextEventSeq log.events) eventId nowMs] }
  | .finish stamps now runId status assistantContent =>
    { log with
      state := showTurn codec readChatBlobText scope stamps now log.state runId
        ⟨status, assistantContent, log.events⟩ }
  | .fail stamps stamp runId error => { log with state := failTurn scope stamps stamp log.state runId error }
  | .hydrate now =>
    { log with
      state := { log.state with db := hydrateThread codec readChatBlobText scope now log.state.db log.events } }

def runLog (moves : List LogMove) : TurnLog := moves.foldl (TurnLog.step codec readChatBlobText scope) emptyLog

/-! ## what shows an answer -/

def isAnswered (event : ChatEvent) : Bool := event.eventType == "chat_assistant_answered"

/-- the model calls of the turn that answered -/
def modelCallIds (event : ChatEvent) : List String :=
  (((event.payload.get? "model_call_ids").bind Json.asArr?).getD []).filterMap Json.asStr?

/-- the text in the blob of an answer -/
def answerText (event : ChatEvent) : Option String :=
  (event.payload.strAt? "assistant_content_ref").bind readChatBlobText

/-- an assistant message with the text of an answer, from its event or from a model call of its turn -/
structure Carries (event : ChatEvent) (text : String) (message : Message) : Prop where
  role : message.role = .assistant
  messageType : message.messageType = .text
  own : message.messageId = messageIdOf event ∨
    message.sourceKind = "model_stream" ∧ message.sourceRef ∈ modelCallIds event
  matched : messageTextMatches message.bodyText (some text) = true

def Shown (db : ThreadDb) (event : ChatEvent) (text messageId : String) : Prop :=
  ∃ message, (db.main.get? messageId = some message ∨ db.shard.get? messageId = some message) ∧
    Carries event text message

/-- exactly one message of its own turn shows the answer -/
def ShownOnce (db : ThreadDb) (event : ChatEvent) (text : String) : Prop :=
  ∃! messageId, Shown db event text messageId

/-- a model call of its turn has streamed the answer -/
def StreamedAs (db : ThreadDb) (event : ChatEvent) (text messageId : String) : Prop :=
  ∃ message, db.shard.get? messageId = some message ∧ message.sourceKind = "model_stream" ∧
    Carries event text message

/-- every answer is shown once -/
def AnswersShown (log : TurnLog) : Prop :=
  ∀ event ∈ log.events, isAnswered event = true → ∀ text, answerText readChatBlobText event = some text →
    ShownOnce log.state.db event text

/-- when its turn comes in a projection, an answer that is left out has been shown once, and one that is not
has not been streamed by its turn -/
def ToldApart (suppressFinalAnswer : Bool) (now : Nat) (db : ThreadDb) (log : TurnLog) : Prop :=
  ∀ old event rest, log.events = old ++ event :: rest → isAnswered event = true →
    ∀ text, answerText readChatBlobText event = some text →
      if shownAlready (projectChatEvents codec readChatBlobText scope suppressFinalAnswer now db old) event
          suppressFinalAnswer (some text) then ShownOnce log.state.db event text
      else ∀ messageId, ¬ StreamedAs log.state.db event text messageId

/-- a call of `record_turn` or a hydration ends -/
def LogMove.Projects : LogMove → Prop
  | .finish .. | .fail .. | .hydrate _ => True
  | .start .. | .stream .. | .append .. => False

/-- a turn that fails leaves no answer behind, and the projections tell the answers apart -/
def Tells (log : TurnLog) : LogMove → Prop
  | .finish stamps now runId status assistantContent =>
    let completed := completeTurn scope stamps now log.state runId ⟨status, assistantContent, log.events⟩
    ToldApart codec readChatBlobText scope completed.2 now completed.1.db log
  | .fail .. => AnswersShown readChatBlobText log
  | .hydrate now => ToldApart codec readChatBlobText scope false now log.state.db log
  | .start .. | .stream .. | .append .. => True

section
variable {codec readChatBlobText scope}
variable {db db' : ThreadDb} {messages messages' : Messages} {message m : Message} {messageId text : String}
  {event other : ChatEvent} {events : List ChatEvent} {now : Nat} {suppress : Bool}

/-! ## what an answer is recognised by -/

def essence (message : Message) : String × MessageRole × MessageType × String × String × Option String :=
  (message.messageId, message.role, message.messageType, message.sourceKind, message.sourceRef, message.bodyText)

/-- the same messages but for their status, title, body and times -/
def SameBut (messages messages' : Messages) : Prop :=
  ∀ messageId, (messages.get? messageId).map essence = (messages'.get? messageId).map essence

theorem essence_stored (existing : Option Message) (now : Nat) (message : Message) :
    essence (stored existing now message) = essence message := by
  have hcontent (m : Message) : essence m.content = essence m := rfl
  rw [← hcontent, content_stored, hcontent]

theorem Carries.of_essence (h : Carries event text message) (heq : essence message = essence m) :
    Carries event text m := by
  simp only [essence, Prod.mk.injEq] at heq
  obtain ⟨hid, hrole, htype, hkind, href, htext⟩ := heq
  obtain ⟨role, messageType, own, matched⟩ := h
  rw [hrole] at role
  rw [htype] at messageType
  rw [hid, hkind, href] at own
  rw [htext] at matched
  exact ⟨role, messageType, own, matched⟩

theorem SameBut.exists (h : SameBut messages messages') (hm : messages.get? messageId = some m) :
    ∃ m', messages'.get? messageId = some m' ∧ essence m = essence m' := by
  have hsame := h messageId
  rw [hm, Option.map_some] at hsame
  obtain ⟨m', hm', heq⟩ := Option.map_eq_some_iff.mp hsame.symm
  exact ⟨m', hm', heq.symm⟩

theorem SameBut.symm (h : SameBut messages messages') : SameBut messages' messages :=
  fun messageId => (h messageId).symm

theorem SameBut.trans {messages'' : Messages} (h : SameBut messages messages')
    (h' : SameBut messages' messages'') : SameBut messages messages'' :=
  fun messageId => (h messageId).trans (h' messageId)

theorem Shown.of_same (hmain : SameBut db.main db'.main) (hshard : SameBut db.shard db'.shard)
    (h : Shown db event text messageId) : Shown db' event text messageId := by
  obtain ⟨m, hm | hm, hcarries⟩ := h
  · obtain ⟨m', hm', heq⟩ := hmain.exists hm
    exact ⟨m', .inl hm', hcarries.of_essence heq⟩
  · obtain ⟨m', hm', heq⟩ := hshard.exists hm
    exact ⟨m', .inr hm', hcarries.of_essence heq⟩

theorem shown_congr (hmain : SameBut db.main db'.main) (hshard : SameBut db.shard db'.shard) :
    Shown db event text messageId ↔ Shown db' event text messageId :=
  ⟨.of_same hmain hshard, .of_same hmain.symm hshard.symm⟩

theorem StreamedAs.of_same (hshard : SameBut db.shard db'.shard) (h : StreamedAs db event text messageId) :
    StreamedAs db' event text messageId := by
  obtain ⟨m, hm, hkind, hcarries⟩ := h
  obtain ⟨m', hm', heq⟩ := hshard.exists hm
  refine ⟨m', hm', ?_, hcarries.of_essence heq⟩
  rw [← hkind]
  exact (congrArg (fun e => e.2.2.2.1) heq).symm

theorem shownOnce_congr (hmain : SameBut db.main db'.main) (hshard : SameBut db.shard db'.shard) :
    ShownOnce db event text ↔ ShownOnce db' event text := by
  unfold ShownOnce
  exact existsUnique_congr fun messageId => shown_congr hmain hshard

theorem sameBut_foldl (t : Message → Nat) (f : Message → Message) (l : List Message)
    (hf : ∀ m, essence (f m) = essence m)
    (hl : ∀ m ∈ l, messages.get? m.messageId = some m) :
    SameBut (l.foldl (fun messages m => appendMessage (t m) messages (f m)) messages) messages := by
  intro messageId
  have hid (m : Message) : (f m).messageId = m.messageId := congrArg Prod.fst (hf m)
  rcases @get?_foldl_append messages messageId t f hid l with ⟨m, hm, rfl, existing, hget⟩ | ⟨-, hget⟩
  · rw [hget, hl m hm, Option.map_some, Option.map_some, essence_stored, hf]
  · rw [hget]

/-! ## the databases of a thread -/

def IsStreamId (messageId : String) : Prop := ∃ rest, messageId = "chat_" ++ ("stream_" ++ rest)

theorem isStreamId_streamMessageId (streamKind modelCallId : String) :
    IsStreamId (streamMessageId scope streamKind modelCallId) := by
  refine ⟨streamKind ++ "_" ++ safeMessageComponent scope.chatThreadId ++ "_" ++
    safeMessageComponent modelCallId, ?_⟩
  unfold streamMessageId
  rw [show "chat_stream_" = "chat_" ++ "stream_" from rfl]
  simp only [String.append_assoc]

theorem IsStreamId.ne_event (h : IsStreamId messageId) (event : ChatEvent) : messageIdOf event ≠ messageId := by
  obtain ⟨rest, rfl⟩ := h
  unfold messageIdOf
  rw [show "chat_evt_" = "chat_" ++ "evt_" from rfl]
  simp only [String.append_assoc]
  intro heq
  exact Text.append_ne_append 'e' 's' (by decide) (by decide) (by decide) _ _ (Text.append_left_inj heq)

theorem IsStreamId.ne_new (h : IsStreamId messageId) (stamp : Stamp) (role : MessageRole)
    (messageType : MessageType) (bodyText : Option String) :
    (newMessage scope stamp role messageType bodyText).messageId ≠ messageId := by
  obtain ⟨rest, rfl⟩ := h
  show "msg_" ++ toString stamp.1 ++ "_" ++ toString stamp.2 ≠ _
  simp only [String.append_assoc]
  exact Text.append_ne_append 'm' 'c' (by decide) (by decide) (by decide) _ _

/-- the messages are stored under their ids; those of the model are in the shard, under ids of their own -/
structure Clean (db : ThreadDb) : Prop where
  main : Keyed db.main
  shard : Keyed db.shard
  plain : ∀ messageId m, db.main.get? messageId = some m →
    m.sourceKind ≠ "model_stream" ∧ m.role ≠ .assistant
  apart : ∀ messageId m, db.shard.get? messageId = some m → m.sourceKind = "model_stream" →
    IsStreamId messageId

theorem keyed_of_same (h : SameBut messages messages') (hkeyed : Keyed messages') : Keyed messages := by
  intro messageId m hm
  obtain ⟨m', hm', heq⟩ := h.exists hm
  exact (congrArg Prod.fst heq).trans (hkeyed messageId m' hm')

theorem Clean.of_same (h : Clean db) (hmain : SameBut db'.main db.main) (hshard : SameBut db'.shard db.shard) :
    Clean db' where
  main := keyed_of_same hmain h.main
  shard := keyed_of_same hshard h.shard
  plain := by
    intro messageId m hm
    obtain ⟨m', hm', heq⟩ := hmain.exists hm
    have hkind : m.sourceKind = m'.sourceKind := congrArg (fun e => e.2.2.2.1) heq
    have hrole : m.role = m'.role := congrArg (fun e => e.2.1) heq
    rw [hkind, hrole]
    exact h.plain messageId m' hm'
  apart := by
    intro messageId m hm hstream
    obtain ⟨m', hm', heq⟩ := hshard.exists hm
    have hkind : m.sourceKind = m'.sourceKind := congrArg (fun e => e.2.2.2.1) heq
    exact h.apart messageId m' hm' (hkind.symm.trans hstream)

theorem stored_cases (h : (appendMessage now messages message).get? messageId = some m) :
    (messageId = message.messageId ∧ essence m = essence message) ∨
      messageId ≠ message.messageId ∧ messages.get? messageId = some m := by
  rw [get?_appendMessage] at h
  by_cases hid : messageId = message.messageId
  · rw [if_pos hid] at h
    rw [← Option.some.inj h]
    exact .inl ⟨hid, essence_stored _ _ _⟩
  · rw [if_neg hid] at h
    exact .inr ⟨hid, h⟩

theorem Clean.append_main (h : Clean db) (hmessage : message.sourceKind ≠ "model_stream" ∧ message.role ≠ .assistant) :
    Clean { db with main := appendMessage now db.main message } where
  main := h.main.append
  shard := h.shard
  plain := by
    intro messageId m hm
    rcases stored_cases hm with ⟨-, heq⟩ | ⟨-, hold⟩
    · have hkind : m.sourceKind = message.sourceKind := congrArg (fun e => e.2.2.2.1) heq
      have hrole : m.role = message.role := congrArg (fun e => e.2.1) heq
      rw [hkind, hrole]
      exact hmessage
    · exact h.plain messageId m hold
  apart := h.apart

theorem Clean.append_shard (h : Clean db)
    (hmessage : message.sourceKind = "model_stream" → IsStreamId message.messageId) :
    Clean { db with shard := appendMessage now db.shard message } where
  main := h.main
  shard := h.shard.append
  plain := h.plain
  apart := by
    intro messageId m hm hstream
    rcases stored_cases hm with ⟨rfl, heq⟩ | ⟨-, hold⟩
    · have hkind : m.sourceKind = message.sourceKind := congrArg (fun e => e.2.2.2.1) heq
      exact hmessage (hkind.symm.trans hstream)
    · exact h.apart messageId m hold hstream

theorem clean_projectOne (h : Clean db) :
    Clean (projectOne codec readChatBlobText scope suppress now db event) := by
  rcases projectOne_cases suppress now db event with ⟨message, hmessage, -, hdb⟩ | ⟨-, hdb⟩
  · rw [hdb]
    refine h.append_shard fun hkind => ?_
    rw [eventMessage_kind hmessage] at hkind
    exact absurd hkind (by decide)
  · rw [hdb]
    exact h

theorem clean_projectChatEvents (h : Clean db) (events : List ChatEvent) :
    Clean (projectChatEvents codec readChatBlobText scope suppress now db events) := by
  unfold projectChatEvents
  induction events generalizing db with
  | nil => exact h
  | cons event events ih => exact ih (clean_projectOne h)

/-! ### pages -/

theorem mem_mergeMessages {candidates : List Message} (h : m ∈ mergeMessages candidates) : m ∈ candidates := by
  have hfold : ∀ l : List Message, ∀ m ∈ l.foldl mergeMessage [], m ∈ l := by
    intro l
    induction l using List.reverseRecOn with
    | nil => exact fun _ h => h
    | append_singleton l c ih =>
      intro m hm
      rw [List.foldl_concat] at hm
      rw [List.mem_append, List.mem_singleton]
      unfold mergeMessage at hm
      split at hm
      · split at hm
        · exact .inl (ih m hm)
        · rcases List.mem_append.mp hm with hm | hm
          · exact .inl (ih m (List.mem_of_mem_filter hm))
          · exact .inr (List.mem_singleton.mp hm)
      · rcases List.mem_append.mp hm with hm | hm
        · exact .inl (ih m hm)
        · exact .inr (List.mem_singleton.mp hm)
  exact hfold candidates m ((List.mem_insertionSort _).mp (List.mem_of_mem_drop h))

theorem mem_lastMessages {l : List Message} (h : m ∈ lastMessages l) : m ∈ l :=
  (List.mem_insertionSort _).mp (List.mem_of_mem_take (mem_bySortKey.mp h))

theorem mem_page {chatThreadId : String} (h : m ∈ listProjectedChatMessagesPage db chatThreadId) :
    (∃ messageId, db.main.get? messageId = some m) ∨ ∃ messageId, db.shard.get? messageId = some m := by
  rcases List.mem_append.mp (mem_mergeMessages h) with hm | hm
  · exact .inl (Table.mem_values.mp (List.mem_of_mem_filter (mem_lastMessages hm)))
  · exact .inr (Table.mem_values.mp (mem_lastMessages (List.mem_of_mem_filter hm)))

theorem Clean.get?_of_page (h : Clean db) {chatThreadId : String}
    (hm : m ∈ listProjectedChatMessagesPage db chatThreadId) (hkind : m.sourceKind = "model_stream") :
    db.shard.get? m.messageId = some m := by
  rcases mem_page hm with ⟨messageId, hget⟩ | ⟨messageId, hget⟩
  · exact absurd hkind (h.plain messageId m hget).1
  · rw [h.shard messageId m hget]
    exact hget

theorem sameBut_completeStreamed (h : Clean db) {stamps : String → Stamp} {kind : Message → Bool}
    {completed : Message → Message} (hkind : ∀ m, kind m = true → m.sourceKind = "model_stream")
    (hcompleted : ∀ m, essence (completed m) = essence m) :
    (completeStreamed scope stamps kind completed db).main = db.main ∧
      SameBut (completeStreamed scope stamps kind completed db).shard db.shard := by
  rw [completeStreamed_eq kind completed hkind fun m => congrArg (fun e => e.2.2.2.1) (hcompleted m)]
  dsimp only
  have hpage : ∀ m ∈ (listProjectedChatMessagesPage db scope.chatThreadId).filter fun message =>
      kind message && message.status != "completed", db.shard.get? m.messageId = some m := by
    intro m hm
    obtain ⟨hpage, hm⟩ := List.mem_filter.mp hm
    exact h.get?_of_page hpage (hkind m (Bool.and_eq_true_iff.mp hm).1)
  exact ⟨rfl, sameBut_foldl (fun m => (stamps m.messageId).1) completed _ hcompleted hpage⟩

theorem sameBut_completeChatRuntimePhase (h : Keyed messages) {stamps : String → Stamp}
    (chatThreadId status : String) :
    SameBut (completeChatRuntimePhase stamps messages chatThreadId status) messages := by
  intro messageId
  rcases @get?_completeChatRuntimePhase stamps messages messageId h chatThreadId status with
    ⟨m, existing, now, hm, -, -, hget⟩ | ⟨-, hget⟩
  · rw [hget, hm, Option.map_some, Option.map_some, essence_stored]
    rfl
  · rw [hget]

theorem SameBut.of_eq (h : messages = messages') : SameBut messages messages' := by
  rw [h]
  exact fun _ => rfl

theorem sameBut_completeTurn {state : ThreadState} (h : Clean state.db) (stamps : String → Stamp) (now : Nat)
    (runId : String) (result : ChatTurnResult) :
    SameBut (completeTurn scope stamps now state runId result).1.db.main state.db.main ∧
      SameBut (completeTurn scope stamps now state runId result).1.db.shard state.db.shard := by
  obtain ⟨hmain, hshard⟩ := @sameBut_completeStreamed scope state.db h stamps _ (completedAnswer stamps)
    (fun _ => isStreamedAnswer_kind) fun _ => rfl
  have hanswered : Clean (completeStreamed scope stamps isStreamedAnswer (completedAnswer stamps) state.db) :=
    h.of_same (.of_eq hmain) hshard
  obtain ⟨hmain', hshard'⟩ := @sameBut_completeStreamed scope _ hanswered stamps _ (completedReasoning stamps)
    (fun _ => isStreamedReasoning_kind) fun _ => rfl
  have hreasoned := hanswered.of_same (.of_eq hmain') hshard'
  have hphase := @sameBut_completeChatRuntimePhase _ hreasoned.main stamps scope.chatThreadId
    (chatRuntimePhaseStatus result.status)
  unfold completeTurn closeTurn completeStreamedAssistantAnswer completeStreamedChatReasoning
  dsimp only
  exact ⟨hphase.trans (.of_eq (hmain'.trans hmain)), hshard'.trans hshard⟩

/-! ## one projection -/

theorem eventMessage_answered (h : isAnswered event = true)
    (hmessage : eventMessage codec readChatBlobText scope event = some message) :
    message.role = .assistant ∧ message.messageType = .text ∧
      message.bodyText = answerText readChatBlobText event := by
  have htype : event.eventType = "chat_assistant_answered" := beq_iff_eq.mp h
  unfold eventMessage chatEventToMessage Chat.chatEventToMessage blobRefOf at hmessage
  rw [htype] at hmessage
  obtain rfl := Option.some.inj hmessage
  exact ⟨rfl, rfl, rfl⟩

theorem eventMessage_isSome (h : isAnswered event = true) :
    ∃ message, eventMessage codec readChatBlobText scope event = some message := by
  have htype : event.eventType = "chat_assistant_answered" := beq_iff_eq.mp h
  unfold eventMessage chatEventToMessage Chat.chatEventToMessage
  rw [htype]
  exact ⟨_, rfl⟩

theorem Clean.shown_cases (h : Clean db) (hshown : Shown db event text messageId) :
    messageId = messageIdOf event ∨ StreamedAs db event text messageId := by
  obtain ⟨m, hm | hm, hcarries⟩ := hshown
  · exact absurd hcarries.role (h.plain messageId m hm).2
  · rcases hcarries.own with hown | ⟨hkind, -⟩
    · exact .inl ((h.shard messageId m hm).symm.trans hown)
    · exact .inr ⟨m, hm, hkind, hcarries⟩

theorem StreamedAs.shown (h : StreamedAs db event text messageId) : Shown db event text messageId := by
  obtain ⟨m, hm, -, hcarries⟩ := h
  exact ⟨m, .inr hm, hcarries⟩

theorem Clean.not_streamedAs (h : Clean db) : ¬ StreamedAs db event text (messageIdOf event) := by
  rintro ⟨m, hm, hkind, -⟩
  exact (h.apart _ m hm hkind).ne_event event rfl

theorem shown_append_of_not (hnot : ∀ m, essence m = essence message → ¬ Carries event text m)
    (hbefore : ¬ Shown db event text message.messageId) :
    Shown { db with shard := appendMessage now db.shard message } event text messageId ↔
      Shown db event text messageId := by
  constructor
  · rintro ⟨m, hm | hm, hcarries⟩
    · exact ⟨m, .inl hm, hcarries⟩
    · rcases stored_cases hm with ⟨-, heq⟩ | ⟨-, hold⟩
      · exact absurd hcarries (hnot m heq)
      · exact ⟨m, .inr hold, hcarries⟩
  · intro hshown
    have hne : messageId ≠ message.messageId := by
      rintro rfl
      exact hbefore hshown
    obtain ⟨m, hm | hm, hcarries⟩ := hshown
    · exact ⟨m, .inl hm, hcarries⟩
    · refine ⟨m, .inr ?_, hcarries⟩
      rw [get?_appendMessage, if_neg hne]
      exact hm

theorem shown_append_other (h : Clean db) (hother : messageIdOf other ≠ messageIdOf event)
    (hmessage : eventMessage codec readChatBlobText scope other = some message) :
    Shown { db with shard := appendMessage now db.shard message } event text messageId ↔
      Shown db event text messageId := by
  have hid : message.messageId = messageIdOf other := eventMessage_id hmessage
  refine shown_append_of_not (fun m heq hcarries => ?_) fun hshown => ?_
  · have hmid : m.messageId = message.messageId := congrArg Prod.fst heq
    have hkind : m.sourceKind = message.sourceKind := congrArg (fun e => e.2.2.2.1) heq
    rcases hcarries.own with hown | ⟨hstream, -⟩
    · exact hother (hid.symm.trans (hmid.symm.trans hown))
    · rw [hkind, eventMessage_kind hmessage] at hstream
      exact absurd hstream (by decide)
  · rcases h.shown_cases hshown with heq | ⟨m, hm, hkind, -⟩
    · exact hother (hid.symm.trans heq)
    · exact (h.apart _ m hm hkind).ne_event other hid.symm

theorem shown_projectOne_other (h : Clean db) (hother : messageIdOf other ≠ messageIdOf event) :
    Shown (projectOne codec readChatBlobText scope suppress now db other) event text messageId ↔
      Shown db event text messageId := by
  rcases projectOne_cases suppress now db other with ⟨message, hmessage, -, hdb⟩ | ⟨-, hdb⟩
  · rw [hdb]
    exact shown_append_other h hother hmessage
  · rw [hdb]

theorem shown_projectChatEvents (h : Clean db)
    (hothers : ∀ other ∈ events, messageIdOf other ≠ messageIdOf event) :
    Shown (projectChatEvents codec readChatBlobText scope suppress now db events) event text messageId ↔
      Shown db event text messageId := by
  unfold projectChatEvents
  induction events generalizing db with
  | nil => rfl
  | cons other events ih =>
    refine (ih (clean_projectOne h) fun e he => hothers e (List.mem_cons_of_mem _ he)).trans ?_
    exact shown_projectOne_other h (hothers other List.mem_cons_self)

theorem shown_append_own (h : Clean db) (hanswered : isAnswered event = true)
    (htext : answerText readChatBlobText event = some text)
    (hmessage : eventMessage codec readChatBlobText scope event = some message) :
    Shown { db with shard := appendMessage now db.shard message } event text messageId ↔
      messageId = messageIdOf event ∨ StreamedAs db event text messageId := by
  have hid : message.messageId = messageIdOf event := eventMessage_id hmessage
  obtain ⟨hrole, htype, hbody⟩ := eventMessage_answered hanswered hmessage
  have hcarries : Carries event text message := by
    refine ⟨hrole, htype, .inl hid, ?_⟩
    rw [hbody, htext]
    exact beq_self_eq_true _
  constructor
  · rintro ⟨m, hm | hm, hm'⟩
    · exact absurd hm'.role (h.plain messageId m hm).2
    · rcases stored_cases hm with ⟨heq, -⟩ | ⟨-, hold⟩
      · exact .inl (heq.trans hid)
      · exact h.shown_cases ⟨m, .inr hold, hm'⟩
  · rintro (rfl | hstreamed)
    · refine ⟨stored (db.shard.get? message.messageId) now message, .inr ?_,
        hcarries.of_essence (essence_stored _ _ _).symm⟩
      rw [get?_appendMessage, if_pos hid.symm]
    · obtain ⟨m, hm, hkind, hm'⟩ := hstreamed
      refine ⟨m, .inr ?_, hm'⟩
      rw [get?_appendMessage, if_neg fun heq =>
        (h.apart messageId m hm hkind).ne_event event (hid.symm.trans heq.symm)]
      exact hm

/-- **its own turn in a projection**: the answer is shown once afterwards if it was left out and has been shown
once, or if it was appended and has not been streamed -/
theorem shownOnce_projectOne_iff (h : Clean db) (hanswered : isAnswered event = true)
    (htext : answerText readChatBlobText event = some text) :
    ShownOnce (projectOne codec readChatBlobText scope suppress now db event) event text ↔
      if shownAlready db event suppress (some text) then ShownOnce db event text
      else ∀ messageId, ¬ StreamedAs db event text messageId := by
  obtain ⟨message, hmessage⟩ := @eventMessage_isSome codec readChatBlobText scope event hanswered
  have hbody : message.bodyText = some text := (eventMessage_answered hanswered hmessage).2.2.trans htext
  rcases projectOne_cases suppress now db event with ⟨other, hother, hshown, hdb⟩ | ⟨hshown, hdb⟩
  · obtain rfl : message = other := Option.some.inj (hmessage.symm.trans hother)
    rw [hbody] at hshown
    rw [hdb, hshown, if_neg Bool.false_ne_true]
    unfold ShownOnce
    rw [existsUnique_congr fun _ => shown_append_own h hanswered htext hmessage]
    constructor
    · rintro ⟨messageId, -, hunique⟩ streamed hstreamed
      have hown := hunique (messageIdOf event) (.inl rfl)
      have hsame := hunique streamed (.inr hstreamed)
      rw [hsame, ← hown] at hstreamed
      exact h.not_streamedAs hstreamed
    · intro hnone
      exact ⟨messageIdOf event, .inl rfl, fun other hother => hother.resolve_right (hnone other)⟩
  · have hshown := hshown message hmessage
    rw [hbody] at hshown
    rw [hdb, hshown, if_pos rfl]

theorem Clean.streamedAs_iff (h : Clean db) :
    StreamedAs db event text messageId ↔ Shown db event text messageId ∧ messageId ≠ messageIdOf event := by
  constructor
  · intro hstreamed
    refine ⟨hstreamed.shown, ?_⟩
    rintro rfl
    exact h.not_streamedAs hstreamed
  · rintro ⟨hshown, hne⟩
    exact (h.shown_cases hshown).resolve_left hne

theorem ne_of_split {old rest : List ChatEvent} (hids : ((old ++ event :: rest).map messageIdOf).Nodup) :
    (∀ other ∈ old, messageIdOf other ≠ messageIdOf event) ∧
      ∀ other ∈ rest, messageIdOf other ≠ messageIdOf event := by
  rw [List.map_append, List.map_cons, List.nodup_append, List.nodup_cons] at hids
  obtain ⟨-, ⟨hrest, -⟩, hold⟩ := hids
  refine ⟨fun other hother => ?_, fun other hother heq => ?_⟩
  · exact hold _ (List.mem_map_of_mem hother) _ List.mem_cons_self
  · exact hrest (heq ▸ List.mem_map_of_mem hother)

/-- **a projection** of events with different ids shows each answer once exactly when it tells them apart -/
theorem shownOnce_projectChatEvents_iff (h : Clean db) {old rest : List ChatEvent}
    (hids : ((old ++ event :: rest).map messageIdOf).Nodup) (hanswered : isAnswered event = true)
    (htext : answerText readChatBlobText event = some text) :
    ShownOnce (projectChatEvents codec readChatBlobText scope suppress now db (old ++ event :: rest)) event text ↔
      if shownAlready (projectChatEvents codec readChatBlobText scope suppress now db old) event suppress
          (some text) then ShownOnce db event text
      else ∀ messageId, ¬ StreamedAs db event text messageId := by
  obtain ⟨hold, hrest⟩ := ne_of_split hids
  have hbefore : Clean (projectChatEvents codec readChatBlobText scope suppress now db old) :=
    clean_projectChatEvents h old
  have hshown (messageId : String) : Shown (projectChatEvents codec readChatBlobText scope suppress now db old)
      event text messageId ↔ Shown db event text messageId := shown_projectChatEvents h hold
  have hsplit : projectChatEvents codec readChatBlobText scope suppress now db (old ++ event :: rest) =
      projectChatEvents codec readChatBlobText scope suppress now
        (projectOne codec readChatBlobText scope suppress now
          (projectChatEvents codec readChatBlobText scope suppress now db old) event) rest := by
    unfold projectChatEvents
    rw [List.foldl_append, List.foldl_cons]
  have hafter : ShownOnce (projectChatEvents codec readChatBlobText scope suppress now db (old ++ event :: rest))
      event text ↔ ShownOnce (projectOne codec readChatBlobText scope suppress now
        (projectChatEvents codec readChatBlobText scope suppress now db old) event) event text := by
    rw [hsplit]
    exact existsUnique_congr fun _ => shown_projectChatEvents (clean_projectOne hbefore) hrest
  rw [hafter, shownOnce_projectOne_iff hbefore hanswered htext]
  have honce : ShownOnce (projectChatEvents codec readChatBlobText scope suppress now db old) event text ↔
      ShownOnce db event text := existsUnique_congr hshown
  have hstreamed : (∀ messageId, ¬ StreamedAs
      (projectChatEvents codec readChatBlobText scope suppress now db old) event text messageId) ↔
        ∀ messageId, ¬ StreamedAs db event text messageId := by
    refine forall_congr' fun messageId => not_congr ?_
    rw [hbefore.streamedAs_iff, h.streamedAs_iff, hshown]
  rw [honce, hstreamed]

/-! ## runs -/

/-- the databases are clean, and the events of the thread have a sequence number each -/
structure Tidy (scope : ThreadScope) (log : TurnLog) : Prop where
  clean : Clean log.state.db
  seqs : (log.events.map (·.eventSeq)).Nodup
  thread : ∀ event ∈ log.events, event.chatThreadId = scope.chatThreadId

variable {log : TurnLog} {stamps : String → Stamp} {runId : String} {result : ChatTurnResult}

theorem Tidy.ids (h : Tidy scope log) : (log.events.map messageIdOf).Nodup := by
  refine List.Nodup.map_on (fun a ha b hb hid => ?_) (List.Nodup.of_map _ h.seqs)
  refine List.inj_on_of_nodup_map h.seqs ha hb ?_
  exact messageId_inj ((h.thread a ha).trans (h.thread b hb).symm) hid

theorem lt_nextEventSeq (h : event ∈ events) : event.eventSeq < nextEventSeq events := by
  unfold nextEventSeq
  induction events with
  | nil => exact absurd h List.not_mem_nil
  | cons first rest ih =>
    rw [List.map_cons, List.foldr_cons]
    rcases List.mem_cons.mp h with rfl | hrest
    · omega
    · have hlt := ih hrest
      omega

theorem Tidy.keep (h : Tidy scope log) {log' : TurnLog} (hclean : Clean log'.state.db)
    (hevents : log'.events = log.events) : Tidy scope log' where
  clean := hclean
  seqs := hevents ▸ h.seqs
  thread := hevents ▸ h.thread

theorem clean_onModelStreamDelta (h : Clean db) (stamp : Stamp) (sink : ProductChatStreamSink)
    (delta : ModelStreamDelta) : Clean (onModelStreamDelta scope stamp sink db delta).2 := by
  unfold onModelStreamDelta
  split
  · exact h
  · dsimp only
    split
    · exact h.append_shard fun _ => isStreamId_streamMessageId _ _
    · exact h.append_shard fun _ => isStreamId_streamMessageId _ _

theorem messageIdOf_ne_new (event : ChatEvent) (stamp : Stamp) (role : MessageRole) (messageType : MessageType)
    (bodyText : Option String) : (newMessage scope stamp role messageType bodyText).messageId ≠ messageIdOf event := by
  show "msg_" ++ toString stamp.1 ++ "_" ++ toString stamp.2 ≠ "chat_evt_" ++ event.chatThreadId ++ "_" ++ _
  simp only [String.append_assoc]
  exact Text.append_ne_append 'm' 'c' (by decide) (by decide) (by decide) _ _

theorem failTurn_db (state : ThreadState) (stamp : Stamp) (runId error : String) :
    (failTurn scope stamps stamp state runId error).db =
      ⟨completeChatRuntimePhase stamps state.db.main scope.chatThreadId "failed",
        appendMessage stamp.1 state.db.shard (kernelError scope stamp error)⟩ := by
  unfold failTurn
  dsimp only
  rw [appendProjection_shard (.inr (.inr rfl))]

theorem clean_failTurn {state : ThreadState} (h : Clean state.db) (stamp : Stamp) (runId error : String) :
    Clean (failTurn scope stamps stamp state runId error).db := by
  have hphase := @sameBut_completeChatRuntimePhase _ h.main stamps scope.chatThreadId "failed"
  have hmain : Clean ⟨completeChatRuntimePhase stamps state.db.main scope.chatThreadId "failed", state.db.shard⟩ :=
    h.of_same hphase (.of_eq rfl)
  rw [failTurn_db]
  exact hmain.append_shard fun hkind => absurd hkind (show "kernel_bridge" ≠ "model_stream" by decide)

theorem shown_failTurn {state : ThreadState} (h : Clean state.db) (stamp : Stamp) (runId error : String) :
    Shown (failTurn scope stamps stamp state runId error).db event text messageId ↔
      Shown state.db event text messageId := by
  have hphase := @sameBut_completeChatRuntimePhase _ h.main stamps scope.chatThreadId "failed"
  have hmain : Clean ⟨completeChatRuntimePhase stamps state.db.main scope.chatThreadId "failed", state.db.shard⟩ :=
    h.of_same hphase (.of_eq rfl)
  rw [failTurn_db, ← @shown_congr ⟨_, _⟩ _ messageId text event hphase (.of_eq rfl)]
  refine @shown_append_of_not ⟨_, _⟩ _ _ _ _ _ (fun m heq hcarries => ?_) fun hshown => ?_
  · have hrole : m.role = .system := congrArg (fun e => e.2.1) heq
    exact absurd (hrole.symm.trans hcarries.role) nofun
  · rcases hmain.shown_cases hshown with heq | ⟨m, hm, hkind, -⟩
    · exact messageIdOf_ne_new event stamp .system .error (some error) heq
    · exact (hmain.apart _ m hm hkind).ne_new stamp .system .error (some error) rfl

theorem clean_completeTurn {state : ThreadState} (h : Clean state.db) (stamps : String → Stamp) (now : Nat)
    (runId : String) (result : ChatTurnResult) :
    Clean (completeTurn scope stamps now state runId result).1.db := by
  obtain ⟨hmain, hshard⟩ := @sameBut_completeTurn scope state h stamps now runId result
  exact h.of_same hmain hshard

theorem tidy_step (h : Tidy scope log) (move : LogMove) :
    Tidy scope (log.step codec readChatBlobText scope move) := by
  cases move with
  | start userStamp phaseStamp message workerId runId now =>
    refine h.keep ?_ rfl
    have huser : Clean ⟨appendMessage userStamp.1 log.state.db.main (pendingUserMessage scope userStamp message),
        log.state.db.shard⟩ := h.clean.append_main
      ⟨show "product_runtime_request" ≠ "model_stream" by decide, show MessageRole.user ≠ .assistant by decide⟩
    exact huser.append_main
      ⟨show "product_runtime_runtime" ≠ "model_stream" by decide, show MessageRole.system ≠ .assistant by decide⟩
  | stream stamp delta => exact h.keep (clean_onModelStreamDelta h.clean stamp log.sink delta) rfl
  | append eventType payload blobRef eventId nowMs =>
    refine ⟨h.clean, ?_, fun event hevent => ?_⟩
    · show ((log.events ++ [_]).map _).Nodup
      rw [List.map_append, List.nodup_append]
      refine ⟨h.seqs, List.nodup_singleton _, fun a ha b hb => ?_⟩
      obtain ⟨event, hevent, rfl⟩ := List.mem_map.mp ha
      rw [List.map_singleton, List.mem_singleton] at hb
      rw [hb]
      exact Nat.ne_of_lt (lt_nextEventSeq hevent)
    · rcases List.mem_append.mp hevent with hevent | hevent
      · exact h.thread event hevent
      · rw [List.mem_singleton.mp hevent]
        rfl
  | finish stamps now runId status assistantContent =>
    refine h.keep ?_ rfl
    exact clean_projectChatEvents (clean_completeTurn h.clean stamps now runId _) log.events
  | fail stamps stamp runId error => exact h.keep (clean_failTurn h.clean stamp runId error) rfl
  | hydrate now => exact h.keep (clean_projectChatEvents h.clean log.events) rfl

theorem clean_empty : Clean ⟨.empty, .empty⟩ where
  main := fun _ _ h => absurd h.symm (Option.some_ne_none _)
  shard := fun _ _ h => absurd h.symm (Option.some_ne_none _)
  plain := fun _ _ h => absurd h.symm (Option.some_ne_none _)
  apart := fun _ _ h => absurd h.symm (Option.some_ne_none _)

theorem tidy_run (moves : List LogMove) : Tidy scope (runLog codec readChatBlobText scope moves) := by
  unfold runLog
  induction moves using List.reverseRecOn with
  | nil => exact ⟨clean_empty, List.nodup_nil, nofun⟩
  | append_singleton moves move ih =>
    rw [List.foldl_concat]
    exact tidy_step ih move

/-! ## every projection -/

theorem answersShown_project_iff (h : Tidy scope log) (hclean : Clean db)
    (hmain : SameBut db.main log.state.db.main) (hshard : SameBut db.shard log.state.db.shard) :
    (∀ event ∈ log.events, isAnswered event = true → ∀ text, answerText readChatBlobText event = some text →
        ShownOnce (projectChatEvents codec readChatBlobText scope suppress now db log.events) event text) ↔
      ToldApart codec readChatBlobText scope suppress now db log := by
  have hone {old rest : List ChatEvent} {event : ChatEvent} (hsplit : log.events = old ++ event :: rest)
      (hanswered : isAnswered event = true) {text : String}
      (htext : answerText readChatBlobText event = some text) :
      ShownOnce (projectChatEvents codec readChatBlobText scope suppress now db log.events) event text ↔
        if shownAlready (projectChatEvents codec readChatBlobText scope suppress now db old) event suppress
            (some text) then ShownOnce log.state.db event text
        else ∀ messageId, ¬ StreamedAs log.state.db event text messageId := by
    have hids := h.ids
    rw [hsplit] at hids ⊢
    rw [shownOnce_projectChatEvents_iff hclean hids hanswered htext, shownOnce_congr hmain hshard]
    have hstreamed (messageId : String) :
        StreamedAs db event text messageId ↔ StreamedAs log.state.db event text messageId :=
      ⟨.of_same hshard, .of_same hshard.symm⟩
    rw [forall_congr' fun messageId => not_congr (hstreamed messageId)]
  constructor
  · intro hall old event rest hsplit hanswered text htext
    refine (hone hsplit hanswered htext).mp (hall event ?_ hanswered text htext)
    rw [hsplit]
    exact List.mem_append_right _ List.mem_cons_self
  · intro hall event hevent hanswered text htext
    obtain ⟨old, rest, hsplit⟩ := List.append_of_mem hevent
    exact (hone hsplit hanswered htext).mpr (hall old event rest hsplit hanswered text htext)

theorem answersShown_step_iff (h : Tidy scope log) {move : LogMove} (hmove : move.Projects) :
    AnswersShown readChatBlobText (log.step codec readChatBlobText scope move) ↔
      Tells codec readChatBlobText scope log move := by
  cases move with
  | start | stream | append => exact absurd hmove id
  | finish stamps now runId status assistantContent =>
    obtain ⟨hmain, hshard⟩ := @sameBut_completeTurn scope log.state h.clean stamps now runId
      ⟨status, assistantContent, log.events⟩
    exact answersShown_project_iff h (h.clean.of_same hmain hshard) hmain hshard
  | fail stamps stamp runId error =>
    refine forall_congr' fun event => forall_congr' fun _ => forall_congr' fun _ => forall_congr' fun text =>
      forall_congr' fun _ => ?_
    exact existsUnique_congr fun _ => shown_failTurn h.clean stamp runId error
  | hydrate now => exact answersShown_project_iff h h.clean (.of_eq rfl) (.of_eq rfl)

end

/-- **each answer is shown once** after every call that records a turn and every hydration of a run exactly when
each projection tells the answers apart, and no turn that fails leaves one behind -/
theorem shown_once_iff (moves : List LogMove) :
    (∀ old move, old ++ [move] <+: moves → move.Projects →
        AnswersShown readChatBlobText (runLog codec readChatBlobText scope (old ++ [move]))) ↔
      ∀ old move, old ++ [move] <+: moves →
        Tells codec readChatBlobText scope (runLog codec readChatBlobText scope old) move := by
  have hconcat (old : List LogMove) (move : LogMove) : runLog codec readChatBlobText scope (old ++ [move]) =
      (runLog codec readChatBlobText scope old).step codec readChatBlobText scope move :=
    List.foldl_concat _ _ _ _
  refine forall_congr' fun old => forall_congr' fun move => imp_congr_right fun _ => ?_
  rw [hconcat]
  by_cases hmove : move.Projects
  · rw [← answersShown_step_iff (tidy_run old) hmove]
    exact ⟨fun hall => hall hmove, fun hall _ => hall⟩
  · refine iff_of_true (fun h => absurd h hmove) ?_
    cases move with
    | start | stream | append => trivial
    | finish | fail | hydrate => exact absurd trivial hmove

/-! ## an answer that was given before -/

def answeredPayload (contentRef modelCallId : String) : Json :=
  .obj [("assistant_content_ref", .str contentRef), ("model_call_ids", .arr [.str modelCallId])]

/-- the first turn streams its answer; the second gives the same answer, and does not stream it -/
def sameAnswerMoves : List LogMove :=
  [.start (1000, 1) (1000, 2) "Is it raining?" "worker_1" "run_1" 1000,
    .stream (1001, 3) ⟨"mcall_1", "chat_turn", .answer, 1, "Yes."⟩,
    .append "chat_assistant_answered" (answeredPayload "turn_1" "mcall_1") none "chat_evt_a" 1002,
    .finish (fun _ => (1003, 4)) 1003 "run_1" .answered (some "Yes."),
    .start (2000, 5) (2000, 6) "Still?" "worker_1" "run_2" 2000,
    .append "chat_assistant_answered" (answeredPayload "turn_2" "mcall_2") none "chat_evt_b" 2001,
    .finish (fun _ => (2002, 7)) 2002 "run_2" .answered (some "Yes.")]

/-- the second answer has no message at all -/
theorem same_answer_twice : ∃ (codec : Codec) (readChatBlobText : String → Option String) (scope : ThreadScope)
    (event : ChatEvent), event ∈ (runLog codec readChatBlobText scope sameAnswerMoves).events ∧
      isAnswered event = true ∧ answerText readChatBlobText event = some "Yes." ∧
      (∀ messageId, ¬ Shown (runLog codec readChatBlobText scope sameAnswerMoves).state.db event "Yes." messageId) ∧
      ¬ AnswersShown readChatBlobText (runLog codec readChatBlobText scope sameAnswerMoves) := by
  let codec : Codec := ⟨fun _ => .error "", fun _ => ""⟩
  let readChatBlobText : String → Option String := fun _ => some "Yes."
  let scope : ThreadScope := ⟨"workspace_1", "container_1", "chat_1"⟩
  let log := runLog codec readChatBlobText scope sameAnswerMoves
  let event := eventOf ⟨"chat_1", "container_1", "chat_assistant_answered", answeredPayload "turn_2" "mcall_2", none⟩
    2 "chat_evt_b" 2001
  have hevent : event ∈ log.events := List.mem_of_getElem? (show log.events[1]? = some event from rfl)
  have hassistant : ∀ m ∈ log.state.db.main.values ++ log.state.db.shard.values, m.role = .assistant →
      m.messageId ≠ "chat_evt_chat_1_2" ∧ m.sourceRef = "mcall_1" := by
    decide +kernel
  have hnone : ∀ messageId, ¬ Shown log.state.db event "Yes." messageId := by
    rintro messageId ⟨m, hm, hcarries⟩
    have hmem : m ∈ log.state.db.main.values ++ log.state.db.shard.values :=
      List.mem_append.mpr (hm.imp (fun h => Table.mem_values.mpr ⟨_, h⟩) fun h => Table.mem_values.mpr ⟨_, h⟩)
    obtain ⟨hid, href⟩ := hassistant m hmem hcarries.role
    rcases hcarries.own with hown | ⟨-, hcall⟩
    · exact hid (hown.trans (by decide +kernel))
    · rw [href] at hcall
      exact absurd hcall (by decide)
  refine ⟨codec, readChatBlobText, scope, event, hevent, rfl, rfl, hnone, fun hall => ?_⟩
  obtain ⟨messageId, hshown, -⟩ := hall event hevent rfl "Yes." rfl
  exact hnone messageId hshown

end ChatService

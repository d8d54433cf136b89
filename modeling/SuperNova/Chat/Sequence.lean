import SuperNova.Chat.Log
import SuperNova.Lib.Recorded

/-!
# The sequence numbers of a chat

* `Sequenced`: the events of a thread have the numbers from one on, and each of its messages has a row;
* `Undisturbed`: no event came into the thread since the connection selected its number;
* `sequenced_iff` (**main**): the numbers are right all along a run exactly when every insert is
  undisturbed.
-/

set_option linter.unusedSectionVars false

namespace Chat

open Feed

/-- the numbers are different and consecutive, and each event of a message has its row -/
structure Sequenced (codec : Codec) (db : ChatDb) (chatThreadId : String) : Prop where
  numbers : ((db.eventsOf chatThreadId).map (·.eventSeq)).Perm
    (List.range' 1 (db.eventsOf chatThreadId).length)
  projected : ∀ nowMs, (projectEvents codec nowMs (db.readEvents chatThreadId)).rows =
    ((db.readEvents chatThreadId).filterMap (chatEventToMessage codec)).map (storedRow none nowMs)

/-- an event is inserted into the thread, and none came into it since the number was selected -/
def Undisturbed (chatThreadId : String) (db : ChatDb) : Statement → Prop
  | .insertEvent i eventId _ => ∀ request eventSeq seen,
      db.appenders[i]? = some ⟨request, .selected eventSeq seen⟩ → request.chatThreadId = chatThreadId →
      db.events.any (·.eventId == eventId) = false → seen = (db.eventsOf chatThreadId).length
  | _ => True

/-- the numbers are in order, and those that connections hold are the next ones at the time -/
structure Ordered (db : ChatDb) (chatThreadId : String) : Prop where
  numbers : (db.eventsOf chatThreadId).map (·.eventSeq) =
    List.range' 1 (db.eventsOf chatThreadId).length
  held : ∀ request eventSeq seen, ⟨request, .selected eventSeq seen⟩ ∈ db.appenders →
    request.chatThreadId = chatThreadId → eventSeq = seen + 1 ∧ seen ≤ (db.eventsOf chatThreadId).length

section
variable {codec : Codec} {db : ChatDb} {chatThreadId : String} {nowMs : Nat}

/-! ## messages -/

theorem messageId_inj {a b : ChatEvent} (hthread : a.chatThreadId = b.chatThreadId)
    (h : messageIdOf a = messageIdOf b) : a.eventSeq = b.eventSeq := by
  unfold messageIdOf at h
  rw [hthread] at h
  exact Text.toString_inj (Text.append_left_inj h)

theorem messageId_of_message {event : ChatEvent} {message : ContainerMessage}
    (h : chatEventToMessage codec event = some message) : message.messageId = messageIdOf event := by
  obtain ⟨bodyText, -, rfl⟩ := Option.map_eq_some_iff.mp h
  rfl

theorem put_new {table : MessageTable} {row : Row} (h : ∀ r ∈ table.rows, r.messageId ≠ row.messageId) :
    (table.put row).rows = table.rows ++ [row] := by
  show (table.rows.filter fun r => r.messageId != row.messageId) ++ [row] = _
  rw [List.filter_eq_self.mpr fun r hr => bne_iff_ne.mpr (h r hr)]

theorem rows_foldl {messages : List ContainerMessage} {table : MessageTable}
    (hnodup : (table.rows.map (·.messageId) ++ messages.map (·.messageId)).Nodup) :
    (messages.foldl (fun table message =>
      table.put (storedRow (table.row? message.messageId) nowMs message)) table).rows =
      table.rows ++ messages.map (storedRow none nowMs) := by
  induction messages generalizing table with
  | nil => exact (List.append_nil _).symm
  | cons message messages ih =>
    have hnew : ∀ r ∈ table.rows, r.messageId ≠ message.messageId := by
      intro r hr heq
      have hdisjoint := (List.nodup_append.mp hnodup).2.2 r.messageId (List.mem_map_of_mem hr)
        message.messageId (List.mem_map_of_mem List.mem_cons_self)
      exact hdisjoint heq
    have hnone : table.row? message.messageId = none :=
      List.find?_eq_none.mpr fun r hr => by simpa using hnew r hr
    have hput : (table.put (storedRow none nowMs message)).rows = table.rows ++ [storedRow none nowMs message] :=
      put_new hnew
    rw [List.foldl_cons, hnone, ih, hput, List.append_assoc]
    · rfl
    · rw [hput, List.map_append, List.append_assoc]
      exact hnodup

theorem thread_of_mem {event : ChatEvent} (h : event ∈ db.eventsOf chatThreadId) :
    event.chatThreadId = chatThreadId := by
  simpa using (List.mem_filter.mp h).2

theorem projected_of_nodup (h : ((db.eventsOf chatThreadId).map (·.eventSeq)).Nodup) :
    (projectEvents codec nowMs (db.readEvents chatThreadId)).rows =
      ((db.readEvents chatThreadId).filterMap (chatEventToMessage codec)).map (storedRow none nowMs) := by
  have hperm : (db.readEvents chatThreadId).Perm (db.eventsOf chatThreadId) := List.perm_insertionSort _ _
  have hnumbers : ((db.readEvents chatThreadId).map (·.eventSeq)).Nodup := (hperm.map _).nodup_iff.mpr h
  unfold projectEvents
  refine (rows_foldl ?_).trans (List.nil_append _)
  show (([] : List String) ++ _).Nodup
  rw [List.nil_append]
  refine List.pairwise_map.mpr (List.pairwise_filterMap.mpr ?_)
  refine (List.pairwise_map.mp hnumbers).imp_of_mem ?_
  intro a b ha hb hne m hm n hn heq
  rw [messageId_of_message hm, messageId_of_message hn] at heq
  refine hne (messageId_inj ?_ heq)
  rw [thread_of_mem (hperm.mem_iff.mp ha), thread_of_mem (hperm.mem_iff.mp hb)]

/-! ## numbers -/

theorem foldr_max_range' (n : Nat) : (List.range' 1 n).foldr max 0 = n := by
  induction n with
  | zero => rfl
  | succ n ih =>
    have hstart : ∀ (l : List Nat) (m : Nat), l.foldr max m = max (l.foldr max 0) m := by
      intro l m
      induction l with
      | nil => exact (Nat.zero_max m).symm
      | cons k l ihl => rw [List.foldr_cons, List.foldr_cons, ihl, Nat.max_assoc]
    rw [List.range'_concat, List.foldr_append, hstart, ih]
    show max n (max (1 + 1 * n) 0) = n + 1
    omega

theorem Ordered.nextSeq (h : Ordered db chatThreadId) :
    db.nextSeq chatThreadId = (db.eventsOf chatThreadId).length + 1 := by
  rw [ChatDb.nextSeq, h.numbers, foldr_max_range']

theorem Ordered.sequenced (h : Ordered db chatThreadId) : Sequenced codec db chatThreadId where
  numbers := by rw [h.numbers]
  projected nowMs := projected_of_nodup (by rw [h.numbers]; exact List.nodup_range')

/-! ## one statement -/

theorem mem_setPhase {i : Nat} {appender appender' : Appender} {phase : AppendPhase}
    (h : appender' ∈ (db.setPhase i appender phase).appenders) :
    appender' ∈ db.appenders ∨ appender' = { appender with phase } :=
  List.mem_or_eq_of_mem_set h

theorem Ordered.setPhase (h : Ordered db chatThreadId) {i : Nat} {appender : Appender} {phase : AppendPhase}
    (hphase : ∀ eventSeq seen, phase ≠ .selected eventSeq seen) :
    Ordered (db.setPhase i appender phase) chatThreadId where
  numbers := h.numbers
  held := by
    intro request eventSeq seen hmem hthread
    rcases mem_setPhase hmem with hold | hnew
    · exact h.held request eventSeq seen hold hthread
    · exact absurd (Appender.mk.inj hnew).2.symm (hphase eventSeq seen)

theorem eventsOf_insert {db' : ChatDb} {event : ChatEvent} (h : db'.events = db.events ++ [event]) :
    db'.eventsOf chatThreadId =
      db.eventsOf chatThreadId ++ if event.chatThreadId = chatThreadId then [event] else [] := by
  unfold ChatDb.eventsOf
  rw [h, List.filter_append]
  by_cases hthread : event.chatThreadId = chatThreadId <;> simp [hthread]

theorem Ordered.insert (h : Ordered db chatThreadId) {db' : ChatDb} {i seen eventSeq : Nat}
    {request : AppendRequest} {eventId : String} {now : Int}
    (hmem : ⟨request, .selected eventSeq seen⟩ ∈ db.appenders)
    (hseen : request.chatThreadId = chatThreadId → seen = (db.eventsOf chatThreadId).length)
    (hinsert : db'.events = db.events ++ [eventOf request eventSeq eventId now])
    (happenders : db'.appenders = (db.setPhase i ⟨request, .selected eventSeq seen⟩
      (.inserted (eventOf request eventSeq eventId now))).appenders) : Ordered db' chatThreadId := by
  have hevents : db'.eventsOf chatThreadId = _ := eventsOf_insert hinsert
  constructor
  · rw [hevents]
    show List.map _ (_ ++ if request.chatThreadId = chatThreadId then _ else _) = _
    by_cases hthread : request.chatThreadId = chatThreadId
    · have heventSeq := (h.held request eventSeq seen hmem hthread).1
      have hnew : (eventOf request eventSeq eventId now).chatThreadId = chatThreadId := hthread
      rw [if_pos hthread, if_pos hnew, List.map_append, h.numbers, List.length_append,
        List.length_singleton, List.range'_concat, ← hseen hthread, one_mul, Nat.add_comm 1 seen,
        ← heventSeq]
      rfl
    · have hnew : (eventOf request eventSeq eventId now).chatThreadId ≠ chatThreadId := hthread
      rw [if_neg hthread, if_neg hnew, List.append_nil]
      exact h.numbers
  · intro request' eventSeq' seen' hmem' hthread'
    have hlength : (db.eventsOf chatThreadId).length ≤ (db'.eventsOf chatThreadId).length := by
      rw [hevents, List.length_append]
      omega
    rw [happenders] at hmem'
    rcases mem_setPhase hmem' with hold | hnew
    · have hheld := h.held request' eventSeq' seen' hold hthread'
      exact ⟨hheld.1, hheld.2.trans hlength⟩
    · cases (Appender.mk.inj hnew).2

theorem ordered_step (h : Ordered db chatThreadId) {statement : Statement}
    (hundisturbed : Undisturbed chatThreadId db statement) : Ordered (db.step statement) chatThreadId := by
  cases statement with
  | connect request =>
    refine ⟨h.numbers, fun request' eventSeq seen hmem hthread => ?_⟩
    rcases List.mem_append.mp hmem with hold | hnew
    · exact h.held request' eventSeq seen hold hthread
    · cases List.mem_singleton.mp hnew
  | selectSeq i =>
    rw [ChatDb.step]
    split
    · refine ⟨h.numbers, fun request' eventSeq seen hmem hthread => ?_⟩
      rcases mem_setPhase hmem with hold | hnew
      · exact h.held request' eventSeq seen hold hthread
      · cases hnew
        subst hthread
        exact ⟨h.nextSeq, le_refl _⟩
    · exact h
  | insertEvent i eventId now =>
    rw [ChatDb.step]
    split
    · next request eventSeq seen hi =>
      split
      · exact h.setPhase fun _ _ => nofun
      · next hfresh =>
        rw [Bool.not_eq_true] at hfresh
        refine h.insert (List.mem_of_getElem? hi) (fun hthread => ?_) rfl rfl
        exact hundisturbed request eventSeq seen hi hthread hfresh
    · exact h
  | updateThread i =>
    rw [ChatDb.step]
    split
    · next request event hi =>
      have hnext : Ordered (db.setPhase i ⟨request, .inserted event⟩ (.returned event)) chatThreadId :=
        h.setPhase fun _ _ => nofun
      exact ⟨hnext.numbers, hnext.held⟩
    · exact h
  | fails i =>
    rw [ChatDb.step]
    split
    · exact h
    · exact h.setPhase fun _ _ => nofun
    · exact h

theorem undisturbed_of (h : Ordered db chatThreadId) {statement : Statement}
    (hs : Sequenced codec (db.step statement) chatThreadId) : Undisturbed chatThreadId db statement := by
  cases statement with
  | insertEvent i eventId now =>
    intro request eventSeq seen hi hthread hfresh
    have hheld := h.held request eventSeq seen (List.mem_of_getElem? hi) hthread
    have hnumbers := hs.numbers
    have hinsert : (db.step (.insertEvent i eventId now)).events =
        db.events ++ [eventOf request eventSeq eventId now] := by
      rw [ChatDb.step, hi]
      show ChatDb.events (if db.events.any (·.eventId == eventId) = true then _ else _) = _
      rw [hfresh]
      rfl
    have hnew : (eventOf request eventSeq eventId now).chatThreadId = chatThreadId := hthread
    rw [eventsOf_insert hinsert, if_pos hnew, List.map_append, h.numbers, List.length_append,
      List.length_singleton, List.range'_concat, one_mul, List.perm_append_left_iff] at hnumbers
    have heq : eventSeq = 1 + (db.eventsOf chatThreadId).length :=
      List.singleton_inj.mp (List.perm_singleton.mp hnumbers)
    omega
  | connect | selectSeq | updateThread | fails => trivial

/-! ## runs -/

/-- a chat database to which nothing was appended -/
def ChatDb.ofThreads (threads : List ChatThread) : ChatDb := ⟨[], threads, []⟩

theorem ordered_ofThreads (threads : List ChatThread) : Ordered (.ofThreads threads) chatThreadId where
  numbers := rfl
  held := fun _ _ _ h => nomatch h

end

/-- **all along a run of any number of connections, the events of a thread have consecutive numbers and a
message each, exactly when no event comes into the thread between the two statements with which one of them
selects its number and inserts its event** -/
theorem sequenced_iff (codec : Codec) (chatThreadId : String) (threads : List ChatThread)
    (statements : List Statement) :
    (∀ later, later <+: statements → Sequenced codec ((ChatDb.ofThreads threads).run later) chatThreadId) ↔
    ∀ done statement, done ++ [statement] <+: statements →
      Undisturbed chatThreadId ((ChatDb.ofThreads threads).run done) statement := by
  have hrun : ∀ done statement, (ChatDb.ofThreads threads).run (done ++ [statement]) =
      ((ChatDb.ofThreads threads).run done).step statement := fun done statement => List.foldl_concat ..
  refine Recorded.forall_prefix_iff_of_inv
    (P := fun done => Sequenced codec ((ChatDb.ofThreads threads).run done) chatThreadId)
    (I := fun done => Ordered ((ChatDb.ofThreads threads).run done) chatThreadId)
    (Q := fun done => Undisturbed chatThreadId ((ChatDb.ofThreads threads).run done))
    (ordered_ofThreads threads) (fun done h => h.sequenced) (fun done statement h hs => ?_)
    (fun done statement h hq => ?_) statements
  · exact undisturbed_of h (hrun done statement ▸ hs)
  · rw [hrun]
    exact ordered_step h hq

/-- two connections that select before either inserts -/
def crossingAppends : List Statement :=
  let request : AppendRequest := ⟨"c", "k", "chat_turn_started", .obj [], none⟩
  [.connect request, .connect request, .selectSeq 0, .selectSeq 1, .insertEvent 0 "a" 0,
    .insertEvent 1 "b" 0]

/-- both events of two crossing appends get the number one -/
theorem appends_not_sequenced : ¬ ∀ (codec : Codec) (chatThreadId : String) (threads : List ChatThread)
    (statements : List Statement),
    Sequenced codec ((ChatDb.ofThreads threads).run statements) chatThreadId := by
  intro h
  have hnumbers : (((ChatDb.ofThreads []).run crossingAppends).eventsOf "c").map (·.eventSeq) = [1, 1] := by
    decide
  have hnodup := (h ⟨.error, fun _ => ""⟩ "c" [] crossingAppends).numbers.nodup_iff.mpr List.nodup_range'
  rw [hnumbers] at hnodup
  exact absurd hnodup (by decide)

end Chat

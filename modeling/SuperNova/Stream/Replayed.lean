import SuperNova.Lib.Recorded
import SuperNova.Lib.Table
import SuperNova.Stream.Attempts

/-!
# Deltas while a job is bound to the sink

`bind_job` takes the pending deltas under the lock, releases it, and then projects them one after the other;
a delta that is delivered in between is projected at once.

* `SinkRun.step`: the locked part of `bind_job`, the replay of one pending delta, and the delivery of one;
* `SinkRun.Kept`: what the message of a model call shows, and what is left to project for it, is what was
  delivered for it;
* `rows_kept_iff` (**main**): it is kept all along a run exactly when all deltas land, and none that is delivered
  during a replay belongs behind the text that is left of its model call.
-/

set_option linter.unusedSectionVars false

namespace Stream

/-! ## the steps -/

/-- a sink and the projection shard of the job that is bound to it -/
structure SinkRun where
  sink : ProductTaskStreamSink
  /-- what `bind_job` has left to project, once it took the pending deltas -/
  replaying : Option (List ModelStreamDelta)
  /-- the messages by their ids -/
  shard : Table String StreamMessage

inductive SinkStep where
  /-- `bind_job` up to the release of the lock -/
  | take (jobId : String)
  /-- `bind_job` projects the next of the deltas that it took; `append_message` may fail -/
  | replay (fails : Bool)
  /-- `on_model_stream_delta` -/
  | deliver (delta : ModelStreamDelta) (fails : Bool)

namespace SinkRun

def new : SinkRun := ⟨.new, none, .empty⟩

/-- `INSERT OR REPLACE` of a message -/
def put (shard : Table String StreamMessage) (message : StreamMessage) : Table String StreamMessage :=
  shard.insert message.messageId message

/-- `project_delta`, which ignores the failure of an append -/
def project (run : SinkRun) (delta : ModelStreamDelta) (fails : Bool) : SinkRun :=
  let sink := run.sink.projectDelta delta
  let appended := sink.appended.drop run.sink.appended.length
  { run with
    sink
    shard := if fails then run.shard else appended.foldl put run.shard }

theorem nothing_pending (jobId : String) : (some jobId).isSome → ([] : List ModelStreamDelta) = [] := fun _ => rfl

def step (run : SinkRun) : SinkStep → SinkRun
  | .take jobId =>
    match run.replaying with
    -- a sink is bound once
    | some _ => run
    | none =>
      { run with
        sink := { run.sink with taskId := some jobId, pendingDeltas := [], drained := nothing_pending jobId }
        replaying := some run.sink.pendingDeltas }
  | .replay fails =>
    match run.replaying with
    | some (delta :: rest) => { run.project delta fails with replaying := some rest }
    | some [] | none => run
  | .deliver delta fails => run.project delta fails

def after (steps : List SinkStep) : SinkRun := steps.foldl step new

/-! ## what is shown, what is left, and what was delivered -/

/-- the text of the message of a model call -/
def shown (run : SinkRun) (id : String) : String :=
  ((((run.sink.messages id).bind fun message => run.shard.get? message.messageId).filter
    (·.sourceRef == id)).map (·.bodyText)).getD ""

/-- the deltas that are not projected yet -/
def waiting (run : SinkRun) : List ModelStreamDelta := run.replaying.getD [] ++ run.sink.pendingDeltas

def left (run : SinkRun) (id : String) : String :=
  reasoningText (ProductTaskStreamSink.ofCall id run.waiting)

end SinkRun

def SinkStep.delivered? : SinkStep → Option ModelStreamDelta
  | .deliver delta _ => some delta
  | .take _ | .replay _ => none

/-- the reasoning that was delivered for a model call -/
def delivered (steps : List SinkStep) (id : String) : String :=
  reasoningText (ProductTaskStreamSink.ofCall id (steps.filterMap SinkStep.delivered?))

namespace SinkRun

/-- the message of every model call shows what was delivered for it but for what is left to project -/
def Kept (run : SinkRun) (steps : List SinkStep) : Prop :=
  ∀ id, run.shown id ++ run.left id = delivered steps id

def streamMessageId (jobId id : String) : String :=
  "task_stream_" ++ safeMessageComponent jobId ++ "_" ++ safeMessageComponent id

/-- the append goes through, and no other model call has the message that it writes -/
def Lands (run : SinkRun) (jobId : String) (delta : ModelStreamDelta) (fails : Bool) : Prop :=
  fails = false ∧ ∀ id message, id ≠ delta.modelCallId → run.sink.messages id = some message →
    message.messageId ≠ streamMessageId jobId delta.modelCallId

/-- a delta that is projected lands, and one that is delivered during the replay could as well follow what is
left of its model call -/
def InOrder (run : SinkRun) : SinkStep → Prop
  | .take _ => True
  | .replay fails => ∀ jobId delta rest, run.sink.taskId = some jobId →
      run.replaying = some (delta :: rest) → run.Lands jobId delta fails
  | .deliver delta fails => ∀ jobId, concerns delta = true → run.sink.taskId = some jobId →
      run.Lands jobId delta fails ∧
        delta.delta ++ run.left delta.modelCallId = run.left delta.modelCallId ++ delta.delta

/-- what holds of a run in which all deltas landed -/
structure Tidy (run : SinkRun) : Prop where
  bound : run.sink.taskId.isSome = run.replaying.isSome
  concerned : ∀ delta ∈ run.waiting, concerns delta = true
  ids : ∀ jobId id message, run.sink.taskId = some jobId → run.sink.messages id = some message →
    message.messageId = streamMessageId jobId id
  unbound : run.sink.taskId = none → ∀ id, run.sink.messages id = none
  written : ∀ id message, run.sink.messages id = some message → message.bodyText ≠ "" ∧
    ∃ row, run.shard.get? message.messageId = some row ∧ row.sourceRef = id ∧
      row.bodyText = message.bodyText
  known : ∀ key row, run.shard.get? key = some row → (run.sink.messages row.sourceRef).isSome

theorem replays_sink (queue : List ModelStreamDelta) (run : SinkRun) (hr : run.replaying = some queue) :
    ((List.replicate queue.length (.replay false)).foldl step run).sink =
      queue.foldl ProductTaskStreamSink.projectDelta run.sink := by
  induction queue generalizing run with
  | nil => rfl
  | cons delta rest ih =>
    have hstep : run.step (.replay false) = { run.project delta false with replaying := some rest } := by
      unfold step
      rw [hr]
    rw [List.length_cons, List.replicate_succ, List.foldl_cons, List.foldl_cons, hstep]
    exact ih _ rfl

theorem take_replays_sink (run : SinkRun) (jobId : String) (hr : run.replaying = none) :
    ((List.replicate run.sink.pendingDeltas.length (.replay false)).foldl step (run.step (.take jobId))).sink =
      run.sink.bindJob jobId := by
  have hstep : (run.step (.take jobId)).replaying = some run.sink.pendingDeltas ∧
      (run.step (.take jobId)).sink =
        { run.sink with taskId := some jobId, pendingDeltas := [], drained := fun _ => rfl } := by
    unfold step
    rw [hr]
    exact ⟨rfl, rfl⟩
  rw [replays_sink _ _ hstep.1, hstep.2]
  rfl

/-! ## what a projected delta changes -/

variable {run : SinkRun} {jobId id : String} {delta : ModelStreamDelta} {fails : Bool}

/-- the message that a delta goes to, before it -/
def target (run : SinkRun) (jobId : String) (delta : ModelStreamDelta) : MessageState :=
  (run.sink.messages delta.modelCallId).getD ⟨streamMessageId jobId delta.modelCallId, ""⟩

theorem project_of_not_concerns (h : ¬ concerns delta = true) (fails : Bool) :
    run.project delta fails = run := by
  have hsink : run.sink.projectDelta delta = run.sink := if_neg h
  unfold project
  rw [hsink]
  show (⟨run.sink, run.replaying, if fails then run.shard else (run.sink.appended.drop _).foldl put run.shard⟩ :
    SinkRun) = run
  rw [List.drop_length]
  cases fails <;> rfl

theorem projectDelta_bound (hc : concerns delta = true) (hjob : run.sink.taskId = some jobId) :
    run.sink.projectDelta delta = run.sink.appendDelta jobId delta := by
  unfold ProductTaskStreamSink.projectDelta
  rw [if_pos hc]
  split
  · rename_i taskId htask
    rw [Option.some.inj (hjob.symm.trans htask)]
  · rename_i htask
    exact absurd (hjob.symm.trans htask) nofun

theorem project_sink (hc : concerns delta = true) (hjob : run.sink.taskId = some jobId) :
    (run.project delta fails).sink = run.sink.appendDelta jobId delta :=
  projectDelta_bound hc hjob

theorem project_messages (hc : concerns delta = true) (hjob : run.sink.taskId = some jobId) :
    (run.project delta fails).sink.messages id = if id = delta.modelCallId then
      some ⟨(run.target jobId delta).messageId, (run.target jobId delta).bodyText ++ delta.delta⟩
    else run.sink.messages id := by
  rw [project_sink hc hjob]
  rfl

theorem project_shard (fails : Bool) (hc : concerns delta = true) (hjob : run.sink.taskId = some jobId) :
    ∃ row : StreamMessage, row.messageId = (run.target jobId delta).messageId ∧
      row.sourceRef = delta.modelCallId ∧
      row.bodyText = (run.target jobId delta).bodyText ++ delta.delta ∧
      (run.project delta fails).shard =
        if fails then run.shard else run.shard.insert (run.target jobId delta).messageId row := by
  refine ⟨⟨(run.target jobId delta).messageId, (run.target jobId delta).bodyText ++ delta.delta,
    "streaming", "Task reasoning streaming", jobId, "model_stream", delta.modelCallId, delta.sequence,
    delta.operation⟩, rfl, rfl, rfl, ?_⟩
  unfold project
  rw [projectDelta_bound hc hjob]
  show (if fails then run.shard else ((run.sink.appended ++ [_]).drop _).foldl put run.shard) = _
  rw [List.drop_left]
  rfl

theorem project_waiting (hc : concerns delta = true) (hjob : run.sink.taskId = some jobId) :
    (run.project delta fails).waiting = run.waiting := by
  show run.replaying.getD [] ++ (run.project delta fails).sink.pendingDeltas = _
  rw [project_sink hc hjob]
  rfl

theorem project_unbound (fails : Bool) (hc : concerns delta = true) (hjob : run.sink.taskId = none) :
    (run.project delta fails).sink.messages = run.sink.messages ∧
      (run.project delta fails).shard = run.shard ∧ (run.project delta fails).sink.taskId = none ∧
      (run.project delta fails).waiting = run.waiting ++ [delta] := by
  have hmessages : (run.sink.projectDelta delta).messages = run.sink.messages ∧
      (run.sink.projectDelta delta).taskId = run.sink.taskId ∧
      (run.sink.projectDelta delta).appended = run.sink.appended ∧
      (run.sink.projectDelta delta).pendingDeltas = run.sink.pendingDeltas ++ [delta] := by
    unfold ProductTaskStreamSink.projectDelta
    rw [if_pos hc]
    split
    · rename_i htask
      exact absurd (hjob.symm.trans htask) nofun
    · exact ⟨rfl, rfl, rfl, rfl⟩
  obtain ⟨hmessages, htask, happended, hpending⟩ := hmessages
  refine ⟨hmessages, ?_, htask.trans hjob, ?_⟩
  · show (if fails then run.shard else ((run.sink.projectDelta delta).appended.drop _).foldl put run.shard) = _
    rw [happended, List.drop_length]
    cases fails <;> rfl
  · show run.replaying.getD [] ++ (run.sink.projectDelta delta).pendingDeltas = _
    rw [hpending, ← List.append_assoc]
    rfl

theorem Tidy.shown_of_message (h : run.Tidy) {message : MessageState}
    (hm : run.sink.messages id = some message) : run.shown id = message.bodyText := by
  obtain ⟨-, row, hrow, href, hbody⟩ := h.written id message hm
  unfold shown
  rw [hm, Option.bind_some, hrow, Option.filter_some, if_pos (beq_iff_eq.mpr href), ← hbody]
  rfl

theorem shown_of_none (hm : run.sink.messages id = none) : run.shown id = "" := by
  unfold shown
  rw [hm]
  rfl

theorem Tidy.target_messageId (h : run.Tidy) (hjob : run.sink.taskId = some jobId) :
    (run.target jobId delta).messageId = streamMessageId jobId delta.modelCallId := by
  unfold target
  cases hm : run.sink.messages delta.modelCallId with
  | none => rfl
  | some message => exact h.ids jobId _ message hjob hm

theorem Tidy.target_bodyText (h : run.Tidy) :
    (run.target jobId delta).bodyText = run.shown delta.modelCallId := by
  unfold target
  cases hm : run.sink.messages delta.modelCallId with
  | none => rw [shown_of_none hm, Option.getD_none]
  | some message => rw [h.shown_of_message hm, Option.getD_some]

theorem Tidy.shown_project (h : run.Tidy) (hc : concerns delta = true)
    (hjob : run.sink.taskId = some jobId) :
    (run.project delta false).shown delta.modelCallId =
      run.shown delta.modelCallId ++ delta.delta := by
  obtain ⟨row, -, href, hbody, hshard⟩ := project_shard false hc hjob
  unfold shown
  rw [project_messages hc hjob, if_pos rfl, Option.bind_some, hshard]
  show (((run.shard.insert _ row).get? _).filter _ |>.map _).getD "" = _
  rw [Table.get?_insert, if_pos rfl, Option.filter_some, if_pos (beq_iff_eq.mpr href)]
  show row.bodyText = _
  rw [hbody, h.target_bodyText]
  rfl

theorem Tidy.shown_project_failed (h : run.Tidy) (hc : concerns delta = true)
    (hjob : run.sink.taskId = some jobId) :
    (run.project delta true).shown id = run.shown id := by
  obtain ⟨row, -, -, -, hshard⟩ := project_shard true hc hjob
  by_cases hid : id = delta.modelCallId
  · subst hid
    unfold shown
    rw [project_messages hc hjob, if_pos rfl, Option.bind_some, hshard]
    show ((run.shard.get? (run.target jobId delta).messageId).filter _ |>.map _).getD "" = _
    unfold target
    cases hm : run.sink.messages delta.modelCallId with
    | some message => rfl
    | none =>
      rw [Option.bind_none]
      show _ = ""
      cases hrow : run.shard.get? (streamMessageId jobId delta.modelCallId) with
      | none =>
        rw [Option.getD_none, hrow]
        rfl
      | some old =>
        have hknown := h.known _ old hrow
        have hne : old.sourceRef ≠ delta.modelCallId := by
          intro href
          rw [href, hm] at hknown
          exact absurd hknown nofun
        rw [Option.getD_none, hrow, Option.filter_some, if_neg (fun he => hne (beq_iff_eq.mp he))]
        rfl
  · unfold shown
    rw [project_messages hc hjob, if_neg hid, hshard]
    rfl

theorem Tidy.shown_project_other (h : run.Tidy) (hc : concerns delta = true)
    (hjob : run.sink.taskId = some jobId) (hid : id ≠ delta.modelCallId) :
    (run.project delta false).shown id = run.shown id ↔
      ∀ message, run.sink.messages id = some message →
        message.messageId ≠ streamMessageId jobId delta.modelCallId := by
  obtain ⟨row, -, href, -, hshard⟩ := project_shard false hc hjob
  have hmessages : (run.project delta false).sink.messages id = run.sink.messages id := by
    rw [project_messages hc hjob, if_neg hid]
  cases hm : run.sink.messages id with
  | none =>
    rw [shown_of_none hm, shown_of_none (hmessages.trans hm)]
    exact ⟨fun _ => nofun, fun _ => rfl⟩
  | some message =>
    have hshown : (run.project delta false).shown id =
        if message.messageId = streamMessageId jobId delta.modelCallId then "" else run.shown id := by
      unfold shown
      rw [hmessages, hm, Option.bind_some, Option.bind_some, hshard]
      show (((run.shard.insert _ row).get? _).filter _ |>.map _).getD "" = _
      rw [Table.get?_insert, h.target_messageId hjob]
      by_cases hsame : message.messageId = streamMessageId jobId delta.modelCallId
      · have hother : ¬ (row.sourceRef == id) = true := by
          rw [href, beq_iff_eq]
          exact Ne.symm hid
        rw [if_pos hsame, if_pos hsame, Option.filter_some, if_neg hother]
        rfl
      · rw [if_neg hsame, if_neg hsame]
    rw [hshown]
    have hne : run.shown id ≠ "" := by
      rw [h.shown_of_message hm]
      exact (h.written id message hm).1
    constructor
    · intro heq other hother hsame
      rw [Option.some.inj hother, if_pos hsame] at heq
      exact hne heq.symm
    · intro hother
      rw [if_neg (hother message rfl)]

/-! ## steps -/

theorem reasoningText_ofCall_concat (l : List ModelStreamDelta) (hc : concerns delta = true) :
    reasoningText (ProductTaskStreamSink.ofCall id (l ++ [delta])) =
      reasoningText (ProductTaskStreamSink.ofCall id l) ++
        (if id = delta.modelCallId then delta.delta else "") := by
  rw [ProductTaskStreamSink.ofCall, List.filter_append, reasoningText_append]
  refine congrArg (_ ++ ·) ((ProductTaskStreamSink.reasoningText_ofCall_single delta id).trans ?_)
  by_cases hid : id = delta.modelCallId
  · rw [if_pos ⟨hc, hid.symm⟩, if_pos hid]
  · rw [if_neg (fun h => hid h.2.symm), if_neg hid]

theorem reasoningText_ofCall_cons (l : List ModelStreamDelta) (hc : concerns delta = true) :
    reasoningText (ProductTaskStreamSink.ofCall id (delta :: l)) =
      (if id = delta.modelCallId then delta.delta else "") ++
        reasoningText (ProductTaskStreamSink.ofCall id l) := by
  have h := @reasoningText_ofCall_concat id delta [] hc
  rw [← List.singleton_append, ProductTaskStreamSink.ofCall, List.filter_append, reasoningText_append]
  refine congrArg (· ++ _) (h.trans ?_)
  exact String.empty_append

theorem delta_ne (hc : concerns delta = true) : delta.delta ≠ "" := by
  unfold concerns at hc
  cases hk : delta.kind with
  | answer =>
    rw [hk] at hc
    exact absurd hc nofun
  | reasoning =>
    rw [hk] at hc
    exact bne_iff_ne.mp hc

/-- **a delta lands** exactly when it is shown at the end of its text, and the other texts stay -/
theorem Tidy.lands_iff (h : run.Tidy) (hc : concerns delta = true)
    (hjob : run.sink.taskId = some jobId) : run.Lands jobId delta fails ↔
      ∀ id, (run.project delta fails).shown id =
        run.shown id ++ (if id = delta.modelCallId then delta.delta else "") := by
  cases fails with
  | true =>
    refine ⟨fun hl => absurd hl.1 nofun, fun hshown => ?_⟩
    have hself := hshown delta.modelCallId
    rw [h.shown_project_failed hc hjob, if_pos rfl] at hself
    exact absurd (String.append_eq_left_iff.mp hself.symm) (delta_ne hc)
  | false =>
    constructor
    · intro hl id
      by_cases hid : id = delta.modelCallId
      · rw [hid, if_pos rfl, h.shown_project hc hjob]
      · rw [if_neg hid, String.append_empty]
        exact (h.shown_project_other hc hjob hid).mpr fun message => hl.2 id message hid
    · intro hshown
      refine ⟨rfl, fun id message hid => ?_⟩
      have hother := hshown id
      rw [if_neg hid, String.append_empty] at hother
      exact (h.shown_project_other hc hjob hid).mp hother message

theorem Tidy.project (h : run.Tidy) (hc : concerns delta = true) (hjob : run.sink.taskId = some jobId)
    (hl : run.Lands jobId delta fails) : (run.project delta fails).Tidy := by
  have hfails : fails = false := hl.1
  subst hfails
  obtain ⟨row, -, href, hbody, hshard⟩ := project_shard false hc hjob
  rw [if_neg nofun, h.target_messageId hjob] at hshard
  have htask : (run.project delta false).sink.taskId = some jobId := by
    rw [project_sink hc hjob]
    exact hjob
  refine ⟨?_, ?_, ?_, ?_, ?_, ?_⟩
  · rw [htask]
    exact (congrArg Option.isSome hjob).symm.trans h.bound
  · rw [project_waiting hc hjob]
    exact h.concerned
  · intro jobId' id message hjob' hm
    obtain rfl : jobId = jobId' := Option.some.inj (htask.symm.trans hjob')
    rw [project_messages hc hjob] at hm
    by_cases hid : id = delta.modelCallId
    · rw [if_pos hid] at hm
      rw [← Option.some.inj hm, hid]
      exact h.target_messageId hjob
    · rw [if_neg hid] at hm
      exact h.ids jobId id message hjob hm
  · intro hnone
    exact absurd (htask.symm.trans hnone) nofun
  · intro id message hm
    rw [project_messages hc hjob] at hm
    rw [hshard]
    by_cases hid : id = delta.modelCallId
    · rw [if_pos hid] at hm
      rw [← Option.some.inj hm]
      refine ⟨fun hempty => delta_ne hc (append_eq_empty.mp hempty).2, row, ?_, href.trans hid.symm, hbody⟩
      show (run.shard.insert _ row).get? (run.target jobId delta).messageId = some row
      rw [h.target_messageId hjob, Table.get?_insert, if_pos rfl]
    · rw [if_neg hid] at hm
      obtain ⟨hne, old, hold, hrest⟩ := h.written id message hm
      refine ⟨hne, old, ?_, hrest⟩
      rw [Table.get?_insert, if_neg (hl.2 id message hid hm)]
      exact hold
  · intro key old hold
    rw [project_messages hc hjob]
    rw [hshard, Table.get?_insert] at hold
    by_cases hid : old.sourceRef = delta.modelCallId
    · rw [if_pos hid]
      rfl
    · rw [if_neg hid]
      by_cases hkey : key = streamMessageId jobId delta.modelCallId
      · rw [if_pos hkey] at hold
        exact absurd ((congrArg StreamMessage.sourceRef (Option.some.inj hold)).symm.trans href) hid
      · rw [if_neg hkey] at hold
        exact h.known key old hold

theorem Tidy.project_pending (h : run.Tidy) (hc : concerns delta = true)
    (hjob : run.sink.taskId = none) : (run.project delta fails).Tidy := by
  obtain ⟨hmessages, hshard, htask, hwaiting⟩ := project_unbound fails hc hjob
  refine ⟨?_, ?_, ?_, ?_, ?_, ?_⟩
  · rw [htask]
    exact (congrArg Option.isSome hjob).symm.trans h.bound
  · rw [hwaiting]
    intro other hother
    rcases List.mem_append.mp hother with hother | hother
    · exact h.concerned other hother
    · exact List.mem_singleton.mp hother ▸ hc
  · intro jobId id message hjob'
    exact absurd (htask.symm.trans hjob') nofun
  · intro _ id
    rw [hmessages]
    exact h.unbound hjob id
  · rw [hmessages, hshard]
    exact h.written
  · rw [hmessages, hshard]
    exact h.known

variable {steps : List SinkStep}

theorem delivered_concat_none {step : SinkStep} (h : step.delivered? = none) :
    delivered (steps ++ [step]) id = delivered steps id := by
  unfold delivered
  rw [List.filterMap_append, List.filterMap_cons_none h, List.filterMap_nil, List.append_nil]

theorem delivered_concat (hc : concerns delta = true) :
    delivered (steps ++ [.deliver delta fails]) id =
      delivered steps id ++ (if id = delta.modelCallId then delta.delta else "") := by
  unfold delivered
  rw [List.filterMap_append]
  exact reasoningText_ofCall_concat _ hc

theorem delivered_concat_other (hc : ¬ concerns delta = true) :
    delivered (steps ++ [.deliver delta fails]) id = delivered steps id := by
  unfold delivered
  rw [List.filterMap_append, ProductTaskStreamSink.ofCall, List.filter_append, reasoningText_append]
  refine (congrArg (_ ++ ·) ((ProductTaskStreamSink.reasoningText_ofCall_single delta id).trans ?_)).trans
    String.append_empty
  rw [if_neg fun h => hc h.1]

theorem step_take (h : run.Tidy) (hkept : run.Kept steps) :
    (run.step (.take jobId)).Tidy ∧ (run.step (.take jobId)).Kept (steps ++ [.take jobId]) := by
  unfold step
  cases hr : run.replaying with
  | some left => exact ⟨h, fun id => (hkept id).trans (delivered_concat_none rfl).symm⟩
  | none =>
    have hnone : run.sink.taskId = none := by
      rw [← Option.not_isSome_iff_eq_none, h.bound, hr]
      exact nofun
    have hwaiting : run.waiting = run.sink.pendingDeltas := by
      unfold waiting
      rw [hr]
      rfl
    refine ⟨⟨rfl, ?_, ?_, nofun, h.written, h.known⟩, fun id => ?_⟩
    · show ∀ delta ∈ run.sink.pendingDeltas ++ [], _
      rw [List.append_nil, ← hwaiting]
      exact h.concerned
    · intro jobId' id message _ hm
      exact absurd ((h.unbound hnone id).symm.trans hm) nofun
    · rw [delivered_concat_none rfl, ← hkept id]
      show run.shown id ++ reasoningText (ProductTaskStreamSink.ofCall id (run.sink.pendingDeltas ++ [])) = _
      rw [List.append_nil, ← hwaiting]
      rfl

theorem step_replay (h : run.Tidy) (hkept : run.Kept steps) :
    ((run.step (.replay fails)).Kept (steps ++ [.replay fails]) → run.InOrder (.replay fails)) ∧
      (run.InOrder (.replay fails) → (run.step (.replay fails)).Tidy ∧
        (run.step (.replay fails)).Kept (steps ++ [.replay fails])) := by
  have hsame (hrun : run.step (.replay fails) = run) :
      (run.step (.replay fails)).Tidy ∧ (run.step (.replay fails)).Kept (steps ++ [.replay fails]) := by
    rw [hrun]
    exact ⟨h, fun id => (hkept id).trans (delivered_concat_none rfl).symm⟩
  cases hr : run.replaying with
  | none =>
    refine ⟨fun _ jobId delta rest _ hrest => absurd (hr.symm.trans hrest) nofun, fun _ => hsame ?_⟩
    unfold step
    rw [hr]
  | some queue =>
    cases queue with
    | nil =>
      refine ⟨fun _ jobId delta rest _ hrest => absurd (hr.symm.trans hrest) nofun, fun _ => hsame ?_⟩
      unfold step
      rw [hr]
    | cons delta rest =>
      obtain ⟨jobId, hjob⟩ : ∃ jobId, run.sink.taskId = some jobId := by
        rw [← Option.isSome_iff_exists, h.bound, hr]
        rfl
      have hwaiting : run.waiting = delta :: (rest ++ run.sink.pendingDeltas) := by
        unfold waiting
        rw [hr]
        rfl
      have hc : concerns delta = true := h.concerned delta (hwaiting ▸ List.mem_cons_self)
      have hstep : run.step (.replay fails) = { run.project delta fails with replaying := some rest } := by
        unfold step
        rw [hr]
      have hpending : (run.project delta fails).sink.pendingDeltas = run.sink.pendingDeltas := by
        rw [project_sink hc hjob]
        rfl
      have hleft (id : String) : run.left id = (if id = delta.modelCallId then delta.delta else "") ++
          (run.step (.replay fails)).left id := by
        unfold left
        rw [hstep, hwaiting, reasoningText_ofCall_cons _ hc]
        show _ = _ ++ reasoningText (ProductTaskStreamSink.ofCall id
          (rest ++ (run.project delta fails).sink.pendingDeltas))
        rw [hpending]
      have hiff : (run.step (.replay fails)).Kept (steps ++ [.replay fails]) ↔
          run.Lands jobId delta fails := by
        rw [h.lands_iff hc hjob]
        refine forall_congr' fun id => ?_
        rw [delivered_concat_none rfl, ← hkept id, hleft id, ← String.append_assoc, String.append_left_inj,
          hstep]
        rfl
      constructor
      · intro hafter jobId' delta' rest' hjob' hrest
        obtain rfl : jobId = jobId' := Option.some.inj (hjob.symm.trans hjob')
        obtain ⟨rfl, -⟩ := List.cons_eq_cons.mp (Option.some.inj (hr.symm.trans hrest))
        exact hiff.mp hafter
      · intro horder
        have hl : run.Lands jobId delta fails := horder jobId delta rest hjob hr
        refine ⟨?_, hiff.mpr hl⟩
        have htidy : (run.project delta fails).Tidy := h.project hc hjob hl
        rw [hstep]
        refine ⟨?_, ?_, htidy.ids, htidy.unbound, htidy.written, htidy.known⟩
        · show (run.project delta fails).sink.taskId.isSome = true
          rw [project_sink hc hjob]
          exact congrArg Option.isSome hjob
        · intro other hother
          have hother : other ∈ rest ++ run.sink.pendingDeltas := hpending ▸ hother
          exact h.concerned other (hwaiting ▸ List.mem_cons_of_mem _ hother)

theorem step_deliver (h : run.Tidy) (hkept : run.Kept steps) :
    ((run.step (.deliver delta fails)).Kept (steps ++ [.deliver delta fails]) →
        run.InOrder (.deliver delta fails)) ∧
      (run.InOrder (.deliver delta fails) → (run.step (.deliver delta fails)).Tidy ∧
        (run.step (.deliver delta fails)).Kept (steps ++ [.deliver delta fails])) := by
  by_cases hc : concerns delta = true
  swap
  · refine ⟨fun _ jobId hc' => absurd hc' hc, fun _ => ?_⟩
    rw [show run.step (.deliver delta fails) = run from project_of_not_concerns hc fails]
    exact ⟨h, fun id => (hkept id).trans (delivered_concat_other hc).symm⟩
  cases hjob : run.sink.taskId with
  | none =>
    refine ⟨fun _ jobId _ hjob' => absurd (hjob.symm.trans hjob') nofun, fun _ => ?_⟩
    refine ⟨h.project_pending hc hjob, fun id => ?_⟩
    obtain ⟨hmessages, hshard, -, hwaiting⟩ := project_unbound fails hc hjob
    have hshown : (run.project delta fails).shown id = run.shown id := by
      unfold shown
      rw [hmessages, hshard]
    have hleft : (run.project delta fails).left id =
        run.left id ++ (if id = delta.modelCallId then delta.delta else "") := by
      unfold left
      rw [hwaiting, reasoningText_ofCall_concat _ hc]
    show (run.project delta fails).shown id ++ (run.project delta fails).left id = _
    rw [hshown, hleft, delivered_concat hc, ← hkept id, String.append_assoc]
  | some jobId =>
    have hleft (id : String) : (run.project delta fails).left id = run.left id := by
      unfold left
      rw [project_waiting hc hjob]
    have hiff : (run.step (.deliver delta fails)).Kept (steps ++ [.deliver delta fails]) ↔
        ∀ id, (run.project delta fails).shown id ++ run.left id =
          run.shown id ++ run.left id ++ (if id = delta.modelCallId then delta.delta else "") := by
      refine forall_congr' fun id => ?_
      rw [delivered_concat hc, ← hkept id, ← hleft id]
      rfl
    constructor
    · intro hafter jobId' _ hjob'
      obtain rfl : jobId = jobId' := Option.some.inj (hjob.symm.trans hjob')
      have hafter := hiff.mp hafter
      have hfails : fails = false := by
        rw [← Bool.not_eq_true]
        rintro rfl
        have hself := hafter delta.modelCallId
        rw [h.shown_project_failed hc hjob, if_pos rfl] at hself
        exact delta_ne hc (String.append_eq_left_iff.mp hself.symm)
      subst hfails
      have hl : run.Lands jobId delta false := by
        refine ⟨rfl, fun id message hid => ?_⟩
        have hother := hafter id
        rw [if_neg hid, String.append_empty, String.append_left_inj] at hother
        exact (h.shown_project_other hc hjob hid).mp hother message
      refine ⟨hl, ?_⟩
      have hself := hafter delta.modelCallId
      rw [h.shown_project hc hjob, if_pos rfl, String.append_assoc, String.append_assoc] at hself
      exact (String.append_right_inj _).mp hself
    · intro horder
      obtain ⟨hl, hcommute⟩ := horder jobId hc hjob
      refine ⟨h.project hc hjob hl, hiff.mpr fun id => ?_⟩
      rw [(h.lands_iff hc hjob).mp hl id, String.append_assoc, String.append_assoc]
      by_cases hid : id = delta.modelCallId
      · rw [if_pos hid, hid, hcommute]
      · rw [if_neg hid, String.append_empty, String.empty_append]

theorem new_tidy : new.Tidy :=
  ⟨rfl, nofun, nofun, fun _ _ => rfl, nofun, nofun⟩

/-- **the text of a streamed message** is what was delivered but for what is left to project, all along a
run, exactly when every delta lands and none overtakes a text that it does not commute with -/
theorem rows_kept_iff (steps : List SinkStep) :
    (∀ old, old <+: steps → (after old).Kept old) ↔
      ∀ old step, old ++ [step] <+: steps → (after old).InOrder step := by
  have hafter (old : List SinkStep) (step : SinkStep) : after (old ++ [step]) = (after old).step step :=
    List.foldl_concat _ _ _ _
  refine Recorded.forall_prefix_iff_of_inv (I := fun old => (after old).Tidy ∧ (after old).Kept old)
    ⟨new_tidy, fun id => rfl⟩ (fun old h => h.2) ?_ ?_ steps
  · rintro old step ⟨htidy, hkept⟩ hnext
    rw [hafter] at hnext
    cases step with
    | take jobId => trivial
    | replay fails => exact (step_replay htidy hkept).1 hnext
    | deliver delta fails => exact (step_deliver htidy hkept).1 hnext
  · rintro old step ⟨htidy, hkept⟩ horder
    rw [hafter]
    cases step with
    | take jobId => exact step_take htidy hkept
    | replay fails => exact (step_replay htidy hkept).2 horder
    | deliver delta fails => exact (step_deliver htidy hkept).2 horder

/-- the second delta is delivered while the first is left to replay -/
theorem delta_overtakes : ∃ steps, (after steps).replaying = some [] ∧
    (after steps).shown "call" = " secondfirst" ∧ delivered steps "call" = "first second" :=
  ⟨[.deliver ⟨"call", "model.decide_next_action", .reasoning, 1, "first"⟩ false, .take "job",
    .deliver ⟨"call", "model.decide_next_action", .reasoning, 2, " second"⟩ false, .replay false],
    rfl, by decide, by decide⟩

end SinkRun

end Stream

import SuperNova.Stream.Reader

/-!
# Attempts of a model call and the message they stream into

`invokeAttempts` is the retry loop of `ModelRuntime::invoke`: every attempt reads a stream of its own,
and all of them publish under the one `model_call_id`.  `ProductTaskStreamSink` appends each reasoning
delta to the body of the message of that id.

* `body_of_reasoning_iff` (**main**): the body ends as the reasoning of the successful attempt exactly
  when no earlier attempt streamed any reasoning;
* `discarded_reasoning_kept`: two attempts, the first cut off after a reasoning delta.
-/

set_option linter.unusedSectionVars false

namespace Stream

open Io Text Provider

/-! ## attempts -/

structure RetryPolicy where
  maxAttempts : Nat

/-- `RetryPolicy::from_budget` -/
def RetryPolicy.fromBudget (maxRetries : Nat) : RetryPolicy := ⟨max (saturatingSucc maxRetries) 1⟩

def RetryPolicy.shouldRetry (policy : RetryPolicy) (attempt : Nat) (failure : Failure) : Bool :=
  failure.retryable && decide (attempt < policy.maxAttempts)

/-- one attempt: the permit or the request fails, or there is a stream to read -/
inductive Attempt where
  | refused (failure : Failure)
  | streamed (arrivals : Arrivals)

variable (codec : Codec) (config : DeepSeekStreamConfig) (request : Request)

/-- what the provider returns, and the deltas it published -/
def Attempt.run : Attempt → Except Failure ModelProviderResponse × List ModelStreamDelta
  | .refused failure => (.error failure, [])
  | .streamed arrivals =>
    match readDeepseekStreamingResponse codec arrivals request config .start with
    | .ok response acc => (.ok response, acc.sent)
    | .error failure acc => (.error failure, acc.sent)

/-- how a call ended: the attempts made, all deltas published, the last result -/
structure CallEnd where
  attempts : Nat
  sent : List ModelStreamDelta
  result : Except Failure ModelProviderResponse

def noDetail : Failure := ⟨"MODEL_PROVIDER_FAILED", "model provider failed without detail", false⟩

/-- the retry loop, with the attempts that are left -/
def attemptLoop (policy : RetryPolicy) (attempt : Nat → Attempt) :
    Nat → Nat → Option Failure → List ModelStreamDelta → CallEnd
  | 0, attempts, lastError, sent => ⟨attempts, sent, .error (lastError.getD noDetail)⟩
  | left + 1, attempts, _, sent =>
    match (attempt (attempts + 1)).run codec config request with
    | (.ok response, deltas) => ⟨attempts + 1, sent ++ deltas, .ok response⟩
    | (.error failure, deltas) =>
      if policy.shouldRetry (attempts + 1) failure then
        attemptLoop policy attempt left (attempts + 1) (some failure) (sent ++ deltas)
      else ⟨attempts + 1, sent ++ deltas, .error failure⟩

/-- `ModelRuntime::invoke` from the first attempt to the last -/
def invokeAttempts (policy : RetryPolicy) (attempt : Nat → Attempt) : CallEnd :=
  attemptLoop codec config request policy attempt policy.maxAttempts 0 none []

/-! ## the sink -/

/-- what `project_delta` puts into a message -/
structure StreamMessage where
  messageId : String
  bodyText : String
  status : String
  title : String
  taskId : String
  sourceKind : String
  sourceRef : String
  sourceSeq : Nat
  operation : String

/-- `ProductTaskStreamMessageState` -/
structure MessageState where
  messageId : String
  bodyText : String

/-- `ProductTaskStreamSink`; `appended` are the messages that went to the projection shard, and once a
job is bound no delta is pending -/
structure ProductTaskStreamSink where
  taskId : Option String
  messages : String → Option MessageState
  pendingDeltas : List ModelStreamDelta
  appended : List StreamMessage
  drained : taskId.isSome → pendingDeltas = []

/-- a delta that the sink looks at -/
def concerns (delta : ModelStreamDelta) : Bool :=
  match delta.kind with
  | .reasoning => delta.delta != ""
  | .answer => false

def safeMessageComponent (value : String) : String :=
  mapChars (fun ch => if ch.isAlphanum || ch == '_' || ch == '-' then ch else '_') value

namespace ProductTaskStreamSink

def new : ProductTaskStreamSink := ⟨none, fun _ => none, [], [], fun _ => rfl⟩

/-- a reasoning delta once a job is bound -/
def appendDelta (sink : ProductTaskStreamSink) (taskId : String) (delta : ModelStreamDelta) :
    ProductTaskStreamSink :=
  let message := (sink.messages delta.modelCallId).getD
    ⟨"task_stream_" ++ safeMessageComponent taskId ++ "_" ++
      safeMessageComponent delta.modelCallId, ""⟩
  let message := { message with bodyText := message.bodyText ++ delta.delta }
  { sink with
    messages := fun id => if id = delta.modelCallId then some message else sink.messages id
    appended := sink.appended ++
      [{ messageId := message.messageId, bodyText := message.bodyText, status := "streaming"
         title := "Task reasoning streaming", taskId, sourceKind := "model_stream"
         sourceRef := delta.modelCallId, sourceSeq := delta.sequence
         operation := delta.operation }] }

def projectDelta (sink : ProductTaskStreamSink) (delta : ModelStreamDelta) :
    ProductTaskStreamSink :=
  if concerns delta then
    match h : sink.taskId with
    | some taskId => sink.appendDelta taskId delta
    | none => { sink with
        pendingDeltas := sink.pendingDeltas ++ [delta]
        drained := fun h' => nomatch h ▸ h' }
  else sink

/-- `bind_job`: the pending deltas are projected once the job is known -/
def bindJob (sink : ProductTaskStreamSink) (jobId : String) : ProductTaskStreamSink :=
  sink.pendingDeltas.foldl projectDelta
    { sink with taskId := some jobId, pendingDeltas := [], drained := fun _ => rfl }

/-- the body of the message of a model call -/
def body (sink : ProductTaskStreamSink) (modelCallId : String) : String :=
  ((sink.messages modelCallId).map (·.bodyText)).getD ""

end ProductTaskStreamSink

inductive SinkCall where
  | publish (delta : ModelStreamDelta)
  | bindJob (jobId : String)

def ProductTaskStreamSink.handle (sink : ProductTaskStreamSink) : SinkCall → ProductTaskStreamSink
  | .publish delta => sink.projectDelta delta
  | .bindJob jobId => sink.bindJob jobId

def SinkCall.delta? : SinkCall → Option ModelStreamDelta
  | .publish delta => some delta
  | .bindJob _ => none

/-! ## the text of reasoning deltas -/

/-- what the sink makes of deltas -/
def reasoningText : List ModelStreamDelta → String
  | [] => ""
  | delta :: l => (if concerns delta then delta.delta else "") ++ reasoningText l

theorem reasoningText_append (l l' : List ModelStreamDelta) :
    reasoningText (l ++ l') = reasoningText l ++ reasoningText l' := by
  induction l with
  | nil => simp [reasoningText]
  | cons delta l ih => rw [List.cons_append, reasoningText, reasoningText, ih, String.append_assoc]

theorem append_eq_empty {s t : String} : s ++ t = "" ↔ s = "" ∧ t = "" := by
  rw [← String.toList_inj, ← String.toList_inj, ← String.toList_inj, String.toList_append]
  exact List.append_eq_nil_iff

theorem append_eq_right {s t : String} : s ++ t = t ↔ s = "" := by
  rw [← String.toList_inj, ← String.toList_inj, String.toList_append]
  exact List.append_left_eq_self

theorem reasoningText_eq_empty (l : List ModelStreamDelta) :
    reasoningText l = "" ↔ l.any concerns = false := by
  induction l with
  | nil => simp [reasoningText]
  | cons delta l ih =>
    rw [reasoningText, append_eq_empty, ih, List.any_cons, Bool.or_eq_false_iff]
    refine and_congr_left fun _ => ?_
    by_cases h : concerns delta
    · rw [if_pos h, h]
      cases hk : delta.kind <;> simp_all [concerns]
    · rw [if_neg h]
      simpa using h

/-! ## what the sink makes of its calls -/

namespace ProductTaskStreamSink

variable {sink : ProductTaskStreamSink} {id : String}

def ofCall (id : String) (l : List ModelStreamDelta) : List ModelStreamDelta :=
  l.filter fun delta => delta.modelCallId == id

/-- the body with what is pending for it -/
def text (sink : ProductTaskStreamSink) (id : String) : String :=
  sink.body id ++ reasoningText (ofCall id sink.pendingDeltas)

theorem text_of_bound (h : sink.taskId.isSome) (id : String) : sink.text id = sink.body id := by
  rw [text, sink.drained h]
  exact String.append_empty

theorem appendDelta_body (taskId : String) (delta : ModelStreamDelta) (id : String) :
    (sink.appendDelta taskId delta).body id =
      sink.body id ++ (if delta.modelCallId = id then delta.delta else "") := by
  unfold body appendDelta
  dsimp only
  by_cases h : id = delta.modelCallId
  · subst h
    rw [if_pos rfl, if_pos rfl]
    cases sink.messages delta.modelCallId <;> rfl
  · rw [if_neg h, if_neg (Ne.symm h), String.append_empty]

theorem reasoningText_ofCall_single (delta : ModelStreamDelta) (id : String) :
    reasoningText (ofCall id [delta]) =
      if concerns delta ∧ delta.modelCallId = id then delta.delta else "" := by
  by_cases h : delta.modelCallId = id
  · by_cases hc : concerns delta <;> simp [ofCall, h, reasoningText, hc]
  · simp [ofCall, h, reasoningText]

/-- **one delta** goes to the end of the text of its call -/
theorem projectDelta_text (delta : ModelStreamDelta) (id : String) :
    (sink.projectDelta delta).text id = sink.text id ++ reasoningText (ofCall id [delta]) := by
  rw [reasoningText_ofCall_single]
  unfold projectDelta
  by_cases hc : concerns delta
  · rw [if_pos hc]
    split
    · rename_i taskId htask
      have hbound : sink.taskId.isSome := by rw [htask]; rfl
      have hbound' : (sink.appendDelta taskId delta).taskId.isSome := hbound
      rw [text_of_bound hbound', appendDelta_body, text_of_bound hbound]
      simp [hc]
    · show sink.body id ++ reasoningText (ofCall id (sink.pendingDeltas ++ [delta])) = _
      rw [ofCall, List.filter_append, reasoningText_append, ← String.append_assoc]
      exact congrArg (sink.text id ++ ·) (reasoningText_ofCall_single delta id)
  · rw [if_neg hc, if_neg fun h => hc h.1, String.append_empty]

theorem projectDelta_taskId (delta : ModelStreamDelta) :
    (sink.projectDelta delta).taskId = sink.taskId := by
  unfold projectDelta
  split
  · split <;> rfl
  · rfl

theorem foldl_projectDelta_taskId (l : List ModelStreamDelta) :
    (l.foldl projectDelta sink).taskId = sink.taskId := by
  induction l generalizing sink with
  | nil => rfl
  | cons delta l ih => rw [List.foldl_cons, ih, projectDelta_taskId]

theorem bindJob_taskId (jobId : String) : (sink.bindJob jobId).taskId = some jobId :=
  foldl_projectDelta_taskId _

theorem foldl_projectDelta_text (l : List ModelStreamDelta) (id : String) :
    (l.foldl projectDelta sink).text id = sink.text id ++ reasoningText (ofCall id l) := by
  induction l generalizing sink with
  | nil => exact String.append_empty.symm
  | cons delta l ih =>
    rw [List.foldl_cons, ih, projectDelta_text, String.append_assoc, ← reasoningText_append, ofCall,
      ofCall, ← List.filter_append]
    rfl

theorem bindJob_text (jobId id : String) : (sink.bindJob jobId).text id = sink.text id := by
  rw [bindJob, foldl_projectDelta_text, text, text]
  exact congrArg (· ++ _) String.append_empty

/-- **a run of the sink**: the text of a call grows by its reasoning deltas, wherever the job is
bound -/
theorem handle_text (calls : List SinkCall) (id : String) :
    (calls.foldl handle sink).text id =
      sink.text id ++ reasoningText (ofCall id (calls.filterMap SinkCall.delta?)) := by
  induction calls generalizing sink with
  | nil => exact String.append_empty.symm
  | cons call calls ih =>
    rw [List.foldl_cons, ih]
    cases call with
    | publish delta =>
      rw [show sink.handle (.publish delta) = sink.projectDelta delta from rfl, projectDelta_text,
        String.append_assoc, ← reasoningText_append, ofCall, ofCall, ← List.filter_append]
      rfl
    | bindJob jobId =>
      rw [show sink.handle (.bindJob jobId) = sink.bindJob jobId from rfl, bindJob_text]
      rfl

end ProductTaskStreamSink

/-! ## what an attempt publishes -/

variable {codec config request}

/-- the published reasoning is the reasoning added up, and all of it is of this call -/
structure Accumulator.Reported (request : Request) (acc : Accumulator) : Prop where
  text : reasoningText acc.sent = join "" acc.reasoningChunks
  ids : ∀ delta ∈ acc.sent, delta.modelCallId = request.modelCallId

theorem join_concat (l : List String) (s : String) : join "" (l ++ [s]) = join "" l ++ s := by
  induction l with
  | nil => exact String.empty_append.symm
  | cons a l ih =>
    cases l with
    | nil => simp [join]
    | cons b l =>
      rw [List.cons_append, List.cons_append, join_cons_cons, ← List.cons_append, ih,
        join_cons_cons, String.append_assoc, String.append_assoc, String.append_assoc]

theorem start_reported : Accumulator.start.Reported request := ⟨rfl, fun _ h => nomatch h⟩

theorem Accumulator.Reported.addContent {acc : Accumulator} (h : acc.Reported request) (arrived : Nat)
    (content : String) : (acc.addContent request arrived content).Reported request := by
  unfold Accumulator.addContent
  split
  · exact h
  · refine ⟨?_, fun delta hd => ?_⟩
    · show reasoningText (acc.sent ++ [_]) = join "" acc.reasoningChunks
      rw [reasoningText_append, h.text]
      exact String.append_empty
    · rcases List.mem_append.mp hd with hd | hd
      · exact h.ids delta hd
      · rw [List.mem_singleton.mp hd]

theorem Accumulator.Reported.addReasoning {acc : Accumulator} (h : acc.Reported request)
    (arrived : Nat) (content : String) :
    (acc.addReasoning request arrived content).Reported request := by
  unfold Accumulator.addReasoning
  split
  · exact h
  · rename_i hne
    refine ⟨?_, fun delta hd => ?_⟩
    · show reasoningText (acc.sent ++ [_]) = join "" (acc.reasoningChunks ++ [content])
      have hshown : ∀ count, reasoningText
          [⟨request.modelCallId, request.operation, .reasoning, count, content⟩] = content := by
        intro count
        have hconcerns : concerns ⟨request.modelCallId, request.operation, .reasoning, count,
          content⟩ = true := bne_iff_ne.mpr hne
        rw [reasoningText, if_pos hconcerns]
        exact String.append_empty
      rw [reasoningText_append, h.text, join_concat, hshown]
    · rcases List.mem_append.mp hd with hd | hd
      · exact h.ids delta hd
      · rw [List.mem_singleton.mp hd]

theorem Accumulator.Reported.addDelta {acc : Accumulator} (h : acc.Reported request) (arrived : Nat)
    (delta : Json) : (acc.addDelta codec request arrived delta).Reported request := by
  unfold Accumulator.addDelta
  cases extractResponseText codec (delta.get? "content") with
  | none =>
    cases extractResponseText codec (delta.get? "reasoning_content") with
    | none => exact ⟨h.text, h.ids⟩
    | some c =>
      have h1 := h.addReasoning arrived c
      exact ⟨h1.text, h1.ids⟩
  | some c =>
    have h1 := h.addContent arrived c
    cases extractResponseText codec (delta.get? "reasoning_content") with
    | none => exact ⟨h1.text, h1.ids⟩
    | some c' =>
      have h2 := h1.addReasoning arrived c'
      exact ⟨h2.text, h2.ids⟩

theorem Accumulator.Reported.addEvent {acc : Accumulator} (h : acc.Reported request) (arrived : Nat)
    (event : Json) : (acc.addEvent codec request arrived event).Reported request := by
  have hfold : ∀ (choices : List Json) (acc : Accumulator), acc.Reported request →
      (choices.foldl (·.addChoice codec request arrived) acc).Reported request := by
    intro choices
    induction choices with
    | nil => exact fun _ h => h
    | cons choice rest ih =>
      intro acc h
      refine ih _ ?_
      show (acc.addChoice codec request arrived choice).Reported request
      unfold Accumulator.addChoice
      have h1 : Accumulator.Reported request
          { acc with finishReason := (finishReasonOf choice).or acc.finishReason } := ⟨h.text, h.ids⟩
      cases choice.get? "delta" with
      | none => exact h1
      | some delta => exact h1.addDelta arrived delta
  exact hfold _ _ ⟨h.text, h.ids⟩

theorem checkWallTime_keeps (P : Accumulator → Prop) (elapsed : Nat) :
    Keeps P (checkWallTime config elapsed) :=
  .bind (.get P) fun _ => .ite (.throw P _) (.pure P _)

theorem readPayload_reported (arrived : Nat) (payload : String) :
    Keeps (Accumulator.Reported request) (readPayload codec request arrived payload) := by
  unfold readPayload
  refine .bind (fun acc h => ⟨h.text, h.ids⟩) fun _ => ?_
  cases codec.parse payload with
  | error e => exact .throw _ _
  | ok event =>
    dsimp only
    cases event.get? "error" with
    | some e => exact .throw _ _
    | none => exact fun acc h => h.addEvent arrived event

theorem readLoop_reported (closedAt : Nat) (reads : List LineRead) :
    Keeps (Accumulator.Reported request) (readLoop codec config request closedAt reads) := by
  induction reads with
  | nil => exact .bind (checkWallTime_keeps _ closedAt) fun _ => .pure _ _
  | cons read rest ih =>
    unfold readLoop
    refine .bind (checkWallTime_keeps _ read.elapsed) fun _ => .bind (.get _) fun acc => ?_
    cases read.line with
    | error e => exact .throw _ _
    | ok line =>
      dsimp only
      cases payloadOf line with
      | none => exact ih
      | some payload => exact .ite (.pure _ _) (.bind (readPayload_reported _ payload) fun _ => ih)

theorem response_reasoning {acc : Accumulator} (h : acc.Reported request) {done : Bool}
    {response : ModelProviderResponse} (hr : finishResponse config request acc done = .ok response) :
    response.reasoningContent.getD "" = reasoningText acc.sent := by
  have hresponse : response = responseOf config request acc done := by
    unfold finishResponse at hr
    cases hv : acc.finishReason.elim (.ok ()) validateFinishReason with
    | error e => rw [hv] at hr; cases hr
    | ok u =>
      rw [hv] at hr
      dsimp only at hr
      split at hr
      · cases hr
      · exact (Except.ok.inj hr).symm
  rw [hresponse, responseOf, h.text]
  dsimp only
  split
  · rename_i hnil
    rw [hnil]
    rfl
  · rfl

theorem run_reported (attempt : Attempt) {result : Except Failure ModelProviderResponse}
    {deltas : List ModelStreamDelta} (h : attempt.run codec config request = (result, deltas)) :
    (∀ delta ∈ deltas, delta.modelCallId = request.modelCallId) ∧
      ∀ response, result = .ok response →
        response.reasoningContent.getD "" = reasoningText deltas := by
  cases attempt with
  | refused failure =>
    obtain ⟨rfl, rfl⟩ := Prod.mk.inj h
    exact ⟨fun _ h => absurd h List.not_mem_nil, fun _ h => nomatch h⟩
  | streamed arrivals =>
    have hkeeps := @readLoop_reported codec config request
      arrivals.closedAt arrivals.reads .start start_reported
    unfold Attempt.run at h
    dsimp only at h
    cases hrun : readDeepseekStreamingResponse codec arrivals request config .start with
    | error e acc =>
      rw [hrun] at h
      cases h
      refine ⟨?_, fun _ h => nomatch h⟩
      rcases bind_err.mp hrun with hrun | ⟨done, acc', hloop, hrun⟩
      · rw [final_of_err hrun] at hkeeps
        exact hkeeps.ids
      · rw [final_of_ok hloop] at hkeeps
        rw [Err, bind_of_ok (get_apply acc')] at hrun
        cases hfin : finishResponse config request acc' done with
        | error e' => rw [hfin] at hrun; cases hrun; exact hkeeps.ids
        | ok response => rw [hfin] at hrun; cases hrun
    | ok response acc =>
      rw [hrun] at h
      cases h
      obtain ⟨done, acc', hloop, hrun⟩ := bind_ok.mp hrun
      rw [final_of_ok hloop] at hkeeps
      rw [Ok, bind_of_ok (get_apply acc')] at hrun
      cases hfin : finishResponse config request acc' done with
      | error e' => rw [hfin] at hrun; cases hrun
      | ok response' =>
        rw [hfin] at hrun
        cases hrun
        refine ⟨hkeeps.ids, fun r hr => ?_⟩
        cases hr
        exact response_reasoning hkeeps hfin

/-! ## the retry loop -/

def Attempt.streamsReasoning (codec : Codec) (config : DeepSeekStreamConfig) (request : Request)
    (attempt : Attempt) : Bool :=
  (attempt.run codec config request).2.any concerns

theorem attempts_lt {policy : RetryPolicy} {attempt : Nat → Attempt} {left attempts : Nat}
    {lastError : Option Failure} {sent : List ModelStreamDelta} {response : ModelProviderResponse}
    (h : (attemptLoop codec config request policy attempt left attempts lastError sent).result =
      .ok response) :
    attempts <
      (attemptLoop codec config request policy attempt left attempts lastError sent).attempts := by
  induction left generalizing attempts lastError sent with
  | zero => cases h
  | succ left ih =>
    unfold attemptLoop at h ⊢
    cases hrun : (attempt (attempts + 1)).run codec config request with
    | mk result deltas =>
      rw [hrun] at h
      cases result with
      | ok response' => exact Nat.lt_succ_self attempts
      | error failure =>
        dsimp only at h ⊢
        split at h
        · rename_i hretry
          rw [if_pos hretry]
          exact Nat.lt_of_succ_lt (ih h)
        · cases h

/-- a call that ends with a response published what its earlier attempts did, and then the reasoning of
the response -/
theorem attemptLoop_sent (policy : RetryPolicy) (attempt : Nat → Attempt) (left : Nat) :
    ∀ {attempts : Nat} {lastError : Option Failure} {sent : List ModelStreamDelta}
      {response : ModelProviderResponse},
      (attemptLoop codec config request policy attempt left attempts lastError sent).result =
        .ok response →
      ∃ discarded last,
        (attemptLoop codec config request policy attempt left attempts lastError sent).sent =
          sent ++ discarded ++ last ∧
        (∀ delta ∈ discarded ++ last, delta.modelCallId = request.modelCallId) ∧
        response.reasoningContent.getD "" = reasoningText last ∧
        (discarded.any concerns = false ↔ ∀ n, attempts < n →
          n < (attemptLoop codec config request policy attempt left attempts lastError sent).attempts →
          (attempt n).streamsReasoning codec config request = false) := by
  induction left with
  | zero => exact fun h => nomatch h
  | succ left ih =>
    intro attempts lastError sent response h
    unfold attemptLoop at h ⊢
    cases hrun : (attempt (attempts + 1)).run codec config request with
    | mk result deltas =>
      obtain ⟨hids, hreasoning⟩ := run_reported _ hrun
      rw [hrun] at h
      cases result with
      | ok response' =>
        cases h
        refine ⟨[], deltas, by simp, hids, hreasoning response rfl, iff_of_true rfl ?_⟩
        intro n h1 h2
        dsimp only at h2
        omega
      | error failure =>
        dsimp only at h ⊢
        split at h
        · rename_i hretry
          rw [if_pos hretry]
          obtain ⟨discarded, last, hsent, hall, hlast, hquiet⟩ := ih h
          have hpos : attempts + 1 < (attemptLoop codec config request policy attempt left
              (attempts + 1) (some failure) (sent ++ deltas)).attempts := attempts_lt h
          refine ⟨deltas ++ discarded, last, ?_, fun delta hd => ?_, hlast, ?_⟩
          · rw [hsent, List.append_assoc sent]
          · rw [List.append_assoc] at hd
            exact (List.mem_append.mp hd).elim (hids delta) (hall delta)
          · have hfirst : (attempt (attempts + 1)).streamsReasoning codec config request =
                deltas.any concerns := by rw [Attempt.streamsReasoning, hrun]
            rw [List.any_append, Bool.or_eq_false_iff, hquiet]
            constructor
            · rintro ⟨hd, hrest⟩ n h1 h2
              by_cases hn : n = attempts + 1
              · rw [hn, hfirst]
                exact hd
              · exact hrest n (by omega) h2
            · intro hall
              exact ⟨hfirst ▸ hall (attempts + 1) (Nat.lt_succ_self _) hpos,
                fun n h1 h2 => hall n (by omega) h2⟩
        · cases h

/-- **reasoning of a call**: a sink on which nothing of a call has arrived yet, and that gets the
deltas of its attempts in order, whatever else arrives in between and whenever the job is bound, ends
with the reasoning of the response as the body exactly when no earlier attempt published reasoning -/
theorem body_of_reasoning_iff (codec : Codec) (config : DeepSeekStreamConfig) (request : Request)
    (policy : RetryPolicy) (attempt : Nat → Attempt) (response : ModelProviderResponse)
    (sink : ProductTaskStreamSink) (calls : List SinkCall)
    (hok : (invokeAttempts codec config request policy attempt).result = .ok response)
    (hsent : ProductTaskStreamSink.ofCall request.modelCallId (calls.filterMap SinkCall.delta?) =
      (invokeAttempts codec config request policy attempt).sent)
    (hnew : sink.text request.modelCallId = "")
    (hbound : (calls.foldl ProductTaskStreamSink.handle sink).taskId.isSome) :
    (calls.foldl ProductTaskStreamSink.handle sink).body request.modelCallId =
        response.reasoningContent.getD "" ↔
      ∀ n, 1 ≤ n → n < (invokeAttempts codec config request policy attempt).attempts →
        (attempt n).streamsReasoning codec config request = false := by
  obtain ⟨discarded, last, hall, -, hlast, hquiet⟩ := attemptLoop_sent policy attempt _ hok
  have hall' : (invokeAttempts codec config request policy attempt).sent = discarded ++ last := hall
  rw [← ProductTaskStreamSink.text_of_bound hbound, ProductTaskStreamSink.handle_text, hnew, hsent,
    hall', reasoningText_append, hlast, String.empty_append, append_eq_right,
    reasoningText_eq_empty]
  exact hquiet

/-! ## two attempts -/

def draftPayload : String :=
  "\x7b\"choices\":[\x7b\"delta\":\x7b\"reasoning_content\":\"Draft\"\x7d\x7d]\x7d"

def planPayload : String :=
  "\x7b\"choices\":[\x7b\"delta\":\x7b\"reasoning_content\":\"Plan\",\"content\":\"Done\"\x7d\x7d]\x7d"

def oneDelta (fields : List (String × Json)) : Json :=
  .obj [("choices", .arr [.obj [("delta", .obj fields)]])]

def attemptCodec : Codec where
  parse payload :=
    if payload = draftPayload then .ok (oneDelta [("reasoning_content", .str "Draft")])
    else if payload = planPayload then
      .ok (oneDelta [("reasoning_content", .str "Plan"), ("content", .str "Done")])
    else .error "expected value"
  render _ := "null"

def dataLine (payload : String) (h : "data: " ++ payload ++ "\n" ≠ "") : LineRead :=
  ⟨0, 1, .ok ("data: " ++ payload ++ "\n"), fun e => h (Except.ok.inj e)⟩

/-- a piece of reasoning, and then no more within the idle time -/
def draftThenTimeout : Attempt :=
  .streamed ⟨[dataLine draftPayload (by decide),
    ⟨1, 9, .error (.timedOut "timed out reading response"), fun h => nomatch h⟩], 9⟩

def refusedAttempt : Attempt :=
  .refused ⟨"DEEPSEEK_HTTP_ERROR", "connection refused", true⟩

def planDone : Attempt :=
  .streamed ⟨[dataLine planPayload (by decide), dataLine "[DONE]" (by decide)], 2⟩

def taskRequest : Request := ⟨"model_call_1", "decide_next_action", false⟩

def streamLimits : DeepSeekStreamConfig := ⟨1000, 1000, 10000⟩

/-- the call with a first and then a second attempt -/
def callOf (first : Attempt) : CallEnd :=
  invokeAttempts attemptCodec streamLimits taskRequest (.fromBudget 1)
    fun n => if n = 1 then first else planDone

/-- what reaches the sink: the deltas of the call, and then the start of the job -/
def sinkCalls (first : Attempt) : List SinkCall :=
  (callOf first).sent.map SinkCall.publish ++ [SinkCall.bindJob "job"]

def sinkAfter (first : Attempt) : ProductTaskStreamSink :=
  (sinkCalls first).foldl ProductTaskStreamSink.handle .new

theorem sinkAfter_bound (first : Attempt) : (sinkAfter first).taskId.isSome := by
  rw [sinkAfter, sinkCalls, List.foldl_append]
  exact congrArg Option.isSome (ProductTaskStreamSink.bindJob_taskId "job")

theorem sinkCalls_delta (first : Attempt) :
    (sinkCalls first).filterMap SinkCall.delta? = (callOf first).sent := by
  rw [sinkCalls, List.filterMap_append, List.filterMap_map]
  exact (List.append_nil _).trans List.filterMap_some

theorem sinkCalls_ofCall {first : Attempt} {response : ModelProviderResponse}
    (h : (callOf first).result = .ok response) :
    ProductTaskStreamSink.ofCall "model_call_1" ((sinkCalls first).filterMap SinkCall.delta?) =
      (callOf first).sent := by
  obtain ⟨discarded, last, hsent, hids, -⟩ := attemptLoop_sent _ _ _ h
  rw [sinkCalls_delta]
  refine List.filter_eq_self.mpr fun delta hd => beq_iff_eq.mpr (hids delta ?_)
  exact (show (callOf first).sent = discarded ++ last from hsent) ▸ hd

theorem body_of_reasoning_iff_refused : (sinkAfter refusedAttempt).body "model_call_1" = "Plan" := by
  obtain ⟨hplan, hend⟩ :
      (callOf refusedAttempt).result.toOption.map (·.reasoningContent) = some (some "Plan") ∧
        (callOf refusedAttempt).attempts = 2 := by
    decide +kernel
  cases hr : (callOf refusedAttempt).result with
  | error e =>
    rw [hr] at hplan
    cases hplan
  | ok response =>
    rw [hr] at hplan
    have hquiet : refusedAttempt.streamsReasoning attemptCodec streamLimits taskRequest = false := rfl
    have hbody := (body_of_reasoning_iff attemptCodec streamLimits taskRequest (.fromBudget 1)
      (fun n => if n = 1 then refusedAttempt else planDone) response .new (sinkCalls refusedAttempt)
      hr (sinkCalls_ofCall hr) rfl (sinkAfter_bound _)).mpr fun n h1 h2 => by
        obtain rfl : n = 1 := by
          have : n < 2 := hend ▸ h2
          omega
        exact hquiet
    exact hbody.trans (congrArg (·.getD "") (Option.some.inj hplan))

/-- the reasoning of an attempt that timed out stays in front of that of the response -/
theorem discarded_reasoning_kept :
    (callOf draftThenTimeout).result.toOption.map (·.reasoningContent) = some (some "Plan") ∧
      (sinkAfter draftThenTimeout).body "model_call_1" = "DraftPlan" := by
  decide +kernel

end Stream

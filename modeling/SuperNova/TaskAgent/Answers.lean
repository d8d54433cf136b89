import SuperNova.TaskAgent.ToolLoop

/-!
# Answers to the tool calls of the task agent

* `runProviderToolCallLoop_answers` (**main**): however the loop ends, unless a call waits for an
  approval, every response of the loop has exactly one result for each of its calls if and only if
  the ids of these calls are distinct;
* `repeated_id_unanswered`: three calls of which two have the same id leave the third unanswered.
-/

set_option linter.unusedSectionVars false

namespace TaskAgent

open Provider Answers Io

/-- answered exactly when the ids are distinct -/
def Exact (ids answers : List String) : Prop := answers.Perm ids ↔ ids.Nodup

/-- `log` was recorded after `t₀`, and the messages that are sent are those before and in `log`, from
some point on, after the summaries that took the place of the others -/
def Continues (t₀ t : Transcript) (log : List (Mark String)) : Prop :=
  history t = history t₀ ++ log ∧
    ∃ n k, k ≤ (marks t₀ ++ log).length ∧
      marks t = List.replicate n .other ++ (marks t₀ ++ log).drop k

/-- all responses recorded after `t₀` are answered exactly when their ids are distinct -/
def Settled (t₀ t : Transcript) : Prop := ∃ log, Continues t₀ t log ∧ Each Exact log

theorem Continues.refl (t₀ : Transcript) : Continues t₀ t₀ [] := by
  refine ⟨(List.append_nil _).symm, 0, 0, Nat.zero_le _, ?_⟩
  rw [List.append_nil]
  rfl

theorem tracks_continues (t₀ : Transcript) : Tracks (Continues t₀) := by
  rintro t t' m pending log ⟨hh, n, k, hk, hm⟩ hr
  refine ⟨?_, n, k, ?_, ?_⟩
  · rw [hr.history, hh, List.append_assoc]
  · rw [← List.append_assoc, List.length_append]
    omega
  · rw [hr.marks, hm, ← List.append_assoc (Provider.marks t₀), List.drop_append_of_le_length hk,
      List.append_assoc]

theorem Continues.summary {t₀ t t' : Transcript} {log : List (Mark String)}
    (h : Continues t₀ t log) {start : Nat} (hh : history t' = history t)
    (hm : marks t' = marks t ∨ marks t' = .other :: (marks t).drop start) :
    Continues t₀ t' log := by
  obtain ⟨h1, n, k, hk, h2⟩ := h
  refine ⟨hh.trans h1, ?_⟩
  rcases hm with hm | hm
  · exact ⟨n, k, hk, hm.trans h2⟩
  · rw [h2, List.drop_append, List.drop_replicate, List.length_replicate, List.drop_drop] at hm
    by_cases hle : k + (start - n) ≤ (Provider.marks t₀ ++ log).length
    · exact ⟨n - start + 1, _, hle, hm⟩
    · refine ⟨n - start + 1, (Provider.marks t₀ ++ log).length, Nat.le_refl _, ?_⟩
      rw [hm, List.drop_eq_nil_of_le (by omega), List.drop_length]
      rfl

theorem exact_nodup {ids : List String} (h : ids.Nodup) : Exact ids ids :=
  iff_of_true (List.Perm.refl _) h

section
variable {t₀ t : Transcript} {base : List (Mark String)} {ids : List String} {n : Nat}

theorem Settled.refl (t₀ : Transcript) : Settled t₀ t₀ := ⟨[], Continues.refl t₀, each_nil _⟩

theorem settled_of_stuck (hb : Each Exact base) (h : Stuck (Continues t₀) base ids t) :
    Settled t₀ t := by
  obtain ⟨log, n, hlog, hp, hn, ha⟩ := h
  exact ⟨log, hlog, hp.each_iff.mpr ⟨hb, iff_of_false ha hn⟩⟩

theorem settled_of_done (hb : Each Exact base) (h : InBatch (Continues t₀) base ids ids.length t) :
    Settled t₀ t := h.done hb exact_nodup

theorem Settled.other (h : Settled t₀ t) {t' : Transcript} {pending : List String}
    (hr : Recorded t t' .other pending) : Settled t₀ t' := by
  obtain ⟨log, hlog, he⟩ := h
  exact ⟨_, tracks_continues t₀ hlog hr, (each_append_silent other_quiet rfl).mpr he⟩

/-! ## one batch -/

theorem controlMessage_ends (codec : Codec) (message : Json) {E : Transcript → Prop}
    (h : InBatch (Continues t₀) base ids n t) :
    Ends (recordProviderUserControlMessage codec message) t
      (fun _ => InBatch (Continues t₀) base ids n) E := by
  obtain ⟨t', hok, hrec⟩ := recordProviderUserControlMessage_spec codec message h.1
  exact Ends.of_ok hok (h.other (tracks_continues t₀) hrec)

theorem correction_ends (codec : Codec) (message : Option Json) {E : Transcript → Prop}
    (h : InBatch (Continues t₀) base ids n t) :
    Ends (recordCorrection codec message) t (fun _ => InBatch (Continues t₀) base ids n) E := by
  cases message with
  | none => exact Ends.pure h
  | some message => exact controlMessage_ends codec message h

theorem execute_ends (agent : Agent) (decision : NextActionDecision) {E : Transcript → Prop}
    (h : InBatch (Continues t₀) base ids n t) :
    Ends (executeProviderToolDecision agent decision) t
      (fun _ => InBatch (Continues t₀) base ids n) E := by
  refine Ends.get_bind (Ends.bind (Ends.forM _ (fun call _ s hs => ?_) h) fun _ s hs => Ends.pure hs)
  obtain ⟨s', hok, hrec⟩ := recordNoCalls agent.codec call.response call.noCalls s
  refine Ends.of_ok hok ?_
  rcases hrec with rfl | hrec
  · exact hs
  · exact hs.other (tracks_continues t₀) hrec

theorem record_ends (hb : Each Exact base) (codec : Codec)
    (h : InBatch (Continues t₀) base ids n t) {id : String} (hid : ids[n]? = some id)
    (result : Json) :
    Ends (recordProviderToolResult codec id result) t
      (fun _ => InBatch (Continues t₀) base ids (n + 1)) (Settled t₀) :=
  (h.record (tracks_continues t₀) codec hid result).mono (fun _ _ h => h)
    fun _ => settled_of_stuck hb

theorem remaining_ends (hb : Each Exact base) (codec : Codec) (calls : List ProviderToolCall)
    (error : ProviderToolProtocolError) (h : InBatch (Continues t₀) base ids n t)
    (hrest : calls.map (·.id) = ids.drop n) :
    Ends (appendErrorResultsForRemaining codec calls error) t
      (fun _ => InBatch (Continues t₀) base ids ids.length) (Settled t₀) :=
  (h.recordAll (tracks_continues t₀) codec _ (by rw [List.map_map]; exact hrest)).mono
    (fun _ _ h => h) fun _ => settled_of_stuck hb

/-- the loop stopped to wait for an approval -/
def BatchEnd.waits : BatchEnd → Prop
  | .done _ status => status = "waiting_approval"
  | .next _ => False

theorem runCalls_ends (agent : Agent) (registry : ProviderToolRegistry) (hb : Each Exact base)
    (calls : List ProviderToolCall) :
    ∀ {n : Nat} {t : Transcript} (vars : LoopVars), InBatch (Continues t₀) base ids n t →
      calls.map (·.id) = ids.drop n →
      Ends (runCalls agent registry calls vars) t (fun e t' => e.waits ∨ Settled t₀ t')
        (Settled t₀) := by
  induction calls with
  | nil =>
    intro n t vars h hrest
    exact Ends.pure (Or.inr (settled_of_done hb (h.atEnd hrest)))
  | cons call rest ih =>
    intro n t vars h hrest
    obtain ⟨hid, hrest'⟩ := next_of_rest hrest
    rw [runCalls]
    cases registry.decisionForToolCall agent.codec call with
    | error error =>
      exact Ends.bind (record_ends hb agent.codec h hid _) fun _ t1 h1 => ih vars h1 hrest'
    | ok decision =>
      refine Ends.bind (execute_ends agent decision h) fun outcome t1 h1 => ?_
      cases outcome with
      | error err =>
        -- the call failed: its result, the others skipped, and a hint for the model
        refine Ends.bind (record_ends hb agent.codec h1 hid _) fun _ t2 h2 => ?_
        refine Ends.bind (remaining_ends hb agent.codec rest _ h2 hrest') fun _ t3 h3 => ?_
        refine Ends.bind (controlMessage_ends agent.codec _ h3) fun _ t4 h4 => ?_
        exact Ends.pure (Or.inr (settled_of_done hb h4))
      | ok result =>
        obtain ⟨status, toolResult⟩ := result
        dsimp only
        by_cases hw : status = "waiting_approval"
        · rw [if_pos hw]
          exact Ends.pure (Or.inl rfl)
        · rw [if_neg hw]
          refine Ends.bind (record_ends hb agent.codec h1 hid _) fun _ t2 h2 => ?_
          by_cases hr : status = "recoverable_error"
          · rw [if_pos hr]
            refine Ends.bind (remaining_ends hb agent.codec rest _ h2 hrest') fun _ t3 h3 => ?_
            refine Ends.bind (correction_ends agent.codec _ h3) fun _ t4 h4 => ?_
            exact Ends.pure (Or.inr (settled_of_done hb h4))
          · rw [if_neg hr]
            by_cases ht : status ∈ terminalStatuses
            · rw [if_pos ht]
              refine Ends.bind (remaining_ends hb agent.codec rest _ h2 hrest') fun _ t3 h3 => ?_
              exact Ends.pure (Or.inr (settled_of_done hb h3))
            · rw [if_neg ht]
              exact ih _ h2 hrest'

theorem runBatch_ends (agent : Agent) (modelCallId : String) (hb : Each Exact base)
    (calls : List ProviderToolCall) (vars : LoopVars)
    (h : InBatch (Continues t₀) base (calls.map (·.id)) 0 t) :
    Ends (runBatch agent modelCallId calls vars) t (fun e t' => e.waits ∨ Settled t₀ t')
      (Settled t₀) := by
  unfold runBatch
  dsimp only
  split
  · refine Ends.bind (remaining_ends hb agent.codec calls _ h rfl) fun _ t1 h1 => ?_
    exact Ends.pure (Or.inr (settled_of_done hb h1))
  · exact runCalls_ends agent _ hb calls vars h rfl

/-! ## the loop -/

theorem invoke_ends (agent : Agent) (index : Nat) {E : Transcript → Prop} (h : Settled t₀ t) :
    Ends (invokeNextActionModel agent index) t (fun _ => Settled t₀) E := by
  refine Ends.get_bind (Ends.bind ?_ fun _ t1 h1 => Ends.pure h1)
  cases (agent.invokeNextActionModel index t).compaction with
  | none => exact Ends.pure h
  | some compaction =>
    obtain ⟨t', hok, hh, hm⟩ := replaceWithSummary_spec compaction.1 compaction.2 t
    obtain ⟨log, hlog, he⟩ := h
    exact Ends.of_ok hok ⟨log, hlog.summary hh hm, he⟩

theorem subturns_ends (agent : Agent) (n : Nat) :
    ∀ (index : Nat) (vars : LoopVars) {t : Transcript}, Settled t₀ t →
      Ends (subturns agent n index vars) t
        (fun r t' => r.2 = "waiting_approval" ∨ Settled t₀ t') (Settled t₀) := by
  induction n with
  | zero => exact fun index vars t h => Ends.pure (Or.inr h)
  | succ n ih =>
    intro index vars t h
    rw [subturns]
    refine Ends.bind (invoke_ends agent index h) fun outcome t1 h1 => ?_
    cases outcome with
    | error message => exact Ends.throw h1
    | failed error => exact Ends.pure (Or.inr h1)
    | success modelCallId r =>
      dsimp only
      by_cases hc : r.response.toolCalls = []
      · obtain ⟨t2, hok, hrec⟩ := recordNoCalls agent.codec r hc t1
        have h2 : Settled t₀ t2 := by
          rcases hrec with rfl | hrec
          · exact h1
          · exact h1.other hrec
        rw [if_pos hc]
        exact Ends.bind (Ends.of_ok hok h2) fun _ t3 h3 => ih (index + 1) vars h3
      · obtain ⟨base, hbase, hb⟩ := h1
        obtain ⟨t2, hok, hin⟩ := InBatch.start (tracks_continues t₀) agent.codec r hc hbase
        rw [if_neg hc]
        rw [Ends, bind_of_ok hok]
        refine Ends.bind (runBatch_ends agent modelCallId hb _ vars hin) fun e t3 h3 => ?_
        cases e with
        | done decision status => exact Ends.pure h3
        | next vars' => exact ih (index + 1) vars' (h3.resolve_left id)

end

/-- **the responses of the loop**: unless it ends to wait for an approval, each of them has exactly
one result for each of its calls if and only if their ids are distinct; this is so for all that was
recorded, and for the messages that are sent, which a compaction can only shorten at the front -/
theorem runProviderToolCallLoop_answers (agent : Agent) (t : Transcript)
    (h : ∀ decision t', ¬ Ok (runProviderToolCallLoop agent) t (decision, "waiting_approval") t') :
    ∃ log, Continues t (final (runProviderToolCallLoop agent) t) log ∧ Each Exact log := by
  have hends := @subturns_ends t agent agent.policy.normalized.maxProviderSubturns 0
    ⟨⟨agent.policy.normalized, agent.executedBefore⟩, 0,
      decision .decideNextAction "model.decide_next_action"
        "DeepSeek provider-native tool call loop requested the next action."⟩ t (Settled.refl t)
  change Ends (runProviderToolCallLoop agent) t _ _ at hends
  cases hr : runProviderToolCallLoop agent t with
  | ok r t' =>
    obtain ⟨decision, status⟩ := r
    rw [final_of_ok hr]
    refine (hends.ok hr).resolve_left ?_
    rintro rfl
    exact h decision t' hr
  | error e t' =>
    rw [final_of_err hr]
    exact hends.err hr

/-! ## two runs -/

def listTreeCall (id : String) : ProviderToolCall :=
  ⟨id, "function", .obj [("name", .str "cap_os_list_tree")]⟩

/-- a response with one call for each id -/
def listTreeResponse (ids : List String) : Response where
  response := ⟨"", none, none, ids.map listTreeCall, .null, none, .null, false, false, none, 0, 0,
    none, none, none⟩
  calls_eq := fun _ h => nomatch h

/-- one subturn, in which the model lists the workspace once for each id -/
def listingAgent (ids : List String) : Agent where
  codec := ⟨fun _ => .error "", fun _ => ""⟩
  policy := ⟨1, 8, 8⟩
  executedBefore := 0
  registryForReceipt := fun _ => ⟨[("cap_os_list_tree", ⟨"os.list_tree", true⟩)]⟩
  invokeNextActionModel := fun _ _ => ⟨none, .success "m" (listTreeResponse ids)⟩
  executeDecision := fun _ _ => ⟨[], .ok ("running", .obj [("status", .str "success")])⟩
  recoverableActionError := fun _ _ _ => ⟨⟨"", "", none, none, none⟩, .null, []⟩

/-- the status of a run that returns -/
def statusOf (r : EStateM.Result String Transcript (NextActionDecision × String)) :
    Option String :=
  match r with
  | .ok (_, status) _ => some status
  | .error _ _ => none

theorem not_waiting {agent : Agent} {t : Transcript}
    (h : statusOf (runProviderToolCallLoop agent t) ≠ some "waiting_approval") :
    ∀ decision t', ¬ Ok (runProviderToolCallLoop agent) t (decision, "waiting_approval") t' := by
  intro decision t' hok
  rw [hok] at h
  exact h rfl

theorem runProviderToolCallLoop_answers_two :
    ∃ log, Continues .empty (final (runProviderToolCallLoop (listingAgent ["a", "b"])) .empty) log ∧
      Each Exact log :=
  runProviderToolCallLoop_answers (listingAgent ["a", "b"]) .empty (not_waiting (by decide))

/-- the second result for `a` is refused, the error ends the loop, and `b` has no result -/
theorem repeated_id_unanswered :
    ¬ ∀ (agent : Agent) (t : Transcript),
      (∀ decision t',
        ¬ Ok (runProviderToolCallLoop agent) t (decision, "waiting_approval") t') →
      ∃ log, Continues t (final (runProviderToolCallLoop agent) t) log ∧
        Each (fun ids answers => answers.Perm ids) log := by
  intro h
  obtain ⟨log, ⟨hlog, -⟩, he⟩ := h (listingAgent ["a", "a", "b"]) .empty (not_waiting (by decide))
  have hrun : history (final (runProviderToolCallLoop (listingAgent ["a", "a", "b"])) .empty)
      = [.request ["a", "a", "b"], .answer "a"] := by decide
  have := he [] ["a", "a", "b"] [.answer "a"] (hlog.symm.trans hrun)
  exact absurd this.length_eq (by decide)

end TaskAgent

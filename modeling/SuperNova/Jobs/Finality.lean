import SuperNova.Jobs.Lifecycle

/-!
# Final statuses

A job that is completed or cancelled should stay so, whatever else is under way.

* `StatusFinal`: in no state of a run is a final status gone that was there before;
* `Undisturbed`: what a step needs that makes a status: since its operation last looked, no other
  final status was made; and a job is not cancelled once it is completed;
* `status_final_iff` (**main**): statuses are final in exactly the runs of undisturbed steps;
* `cancelled_job_completes`: a worker that is not done when its job is cancelled.
-/

namespace Jobs

open Recorded

/-! ## what is promised -/

abbrev Final (status : String) : Prop := jobResumeIsTerminal status

/-- a final status that the log yields in some state is there in every later state -/
def StatusFinal (labels : List Label) : Prop :=
  ∀ before after s s', before ++ after <+: labels → State.start.run before = some s →
    s.run after = some s' → Final (replay s.log) → replay s'.log = replay s.log

/-- a step that makes a status finds no other final status that was made since its operation began
or last looked; a cancel did not begin on a completed job -/
def Undisturbed (s : State) (label : Label) : Prop :=
  ∀ i t event rest status, label = .move i .advance → s.threads[i]? = some t →
    t.program = .append event :: rest → replayStatus event = some status →
      (∀ other ∈ s.log.drop t.mark, ∀ made, replayStatus other = some made → Final made →
        made = status) ∧
      (t.op = .cancelJob → replay (s.log.take t.mark) ≠ "completed")

def AllUndisturbed (s : State) : List Label → Prop
  | [] => True
  | label :: labels => ∀ s', s.step label = some s' → Undisturbed s label ∧ AllUndisturbed s' labels

/-! ## operations look before they make a status -/

/-- no status is made before the next look -/
def Guarded : List Instr → Prop
  | [] => True
  | .append event :: rest => replayStatus event = none ∧ Guarded rest
  | .notes :: rest => Guarded rest
  | .check _ :: _ => True
  | .work :: _ => False

/-- an operation that looks: it returns at a final status, and it saw none or has still to look -/
structure Looks (log : List Event) (t : Thread) : Prop where
  checks : ∀ returns, .check returns ∈ t.program → ∀ status, Final status → returns status
  saw : ¬ Final (replay (log.take t.mark)) ∨ Guarded t.program ∧ ¬ t.acted

/-- a cancel: it makes one status only -/
structure Cancels (t : Thread) : Prop where
  appends : ∀ instr ∈ t.program, instr = .notes ∨ ∃ event, instr = .append event ∧
    ∀ status, replayStatus event = some status → status = "cancelled"
  idle : ¬ t.acted

structure ThreadOk (log : List Event) (t : Thread) : Prop where
  mark : t.mark ≤ log.length
  cancels : t.op = .cancelJob → Cancels t
  looks : t.op ≠ .cancelJob → Looks log t

variable {s s' : State} {t t' : Thread} {log events : List Event} {m : Move} {label : Label}

theorem take_mark (h : t.mark ≤ log.length) : (log ++ events).take t.mark = log.take t.mark :=
  List.take_append_of_le_length h

theorem ThreadOk.append (h : ThreadOk log t) : ThreadOk (log ++ events) t where
  mark := by
    rw [List.length_append]
    exact Nat.le_add_right_of_le h.mark
  cancels := h.cancels
  looks hop := by
    refine ⟨(h.looks hop).checks, ?_⟩
    rw [take_mark h.mark]
    exact (h.looks hop).saw

theorem Cancels.moved (h : Cancels t) (hmoved : Moved log t m events t') : Cancels t' := by
  cases hmoved with
  | append event rest program =>
    exact ⟨fun instr hinstr => h.appends instr (program ▸ List.mem_cons_of_mem _ hinstr), h.idle⟩
  | skip rest program =>
    exact ⟨fun instr hinstr => h.appends instr (program ▸ List.mem_cons_of_mem _ hinstr), h.idle⟩
  | returned => exact ⟨fun instr hinstr => absurd hinstr List.not_mem_nil, h.idle⟩
  | checked returns rest program _ =>
    rcases h.appends _ (program ▸ List.mem_cons_self) with heq | ⟨_, heq, -⟩
    · cases heq
    · cases heq
  | noted => exact h
  | acted action rest program =>
    rcases h.appends _ (program ▸ List.mem_cons_self) with heq | ⟨_, heq, -⟩
    · cases heq
    · cases heq
  | recovered acted => exact absurd acted h.idle
  | stopped => exact ⟨fun instr hinstr => absurd hinstr List.not_mem_nil, h.idle⟩

theorem Action.no_check (action : Action) (returns : String → Bool) :
    Instr.check returns ∉ action.program := by
  intro h
  unfold Action.program at h
  rcases List.mem_append.mp h with h | h
  · rcases List.mem_cons.mp h with h | h
    · cases h
    · obtain ⟨event, -, h⟩ := List.mem_map.mp h
      cases h
  · cases List.mem_singleton.mp h

theorem Looks.moved (h : Looks log t) (hmark : t.mark ≤ log.length)
    (hmoved : Moved log t m events t') : Looks (log ++ events) t' := by
  cases hmoved with
  | append event rest program =>
    refine ⟨fun returns hmem => h.checks returns (program ▸ List.mem_cons_of_mem _ hmem), ?_⟩
    dsimp only
    rw [take_mark hmark]
    rcases h.saw with hsaw | ⟨hguarded, hacted⟩
    · exact Or.inl hsaw
    · rw [program] at hguarded
      exact Or.inr ⟨hguarded.2, hacted⟩
  | skip rest program =>
    refine ⟨fun returns hmem => h.checks returns (program ▸ List.mem_cons_of_mem _ hmem), ?_⟩
    dsimp only
    rw [take_mark hmark]
    rcases h.saw with hsaw | ⟨hguarded, hacted⟩
    · exact Or.inl hsaw
    · rw [program] at hguarded
      exact Or.inr ⟨hguarded, hacted⟩
  | returned | stopped =>
    refine ⟨fun returns hmem => absurd hmem List.not_mem_nil, ?_⟩
    dsimp only
    rw [take_mark hmark]
    exact h.saw.imp_right fun hsaw => ⟨trivial, hsaw.2⟩
  | checked returns rest program goesOn =>
    refine ⟨fun returns hmem => h.checks returns (program ▸ List.mem_cons_of_mem _ hmem), ?_⟩
    dsimp only
    rw [List.take_left]
    exact Or.inl fun hfinal => goesOn (h.checks returns (program ▸ List.mem_cons_self) _ hfinal)
  | noted =>
    refine ⟨h.checks, ?_⟩
    rw [take_mark hmark]
    exact h.saw
  | acted action rest program =>
    refine ⟨fun returns hmem => absurd hmem (action.no_check returns), Or.inl ?_⟩
    dsimp only
    rw [take_mark hmark]
    rcases h.saw with hsaw | ⟨hguarded, -⟩
    · exact hsaw
    · rw [program] at hguarded
      exact hguarded.elim
  | recovered acted =>
    refine ⟨fun returns hmem => (nomatch List.mem_singleton.mp hmem), Or.inl ?_⟩
    dsimp only
    rw [take_mark hmark]
    rcases h.saw with hsaw | ⟨-, hacted⟩
    · exact hsaw
    · exact absurd acted hacted

theorem moved_op (h : Moved log t m events t') : t'.op = t.op := by
  cases h <;> rfl

theorem moved_mark (h : Moved log t m events t') (hmark : t.mark ≤ log.length) :
    t'.mark ≤ (log ++ events).length := by
  rw [List.length_append]
  cases h with
  | checked => exact Nat.le_add_right ..
  | append | skip | returned | noted | acted | recovered | stopped =>
    exact Nat.le_add_right_of_le hmark

theorem ThreadOk.moved (h : ThreadOk log t) (hmoved : Moved log t m events t') :
    ThreadOk (log ++ events) t' where
  mark := moved_mark hmoved h.mark
  cancels hop := (h.cancels (moved_op hmoved ▸ hop)).moved hmoved
  looks hop := (h.looks (moved_op hmoved ▸ hop)).moved h.mark hmoved

/-- the checks of a program, all of which return at a final status -/
def ChecksReturn (program : List Instr) : Prop :=
  ∀ returns, .check returns ∈ program → ∀ status, Final status → returns status

theorem not_waiting_of_final {status : String} (h : Final status) :
    decide (status ≠ "waiting_approval") := by
  refine decide_eq_true fun heq => ?_
  rw [heq] at h
  exact absurd h (by decide)

theorem Op.checks (op : Op) : ChecksReturn op.program := by
  intro returns hmem status hfinal
  cases op with
  | createJob | cancelJob => simp [Op.program, runTaskAgent] at hmem
  | resumeJob | submitUserInput =>
    simp only [Op.program, Jobs.resumeJob, Jobs.submitUserInput, runTaskAgent, List.mem_cons,
      List.mem_append, List.not_mem_nil, reduceCtorEq, or_false, or_self,
      Instr.check.injEq] at hmem
    rw [hmem]
    exact hfinal
  | submitUserInputForApproval recorded =>
    have hreturns : returns = jobResumeIsTerminal := by
      cases recorded
      all_goals simpa [Op.program, Jobs.resumeJob, Jobs.submitUserInput, runTaskAgent] using hmem
    rw [hreturns]
    exact hfinal
  | approvePreview =>
    simp only [Op.program, Jobs.resumeJob, runTaskAgent, List.mem_cons, List.mem_append,
      List.not_mem_nil, reduceCtorEq, or_false, or_self, Instr.check.injEq] at hmem
    rcases hmem with rfl | rfl
    · exact not_waiting_of_final hfinal
    · exact hfinal

theorem Op.thread_ok {op : Op} (h : op ≠ .createJob) (log : List Event) :
    ThreadOk log (op.thread log) where
  mark := Nat.le_refl _
  cancels hop := by
    cases (show op = .cancelJob from hop)
    refine ⟨fun instr hinstr => ?_, Bool.false_ne_true⟩
    have : instr ∈ [Instr.append (event "user_cancel_requested"), .notes,
      .append (statusChanged "cancelled"), .append ⟨"job_cancelled", some "cancelled"⟩] := hinstr
    simp only [List.mem_cons, List.not_mem_nil, or_false] at this
    rcases this with rfl | rfl | rfl | rfl
    · exact Or.inr ⟨_, rfl, fun status h => nomatch h⟩
    · exact Or.inl rfl
    · exact Or.inr ⟨_, rfl, fun status h => (Option.some.inj h).symm⟩
    · exact Or.inr ⟨_, rfl, fun status h => nomatch h⟩
  looks hop := by
    refine ⟨op.checks, Or.inr ⟨?_, Bool.false_ne_true⟩⟩
    cases op with
    | createJob => exact absurd rfl h
    | cancelJob => exact absurd rfl hop
    | resumeJob | approvePreview | submitUserInput | submitUserInputForApproval => trivial

/-! ## the invariant -/

def ThreadsOk (s : State) : Prop := ∀ t ∈ s.threads, ThreadOk s.log t

theorem threadsOk_start : ThreadsOk State.start := by
  intro t ht
  rw [List.mem_singleton.mp ht]
  exact ⟨Nat.le_refl _, fun hop => (nomatch hop),
    fun _ => ⟨Op.checks .createJob, Or.inl (by decide)⟩⟩

theorem ThreadsOk.step (h : ThreadsOk s) (hstep : s.step label = some s') : ThreadsOk s' := by
  cases label with
  | call op =>
    obtain ⟨hop, rfl⟩ := step_call hstep
    intro t ht
    rcases List.mem_append.mp ht with ht | ht
    · exact h t ht
    · rw [List.mem_singleton.mp ht]
      exact Op.thread_ok hop s.log
  | move i m =>
    obtain ⟨t, events, t', ht, hmoved, rfl⟩ := step_move hstep
    intro u hu
    rcases List.mem_or_eq_of_mem_set hu with hu | rfl
    · exact (h u hu).append
    · exact (h t (List.mem_of_getElem? ht)).moved hmoved

/-! ## one step -/

theorem replay_since (log : List Event) (mark : Nat) :
    replay log = replay (log.take mark) ∨
      ∃ other ∈ log.drop mark, replayStatus other = some (replay log) := by
  have h := current_split replayStatus "created" (log.take mark) (log.drop mark)
  rwa [List.take_append_drop] at h

theorem final_cases {status : String} (h : Final status) :
    status = "completed" ∨ status = "cancelled" := of_decide_eq_true h

theorem step_append {i : Nat} {event : Event} {rest : List Instr} (ht : s.threads[i]? = some t)
    (hp : t.program = .append event :: rest) (h : s.step (.move i .advance) = some s') :
    s'.log = s.log ++ [event] := by
  simp only [State.step, ht, Option.bind_some, Thread.move, hp, Option.map_some] at h
  rw [← Option.some.inj h]

theorem ThreadOk.cancelled {event : Event} {rest : List Instr} {status : String}
    (h : ThreadOk log t) (hop : t.op = .cancelJob) (hp : t.program = .append event :: rest)
    (hreads : replayStatus event = some status) : status = "cancelled" := by
  rcases (h.cancels hop).appends _ (hp ▸ List.mem_cons_self) with heq | ⟨other, heq, hstatus⟩
  · cases heq
  · cases heq
    exact hstatus status hreads

theorem ThreadOk.made {event : Event} {rest : List Instr} {status : String}
    (h : ThreadOk log t) (hp : t.program = .append event :: rest)
    (hreads : replayStatus event = some status)
    (hcancel : t.op = .cancelJob → replay (log.take t.mark) ≠ "completed")
    (hfinal : Final (replay (log.take t.mark))) : status = replay (log.take t.mark) := by
  by_cases hop : t.op = .cancelJob
  · rcases final_cases hfinal with hsaw | hsaw
    · exact absurd hsaw (hcancel hop)
    · rw [hsaw, h.cancelled hop hp hreads]
  · rcases (h.looks hop).saw with hsaw | ⟨hguarded, -⟩
    · exact absurd hfinal hsaw
    · rw [hp] at hguarded
      cases hguarded.1.symm.trans hreads

theorem settled_made {i : Nat} {event : Event} {rest : List Instr} {status : String}
    (hok : ThreadsOk s) (hsettled : Settled replayStatus "created" Final s.log)
    (ht : s.threads[i]? = some t) (hp : t.program = .append event :: rest)
    (hreads : replayStatus event = some status) :
    Settled replayStatus "created" Final (s.log ++ [event]) ↔
      Undisturbed s (.move i .advance) := by
  have hthread := hok t (List.mem_of_getElem? ht)
  rw [settled_concat]
  constructor
  · rintro ⟨-, hentry⟩ i' t' event' rest' status' hlabel ht' hp' hreads'
    cases hlabel
    cases ht.symm.trans ht'
    cases hp.symm.trans hp'
    cases hreads.symm.trans hreads'
    refine ⟨fun other hother made hmade hfinal => ?_, fun hop hsaw => ?_⟩
    · obtain ⟨old, hold, hcurrent⟩ := exists_current "created"
        (List.mem_of_mem_drop hother) hmade
      have hnow := hsettled _ List.prefix_rfl old hold (hcurrent.symm ▸ hfinal)
      rw [hcurrent] at hnow
      rw [hentry status hreads (hnow.symm ▸ hfinal), hnow]
    · have hfinal : Final (replay (s.log.take t.mark)) := by
        rw [hsaw]
        rfl
      have hnow := hsettled _ List.prefix_rfl _ (List.take_prefix t.mark s.log) hfinal
      have hstatus := hentry status hreads (hnow.symm ▸ hfinal)
      rw [hthread.cancelled hop hp hreads] at hstatus
      exact absurd (hstatus.trans (hnow.trans hsaw)) (by decide)
  · intro h
    refine ⟨hsettled, fun v hv hfinal => ?_⟩
    obtain ⟨hothers, hcancel⟩ := h i t event rest v rfl ht hp hv
    rcases replay_since s.log t.mark with hsaw | ⟨other, hother, hmade⟩
    · exact (hthread.made hp hv hcancel (hsaw ▸ hfinal)).trans hsaw.symm
    · exact (hothers other hother _ hmade hfinal).symm

/-- **final statuses survive a step exactly when it is undisturbed** -/
theorem settled_step (hok : ThreadsOk s) (hsettled : Settled replayStatus "created" Final s.log)
    (hstep : s.step label = some s') :
    Settled replayStatus "created" Final s'.log ↔ Undisturbed s label := by
  by_cases hmakes : ∃ i t event rest status, label = .move i .advance ∧ s.threads[i]? = some t ∧
      t.program = .append event :: rest ∧ replayStatus event = some status
  · obtain ⟨i, t, event, rest, status, rfl, ht, hp, hreads⟩ := hmakes
    rw [step_append ht hp hstep]
    exact settled_made hok hsettled ht hp hreads
  · refine iff_of_true ?_ fun i t event rest status hlabel ht hp hreads =>
      absurd ⟨i, t, event, rest, status, hlabel, ht, hp, hreads⟩ hmakes
    have hunread : ∀ event, replayStatus event = none →
        Settled replayStatus "created" Final (s.log ++ [event]) := fun event h =>
      settled_concat.mpr ⟨hsettled, fun v hv => nomatch h.symm.trans hv⟩
    rcases step_cases hstep with hlog | ⟨event, h, hlog⟩ | ⟨i, t, event, rest, hlabel, ht, hp, hlog⟩
    · rw [hlog]
      exact hsettled
    · rw [hlog]
      exact hunread event h
    · rw [hlog]
      cases hreads : replayStatus event with
      | none => exact hunread event hreads
      | some status => exact absurd ⟨i, t, event, rest, status, hlabel, ht, hp, hreads⟩ hmakes

/-! ## runs -/

theorem allUndisturbed_iff (labels : List Label) : ∀ {s : State}, ThreadsOk s →
    Settled replayStatus "created" Final s.log →
      (AllUndisturbed s labels ↔ ∀ before s', before <+: labels → s.run before = some s' →
        Settled replayStatus "created" Final s'.log) := by
  induction labels with
  | nil =>
    intro s hok hsettled
    refine iff_of_true trivial fun before s' hbefore hrun => ?_
    rw [List.prefix_nil.mp hbefore] at hrun
    cases hrun
    exact hsettled
  | cons label labels ih =>
    intro s hok hsettled
    constructor
    · intro h before s' hbefore hrun
      rcases List.prefix_cons_iff.mp hbefore with rfl | ⟨before, rfl, hrest⟩
      · cases hrun
        exact hsettled
      · obtain ⟨s1, hstep, hrun⟩ := Option.bind_eq_some_iff.mp hrun
        obtain ⟨hund, hall⟩ := h s1 hstep
        exact (ih (hok.step hstep) ((settled_step hok hsettled hstep).mpr hund)).mp hall before s'
          hrest hrun
    · intro h s1 hstep
      have hsettled1 := h [label] s1 (List.prefix_append [label] labels)
        (by rw [State.run, hstep]; rfl)
      refine ⟨(settled_step hok hsettled hstep).mp hsettled1,
        (ih (hok.step hstep) hsettled1).mpr fun before s' hbefore hrun => ?_⟩
      refine h (label :: before) s' (List.cons_prefix_cons.mpr ⟨rfl, hbefore⟩) ?_
      rw [State.run, hstep]
      exact hrun

theorem run_through (labels : List Label) : ∀ {s s' : State} {log : List Event},
    s.run labels = some s' → s.log <+: log → log <+: s'.log →
      ∃ before after s1, labels = before ++ after ∧ s.run before = some s1 ∧
        s1.run after = some s' ∧ s1.log = log := by
  induction labels with
  | nil =>
    intro s s' log hrun hfrom hto
    cases hrun
    exact ⟨[], [], s, rfl, rfl, rfl, hfrom.eq_of_length_le hto.length_le⟩
  | cons label labels ih =>
    intro s s' log hrun hfrom hto
    obtain ⟨s1, hstep, hrest⟩ := Option.bind_eq_some_iff.mp hrun
    by_cases hlog : s1.log <+: log
    · obtain ⟨before, after, s2, rfl, hbefore, hafter, h2⟩ := ih hrest hlog hto
      refine ⟨label :: before, after, s2, rfl, ?_, hafter, h2⟩
      rw [State.run, hstep]
      exact hbefore
    · -- a step appends one event at most, so the log is the one before it
      refine ⟨[], label :: labels, s, rfl, rfl, hrun, hfrom.eq_of_length_le ?_⟩
      have hnext : s1.log.length ≤ s.log.length + 1 := by
        rcases step_cases hstep with h | ⟨event, -, h⟩ | ⟨i, t, event, rest, -, -, -, h⟩
        · rw [h]
          exact Nat.le_succ _
        · rw [h, List.length_append]
          rfl
        · rw [h, List.length_append]
          rfl
      have hshort : log.length < s1.log.length := by
        by_contra hle
        exact hlog (List.prefix_of_prefix_length_le (run_log labels hrest) hto (Nat.le_of_not_lt hle))
      omega

theorem statusFinal_iff_settled (labels : List Label) : StatusFinal labels ↔
    ∀ before s', before <+: labels → State.start.run before = some s' →
      Settled replayStatus "created" Final s'.log := by
  constructor
  · intro h before s' hbefore hrun later hlater old hold hfinal
    obtain ⟨before2, after2, s2, rfl, hrun2, -, rfl⟩ :=
      run_through before hrun List.nil_prefix hlater
    obtain ⟨before1, after1, s1, rfl, hrun1, hafter1, rfl⟩ :=
      run_through before2 hrun2 List.nil_prefix hold
    exact h before1 after1 s1 s2 ((List.prefix_append ..).trans hbefore) hrun1 hafter1 hfinal
  · intro h before after s s' hlabels hrun hafter hfinal
    refine h (before ++ after) s' hlabels ?_ s'.log List.prefix_rfl s.log (run_log after hafter) hfinal
    rw [run_append, hrun]
    exact hafter

/-- **statuses are final in exactly the runs whose steps are all undisturbed** -/
theorem status_final_iff (labels : List Label) :
    StatusFinal labels ↔ AllUndisturbed State.start labels :=
  (statusFinal_iff_settled labels).trans
    (allUndisturbed_iff labels threadsOk_start settled_nil).symm

/-- the job is started, and its worker is at work -/
def jobStarted : List Label := List.replicate 6 (.move 0 .advance)

/-- it is cancelled while the worker is at work -/
def jobCancelled : List Label := .call .cancelJob :: List.replicate 4 (.move 1 .advance)

/-- the worker completes the task -/
def jobCompletes : List Label := .move 0 (.act .complete) :: List.replicate 3 (.move 0 .advance)

/-- a worker that is not done when its job is cancelled makes it a completed job -/
theorem cancelled_job_completes : ¬ StatusFinal (jobStarted ++ jobCancelled ++ jobCompletes) := by
  intro h
  have hcancelled := h (jobStarted ++ jobCancelled) jobCompletes _ _ List.prefix_rfl rfl rfl
    (by decide)
  exact absurd hcancelled (by decide)

end Jobs

import SuperNova.Lib.Recorded

/-!
# The operations on a job

A job's status is read off its event log.  The operations are programs that append events; some look
at the status first, and those that start or go on with the task end in a worker, which takes turns
until one of its actions ends the task.  Any number of operations are under way at once, and their
steps come in any order.

* `replayStatus`, `replay`: what the log says about the status;
* `Op.program`, `Action.program`: what an operation, and an action of the worker, append;
* `State.step`: one step of one operation.
-/

namespace Jobs

/-! ## the log -/

/-- an event of a job: its type, and the status in its data if there is one -/
structure Event where
  eventType : String
  status : Option String
  deriving DecidableEq

/-- the status that `replay` takes from an event -/
def replayStatus (event : Event) : Option String :=
  match event.eventType with
  | "job_completed" => some "completed"
  | "job_blocked" => some "blocked"
  | "job_failed" => some "failed"
  | "job_interrupted_by_model_protocol_error" => some "interrupted"
  | "job_status_changed" => event.status
  | _ => none

/-- `replay`, the status alone -/
def replay (events : List Event) : String := Recorded.current replayStatus "created" events

def jobResumeIsTerminal (status : String) : Bool := status = "completed" ∨ status = "cancelled"

/-- an event without a status in its data -/
def event (eventType : String) : Event := ⟨eventType, none⟩

/-- the event of `update_job_status` -/
def statusChanged (status : String) : Event := ⟨"job_status_changed", some status⟩

/-! ## operations -/

inductive Instr where
  | append (event : Event)
  /-- any number of events that `replay` does not read -/
  | notes
  /-- replays the log, and returns if the status is one of these -/
  | check (returns : String → Bool)
  /-- the turns of the worker -/
  | work

inductive Op where
  | createJob
  | resumeJob
  | approvePreview
  | submitUserInput
  | submitUserInputForApproval (providerToolResultRecorded : Bool)
  | cancelJob
  deriving DecidableEq

def runTaskAgent : List Instr := [.append (event "capability_token_issued"), .work]

/-- `resume_job_with_max_turns` -/
def resumeJob : List Instr :=
  [.check jobResumeIsTerminal, .append (event "job_resumed"), .append (statusChanged "running"),
    .notes] ++ runTaskAgent

/-- `submit_user_input_with_max_turns` -/
def submitUserInput : List Instr :=
  [.check jobResumeIsTerminal, .append (event "user_input_received"), .notes] ++ resumeJob

def Op.program : Op → List Instr
  | .createJob =>
    [.append ⟨"job_created", some "created"⟩, .append (statusChanged "running"),
      .append (event "process_started"), .append (event "task_agent_runtime_started"), .notes] ++
      runTaskAgent
  | .resumeJob => Jobs.resumeJob
  | .approvePreview =>
    [.check (· ≠ "waiting_approval"), .append (event "user_approval_received"), .notes,
      .append (event "job_resume_approval_token_ready")] ++ Jobs.resumeJob
  | .submitUserInput => Jobs.submitUserInput
  | .submitUserInputForApproval recorded =>
    [.check jobResumeIsTerminal, .notes] ++
      if recorded then .append (event "user_input_received") :: Jobs.resumeJob
      else Jobs.submitUserInput
  | .cancelJob =>
    [.append (event "user_cancel_requested"), .notes, .append (statusChanged "cancelled"),
      .append ⟨"job_cancelled", some "cancelled"⟩]

/-! ## the worker -/

/-- the actions of the worker that change the status -/
inductive Action where
  | complete
  | fail
  | block
  | interrupt
  | clarify
  | requestApproval
  deriving DecidableEq

/-- the status of the job, and the events that tell of it -/
def Action.events : Action → List Event
  | .complete =>
    [event "completion_statement_recorded", statusChanged "completed",
      ⟨"job_completed", some "completed"⟩, ⟨"task_agent_session_completed", some "completed"⟩]
  | .fail => [statusChanged "failed", event "job_failed", event "task_agent_session_failed"]
  | .block => [statusChanged "blocked", event "job_blocked", event "task_agent_session_blocked"]
  | .interrupt =>
    [statusChanged "interrupted",
      ⟨"job_interrupted_by_model_protocol_error", some "interrupted"⟩,
      ⟨"task_agent_session_interrupted", some "interrupted"⟩]
  | .clarify => [statusChanged "waiting_user", event "job_waiting_user"]
  | .requestApproval => [statusChanged "waiting_approval"]

def Action.program (action : Action) : List Instr :=
  .notes :: action.events.map .append ++ [.notes]

/-! ## steps -/

/-- an operation under way: how long the log was when it began or last looked at the status, whether
its worker has acted, and what it has still to do -/
structure Thread where
  op : Op
  mark : Nat
  acted : Bool
  program : List Instr

inductive Move where
  /-- the next instruction -/
  | advance
  /-- an event that `replay` does not read, where any number may be appended -/
  | note (event : Event)
  /-- an action of the worker -/
  | act (action : Action)
  /-- an error in an action, which the worker survives -/
  | recover
  /-- the end, by an error or after the last turn -/
  | stop

/-- the events that a move appends, and what is left to do -/
def Thread.move (t : Thread) (log : List Event) : Move → Option (List Event × Thread)
  | .advance =>
    match t.program with
    | .append event :: rest => some ([event], { t with program := rest })
    | .notes :: rest => some ([], { t with program := rest })
    | .check returns :: rest =>
      if returns (replay log) then some ([], { t with program := [] })
      else some ([], { t with mark := log.length, program := rest })
    | _ => none
  | .note event =>
    match t.program with
    | .notes :: _ | .work :: _ => if replayStatus event = none then some ([event], t) else none
    | _ => none
  | .act action =>
    match t.program with
    | .work :: _ => some ([], { t with acted := true, program := action.program })
    | _ => none
  | .recover => if t.acted then some ([], { t with program := [.work] }) else none
  | .stop => some ([], { t with program := [] })

structure State where
  log : List Event
  threads : List Thread

inductive Label where
  | call (op : Op)
  | move (i : Nat) (m : Move)

/-- an operation that begins now -/
def Op.thread (op : Op) (log : List Event) : Thread := ⟨op, log.length, false, op.program⟩

/-- a job is created once, before everything else -/
def State.start : State := ⟨[], [Op.createJob.thread []]⟩

def State.step (s : State) : Label → Option State
  | .call op =>
    if op = .createJob then none else some { s with threads := s.threads ++ [op.thread s.log] }
  | .move i m =>
    (s.threads[i]?).bind fun t =>
      (t.move s.log m).map fun (events, t') => ⟨s.log ++ events, s.threads.set i t'⟩

def State.run (s : State) : List Label → Option State
  | [] => some s
  | label :: labels => (s.step label).bind fun s' => s'.run labels

/-! ## what a step does -/

/-- the ways to move -/
inductive Moved (log : List Event) (t : Thread) : Move → List Event → Thread → Prop where
  | append (event : Event) (rest : List Instr) (program : t.program = .append event :: rest) :
      Moved log t .advance [event] { t with program := rest }
  | skip (rest : List Instr) (program : t.program = .notes :: rest) :
      Moved log t .advance [] { t with program := rest }
  | returned : Moved log t .advance [] { t with program := [] }
  | checked (returns : String → Bool) (rest : List Instr)
      (program : t.program = .check returns :: rest) (goesOn : ¬ returns (replay log)) :
      Moved log t .advance [] { t with mark := log.length, program := rest }
  | noted (event : Event) (unread : replayStatus event = none) : Moved log t (.note event) [event] t
  | acted (action : Action) (rest : List Instr) (program : t.program = .work :: rest) :
      Moved log t (.act action) [] { t with acted := true, program := action.program }
  | recovered (acted : t.acted) : Moved log t .recover [] { t with program := [.work] }
  | stopped : Moved log t .stop [] { t with program := [] }

variable {s s' : State} {t t' : Thread} {log events : List Event} {m : Move} {label : Label}

theorem moved_of_move (h : t.move log m = some (events, t')) : Moved log t m events t' := by
  unfold Thread.move at h
  cases m with
  | advance =>
    dsimp only at h
    split at h
    next event rest program =>
      cases h
      exact .append event rest program
    next rest program =>
      cases h
      exact .skip rest program
    next returns rest program =>
      split at h
      · cases h
        exact .returned
      · cases h
        exact .checked returns rest program ‹_›
    next => cases h
  | note event =>
    have hnote : replayStatus event = none ∧ events = [event] ∧ t' = t := by
      dsimp only at h
      split at h
      all_goals try split at h
      all_goals cases h
      all_goals exact ⟨‹_›, rfl, rfl⟩
    rw [hnote.2.1, hnote.2.2]
    exact .noted event hnote.1
  | act action =>
    dsimp only at h
    split at h
    next rest program =>
      cases h
      exact .acted action rest program
    next => cases h
  | recover =>
    dsimp only at h
    split at h
    · cases h
      exact .recovered ‹_›
    · cases h
  | stop =>
    cases h
    exact .stopped

theorem step_move {i : Nat} (h : s.step (.move i m) = some s') : ∃ t events t',
    s.threads[i]? = some t ∧ Moved s.log t m events t' ∧
      s' = ⟨s.log ++ events, s.threads.set i t'⟩ := by
  obtain ⟨t, ht, hmove⟩ := Option.bind_eq_some_iff.mp h
  obtain ⟨⟨events, t'⟩, hmove, hs'⟩ := Option.map_eq_some_iff.mp hmove
  exact ⟨t, events, t', ht, moved_of_move hmove, hs'.symm⟩

theorem step_call {op : Op} (h : s.step (.call op) = some s') :
    op ≠ .createJob ∧ s' = { s with threads := s.threads ++ [op.thread s.log] } := by
  unfold State.step at h
  dsimp only at h
  split at h
  · cases h
  · cases h
    exact ⟨‹_›, rfl⟩

theorem step_cases (h : s.step label = some s') :
    s'.log = s.log ∨ (∃ event, replayStatus event = none ∧ s'.log = s.log ++ [event]) ∨
      ∃ i t event rest, label = .move i .advance ∧ s.threads[i]? = some t ∧
        t.program = .append event :: rest ∧ s'.log = s.log ++ [event] := by
  cases label with
  | call op =>
    rw [(step_call h).2]
    exact Or.inl rfl
  | move i m =>
    obtain ⟨t, events, t', ht, hmoved, rfl⟩ := step_move h
    cases hmoved with
    | append event rest program =>
      exact Or.inr (Or.inr ⟨i, t, event, rest, rfl, ht, program, rfl⟩)
    | noted event unread => exact Or.inr (Or.inl ⟨event, unread, rfl⟩)
    | skip | returned | checked | acted | recovered | stopped => exact Or.inl (List.append_nil _)

theorem step_log (h : s.step label = some s') : s.log <+: s'.log := by
  rcases step_cases h with h | ⟨event, -, h⟩ | ⟨i, t, event, rest, -, -, -, h⟩
  · exact h ▸ List.prefix_rfl
  · exact h ▸ List.prefix_append ..
  · exact h ▸ List.prefix_append ..

theorem run_log (labels : List Label) : ∀ {s s' : State}, s.run labels = some s' →
    s.log <+: s'.log := by
  induction labels with
  | nil =>
    intro s s' h
    cases h
    exact List.prefix_rfl
  | cons label labels ih =>
    intro s s' h
    obtain ⟨s1, h1, h2⟩ := Option.bind_eq_some_iff.mp h
    exact (step_log h1).trans (ih h2)

theorem run_append (before after : List Label) : ∀ s : State,
    s.run (before ++ after) = (s.run before).bind fun s' => s'.run after := by
  induction before with
  | nil => exact fun s => rfl
  | cons label before ih =>
    intro s
    rw [List.cons_append, State.run, State.run, Option.bind_assoc]
    exact congrArg _ (funext ih)

end Jobs

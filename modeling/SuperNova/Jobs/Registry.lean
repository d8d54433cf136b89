import SuperNova.Jobs.Lifecycle

/-!
# The registry row of a job

The store of a job has a row for the job beside its event log, and both tell its status.  The row is
written by its own statements, and none of them is in one transaction with the event; an operation may
stop between two of them.

* `StoreOp.writes`: the statements of an operation;
* `Agrees`: the row tells what the log replays to;
* `agrees_step_iff`: when one operation keeps this;
* `row_agrees_iff` (**main**): when every state of a run has it, and what brings it back;
* `row_disagrees`: an update that stops, and an event that no update comes with.
-/

set_option linter.unusedSectionVars false

namespace Jobs

/-! ## the store -/

def jobStatuses : List String :=
  ["created", "running", "waiting_user", "waiting_approval", "blocked", "failed", "interrupted",
    "completed", "cancelled"]

/-- the rows of one job, by their status or state, and its log -/
structure Store where
  job : Option String
  processes : List String
  runtimes : List String
  events : List Event

def Store.empty : Store := ⟨none, [], [], []⟩

inductive Write where
  | insertJob (status : String)
  | insertProcess (state : String)
  | insertRuntime (state : String)
  | updateJobs (status : String)
  | updateProcesses (status : String)
  | updateRuntimes (status : String)
  | insertEvent (event : Event)

/-- an update changes the rows that are there -/
def Store.write (s : Store) : Write → Store
  | .insertJob status => { s with job := some status }
  | .insertProcess state => { s with processes := s.processes ++ [state] }
  | .insertRuntime state => { s with runtimes := s.runtimes ++ [state] }
  | .updateJobs status => { s with job := s.job.map fun _ => status }
  | .updateProcesses status => { s with processes := s.processes.map fun _ => status }
  | .updateRuntimes status => { s with runtimes := s.runtimes.map fun _ => status }
  | .insertEvent event => { s with events := s.events ++ [event] }

inductive StoreOp where
  | registerJob (status : String)
  | registerProcess (state : String)
  | registerTaskAgentRuntime (state : String)
  | appendEvent (event : Event)
  | updateJobStatus (status : String)

/-- the statements of an operation; an invalid status is refused before the first -/
def StoreOp.writes : StoreOp → List Write
  | .registerJob status => if status ∈ jobStatuses then [.insertJob status] else []
  | .registerProcess state => [.insertProcess state]
  | .registerTaskAgentRuntime state => [.insertRuntime state]
  | .appendEvent event => [.insertEvent event]
  | .updateJobStatus status =>
    if status ∈ jobStatuses then
      [.updateJobs status, .updateProcesses status, .updateRuntimes status,
        .insertEvent (statusChanged status)]
    else []

/-- an operation, and after how many statements it stops, if it does -/
structure StoreMove where
  op : StoreOp
  stop : Option Nat

def StoreMove.writes (m : StoreMove) : List Write := m.stop.elim m.op.writes m.op.writes.take

def Store.step (s : Store) (m : StoreMove) : Store := m.writes.foldl Store.write s

def Store.run (s : Store) (moves : List StoreMove) : Store := moves.foldl Store.step s

/-- `create_agent_job` on the store of a new job -/
def createAgentJob : List StoreOp :=
  [.registerJob "created", .appendEvent ⟨"job_created", some "created"⟩, .updateJobStatus "running",
    .registerProcess "running", .registerTaskAgentRuntime "running",
    .appendEvent (event "process_started"), .appendEvent (event "task_agent_runtime_started")]

/-! ## agreement -/

/-- the row tells what the log replays to -/
def Agrees (s : Store) : Prop := ∀ status, s.job = some status → status = replay s.events

/-- the operation leaves row and log alone, or brings both to one status: an update is whole, and what is
registered or recorded without one is the status that is there -/
def StoreMove.Faithful (s : Store) (m : StoreMove) : Prop :=
  m.stop = some 0 ∨
    match m.op with
    | .registerJob status => status ∉ jobStatuses ∨ status = replay s.events
    | .registerProcess _ => True
    | .registerTaskAgentRuntime _ => True
    | .appendEvent event => s.job = none ∨ replayStatus event = none ∨ replayStatus event = s.job
    | .updateJobStatus status =>
      status ∉ jobStatuses ∨ s.job = none ∨ status = replay s.events ∨ m.stop.all (4 ≤ ·)

/-- every operation of the run, in the state that it starts from -/
def AllFaithful (s : Store) : List StoreMove → Prop
  | [] => True
  | m :: moves => m.Faithful s ∧ AllFaithful (s.step m) moves

section
variable {s : Store} {m : StoreMove} {status : String} {entry : Event} {stop : Option Nat}

theorem agrees_of_none (h : s.job = none) : Agrees s := by
  intro status hstatus
  rw [h] at hstatus
  cases hstatus

theorem agrees_of_some (h : s.job = some status) : Agrees s ↔ status = replay s.events := by
  constructor
  · exact fun hagrees => hagrees status h
  · intro hreplay status' h'
    rw [h] at h'
    cases h'
    exact hreplay

theorem step_of_zero (h : m.stop = some 0) : s.step m = s := by
  rw [Store.step, StoreMove.writes, h]
  rfl

theorem step_of_refused (h : m.op.writes = []) : s.step m = s := by
  have hnone : m.writes = [] := by
    rw [StoreMove.writes, h]
    cases m.stop with
    | none => rfl
    | some n => exact List.take_nil
  rw [Store.step, hnone]
  rfl

theorem step_of_one {w : Write} (h : m.stop ≠ some 0) (hwrites : m.op.writes = [w]) :
    s.step m = s.write w := by
  have htake : m.writes = [w] := by
    rw [StoreMove.writes, hwrites]
    cases hstop : m.stop with
    | none => rfl
    | some n =>
      cases n with
      | zero => exact absurd hstop h
      | succ n => exact List.take_of_length_le (Nat.succ_le_succ n.zero_le)
  rw [Store.step, htake]
  rfl

theorem replay_concat (log : List Event) (entry : Event) :
    replay (log ++ [entry]) = (replayStatus entry).getD (replay log) := Recorded.current_concat log entry

theorem agrees_append_iff (h : Agrees s) : Agrees (s.write (.insertEvent entry)) ↔
    s.job = none ∨ replayStatus entry = none ∨ replayStatus entry = s.job := by
  cases hjob : s.job with
  | none => exact iff_of_true (agrees_of_none hjob) (Or.inl rfl)
  | some status =>
    have hstatus : status = replay s.events := h status hjob
    have hafter : (s.write (.insertEvent entry)).job = some status := hjob
    have hevents : replay (s.write (.insertEvent entry)).events =
        (replayStatus entry).getD (replay s.events) := replay_concat s.events entry
    rw [agrees_of_some hafter, hevents]
    cases hreads : replayStatus entry with
    | none => simp [hstatus]
    | some recorded => simp [eq_comm]

theorem step_update (hvalid : status ∈ jobStatuses) (hstop : stop ≠ some 0) :
    (s.step ⟨.updateJobStatus status, stop⟩).job = s.job.map (fun _ => status) ∧
      (s.step ⟨.updateJobStatus status, stop⟩).events =
        if stop.all (4 ≤ ·) then s.events ++ [statusChanged status] else s.events := by
  have hwrites : (StoreOp.updateJobStatus status).writes = [.updateJobs status,
      .updateProcesses status, .updateRuntimes status, .insertEvent (statusChanged status)] :=
    if_pos hvalid
  rw [Store.step, StoreMove.writes]
  dsimp only
  rw [hwrites]
  match stop with
  | none => exact ⟨rfl, rfl⟩
  | some 0 => exact absurd rfl hstop
  | some 1 => exact ⟨rfl, rfl⟩
  | some 2 => exact ⟨rfl, rfl⟩
  | some 3 => exact ⟨rfl, rfl⟩
  | some (n + 4) =>
    have hall : (some (n + 4)).all (4 ≤ ·) = true := by simp
    rw [if_pos hall, Option.elim_some, List.take_of_length_le (by simp)]
    exact ⟨rfl, rfl⟩

theorem agrees_update_iff (hvalid : status ∈ jobStatuses) (hstop : stop ≠ some 0) :
    Agrees (s.step ⟨.updateJobStatus status, stop⟩) ↔
      s.job = none ∨ status = replay s.events ∨ stop.all (4 ≤ ·) = true := by
  obtain ⟨hrow, hlog⟩ := step_update (s := s) hvalid hstop
  cases hjob : s.job with
  | none =>
    rw [hjob] at hrow
    exact iff_of_true (agrees_of_none hrow) (Or.inl rfl)
  | some old =>
    rw [hjob] at hrow
    rw [agrees_of_some hrow, hlog]
    by_cases hwhole : stop.all (4 ≤ ·) = true
    · rw [if_pos hwhole, replay_concat]
      exact iff_of_true rfl (Or.inr (Or.inr hwhole))
    · rw [if_neg hwhole]
      simp [hwhole]

/-- **an operation keeps the agreement exactly when it is faithful** -/
theorem agrees_step_iff (h : Agrees s) : Agrees (s.step m) ↔ m.Faithful s := by
  obtain ⟨op, stop⟩ := m
  by_cases hstop : stop = some 0
  · rw [step_of_zero hstop]
    exact iff_of_true h (Or.inl hstop)
  have hskip {P : Prop} : (stop = some 0 ∨ P) ↔ P := or_iff_right hstop
  cases op with
  | registerJob status =>
    by_cases hvalid : status ∈ jobStatuses
    · have hstep : s.step ⟨.registerJob status, stop⟩ = s.write (.insertJob status) :=
        step_of_one hstop (if_pos hvalid)
      rw [hstep, agrees_of_some rfl]
      show _ ↔ stop = some 0 ∨ status ∉ jobStatuses ∨ status = replay s.events
      rw [hskip, or_iff_right (not_not.mpr hvalid)]
      rfl
    · have hstep : s.step ⟨.registerJob status, stop⟩ = s := step_of_refused (if_neg hvalid)
      rw [hstep]
      exact iff_of_true h (Or.inr (Or.inl hvalid))
  | registerProcess state =>
    have hstep : s.step ⟨.registerProcess state, stop⟩ = s.write (.insertProcess state) :=
      step_of_one hstop rfl
    rw [hstep]
    exact iff_of_true h (Or.inr trivial)
  | registerTaskAgentRuntime state =>
    have hstep : s.step ⟨.registerTaskAgentRuntime state, stop⟩ = s.write (.insertRuntime state) :=
      step_of_one hstop rfl
    rw [hstep]
    exact iff_of_true h (Or.inr trivial)
  | appendEvent entry =>
    have hstep : s.step ⟨.appendEvent entry, stop⟩ = s.write (.insertEvent entry) :=
      step_of_one hstop rfl
    rw [hstep, agrees_append_iff h]
    exact hskip.symm
  | updateJobStatus status =>
    by_cases hvalid : status ∈ jobStatuses
    · rw [agrees_update_iff hvalid hstop]
      show _ ↔ stop = some 0 ∨ status ∉ jobStatuses ∨ s.job = none ∨ status = replay s.events ∨
        stop.all (4 ≤ ·) = true
      rw [hskip, or_iff_right (not_not.mpr hvalid)]
    · have hstep : s.step ⟨.updateJobStatus status, stop⟩ = s := step_of_refused (if_neg hvalid)
      rw [hstep]
      exact iff_of_true h (Or.inr (Or.inl hvalid))

theorem all_agree_iff (moves : List StoreMove) : ∀ {s : Store}, Agrees s →
    ((∀ before, before <+: moves → Agrees (s.run before)) ↔ AllFaithful s moves) := by
  induction moves with
  | nil =>
    intro s h
    refine iff_of_true (fun before hbefore => ?_) trivial
    rw [List.prefix_nil.mp hbefore]
    exact h
  | cons m moves ih =>
    intro s h
    constructor
    · intro hall
      have hone : Agrees (s.step m) := hall [m] (List.prefix_append [m] moves)
      refine ⟨(agrees_step_iff h).mp hone, (ih hone).mp fun before hbefore => ?_⟩
      exact hall (m :: before) (List.cons_prefix_cons.mpr ⟨rfl, hbefore⟩)
    · rintro ⟨hfaithful, hrest⟩ before hbefore
      cases before with
      | nil => exact h
      | cons m' before =>
        obtain ⟨rfl, hbefore'⟩ := List.cons_prefix_cons.mp hbefore
        exact (ih ((agrees_step_iff h).mpr hfaithful)).mpr hrest before hbefore'

/-- **row and log agree in every state of a run exactly when every operation is faithful in the state it
starts from; and whatever came before, an update that is whole leaves both at its status** -/
theorem row_agrees_iff (moves : List StoreMove) :
    ((∀ before, before <+: moves → Agrees (Store.empty.run before)) ↔ AllFaithful Store.empty moves) ∧
      ∀ status ∈ jobStatuses,
        ((Store.empty.run moves).step ⟨.updateJobStatus status, none⟩).job =
            (Store.empty.run moves).job.map (fun _ => status) ∧
          replay ((Store.empty.run moves).step ⟨.updateJobStatus status, none⟩).events = status := by
  refine ⟨all_agree_iff moves (agrees_of_none rfl), fun status hvalid => ?_⟩
  have hstop : (none : Option ℕ) ≠ some 0 := nofun
  obtain ⟨hrow, hlog⟩ := @step_update (Store.empty.run moves) status none hvalid hstop
  refine ⟨hrow, ?_⟩
  rw [hlog]
  exact replay_concat _ _

theorem createAgentJob_faithful : AllFaithful Store.empty (createAgentJob.map fun op => ⟨op, none⟩) := by
  refine ⟨Or.inr (Or.inr rfl), Or.inr (Or.inr (Or.inl rfl)), ?_, Or.inr trivial, Or.inr trivial,
    Or.inr (Or.inr (Or.inl rfl)), Or.inr (Or.inr (Or.inl rfl)), trivial⟩
  exact Or.inr (Or.inr (Or.inr (Or.inr rfl)))

end

/-! ## two runs -/

/-- of a new job, the first update stops after the row; and of one that runs, its completion is recorded
by the event alone -/
theorem row_disagrees :
    (∃ s, Store.empty.run [⟨.registerJob "created", none⟩, ⟨.updateJobStatus "running", some 1⟩] = s ∧
      s.job = some "running" ∧ replay s.events = "created" ∧ ¬ Agrees s) ∧
    ∃ s, Store.empty.run ((createAgentJob.map fun op => ⟨op, none⟩) ++
        [⟨.appendEvent (event "job_completed"), none⟩]) = s ∧
      s.job = some "running" ∧ replay s.events = "completed" ∧ ¬ Agrees s := by
  refine ⟨⟨_, rfl, rfl, rfl, fun h => ?_⟩, ⟨_, rfl, rfl, rfl, fun h => ?_⟩⟩
  · exact absurd (h "running" rfl) (by decide)
  · exact absurd (h "running" rfl) (by decide)

end Jobs

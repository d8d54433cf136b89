import Mathlib.Data.List.Infix
import Mathlib.Tactic.Common

/-!
# Runs of the product

The row of a run is written by three parties: the service that starts the run and reports its end, the
command of the worker that runs in between, and whoever requests its cancellation.  Each statement is
atomic, and they come in any order that the two programs allow.

* `RunRow.requestCancel`, `RunRow.updateRunStatus`: the statements;
* `State.step`, `State.run`: one step of a party, and a run of them;
* `Honoured`: a requested cancellation is the end of a run, and an end is final;
* `honoured_run` (**main**): so it is in every run in which no other status is written while a
  cancellation is requested;
* `cancelled_run_fails`: a cancelled turn of a chat ends as failed.
-/

namespace Runs

/-! ## statements -/

/-- the columns of `run_registry` that tell of the end of a run -/
structure RunRow where
  status : String
  cancelRequested : Bool
  errorMessage : Option String
  deriving DecidableEq

/-- a row of `insert_run` -/
def RunRow.new : RunRow := ⟨"queued", false, none⟩

/-- the statuses that a request to cancel leaves alone -/
def terminalStatuses : List String := ["completed", "failed", "blocked", "cancelled"]

/-- `update_run_status`; it looks at nothing -/
def RunRow.updateRunStatus (row : RunRow) (status : String) (errorMessage : Option String) : RunRow :=
  { row with status := status, errorMessage := errorMessage }

def RunRow.requestCancel (row : RunRow) : RunRow :=
  if row.status ∈ terminalStatuses then row
  else { row with status := "cancel_requested", cancelRequested := true }

def runTerminalStatus (status : String) : String :=
  match status with
  | "completed" => "completed"
  | "cancelled" => "cancelled"
  | "canceled" => "cancelled"
  | "blocked" => "blocked"
  | "waiting_approval" => status
  | "waiting_user" => status
  | "running" => status
  | _ => "failed"

/-! ## the parties -/

/-- who started the run -/
inductive Service where
  | chat
  | task
  | probe
  deriving DecidableEq

/-- the status that the service reports after a result; the one of a task is read off its log -/
def Service.reports (service : Service) (status : String) : Bool :=
  match service with
  | .chat => ["cancelled", "completed", "failed"].contains status
  | .task => true
  | .probe => status == "completed"

/-- how the worker of `run_worker_command` ended -/
inductive WorkerEnd where
  /-- a terminal event -/
  | terminal
  /-- its exit, and the message for a failure -/
  | exited (success : Bool) (message : String)
  deriving DecidableEq

/-- what is returned to the service: a result, or an error with its text -/
inductive Result where
  | ok
  | error (message : String)
  deriving DecidableEq

inductive Phase where
  | queued
  | working
  /-- the worker has ended -/
  | ended (how : WorkerEnd)
  /-- the row was read again -/
  | read (how : WorkerEnd) (cancelRequested : Bool)
  | returned (result : Result)
  /-- the service is through with the run -/
  | finished
  deriving DecidableEq

structure State where
  runId : String
  service : Service
  row : RunRow
  phase : Phase
  deriving DecidableEq

def State.start (runId : String) (service : Service) : State := ⟨runId, service, .new, .queued⟩

inductive Move where
  | markRunning
  /-- the loop over the lines of the worker is left -/
  | workerEnds (how : WorkerEnd)
  /-- the kernel of this process returns, or the command of the worker returns early -/
  | returns (result : Result)
  /-- `get_run`, after the worker has ended -/
  | readRun
  /-- what the command of the worker writes and returns then; the event of what it writes may fail -/
  | settle (eventError : Option String)
  /-- a statement of the command fails -/
  | fails (message : String)
  /-- the service writes the end of the run -/
  | report (status : String)
  /-- the service returns an error before it does -/
  | giveUp
  | requestCancel
  deriving DecidableEq

/-- the status that a step of the worker's command or of the service writes at the end, with its error
message -/
def State.writes (s : State) : Move → Option (String × Option String)
  | .settle _ =>
    match s.phase with
    | .read _ true => some ("cancelled", none)
    | .read (.exited false message) false => some ("failed", some message)
    | _ => none
  | .report status =>
    match s.phase with
    | .returned .ok => some (runTerminalStatus status, none)
    | .returned (.error message) =>
      if s.service = .probe then none else some ("failed", some message)
    | _ => none
  | _ => none

/-- what the command of the worker returns, from what it has read -/
def settled (runId : String) : WorkerEnd → Bool → Result
  | .terminal, true =>
    .error ("worker " ++ runId ++ " completed after cancellation was requested")
  | .terminal, false => .ok
  | .exited true _, true =>
    .error ("worker " ++ runId ++ " completed after cancellation was requested")
  | .exited true _, false => .error "worker exited successfully without a terminal event"
  | .exited false _, true => .error ("worker " ++ runId ++ " was cancelled")
  | .exited false message, false => .error message

/-- where a step leads, if it can be taken -/
def State.next (s : State) : Move → Option Phase
  | .markRunning => if s.phase = .queued then some .working else none
  | .workerEnds how => if s.phase = .working then some (.ended how) else none
  | .returns result => if s.phase = .working then some (.returned result) else none
  | .readRun =>
    match s.phase with
    | .ended how => some (.read how s.row.cancelRequested)
    | _ => none
  | .settle eventError =>
    match s.phase with
    | .read how cancelRequested =>
      match s.writes (.settle eventError), eventError with
      | some _, some message => some (.returned (.error message))
      | _, _ => some (.returned (settled s.runId how cancelRequested))
    | _ => none
  | .fails message =>
    match s.phase with
    | .ended _ => some (.returned (.error message))
    | .read _ _ => some (.returned (.error message))
    | _ => none
  | .report status =>
    match s.phase with
    | .returned .ok => if s.service.reports status then some .finished else none
    | .returned (.error _) => some .finished
    | _ => none
  | .giveUp =>
    match s.phase with
    | .queued => some .finished
    | .working => some .finished
    | .returned _ => some .finished
    | _ => none
  | .requestCancel => some s.phase

def State.rowAfter (s : State) (m : Move) : RunRow :=
  match m with
  | .markRunning => s.row.updateRunStatus "running" none
  | .requestCancel => s.row.requestCancel
  | _ => (s.writes m).elim s.row fun w => s.row.updateRunStatus w.1 w.2

def State.step (s : State) (m : Move) : Option State :=
  (s.next m).map fun phase => { s with row := s.rowAfter m, phase := phase }

def State.run (s : State) : List Move → Option State
  | [] => some s
  | m :: moves => (s.step m).bind fun s' => s'.run moves

/-! ## what is promised -/

/-- the run is over, for good -/
def RunRow.Terminal (row : RunRow) : Prop := row.status ∈ terminalStatuses

/-- a cancellation that was requested in time is the end, and an end that was reached stays -/
structure Honoured (runId : String) (service : Service) (moves : List Move) (s : State) : Prop where
  cancelled : s.phase = .finished → s.row.cancelRequested = true → s.row.status = "cancelled"
  final : ∀ before, before <+: moves → ∀ s0, (State.start runId service).run before = some s0 →
    s0.row.Terminal → s.row.status = s0.row.status

/-- a step does not go against a cancellation: while one is requested, the worker's command is not about
to write a failure over it, the service reports nothing else, and it is not through before the end is
written; and none is requested of a run that was left without an end -/
def Move.Heeds (s : State) : Move → Prop
  | .settle _ =>
    s.row.cancelRequested = true → ∀ message, s.phase ≠ .read (.exited false message) false
  | .report status =>
    s.row.cancelRequested = true →
      (s.phase = .returned .ok → status = "cancelled" ∨ status = "canceled") ∧
      (s.phase ≠ .returned .ok → s.service = .probe ∧ s.row.status = "cancelled")
  | .giveUp => s.row.cancelRequested = true → s.row.status = "cancelled"
  | .requestCancel => s.phase = .finished → s.row.Terminal
  | _ => True

/-- every step of a run, in the state that it starts from -/
def AllHeed (s : State) : List Move → Prop
  | [] => True
  | m :: moves => m.Heeds s ∧ ∀ s', s.step m = some s' → AllHeed s' moves

/-! ## what a phase says of the row -/

/-- what the row can be in each phase -/
def State.Settled (s : State) : Prop :=
  match s.phase with
  | .queued => ¬ s.row.Terminal
  | .working => ¬ s.row.Terminal
  | .ended _ => ¬ s.row.Terminal
  | .read _ cancelRequested =>
    ¬ s.row.Terminal ∧ (cancelRequested = true → s.row.cancelRequested = true)
  | .returned .ok => ¬ s.row.Terminal
  | .returned (.error _) =>
    ¬ s.row.Terminal ∨ s.row.status = "failed" ∧ s.row.cancelRequested = false ∨
      s.row.status = "cancelled" ∧ s.row.cancelRequested = true
  | .finished => s.row.cancelRequested = true → s.row.status = "cancelled"

theorem start_settled (runId : String) (service : Service) : (State.start runId service).Settled := by
  show ¬ RunRow.new.Terminal
  simp [RunRow.Terminal, RunRow.new, terminalStatuses]

theorem RunRow.requestCancel_of_terminal {row : RunRow} (h : row.Terminal) : row.requestCancel = row :=
  if_pos h

theorem RunRow.requestCancel_of_open {row : RunRow} (h : ¬ row.Terminal) :
    ¬ row.requestCancel.Terminal ∧ row.requestCancel.cancelRequested = true := by
  have hrow : row.requestCancel = { row with status := "cancel_requested", cancelRequested := true } :=
    if_neg h
  rw [hrow]
  exact ⟨by simp [RunRow.Terminal, terminalStatuses], rfl⟩

theorem step_eq_some {s s' : State} {m : Move} (h : s.step m = some s') :
    ∃ phase, s.next m = some phase ∧ s' = { s with row := s.rowAfter m, phase := phase } := by
  obtain ⟨phase, hnext, rfl⟩ := Option.map_eq_some_iff.mp h
  exact ⟨phase, hnext, rfl⟩

/-! ## one step -/

/-- a step keeps what the phase says, and an end that was reached -/
structure State.Kept (s s' : State) : Prop where
  settled : s'.Settled
  final : s.row.Terminal → s'.row.status = s.row.status

theorem kept_of_row_eq {s : State} {phase : Phase} (h : State.Settled { s with phase := phase }) :
    s.Kept { s with row := s.row, phase := phase } :=
  ⟨h, fun _ => rfl⟩

theorem kept_of_open {s s' : State} (hopen : ¬ s.row.Terminal) (h : s'.Settled) : s.Kept s' :=
  ⟨h, fun hterminal => absurd hterminal hopen⟩

theorem markRunning_kept {s s' : State} (hs : s.Settled) (h : s.step .markRunning = some s') :
    s.Kept s' := by
  obtain ⟨phase, hnext, rfl⟩ := step_eq_some h
  simp only [State.next] at hnext
  split at hnext
  · rename_i hqueued
    cases hnext
    have hopen : ¬ s.row.Terminal := by simpa only [State.Settled, hqueued] using hs
    refine kept_of_open hopen ?_
    show ¬ RunRow.Terminal (s.row.updateRunStatus "running" none)
    simp [RunRow.Terminal, RunRow.updateRunStatus, terminalStatuses]
  · cases hnext

theorem workerEnds_kept {s s' : State} {how : WorkerEnd} (hs : s.Settled)
    (h : s.step (.workerEnds how) = some s') : s.Kept s' := by
  obtain ⟨phase, hnext, rfl⟩ := step_eq_some h
  simp only [State.next] at hnext
  split at hnext
  · rename_i hworking
    cases hnext
    have hopen : ¬ s.row.Terminal := by simpa only [State.Settled, hworking] using hs
    exact kept_of_row_eq hopen
  · cases hnext

theorem returns_kept {s s' : State} {result : Result} (hs : s.Settled)
    (h : s.step (.returns result) = some s') : s.Kept s' := by
  obtain ⟨phase, hnext, rfl⟩ := step_eq_some h
  simp only [State.next] at hnext
  split at hnext
  · rename_i hworking
    cases hnext
    have hopen : ¬ s.row.Terminal := by simpa only [State.Settled, hworking] using hs
    cases result with
    | ok => exact kept_of_row_eq hopen
    | error message => exact kept_of_row_eq (.inl hopen)
  · cases hnext

theorem readRun_kept {s s' : State} (hs : s.Settled) (h : s.step .readRun = some s') :
    s.Kept s' := by
  obtain ⟨phase, hnext, rfl⟩ := step_eq_some h
  simp only [State.next] at hnext
  split at hnext
  · rename_i how hended
    cases hnext
    have hopen : ¬ s.row.Terminal := by simpa only [State.Settled, hended] using hs
    exact kept_of_row_eq ⟨hopen, id⟩
  · cases hnext

theorem fails_kept {s s' : State} {message : String} (hs : s.Settled)
    (h : s.step (.fails message) = some s') : s.Kept s' := by
  obtain ⟨phase, hnext, rfl⟩ := step_eq_some h
  simp only [State.next] at hnext
  split at hnext
  · rename_i how hended
    cases hnext
    have hopen : ¬ s.row.Terminal := by simpa only [State.Settled, hended] using hs
    exact kept_of_row_eq (.inl hopen)
  · rename_i how cancelRequested hread
    cases hnext
    have hopen : ¬ s.row.Terminal := by
      simp only [State.Settled, hread] at hs
      exact hs.1
    exact kept_of_row_eq (.inl hopen)
  · cases hnext

theorem giveUp_kept {s s' : State} (hheeds : Move.Heeds s .giveUp) (h : s.step .giveUp = some s') :
    s.Kept s' := by
  obtain ⟨phase, hnext, rfl⟩ := step_eq_some h
  have hover : phase = .finished := by
    simp only [State.next] at hnext
    split at hnext <;> first | exact (Option.some.inj hnext).symm | cases hnext
  subst hover
  exact kept_of_row_eq hheeds

theorem requestCancel_kept {s s' : State} (hs : s.Settled) (hheeds : Move.Heeds s .requestCancel)
    (h : s.step .requestCancel = some s') : s.Kept s' := by
  obtain ⟨phase, hnext, rfl⟩ := step_eq_some h
  cases hnext
  show s.Kept { s with row := s.row.requestCancel }
  by_cases hterminal : s.row.Terminal
  · rw [RunRow.requestCancel_of_terminal hterminal]
    exact ⟨hs, fun _ => rfl⟩
  · obtain ⟨hopen, hflag⟩ := RunRow.requestCancel_of_open hterminal
    refine kept_of_open hterminal ?_
    cases hphase : s.phase with
    | queued => simpa only [State.Settled, hphase] using hopen
    | working => simpa only [State.Settled, hphase] using hopen
    | ended how => simpa only [State.Settled, hphase] using hopen
    | read how cancelRequested =>
      simp only [State.Settled]
      exact ⟨hopen, fun _ => hflag⟩
    | returned result =>
      cases result with
      | ok => simpa only [State.Settled, hphase] using hopen
      | error message =>
        simp only [State.Settled]
        exact .inl hopen
    | finished => exact absurd (hheeds hphase) hterminal

theorem settle_kept {s s' : State} {eventError : Option String} (hs : s.Settled)
    (hheeds : Move.Heeds s (.settle eventError)) (h : s.step (.settle eventError) = some s') :
    s.Kept s' := by
  obtain ⟨phase, hnext, rfl⟩ := step_eq_some h
  cases hphase : s.phase with
  | read how cancelRequested =>
    simp only [State.Settled, hphase] at hs
    obtain ⟨hopen, hflag⟩ := hs
    refine kept_of_open hopen ?_
    cases cancelRequested with
    | true =>
      have hrow : s.rowAfter (.settle eventError) = s.row.updateRunStatus "cancelled" none := by
        simp [State.rowAfter, State.writes, hphase]
      have hend : ∃ message, phase = .returned (.error message) := by
        cases eventError with
        | none =>
          simp only [State.next, hphase, State.writes, Option.some.injEq] at hnext
          subst hnext
          rcases how with _ | ⟨_ | _, message⟩ <;> exact ⟨_, rfl⟩
        | some message =>
          simp only [State.next, hphase, State.writes, Option.some.injEq] at hnext
          exact ⟨message, hnext.symm⟩
      obtain ⟨message, rfl⟩ := hend
      rw [hrow]
      exact .inr (.inr ⟨rfl, hflag rfl⟩)
    | false =>
      rcases how with _ | ⟨success, message⟩
      · have hend : phase = .returned .ok := by
          simp only [State.next, hphase, State.writes, Option.some.injEq] at hnext
          exact hnext.symm
        have hrow : s.rowAfter (.settle eventError) = s.row := by
          simp [State.rowAfter, State.writes, hphase]
        rw [hend, hrow]
        exact hopen
      · cases success with
        | true =>
          have hend : phase =
              .returned (.error "worker exited successfully without a terminal event") := by
            simp only [State.next, hphase, State.writes, Option.some.injEq] at hnext
            exact hnext.symm
          have hrow : s.rowAfter (.settle eventError) = s.row := by
            simp [State.rowAfter, State.writes, hphase]
          rw [hend, hrow]
          exact .inl hopen
        | false =>
          have hcalm : s.row.cancelRequested = false := by
            by_contra hflagged
            exact hheeds (eq_true_of_ne_false hflagged) message hphase
          have hrow : s.rowAfter (.settle eventError) =
              s.row.updateRunStatus "failed" (some message) := by
            simp [State.rowAfter, State.writes, hphase]
          have hend : ∃ text, phase = .returned (.error text) := by
            cases eventError with
            | none =>
              simp only [State.next, hphase, State.writes, Option.some.injEq] at hnext
              exact ⟨message, hnext.symm⟩
            | some text =>
              simp only [State.next, hphase, State.writes, Option.some.injEq] at hnext
              exact ⟨text, hnext.symm⟩
          obtain ⟨text, rfl⟩ := hend
          rw [hrow]
          exact .inr (.inl ⟨rfl, hcalm⟩)
  | _ => simp [State.next, hphase] at hnext

theorem report_kept {s s' : State} {status : String} (hs : s.Settled)
    (hheeds : Move.Heeds s (.report status)) (h : s.step (.report status) = some s') : s.Kept s' := by
  obtain ⟨phase, hnext, rfl⟩ := step_eq_some h
  cases hphase : s.phase with
  | returned result =>
    cases result with
    | ok =>
      have hopen : ¬ s.row.Terminal := by simpa only [State.Settled, hphase] using hs
      have hrow : s.rowAfter (.report status) =
          s.row.updateRunStatus (runTerminalStatus status) none := by
        simp [State.rowAfter, State.writes, hphase]
      have hover : phase = .finished := by
        simp only [State.next, hphase] at hnext
        split at hnext
        · exact (Option.some.inj hnext).symm
        · cases hnext
      refine kept_of_open hopen ?_
      rw [hrow, hover]
      intro hflag
      rcases (hheeds hflag).1 hphase with rfl | rfl <;> rfl
    | error message =>
      have hover : phase = .finished := by
        simp only [State.next, hphase] at hnext
        exact (Option.some.inj hnext).symm
      subst hover
      have hnotOk : s.phase ≠ .returned .ok := by simp [hphase]
      by_cases hprobe : s.service = .probe
      · have hrow : s.rowAfter (.report status) = s.row := by
          simp [State.rowAfter, State.writes, hphase, hprobe]
        rw [hrow]
        exact kept_of_row_eq fun hflag => ((hheeds hflag).2 hnotOk).2
      · have hrow : s.rowAfter (.report status) = s.row.updateRunStatus "failed" (some message) := by
          simp [State.rowAfter, State.writes, hphase, hprobe]
        have hcalm : s.row.cancelRequested = false := by
          by_contra hflagged
          exact hprobe ((hheeds (eq_true_of_ne_false hflagged)).2 hnotOk).1
        rw [hrow]
        refine ⟨fun hflag => ?_, fun hterminal => ?_⟩
        · exact absurd (hcalm.symm.trans hflag) Bool.false_ne_true
        · simp only [State.Settled, hphase] at hs
          rcases hs with hopen | ⟨hfailed, -⟩ | ⟨-, hflag⟩
          · exact absurd hterminal hopen
          · exact hfailed.symm
          · exact absurd (hcalm.symm.trans hflag) Bool.false_ne_true
  | _ => simp [State.next, hphase] at hnext

/-- **one step**: it keeps what its phase says and an end that was reached -/
theorem step_kept {s s' : State} {m : Move} (hs : s.Settled) (hheeds : m.Heeds s)
    (h : s.step m = some s') : s.Kept s' := by
  cases m with
  | markRunning => exact markRunning_kept hs h
  | workerEnds how => exact workerEnds_kept hs h
  | returns result => exact returns_kept hs h
  | readRun => exact readRun_kept hs h
  | settle eventError => exact settle_kept hs hheeds h
  | fails message => exact fails_kept hs h
  | report status => exact report_kept hs hheeds h
  | giveUp => exact giveUp_kept hheeds h
  | requestCancel => exact requestCancel_kept hs hheeds h

/-! ## a run -/

theorem run_cons {s s' : State} {m : Move} {moves : List Move}
    (h : s.run (m :: moves) = some s') : ∃ s1, s.step m = some s1 ∧ s1.run moves = some s' :=
  Option.bind_eq_some_iff.mp h

theorem run_kept {moves : List Move} {s s' : State} (hs : s.Settled) (hall : AllHeed s moves)
    (h : s.run moves = some s') : s.Kept s' := by
  induction moves generalizing s with
  | nil =>
    cases h
    exact ⟨hs, fun _ => rfl⟩
  | cons m moves ih =>
    obtain ⟨s1, hstep, hrun⟩ := run_cons h
    have hone := step_kept hs hall.1 hstep
    have hrest := ih hone.settled (hall.2 s1 hstep) hrun
    refine ⟨hrest.settled, fun hterminal => ?_⟩
    have hstatus := hone.final hterminal
    have hterminal' : s1.row.Terminal := by rwa [RunRow.Terminal, hstatus]
    exact (hrest.final hterminal').trans hstatus

theorem run_append {before after : List Move} {s s0 s' : State} (h0 : s.run before = some s0)
    (h : s.run (before ++ after) = some s') : s0.run after = some s' := by
  induction before generalizing s with
  | nil =>
    cases h0
    exact h
  | cons m before ih =>
    obtain ⟨s1, hstep, hrun⟩ := run_cons h0
    obtain ⟨s1', hstep', hrun'⟩ := run_cons h
    cases hstep.symm.trans hstep'
    exact ih hrun hrun'

theorem allHeed_append {before after : List Move} {s s0 : State}
    (hall : AllHeed s (before ++ after)) (h0 : s.run before = some s0) :
    AllHeed s before ∧ AllHeed s0 after := by
  induction before generalizing s with
  | nil =>
    cases h0
    exact ⟨trivial, hall⟩
  | cons m before ih =>
    obtain ⟨s1, hstep, hrun⟩ := run_cons h0
    have hrest := ih (hall.2 s1 hstep) hrun
    refine ⟨⟨hall.1, fun s' hstep' => ?_⟩, hrest.2⟩
    cases hstep.symm.trans hstep'
    exact hrest.1

/-- **a cancellation is honoured, and an end is final**, in every run whose steps do not go against a
cancellation -/
theorem honoured_run (runId : String) (service : Service) (moves : List Move) (s : State)
    (hall : AllHeed (.start runId service) moves)
    (hrun : (State.start runId service).run moves = some s) : Honoured runId service moves s where
  cancelled := by
    intro hover hflag
    have hkept := (run_kept (start_settled runId service) hall hrun).settled
    simp only [State.Settled, hover] at hkept
    exact hkept hflag
  final := by
    rintro before ⟨after, rfl⟩ s0 h0 hterminal
    obtain ⟨hbefore, hafter⟩ := allHeed_append hall h0
    have hs0 := (run_kept (start_settled runId service) hbefore h0).settled
    exact (run_kept hs0 hafter (run_append h0 hrun)).final hterminal

/-- a probe that is cancelled while it works -/
def cancelledMoves : List Move :=
  [.markRunning, .requestCancel,
    .workerEnds (.exited false "worker process exited with status terminated"), .readRun, .settle none,
    .report "completed"]

theorem honoured_run_probe :
    AllHeed (.start "run_1" .probe) cancelledMoves ∧
      ∃ s, (State.start "run_1" .probe).run cancelledMoves = some s ∧ s.phase = .finished ∧
        s.row.cancelRequested = true ∧ Honoured "run_1" .probe cancelledMoves s := by
  have hall : AllHeed (.start "run_1" .probe) cancelledMoves := by
    simp [cancelledMoves, AllHeed, Move.Heeds, State.start, State.step, State.next, State.rowAfter,
      State.writes, settled, RunRow.new, RunRow.updateRunStatus, RunRow.requestCancel,
      terminalStatuses]
  obtain ⟨s, hs⟩ : ∃ s, (State.start "run_1" .probe).run cancelledMoves = some s := ⟨_, rfl⟩
  have hrun := hs
  cases hs
  exact ⟨hall, _, hrun, rfl, rfl, honoured_run "run_1" .probe cancelledMoves _ hall hrun⟩

/-- the same of a turn of a chat: the service that called reports the error that it was handed over the
end that is there, and the cancelled run is a failed one -/
theorem cancelled_run_fails :
    ∃ s, (State.start "run_1" .chat).run cancelledMoves = some s ∧ s.phase = .finished ∧
      s.row.cancelRequested = true ∧ s.row.status = "failed" ∧
      (∃ s0, (State.start "run_1" .chat).run (cancelledMoves.take 5) = some s0 ∧
        s0.row.status = "cancelled") ∧
      ¬ Honoured "run_1" .chat cancelledMoves s := by
  obtain ⟨s, hs⟩ : ∃ s, (State.start "run_1" .chat).run cancelledMoves = some s := ⟨_, rfl⟩
  have hrun := hs
  cases hs
  refine ⟨_, hrun, rfl, rfl, rfl, ⟨_, rfl, rfl⟩, fun h => ?_⟩
  have hcancelled := h.cancelled rfl rfl
  exact absurd hcancelled (by decide)

end Runs

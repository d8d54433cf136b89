import SuperNova.Lib.Io
import SuperNova.Lib.Json
import SuperNova.Lib.Text
import SuperNova.Runs.Registry

/-!
# The command that runs a worker

`run_worker_command` starts a process, enters it in the table of active processes, hears its lines and
waits for its end.  What the world answers (the operating system, the database, the callback, the text
of the lines) is an `Env`; a cancellation of another thread is what `kill_run_process` does to the child.

* `retrySqliteBusy`, `orLocked`: statements of the database and the errors that are let pass;
* `waitForChildExit`, `finishChildAfterTerminal`, `killRunProcess`: the ways in which a child ends;
* `Env.hearLine`, `Env.readLines`: one line of the worker, and all of them;
* `Env.runWorkerCommand`: the command;
* `settles_simulated` (**main**): its end is a step of the run.
-/

set_option linter.unusedSectionVars false

namespace Runs

/-! ## errors -/

/-- `std::io::ErrorKind` -/
inductive IoErrorKind where
  | unsupported
  | brokenPipe
  | invalidInput
  | invalidData
  | interrupted
  | other
  /-- any other kind, by its name -/
  | os (name : String)
  deriving DecidableEq

structure IoError where
  kind : IoErrorKind
  message : String
  deriving DecidableEq

inductive SqliteCode where
  | databaseBusy
  | databaseLocked
  | otherCode (code : Nat)
  deriving DecidableEq

/-- `rusqlite::Error`, with its text -/
inductive SqliteError where
  | sqliteFailure (code : SqliteCode) (message : String)
  | otherError (message : String)
  deriving DecidableEq

def SqliteError.message : SqliteError → String
  | .sqliteFailure _ message => message
  | .otherError message => message

def isSqliteLockError : SqliteError → Bool
  | .sqliteFailure code _ => code == .databaseBusy || code == .databaseLocked
  | .otherError _ => false

def sqliteErr (err : SqliteError) : IoError := ⟨.other, err.message⟩

def jsonErr (message : String) : IoError := ⟨.invalidData, message⟩

def okOr (present : Bool) (err : IoError) : Except IoError Unit :=
  if present then .ok () else .error err

section
variable {α : Type}

/-- the rounds that are left of `retry_sqlite_busy`; `op` is what each attempt is answered -/
def retryFrom (op : Nat → Except SqliteError α) (attempt : Nat) :
    Nat → Option SqliteError → Except SqliteError α
  | 0, lastBusy =>
    .error (lastBusy.getD (.otherError "Invalid parameter name: sqlite busy retry exhausted"))
  | left + 1, _ =>
    match op attempt with
    | .ok value => .ok value
    | .error err =>
      if isSqliteLockError err then retryFrom op (attempt + 1) left (some err) else .error err

def retrySqliteBusy (op : Nat → Except SqliteError α) : Except SqliteError α := retryFrom op 0 8 none

/-- a statement whose failure is returned -/
def orSqliteErr (answer : Except SqliteError α) : Except IoError α := answer.mapError sqliteErr

/-- a statement whose failure is returned unless the database was locked -/
def orLocked (answer : Except SqliteError α) : Except IoError Unit :=
  match answer with
  | .ok _ => .ok ()
  | .error err => if isSqliteLockError err then .ok () else .error (sqliteErr err)

end

def activeLockPoisoned : IoError := ⟨.other, "active process lock poisoned"⟩

def childLockPoisoned : IoError := ⟨.other, "worker child lock poisoned"⟩

/-! ## the state -/

/-- a child process, and what was done about it -/
structure Child where
  pid : Nat
  waited : Bool
  killed : Bool
  deriving DecidableEq

/-- waited for or killed -/
def Child.Gone (c : Child) : Prop := c.waited = true ∨ c.killed = true

inductive ProcessWorkerEvent (δ : Type) where
  | workerStarted (pid : Nat)
  | heartbeat
  | taskStarted (jobId rootPid : String)
  | modelStreamDelta (delta : δ)

inductive WorkerTerminalResult (τ χ : Type) where
  | task (result : τ)
  | chat (result : χ)
  | probe

/-- the table of active processes, the child of the command, the calls of `on_event`, and the statuses
that were written to the row of the run -/
structure World (δ : Type) where
  active : List (String × Nat)
  child : Option Child
  heard : List (ProcessWorkerEvent δ)
  writes : List (String × Option String)

variable {δ τ χ κ : Type}

def World.start (active : List (String × Nat)) : World δ := ⟨active, none, [], []⟩

def World.onChild (w : World δ) (f : Child → Child) : World δ := { w with child := w.child.map f }

def World.enter (w : World δ) (runId : String) (pid : Nat) : World δ :=
  { w with active := (runId, pid) :: w.active.filter fun entry => entry.1 != runId }

def World.leave (w : World δ) (runId : String) : World δ :=
  { w with active := w.active.filter fun entry => entry.1 != runId }

abbrev Prog (δ : Type) := EStateM IoError (World δ)

def markWaited : Prog δ Unit := modify fun w => w.onChild fun c => { c with waited := true }

def markKilled : Prog δ Unit := modify fun w => w.onChild fun c => { c with killed := true }

/-! ## the end of a child -/

/-- what `try_wait` answers while there is time left, and after it -/
structure Waits where
  polls : List (Except IoError Bool)
  last : Except IoError Bool

/-- the polls of `wait_for_child_exit` up to the first that tells -/
def pollUntil (last : Except IoError Bool) : List (Except IoError Bool) → Except IoError Bool
  | [] => last
  | .error err :: _ => .error err
  | .ok true :: _ => .ok true
  | .ok false :: polls => pollUntil last polls

def Waits.answer (a : Waits) : Except IoError Bool := pollUntil a.last a.polls

/-- `wait_for_child_exit`; a child whose exit `try_wait` tells is waited for -/
def waitForChildExit (a : Waits) : Prog δ Bool := do
  match ← Io.lift a.answer with
  | true =>
    markWaited
    return true
  | false => return false

/-- what the operating system answers to `finish_child_after_terminal` or `kill_run_process` -/
structure Finish where
  childPoisoned : Bool
  first : Waits
  kill : Except IoError Unit
  second : Waits

def finishChildAfterTerminal (a : Finish) : Prog δ Bool := do
  Io.lift (okOr (!a.childPoisoned) childLockPoisoned)
  match ← waitForChildExit a.first with
  | true => return true
  | false =>
    match a.kill with
    | .ok _ =>
      markKilled
      waitForChildExit a.second
    | .error err => if err.kind = .invalidInput then return true else throw err

/-- a cancellation: whether the lock of the table is poisoned, and what its kill is answered -/
structure Cancel where
  activePoisoned : Bool
  childPoisoned : Bool
  kill : Except IoError Unit
  wait : Waits

/-- `kill_run_process` after it has found the child -/
def killFound (a : Cancel) : Prog δ Bool := do
  Io.lift (okOr (!a.childPoisoned) childLockPoisoned)
  match a.kill with
  | .ok _ =>
    markKilled
    waitForChildExit a.wait
  | .error err => if err.kind = .invalidInput then waitForChildExit a.wait else throw err

def killRunProcess (runId : String) (a : Cancel) : Prog δ Bool := do
  Io.lift (okOr (!a.activePoisoned) activeLockPoisoned)
  let w ← get
  match w.active.find? fun entry => entry.1 == runId with
  | none => return false
  | some _ => killFound a

/-! ## the lines -/

structure KernelWorkerEvent where
  eventType : String
  payload : Json

/-- the deserialisers of the types that a line holds -/
structure Decoders (δ τ χ : Type) where
  event : String → Except String KernelWorkerEvent
  delta : Json → Except String δ
  task : Json → Except String τ
  chat : Json → Except String χ

/-- a line of the worker, and what the statements about it are answered -/
structure Line where
  text : Except IoError String
  append : Except SqliteError Unit
  heartbeat : Nat → Except SqliteError Unit

/-- what a line asks for -/
inductive Said (δ τ χ : Type) where
  | nothing
  | tell (event : ProcessWorkerEvent δ)
  | terminal (result : WorkerTerminalResult τ χ)
  | failed (message : String)

def Decoders.hearEvent (d : Decoders δ τ χ) (line : Line) (event : KernelWorkerEvent) :
    Except IoError (Said δ τ χ) :=
  match event.eventType with
  | "worker.started" => .ok .nothing
  | "worker.heartbeat" => do
    orLocked (retrySqliteBusy line.heartbeat)
    return .tell .heartbeat
  | "task.started" =>
    match event.payload.strAt? "job_id" with
    | none => .error ⟨.invalidData, "task.started missing job_id"⟩
    | some jobId => .ok (.tell (.taskStarted jobId ((event.payload.strAt? "root_pid").getD "")))
  | "model.stream_delta" => do
    let delta ← (d.delta event.payload).mapError jsonErr
    return .tell (.modelStreamDelta delta)
  | "task.completed" => do
    let result ← (d.task event.payload).mapError jsonErr
    return .terminal (.task result)
  | "chat.completed" => do
    let result ← (d.chat event.payload).mapError jsonErr
    return .terminal (.chat result)
  | "probe.completed" => .ok (.terminal .probe)
  | "worker.failed" => .ok (.failed ((event.payload.strAt? "error").getD "worker failed"))
  | _ => .ok .nothing

/-- one round of the loop, up to the call of `on_event` -/
def Decoders.hearLine (d : Decoders δ τ χ) (line : Line) : Except IoError (Said δ τ χ) := do
  let text ← line.text
  if Text.trim text = "" then
    return .nothing
  else
    let event ← (d.event text).mapError jsonErr
    orLocked line.append
    d.hearEvent line event

/-! ## the command -/

structure ExitStatus where
  success : Bool
  code : Option Int

/-- what the world answers to a command; `cancels` come while the command hears the lines, `lateCancels`
have found the child by then and come to kill it later -/
structure Env (δ τ χ κ : Type) where
  decoders : Decoders δ τ χ
  configured : Bool
  spawn : Except IoError Nat
  updateRunWorker : Nat → Except SqliteError Unit
  stdin : Bool
  toWriter : κ → Except String Unit
  writeNewline : Except IoError Unit
  stdout : Bool
  poisonedAtEntry : Bool
  onEvent : List (ProcessWorkerEvent δ) → Except IoError Unit
  cancels : List Cancel
  lines : List Line
  finish : Finish
  childPoisoned : Bool
  wait : Except IoError ExitStatus
  poisonedAtRemoval : Bool
  lateCancels : List Cancel
  getRun : Nat → Except SqliteError Bool
  updateRunStatus : Nat → Except SqliteError Unit
  runEvent : Nat → Except SqliteError Unit

namespace Env

variable (e : Env δ τ χ κ) (runId : String)

/-- the process is started, if one is configured -/
def started : Except IoError Nat := do
  okOr e.configured ⟨.unsupported, "process kernel worker is not configured"⟩
  e.spawn

/-- the statements between the start of the process and its entry in the table -/
def handOver (command : κ) : Except IoError Unit := do
  orSqliteErr (retrySqliteBusy e.updateRunWorker)
  okOr e.stdin ⟨.brokenPipe, "worker stdin was not available"⟩
  (e.toWriter command).mapError jsonErr
  e.writeNewline
  okOr e.stdout ⟨.brokenPipe, "worker stdout was not available"⟩
  okOr (!e.poisonedAtEntry) activeLockPoisoned

/-- a call of `on_event` -/
def tell (event : ProcessWorkerEvent δ) : Prog δ Unit := do
  modify fun w => { w with heard := w.heard ++ [event] }
  let w ← get
  Io.lift (e.onEvent w.heard)

/-- the loop over the lines: the terminal result, and the last error that the worker told -/
def readLines : List Line → Option String →
    Prog δ (Option (WorkerTerminalResult τ χ) × Option String)
  | [], workerError => return (none, workerError)
  | line :: lines, workerError => do
    match ← Io.lift (e.decoders.hearLine line) with
    | .nothing => readLines lines workerError
    | .tell event =>
      e.tell event
      readLines lines workerError
    | .failed message => readLines lines (some message)
    | .terminal result => return (some result, workerError)

/-- the entry is taken from the table -/
def leaveTable : Prog δ Unit := do
  Io.lift (okOr (!e.poisonedAtRemoval) activeLockPoisoned)
  modify fun w => w.leave runId

/-- `update_run_status` and the event of it -/
def writeStatus (status : String) (errorMessage : Option String) : Prog δ Unit := do
  Io.lift (orSqliteErr (retrySqliteBusy e.updateRunStatus))
  modify fun w => { w with writes := w.writes ++ [(status, errorMessage)] }
  Io.lift (orLocked (retrySqliteBusy e.runEvent))

def completeRun (status : String) : Prog δ Unit := e.writeStatus (runTerminalStatus status) none

def failRun (error : String) : Prog δ Unit := e.writeStatus "failed" (some error)

/-- kills of other threads; what they return is not seen here -/
def cancelled (kill : Cancel → Prog δ Bool) (cancels : List Cancel) : Prog δ Unit :=
  cancels.forM fun a => do
    let _ ← Io.unwrapOr (kill a) false

/-- after a terminal event, from the look at the row -/
def settleTerminal (result : WorkerTerminalResult τ χ) : Prog δ (WorkerTerminalResult τ χ) := do
  match ← Io.lift (orSqliteErr (retrySqliteBusy e.getRun)) with
  | true =>
    e.completeRun "cancelled"
    throw ⟨.interrupted, "worker " ++ runId ++ " completed after cancellation was requested"⟩
  | false => return result

def afterTerminal (result : WorkerTerminalResult τ χ) : Prog δ (WorkerTerminalResult τ χ) := do
  let _childExited ← Io.unwrapOr (finishChildAfterTerminal e.finish) false
  e.leaveTable runId
  cancelled killFound e.lateCancels
  e.settleTerminal runId result

/-- the message of a failure: what the worker told, or its exit -/
def failureMessage (status : ExitStatus) (workerError : Option String) : String :=
  workerError.getD
    ("worker process exited with status " ++ (status.code.elim "terminated" toString))

/-- after the exit of the worker, from the look at the row -/
def settleExit (status : ExitStatus) (workerError : Option String) :
    Prog δ (WorkerTerminalResult τ χ) := do
  match status.success with
  | true =>
    match ← Io.lift (orSqliteErr (retrySqliteBusy e.getRun)) with
    | true =>
      e.completeRun "cancelled"
      throw ⟨.interrupted, "worker " ++ runId ++ " completed after cancellation was requested"⟩
    | false => throw ⟨.invalidData, "worker exited successfully without a terminal event"⟩
  | false =>
    match ← Io.lift (orSqliteErr (retrySqliteBusy e.getRun)) with
    | true =>
      e.completeRun "cancelled"
      throw ⟨.interrupted, "worker " ++ runId ++ " was cancelled"⟩
    | false =>
      let message := failureMessage status workerError
      e.failRun message
      throw ⟨.other, message⟩

/-- after the last line -/
def afterExit (workerError : Option String) : Prog δ (WorkerTerminalResult τ χ) := do
  Io.lift (okOr (!e.childPoisoned) childLockPoisoned)
  let status ← Io.lift e.wait
  markWaited
  e.leaveTable runId
  cancelled killFound e.lateCancels
  e.settleExit runId status workerError

def runWorkerCommand (command : κ) : Prog δ (WorkerTerminalResult τ χ) := do
  let pid ← Io.lift e.started
  modify fun w => { w with child := some ⟨pid, false, false⟩ }
  Io.lift (e.handOver command)
  modify fun w => w.enter runId pid
  cancelled (killRunProcess runId) e.cancels
  e.tell (.workerStarted pid)
  match ← e.readLines e.lines none with
  | (some result, _) => e.afterTerminal runId result
  | (none, workerError) => e.afterExit runId workerError

end Env

/-! ## the end of the command, among the other parties -/

section
variable {α : Type} {e : Env δ τ χ κ} {w : World δ} {s : State}

/-- what the service is handed -/
def resultOf : EStateM.Result IoError (World δ) α → Result
  | .ok _ _ => .ok
  | .error err _ => .error err.message

/-- a step of the run that returns what the program returns and writes what it writes -/
def Simulated (s : State) (prog : Prog δ α) (w : World δ) : Prop :=
  ∃ m, s.next m = some (.returned (resultOf (prog w))) ∧
    (Io.final prog w).writes = w.writes ++ (s.writes m).toList

theorem writeThrow_cases (e : Env δ τ χ κ) (status : String) (errorMessage : Option String)
    (err : IoError) (w : World δ) :
    let prog : Prog δ α := do
      e.writeStatus status errorMessage
      throw err
    let w' := { w with writes := w.writes ++ [(status, errorMessage)] }
    (∃ err', prog w = .error err' w) ∨ (∃ err', prog w = .error err' w') ∨ prog w = .error err w' := by
  intro prog w'
  cases hupdate : orSqliteErr (retrySqliteBusy e.updateRunStatus) with
  | error err' =>
    have hwrite : Io.Err (e.writeStatus status errorMessage) w err' w :=
      Io.bind_of_err (Io.lift_err.mpr ⟨hupdate, rfl⟩)
    exact .inl ⟨err', Io.bind_of_err hwrite⟩
  | ok u =>
    have hwrite : e.writeStatus status errorMessage w =
        Io.lift (orLocked (retrySqliteBusy e.runEvent)) w' :=
      Io.bind_of_ok (Io.lift_ok.mpr ⟨hupdate, rfl⟩)
    cases hevent : orLocked (retrySqliteBusy e.runEvent) with
    | error err' =>
      have herr : Io.Err (e.writeStatus status errorMessage) w err' w' := by
        rw [Io.Err, hwrite, hevent]
        rfl
      exact .inr (.inl ⟨err', Io.bind_of_err herr⟩)
    | ok u =>
      have hok : Io.Ok (e.writeStatus status errorMessage) w () w' := by
        rw [Io.Ok, hwrite, hevent]
        rfl
      exact .inr (.inr (Io.bind_of_ok hok))

theorem writeThrow_simulated {how : WorkerEnd} {c : Bool} {status : String}
    {errorMessage : Option String} {err : IoError} (hphase : s.phase = .read how c)
    (hwrites : s.writes (.settle none) = some (status, errorMessage))
    (hsettled : settled s.runId how c = .error err.message) :
    Simulated s (do e.writeStatus status errorMessage; throw err : Prog δ α) w := by
  have hwritesAny : ∀ eventError, s.writes (.settle eventError) = some (status, errorMessage) :=
    fun _ => hwrites
  rcases @writeThrow_cases δ τ χ κ α e status errorMessage err w with
    ⟨err', h⟩ | ⟨err', h⟩ | h
  · refine ⟨.fails err'.message, ?_, ?_⟩
    · simp [State.next, hphase, h, resultOf]
    · simp [Io.final, h, State.writes]
  · refine ⟨.settle (some err'.message), ?_, ?_⟩
    · simp [State.next, hphase, hwritesAny, h, resultOf]
    · simp [Io.final, h, hwritesAny]
  · refine ⟨.settle none, ?_, ?_⟩
    · simp [State.next, hphase, h, resultOf, hsettled]
    · simp [Io.final, h, hwritesAny]

theorem simulated_of_eq {prog prog' : Prog δ α} (h : prog w = prog' w)
    (h' : Simulated s prog' w) : Simulated s prog w := by
  unfold Simulated Io.final at *
  rw [h]
  exact h'

theorem return_simulated {how : WorkerEnd} {c : Bool} {prog : Prog δ α}
    (hphase : s.phase = .read how c) (hwrites : s.writes (.settle none) = none)
    (hfinal : Io.final prog w = w) (hsettled : settled s.runId how c = resultOf (prog w)) :
    Simulated s prog w := by
  refine ⟨.settle none, ?_, ?_⟩
  · simp [State.next, hphase, hsettled]
  · simp [hfinal, hwrites]

theorem settleTerminal_simulated (e : Env δ τ χ κ) (result : WorkerTerminalResult τ χ) {c : Bool}
    (hread : orSqliteErr (retrySqliteBusy e.getRun) = .ok c) (hphase : s.phase = .read .terminal c) :
    Simulated s (e.settleTerminal s.runId result) w := by
  cases c with
  | true =>
    refine simulated_of_eq (Io.bind_of_ok (Io.lift_ok.mpr ⟨hread, rfl⟩)) ?_
    exact writeThrow_simulated hphase (by simp [State.writes, hphase, runTerminalStatus]) rfl
  | false =>
    refine simulated_of_eq (Io.bind_of_ok (Io.lift_ok.mpr ⟨hread, rfl⟩)) ?_
    exact return_simulated hphase (by simp [State.writes, hphase]) rfl rfl

theorem settleExit_simulated (e : Env δ τ χ κ) (status : ExitStatus) (workerError : Option String)
    {c : Bool} (hread : orSqliteErr (retrySqliteBusy e.getRun) = .ok c)
    (hphase : s.phase =
      .read (.exited status.success (Env.failureMessage status workerError)) c) :
    Simulated s (e.settleExit s.runId status workerError : Prog δ (WorkerTerminalResult τ χ)) w := by
  unfold Env.settleExit
  cases hsuccess : status.success with
  | true =>
    rw [hsuccess] at hphase
    refine simulated_of_eq (Io.bind_of_ok (Io.lift_ok.mpr ⟨hread, rfl⟩)) ?_
    cases c with
    | true => exact writeThrow_simulated hphase (by simp [State.writes, hphase, runTerminalStatus]) rfl
    | false => exact return_simulated hphase (by simp [State.writes, hphase]) rfl rfl
  | false =>
    rw [hsuccess] at hphase
    refine simulated_of_eq (Io.bind_of_ok (Io.lift_ok.mpr ⟨hread, rfl⟩)) ?_
    cases c with
    | true => exact writeThrow_simulated hphase (by simp [State.writes, hphase, runTerminalStatus]) rfl
    | false => exact writeThrow_simulated hphase (by simp [State.writes, hphase]) rfl

/-- **the end of a command**, after a terminal event or an exit, is one step of the run: whatever its statements are
answered, that step returns and writes what the command does -/
theorem settles_simulated (e : Env δ τ χ κ) (s : State) (w : World δ) :
    (∀ c result, orSqliteErr (retrySqliteBusy e.getRun) = .ok c → s.phase = .read .terminal c →
      Simulated s (e.settleTerminal s.runId result) w) ∧
    (∀ c status workerError, orSqliteErr (retrySqliteBusy e.getRun) = .ok c →
      s.phase = .read (.exited status.success (Env.failureMessage status workerError)) c →
        Simulated s (e.settleExit s.runId status workerError : Prog δ (WorkerTerminalResult τ χ)) w) ∧
    ∀ err how, orSqliteErr (retrySqliteBusy e.getRun) = .error err → s.phase = .ended how →
      (∀ result, Simulated s (e.settleTerminal s.runId result) w) ∧
      ∀ status workerError,
        Simulated s (e.settleExit s.runId status workerError : Prog δ (WorkerTerminalResult τ χ)) w := by
  refine ⟨fun c result hread => settleTerminal_simulated e result hread,
    fun c status workerError hread => settleExit_simulated e status workerError hread, fun err how hread hphase => ?_⟩
  have hfails {α : Type} {prog : Prog δ α} (h : prog w = .error err w) : Simulated s prog w :=
    ⟨.fails err.message, by simp [State.next, hphase, h, resultOf], by simp [Io.final, h, State.writes]⟩
  refine ⟨fun result => hfails (Io.bind_of_err (Io.lift_err.mpr ⟨hread, rfl⟩)), fun status workerError => hfails ?_⟩
  unfold Env.settleExit
  cases status.success with
  | true => exact Io.bind_of_err (Io.lift_err.mpr ⟨hread, rfl⟩)
  | false => exact Io.bind_of_err (Io.lift_err.mpr ⟨hread, rfl⟩)

end

end Runs

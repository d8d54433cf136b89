import Mathlib.Logic.Function.Basic
import SuperNova.Lib.Io

/-!
# Service processes and their registry

What the terminal services of a job work on: the process table of the machine, one registry file per
service, and the calls of the operating system.  Between any two calls other processes come and go;
what they do, and which call fails, is in a list of choices.

A fault is something that goes wrong with a live service process around it: nothing that a call did
could still be undone by the next one.
-/

namespace Terminal

open Io

/-! ## records -/

structure TerminalServiceHealthCheck where
  kind : String
  url : Option String
  port : Option Nat
  deriving DecidableEq

inductive ServiceStatus where
  | running
  | failed
  | exited
  | stopped
  deriving DecidableEq

inductive HealthStatus where
  | processExitedBeforeReady
  | ready
  | startupTimeout
  | processExited
  | stopped
  | stopFailed
  deriving DecidableEq

structure TerminalServiceRecord where
  serviceId : String
  pid : Nat
  argv : List String
  status : ServiceStatus
  healthStatus : HealthStatus
  healthCheck : Option TerminalServiceHealthCheck
  expectedPorts : List Nat
  stopReason : Option String
  exitObserved : Bool
  deriving DecidableEq

/-- a registry file; a write that breaks off leaves one that cannot be read -/
inductive RecordFile where
  | record (r : TerminalServiceRecord)
  | unreadable
  deriving DecidableEq

def RecordFile.Names (f : RecordFile) (pid : Nat) : Prop :=
  match f with
  | .record r => r.status = .running ∧ r.pid = pid
  | .unreadable => False

instance (f : RecordFile) (pid : Nat) : Decidable (f.Names pid) :=
  match f with
  | .record _ => instDecidableAnd
  | .unreadable => instDecidableFalse

/-- the registry of a job: one file for each service id, with the record of that service -/
structure Registry where
  files : List (String × RecordFile)
  unique : ∀ id f g, (id, f) ∈ files → (id, g) ∈ files → f = g
  named : ∀ id r, (id, .record r) ∈ files → r.serviceId = id

namespace Registry

def empty : Registry := ⟨[], fun _ _ _ h => absurd h List.not_mem_nil,
  fun _ _ h => absurd h List.not_mem_nil⟩

/-- the file of a service -/
def find? (reg : Registry) (id : String) : Option RecordFile := reg.files.lookup id

/-- a file takes the place of the one with its name -/
def put (reg : Registry) (id : String) (f : RecordFile)
    (h : ∀ r, f = .record r → r.serviceId = id) : Registry where
  files := (id, f) :: reg.files.filter fun entry => entry.1 ≠ id
  unique := by
    intro i f' g' hf hg
    simp only [List.mem_cons, Prod.mk.injEq, List.mem_filter, decide_eq_true_eq] at hf hg
    rcases hf with ⟨rfl, rfl⟩ | ⟨hf, hi⟩
    · rcases hg with ⟨-, rfl⟩ | ⟨-, hi⟩
      · rfl
      · exact absurd rfl hi
    · rcases hg with ⟨rfl, -⟩ | ⟨hg, -⟩
      · exact absurd rfl hi
      · exact reg.unique i f' g' hf hg
  named := by
    intro i r hr
    simp only [List.mem_cons, Prod.mk.injEq, List.mem_filter] at hr
    rcases hr with ⟨rfl, rfl⟩ | ⟨hr, -⟩
    · exact h r rfl
    · exact reg.named i r hr

def write (reg : Registry) (r : TerminalServiceRecord) : Registry :=
  reg.put r.serviceId (.record r) fun _ h => RecordFile.record.inj h ▸ rfl

def tear (reg : Registry) (id : String) : Registry :=
  reg.put id .unreadable fun _ h => nomatch h

theorem mem_write {reg : Registry} {r : TerminalServiceRecord} {id : String} {f : RecordFile} :
    (id, f) ∈ (reg.write r).files ↔
      id = r.serviceId ∧ f = .record r ∨ id ≠ r.serviceId ∧ (id, f) ∈ reg.files := by
  simp [write, put, and_comm]

theorem mem_tear {reg : Registry} {id i : String} {f : RecordFile} :
    (i, f) ∈ (reg.tear id).files ↔ i = id ∧ f = .unreadable ∨ i ≠ id ∧ (i, f) ∈ reg.files := by
  simp [tear, put, and_comm]

theorem find?_some {reg : Registry} {id : String} {f : RecordFile} (h : reg.find? id = some f) :
    (id, f) ∈ reg.files := by
  obtain ⟨l, l', hl, -⟩ := List.lookup_eq_some_iff.mp h
  rw [hl]
  exact List.mem_append_right l List.mem_cons_self

theorem find?_none {reg : Registry} {id : String} (h : reg.find? id = none) (f : RecordFile) :
    (id, f) ∉ reg.files := by
  intro hf
  have := List.lookup_eq_none_iff.mp h _ hf
  simp at this

/-- a record with status running names the process -/
def Names (reg : Registry) (pid : Nat) : Prop := ∃ entry ∈ reg.files, entry.2.Names pid

instance (reg : Registry) (pid : Nat) : Decidable (reg.Names pid) := List.decidableBEx _ _

theorem names_iff {reg : Registry} {pid : Nat} : reg.Names pid ↔
    ∃ id r, (id, .record r) ∈ reg.files ∧ r.status = .running ∧ r.pid = pid := by
  constructor
  · rintro ⟨⟨id, f⟩, hm, h⟩
    cases f with
    | record r => exact ⟨id, r, hm, h⟩
    | unreadable => exact False.elim h
  · rintro ⟨id, r, hm, h⟩
    exact ⟨(id, .record r), hm, h⟩

end Registry

/-! ## processes -/

/-- `job`: started by `start_service` of this job -/
inductive Owner where
  | job
  | other
  deriving DecidableEq

/-- a process that has a pid; one that is not alive has ended and waits for its parent -/
structure Process where
  owner : Owner
  alive : Bool
  deriving DecidableEq

/-- what other processes do, and what a service process does by itself -/
inductive Move where
  | exit (pid : Nat)
  | reap (pid : Nat)
  | appear (pid : Nat)

/-- what happens before a call of the operating system, and how the call goes -/
structure Choice where
  moves : List Move := []
  fails : Bool := false
  /-- a write that fails leaves the old file -/
  keepsFile : Bool := false
  /-- a process is still there after a stop that fails -/
  survives : Bool := false
  pid : Nat := 0
  openPorts : List Nat := []
  okUrls : List String := []

/-- nothing else happens, and the call succeeds -/
def Choice.fine : Choice := {}

inductive Fault where
  | reusedPid
  | lostRecord
  | lostChild
  | missedProbe
  | survivedStop
  deriving DecidableEq

/-- `held` is the child that `start_service` has not let go; `signalled` has the owner of each process
that was told to stop -/
structure World where
  procs : Nat → Option Process
  held : Option Nat
  registry : Registry
  choices : List Choice
  signalled : List Owner
  faults : List Fault

/-- a live process that was started by this job -/
abbrev World.Live (w : World) (pid : Nat) : Prop := w.procs pid = some ⟨.job, true⟩

def World.setProc (w : World) (pid : Nat) (p : Option Process) : World :=
  { w with procs := Function.update w.procs pid p }

def World.blame (w : World) (fault : Fault) (c : Prop) [Decidable c] : World :=
  if c then { w with faults := w.faults ++ [fault] } else w

/-- a process ends; it is removed once nobody holds it; a new process takes a free pid -/
def World.move (w : World) : Move → World
  | .exit pid => w.setProc pid ((w.procs pid).map fun p => { p with alive := false })
  | .reap pid =>
    if w.held = some pid ∨ (w.procs pid).any (·.alive) then w else w.setProc pid none
  | .appear pid =>
    if (w.procs pid).isSome then w
    else (w.setProc pid (some ⟨.other, true⟩)).blame .reusedPid (w.registry.Names pid)

abbrev ServiceM := EStateM String World

/-- the moves before a call, and how the call goes -/
def surroundings : ServiceM Choice := fun w =>
  match w.choices with
  | [] => .ok .fine w
  | c :: rest => .ok c (c.moves.foldl World.move { w with choices := rest })

/-! ## calls of the operating system -/

def readServiceRecord (id : String) : ServiceM (Option TerminalServiceRecord) := do
  let c ← surroundings
  let w ← get
  match w.registry.find? id with
  | none => pure none
  | some file =>
    if c.fails then throw "the service record cannot be opened"
    else
      match file with
      | .unreadable => throw "the service record cannot be parsed"
      | .record r => pure (some r)

/-- a record that was not written; the file may be lost -/
def World.unwritten (w : World) (r : TerminalServiceRecord) (registry : Registry) : World :=
  { w with registry }.blame .lostRecord
    (r.status = ServiceStatus.running ∧ w.Live r.pid ∧ ¬ registry.Names r.pid)

def writeServiceRecord (r : TerminalServiceRecord) : ServiceM Unit := do
  let c ← surroundings
  let w ← get
  if c.fails then do
    set (w.unwritten r (if c.keepsFile then w.registry else w.registry.tear r.serviceId))
    throw "the service record cannot be written"
  else set { w with registry := w.registry.write r }

/-- a call on which nothing depends but whether it fails -/
def attempt (message : String) : ServiceM Unit := do
  let c ← surroundings
  if c.fails then throw message else pure ()

/-- `Command::spawn`, to a free pid -/
def spawn : ServiceM Nat := do
  let c ← surroundings
  let w ← get
  if c.fails ∨ (w.procs c.pid).isSome then throw "the service cannot be started"
  else do
    set { w.setProc c.pid (some ⟨.job, true⟩) with held := some c.pid }
    pure c.pid

/-- `Child::try_wait`; a child that has ended is removed -/
def tryWait (pid : Nat) : ServiceM Bool := do
  let c ← surroundings
  let w ← get
  if c.fails then do
    set (w.blame .lostChild (w.Live pid))
    throw "the service cannot be observed"
  else if (w.procs pid).any (·.alive) then pure false
  else do
    set { w.setProc pid none with held := none }
    pure true

/-- `Child::kill` and `Child::wait`, whose errors are ignored -/
def killAndWait (pid : Nat) : ServiceM Unit := do
  let c ← surroundings
  let w ← get
  if c.fails then set (w.blame .lostChild (w.Live pid))
  else set { w.setProc pid none with held := none }

/-- `process_is_running`: some process has the pid; a probe that cannot run says no -/
def processIsRunning (pid : Nat) : ServiceM Bool := do
  let c ← surroundings
  let w ← get
  if c.fails then do
    set (w.blame .missedProbe (w.Live pid))
    pure false
  else pure (w.procs pid).isSome

/-- the process with the pid is told to stop -/
def World.signal (w : World) (pid : Nat) : World :=
  { w with signalled := w.signalled ++ ((w.procs pid).map (·.owner)).toList }

/-- `stop_process_tree`; when it returns true the process is gone -/
def stopProcessTree (pid : Nat) : ServiceM Bool := do
  let c ← surroundings
  let w ← get
  if c.fails ∧ c.survives then do
    set ((w.signal pid).blame .survivedStop (w.Live pid))
    pure false
  else do
    set ((w.signal pid).move (.exit pid))
    pure (!c.fails)

/-- the handle of the child is dropped -/
def releasing {α : Type} (m : ServiceM α) : ServiceM α := fun w =>
  match m w with
  | .ok a w' => .ok a { w' with held := none }
  | .error e w' => .error e { w' with held := none }

end Terminal

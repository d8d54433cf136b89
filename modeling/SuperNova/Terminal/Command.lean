import Mathlib.Order.Monotone.Basic
import SuperNova.Lib.Pipes
import SuperNova.Terminal.Services
import SuperNova.Truth.Blobs

/-!
# Commands

`run_command` starts a child with two pipes, asks every ten milliseconds whether it has exited, and kills it when the
time is over.  Only after that it reads the pipes.

* `waitLoop`: the loop, which always ends;
* `runCommandInternal`: the call, with its receipt, blobs and events;
* `command_finished_iff` (**main**): a child finishes with all its output exactly when each of its outputs fits into
  a pipe and the parent is never late;
* `output_blocks_child`: a child that writes one byte more than fits.
-/

set_option linter.unusedSectionVars false

namespace Terminal

open Pipes Text Truth Workspace

/-! ## the call -/

inductive Stream where
  | stdout
  | stderr
  deriving DecidableEq

structure TerminalApproval where
  approvalId : Option String
  previewId : Option String

structure CommandToken where
  jobId : String
  pid : String
  capabilities : List String

/-- `run_command`, `run_command_with_approval` and `run_powershell` -/
structure CommandCall where
  argv : List String
  timeoutMs : Nat
  approval : TerminalApproval
  shellKind : String
  script : Option String

def serviceCommands : List String :=
  ["uvicorn", "streamlit run", "flask run", "python -m http.server", "python3 -m http.server", "fastapi dev",
    "vite --host", "vite --open", "npm run dev", "npm.cmd run dev", "pnpm dev", "yarn dev", "next dev"]

def serviceCommandDetected (argv : List String) : Bool :=
  if argv.isEmpty then false
  else
    let joined := join " " (argv.map toAsciiLowercase)
    serviceCommands.any (contains joined)

/-- `terminal_workspace_boundary_violation` -/
def commandBoundaryViolation (argv : List String) (script : Option String) : Option String :=
  let joined :=
    match script with
    | some script => join " " argv ++ " " ++ script
    | none => join " " argv
  let lower := toAsciiLowercase joined
  if ["..\\", "../", " .. "].any (contains lower) then
    some "terminal mutation references a parent directory and cannot be approved"
  else if [" > /", " >/", " >> /", ">>/", " > ~", " > %userprofile%", " > $home"].any (contains lower) then
    some "terminal mutation writes outside the workspace boundary and cannot be approved"
  else if (argv.drop 1).any looksLikeAbsoluteOrParentPath then
    some "terminal mutation contains a non-workspace-scoped path and cannot be approved"
  else none

/-! ## receipts -/

structure ServiceRefusal where
  reason : String
  reasonCode : String
  recoverable : Bool
  requiredCapability : String
  argv : List String
  timeoutMs : Nat

structure BoundaryRefusal where
  reason : String
  argv : List String
  shellKind : String
  script : Option String
  mutationDetected : Bool
  approvalRequired : Bool
  approvalAllowed : Bool
  hardBlock : Bool
  nonOverridablePolicy : String

structure CommandRun where
  argv : List String
  shellKind : String
  script : Option String
  exitCode : Option Int
  timedOut : Bool
  timeoutMs : Nat
  stdoutRef : String
  stderrRef : String
  stdoutBytes : Nat
  stderrBytes : Nat
  beforeSnapshotRef : String
  afterSnapshotRef : String
  workspaceDiffRef : String
  mutationDetected : Bool
  approvalRequired : Bool
  approvalId : Option String
  previewId : Option String

inductive CommandData where
  | reason (text : String)
  | service (refusal : ServiceRefusal)
  | boundary (refusal : BoundaryRefusal)
  | ran (run : CommandRun)

structure CommandReceipt where
  capabilityId : String
  jobId : String
  pid : String
  status : String
  data : CommandData

/-- what the call works on in the job: the blobs and the events -/
structure JobFiles where
  blobs : Path → Option (List UInt8)
  events : List (String × CommandReceipt)

def JobFiles.writeBlob (files : JobFiles) (name : String) (content : List UInt8) : JobFiles :=
  { files with blobs := Function.update files.blobs (blobPath name) (some content) }

def JobFiles.appendEvents (files : JobFiles) (types : List String) (receipt : CommandReceipt) : JobFiles :=
  { files with events := files.events ++ types.map fun eventType => (eventType, receipt) }

/-- `blocked_receipt_with_data` and `hard_blocked_receipt` -/
def blockedCommandReceipt (token : CommandToken) (data : CommandData) : CommandReceipt where
  capabilityId := "terminal.run_command"
  jobId := token.jobId
  pid := token.pid
  status := "blocked"
  data

/-- the checks before the child is started -/
def refusal (token : CommandToken) (call : CommandCall) : Option CommandData :=
  if "terminal.run_command" ∉ token.capabilities then some (.reason "terminal.run_command not granted")
  else if call.argv = [] then some (.reason "empty argv")
  else if call.timeoutMs = 0 then some (.reason "timeout_ms must be provided and greater than zero")
  else if serviceCommandDetected call.argv then
    some (.service
      { reason := "service-class commands must use terminal.start_service"
        reasonCode := "service_command_requires_start_service"
        recoverable := true
        requiredCapability := "terminal.start_service"
        argv := call.argv
        timeoutMs := call.timeoutMs })
  else if isMutationCommand call.argv then
    (commandBoundaryViolation call.argv call.script).map fun reason =>
      .boundary
        { reason
          argv := call.argv
          shellKind := call.shellKind
          script := call.script
          mutationDetected := true
          approvalRequired := false
          approvalAllowed := false
          hardBlock := true
          nonOverridablePolicy := "workspace_boundary" }
  else none

/-! ## the child -/

structure Child where
  program : Program Stream UInt8
  code : Int

inductive Platform where
  | unix
  | windows

/-- `ExitStatus::code` of a child that was killed -/
def Platform.killedCode : Platform → Option Int
  | .unix => none
  | .windows => some 1

/-- `thread::sleep` of ten milliseconds, in nanoseconds -/
def sleepNs : Nat := 10000000

/-- when the child is started, and when the calls of the rounds come: `try_wait`, `elapsed`, and `kill` with `wait`;
in nanoseconds after `started` -/
structure Polls where
  spawnAt : Nat
  tryAt : Nat → Nat
  checkAt : Nat → Nat
  killAt : Nat → Nat
  spawn_le : spawnAt ≤ tryAt 0
  try_le_check : ∀ k, tryAt k ≤ checkAt k
  check_le_kill : ∀ k, checkAt k ≤ killAt k
  sleeps : ∀ k, checkAt k + sleepNs ≤ tryAt (k + 1)

theorem Polls.checkAt_lt (polls : Polls) (k : Nat) : polls.checkAt k < polls.checkAt (k + 1) :=
  calc
    polls.checkAt k < polls.checkAt k + sleepNs := Nat.lt_add_of_pos_right (by decide)
    _ ≤ polls.tryAt (k + 1) := polls.sleeps k
    _ ≤ polls.checkAt (k + 1) := polls.try_le_check (k + 1)

/-- the machine: how much fits into a pipe, and what the snapshots of the workspace are -/
structure Machine where
  capacity : Nat
  platform : Platform
  polls : Polls
  beforeSnapshot : List UInt8
  afterSnapshot : List UInt8
  workspaceDiff : List UInt8

section
variable (m : Machine) (child : Child)

/-- the child has exited by a time, while nobody has read its output -/
def ExitedAt (now : Nat) : Prop :=
  child.program.Exited .never m.capacity (now - m.polls.spawnAt)

instance (now : Nat) : Decidable (ExitedAt m child now) := inferInstanceAs (Decidable (Program.Exited _ _ _ _))

/-- `status` and `timed_out`, and the time when the child was gone -/
structure Waited where
  exitCode : Option Int
  timedOut : Bool
  goneAt : Nat

def timeoutNs (timeoutMs : Nat) : Nat := 1000000 * timeoutMs

/-- the rounds from one on -/
def waitLoop (timeoutMs k : Nat) : Waited :=
  if ExitedAt m child (m.polls.tryAt k) then ⟨some child.code, false, m.polls.tryAt k⟩
  else if m.polls.checkAt k > timeoutNs timeoutMs then
    ⟨if ExitedAt m child (m.polls.killAt k) then some child.code else m.platform.killedCode, true, m.polls.killAt k⟩
  else waitLoop timeoutMs (k + 1)
termination_by timeoutNs timeoutMs + 1 - m.polls.checkAt k
decreasing_by
  have hlater := m.polls.checkAt_lt k
  omega

/-- what `read_to_end` finds in a pipe when the child is gone -/
def outputAt (now : Nat) (stream : Stream) : List UInt8 :=
  (child.program.run .never m.capacity (now - m.polls.spawnAt)).output stream

end

/-! ## run_command -/

/-- from the snapshot before the command on -/
def runAdmitted (token : CommandToken) (call : CommandCall) (m : Machine) (child : Child) (files : JobFiles) :
    CommandReceipt × JobFiles :=
  let waited := waitLoop m child call.timeoutMs 0
  let stdout := outputAt m child waited.goneAt .stdout
  let stderr := outputAt m child waited.goneAt .stderr
  let receipt : CommandReceipt :=
    { capabilityId := "terminal.run_command"
      jobId := token.jobId
      pid := token.pid
      status := if waited.exitCode = some 0 ∧ waited.timedOut = false then "success" else "failed"
      data := .ran
        { argv := call.argv
          shellKind := call.shellKind
          script := call.script
          exitCode := waited.exitCode
          timedOut := waited.timedOut
          timeoutMs := call.timeoutMs
          stdoutRef := blobRef token.jobId "terminal_stdout.txt"
          stderrRef := blobRef token.jobId "terminal_stderr.txt"
          stdoutBytes := stdout.length
          stderrBytes := stderr.length
          beforeSnapshotRef := blobRef token.jobId "terminal_before_snapshot.json"
          afterSnapshotRef := blobRef token.jobId "terminal_after_snapshot.json"
          workspaceDiffRef := blobRef token.jobId "terminal_workspace_diff.json"
          mutationDetected := isMutationCommand call.argv
          approvalRequired := isMutationCommand call.argv
          approvalId := call.approval.approvalId
          previewId := call.approval.previewId } }
  let files := files.writeBlob "terminal_before_snapshot.json" m.beforeSnapshot
  let files := files.writeBlob "terminal_stdout.txt" stdout
  let files := files.writeBlob "terminal_stderr.txt" stderr
  let files := files.writeBlob "terminal_after_snapshot.json" m.afterSnapshot
  let files := files.writeBlob "terminal_workspace_diff.json" m.workspaceDiff
  (receipt, files.appendEvents ["command_receipt", "capability_receipt"] receipt)

def runCommandInternal (token : CommandToken) (call : CommandCall) (m : Machine) (child : Child) (files : JobFiles) :
    CommandReceipt × JobFiles :=
  match refusal token call with
  | some data =>
    let receipt := blockedCommandReceipt token data
    (receipt, files.appendEvents ["command_blocked", "command_receipt", "capability_receipt"] receipt)
  | none => runAdmitted token call m child files

/-! ## what a command is for -/

/-- the ref leads to the bytes -/
def Holds (jobId : String) (files : JobFiles) (ref : String) (content : List UInt8) : Prop :=
  ∃ path, resolveBlobRef jobId ref = .ok path ∧ files.blobs path = some content

/-- the receipt has the exit code of the child and leads to all its output -/
def Finished (child : Child) (result : CommandReceipt × JobFiles) : Prop :=
  ∃ run, result.1.data = .ran run ∧ run.exitCode = some child.code ∧ run.timedOut = false ∧
    Holds result.1.jobId result.2 run.stdoutRef (written .stdout child.program.writes) ∧
    Holds result.1.jobId result.2 run.stderrRef (written .stderr child.program.writes)

/-- no round that finds the child still there before its time is over looks at the clock after the timeout -/
def Polls.Prompt (polls : Polls) (time timeoutNs : Nat) : Prop :=
  ∀ k, polls.tryAt k < polls.spawnAt + time → polls.checkAt k ≤ timeoutNs

/-! ## the loop -/

section
variable {m : Machine} {child : Child} {timeoutMs k now : Nat}

/-- what the child writes fits into the pipes -/
def Fits (m : Machine) (child : Child) : Prop :=
  (written .stdout child.program.writes).length ≤ m.capacity ∧
    (written .stderr child.program.writes).length ≤ m.capacity

theorem fits_iff : Fits m child ↔ ∀ stream, (written stream child.program.writes).length ≤ m.capacity := by
  constructor
  · intro h stream
    cases stream with
    | stdout => exact h.1
    | stderr => exact h.2
  · intro h
    exact ⟨h .stdout, h .stderr⟩

theorem exitedAt_iff (hspawned : m.polls.spawnAt ≤ now) :
    ExitedAt m child now ↔ Fits m child ∧ m.polls.spawnAt + child.program.time ≤ now := by
  rw [ExitedAt, Program.exited_unread_iff, fits_iff]
  have htime : child.program.time ≤ now - m.polls.spawnAt ↔ m.polls.spawnAt + child.program.time ≤ now := by
    omega
  rw [htime]

theorem Polls.tryAt_mono (polls : Polls) : Monotone polls.tryAt := by
  apply monotone_nat_of_le_succ
  intro k
  have hcheck := polls.try_le_check k
  have hsleeps := polls.sleeps k
  omega

theorem Polls.spawned (polls : Polls) (k : Nat) : polls.spawnAt ≤ polls.tryAt k :=
  polls.spawn_le.trans (polls.tryAt_mono (Nat.zero_le k))

theorem exists_of_not_timedOut (h : (waitLoop m child timeoutMs k).timedOut = false) :
    ∃ n, k ≤ n ∧ ExitedAt m child (m.polls.tryAt n) ∧
      (∀ j, k ≤ j → j < n → m.polls.checkAt j ≤ timeoutNs timeoutMs) := by
  fun_induction waitLoop m child timeoutMs k with
  | case1 k hexited => exact ⟨k, le_rfl, hexited, fun j hj hlt => absurd hj (by omega)⟩
  | case2 => cases h
  | case3 k hexited hcheck ih =>
    obtain ⟨n, hn, hgone, hrounds⟩ := ih h
    refine ⟨n, by omega, hgone, fun j hj hlt => ?_⟩
    by_cases hjk : j = k
    · rw [hjk]
      omega
    · exact hrounds j (by omega) hlt

theorem waitLoop_of_prompt (hfits : Fits m child)
    (hprompt : m.polls.Prompt child.program.time (timeoutNs timeoutMs)) :
    (waitLoop m child timeoutMs k).exitCode = some child.code ∧ (waitLoop m child timeoutMs k).timedOut = false ∧
      ExitedAt m child (waitLoop m child timeoutMs k).goneAt := by
  fun_induction waitLoop m child timeoutMs k with
  | case1 k hexited => exact ⟨rfl, rfl, hexited⟩
  | case2 k hexited hcheck =>
    have hearly : m.polls.tryAt k < m.polls.spawnAt + child.program.time := by
      by_contra hlate
      exact hexited ((exitedAt_iff (m.polls.spawned k)).mpr ⟨hfits, by omega⟩)
    have := hprompt k hearly
    omega
  | case3 k hexited hcheck ih => exact ih

theorem waitLoop_not_timedOut_iff : (waitLoop m child timeoutMs 0).timedOut = false ↔
    Fits m child ∧ m.polls.Prompt child.program.time (timeoutNs timeoutMs) := by
  constructor
  · intro h
    obtain ⟨n, -, hgone, hrounds⟩ := exists_of_not_timedOut h
    obtain ⟨hfits, htime⟩ := (exitedAt_iff (m.polls.spawned n)).mp hgone
    refine ⟨hfits, fun k hearly => hrounds k (Nat.zero_le k) ?_⟩
    by_contra hlate
    have := m.polls.tryAt_mono (show n ≤ k by omega)
    omega
  · rintro ⟨hfits, hprompt⟩
    exact (waitLoop_of_prompt hfits hprompt).2.1

end

/-! ## the blobs -/

theorem component_stdout : Component "terminal_stdout.txt" :=
  ⟨by decide, by decide, by decide, by decide, by decide⟩

theorem component_stderr : Component "terminal_stderr.txt" :=
  ⟨by decide, by decide, by decide, by decide, by decide⟩

theorem component_after : Component "terminal_after_snapshot.json" :=
  ⟨by decide, by decide, by decide, by decide, by decide⟩

theorem component_diff : Component "terminal_workspace_diff.json" :=
  ⟨by decide, by decide, by decide, by decide, by decide⟩

section
variable {name other jobId : String} {files : JobFiles} {content content' : List UInt8}

theorem blobs_writeBlob_self : (files.writeBlob name content).blobs (blobPath name) = some content :=
  Function.update_self ..

@[simp] theorem blobs_appendEvents {types : List String} {receipt : CommandReceipt} :
    (files.appendEvents types receipt).blobs = files.blobs := rfl

theorem blobs_writeBlob_of_ne (hname : Component name) (hother : Component other) (hne : name ≠ other) :
    (files.writeBlob other content).blobs (blobPath name) = files.blobs (blobPath name) := by
  apply Function.update_of_ne
  rw [blobPath, blobPath, hname.components, hother.components]
  exact fun h => hne (List.singleton_inj.mp h)

theorem holds_iff (hname : Component name) (h : files.blobs (blobPath name) = some content) :
    Holds jobId files (blobRef jobId name) content' ↔ content = content' := by
  constructor
  · rintro ⟨path, hpath, hcontent⟩
    rw [resolveBlobRef_blobRef jobId hname.plain] at hpath
    cases hpath
    rw [h] at hcontent
    exact Option.some.inj hcontent
  · rintro rfl
    exact ⟨blobPath name, resolveBlobRef_blobRef jobId hname.plain, h⟩

end

/-! ## commands that finish -/

section
variable {token : CommandToken} {call : CommandCall} {m : Machine} {child : Child} {files : JobFiles}

theorem finished_runAdmitted_iff : Finished child (runAdmitted token call m child files) ↔
    (waitLoop m child call.timeoutMs 0).exitCode = some child.code ∧
      (waitLoop m child call.timeoutMs 0).timedOut = false ∧
        ∀ stream, outputAt m child (waitLoop m child call.timeoutMs 0).goneAt stream =
          written stream child.program.writes := by
  have hstdout : (runAdmitted token call m child files).2.blobs (blobPath "terminal_stdout.txt") =
      some (outputAt m child (waitLoop m child call.timeoutMs 0).goneAt .stdout) := by
    unfold runAdmitted
    dsimp only
    rw [blobs_appendEvents, blobs_writeBlob_of_ne component_stdout component_diff (by decide),
      blobs_writeBlob_of_ne component_stdout component_after (by decide),
      blobs_writeBlob_of_ne component_stdout component_stderr (by decide), blobs_writeBlob_self]
  have hstderr : (runAdmitted token call m child files).2.blobs (blobPath "terminal_stderr.txt") =
      some (outputAt m child (waitLoop m child call.timeoutMs 0).goneAt .stderr) := by
    unfold runAdmitted
    dsimp only
    rw [blobs_appendEvents, blobs_writeBlob_of_ne component_stderr component_diff (by decide),
      blobs_writeBlob_of_ne component_stderr component_after (by decide), blobs_writeBlob_self]
  constructor
  · rintro ⟨run, hdata, hcode, htimed, hout, herr⟩
    cases hdata
    refine ⟨hcode, htimed, fun stream => ?_⟩
    cases stream with
    | stdout => exact (holds_iff component_stdout hstdout).mp hout
    | stderr => exact (holds_iff component_stderr hstderr).mp herr
  · rintro ⟨hcode, htimed, hwritten⟩
    exact ⟨_, rfl, hcode, htimed, (holds_iff component_stdout hstdout).mpr (hwritten .stdout),
      (holds_iff component_stderr hstderr).mpr (hwritten .stderr)⟩

/-- **a child finishes with all its output if and only if each output fits into a pipe and the parent is prompt** -/
theorem command_finished_iff (hadmitted : refusal token call = none) :
    Finished child (runCommandInternal token call m child files) ↔
      (written .stdout child.program.writes).length ≤ m.capacity ∧
        (written .stderr child.program.writes).length ≤ m.capacity ∧
          m.polls.Prompt child.program.time (timeoutNs call.timeoutMs) := by
  rw [runCommandInternal, hadmitted]
  show Finished child (runAdmitted token call m child files) ↔ _
  rw [finished_runAdmitted_iff]
  constructor
  · rintro ⟨-, htimed, -⟩
    obtain ⟨hfits, hprompt⟩ := waitLoop_not_timedOut_iff.mp htimed
    exact ⟨hfits.1, hfits.2, hprompt⟩
  · rintro ⟨hout, herr, hprompt⟩
    obtain ⟨hcode, htimed, hexited⟩ := waitLoop_of_prompt (k := 0) (And.intro hout herr : Fits m child) hprompt
    exact ⟨hcode, htimed, fun stream => Program.output_of_exited hexited⟩

end

/-! ## a full pipe -/

def evenPolls : Polls where
  spawnAt := 0
  tryAt k := k * sleepNs
  checkAt k := k * sleepNs
  killAt k := k * sleepNs
  spawn_le := Nat.zero_le _
  try_le_check _ := le_rfl
  check_le_kill _ := le_rfl
  sleeps k := (Nat.succ_mul k sleepNs).ge

/-- pipes of 64 KiB and rounds without delay -/
def evenMachine : Machine := ⟨65536, .unix, evenPolls, [], [], []⟩

def buildToken : CommandToken := ⟨"job", "pid", ["terminal.run_command"]⟩

def buildCall : CommandCall := ⟨["cargo", "build"], 60000, ⟨none, none⟩, "direct", none⟩

/-- a child that writes bytes to stdout and exits at once -/
def chatty (bytes : Nat) : Child := ⟨⟨List.replicate bytes ⟨0, .stdout, 46⟩, 0⟩, 0⟩

theorem length_written_chatty (bytes : Nat) : (written .stdout (chatty bytes).program.writes).length = bytes := by
  simp [chatty, written]

theorem time_chatty (bytes : Nat) : (chatty bytes).program.time = 0 := by
  simp [chatty, Program.time, delays]

theorem buildCall_admitted : refusal buildToken buildCall = none := by
  decide +kernel

theorem evenPolls_prompt : evenPolls.Prompt 0 (timeoutNs buildCall.timeoutMs) :=
  fun _ h => absurd h (Nat.not_lt_zero _)

theorem command_finished_build : Finished (chatty 3) (runCommandInternal buildToken buildCall evenMachine (chatty 3)
    ⟨fun _ => none, []⟩) := by
  refine (command_finished_iff buildCall_admitted).mpr ⟨by decide, by decide, ?_⟩
  rw [time_chatty]
  exact evenPolls_prompt

/-- a child that needs no time and writes one byte more than fits -/
theorem output_blocks_child : refusal buildToken buildCall = none ∧ 0 < evenMachine.capacity ∧
    (∃ now, (chatty 65537).program.Exited .atOnce evenMachine.capacity now ∧ now < timeoutNs buildCall.timeoutMs) ∧
    ¬ Finished (chatty 65537)
      (runCommandInternal buildToken buildCall evenMachine (chatty 65537) ⟨fun _ => none, []⟩) := by
  have hneeds : (chatty 65537).program.Exited .atOnce evenMachine.capacity 0 :=
    (Program.exited_read_iff (by decide)).mpr (time_chatty 65537).le
  refine ⟨buildCall_admitted, by decide, ⟨0, hneeds, by decide⟩, fun hfinished => ?_⟩
  rw [runCommandInternal, buildCall_admitted] at hfinished
  obtain ⟨-, htimed, -⟩ := finished_runAdmitted_iff.mp hfinished
  have hfits := (waitLoop_not_timedOut_iff.mp htimed).1.1
  rw [length_written_chatty] at hfits
  have : ¬ 65537 ≤ evenMachine.capacity := by decide
  exact this hfits

end Terminal

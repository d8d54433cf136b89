import SuperNova.Lib.Text
import SuperNova.Terminal.Processes

/-!
# Terminal services

`start_service`, `stop_service`, `service_status` and `stop_terminal_services_for_job`.
-/

namespace Terminal

open Io

/-! ## arguments -/

def validateServiceId (serviceId : String) : Except String String :=
  let trimmed := Text.trim serviceId
  if trimmed = "" then .error "service_id missing"
  else if trimmed.utf8ByteSize > 96 ∨
      ¬ trimmed.toList.all fun ch => ch.isAlphanum || ch == '_' || ch == '-' || ch == '.' then
    .error "service_id may contain only ASCII letters, digits, '.', '_' or '-'"
  else .ok trimmed

def mutationPatterns : List String :=
  ["remove-item", " rm ", " del ", "erase ", "move-item", "copy-item", "rename-item", "new-item",
    "set-content", "add-content", "out-file", "mkdir", "rmdir", "touch ", " > ", ">>"]

def isMutationCommand (argv : List String) : Bool :=
  let joined := Text.toAsciiLowercase (Text.join " " argv)
  mutationPatterns.any fun pattern => Text.contains joined pattern

/-- a drive letter, a colon and a separator -/
def startsWithDrive : List Char → Bool
  | c :: ':' :: s :: _ => c.toNat < 128 && (s == '\\' || s == '/')
  | _ => false

def looksLikeAbsoluteOrParentPath (value : String) : Bool :=
  let trimmed := Text.trimMatches (· == '\'') (Text.trimMatches (· == '"') value)
  Text.contains trimmed "../" || Text.contains trimmed "..\\" ||
    trimmed.toList.head? == some '/' || trimmed.toList.head? == some '~' ||
    startsWithDrive trimmed.toList

/-- `terminal_workspace_boundary_violation`, without a script -/
def terminalWorkspaceBoundaryViolation (argv : List String) : Option String :=
  let lower := Text.toAsciiLowercase (Text.join " " argv)
  if ["..\\", "../", " .. "].any (Text.contains lower) then
    some "terminal mutation references a parent directory and cannot be approved"
  else if [" > /", " >/", " >> /", ">>/", " > ~", " > %userprofile%", " > $home"].any
      (Text.contains lower) then
    some "terminal mutation writes outside the workspace boundary and cannot be approved"
  else if (argv.drop 1).any looksLikeAbsoluteOrParentPath then
    some "terminal mutation contains a non-workspace-scoped path and cannot be approved"
  else none

/-! ## receipts -/

structure Receipt where
  capabilityId : String
  status : String
  reason : Option String := none
  record : Option TerminalServiceRecord := none
  wasRunning : Option Bool := none
  stopSignalSent : Option Bool := none

/-- `blocked_receipt_with_data`; its events may be missing -/
def blockedReceipt (capabilityId reason : String) : Receipt where
  capabilityId
  status := "blocked"
  reason := some reason

def appendReceiptEvents : ServiceM Unit := do
  attempt "the service event cannot be appended"
  attempt "the receipt event cannot be appended"

def serviceReceipt (capabilityId status : String) (record : TerminalServiceRecord)
    (reason : Option String) : ServiceM Receipt := do
  writeServiceRecord record
  appendReceiptEvents
  pure { capabilityId, status, reason, record := some record }

/-! ## start -/

structure StartArguments where
  capabilities : List String
  serviceId : String
  argv : List String
  startupTimeoutMs : Nat
  healthCheck : Option TerminalServiceHealthCheck
  expectedPorts : List Nat
  /-- the rounds of polling before the time is over -/
  rounds : Nat

def serviceHealthReady (c : Choice) (healthCheck : Option TerminalServiceHealthCheck)
    (expectedPorts : List Nat) : Bool :=
  expectedPorts.any (· ∈ c.openPorts) ||
    match healthCheck with
    | none => expectedPorts.isEmpty
    | some check =>
      if check.kind = "http" then check.url.any (· ∈ c.okUrls)
      else if check.kind = "tcp" then check.port.any (· ∈ c.openPorts)
      else false

/-- the test of one round; a service without a check is ready at once -/
def isReady (a : StartArguments) : ServiceM Bool := do
  let c ← surroundings
  pure (serviceHealthReady c a.healthCheck a.expectedPorts ||
    (a.healthCheck.isNone && a.expectedPorts.isEmpty))

inductive Startup where
  | exited
  | ready
  | timedOut
  deriving DecidableEq

/-- one round; what comes after it when the service is neither gone nor ready -/
def pollRound (a : StartArguments) (pid : Nat) (otherwise : ServiceM Startup) : ServiceM Startup := do
  if ← tryWait pid then pure .exited
  else if ← isReady a then pure .ready
  else otherwise

/-- the loop that waits for the service -/
def awaitReady (a : StartArguments) (pid : Nat) : Nat → ServiceM Startup
  | 0 => pollRound a pid do
    killAndWait pid
    pure .timedOut
  | rounds + 1 => pollRound a pid (awaitReady a pid rounds)

def startedRecord (a : StartArguments) (serviceId : String) (pid : Nat) (startup : Startup) :
    TerminalServiceRecord where
  serviceId
  pid
  argv := a.argv
  status := if startup = .ready then .running else .failed
  healthStatus :=
    match startup with
    | .exited => .processExitedBeforeReady
    | .ready => .ready
    | .timedOut => .startupTimeout
  healthCheck := a.healthCheck
  expectedPorts := a.expectedPorts
  stopReason := none
  exitObserved := startup ≠ .ready

def Startup.reason : Startup → Option String
  | .exited => some "process exited before service became ready"
  | _ => none

/-- from the log files on -/
def spawnService (a : StartArguments) (serviceId : String) : ServiceM Receipt := do
  attempt "the log files cannot be written"
  let pid ← spawn
  let startup ← awaitReady a pid a.rounds
  let record := startedRecord a serviceId pid startup
  writeServiceRecord record
  serviceReceipt "terminal.start_service" (if startup = .ready then "success" else "failed") record
    startup.reason

/-- a record that says running, and a process that has its pid -/
def alreadyRunning : Option TerminalServiceRecord → ServiceM Bool
  | none => pure false
  | some existing =>
    if existing.status = .running then processIsRunning existing.pid else pure false

/-- the command would change something outside the workspace -/
def blockedCommand (argv : List String) : Option String :=
  if isMutationCommand argv then terminalWorkspaceBoundaryViolation argv else none

/-- from the existing record on -/
def startIfStopped (a : StartArguments) (serviceId : String) : ServiceM Receipt := do
  let existing ← readServiceRecord serviceId
  if ← alreadyRunning existing then
    pure (blockedReceipt "terminal.start_service" "terminal service is already running")
  else
    match blockedCommand a.argv with
    | some reason => pure (blockedReceipt "terminal.start_service" reason)
    | none => releasing (spawnService a serviceId)

def startService (a : StartArguments) : ServiceM Receipt :=
  if "terminal.start_service" ∉ a.capabilities then
    pure (blockedReceipt "terminal.start_service" "terminal.start_service not granted")
  else do
    let serviceId ← lift (validateServiceId a.serviceId)
    if a.argv = [] then pure (blockedReceipt "terminal.start_service" "empty argv")
    else if a.startupTimeoutMs = 0 then
      pure (blockedReceipt "terminal.start_service"
        "startup_timeout_ms must be provided and greater than zero")
    else startIfStopped a serviceId

/-! ## stop and status -/

def stoppedRecord (record : TerminalServiceRecord) (stopped : Bool) (reason : String) :
    TerminalServiceRecord :=
  { record with
    status := if stopped then .stopped else .failed
    healthStatus := if stopped then .stopped else .stopFailed
    stopReason := some reason }

def stopIfRunning (wasRunning : Bool) (pid : Nat) : ServiceM Bool :=
  if wasRunning then stopProcessTree pid else pure true

def stopServiceRecord (record : TerminalServiceRecord) (reason : String) : ServiceM Receipt := do
  let wasRunning ← alreadyRunning (some record)
  let stopped ← stopIfRunning wasRunning record.pid
  writeServiceRecord (stoppedRecord record stopped reason)
  appendReceiptEvents
  pure
    { capabilityId := "terminal.stop_service"
      status := if stopped then "success" else "failed"
      reason := some reason
      record := some (stoppedRecord record stopped reason)
      wasRunning := some wasRunning
      stopSignalSent := some stopped }

/-- the record of a service whose process is gone -/
def exitedRecord (record : TerminalServiceRecord) : TerminalServiceRecord :=
  { record with
    status := .exited
    healthStatus := .processExited
    exitObserved := true }

def refreshServiceRecordStatus (record : TerminalServiceRecord) : ServiceM TerminalServiceRecord := do
  if record.status = .running then
    if ← processIsRunning record.pid then pure record
    else do
      writeServiceRecord (exitedRecord record)
      pure (exitedRecord record)
  else pure record

/-- a call on the record of one service, if it is granted and there is a record -/
def withService (capabilities : List String) (capabilityId serviceId : String)
    (f : TerminalServiceRecord → ServiceM Receipt) : ServiceM Receipt :=
  if capabilityId ∉ capabilities then
    pure (blockedReceipt capabilityId (capabilityId ++ " not granted"))
  else do
    let serviceId ← lift (validateServiceId serviceId)
    match ← readServiceRecord serviceId with
    | none => pure (blockedReceipt capabilityId "terminal service not found")
    | some record => f record

def stopService (capabilities : List String) (serviceId : String) (reason : Option String) :
    ServiceM Receipt :=
  withService capabilities "terminal.stop_service" serviceId fun record =>
    stopServiceRecord record (reason.getD "user_requested")

def serviceStatus (capabilities : List String) (serviceId : String) : ServiceM Receipt :=
  withService capabilities "terminal.service_status" serviceId fun record => do
    let record ← refreshServiceRecordStatus record
    serviceReceipt "terminal.service_status" "success" record none

/-! ## the end of a job -/

/-- the files of the registry, in the order in which the directory lists them -/
def Registry.listing (reg : Registry) (order : List String) : List String :=
  let ids := reg.files.map Prod.fst
  order.filter (· ∈ ids) ++ ids.filter (· ∉ order)

/-- one file of the registry -/
def stopListed (reason : String) (id : String) : ServiceM Unit := do
  match ← readServiceRecord id with
  | none => pure ()
  | some record =>
    if record.status = .running then do
      let _ ← stopServiceRecord record reason
      pure ()
    else pure ()

def stopTerminalServicesForJob (order : List String) (reason : String) : ServiceM Unit := do
  let w ← get
  (w.registry.listing order).forM (stopListed reason)

/-! ## runs -/

/-- a call on the services of a job, or a time in which none is made -/
inductive Call where
  | start (a : StartArguments)
  | stop (capabilities : List String) (serviceId : String) (reason : Option String)
  | status (capabilities : List String) (serviceId : String)
  | stopAll (order : List String) (reason : String)
  | wait (moves : List Move)

/-- the world after a call, whether it fails or not -/
def World.call (w : World) : Call → World
  | .start a => final (startService a) w
  | .stop capabilities serviceId reason => final (stopService capabilities serviceId reason) w
  | .status capabilities serviceId => final (serviceStatus capabilities serviceId) w
  | .stopAll order reason => final (stopTerminalServicesForJob order reason) w
  | .wait moves => moves.foldl World.move w

def World.calls (w : World) (calls : List Call) : World := calls.foldl World.call w

end Terminal

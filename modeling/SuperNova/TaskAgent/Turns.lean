import Mathlib.Algebra.Group.Nat.Defs
import SuperNova.Lib.Json
import SuperNova.Lib.Text

/-!
# The turns of a session

A session of the task agent takes turn after turn, and a job can have one session after another.  Which turn comes next
is read off the job's events: the turns that were started, those that were completed, and the states that sessions wrote
down.

* `applyEvent`, `replayTaskContextState`: what the events say about the turns;
* `Phase`, `World.step`: a session, from one append or replay to the next, that may end at any point;
* `Inv`: the next turn comes behind all that were started, `inv_step`: what a step keeps;
* `turns_ordered` (**main**): the turns of a job have different ids and increasing indices.
-/

namespace TaskSession

/-! ## events -/

/-- an event of the job: its type and its data -/
structure ProcessEvent where
  eventType : String
  data : Json

def eventRuntimeId (event : ProcessEvent) : Option String := (event.data.get? "runtime_id").bind Json.asStr?

def eventSessionId (event : ProcessEvent) : Option String :=
  ((event.data.get? "task_agent_session_id").bind Json.asStr?).or
    (((event.data.get? "session_id").bind Json.asStr?).or (eventRuntimeId event))

def turnIndexFromEvent (event : ProcessEvent) : Option Nat := (event.data.get? "turn_index").bind Json.asNat?

def turnIdFromEvent (event : ProcessEvent) : Option String := (event.data.get? "turn_id").bind Json.asStr?

/-! ## the state of the turns -/

def maxUsize : Nat := 2 ^ 64 - 1

/-- `saturating_add(1)` -/
def saturatingSucc (n : Nat) : Nat := min (n + 1) maxUsize

/-- `TaskContextState`: the turns, and whether a session was ever started -/
structure TaskContextState where
  currentTurnIndex : Nat
  nextTurnIndex : Nat
  lastTurnId : Option String
  started : Bool
  startEventCount : Nat

def TaskContextState.initial : TaskContextState := ⟨0, 1, none, false, 0⟩

namespace TaskContextState

/-- `apply_context_update` -/
def applyContextUpdate (state : TaskContextState) (data : Json) : TaskContextState :=
  { state with
    currentTurnIndex := ((data.get? "current_turn_index").bind Json.asNat?).getD state.currentTurnIndex
    nextTurnIndex := ((data.get? "next_turn_index").bind Json.asNat?).getD state.nextTurnIndex
    lastTurnId := ((data.get? "last_turn_id").bind Json.asStr?).or state.lastTurnId }

/-- the turn with this index has been seen -/
def seeTurn (state : TaskContextState) (turnIndex : Nat) (turnId : Option String) : TaskContextState :=
  { state with
    currentTurnIndex := max state.currentTurnIndex turnIndex
    nextTurnIndex := max state.nextTurnIndex (saturatingSucc turnIndex)
    lastTurnId := turnId.or state.lastTurnId }

end TaskContextState

/-- one event of `replay_task_context_state_from_events` -/
def applyEvent (sessionId : String) (state : TaskContextState) (event : ProcessEvent) : TaskContextState :=
  match event.eventType with
  | "task_agent_session_started" =>
    if eventRuntimeId event = some sessionId then
      { state with started := true, startEventCount := saturatingSucc state.startEventCount }
    else state
  | "task_context_state_updated" =>
    if eventSessionId event = some sessionId then state.applyContextUpdate event.data else state
  | "task_agent_turn_started" =>
    if eventRuntimeId event = some sessionId then
      state.seeTurn ((turnIndexFromEvent event).getD state.nextTurnIndex) (turnIdFromEvent event)
    else state
  | "task_agent_turn_completed" =>
    if eventRuntimeId event = some sessionId then
      state.seeTurn ((turnIndexFromEvent event).getD state.currentTurnIndex) (turnIdFromEvent event)
    else state
  | _ => state

def replayTaskContextState (sessionId : String) (events : List ProcessEvent) : TaskContextState :=
  events.foldl (applyEvent sessionId) .initial

/-- the types of events that the turns are read off -/
def turnEventTypes : List String :=
  ["task_agent_session_started", "task_context_state_updated", "task_agent_turn_started", "task_agent_turn_completed"]

/-! ## what a session appends -/

/-- what the events of a session hold that does not come from the turns: refs, texts of the model, the state of the
job -/
structure Other where
  goalRef : String
  systemPromptRef : String
  stateRef : String
  decisionId : String
  status : String
  waitingFor : Option String
  latestObservationRef : Option String
  lastDecisionId : Option String

section
variable (rootPid runtimeId : String)

def sessionFields : List (String × Json) :=
  [("runtime_id", .str runtimeId), ("session_id", .str runtimeId), ("task_agent_session_id", .str runtimeId)]

/-- `start_session` -/
def sessionStarted (other : Other) : ProcessEvent :=
  ⟨"task_agent_session_started", .obj (sessionFields runtimeId ++ [
    ("agent_kind", .str "task_scoped_temporary_agent"), ("reasoner", .str "interactive_task_agent_session"),
    ("checkpoint_strategy", .str "process_truth_refs_only"), ("goal_ref", .str other.goalRef),
    ("system_prompt_ref", .str other.systemPromptRef)])⟩

def sessionResumed (context : TaskContextState) : ProcessEvent :=
  ⟨"task_agent_session_resumed", .obj (sessionFields runtimeId ++ [("root_pid", .str rootPid),
    ("next_turn_index", .num context.nextTurnIndex), ("current_turn_index", .num context.currentTurnIndex),
    ("resume_strategy", .str "continue_existing_task_context_state")])⟩

def turnId (turnIndex : Nat) : String := "turn_" ++ runtimeId ++ "_" ++ toString turnIndex

/-- `start_turn` -/
def turnStarted (turnIndex : Nat) : ProcessEvent :=
  ⟨"task_agent_turn_started", .obj (sessionFields runtimeId ++ [("turn_id", .str (turnId runtimeId turnIndex)),
    ("turn_index", .num turnIndex)])⟩

/-- `complete_turn` -/
def turnCompleted (turnIndex : Nat) (other : Other) : ProcessEvent :=
  ⟨"task_agent_turn_completed", .obj (sessionFields runtimeId ++ [("turn_id", .str (turnId runtimeId turnIndex)),
    ("turn_index", .num turnIndex), ("decision_id", .str other.decisionId), ("status", .str other.status)])⟩

/-- `record_task_context_state` -/
def contextStateUpdated (state : TaskContextState) (reason : String) (other : Other) : ProcessEvent :=
  ⟨"task_context_state_updated", .obj (sessionFields runtimeId ++ [("root_pid", .str rootPid),
    ("state_ref", .str other.stateRef), ("reason", .str reason),
    ("current_turn_index", .num state.currentTurnIndex), ("next_turn_index", .num state.nextTurnIndex),
    ("status", .str other.status), ("waiting_for", .ofText? other.waitingFor),
    ("latest_observation_ref", .ofText? other.latestObservationRef), ("last_turn_id", .ofText? state.lastTurnId),
    ("last_decision_id", .ofText? other.lastDecisionId), ("started", .bool state.started)])⟩

end

/-! ## a session -/

/-- where a session is: before each of its appends that the turns are read off, and before each of its replays -/
inductive Phase where
  /-- with the state that it found, before it says that it starts or resumes -/
  | opening (context : TaskContextState)
  | opened
  | recordingOpen (state : TaskContextState)
  /-- before a turn, and how many it took -/
  | turning (turnIndex turnsRun : Nat)
  | acting (turnIndex turnsRun : Nat)
  | completed (turnIndex turnsRun : Nat) (status : String)
  | recordingTurn (context : TaskContextState) (turnIndex turnsRun : Nat) (status : String)

structure Session where
  maxTurns : Nat
  resumed : Bool
  phase : Phase

/-- the events of the job, and its session if one is under way -/
structure World where
  log : List ProcessEvent
  session : Option Session

inductive Label where
  /-- a session is run, to start the task or to go on with it -/
  | run (maxTurns : Nat)
  /-- the session goes on to its next append or replay -/
  | advance (other : Other)
  /-- an event of another type, by the session or by anything else -/
  | note (event : ProcessEvent)
  /-- the session ends where it is: a crash, or an error -/
  | crash

/-- the largest id that an event can get -/
def maxEventId : Nat := 2 ^ 63 - 1

/-- `append_event`, which fails when there are no more ids; then the session ends -/
def World.append (w : World) (event : ProcessEvent) (session : Option Session) : World :=
  if w.log.length < maxEventId then ⟨w.log ++ [event], session⟩ else ⟨w.log, none⟩

/-- the statuses with which a session returns -/
def sessionEnds (status : String) : Bool :=
  status ∈ ["completed", "failed", "blocked", "interrupted", "waiting_user", "waiting_approval"]

section
variable (rootPid runtimeId : String)

/-- `TaskAgentSession::run`, from one append or replay to the next -/
def Session.advance (s : Session) (w : World) (other : Other) : World :=
  match s.phase with
  | .opening context =>
    w.append (if context.started then sessionResumed rootPid runtimeId context else sessionStarted runtimeId other)
      (some { s with resumed := context.started, phase := .opened })
  | .opened => { w with session := some { s with
      phase := .recordingOpen (replayTaskContextState runtimeId w.log) } }
  | .recordingOpen state =>
    w.append (contextStateUpdated rootPid runtimeId state
        (if s.resumed then "session_resumed" else "session_started") other)
      (some { s with phase := .turning (max state.nextTurnIndex 1) 0 })
  | .turning turnIndex turnsRun =>
    if s.maxTurns ≠ 0 ∧ turnsRun ≥ s.maxTurns then { w with session := none }
    else w.append (turnStarted runtimeId turnIndex)
      (some { s with phase := .acting turnIndex (saturatingSucc turnsRun) })
  | .acting turnIndex turnsRun =>
    w.append (turnCompleted runtimeId turnIndex other)
      (some { s with phase := .completed turnIndex turnsRun other.status })
  | .completed turnIndex turnsRun status => { w with session := some { s with
      phase := .recordingTurn (replayTaskContextState runtimeId w.log) turnIndex turnsRun status } }
  | .recordingTurn context turnIndex turnsRun status =>
    w.append (contextStateUpdated rootPid runtimeId context "turn_completed" other)
      (if sessionEnds status then none
      else some { s with phase := .turning (max context.nextTurnIndex (saturatingSucc turnIndex)) turnsRun })

/-- one step; what cannot happen now changes nothing -/
def World.step (w : World) : Label → World
  | .run maxTurns =>
    match w.session with
    | some _ => w
    | none => { w with session := some ⟨maxTurns, false, .opening (replayTaskContextState runtimeId w.log)⟩ }
  | .advance other =>
    match w.session with
    | some s => s.advance rootPid runtimeId w other
    | none => w
  | .note event => if event.eventType ∈ turnEventTypes then w else w.append event w.session
  | .crash => { w with session := none }

def World.start : World := ⟨[], none⟩

def World.run (labels : List Label) : World := labels.foldl (World.step rootPid runtimeId) .start

end

/-! ## what an event does to the turns -/

section
variable {runtimeId rootPid : String} {state context : TaskContextState} {turnIndex : Nat} {other : Other}
  {log : List ProcessEvent} {event : ProcessEvent}

theorem replay_concat : replayTaskContextState runtimeId (log ++ [event]) =
    applyEvent runtimeId (replayTaskContextState runtimeId log) event := List.foldl_concat _ _ _ _

theorem applyEvent_note (h : event.eventType ∉ turnEventTypes) : applyEvent runtimeId state event = state := by
  simp only [turnEventTypes, List.mem_cons, List.not_mem_nil, or_false, not_or] at h
  unfold applyEvent
  split
  · exact absurd ‹_› h.1
  · exact absurd ‹_› h.2.1
  · exact absurd ‹_› h.2.2.1
  · exact absurd ‹_› h.2.2.2
  · rfl

theorem applyEvent_started : applyEvent runtimeId state (sessionStarted runtimeId other) =
    { state with started := true, startEventCount := saturatingSucc state.startEventCount } := if_pos rfl

theorem applyEvent_turnStarted : applyEvent runtimeId state (turnStarted runtimeId turnIndex) =
    state.seeTurn turnIndex (some (turnId runtimeId turnIndex)) := if_pos rfl

theorem applyEvent_turnCompleted : applyEvent runtimeId state (turnCompleted runtimeId turnIndex other) =
    state.seeTurn turnIndex (some (turnId runtimeId turnIndex)) := if_pos rfl

theorem applyEvent_updated {reason : String} : (applyEvent runtimeId state
    (contextStateUpdated rootPid runtimeId context reason other)).nextTurnIndex = context.nextTurnIndex := by
  have h : applyEvent runtimeId state (contextStateUpdated rootPid runtimeId context reason other) =
    state.applyContextUpdate (contextStateUpdated rootPid runtimeId context reason other).data := if_pos rfl
  rw [h]
  rfl

theorem seeTurn_next (state : TaskContextState) (turnIndex : Nat) (turnId : Option String) :
    (state.seeTurn turnIndex turnId).nextTurnIndex = max state.nextTurnIndex (saturatingSucc turnIndex) := rfl

theorem saturatingSucc_of_le (h : turnIndex ≤ maxEventId) : saturatingSucc turnIndex = turnIndex + 1 :=
  min_eq_left (Nat.succ_le_succ h |>.trans (by decide))

end

/-! ## what a step keeps -/

/-- the turns that were started -/
def turnStarts (log : List ProcessEvent) : List ProcessEvent :=
  log.filter fun event => event.eventType = "task_agent_turn_started"

/-- what a session is about to do fits what the events say: the next turn is the one it will start, or the one
behind the one it is in -/
def Phase.Fits (next : Nat) : Phase → Prop
  | .opening _ => True
  | .opened => True
  | .recordingOpen state => state.nextTurnIndex = next
  | .turning turnIndex _ => turnIndex = next
  | .acting turnIndex _ => next = turnIndex + 1
  | .completed turnIndex _ _ => next = turnIndex + 1
  | .recordingTurn context turnIndex _ _ => context.nextTurnIndex = next ∧ next = turnIndex + 1

/-- the next turn comes behind all that were started -/
structure LogInv (runtimeId : String) (log : List ProcessEvent) (next : Nat) : Prop where
  starts : ∃ indices : List Nat, turnStarts log = indices.map (turnStarted runtimeId) ∧
    indices.Pairwise (· < ·) ∧ ∀ turnIndex ∈ indices, turnIndex < next
  positive : 1 ≤ next
  bounded : next ≤ log.length + 1

structure Inv (runtimeId : String) (w : World) : Prop where
  log : LogInv runtimeId w.log (replayTaskContextState runtimeId w.log).nextTurnIndex
  session : ∀ s, w.session = some s → s.phase.Fits (replayTaskContextState runtimeId w.log).nextTurnIndex

section
variable {rootPid runtimeId : String} {w : World} {log : List ProcessEvent} {event : ProcessEvent} {s : Session}
  {session : Option Session} {next turnIndex : Nat} {label : Label} {other : Other}

theorem turnStarts_concat (h : event.eventType ≠ "task_agent_turn_started") :
    turnStarts (log ++ [event]) = turnStarts log := by
  rw [turnStarts, List.filter_append, List.filter_singleton, decide_eq_false h, cond_false, List.append_nil, turnStarts]

theorem LogInv.concat (h : LogInv runtimeId log next) (htype : event.eventType ≠ "task_agent_turn_started") :
    LogInv runtimeId (log ++ [event]) next where
  starts := by
    rw [turnStarts_concat htype]
    exact h.starts
  positive := h.positive
  bounded := h.bounded.trans (by rw [List.length_append]; exact Nat.le_succ _)

theorem LogInv.turnStarted (h : LogInv runtimeId log next) :
    LogInv runtimeId (log ++ [turnStarted runtimeId next]) (next + 1) where
  starts := by
    obtain ⟨indices, hstarts, hincreasing, hbelow⟩ := h.starts
    refine ⟨indices ++ [next], ?_, List.pairwise_append.mpr ⟨hincreasing, List.pairwise_singleton _ _, ?_⟩, ?_⟩
    · rw [turnStarts, List.filter_append, ← turnStarts, hstarts, List.map_append]
      rfl
    · intro earlier hearlier last hlast
      rw [List.mem_singleton.mp hlast]
      exact hbelow earlier hearlier
    · intro turnIndex hmem
      rcases List.mem_append.mp hmem with hmem | hmem
      · exact (hbelow turnIndex hmem).trans (Nat.lt_succ_self next)
      · rw [List.mem_singleton.mp hmem]
        exact Nat.lt_succ_self next
  positive := Nat.le_add_left 1 next
  bounded := by
    rw [List.length_append]
    exact Nat.succ_le_succ h.bounded

theorem Inv.append (h : Inv runtimeId w) (hlog : LogInv runtimeId (w.log ++ [event]) next)
    (hnext : w.log.length < maxEventId →
      (applyEvent runtimeId (replayTaskContextState runtimeId w.log) event).nextTurnIndex = next)
    (hsession : ∀ s, session = some s → s.phase.Fits next) : Inv runtimeId (w.append event session) := by
  unfold World.append
  split
  next hroom =>
    have hreplay : (replayTaskContextState runtimeId (w.log ++ [event])).nextTurnIndex = next := by
      rw [replay_concat]
      exact hnext hroom
    refine ⟨?_, fun s hs => ?_⟩
    · rw [hreplay]
      exact hlog
    · rw [hreplay]
      exact hsession s hs
  next => exact ⟨h.log, fun s hs => nomatch hs⟩

theorem Inv.crash (h : Inv runtimeId w) : Inv runtimeId { w with session := none } := ⟨h.log, fun _ hs => nomatch hs⟩

theorem Inv.withSession (h : Inv runtimeId w)
    (hfits : s.phase.Fits (replayTaskContextState runtimeId w.log).nextTurnIndex) :
    Inv runtimeId { w with session := some s } := by
  refine ⟨h.log, fun s' hs' => ?_⟩
  cases hs'
  exact hfits

/-- **a session** starts the next turn, and leaves the turns alone otherwise -/
theorem inv_advance (h : Inv runtimeId w) (hs : w.session = some s) :
    Inv runtimeId (s.advance rootPid runtimeId w other) := by
  have hfits := h.session s hs
  unfold Session.advance
  cases hphase : s.phase with
  | opening context =>
    dsimp only
    split
    · refine h.append (h.log.concat (show "task_agent_session_resumed" ≠ _ by decide)) (fun _ => rfl) fun s' hs' => ?_
      cases hs'
      exact trivial
    · refine h.append (h.log.concat (show "task_agent_session_started" ≠ _ by decide)) (fun _ => ?_) fun s' hs' => ?_
      · rw [applyEvent_started]
      · cases hs'
        exact trivial
  | opened => exact h.withSession rfl
  | recordingOpen state =>
    rw [hphase] at hfits
    refine h.append (h.log.concat (show "task_context_state_updated" ≠ _ by decide)) (fun _ => ?_) fun s' hs' => ?_
    · rw [applyEvent_updated]
      exact hfits
    · cases hs'
      have hpositive := h.log.positive
      rw [← hfits] at hpositive ⊢
      exact max_eq_left hpositive
  | turning turnIndex turnsRun =>
    rw [hphase] at hfits
    dsimp only
    split
    · exact h.crash
    · have hturn : turnIndex = (replayTaskContextState runtimeId w.log).nextTurnIndex := hfits
      rw [hturn]
      refine h.append h.log.turnStarted (fun hroom => ?_) fun s' hs' => ?_
      · rw [applyEvent_turnStarted, seeTurn_next, saturatingSucc_of_le (h.log.bounded.trans hroom)]
        exact max_eq_right (Nat.le_succ _)
      · cases hs'
        exact rfl
  | acting turnIndex turnsRun =>
    rw [hphase] at hfits
    have hturn : (replayTaskContextState runtimeId w.log).nextTurnIndex = turnIndex + 1 := hfits
    refine h.append (h.log.concat (show "task_agent_turn_completed" ≠ _ by decide)) (fun _ => ?_) fun s' hs' => ?_
    · rw [applyEvent_turnCompleted, seeTurn_next, hturn]
      exact max_eq_left (min_le_left _ _)
    · cases hs'
      exact hfits
  | completed turnIndex turnsRun status =>
    rw [hphase] at hfits
    exact h.withSession ⟨rfl, hfits⟩
  | recordingTurn context turnIndex turnsRun status =>
    rw [hphase] at hfits
    refine h.append (h.log.concat (show "task_context_state_updated" ≠ _ by decide)) (fun _ => ?_) fun s' hs' => ?_
    · rw [applyEvent_updated]
      exact hfits.1
    · split at hs'
      · cases hs'
      · cases hs'
        show max context.nextTurnIndex (saturatingSucc turnIndex) = _
        rw [hfits.1, hfits.2]
        exact max_eq_left (min_le_left _ _)

/-- **what a step keeps** -/
theorem inv_step (h : Inv runtimeId w) : Inv runtimeId (w.step rootPid runtimeId label) := by
  cases label with
  | run maxTurns =>
    simp only [World.step]
    split
    · exact h
    · exact h.withSession (s := ⟨maxTurns, false, .opening _⟩) trivial
  | advance other =>
    simp only [World.step]
    split
    next s hs => exact inv_advance h hs
    next => exact h
  | note event =>
    simp only [World.step]
    split
    · exact h
    next htype =>
      have hstart : event.eventType ≠ "task_agent_turn_started" := by
        rintro hstart
        rw [hstart] at htype
        exact htype (by decide)
      refine h.append (h.log.concat hstart) (fun _ => ?_) h.session
      rw [applyEvent_note htype]
  | crash => exact h.crash

theorem inv_start : Inv runtimeId .start where
  log := ⟨⟨[], rfl, List.Pairwise.nil, fun _ h => absurd h List.not_mem_nil⟩, Nat.le_refl 1, Nat.le_refl 1⟩
  session _ h := nomatch h

theorem inv_run (labels : List Label) : Inv runtimeId (World.run rootPid runtimeId labels) := by
  induction labels using List.reverseRecOn with
  | nil => exact inv_start
  | append_singleton labels label ih =>
    rw [World.run, List.foldl_concat]
    exact inv_step ih

theorem turnId_inj {m n : Nat} (h : turnId runtimeId m = turnId runtimeId n) : m = n :=
  Text.toString_inj (Text.append_left_inj h)

end

/-- **the turns of a job**, whatever its sessions, their ends and the other events: the events of started turns hold
increasing indices and different ids -/
theorem turns_ordered (rootPid runtimeId : String) (labels : List Label) :
    ∃ indices : List Nat, ∃ ids : List String,
      (turnStarts (World.run rootPid runtimeId labels).log).map turnIndexFromEvent = indices.map some ∧
      (turnStarts (World.run rootPid runtimeId labels).log).map turnIdFromEvent = ids.map some ∧
      indices.Pairwise (· < ·) ∧ ids.Nodup := by
  obtain ⟨indices, hstarts, hincreasing, -⟩ := (@inv_run rootPid runtimeId labels).log.starts
  refine ⟨indices, indices.map (turnId runtimeId), ?_, ?_, hincreasing, ?_⟩
  · rw [hstarts, List.map_map]
    rfl
  · rw [hstarts, List.map_map, List.map_map]
    rfl
  · exact (hincreasing.imp fun h => ne_of_lt h).map _ fun m n hne hid => hne (turnId_inj hid)

/-- a session that crashes in its first turn, and the next one -/
example : (turnStarts (World.run "pid" "tar" (
    [.run 0] ++ List.replicate 4 (.advance ⟨"", "", "", "", "", none, none, none⟩) ++
      [.crash, .run 0] ++ List.replicate 4 (.advance ⟨"", "", "", "", "", none, none, none⟩))).log).map
        turnIndexFromEvent = [some 1, some 2] := by
  decide +kernel

end TaskSession

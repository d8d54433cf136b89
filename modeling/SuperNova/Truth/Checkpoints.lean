import SuperNova.Lib.Json
import SuperNova.Truth.Blobs
import Mathlib.Data.List.Sort

/-!
# Checkpoints of a job

A checkpoint is a blob with the state, an event and a row.  The blob and the row are named after the clock; the blob
is written first, over what was there, then the event is appended, and the row is inserted last.

* `saveCheckpoint`, `listCheckpoints`: the calls, with the events that others append between them;
* `Kept`: every save succeeds, the rows are those of the events, and the refs lead to the states;
* `checkpoints_kept_iff` (**main**): this holds after any calls exactly when no two saves read one time off the
  clock;
* `saved_twice`: two saves in one millisecond.
-/

set_option linter.unusedSectionVars false

namespace Checkpoints

open Truth Workspace

/-! ## the store -/

/-- the id of a job, which names a directory -/
structure JobId where
  name : String
  component : Component name

structure CheckpointRecord where
  checkpointId : String
  jobId : String
  pid : String
  runtimeId : Option String
  kind : String
  stateRef : String
  inputRefs : List String
  outputRefs : List String
  createdEventId : Nat

structure CheckpointRef where
  checkpointId : String
  jobId : String
  pid : String
  runtimeId : Option String
  kind : String
  stateRef : String

structure ProcessEvent where
  eventId : Nat
  timestampMs : Nat
  pid : Option String
  eventType : String
  data : Json

inductive TruthError where
  | uniqueConstraintFailed (column : String)

/-- the table `checkpoints`, with `checkpoint_id` as its primary key -/
structure CheckpointTable where
  rows : List CheckpointRecord
  id_unique : (rows.map (·.checkpointId)).Nodup

/-- what the store of a job has; a blob is the document that it was written from -/
structure TruthStore where
  blobs : Path → Option Json
  events : List ProcessEvent
  checkpoints : CheckpointTable

def TruthStore.empty : TruthStore := ⟨fun _ => none, [], ⟨[], List.nodup_nil⟩⟩

/-- `INSERT INTO checkpoints` -/
def CheckpointTable.insert (t : CheckpointTable) (record : CheckpointRecord) : Except TruthError CheckpointTable :=
  if h : record.checkpointId ∈ t.rows.map (·.checkpointId) then
    .error (.uniqueConstraintFailed "checkpoints.checkpoint_id")
  else .ok ⟨t.rows ++ [record], by
    rw [List.map_append]
    refine List.nodup_append.mpr ⟨t.id_unique, List.nodup_singleton _, ?_⟩
    rintro id hid id' hid' rfl
    obtain rfl := List.mem_singleton.mp hid'
    exact h hid⟩

/-! ## calls -/

structure CheckpointRequest where
  pid : String
  runtimeId : Option String
  kind : String
  state : Json
  inputRefs : List String
  outputRefs : List String

variable (job : JobId)

def checkpointId (now : Nat) : String := "ckpt_" ++ job.name ++ "_" ++ toString now

/-- the name of the blob -/
def stateBlob (now : Nat) : String := "checkpoints/" ++ checkpointId job now ++ ".json"

def TruthStore.writeBlob (store : TruthStore) (name : String) (content : Json) : TruthStore × String :=
  ({ store with blobs := Function.update store.blobs (blobPath name) (some content) }, blobRef job.name name)

/-- `COALESCE(MAX(event_id), 0) + 1` -/
def nextEventId (events : List ProcessEvent) : Nat := (events.map (·.eventId)).foldr max 0 + 1

def TruthStore.appendEvent (store : TruthStore) (timestampMs : Nat) (pid : Option String) (eventType : String)
    (data : Json) : TruthStore × ProcessEvent :=
  let event := ⟨nextEventId store.events, timestampMs, pid, eventType, data⟩
  ({ store with events := store.events ++ [event] }, event)

/-- the data of a `checkpoint_saved` event -/
def savedData (checkpointId : String) (runtimeId : Option String) (kind stateRef : String)
    (inputRefs outputRefs : List String) : Json :=
  .obj [("checkpoint_id", .str checkpointId), ("runtime_id", (runtimeId.map Json.str).getD .null),
    ("kind", .str kind), ("state_ref", .str stateRef), ("input_refs", .arr (inputRefs.map .str)),
    ("output_refs", .arr (outputRefs.map .str))]

/-- one call of `save_checkpoint`, with what the clock says for the id and for the event -/
def saveCheckpoint (store : TruthStore) (request : CheckpointRequest) (now timestampMs : Nat) :
    TruthStore × Except TruthError CheckpointRef :=
  let id := checkpointId job now
  let (store, stateRef) := store.writeBlob job (stateBlob job now) request.state
  let (store, event) := store.appendEvent timestampMs (some request.pid) "checkpoint_saved"
    (savedData id request.runtimeId request.kind stateRef request.inputRefs request.outputRefs)
  let record := ⟨id, job.name, request.pid, request.runtimeId, request.kind, stateRef, request.inputRefs,
    request.outputRefs, event.eventId⟩
  match store.checkpoints.insert record with
  | .error error => (store, .error error)
  | .ok checkpoints =>
    ({ store with checkpoints }, .ok ⟨id, job.name, request.pid, request.runtimeId, request.kind, stateRef⟩)

/-- `ORDER BY created_event_id ASC` -/
def listCheckpoints (store : TruthStore) : List CheckpointRecord :=
  store.checkpoints.rows.insertionSort fun a b => a.createdEventId ≤ b.createdEventId

/-- the document that a ref leads to -/
def TruthStore.resolve (store : TruthStore) (stateRef : String) : Option Json :=
  match resolveBlobRef job.name stateRef with
  | .ok path => store.blobs path
  | .error _ => none

/-- a save, or an event of another kind that is appended -/
inductive StoreCall where
  | save (request : CheckpointRequest) (now timestampMs : Nat)
  | append (timestampMs : Nat) (pid : Option String) (eventType :
    { eventType : String // eventType ≠ "checkpoint_saved" })
      (data : Json)

/-- a store, and what the saves asked for and returned -/
structure StoreRun where
  store : TruthStore
  saved : List (CheckpointRequest × Except TruthError CheckpointRef)

def StoreRun.step (run : StoreRun) : StoreCall → StoreRun
  | .save request now timestampMs =>
    let (store, outcome) := saveCheckpoint job run.store request now timestampMs
    ⟨store, run.saved ++ [(request, outcome)]⟩
  | .append timestampMs pid eventType data =>
    { run with store := (run.store.appendEvent timestampMs pid eventType.1 data).1 }

def runCalls (calls : List StoreCall) : StoreRun := calls.foldl (StoreRun.step job) ⟨.empty, []⟩

/-! ## what is to hold -/

/-- the data of the event that a record belongs to -/
def CheckpointRecord.data (record : CheckpointRecord) : Json :=
  savedData record.checkpointId record.runtimeId record.kind record.stateRef record.inputRefs record.outputRefs

def ProcessEvent.isSaved (event : ProcessEvent) : Bool := event.eventType == "checkpoint_saved"

/-- every save succeeds, there is one record for each event, and each ref leads to the state saved with it -/
structure Kept (run : StoreRun) : Prop where
  succeeds : ∀ saved ∈ run.saved, ∃ ref, saved.2 = .ok ref
  listed : (listCheckpoints run.store).map (fun record => (record.createdEventId, record.data)) =
    (run.store.events.filter ProcessEvent.isSaved).map fun event => (event.eventId, event.data)
  resolves : ∀ saved ∈ run.saved, ∀ ref, saved.2 = .ok ref →
    (∃ record ∈ listCheckpoints run.store,
      record.checkpointId = ref.checkpointId ∧ record.stateRef = ref.stateRef) ∧
      run.store.resolve job ref.stateRef = some saved.1.state

/-- what the saves read off the clock for their ids -/
def saveTimes (calls : List StoreCall) : List Nat :=
  calls.filterMap fun
    | .save _ now _ => some now
    | .append .. => none

section
variable {job} {store : TruthStore} {request : CheckpointRequest} {now now' timestampMs : Nat} {calls : List StoreCall}
  {run : StoreRun}

/-! ## the names -/

theorem checkpointId_inj (h : checkpointId job now = checkpointId job now') : now = now' := by
  unfold checkpointId at h
  exact Text.toString_inj (Text.append_left_inj h)

theorem component_file (job : JobId) (now : Nat) : Component (checkpointId job now ++ ".json") := by
  have hhead : (checkpointId job now ++ ".json").toList.head? = some 'c' := by
    unfold checkpointId
    simp
  have hmem {c : Char} (hc : c ∈ (checkpointId job now ++ ".json").toList) :
      c ∈ "ckpt_.json".toList ∨ c ∈ job.name.toList ∨ c.isDigit = true := by
    unfold checkpointId at hc
    simp only [String.toList_append, List.mem_append] at hc
    rcases hc with ((((hc | hc) | hc) | hc) | hc)
    · left
      simp only [String.reduceToList, List.mem_cons, List.not_mem_nil, or_false] at hc ⊢
      tauto
    · exact .inr (.inl hc)
    · left
      simp only [String.reduceToList, List.mem_cons, List.not_mem_nil, or_false] at hc ⊢
      tauto
    · exact .inr (.inr (Text.isDigit_of_mem_toString hc))
    · left
      simp only [String.reduceToList, List.mem_cons, List.not_mem_nil, or_false] at hc ⊢
      tauto
  constructor
  · intro h
    rw [h] at hhead
    cases hhead
  · intro h
    rw [h] at hhead
    exact absurd hhead (by decide)
  · intro h
    rw [h] at hhead
    exact absurd hhead (by decide)
  · intro h
    rcases hmem h with h | h | h
    · exact absurd h (by decide)
    · exact job.component.noSlash h
    · exact absurd h (by decide)
  · intro h
    rcases hmem h with h | h | h
    · exact absurd h (by decide)
    · exact job.component.noBackslash h
    · exact absurd h (by decide)

theorem component_checkpoints : Component "checkpoints" := ⟨by decide, by decide, by decide, by decide, by decide⟩

theorem stateBlob_eq (job : JobId) (now : Nat) :
    stateBlob job now = "checkpoints" ++ "/" ++ (checkpointId job now ++ ".json") := by
  unfold stateBlob
  rw [← String.append_assoc]
  rfl

theorem blobPath_stateBlob (job : JobId) (now : Nat) :
    blobPath (stateBlob job now) = ["checkpoints", checkpointId job now ++ ".json"] := by
  unfold blobPath
  rw [stateBlob_eq, components_append, component_checkpoints.components, (component_file job now).components]
  rfl

theorem resolve_stateBlob (store : TruthStore) (now : Nat) :
    store.resolve job (blobRef job.name (stateBlob job now)) = store.blobs (blobPath (stateBlob job now)) := by
  have hplain : Plain (stateBlob job now) := by
    rw [stateBlob_eq]
    exact component_checkpoints.plain.append (component_file job now)
  unfold TruthStore.resolve
  rw [resolveBlobRef_blobRef job.name hplain]

theorem blobPath_ne (h : now ≠ now') : blobPath (stateBlob job now) ≠ blobPath (stateBlob job now') := by
  rw [blobPath_stateBlob, blobPath_stateBlob]
  intro hpath
  have hfile : checkpointId job now ++ ".json" = checkpointId job now' ++ ".json" := by
    simpa using hpath
  apply h
  refine checkpointId_inj (?_ : checkpointId job now = checkpointId job now')
  have hlist := congrArg String.toList hfile
  rw [String.toList_append, String.toList_append] at hlist
  exact String.toList_injective (List.append_cancel_right hlist)

/-! ## one save -/

theorem insert_new {t : CheckpointTable} (record : CheckpointRecord)
    (h : record.checkpointId ∉ t.rows.map (·.checkpointId)) :
    ∃ t', t.insert record = .ok t' ∧ t'.rows = t.rows ++ [record] := by
  unfold CheckpointTable.insert
  rw [dif_neg h]
  exact ⟨_, rfl, rfl⟩

theorem insert_taken {t : CheckpointTable} (record : CheckpointRecord)
    (h : record.checkpointId ∈ t.rows.map (·.checkpointId)) : ∃ error, t.insert record = .error error := by
  unfold CheckpointTable.insert
  rw [dif_pos h]
  exact ⟨_, rfl⟩

/-- the event and the row of a save -/
def savedEvent (job : JobId) (store : TruthStore) (request : CheckpointRequest) (now timestampMs : Nat) :
    ProcessEvent where
  eventId := nextEventId store.events
  timestampMs
  pid := some request.pid
  eventType := "checkpoint_saved"
  data := savedData (checkpointId job now) request.runtimeId request.kind (blobRef job.name (stateBlob job now))
    request.inputRefs request.outputRefs

def savedRecord (job : JobId) (store : TruthStore) (request : CheckpointRequest) (now : Nat) : CheckpointRecord where
  checkpointId := checkpointId job now
  jobId := job.name
  pid := request.pid
  runtimeId := request.runtimeId
  kind := request.kind
  stateRef := blobRef job.name (stateBlob job now)
  inputRefs := request.inputRefs
  outputRefs := request.outputRefs
  createdEventId := nextEventId store.events

theorem save_new (request : CheckpointRequest) (timestampMs : Nat)
    (h : checkpointId job now ∉ store.checkpoints.rows.map (·.checkpointId)) :
    ∃ store' ref, saveCheckpoint job store request now timestampMs = (store', .ok ref) ∧
      ref.checkpointId = checkpointId job now ∧ ref.stateRef = blobRef job.name (stateBlob job now) ∧
      store'.blobs = Function.update store.blobs (blobPath (stateBlob job now)) (some request.state) ∧
      store'.events = store.events ++ [savedEvent job store request now timestampMs] ∧
      store'.checkpoints.rows = store.checkpoints.rows ++ [savedRecord job store request now] := by
  obtain ⟨t', hinsert, hrows⟩ := insert_new (savedRecord job store request now) h
  refine ⟨⟨Function.update store.blobs (blobPath (stateBlob job now)) (some request.state),
    store.events ++ [savedEvent job store request now timestampMs], t'⟩,
    ⟨checkpointId job now, job.name, request.pid, request.runtimeId, request.kind,
      blobRef job.name (stateBlob job now)⟩, ?_, rfl, rfl, rfl, rfl, hrows⟩
  show (match store.checkpoints.insert (savedRecord job store request now) with
    | .error error => _
    | .ok checkpoints => _) = _
  rw [hinsert]
  rfl

theorem save_taken (request : CheckpointRequest) (timestampMs : Nat)
    (h : checkpointId job now ∈ store.checkpoints.rows.map (·.checkpointId)) :
    ∃ error, (saveCheckpoint job store request now timestampMs).2 = .error error := by
  obtain ⟨error, herror⟩ := insert_taken (savedRecord job store request now) h
  refine ⟨error, ?_⟩
  show (match store.checkpoints.insert (savedRecord job store request now) with
    | .error error => (_, Except.error error)
    | .ok checkpoints => (_, Except.ok _)).2 = _
  rw [herror]

theorem save_blobs : (saveCheckpoint job store request now timestampMs).1.blobs =
    Function.update store.blobs (blobPath (stateBlob job now)) (some request.state) := by
  unfold saveCheckpoint
  dsimp only
  split <;> rfl

/-! ## all saves -/

theorem runCalls_concat (calls : List StoreCall) (call : StoreCall) :
    runCalls job (calls ++ [call]) = (runCalls job calls).step job call := List.foldl_append

theorem saveTimes_save (calls : List StoreCall) (request : CheckpointRequest) (now timestampMs : Nat) :
    saveTimes (calls ++ [.save request now timestampMs]) = saveTimes calls ++ [now] := by
  unfold saveTimes
  rw [List.filterMap_append]
  rfl

theorem saveTimes_append (calls : List StoreCall) (timestampMs : Nat) (pid : Option String)
    (eventType : { eventType : String // eventType ≠ "checkpoint_saved" }) (data : Json) :
    saveTimes (calls ++ [.append timestampMs pid eventType data]) = saveTimes calls := by
  unfold saveTimes
  rw [List.filterMap_append]
  exact List.append_nil _

theorem ids_of_succeeds (h : ∀ saved ∈ (runCalls job calls).saved, ∃ ref, saved.2 = .ok ref) :
    (runCalls job calls).store.checkpoints.rows.map (·.checkpointId) = (saveTimes calls).map (checkpointId job) := by
  induction calls using List.reverseRecOn with
  | nil => rfl
  | append_singleton calls call ih =>
    rw [runCalls_concat] at h ⊢
    cases call with
    | append timestampMs pid eventType data =>
      rw [saveTimes_append]
      exact ih h
    | save request now timestampMs =>
      have hold := ih fun saved hsaved => h saved (List.mem_append_left _ hsaved)
      rw [saveTimes_save, List.map_append, ← hold]
      by_cases hid : checkpointId job now ∈ (runCalls job calls).store.checkpoints.rows.map (·.checkpointId)
      · obtain ⟨error, herror⟩ := save_taken request timestampMs hid
        obtain ⟨ref, href⟩ := h _ (List.mem_append_right _ List.mem_cons_self)
        cases herror.symm.trans href
      · obtain ⟨store', ref, hsave, -, -, -, -, hrows⟩ :=
          save_new request timestampMs hid
        show ((saveCheckpoint job (runCalls job calls).store request now timestampMs).1.checkpoints.rows).map _ = _
        rw [hsave, hrows, List.map_append]
        rfl

/-- what saves at different times leave -/
structure Formed (job : JobId) (times : List Nat) (run : StoreRun) : Prop where
  ids : run.store.checkpoints.rows.map (·.checkpointId) = times.map (checkpointId job)
  ascending : (run.store.events.map (·.eventId)).Pairwise (· < ·)
  listed : run.store.checkpoints.rows.map (fun record => (record.createdEventId, record.data)) =
    (run.store.events.filter ProcessEvent.isSaved).map fun event => (event.eventId, event.data)
  saved : ∀ saved ∈ run.saved, ∃ ref, saved.2 = .ok ref ∧ ∃ now ∈ times,
    ref.stateRef = blobRef job.name (stateBlob job now) ∧
      run.store.blobs (blobPath (stateBlob job now)) = some saved.1.state ∧
      ∃ record ∈ run.store.checkpoints.rows,
        record.checkpointId = ref.checkpointId ∧ record.stateRef = ref.stateRef

theorem lt_nextEventId {events : List ProcessEvent} {event : ProcessEvent} (h : event ∈ events) :
    event.eventId < nextEventId events := by
  unfold nextEventId
  induction events with
  | nil => exact absurd h List.not_mem_nil
  | cons first rest ih =>
    show _ < max first.eventId _ + 1
    rcases List.mem_cons.mp h with rfl | h
    · omega
    · have hrest := ih h
      omega

theorem ascending_concat {events : List ProcessEvent} {event : ProcessEvent}
    (h : (events.map (·.eventId)).Pairwise (· < ·)) (hnext : event.eventId = nextEventId events) :
    ((events ++ [event]).map (·.eventId)).Pairwise (· < ·) := by
  rw [List.map_append]
  refine List.pairwise_append.mpr ⟨h, List.pairwise_singleton _ _, fun id hid id' hid' => ?_⟩
  obtain ⟨old, hold, rfl⟩ := List.mem_map.mp hid
  obtain rfl := List.mem_singleton.mp hid'
  show old.eventId < event.eventId
  rw [hnext]
  exact lt_nextEventId hold

theorem formed_runCalls (job : JobId) (h : (saveTimes calls).Nodup) :
    Formed job (saveTimes calls) (runCalls job calls) := by
  induction calls using List.reverseRecOn with
  | nil => exact ⟨rfl, List.Pairwise.nil, rfl, fun saved h => absurd h List.not_mem_nil⟩
  | append_singleton calls call ih =>
    rw [runCalls_concat]
    cases call with
    | append timestampMs pid eventType data =>
      rw [saveTimes_append] at h ⊢
      have hold := ih h
      refine ⟨hold.ids, ascending_concat hold.ascending rfl, ?_, hold.saved⟩
      refine hold.listed.trans ?_
      show _ = ((_ ++ [_]).filter _).map _
      have hother : ¬ (ProcessEvent.isSaved ⟨nextEventId (runCalls job calls).store.events, timestampMs, pid,
          eventType.1, data⟩ = true) := by
        unfold ProcessEvent.isSaved
        simpa using eventType.2
      rw [List.filter_append, List.filter_cons_of_neg hother, List.filter_nil, List.append_nil]
    | save request now timestampMs =>
      rw [saveTimes_save] at h ⊢
      obtain ⟨hnodup, -, hnew⟩ := List.nodup_append.mp h
      have hnow : now ∉ saveTimes calls := fun hmem => hnew now hmem now List.mem_cons_self rfl
      have hold := ih hnodup
      have hid : checkpointId job now ∉ (runCalls job calls).store.checkpoints.rows.map (·.checkpointId) := by
        rw [hold.ids]
        intro hmem
        obtain ⟨time, htime, hsame⟩ := List.mem_map.mp hmem
        exact hnow (checkpointId_inj hsame ▸ htime)
      obtain ⟨store', ref, hsave, href, hstate, hblobs, hevents, hrows⟩ :=
        save_new request timestampMs hid
      have hrun : (runCalls job calls).step job (.save request now timestampMs) =
          ⟨store', (runCalls job calls).saved ++ [(request, .ok ref)]⟩ := by
        unfold StoreRun.step
        dsimp only
        rw [hsave]
      rw [hrun]
      refine ⟨?_, ?_, ?_, fun saved hsaved => ?_⟩
      · rw [hrows, List.map_append, List.map_append, hold.ids]
        rfl
      · rw [hevents]
        exact ascending_concat hold.ascending rfl
      · rw [hrows, hevents, List.map_append, List.filter_append, List.map_append, hold.listed]
        rfl
      · show ∃ r, saved.2 = .ok r ∧ ∃ time ∈ saveTimes calls ++ [now], _ ∧ store'.blobs _ = _ ∧
          ∃ record ∈ store'.checkpoints.rows, _
        rw [hblobs, hrows]
        rcases List.mem_append.mp hsaved with hsaved | hsaved
        · obtain ⟨ref', hok, time, htime, hstate', hblob, record, hrecord, hrow⟩ := hold.saved saved hsaved
          have hne : now ≠ time := by
            rintro rfl
            exact hnow htime
          refine ⟨ref', hok, time, List.mem_append_left _ htime, hstate', ?_, record,
            List.mem_append_left _ hrecord, hrow⟩
          rw [Function.update_of_ne (blobPath_ne hne).symm]
          exact hblob
        · obtain rfl := List.mem_singleton.mp hsaved
          exact ⟨ref, rfl, now, List.mem_append_right _ List.mem_cons_self, hstate, Function.update_self ..,
            savedRecord job (runCalls job calls).store request now, List.mem_append_right _ List.mem_cons_self,
            href.symm, hstate.symm⟩

theorem listCheckpoints_eq (h : Formed job (saveTimes calls) run) :
    listCheckpoints run.store = run.store.checkpoints.rows := by
  apply List.Pairwise.insertionSort_eq
  have hids : run.store.checkpoints.rows.map (·.createdEventId) =
      (run.store.events.filter ProcessEvent.isSaved).map (·.eventId) := by
    have hfirst := congrArg (List.map Prod.fst) h.listed
    rwa [List.map_map, List.map_map] at hfirst
  have hsorted : (run.store.checkpoints.rows.map (·.createdEventId)).Pairwise (· < ·) := by
    rw [hids]
    exact h.ascending.sublist (List.filter_sublist.map _)
  exact (List.pairwise_map.mp hsorted).imp Nat.le_of_lt

end

/-- **every checkpoint is kept** exactly when no two saves read one time off the clock -/
theorem checkpoints_kept_iff (job : JobId) (calls : List StoreCall) :
    Kept job (runCalls job calls) ↔ (saveTimes calls).Nodup := by
  constructor
  · intro h
    have hids := (runCalls job calls).store.checkpoints.id_unique
    rw [ids_of_succeeds h.succeeds] at hids
    exact hids.of_map _
  · intro h
    have hformed := formed_runCalls job h
    refine ⟨fun saved hsaved => ?_, ?_, fun saved hsaved ref hok => ?_⟩
    · obtain ⟨ref, hok, -⟩ := hformed.saved saved hsaved
      exact ⟨ref, hok⟩
    · rw [listCheckpoints_eq hformed]
      exact hformed.listed
    · obtain ⟨ref', hok', now, -, hstate, hblob, hrow⟩ := hformed.saved saved hsaved
      obtain rfl := Except.ok.inj (hok.symm.trans hok')
      rw [listCheckpoints_eq hformed, hstate, resolve_stateBlob]
      rw [hstate] at hrow
      exact ⟨hrow, hblob⟩

/-! ## two saves at once -/

def jobAt : JobId := ⟨"job_1", by decide, by decide, by decide, by decide, by decide⟩

def saveOf (state : String) : StoreCall := .save ⟨"pid_1", none, "step", .str state, [], []⟩ 5 5

/-- **the second save fails**, and has written its state over that of the first -/
theorem saved_twice : ¬ Kept jobAt (runCalls jobAt [saveOf "first", saveOf "second"]) ∧
    (runCalls jobAt [saveOf "first", saveOf "second"]).store.blobs (blobPath (stateBlob jobAt 5)) =
      some (.str "second") := by
  constructor
  · intro h
    have hids := (runCalls jobAt [saveOf "first", saveOf "second"]).store.checkpoints.id_unique
    rw [ids_of_succeeds h.succeeds] at hids
    exact absurd hids.of_map (by decide)
  · have hstore : (runCalls jobAt [saveOf "first", saveOf "second"]).store =
        (saveCheckpoint jobAt (runCalls jobAt [saveOf "first"]).store
          ⟨"pid_1", none, "step", .str "second", [], []⟩ 5 5).1 := rfl
    rw [hstore, save_blobs]
    exact Function.update_self ..

end Checkpoints

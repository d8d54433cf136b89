import SuperNova.Feed.Merge

/-!
# What is known of a version of a message

`live_message_stream` polls while a worker runs: it loads the page of its scope beyond its cursor, sends the
messages of it, and moves the cursor to the last of them.  When the worker is done it loads once more and
sends the close event.  Messages are appended and replaced by others at any time, also between the reads of
one load, which takes a page from every database in turn.

A version was served, or a row of its message is pending beyond the cursor, or, while the last load is under
way, is among the candidates of that load or in a shard that it will read.

* `Stream.step`, `Stream.run`: a step of the loop or of a writer, and a run of them;
* `Stream.Complete`: a closed stream has sent what was appended before the worker was seen to be done;
* `Move.Heeds`: the steps that do not lose a message;
* `Stream.Good`: what is known in each phase of a stream;
* `start_good`, `good_of_same_rows`: it is known at the opening, and does not depend on the records of shards;
* `append_good` (**main**): an append that loses nothing keeps it.
-/

set_option linter.unusedSectionVars false

namespace Feed

/-! ## the stream -/

/-- what the `select!` of the loop wakes up for -/
inductive Wake where
  | tick
  | heartbeat
  | done (result : Except String Unit)

/-- an event that is sent to the client, with the cursor of those that are no message -/
inductive Event where
  | message (message : ContainerMessage)
  | heartbeat (afterEventId : Option Int)
  /-- the page could not be loaded -/
  | failed (afterEventId : Option Int) (error : String)
  /-- the close event, with what the worker returned -/
  | closed (afterEventId : Option Int) (result : Except String Unit)

inductive Phase where
  | waiting
  | woken (wake : Wake)
  /-- the database of the workspace was read -/
  | listing (wake : Wake) (candidates : List ContainerMessage)
  /-- the shards that are left to read -/
  | reading (wake : Wake) (candidates : List ContainerMessage) (left : List ProjectionShardRecord)
  | finished

/-- a stream and what it reads; `versions` are the rows there were when it was opened, then every row that
was written as it was not there before -/
structure Stream where
  scope : StreamScope
  store : Store
  afterEventId : Option Int
  sent : List Event
  phase : Phase
  versions : List Row
  opened : Nat
  /-- how many versions there were when the worker was seen to be done -/
  finished : Option Nat

def pageLimit : Option Nat := some 200

variable (castReal : String → Int)

def messagesPage (scope : StreamScope) (store : Store) (afterEventId : Option Int)
    (limit : Option Nat) : List ContainerMessage :=
  let shards := (scope.aggregated store.records).flatMap fun record =>
    ((store.files.get? record.relativeDbPath).map fun table =>
      scope.page castReal (.shard record.relativeDbPath) table afterEventId limit).getD []
  mergeProjectedMessages (scope.page castReal .main store.main afterEventId limit ++ shards)
    afterEventId limit

/-- the stream that `start_stream` or `turn_stream` opens: its cursor is that of the last message -/
def Stream.start (scope : StreamScope) (store : Store) : Stream where
  scope := scope
  store := store
  afterEventId := (messagesPage castReal scope store none (some 1)).getLast?.map messageCursorEventId
  sent := []
  phase := .waiting
  versions := store.rows
  opened := store.rows.length
  finished := none

/-- the rest of a round, after the page was loaded -/
def Stream.emit (s : Stream) (wake : Wake) (messages : List ContainerMessage) : Stream :=
  let after := (messages.getLast?.map messageCursorEventId).or s.afterEventId
  let sent := s.sent ++ messages.map Event.message
  match wake with
  | .tick => { s with afterEventId := after, sent := sent, phase := .waiting }
  | .heartbeat =>
    { s with
      afterEventId := after
      sent := if messages.isEmpty then sent ++ [.heartbeat after] else sent
      phase := .waiting }
  | .done result =>
    { s with afterEventId := after, sent := sent ++ [.closed after result], phase := .finished }

inductive Move where
  /-- `append_message` of a writer -/
  | append (db : Db) (message : ContainerMessage) (now : Nat)
  /-- a writer opens a shard -/
  | ensureShard (record : ProjectionShardRecord) (now : Int)
  | wake (wake : Wake)
  | readMain
  | listShards
  | readShard
  | deliver
  | loadFails (error : String)
  /-- the client is gone -/
  | disconnect

/-- the row that an append writes -/
def MessageTable.rowFor (table : MessageTable) (message : ContainerMessage) (now : Nat) : Row :=
  storedRow (table.row? message.messageId) now message

/-- a row is written; it is a version when it was not there before -/
def Stream.write (s : Stream) (db : Db) (table : MessageTable) (row : Row) : Stream :=
  { s with
    store := s.store.setTable db (table.put row)
    versions := if table.row? row.messageId = some row then s.versions else s.versions ++ [row] }

def Stream.step (s : Stream) : Move → Option Stream
  | .append db message now =>
    (s.store.table? db).map fun table => s.write db table (table.rowFor message now)
  | .ensureShard record now => some { s with store := s.store.ensureShard record now }
  | .wake wake =>
    match s.phase with
    | .waiting =>
      some { s with
        phase := .woken wake
        finished := match wake with
          | .done _ => some s.versions.length
          | _ => s.finished }
    | _ => none
  | .readMain =>
    match s.phase with
    | .woken wake =>
      some { s with
        phase := .listing wake (s.scope.page castReal .main s.store.main s.afterEventId pageLimit) }
    | _ => none
  | .listShards =>
    match s.phase with
    | .listing wake candidates =>
      some { s with phase := .reading wake candidates (s.scope.aggregated s.store.records) }
    | _ => none
  | .readShard =>
    match s.phase with
    | .reading wake candidates (record :: left) =>
      match s.store.files.get? record.relativeDbPath with
      | none => some { s with phase := .reading wake candidates left }
      | some table =>
        let page := s.scope.page castReal (.shard record.relativeDbPath) table s.afterEventId pageLimit
        some { s with phase := .reading wake (candidates ++ page) left }
    | _ => none
  | .deliver =>
    match s.phase with
    | .reading wake candidates [] =>
      some (s.emit wake (mergeProjectedMessages candidates s.afterEventId pageLimit))
    | _ => none
  | .loadFails error =>
    match s.phase with
    | .waiting => none
    | .finished => none
    | _ => some { s with sent := s.sent ++ [.failed s.afterEventId error], phase := .finished }
  | .disconnect =>
    match s.phase with
    | .finished => none
    | _ => some { s with phase := .finished }

def Stream.run (s : Stream) : List Move → Option Stream
  | [] => some s
  | m :: moves => (s.step castReal m).bind fun s' => s'.run moves

/-! ## what is promised -/

/-- the version, or a later one of its message, was sent -/
def Stream.Served (s : Stream) (i : Nat) (v : Row) : Prop :=
  ∃ j v', i ≤ j ∧ s.versions[j]? = some v' ∧ v'.messageId = v.messageId ∧
    Event.message (rowToMessage v') ∈ s.sent

/-- the close event was sent -/
def Stream.Closed (s : Stream) : Prop := ∃ after result, Event.closed after result ∈ s.sent

/-- every version of the scope that was written from the opening of the stream until the worker was seen to
be done is served when the stream is closed -/
def Stream.Complete (s : Stream) : Prop :=
  s.Closed → ∃ n, s.finished = some n ∧ ∀ i v, s.opened ≤ i → i < n → s.versions[i]? = some v →
    s.scope.holds v = true → s.Served i v

/-! ## steps that lose nothing -/

/-- the cursor of a row, as the program computes it -/
def rowCursor (row : Row) : Int := messageCursorEventId (rowToMessage row)

/-- a row beyond the cursor -/
def Stream.Beyond (s : Stream) (row : Row) : Prop := ∀ a, s.afterEventId = some a → a < rowCursor row

/-- a row of the scope, written since the stream was opened, that was not sent -/
def Stream.Unsent (s : Stream) (row : Row) : Prop :=
  s.scope.holds row = true ∧ row ∈ s.versions.drop s.opened ∧
    Event.message (rowToMessage row) ∉ s.sent

/-- the newest version of its message -/
def Stream.Newest (s : Stream) (row : Row) : Prop :=
  ∀ u ∈ s.versions, s.scope.holds u = true → u.messageId = row.messageId → rowCursor u ≤ rowCursor row

/-- a new version of a message of the scope: the database and the program compute one cursor of it, which is
beyond that of the stream and beyond those of the versions before -/
structure Stream.Ascends (s : Stream) (row : Row) : Prop where
  agree : messageCursorSql castReal row = rowCursor row
  beyond : s.Beyond row
  later : ∀ u ∈ s.versions, u.messageId = row.messageId → rowCursor u < rowCursor row

/-- a step loses no message: new versions ascend, and no message is moved out of the scope; a load leaves out
none but those beyond its last message; and the last load, after the worker is done, is not cut at the
limit of a page or of the shards -/
def Move.Heeds (s : Stream) : Move → Prop
  | .append db message now =>
    ∀ table, s.store.table? db = some table → s.phase ≠ .finished →
      let row := table.rowFor message now
      table.row? message.messageId ≠ some row →
        (∀ old, table.row? message.messageId = some old → s.scope.holds old = true →
          s.scope.holds row = true) ∧
        (s.scope.holds row = true → s.Ascends castReal row)
  | .readMain =>
    ∀ result, s.phase = .woken (.done result) →
      (s.scope.selected castReal .main s.store.main s.afterEventId).length ≤ 200
  | .listShards =>
    ∀ result candidates, s.phase = .listing (.done result) candidates →
      ∀ path table, s.store.files.get? path = some table → ∀ row ∈ table.rows, s.Unsent row →
        s.Beyond row →
        ∃ record ∈ s.scope.aggregated s.store.records, record.relativeDbPath = path
  | .readShard =>
    ∀ result candidates record left,
      s.phase = .reading (.done result) candidates (record :: left) →
      ∀ table, s.store.files.get? record.relativeDbPath = some table →
        (s.scope.selected castReal (.shard record.relativeDbPath) table s.afterEventId).length ≤ 200
  | .deliver =>
    ∀ wake candidates, s.phase = .reading wake candidates [] →
      match wake with
      | .done _ => (dedupe s.afterEventId candidates).length ≤ 200
      | _ =>
        ∀ row ∈ s.store.rows, s.Unsent row → s.Newest row → s.Beyond row →
          rowToMessage row ∈ mergeProjectedMessages candidates s.afterEventId pageLimit ∨
          ∀ last, (mergeProjectedMessages candidates s.afterEventId pageLimit).getLast? = some last →
            messageCursorEventId last < rowCursor row
  | _ => True

/-- every step of a run, in the state that it starts from -/
def AllHeed (s : Stream) : List Move → Prop
  | [] => True
  | m :: moves => m.Heeds castReal s ∧ ∀ s', s.step castReal m = some s' → AllHeed s' moves

end Feed

namespace Feed

variable {castReal : String → Int} {s s' : Stream} {i : Nat} {v : Row}

/-! ## rows of a store -/

/-- a database holds the row -/
def Store.At (store : Store) (db : Db) (row : Row) : Prop :=
  ∃ table, store.table? db = some table ∧ row ∈ table.rows

theorem mem_rows_iff_at {store : Store} {row : Row} : row ∈ store.rows ↔ ∃ db, store.At db row :=
  mem_rows

theorem ensureShard_at {store : Store} {record : ProjectionShardRecord} {now : Int} {db : Db}
    {row : Row} : (store.ensureShard record now).At db row ↔ store.At db row := by
  unfold Store.At
  rcases @table?_ensureShard store db record now with h | ⟨hnone, hempty⟩
  · rw [h]
  · rw [hnone, hempty]
    constructor
    · rintro ⟨table, htable, hmem⟩
      cases htable
      exact absurd hmem List.not_mem_nil
    · rintro ⟨table, htable, -⟩
      cases htable

section
variable {store : Store} {db db' : Db} {table : MessageTable} {row r : Row}

theorem at_put : (store.setTable db (table.put row)).At db row :=
  ⟨table.put row, by rw [table?_setTable, if_pos rfl], mem_put.mpr (.inl rfl)⟩

theorem at_of_at_put (htable : store.table? db = some table)
    (h : (store.setTable db (table.put row)).At db' r) :
    db' = db ∧ r = row ∨ store.At db' r := by
  obtain ⟨table', htable', hmem⟩ := h
  rw [table?_setTable] at htable'
  by_cases hdb : db' = db
  · rw [if_pos hdb] at htable'
    cases htable'
    rcases mem_put.mp hmem with heq | ⟨hold, -⟩
    · exact .inl ⟨hdb, heq⟩
    · exact .inr ⟨table, hdb ▸ htable, hold⟩
  · rw [if_neg hdb] at htable'
    exact .inr ⟨table', htable', hmem⟩

theorem at_put_of_at (htable : store.table? db = some table) (h : store.At db' r) :
    (store.setTable db (table.put row)).At db' r ∨
      db' = db ∧ r.messageId = row.messageId ∧ table.row? row.messageId = some r := by
  obtain ⟨table', htable', hmem⟩ := h
  by_cases hdb : db' = db
  · subst hdb
    cases htable.symm.trans htable'
    by_cases hid : r.messageId = row.messageId
    · exact .inr ⟨rfl, hid, row?_eq_some.mpr ⟨hmem, hid⟩⟩
    · exact .inl ⟨table.put row, by rw [table?_setTable, if_pos rfl], mem_put.mpr (.inr ⟨hmem, hid⟩)⟩
  · exact .inl ⟨table', by rw [table?_setTable, if_neg hdb]; exact htable', hmem⟩

end

/-! ## what is known of a version -/

/-- a later version of its message, or itself -/
def Stream.Later (s : Stream) (i : Nat) (v : Row) (r : Row) : Prop :=
  ∃ j, i ≤ j ∧ s.versions[j]? = some r ∧ r.messageId = v.messageId

/-- a database holds the newest version of its message, beyond the cursor and not sent -/
def Stream.Pending (s : Stream) (i : Nat) (v : Row) : Prop :=
  ∃ r, s.Later i v r ∧ (∃ db, s.store.At db r) ∧ s.Unsent r ∧ s.Newest r ∧ s.Beyond r

/-- a later version is among the candidates of a load -/
def Stream.Caught (s : Stream) (candidates : List ContainerMessage) (i : Nat) (v : Row) : Prop :=
  ∃ r, s.Later i v r ∧ rowToMessage r ∈ candidates ∧ s.scope.holds r = true ∧ s.Beyond r

/-- a later version is in a shard that is still to be read -/
def Stream.Waits (s : Stream) (path : String → Prop) (i : Nat) (v : Row) : Prop :=
  ∃ r p, path p ∧ s.Later i v r ∧ s.store.At (.shard p) r ∧ s.Unsent r ∧ s.Beyond r

/-- the versions that the stream owes to its client -/
def Stream.Owes (s : Stream) (i : Nat) (v : Row) : Prop :=
  s.opened ≤ i ∧ s.versions[i]? = some v ∧ s.scope.holds v = true

/-- not after the worker was seen to be done -/
def Stream.InTime (s : Stream) (i : Nat) : Prop := ∀ n, s.finished = some n → i < n

/-- the worker was seen to be done -/
def Phase.done : Phase → Bool
  | .woken (.done _) => true
  | .listing (.done _) _ => true
  | .reading (.done _) _ _ => true
  | _ => false

def Phase.candidates : Phase → List ContainerMessage
  | .listing _ candidates => candidates
  | .reading _ candidates _ => candidates
  | _ => []

/-- what is known, in a phase, of a version that was not served yet -/
def Stream.Known (s : Stream) (i : Nat) (v : Row) : Phase → Prop
  | .listing (.done _) candidates => s.Caught candidates i v ∨ s.Waits (fun _ => True) i v
  | .reading (.done _) candidates left =>
    s.Caught candidates i v ∨ s.Waits (fun p => ∃ record ∈ left, record.relativeDbPath = p) i v
  | _ => s.Pending i v

theorem known_imp (hpending : s.Pending i v → s'.Pending i v)
    (hcaught : ∀ candidates, s.Caught candidates i v → s'.Caught candidates i v)
    (hwaits : ∀ path, s.Waits path i v → s'.Waits path i v) (phase : Phase) (h : s.Known i v phase) :
    s'.Known i v phase :=
  match phase, h with
  | .waiting, h => hpending h
  | .woken _, h => hpending h
  | .listing .tick _, h => hpending h
  | .listing .heartbeat _, h => hpending h
  | .listing (.done _) _, h => h.imp (hcaught _) (hwaits _)
  | .reading .tick _ _, h => hpending h
  | .reading .heartbeat _ _, h => hpending h
  | .reading (.done _) _ _, h => h.imp (hcaught _) (hwaits _)
  | .finished, h => hpending h

theorem known_of_pending {phase : Phase} (hphase : phase.done = false) (h : s.Pending i v) :
    s.Known i v phase :=
  match phase, hphase, h with
  | .waiting, _, h => h
  | .woken _, _, h => h
  | .listing .tick _, _, h => h
  | .listing .heartbeat _, _, h => h
  | .reading .tick _ _, _, h => h
  | .reading .heartbeat _ _, _, h => h
  | .finished, _, h => h

/-- what holds of the versions while the stream is not over -/
structure Stream.Kept (castReal : String → Int) (s : Stream) : Prop where
  held : ∀ db r, s.store.At db r → r ∈ s.versions
  opened : s.opened ≤ s.versions.length
  ascending : ∀ i v, s.Owes i v → ∀ k u, k < i → s.versions[k]? = some u →
    u.messageId = v.messageId → rowCursor u < rowCursor v
  agree : ∀ i v, s.Owes i v → messageCursorSql castReal v = rowCursor v

structure Stream.Running (castReal : String → Int) (s : Stream) : Prop where
  kept : s.Kept castReal
  done : s.finished.isSome = s.phase.done
  notClosed : ¬ s.Closed
  read : ∀ m ∈ s.phase.candidates, ∃ u ∈ s.versions, m = rowToMessage u
  known : ∀ i v, s.Owes i v → s.InTime i → s.Served i v ∨ s.Known i v s.phase

structure Stream.Good (castReal : String → Int) (s : Stream) : Prop where
  finished : ∀ n, s.finished = some n → n ≤ s.versions.length
  running : s.phase ≠ .finished → s.Running castReal
  complete : s.phase = .finished → s.Complete

theorem start_good (castReal : String → Int) (scope : StreamScope) (store : Store) :
    (Stream.start castReal scope store).Good castReal := by
  have hnone : ∀ i v, ¬ (Stream.start castReal scope store).Owes i v := by
    rintro i v ⟨hge, hversion, -⟩
    have hlt : i < store.rows.length := (List.getElem?_eq_some_iff.mp hversion).1
    have hopened : store.rows.length ≤ i := hge
    omega
  refine ⟨fun n h => (nomatch h), fun _ => ⟨⟨?_, le_refl _, ?_, ?_⟩, rfl, ?_, ?_, ?_⟩, Phase.noConfusion⟩
  · exact fun db r h => mem_rows_iff_at.mpr ⟨db, h⟩
  · exact fun i v h => absurd h (hnone i v)
  · exact fun i v h => absurd h (hnone i v)
  · rintro ⟨after, result, h⟩
    exact absurd h List.not_mem_nil
  · exact fun m h => absurd h List.not_mem_nil
  · exact fun i v h => absurd h (hnone i v)

/-! ## a store with the same rows -/

theorem good_of_same_rows {store : Store} (hrows : ∀ db r, store.At db r ↔ s.store.At db r)
    (h : s.Good castReal) : Stream.Good castReal { s with store := store } := by
  have hknown : ∀ i v, s.Known i v s.phase → Stream.Known { s with store := store } i v s.phase := by
    refine fun i v => @known_imp s { s with store := store } i v ?_ (fun _ h => h) ?_ _
    · rintro ⟨r, hlater, ⟨db, hat⟩, hrest⟩
      exact ⟨r, hlater, ⟨db, (hrows db r).mpr hat⟩, hrest⟩
    · rintro path ⟨r, p, hp, hlater, hat, hrest⟩
      exact ⟨r, p, hp, hlater, (hrows _ r).mpr hat, hrest⟩
  refine ⟨h.finished, fun hphase => ?_, h.complete⟩
  obtain ⟨hkept, hdone, hnotClosed, hread, hall⟩ := h.running hphase
  refine ⟨⟨?_, hkept.opened, hkept.ascending, hkept.agree⟩, hdone, hnotClosed, hread, ?_⟩
  · exact fun db r hat => hkept.held db r ((hrows db r).mp hat)
  · exact fun i v howes htime => (hall i v howes htime).imp_right (hknown i v)

theorem ensureShard_good {record : ProjectionShardRecord} {now : Int} (h : s.Good castReal)
    (hstep : s.step castReal (.ensureShard record now) = some s') : s'.Good castReal := by
  cases hstep
  exact good_of_same_rows (fun _ _ => ensureShard_at) h

/-! ## an append -/

section
variable {db : Db} {table : MessageTable} {row : Row}

theorem write_same_good (h : s.Good castReal) (htable : s.store.table? db = some table)
    (hsame : table.row? row.messageId = some row) : (s.write db table row).Good castReal := by
  have hversions : (if table.row? row.messageId = some row then s.versions else s.versions ++ [row]) =
      s.versions := if_pos hsame
  have hwrite : s.write db table row = { s with store := s.store.setTable db (table.put row) } := by
    unfold Stream.write
    rw [hversions]
  rw [hwrite]
  refine good_of_same_rows (fun db' r => ⟨fun hat => ?_, fun hat => ?_⟩) h
  · rcases at_of_at_put htable hat with ⟨rfl, rfl⟩ | hold
    · exact ⟨table, htable, (row?_eq_some.mp hsame).1⟩
    · exact hold
  · have hput := @at_put_of_at s.store db db' table row r htable hat
    rcases hput with hnew | ⟨hdb, -, hr⟩
    · exact hnew
    · cases hsame.symm.trans hr
      rw [hdb]
      exact at_put

/-- the versions and the store after a new row was written -/
structure Wrote (s s' : Stream) (db : Db) (table : MessageTable) (row : Row) : Prop where
  source : s.store.table? db = some table
  scope : s'.scope = s.scope
  store : s'.store = s.store.setTable db (table.put row)
  afterEventId : s'.afterEventId = s.afterEventId
  sent : s'.sent = s.sent
  phase : s'.phase = s.phase
  versions : s'.versions = s.versions ++ [row]
  opened : s'.opened = s.opened
  finished : s'.finished = s.finished

theorem write_new (htable : s.store.table? db = some table)
    (hnew : table.row? row.messageId ≠ some row) : Wrote s (s.write db table row) db table row where
  source := htable
  scope := rfl
  store := rfl
  afterEventId := rfl
  sent := rfl
  phase := rfl
  versions := if_neg hnew
  opened := rfl
  finished := rfl

namespace Wrote

variable (hw : Wrote s s' db table row)
include hw

theorem version_of_lt {k : Nat} (hk : k < s.versions.length) : s'.versions[k]? = s.versions[k]? := by
  rw [hw.versions, List.getElem?_append_left hk]

theorem version_last : s'.versions[s.versions.length]? = some row := by
  rw [hw.versions, List.getElem?_append_right (le_refl _), Nat.sub_self]
  rfl

theorem later {r : Row} (h : s.Later i v r) : s'.Later i v r := by
  obtain ⟨j, hij, hj, hid⟩ := h
  have hlt : j < s.versions.length := (List.getElem?_eq_some_iff.mp hj).1
  exact ⟨j, hij, (hw.version_of_lt hlt).trans hj, hid⟩

theorem later_row (hi : i ≤ s.versions.length) (hid : row.messageId = v.messageId) :
    s'.Later i v row :=
  ⟨s.versions.length, hi, hw.version_last, hid⟩

theorem served (h : s.Served i v) : s'.Served i v := by
  obtain ⟨j, v', hij, hj, hid, hsent⟩ := h
  have hlt : j < s.versions.length := (List.getElem?_eq_some_iff.mp hj).1
  exact ⟨j, v', hij, (hw.version_of_lt hlt).trans hj, hid, hw.sent ▸ hsent⟩

theorem beyond {r : Row} : s'.Beyond r ↔ s.Beyond r := by
  unfold Stream.Beyond
  rw [hw.afterEventId]

theorem unsent {r : Row} (h : s.Unsent r) : s'.Unsent r := by
  obtain ⟨hheld, hversion, hnot⟩ := h
  refine ⟨hw.scope ▸ hheld, ?_, hw.sent ▸ hnot⟩
  rw [hw.versions, hw.opened, List.drop_append]
  exact List.mem_append_left _ hversion

theorem caught {candidates : List ContainerMessage} (h : s.Caught candidates i v) :
    s'.Caught candidates i v := by
  obtain ⟨r, hlater, hmem, hheld, hbeyond⟩ := h
  exact ⟨r, hw.later hlater, hmem, hw.scope ▸ hheld, hw.beyond.mpr hbeyond⟩

theorem row_unsent (hopened : s.opened ≤ s.versions.length) (hheld : s.scope.holds row = true)
    (hnot : Event.message (rowToMessage row) ∉ s.sent) : s'.Unsent row := by
  refine ⟨hw.scope ▸ hheld, ?_, hw.sent ▸ hnot⟩
  rw [hw.versions, hw.opened, List.drop_append_of_le_length hopened]
  exact List.mem_append_right _ List.mem_cons_self

theorem waits {path : String → Prop} (hopened : s.opened ≤ s.versions.length)
    (hmoved : ∀ old, table.row? row.messageId = some old → s.scope.holds old = true →
      s.scope.holds row = true)
    (hascends : s.scope.holds row = true → s.Ascends castReal row) (h : s.Waits path i v) :
    s'.Served i v ∨ s'.Waits path i v := by
  obtain ⟨r, p, hp, hlater, hat, hunsent, hbeyond⟩ := h
  rcases at_put_of_at hw.source hat with hold | ⟨hdb, hid, hr⟩
  · exact .inr ⟨r, p, hp, hw.later hlater, hw.store ▸ hold, hw.unsent hunsent,
      hw.beyond.mpr hbeyond⟩
  · have hheld : s.scope.holds row = true := hmoved r hr hunsent.1
    obtain ⟨j, hij, hj, hjid⟩ := hlater
    have hlt : j < s.versions.length := (List.getElem?_eq_some_iff.mp hj).1
    have hlaterRow : s'.Later i v row := hw.later_row (by omega) (hid.symm.trans hjid)
    by_cases hsent : Event.message (rowToMessage row) ∈ s.sent
    · obtain ⟨j', hij', hj', hid'⟩ := hlaterRow
      exact .inl ⟨j', row, hij', hj', hid', hw.sent ▸ hsent⟩
    · refine .inr ⟨row, p, hp, hlaterRow, ?_, hw.row_unsent hopened hheld hsent,
        hw.beyond.mpr (hascends hheld).beyond⟩
      rw [hw.store, hdb]
      exact at_put

theorem row_pending (hopened : s.opened ≤ s.versions.length) (hheld : s.scope.holds row = true)
    (hascends : s.Ascends castReal row) (hi : i ≤ s.versions.length)
    (hid : row.messageId = v.messageId) : s'.Served i v ∨ s'.Pending i v := by
  have hlater : s'.Later i v row := hw.later_row hi hid
  by_cases hsent : Event.message (rowToMessage row) ∈ s.sent
  · obtain ⟨j, hij, hj, hjid⟩ := hlater
    exact .inl ⟨j, row, hij, hj, hjid, hw.sent ▸ hsent⟩
  · refine .inr ⟨row, hlater, ⟨db, hw.store ▸ at_put⟩, hw.row_unsent hopened hheld hsent, ?_,
      hw.beyond.mpr hascends.beyond⟩
    intro u hu hscope huid
    rw [hw.versions] at hu
    rcases List.mem_append.mp hu with hold | hlast
    · exact le_of_lt (hascends.later u hold huid)
    · rw [List.mem_singleton.mp hlast]

theorem pending (hopened : s.opened ≤ s.versions.length)
    (hmoved : ∀ old, table.row? row.messageId = some old → s.scope.holds old = true →
      s.scope.holds row = true)
    (hascends : s.scope.holds row = true → s.Ascends castReal row) (h : s.Pending i v) :
    s'.Served i v ∨ s'.Pending i v := by
  obtain ⟨r, hlater, ⟨db', hat⟩, hunsent, hnewest, hbeyond⟩ := h
  have hi : i ≤ s.versions.length := by
    obtain ⟨j, hij, hj, -⟩ := hlater
    have hlt : j < s.versions.length := (List.getElem?_eq_some_iff.mp hj).1
    omega
  have hrid : r.messageId = v.messageId := by
    obtain ⟨j, -, -, hjid⟩ := hlater
    exact hjid
  by_cases hrow : row.messageId = v.messageId ∧ s.scope.holds row = true
  · exact hw.row_pending hopened hrow.2 (hascends hrow.2) hi hrow.1
  · have hat' : s'.store.At db' r := by
      rcases at_put_of_at hw.source hat with hold | ⟨-, hid, hr⟩
      · exact hw.store ▸ hold
      · exact absurd ⟨hid.symm.trans hrid, hmoved r hr hunsent.1⟩ hrow
    refine .inr ⟨r, hw.later hlater, ⟨db', hat'⟩, hw.unsent hunsent, ?_, hw.beyond.mpr hbeyond⟩
    intro u hu hscope huid
    rw [hw.versions] at hu
    rw [hw.scope] at hscope
    rcases List.mem_append.mp hu with hold | hlast
    · exact hnewest u hold hscope huid
    · rw [List.mem_singleton.mp hlast] at hscope huid
      exact absurd ⟨huid.trans hrid, hscope⟩ hrow

theorem owes (h : s'.Owes i v) : s.Owes i v ∨ i = s.versions.length ∧ v = row := by
  obtain ⟨hopened, hversion, hheld⟩ := h
  rw [hw.scope] at hheld
  rw [hw.opened] at hopened
  have hlt : i < s.versions.length + 1 := by
    have hlt := (List.getElem?_eq_some_iff.mp hversion).1
    rwa [hw.versions, List.length_append] at hlt
  by_cases hi : i < s.versions.length
  · exact .inl ⟨hopened, (hw.version_of_lt hi).symm.trans hversion, hheld⟩
  · have heq : i = s.versions.length := by omega
    subst heq
    exact .inr ⟨rfl, Option.some.inj (hversion.symm.trans hw.version_last)⟩

theorem length : s'.versions.length = s.versions.length + 1 := by
  rw [hw.versions, List.length_append]
  rfl

theorem running (h : s.Running castReal)
    (hfinished : ∀ n, s.finished = some n → n ≤ s.versions.length)
    (hmoved : ∀ old, table.row? row.messageId = some old → s.scope.holds old = true →
      s.scope.holds row = true)
    (hascends : s.scope.holds row = true → s.Ascends castReal row) : s'.Running castReal := by
  have hlength := hw.length
  have hopened := h.kept.opened
  have hrowHeld : ∀ {i v}, s'.Owes i v → v = row → s.scope.holds row = true := by
    rintro i v howes rfl
    exact hw.scope ▸ howes.2.2
  refine ⟨⟨?_, ?_, ?_, ?_⟩, ?_, ?_, ?_, ?_⟩
  · intro db' r hat
    rw [hw.versions]
    rcases at_of_at_put hw.source (hw.store ▸ hat) with ⟨-, rfl⟩ | hold
    · exact List.mem_append_right _ List.mem_cons_self
    · exact List.mem_append_left _ (h.kept.held db' r hold)
  · rw [hw.opened, hlength]
    exact Nat.le_succ_of_le hopened
  · intro i v howes k u hk hu huid
    have hklt : k < s.versions.length := by
      have hlt := (List.getElem?_eq_some_iff.mp howes.2.1).1
      omega
    have hu' : s.versions[k]? = some u := (hw.version_of_lt hklt).symm.trans hu
    rcases hw.owes howes with hold | ⟨-, hv⟩
    · exact h.kept.ascending i v hold k u hk hu' huid
    · have hheld := hrowHeld howes hv
      subst hv
      exact (hascends hheld).later u (List.mem_of_getElem? hu') huid
  · intro i v howes
    rcases hw.owes howes with hold | ⟨-, hv⟩
    · exact h.kept.agree i v hold
    · have hheld := hrowHeld howes hv
      subst hv
      exact (hascends hheld).agree
  · rw [hw.finished, hw.phase]
    exact h.done
  · unfold Stream.Closed
    rw [hw.sent]
    exact h.notClosed
  · intro m hm
    rw [hw.phase] at hm
    obtain ⟨u, hu, heq⟩ := h.read m hm
    exact ⟨u, hw.versions ▸ List.mem_append_left _ hu, heq⟩
  · intro i v howes htime
    rw [hw.phase]
    have htime' : s.InTime i := fun n hn => htime n (hw.finished.trans hn)
    rcases hw.owes howes with hold | ⟨hi, hv⟩
    · rcases h.known i v hold htime' with hserved | hknown
      · exact .inl (hw.served hserved)
      · by_cases hserved : s'.Served i v
        · exact .inl hserved
        · refine .inr (known_imp (fun hp => ?_) (fun _ => hw.caught) (fun path hp => ?_) s.phase hknown)
          · exact (hw.pending hopened hmoved hascends hp).resolve_left hserved
          · exact (hw.waits hopened hmoved hascends hp).resolve_left hserved
    · have hheld := hrowHeld howes hv
      have hdone : s.phase.done = false := by
        rw [← h.done, Option.isSome_eq_false_iff, Option.isNone_iff_eq_none]
        cases hsome : s.finished with
        | none => rfl
        | some n =>
          have hlt := htime' n hsome
          have hle := hfinished n hsome
          omega
      subst hv
      exact (hw.row_pending hopened hheld (hascends hheld) (le_of_eq hi) rfl).imp_right
        (known_of_pending hdone)

theorem complete (hfinished : ∀ n, s.finished = some n → n ≤ s.versions.length) (h : s.Complete) :
    s'.Complete := by
  intro hclosed
  have hclosed' : s.Closed := by
    unfold Stream.Closed at *
    rwa [hw.sent] at hclosed
  obtain ⟨n, hn, hall⟩ := h hclosed'
  refine ⟨n, hw.finished.trans hn, fun i v hopened hi hversion hheld => ?_⟩
  have hlt : i < s.versions.length := by
    have hle := hfinished n hn
    omega
  rw [hw.opened] at hopened
  rw [hw.version_of_lt hlt] at hversion
  rw [hw.scope] at hheld
  exact hw.served (hall i v hopened hi hversion hheld)

end Wrote

/-- **an append** -/
theorem append_good {message : ContainerMessage} {now : Nat} (h : s.Good castReal)
    (hheeds : Move.Heeds castReal s (.append db message now))
    (hstep : s.step castReal (.append db message now) = some s') : s'.Good castReal := by
  obtain ⟨table, htable, rfl⟩ := Option.map_eq_some_iff.mp hstep
  by_cases hsame : table.row? message.messageId = some (table.rowFor message now)
  · exact write_same_good h htable hsame
  · have hw := @write_new s db table (table.rowFor message now) htable hsame
    refine ⟨fun n hn => ?_, fun hphase => ?_, fun hphase => hw.complete h.finished (h.complete hphase)⟩
    · rw [hw.length]
      exact Nat.le_succ_of_le (h.finished n hn)
    · obtain ⟨hmoved, hascends⟩ := hheeds table htable hphase hsame
      exact hw.running (h.running hphase) h.finished hmoved hascends

end

end Feed

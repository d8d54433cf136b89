import Mathlib.Data.Prod.Lex
import SuperNova.Feed.Page
import SuperNova.Lib.Table

/-!
# Messages in several databases

The messages of a workspace are in its own database and in one file for each task and each chat thread, a
projection shard.  A page of a container or of a chat thread is merged from the pages of all of them.

* `storedRow`, `MessageTable.put`: `append_message`, which replaces a message by its id;
* `StreamScope.page`, `StreamScope.aggregated`: the pages that are read, and the shards they are read from;
* `mergeProjectedMessages`: one page of them, without two messages of one id;
* `mem_page`, `exists_mem_merge`: what a page, and a merged page, is sure to hold.
-/

set_option linter.unusedSectionVars false

namespace Feed

/-! ## the databases -/

/-- what a page reads of a `ProjectionShardRecord` -/
structure ProjectionShardRecord where
  shardId : String
  containerId : String
  chatThreadId : Option String
  relativeDbPath : String
  status : String
  updatedAtMs : Int
  deriving DecidableEq

inductive Db where
  | main
  | shard (relativeDbPath : String)
  deriving DecidableEq

/-- the database of the workspace and the files of its shards, by their paths -/
structure Store where
  main : MessageTable
  records : List ProjectionShardRecord
  files : Table String MessageTable

def Store.table? (store : Store) : Db → Option MessageTable
  | .main => some store.main
  | .shard path => store.files.get? path

def Store.setTable (store : Store) (db : Db) (table : MessageTable) : Store :=
  match db with
  | .main => { store with main := table }
  | .shard path => { store with files := store.files.insert path table }

def MessageTable.empty : MessageTable := ⟨[], List.nodup_nil⟩

/-- `upsert_projection_shard` and `open_shard`, which creates the file -/
def Store.ensureShard (store : Store) (record : ProjectionShardRecord) (now : Int) : Store :=
  { store with
    records := (store.records.filter fun r => r.shardId != record.shardId) ++
      [{ record with updatedAtMs := now }]
    files := if (store.files.get? record.relativeDbPath).isSome then store.files
      else store.files.insert record.relativeDbPath .empty }

def Store.rows (store : Store) : List Row :=
  store.main.rows ++ store.files.values.flatMap MessageTable.rows

/-! ## `append_message` -/

/-- `u128 as i64` -/
def asI64 (n : Nat) : Int := (n : Int).bmod (2 ^ 64)

def MessageTable.row? (table : MessageTable) (messageId : String) : Option Row :=
  table.rows.find? fun row => row.messageId == messageId

/-- the row that `append_message` writes; a message that is there keeps its sort key -/
def storedRow (existing : Option Row) (now : Nat) (message : ContainerMessage) : Row :=
  let createdAtMs := if message.createdAtMs = 0 then now else message.createdAtMs
  let updatedAtMs := if message.updatedAtMs = 0 then now else message.updatedAtMs
  { messageId := message.messageId
    containerId := message.containerId
    lane := message.lane
    bodyText := message.bodyText
    bodyJson := message.bodyJson
    chatThreadId := message.chatThreadId
    taskId := message.taskId
    sourceSeq := message.sourceSeq
    createdAtMs := asI64 (existing.elim createdAtMs fun row => min (asU128 row.createdAtMs) createdAtMs)
    updatedAtMs := asI64 (existing.elim updatedAtMs fun row => max (asU128 row.updatedAtMs) updatedAtMs)
    sortKey := existing.elim message.sortKey Row.sortKey }

/-- `INSERT OR REPLACE` -/
def MessageTable.put (table : MessageTable) (row : Row) : MessageTable where
  rows := (table.rows.filter fun r => r.messageId != row.messageId) ++ [row]
  ids := by
    rw [List.map_append, List.nodup_append]
    refine ⟨table.ids.sublist (List.filter_sublist.map _), List.nodup_singleton _, ?_⟩
    intro id hid id' hid' heq
    obtain ⟨r, hr, rfl⟩ := List.mem_map.mp hid
    have hne := (List.mem_filter.mp hr).2
    simp only [List.map_cons, List.map_nil, List.mem_singleton] at hid'
    simp [heq, hid'] at hne

theorem mem_put {table : MessageTable} {row r : Row} :
    r ∈ (table.put row).rows ↔ r = row ∨ r ∈ table.rows ∧ r.messageId ≠ row.messageId := by
  show r ∈ (table.rows.filter fun r => r.messageId != row.messageId) ++ [row] ↔ _
  rw [List.mem_append, List.mem_filter, List.mem_singleton, or_comm]
  simp

theorem row?_eq_some {table : MessageTable} {messageId : String} {row : Row} :
    table.row? messageId = some row ↔ row ∈ table.rows ∧ row.messageId = messageId := by
  constructor
  · intro h
    exact ⟨List.mem_of_find?_eq_some h, by simpa using List.find?_some h⟩
  · rintro ⟨hmem, rfl⟩
    obtain ⟨row', hrow'⟩ : ∃ row', table.row? row.messageId = some row' :=
      Option.isSome_iff_exists.mp (List.find?_isSome.mpr ⟨row, hmem, by simp⟩)
    have hmem' : row' ∈ table.rows := List.mem_of_find?_eq_some hrow'
    have hid' : row'.messageId = row.messageId := by simpa using List.find?_some hrow'
    rw [hrow', List.inj_on_of_nodup_map table.ids hmem' hmem hid']

/-! ## the tables of a store -/

section
variable {store : Store} {db db' : Db} {table : MessageTable}

theorem mem_rows {row : Row} :
    row ∈ store.rows ↔ ∃ db table, store.table? db = some table ∧ row ∈ table.rows := by
  rw [Store.rows, List.mem_append, List.mem_flatMap]
  constructor
  · rintro (h | ⟨table, htable, h⟩)
    · exact ⟨.main, store.main, rfl, h⟩
    · obtain ⟨path, hpath⟩ := Table.mem_values.mp htable
      exact ⟨.shard path, table, hpath, h⟩
  · rintro ⟨db, table, htable, h⟩
    cases db with
    | main =>
      cases htable
      exact .inl h
    | shard path => exact .inr ⟨table, Table.mem_values.mpr ⟨path, htable⟩, h⟩

theorem table?_setTable :
    (store.setTable db table).table? db' = if db' = db then some table else store.table? db' := by
  cases db with
  | main => cases db' <;> rfl
  | shard path =>
    cases db' with
    | main => rfl
    | shard path' =>
      show (store.files.insert path table).get? path' = _
      rw [Table.get?_insert]
      simp [Store.table?]

theorem table?_ensureShard {record : ProjectionShardRecord} {now : Int} :
    (store.ensureShard record now).table? db = store.table? db ∨
      store.table? db = none ∧ (store.ensureShard record now).table? db = some .empty := by
  cases db with
  | main => exact .inl rfl
  | shard path =>
    show Table.get? (if _ then _ else _) path = store.files.get? path ∨ _
    by_cases hsome : (store.files.get? record.relativeDbPath).isSome
    · rw [if_pos hsome]
      exact .inl rfl
    · rw [if_neg hsome, Table.get?_insert]
      by_cases hpath : path = record.relativeDbPath
      · refine .inr ⟨?_, ?_⟩
        · rw [hpath]
          exact Option.not_isSome_iff_eq_none.mp hsome
        · show Table.get? (if _ then _ else _) path = _
          rw [if_neg hsome, Table.get?_insert, if_pos hpath]
      · rw [if_neg hpath]
        exact .inl rfl

end

/-! ## pages -/

inductive StreamScope where
  | container (containerId : String) (lane : MessageLane)
  | chatThread (chatThreadId : String)

def maxContainerAggregatedShards : Nat := 64

def listContainerProjectionShards (records : List ProjectionShardRecord) (containerId : String) :
    List ProjectionShardRecord :=
  (records.filter fun r => r.containerId == containerId).insertionSort fun a b =>
    toLex (b.updatedAtMs, b.shardId.toList) ≤ toLex (a.updatedAtMs, a.shardId.toList)

def projectionShardForChatThread (records : List ProjectionShardRecord) (chatThreadId : String) :
    Option ProjectionShardRecord :=
  ((records.filter fun r => r.chatThreadId == some chatThreadId).insertionSort fun a b =>
    b.updatedAtMs ≤ a.updatedAtMs).head?

/-- the shards whose pages are merged -/
def StreamScope.aggregated (scope : StreamScope) (records : List ProjectionShardRecord) :
    List ProjectionShardRecord :=
  match scope with
  | .container containerId _ =>
    ((listContainerProjectionShards records containerId).filter fun r => r.status == "active").take
      maxContainerAggregatedShards
  | .chatThread chatThreadId =>
    (projectionShardForChatThread records chatThreadId).toList.filter fun r => r.status == "active"

variable (castReal : String → Int)

/-- the rows that a statement selects and orders, up to the limit -/
def selectPage (rows : List Row) (afterEventId : Option Int) (boundedLimit : Nat) :
    List ContainerMessage :=
  match afterEventId with
  | some after =>
    ((orderAsc (rows.filter fun row => messageCursorSql castReal row > after)).take boundedLimit).map
      rowToMessage
  | none => (orderAsc ((orderDesc rows).take boundedLimit)).map rowToMessage

/-- `list_messages_page_for_lane` of a shard -/
def listMessagesPageForLane (table : MessageTable) (lane : Option MessageLane)
    (afterEventId : Option Int) (limit : Option Nat) : List ContainerMessage :=
  selectPage castReal (table.rows.filter fun row => lane.all (row.lane == ·)) afterEventId
    (normalizeMessagePageLimit limit)

/-- the page that is read from one database -/
def StreamScope.page (scope : StreamScope) (db : Db) (table : MessageTable)
    (afterEventId : Option Int) (limit : Option Nat) : List ContainerMessage :=
  match db, scope with
  | .main, .container containerId lane =>
    (listMessagesPage castReal table "container_id" containerId (some lane) afterEventId limit).toOption.getD
      []
  | .main, .chatThread chatThreadId =>
    (listMessagesPage castReal table "chat_thread_id" chatThreadId none afterEventId limit).toOption.getD []
  | .shard _, .container containerId lane =>
    (listMessagesPageForLane castReal table (some lane) afterEventId limit).filter fun message =>
      message.containerId == containerId && message.lane == lane
  | .shard _, .chatThread chatThreadId =>
    (listMessagesPageForLane castReal table none afterEventId limit).filter fun message =>
      message.chatThreadId == some chatThreadId

def StreamScope.holds (scope : StreamScope) (row : Row) : Bool :=
  match scope with
  | .container containerId lane => row.containerId == containerId && row.lane == lane
  | .chatThread chatThreadId => row.chatThreadId == some chatThreadId

/-- the `WHERE` clause for one database, but for the cursor -/
def StreamScope.selects (scope : StreamScope) (db : Db) (row : Row) : Bool :=
  match db, scope with
  | .main, scope => scope.holds row
  | .shard _, .container _ lane => row.lane == lane
  | .shard _, .chatThread _ => true

/-- the rows that the statement for one database selects -/
def StreamScope.selected (scope : StreamScope) (db : Db) (table : MessageTable)
    (afterEventId : Option Int) : List Row :=
  (table.rows.filter (scope.selects db)).filter fun row =>
    afterEventId.all fun after => messageCursorSql castReal row > after

/-! ## one page of several -/

/-- the order of `sort_messages_for_display_page` -/
def displayKey (message : ContainerMessage) : List Char ×ₗ Int ×ₗ List Char :=
  toLex (message.sortKey.toList,
    toLex (messageCursorEventId message, message.messageId.toList))

def sortMessagesForDisplayPage (messages : List ContainerMessage) : List ContainerMessage :=
  messages.insertionSort fun a b => displayKey a ≤ displayKey b

/-- one round of `merge_projected_messages`; of two messages of one id the one with the greater cursor
stays -/
def mergeStep (afterEventId : Option Int) (deduped : List ContainerMessage)
    (message : ContainerMessage) : List ContainerMessage :=
  if afterEventId.any fun after => messageCursorEventId message ≤ after then deduped
  else
    match deduped.find? fun m => m.messageId == message.messageId with
    | some existing =>
      if messageCursorEventId existing ≥ messageCursorEventId message then deduped
      else (deduped.filter fun m => m.messageId != message.messageId) ++ [message]
    | none => deduped ++ [message]

def dedupe (afterEventId : Option Int) (candidates : List ContainerMessage) :
    List ContainerMessage :=
  candidates.foldl (mergeStep afterEventId) []

def mergeProjectedMessages (candidates : List ContainerMessage) (afterEventId : Option Int)
    (limit : Option Nat) : List ContainerMessage :=
  let boundedLimit := normalizeMessagePageLimit limit
  let messages := sortMessagesForDisplayPage (dedupe afterEventId candidates)
  if afterEventId.isSome then messages.take boundedLimit
  else if messages.length > boundedLimit then messages.drop (messages.length - boundedLimit)
  else messages

/-! ## what a page holds -/

section
variable {castReal : String → Int} {rows : List Row} {after : Option Int} {limit : Nat} {row : Row}
  {message : ContainerMessage}

theorem mem_orderDesc : row ∈ orderDesc rows ↔ row ∈ rows := List.mem_insertionSort _

theorem mem_of_mem_selectPage (h : message ∈ selectPage castReal rows after limit) :
    ∃ row ∈ rows, message = rowToMessage row := by
  cases after with
  | some a =>
    obtain ⟨row, hrow, rfl⟩ := List.mem_map.mp h
    exact ⟨row, List.mem_of_mem_filter (mem_orderAsc.mp (List.mem_of_mem_take hrow)), rfl⟩
  | none =>
    obtain ⟨row, hrow, rfl⟩ := List.mem_map.mp h
    exact ⟨row, mem_orderDesc.mp (List.mem_of_mem_take (mem_orderAsc.mp hrow)), rfl⟩

theorem mem_selectPage (hrow : row ∈ rows)
    (hafter : ∀ a, after = some a → messageCursorSql castReal row > a)
    (hfits : (rows.filter fun row => after.all fun a => messageCursorSql castReal row > a).length ≤
      limit) : rowToMessage row ∈ selectPage castReal rows after limit := by
  cases after with
  | some a =>
    have hmem : row ∈ rows.filter fun row => decide (messageCursorSql castReal row > a) :=
      List.mem_filter.mpr ⟨hrow, decide_eq_true (hafter a rfl)⟩
    refine List.mem_map_of_mem ?_
    rw [List.take_of_length_le]
    · exact mem_orderAsc.mpr hmem
    · rw [orderAsc, List.length_insertionSort]
      exact hfits
  | none =>
    refine List.mem_map_of_mem (mem_orderAsc.mpr ?_)
    rw [List.take_of_length_le]
    · exact mem_orderDesc.mpr hrow
    · rw [orderDesc, List.length_insertionSort]
      simpa using hfits

end

section
variable {castReal : String → Int} {scope : StreamScope} {db : Db} {table : MessageTable}
  {after : Option Int} {limit : Option Nat} {row : Row} {message : ContainerMessage}

theorem listMessagesPage_container (containerId : String) (lane : MessageLane) :
    listMessagesPage castReal table "container_id" containerId (some lane) after limit =
      .ok (selectPage castReal
        (table.rows.filter ((StreamScope.container containerId lane).selects .main)) after
        (normalizeMessagePageLimit limit)) := by
  cases after <;> rfl

theorem listMessagesPage_chatThread (chatThreadId : String) :
    listMessagesPage castReal table "chat_thread_id" chatThreadId none after limit =
      .ok (selectPage castReal
        (table.rows.filter ((StreamScope.chatThread chatThreadId).selects .main)) after
        (normalizeMessagePageLimit limit)) := by
  have hscope : inScope .chatThreadId chatThreadId none =
      (StreamScope.chatThread chatThreadId).selects .main := by
    funext row
    show (_ && true) = _
    rw [Bool.and_true]
    rfl
  rw [← hscope]
  cases after <;> rfl

/-- a page of one database is a page of the rows that its statement selects, of which those of the scope
are kept -/
theorem page_eq : scope.page castReal db table after limit =
    (selectPage castReal (table.rows.filter (scope.selects db)) after
      (normalizeMessagePageLimit limit)).filter fun message =>
        match db with
        | .main => true
        | .shard _ =>
          match scope with
          | .container containerId lane =>
            message.containerId == containerId && message.lane == lane
          | .chatThread chatThreadId => message.chatThreadId == some chatThreadId := by
  cases db with
  | main =>
    cases scope with
    | container containerId lane =>
      rw [StreamScope.page, listMessagesPage_container]
      exact (List.filter_eq_self.mpr fun _ _ => rfl).symm
    | chatThread chatThreadId =>
      rw [StreamScope.page, listMessagesPage_chatThread]
      exact (List.filter_eq_self.mpr fun _ _ => rfl).symm
  | shard path =>
    cases scope with
    | container containerId lane => rfl
    | chatThread chatThreadId => rfl

theorem mem_of_mem_page (h : message ∈ scope.page castReal db table after limit) :
    ∃ row ∈ table.rows, message = rowToMessage row := by
  rw [page_eq] at h
  obtain ⟨row, hrow, rfl⟩ := mem_of_mem_selectPage (List.mem_of_mem_filter h)
  exact ⟨row, List.mem_of_mem_filter hrow, rfl⟩

/-- **a page of one database** that is not cut holds every message of the scope beyond the cursor -/
theorem mem_page (hrow : row ∈ table.rows) (hscope : scope.holds row = true)
    (hafter : ∀ a, after = some a → messageCursorSql castReal row > a)
    (hfits : (scope.selected castReal db table after).length ≤ normalizeMessagePageLimit limit) :
    rowToMessage row ∈ scope.page castReal db table after limit := by
  have hselects : scope.selects db row = true := by
    cases db with
    | main => exact hscope
    | shard path =>
      cases scope with
      | container containerId lane => exact (Bool.and_eq_true_iff.mp hscope).2
      | chatThread chatThreadId => rfl
  rw [page_eq]
  refine List.mem_filter.mpr
    ⟨mem_selectPage (List.mem_filter.mpr ⟨hrow, hselects⟩) hafter hfits, ?_⟩
  cases db with
  | main => rfl
  | shard path =>
    cases scope with
    | container containerId lane => exact hscope
    | chatThread chatThreadId => exact hscope

end

/-! ## what a merged page holds -/

section
variable {after : Option Int} {deduped candidates : List ContainerMessage} {m c : ContainerMessage}

theorem mergeStep_cases (after : Option Int) (deduped : List ContainerMessage)
    (c : ContainerMessage) :
    (mergeStep after deduped c = deduped ∧
      ((∃ a, after = some a ∧ messageCursorEventId c ≤ a) ∨
        ∃ m ∈ deduped, m.messageId = c.messageId ∧ messageCursorEventId c ≤ messageCursorEventId m)) ∨
    (mergeStep after deduped c =
        (deduped.filter fun m => m.messageId != c.messageId) ++ [c] ∧
      ∀ m ∈ deduped, m.messageId = c.messageId → (deduped.map (·.messageId)).Nodup →
        messageCursorEventId m < messageCursorEventId c) := by
  unfold mergeStep
  by_cases hold : after.any fun a => messageCursorEventId c ≤ a
  · rw [if_pos hold]
    cases after with
    | none => exact absurd hold Bool.false_ne_true
    | some a => exact .inl ⟨rfl, .inl ⟨a, rfl, of_decide_eq_true hold⟩⟩
  · rw [if_neg hold]
    cases hfind : deduped.find? fun m => m.messageId == c.messageId with
    | none =>
      have hnone : ∀ m ∈ deduped, m.messageId ≠ c.messageId := by
        intro m hm
        simpa using List.find?_eq_none.mp hfind m hm
      refine .inr ⟨?_, fun m hm heq _ => absurd heq (hnone m hm)⟩
      rw [List.filter_eq_self.mpr fun m hm => by simpa using hnone m hm]
    | some existing =>
      have hmem : existing ∈ deduped := List.mem_of_find?_eq_some hfind
      have hid : existing.messageId = c.messageId := by simpa using List.find?_some hfind
      dsimp only
      by_cases hge : messageCursorEventId existing ≥ messageCursorEventId c
      · rw [if_pos hge]
        exact .inl ⟨rfl, .inr ⟨existing, hmem, hid, hge⟩⟩
      · rw [if_neg hge]
        refine .inr ⟨rfl, fun m hm heq hnodup => ?_⟩
        have hsame : m = existing := List.inj_on_of_nodup_map hnodup hm hmem (heq.trans hid.symm)
        rw [hsame]
        omega

theorem mergeStep_nodup (h : (deduped.map (·.messageId)).Nodup) :
    ((mergeStep after deduped c).map (·.messageId)).Nodup := by
  rcases mergeStep_cases after deduped c with ⟨heq, -⟩ | ⟨heq, -⟩
  · rw [heq]
    exact h
  · rw [heq, List.map_append, List.nodup_append]
    refine ⟨h.sublist (List.filter_sublist.map _), List.nodup_singleton _, ?_⟩
    intro id hid id' hid' heq'
    obtain ⟨m, hm, rfl⟩ := List.mem_map.mp hid
    have hne := (List.mem_filter.mp hm).2
    simp only [List.map_cons, List.map_nil, List.mem_singleton] at hid'
    simp [heq', hid'] at hne

theorem dedupe_nodup (after : Option Int) (candidates : List ContainerMessage) :
    ((dedupe after candidates).map (·.messageId)).Nodup := by
  induction candidates using List.reverseRecOn with
  | nil => exact List.nodup_nil
  | append_singleton candidates c ih =>
    rw [dedupe, List.foldl_concat]
    exact mergeStep_nodup ih

theorem mem_of_mem_dedupe (h : m ∈ dedupe after candidates) : m ∈ candidates := by
  induction candidates using List.reverseRecOn with
  | nil => exact absurd h List.not_mem_nil
  | append_singleton candidates c ih =>
    rw [dedupe, List.foldl_concat] at h
    rcases mergeStep_cases after (dedupe after candidates) c with ⟨heq, -⟩ | ⟨heq, -⟩
    · exact List.mem_append_left _ (ih (heq ▸ h))
    · rcases List.mem_append.mp (heq ▸ h) with h | h
      · exact List.mem_append_left _ (ih (List.mem_of_mem_filter h))
      · exact List.mem_append_right _ h

theorem exists_mem_dedupe (hc : c ∈ candidates)
    (hafter : ∀ a, after = some a → messageCursorEventId c > a) :
    ∃ m ∈ dedupe after candidates, m.messageId = c.messageId ∧
      messageCursorEventId c ≤ messageCursorEventId m := by
  induction candidates using List.reverseRecOn with
  | nil => exact absurd hc List.not_mem_nil
  | append_singleton candidates d ih =>
    rw [dedupe, List.foldl_concat]
    rcases mergeStep_cases after (dedupe after candidates) d with ⟨heq, hwhy⟩ | ⟨heq, hless⟩
    · rw [← dedupe, heq]
      rcases List.mem_append.mp hc with hc | hc
      · exact ih hc
      · cases List.mem_singleton.mp hc
        rcases hwhy with ⟨a, ha, hle⟩ | ⟨m, hm, hid, hle⟩
        · have hgt := hafter a ha
          omega
        · exact ⟨m, hm, hid, hle⟩
    · rw [← dedupe, heq]
      have hlast : d ∈ ((dedupe after candidates).filter fun m => m.messageId != d.messageId) ++ [d] :=
        List.mem_append_right _ List.mem_cons_self
      rcases List.mem_append.mp hc with hc | hc
      · obtain ⟨m, hm, hid, hle⟩ := ih hc
        by_cases hsame : m.messageId = d.messageId
        · have hlt := hless m hm hsame (dedupe_nodup after candidates)
          exact ⟨d, hlast, hsame.symm.trans hid, by omega⟩
        · have hmem : m ∈ (dedupe after candidates).filter fun m => m.messageId != d.messageId :=
            List.mem_filter.mpr ⟨hm, by simpa using hsame⟩
          exact ⟨m, List.mem_append_left _ hmem, hid, hle⟩
      · rw [List.mem_singleton.mp hc]
        exact ⟨d, hlast, rfl, le_refl _⟩

theorem mem_of_mem_merge {limit : Option Nat}
    (h : m ∈ mergeProjectedMessages candidates after limit) : m ∈ candidates := by
  have hsorted : m ∈ sortMessagesForDisplayPage (dedupe after candidates) := by
    unfold mergeProjectedMessages at h
    dsimp only at h
    split at h
    · exact List.mem_of_mem_take h
    split at h
    · exact List.mem_of_mem_drop h
    · exact h
  exact mem_of_mem_dedupe ((List.mem_insertionSort _).mp hsorted)

/-- **a merged page** that is not cut holds, of every candidate beyond the cursor, the candidate or one of
its id with no smaller cursor -/
theorem exists_mem_merge {limit : Option Nat} (hc : c ∈ candidates)
    (hafter : ∀ a, after = some a → messageCursorEventId c > a)
    (hfits : (dedupe after candidates).length ≤ normalizeMessagePageLimit limit) :
    ∃ m ∈ mergeProjectedMessages candidates after limit, m.messageId = c.messageId ∧
      messageCursorEventId c ≤ messageCursorEventId m := by
  obtain ⟨m, hm, hid, hle⟩ := exists_mem_dedupe hc hafter
  have hsorted : m ∈ sortMessagesForDisplayPage (dedupe after candidates) :=
    (List.mem_insertionSort _).mpr hm
  have hlength : (sortMessagesForDisplayPage (dedupe after candidates)).length ≤
      normalizeMessagePageLimit limit := by
    rw [sortMessagesForDisplayPage, List.length_insertionSort]
    exact hfits
  refine ⟨m, ?_, hid, hle⟩
  unfold mergeProjectedMessages
  dsimp only
  split
  · rw [List.take_of_length_le hlength]
    exact hsorted
  · rw [if_neg (by omega)]
    exact hsorted

end

end Feed

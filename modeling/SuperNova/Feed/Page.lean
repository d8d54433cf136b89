import Mathlib.Data.Char
import Mathlib.Data.List.Lex
import SuperNova.Lib.Int64
import SuperNova.Lib.Json
import SuperNova.Lib.Paging

/-!
# Pages of messages

A message row, the message that is read back from it, the cursor that the database computes to
select rows (`messageCursorSql`) and the one that the program computes from a message
(`messageCursorEventId`).

`listMessagesPage` selects the rows of a scope beyond a cursor, orders them by `sort_key` and takes a
page; the next page starts at the cursor of the last message (`pageCursorForMessages`).

* `pages_complete_iff` (**main**): paging from a cursor reaches every message beyond it, for every
  page limit, exactly when the messages in the order of their sort keys have ascending cursors;
* `replaced_message_hides_later`: a replaced message, with an old sort key and a new cursor, hides the
  messages between the two from a page of one.
-/

namespace Feed

open Int64

inductive MessageLane where
  | chat
  | task
  | runtime
  deriving DecidableEq

/-- a row of the table `messages`, with what a page reads of it; numbers are as SQLite stores them -/
structure Row where
  messageId : String
  containerId : String
  lane : MessageLane
  bodyText : Option String
  bodyJson : Json
  chatThreadId : Option String
  taskId : Option String
  sourceSeq : Option Int
  createdAtMs : Int
  updatedAtMs : Int
  sortKey : String
  deriving DecidableEq

/-- `ContainerMessage` -/
structure ContainerMessage where
  messageId : String
  containerId : String
  lane : MessageLane
  bodyText : Option String
  bodyJson : Json
  chatThreadId : Option String
  taskId : Option String
  sourceSeq : Option Int
  createdAtMs : Nat
  updatedAtMs : Nat
  sortKey : String
  deriving DecidableEq

/-- `i64 as u128` -/
def asU128 (n : Int) : Nat := (n % 2 ^ 128).toNat

/-- `row_to_message_public` -/
def rowToMessage (row : Row) : ContainerMessage where
  messageId := row.messageId
  containerId := row.containerId
  lane := row.lane
  bodyText := row.bodyText
  bodyJson := row.bodyJson
  chatThreadId := row.chatThreadId
  taskId := row.taskId
  sourceSeq := row.sourceSeq
  createdAtMs := asU128 row.createdAtMs
  updatedAtMs := asU128 row.updatedAtMs
  sortKey := row.sortKey

/-! ## the cursor of a message -/

/-- `Value::as_i64` -/
def asI64? : Json → Option Int
  | .num n => if inRange n then some n else none
  | _ => none

def feedCursorSeq (message : ContainerMessage) : Option Int :=
  (message.bodyJson.get? "_feed_cursor_seq").bind asI64?

def cursorOf (millis seq : Int) : Int := saturatingAdd (saturatingMul millis 1000000) seq

def sortKeyToCursor (sortKey : String) : Option Int :=
  let parts := Text.splitOn '_' sortKey
  (parts[0]?.bind parse?).map fun millis =>
    cursorOf millis (clamp ((parts[1]?.bind parse?).getD 0) 0 999999)

/-- `i64::try_from(…).unwrap_or(i64::MAX / 1_000_000)` -/
def millisOf (ms : Nat) : Int := if (ms : Int) ≤ maxI64 then ms else maxI64 / 1000000

def updatedCursor (message : ContainerMessage) : Int :=
  cursorOf (millisOf message.updatedAtMs)
    (clamp (((feedCursorSeq message).or message.sourceSeq).getD 0) 0 999999)

def messageCursorEventId (message : ContainerMessage) : Int :=
  match sortKeyToCursor message.sortKey with
  | some sortCursor => max sortCursor (updatedCursor message)
  | none => updatedCursor message

/-! ## the cursor of a row -/

/-- `json_extract` of the sequence number, cast; `castReal` is SQLite's cast of a JSON real, and a
JSON null is NULL -/
def extractSeq (castReal : String → Int) : Json → Option Int
  | .null => none
  | .bool b => some (if b then 1 else 0)
  | .num n => some (saturate n)
  | .real text => some (castReal text)
  | .str s => some (castText s.toList)
  -- the text of an array or an object starts with a bracket
  | .arr _ | .obj _ => some 0

def messageCursorSql (castReal : String → Int) (row : Row) : Int :=
  let key := row.sortKey.toList
  let sortCursor := SqlNum.add (.mul (.int (castText (key.take 20))) (.int 1000000))
    (.int (castText ((key.drop 21).take 10)))
  let seq := ((row.bodyJson.get? "_feed_cursor_seq").bind (extractSeq castReal)).or row.sourceSeq
  let updatedCursor := SqlNum.add (.mul (.int row.updatedAtMs) (.int 1000000))
    (.int (max 0 (min (seq.getD 0) 999999)))
  (SqlNum.maximum sortCursor updatedCursor).value

end Feed

set_option linter.unusedSectionVars false

namespace Feed

/-! ## the table and its queries -/

/-- the rows of `messages` in the order of their row ids; `message_id` is the primary key -/
structure MessageTable where
  rows : List Row
  ids : (rows.map Row.messageId).Nodup

def defaultMessagePageLimit : Nat := 1000
def maxMessagePageLimit : Nat := 1000

def normalizeMessagePageLimit (limit : Option Nat) : Nat :=
  min (limit.getD defaultMessagePageLimit) maxMessagePageLimit

inductive ScopeColumn where
  | containerId
  | chatThreadId
  | taskId
  deriving DecidableEq

def ScopeColumn.name : ScopeColumn → String
  | containerId => "container_id"
  | chatThreadId => "chat_thread_id"
  | taskId => "task_id"

def ScopeColumn.ofName? (s : String) : Option ScopeColumn :=
  if s = "container_id" then some containerId
  else if s = "chat_thread_id" then some chatThreadId
  else if s = "task_id" then some taskId
  else none

theorem ScopeColumn.ofName?_name (c : ScopeColumn) : ofName? c.name = some c := by
  cases c <;> rfl

def ScopeColumn.get : ScopeColumn → Row → Option String
  | containerId, row => some row.containerId
  | chatThreadId, row => row.chatThreadId
  | taskId, row => row.taskId

/-- the `WHERE` clause but for the cursor -/
def inScope (column : ScopeColumn) (value : String) (lane : Option MessageLane) (row : Row) : Bool :=
  column.get row == some value && lane.all (row.lane == ·)

/-- `ORDER BY sort_key ASC`, rows with equal keys in the order of their row ids -/
def orderAsc (rows : List Row) : List Row :=
  rows.insertionSort fun a b => a.sortKey.toList ≤ b.sortKey.toList

/-- `ORDER BY sort_key DESC` -/
def orderDesc (rows : List Row) : List Row :=
  rows.insertionSort fun a b => b.sortKey.toList ≤ a.sortKey.toList

variable (castReal : String → Int)

def listMessagesPage (table : MessageTable) (scopeColumn scopeValue : String)
    (lane : Option MessageLane) (afterEventId : Option Int) (limit : Option Nat) :
    Except String (List ContainerMessage) :=
  match ScopeColumn.ofName? scopeColumn with
  | none => .error ("unsupported message page scope: " ++ scopeColumn)
  | some column =>
    let boundedLimit := normalizeMessagePageLimit limit
    let selected := table.rows.filter (inScope column scopeValue lane)
    match afterEventId with
    | some after =>
      .ok (((orderAsc (selected.filter fun row => messageCursorSql castReal row > after)).take
        boundedLimit).map rowToMessage)
    | none => .ok ((orderAsc ((orderDesc selected).take boundedLimit)).map rowToMessage)

def pageCursorForMessages (messages : List ContainerMessage) : Option Int :=
  messages.getLast?.map messageCursorEventId

/-! ## paging -/

section
variable (table : MessageTable) (column : ScopeColumn) (value : String)
  (lane : Option MessageLane)

/-- the messages of a scope in the order of their sort keys -/
def scopeMessages : List ContainerMessage :=
  (orderAsc (table.rows.filter (inScope column value lane))).map rowToMessage

/-- the page of at most `n` messages after a cursor -/
def pageAfter (n : Nat) (after : Int) : List ContainerMessage :=
  (listMessagesPage castReal table column.name value lane (some after) (some n)).toOption.getD []

/-- paging from a cursor, each next cursor being that of the page just received, comes to an empty
page, and every message of the scope beyond the cursor was on a page before it -/
def PagesComplete (n : Nat) (after : Int) : Prop :=
  Paging.Complete messageCursorEventId (pageAfter castReal table column value lane n)
    (scopeMessages table column value lane) after

/-- the database selects by the same cursor as the program pages by -/
def CursorsAgree : Prop :=
  ∀ row ∈ table.rows, inScope column value lane row →
    messageCursorSql castReal row = messageCursorEventId (rowToMessage row)

/-- beyond a cursor, the messages in the order of their sort keys have ascending cursors -/
def AscendingBeyond (after : Int) : Prop :=
  (Paging.beyond messageCursorEventId after (scopeMessages table column value lane)).Pairwise
    fun a b => messageCursorEventId a < messageCursorEventId b

end

theorem orderAsc_filter (p : Row → Bool) (rows : List Row) :
    (orderAsc rows).filter p = orderAsc (rows.filter p) :=
  Paging.insertionSort_filter p rows

theorem mem_orderAsc {row : Row} {rows : List Row} : row ∈ orderAsc rows ↔ row ∈ rows :=
  List.mem_insertionSort _

variable {castReal} {table : MessageTable} {column : ScopeColumn} {value : String}
  {lane : Option MessageLane}

theorem scopeMessages_nodup : (scopeMessages table column value lane).Nodup := by
  have hids : ((table.rows.filter (inScope column value lane)).map Row.messageId).Nodup :=
    table.ids.sublist (List.filter_sublist.map _)
  refine List.Nodup.of_map ContainerMessage.messageId ?_
  rw [scopeMessages, List.map_map]
  exact ((List.perm_insertionSort _ _).map Row.messageId).nodup_iff.mpr hids

theorem pageAfter_eq (h : CursorsAgree castReal table column value lane) {n : Nat} (hn : n ≤ 1000)
    (after : Int) :
    pageAfter castReal table column value lane n after =
      Paging.page messageCursorEventId (scopeMessages table column value lane) n after := by
  have hlimit : normalizeMessagePageLimit (some n) = n := Nat.min_eq_left hn
  have hfilter : (table.rows.filter (inScope column value lane)).filter
        (fun row => decide (messageCursorSql castReal row > after)) =
      (table.rows.filter (inScope column value lane)).filter
        (fun row => decide (messageCursorEventId (rowToMessage row) > after)) := by
    refine List.filter_congr fun row hrow => ?_
    obtain ⟨hmem, hscope⟩ := List.mem_filter.mp hrow
    rw [h row hmem hscope]
  unfold pageAfter listMessagesPage
  rw [ScopeColumn.ofName?_name]
  show ((orderAsc _).take (normalizeMessagePageLimit (some n))).map rowToMessage = _
  rw [hlimit, hfilter, ← orderAsc_filter, Paging.page, Paging.beyond, scopeMessages,
    List.filter_map, List.map_take]
  rfl

/-- **completeness of pages**: for a scope whose rows the database selects by the cursor of the
message, paging reaches every message beyond a cursor for every page limit exactly when the messages
beyond it have ascending cursors in the order of their sort keys -/
theorem pages_complete_iff (castReal : String → Int) (table : MessageTable) (column : ScopeColumn)
    (value : String) (lane : Option MessageLane) (after : Int)
    (h : CursorsAgree castReal table column value lane) :
    (∀ n, 1 ≤ n → n ≤ 1000 → PagesComplete castReal table column value lane n after) ↔
      AscendingBeyond table column value lane after := by
  refine Iff.trans ?_ (@Paging.complete_iff _ messageCursorEventId _ after
    (@scopeMessages_nodup table column value lane) 1000 (by decide))
  refine forall_congr' fun n => forall_congr' fun _ => forall_congr' fun hn => ?_
  rw [PagesComplete, show pageAfter castReal table column value lane n = _ from
    funext (pageAfter_eq h hn)]

/-- a message of the chat `chat` -/
def chatRow (id : String) (updatedAtMs : Int) (sortKey : String) : Row :=
  { messageId := id, containerId := "container", lane := .chat, bodyText := none
    bodyJson := .obj [], chatThreadId := some "chat", taskId := none, sourceSeq := none
    createdAtMs := 10, updatedAtMs, sortKey }

/-- two messages that were not replaced -/
def twoMessages : MessageTable where
  rows := [chatRow "a" 10 "00000000000000000010_0000000001",
    chatRow "b" 20 "00000000000000000020_0000000002"]
  ids := by decide

theorem pages_complete_iff_two :
    CursorsAgree (fun _ => 0) twoMessages .chatThreadId "chat" none ∧
      ∀ n, 1 ≤ n → n ≤ 1000 →
        PagesComplete (fun _ => 0) twoMessages .chatThreadId "chat" none n 0 := by
  have h : CursorsAgree (fun _ => 0) twoMessages .chatThreadId "chat" none := by
    unfold CursorsAgree
    decide
  refine ⟨h, (pages_complete_iff _ twoMessages .chatThreadId "chat" none 0 h).mpr ?_⟩
  unfold AscendingBeyond
  decide

/-- the first of two messages was replaced after the second one came -/
def replacedMessage : MessageTable where
  rows := [chatRow "a" 40 "00000000000000000010_0000000001",
    chatRow "b" 20 "00000000000000000020_0000000002"]
  ids := by decide

/-- a page with the replaced message alone moves the cursor beyond the other message -/
theorem replaced_message_hides_later :
    ¬ PagesComplete (fun _ => 0) replacedMessage .chatThreadId "chat" none 1 0 := by
  have h : CursorsAgree (fun _ => 0) replacedMessage .chatThreadId "chat" none := by
    unfold CursorsAgree
    decide
  intro hall
  rw [PagesComplete, show pageAfter _ _ _ _ _ 1 = _ from funext (pageAfter_eq h (by decide))] at hall
  have := Paging.ascending_of_complete scopeMessages_nodup hall
  revert this
  decide

end Feed

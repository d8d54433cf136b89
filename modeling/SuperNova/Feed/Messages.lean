import SuperNova.Feed.Merge
import SuperNova.Lib.Replaced
import SuperNova.Lib.Table

/-!
# Whole messages

A message with the fields that the feed pages do not look at, a table of messages by their ids, and
`append_message` on it.

* `stored`, `appendMessage`: the message that is written, and the table after it;
* `rowToMessage_storedRow`: on the fields of a page it is what the feed's row reads back as;
* `look_appendMessage`: an append replaces all of a message but its sort key.
-/

namespace Feed

inductive MessageRole where
  | user | assistant | agent | tool | system
  deriving DecidableEq

inductive MessageType where
  | text | reasoning | toolCall | toolResult | approval | artifact | phase | error
  deriving DecidableEq

/-- `ContainerMessage` with all of its fields -/
structure Message extends ContainerMessage where
  workspaceUid : String
  role : MessageRole
  messageType : MessageType
  status : String
  title : Option String
  cardJson : Json
  jobId : Option String
  sourceKind : String
  sourceRef : String
  deriving DecidableEq

/-- the messages of a database by their ids, as they are read back -/
abbrev Messages := Table String Message

/-- a message with other times and another sort key -/
def Message.placed (message : Message) (createdAtMs updatedAtMs : Nat) (sortKey : String) : Message :=
  { message with createdAtMs, updatedAtMs, sortKey }

/-- the message that `append_message` writes, as it is read back -/
def stored (existing : Option Message) (now : Nat) (message : Message) : Message :=
  let createdAtMs := if message.createdAtMs = 0 then now else message.createdAtMs
  let updatedAtMs := if message.updatedAtMs = 0 then now else message.updatedAtMs
  message.placed
    (asU128 (asI64 (existing.elim createdAtMs fun old => min old.createdAtMs createdAtMs)))
    (asU128 (asI64 (existing.elim updatedAtMs fun old => max old.updatedAtMs updatedAtMs)))
    (existing.elim message.sortKey fun old => old.sortKey)

def appendMessage (now : Nat) (messages : Messages) (message : Message) : Messages :=
  messages.insert message.messageId (stored (messages.get? message.messageId) now message)

theorem rowToMessage_storedRow (existing : Option Row) (old : Option Message) (now : Nat)
    (message : Message) (h : existing.map rowToMessage = old.map Message.toContainerMessage) :
    rowToMessage (storedRow existing now message.toContainerMessage) =
      (stored old now message).toContainerMessage := by
  cases existing with
  | none =>
    cases old with
    | none =>
      unfold rowToMessage storedRow stored Message.placed
      simp only [Option.elim_none]
    | some old => exact absurd h nofun
  | some row =>
    cases old with
    | none => exact absurd h nofun
    | some old =>
      have hrow : rowToMessage row = old.toContainerMessage := Option.some.inj h
      have hcreated : asU128 row.createdAtMs = old.createdAtMs := congrArg ContainerMessage.createdAtMs hrow
      have hupdated : asU128 row.updatedAtMs = old.updatedAtMs := congrArg ContainerMessage.updatedAtMs hrow
      have hsort : row.sortKey = old.sortKey := congrArg ContainerMessage.sortKey hrow
      unfold rowToMessage storedRow stored Message.placed
      simp only [Option.elim_some, hcreated, hupdated, hsort]

/-! ## but for the times -/

/-- a message without its sort key and its times -/
def Message.content (message : Message) : Message := message.placed 0 0 ""

/-- the sort key of a message, and the rest of it without the times -/
def Message.view (message : Message) : String × Message := (message.sortKey, message.content)

theorem view_placed (message : Message) (createdAtMs updatedAtMs : Nat) (sortKey : String) :
    (message.placed createdAtMs updatedAtMs sortKey).view = (sortKey, message.content) := rfl

theorem view_stored (existing : Option Message) (now : Nat) (message : Message) :
    (stored existing now message).view =
      ((existing.map (·.sortKey)).getD message.sortKey, message.content) := by
  unfold stored
  rw [view_placed]
  cases existing with
  | none => rw [Option.elim_none, Option.map_none, Option.getD_none]
  | some old => rw [Option.elim_some, Option.map_some, Option.getD_some]

def look (messages : Messages) (messageId : String) : Option (String × Message) :=
  (messages.get? messageId).map Message.view

theorem look_appendMessage (now : Nat) (messages : Messages) (message : Message) (messageId : String) :
    look (appendMessage now messages message) messageId = if messageId = message.messageId then
      Replaced.write (look messages messageId) message.view else look messages messageId := by
  unfold look appendMessage
  rw [Table.get?_insert]
  by_cases h : messageId = message.messageId
  · rw [if_pos h, if_pos h, h, Option.map_some, view_stored]
    cases messages.get? message.messageId with
    | none => rfl
    | some old => rfl
  · rw [if_neg h, if_neg h]

end Feed

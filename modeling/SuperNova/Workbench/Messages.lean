import Mathlib.Algebra.GroupWithZero.Nat
import SuperNova.Feed.Messages
import SuperNova.Lib.Hiding

/-!
# The messages of the workbench

The workbench shows the messages of a container from two sources: the page that was fetched last,
and the messages that came with events since, which it keeps in a buffer of its own.

* `mergeMessages`: the later version of each message, in display order, without duplicate answers;
* `appendMessageByContainer`: a message that came with an event;
* `State.sortedMessages`: what is shown.

Strings are compared by `localeCompare`, which is a parameter (`Collation`).
-/

namespace Workbench

open Feed Hiding

def liveMessageBufferLimit : Nat := 240

/-- `String.prototype.localeCompare`: a consistent comparison of strings; different strings may
compare equal -/
structure Collation where
  localeCompare : String → String → Ordering
  consistent : Std.TransCmp localeCompare

/-- `compareMessagesForDisplay` -/
def compareMessagesForDisplay (collation : Collation) (left right : Message) : Ordering :=
  (compare left.createdAtMs right.createdAtMs).then <|
    (compare (left.sourceSeq.getD 0) (right.sourceSeq.getD 0)).then <|
      (collation.localeCompare left.sortKey right.sortKey).then
        (collation.localeCompare left.messageId right.messageId)

/-! ## duplicate answers -/

/-- what `\s` matches -/
def isSpace (c : Char) : Bool :=
  let n := c.toNat
  (9 ≤ n && n ≤ 13) || n == 32 || n == 0xA0 || n == 0x1680 || (0x2000 ≤ n && n ≤ 0x200A) || n == 0x2028 ||
    n == 0x2029 || n == 0x202F || n == 0x205F || n == 0x3000 || n == 0xFEFF

/-- `normalizeText`; splitting at every space and splitting at runs of them differ in empty parts only -/
def normalizeText (value : Option String) : String :=
  Text.join " " ((((value.getD "").toList.splitOnP isSpace).filter (· ≠ [])).map String.ofList)

/-- `String.prototype.length`, in UTF-16 code units -/
def utf16Length (s : String) : Nat := (s.toList.map fun c => if c.toNat < 0x10000 then 1 else 2).sum

def sameSubstantialText (left right : Option String) : Bool :=
  30 ≤ utf16Length (normalizeText left) && normalizeText left == normalizeText right

def isTaskFinalAnswer (message : Message) : Bool :=
  message.lane = .task ∧ message.role = .agent ∧ message.messageType = .text ∧
    message.title = some "Task final answer"

def isAssistantText (sourceKind : String) (message : Message) : Bool :=
  message.lane = .chat ∧ message.role = .assistant ∧ message.messageType = .text ∧
    message.sourceKind = sourceKind

def isChatTruthAssistantText : Message → Bool := isAssistantText "chat_truth"

def isModelStreamAssistantText : Message → Bool := isAssistantText "model_stream"

/-- the streamed answer that a stored one repeats -/
def isDuplicateStream (message candidate : Message) : Bool :=
  isModelStreamAssistantText candidate && candidate.chatThreadId == message.chatThreadId &&
    sameSubstantialText candidate.bodyText message.bodyText &&
    ((candidate.createdAtMs : Int) - message.createdAtMs).natAbs ≤ 120000

def suppressDuplicateChatFinalAnswers (messages : List Message) : List Message :=
  messages.foldl (fun kept message =>
    if ¬ isChatTruthAssistantText message then kept ++ [message]
    else if (kept.find? (isDuplicateStream message)).isSome then kept
    else kept ++ [message]) []

/-- the first value that is not empty -/
def firstTruthy (values : List (Option String)) : String := ((values.map (·.getD "")).find? (· ≠ "")).getD ""

/-- the key of a final answer -/
def finalKey (message : Message) : String :=
  firstTruthy [message.taskId, message.jobId] ++ ":" ++ normalizeText message.bodyText

def suppressDuplicateTaskFinalAnswers (messages : List Message) : List Message :=
  (messages.foldl (fun (kept, finalByTaskAndBody) message =>
    if ¬ isTaskFinalAnswer message then (kept ++ [message], finalByTaskAndBody)
    else if finalKey message ∈ finalByTaskAndBody then (kept, finalByTaskAndBody)
    else (kept ++ [message], finalByTaskAndBody ++ [finalKey message])) (([], []) : List Message × List String)).1

/-! ## merging -/

/-- the messages of two lists by their ids; later ones replace earlier ones at their places -/
def byId (base additions : List Message) : List Message :=
  overlay (·.messageId) (overlay (·.messageId) [] base) additions

/-- `Array.prototype.sort`, which is stable -/
def sortForDisplay (collation : Collation) (messages : List Message) : List Message :=
  messages.insertionSort fun left right => compareMessagesForDisplay collation left right ≠ .gt

def mergeMessages (collation : Collation) (base additions : List Message) : List Message :=
  suppressDuplicateTaskFinalAnswers
    (suppressDuplicateChatFinalAnswers (sortForDisplay collation (byId base additions)))

def limitMessages (messages : List Message) (limit : Nat) : List Message :=
  if messages.length ≤ limit then messages else messages.drop (messages.length - limit)

def appendMessageByContainer (collation : Collation) (current : String → List Message) (message : Message) :
    String → List Message :=
  Function.update current message.containerId
    (limitMessages (mergeMessages collation (current message.containerId) [message]) liveMessageBufferLimit)

/-! ## runs -/

/-- the last page of each container, and its live messages -/
structure State where
  pages : String → List Message
  liveMessagesByContainer : String → List Message

def State.start : State := ⟨fun _ => [], fun _ => []⟩

inductive Arrival where
  /-- a page of the messages of a container -/
  | page (containerId : String) (items : List Message)
  /-- a message that came with an event -/
  | live (message : Message)

def State.step (collation : Collation) (s : State) : Arrival → State
  | .page containerId items => { s with pages := Function.update s.pages containerId items }
  | .live message =>
    { s with liveMessagesByContainer := appendMessageByContainer collation s.liveMessagesByContainer message }

def State.run (collation : Collation) (arrivals : List Arrival) : State := arrivals.foldl (State.step collation) .start

/-- `sortedMessages` -/
def State.sortedMessages (collation : Collation) (s : State) (containerId : String) : List Message :=
  mergeMessages collation (s.pages containerId) (s.liveMessagesByContainer containerId)

end Workbench

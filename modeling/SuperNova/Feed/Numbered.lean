import SuperNova.Chat.Log
import SuperNova.Feed.Agreed
import SuperNova.Feed.Messages

/-!
# The counter of the message cursors

One counter of the process numbers new messages, replaced messages and repaired ones.  A replaced message
gets the clock's time and the next number, and the two make its cursor; it keeps its sort key.

* `replacements_greater_iff` (**main**): every replacement of a run gets a greater cursor than the message
  had and than all cursors handed out before, exactly when its time and number come later than every time
  and number that are read in them; so it does while the handed out times and numbers ascend;
* `replaced_in_the_same_millisecond`: numbers above 999999 are all the same.
-/

set_option linter.unusedSectionVars false

namespace Feed

open Int64 Chat

/-! ## the uses of the counter -/

/-- `Map::insert`, on a body that is an object -/
def insertField (key : String) (value : Json) : Json → Json
  | .obj fields => .obj ((key, value) :: fields.filter fun f => f.1 ≠ key)
  | body => body

def advanceMessageCursor (now : Nat) (seq : UInt64) (message : Message) : Message :=
  { message with
    updatedAtMs := now
    bodyJson := insertField "_feed_cursor_seq" (.num (asI64 seq.toNat)) message.bodyJson }

/-- `new_message`, with the other fields as its caller sets them -/
def newMessage (now : Nat) (seq : UInt64) (message : Message) : Message :=
  message.placed now now (zeroPadded 20 now ++ "_" ++ zeroPadded 10 seq.toNat)

/-- the rows that `downgrade_database_locked_kernel_errors` updates -/
def isLockedError (containerId : String) (lane : MessageLane) (sourceRef : String) (message : Message) : Bool :=
  message.containerId == containerId && message.lane == lane && message.sourceKind == "kernel_bridge" &&
    message.sourceRef == sourceRef && message.messageType == .error &&
    Text.contains (Text.toAsciiLowercase (message.bodyText.getD "")) "database is locked"

def repairBody (now : Nat) (seq : UInt64) (lane : MessageLane) (sourceRef : String) : Json :=
  .obj [("schema", .str "supernova_projection_repair.v1"), ("status", .str "projection_error_recovered"),
    ("original_error_class", .str "database_is_locked"),
    ("truth_source", .str (if lane = .task then "process_truth" else "chat_truth")),
    ("source_kind", .str "kernel_bridge"), ("source_ref", .str sourceRef), ("recovered_at_ms", .num now),
    ("_feed_cursor_seq", .num (asI64 seq.toNat))]

def repaired (now : Nat) (seq : UInt64) (lane : MessageLane) (sourceRef : String) (message : Message) : Message :=
  { message with
    messageType := .phase
    status := "completed"
    title := some "Projection error recovered"
    bodyText := some "Recovered local projection write failure from Kernel truth."
    bodyJson := repairBody now seq lane sourceRef
    updatedAtMs := asU128 (asI64 now) }

/-- what takes a number of the counter, with the readings of the clock -/
inductive CounterUse where
  | create (now appendNow : Nat) (message : Message)
  | replace (now appendNow : Nat) (message : Message)
  | repair (now : Nat) (containerId : String) (lane : MessageLane) (sourceRef : String)

def CounterUse.now : CounterUse → Nat
  | create now .. | replace now .. | repair now .. => now

/-- the messages, and the counter -/
structure Counted where
  messages : Messages
  counter : UInt64

namespace Counted

/-- the messages that a use gives its number, as they are stored -/
def numbered (s : Counted) : CounterUse → List Message
  | .create now appendNow message =>
    [stored (s.messages.get? message.messageId) appendNow (newMessage now s.counter message)]
  | .replace now appendNow message =>
    [stored (s.messages.get? message.messageId) appendNow (advanceMessageCursor now s.counter message)]
  | .repair now containerId lane sourceRef =>
    (s.messages.values.filter (isLockedError containerId lane sourceRef)).map (repaired now s.counter lane sourceRef)

def use (s : Counted) : CounterUse → Counted
  | .create now appendNow message =>
    ⟨appendMessage appendNow s.messages (newMessage now s.counter message), s.counter + 1⟩
  | .replace now appendNow message =>
    ⟨appendMessage appendNow s.messages (advanceMessageCursor now s.counter message), s.counter + 1⟩
  | .repair now containerId lane sourceRef =>
    ⟨s.messages.mapValues fun message => if isLockedError containerId lane sourceRef message then
      repaired now s.counter lane sourceRef message else message, s.counter + 1⟩

end Counted

/-- a message that is replaced gets a greater cursor than it had, and than the messages numbered
before -/
def GetsGreater (s : Counted) (earlier : List Message) : CounterUse → Prop
  | .replace now appendNow message => ∀ previous, s.messages.get? message.messageId = some previous →
    let cursor := messageCursorEventId
      (stored (some previous) appendNow (advanceMessageCursor now s.counter message)).toContainerMessage
    messageCursorEventId previous.toContainerMessage < cursor ∧
      ∀ other ∈ earlier, messageCursorEventId other.toContainerMessage < cursor
  | _ => True

/-- every message that is replaced in a run gets a greater cursor -/
def AllGreater (s : Counted) (earlier : List Message) : List CounterUse → Prop
  | [] => True
  | use :: log => GetsGreater s earlier use ∧ AllGreater (s.use use) (earlier ++ s.numbered use) log

/-! ## times and numbers -/

/-- a time and a number below a million -/
abbrev Reading := Int × Int

def keyReading? (sortKey : String) : Option Reading :=
  let parts := Text.splitOn '_' sortKey
  (parts[0]?.bind parse?).map fun millis => (millis, clamp ((parts[1]?.bind parse?).getD 0) 0 999999)

def updateReading (message : ContainerMessage) : Reading :=
  (millisOf message.updatedAtMs, clamp (((feedCursorSeq message).or message.sourceSeq).getD 0) 0 999999)

/-- the times and numbers that are read in a message -/
def readings (message : Message) : List Reading :=
  (keyReading? message.sortKey).toList ++ [updateReading message.toContainerMessage]

def Before (a b : Reading) : Prop := a.1 < b.1 ∨ a.1 = b.1 ∧ a.2 < b.2

/-- before, and not at the end of the 64-bit cursors -/
def Earlier (a b : Reading) : Prop := Before a b ∧ a.1 * 1000000 + a.2 < maxI64

/-- the number of a replaced message: the counter's, when the body can hold it -/
def replacementSeq (message : Message) (seq : UInt64) : Option Int :=
  match message.bodyJson with
  | .obj _ => some (asI64 seq.toNat)
  | _ => message.sourceSeq

/-- the time and the number that a replacement of `previous` gets; the time is the later of its own and
the clock's -/
def replacementReading (previous message : Message) (now appendNow : Nat) (seq : UInt64) : Reading :=
  (millisOf (asU128 (asI64 (max previous.updatedAtMs (if now = 0 then appendNow else now)))),
    clamp ((replacementSeq message seq).getD 0) 0 999999)

/-- a replacement's time and number are later than those of the message and of the messages numbered
before -/
def ReplacesLater (s : Counted) (earlier : List Message) : CounterUse → Prop
  | .replace now appendNow message => ∀ previous, s.messages.get? message.messageId = some previous →
    ∀ other ∈ previous :: earlier, ∀ r ∈ readings other,
      Earlier r (replacementReading previous message now appendNow s.counter)
  | _ => True

def AllLater (s : Counted) (earlier : List Message) : List CounterUse → Prop
  | [] => True
  | use :: log => ReplacesLater s earlier use ∧ AllLater (s.use use) (earlier ++ s.numbered use) log

section
variable {s : Counted} {earlier : List Message} {previous message : Message} {now appendNow : Nat}
variable {seq : UInt64} {a b r : Reading}

theorem clamp_bounds (n : Int) : 0 ≤ clamp n 0 999999 ∧ clamp n 0 999999 ≤ 999999 := by
  unfold clamp
  omega

theorem readings_bounds (h : r ∈ readings message) : 0 ≤ r.2 ∧ r.2 ≤ 999999 := by
  rcases List.mem_append.mp h with h | h
  · rw [keyReading?] at h
    obtain ⟨millis, -, rfl⟩ := Option.map_eq_some_iff.mp (Option.mem_toList.mp h)
    exact clamp_bounds _
  · rw [List.mem_singleton.mp h]
    exact clamp_bounds _

theorem stamps_eq (message : Message) :
    stamps message.toContainerMessage = (readings message).map fun r => cursorOf r.1 r.2 := by
  rw [stamps, readings, List.map_append, sortKeyToCursor, keyReading?, List.map_singleton]
  cases (Text.splitOn '_' message.sortKey)[0]?.bind parse? with
  | none => rfl
  | some millis => rfl

theorem cursorOf_lt_iff (ha : 0 ≤ a.2 ∧ a.2 ≤ 999999) (hb : 0 ≤ b.2 ∧ b.2 ≤ 999999) (hmillis : 0 ≤ b.1) :
    cursorOf a.1 a.2 < cursorOf b.1 b.2 ↔ Earlier a b := by
  unfold Earlier Before cursorOf saturatingAdd saturatingMul saturate minI64 maxI64
  omega

theorem millisOf_nonneg (n : Nat) : 0 ≤ millisOf n := by
  unfold millisOf maxI64
  split
  · omega
  · decide

theorem inRange_asI64 (n : Nat) : inRange (asI64 n) = true := by
  unfold asI64
  refine inRange_iff.mpr ⟨?_, ?_⟩
  · unfold minI64
    have := @Int.le_bmod n (2 ^ 64) (by decide)
    omega
  · unfold maxI64
    have := @Int.bmod_lt n (2 ^ 64) (by decide)
    omega

theorem get?_insertField (key : String) (value : Json) (fields : List (String × Json)) :
    (insertField key value (.obj fields)).get? key = some value := by
  simp only [insertField, Json.get?, List.find?_cons, beq_self_eq_true, Option.map_some]

theorem feedCursorSeq_advance (now : Nat) (seq : UInt64) (message : Message) :
    (feedCursorSeq (advanceMessageCursor now seq message).toContainerMessage).or message.sourceSeq =
      replacementSeq message seq := by
  unfold feedCursorSeq advanceMessageCursor replacementSeq
  dsimp only
  cases message.bodyJson with
  | obj fields =>
    rw [get?_insertField, Option.bind_some, asI64?, if_pos (inRange_asI64 _)]
    rfl
  | _ => rfl

theorem updateReading_placed (message : Message) (createdAtMs updatedAtMs : Nat) (sortKey : String) :
    updateReading (message.placed createdAtMs updatedAtMs sortKey).toContainerMessage =
      (millisOf updatedAtMs,
        clamp (((feedCursorSeq message.toContainerMessage).or message.sourceSeq).getD 0) 0 999999) := rfl

theorem sortKey_placed (message : Message) (createdAtMs updatedAtMs : Nat) (sortKey : String) :
    (message.placed createdAtMs updatedAtMs sortKey).sortKey = sortKey := rfl

theorem updateReading_stored : updateReading
    (stored (some previous) appendNow (advanceMessageCursor now seq message)).toContainerMessage =
      replacementReading previous message now appendNow seq := by
  have hsource : (advanceMessageCursor now seq message).sourceSeq = message.sourceSeq := rfl
  have hnow : (advanceMessageCursor now seq message).updatedAtMs = now := rfl
  rw [stored, updateReading_placed, hsource, feedCursorSeq_advance, hnow]
  rfl

theorem replacementReading_bounds (previous message : Message) (now appendNow : Nat) (seq : UInt64) :
    0 ≤ (replacementReading previous message now appendNow seq).1 ∧
      0 ≤ (replacementReading previous message now appendNow seq).2 ∧
      (replacementReading previous message now appendNow seq).2 ≤ 999999 := by
  unfold replacementReading
  dsimp only
  exact ⟨millisOf_nonneg _, clamp_bounds _⟩

theorem readings_stored : readings (stored (some previous) appendNow (advanceMessageCursor now seq message)) =
    (keyReading? previous.sortKey).toList ++ [replacementReading previous message now appendNow seq] := by
  rw [readings, updateReading_stored]
  rfl

theorem cursor_lt_iff (message : Message) (n : Int) :
    messageCursorEventId message.toContainerMessage < n ↔ ∀ r ∈ readings message, cursorOf r.1 r.2 < n := by
  obtain ⟨hmem, hle⟩ := isGreatest_stamps message.toContainerMessage
  rw [stamps_eq] at hmem hle
  constructor
  · exact fun h r hr => lt_of_le_of_lt (hle (List.mem_map.mpr ⟨r, hr, rfl⟩)) h
  · intro h
    obtain ⟨r, hr, e⟩ := List.mem_map.mp hmem
    rw [← e]
    exact h r hr

theorem cursors_lt_replacement_iff (previous message : Message) (now appendNow : Nat) (seq : UInt64)
    (others : List Message) (hprevious : previous ∈ others) :
    (∀ other ∈ others, ∀ r ∈ readings other, cursorOf r.1 r.2 < messageCursorEventId
      (stored (some previous) appendNow (advanceMessageCursor now seq message)).toContainerMessage) ↔
    ∀ other ∈ others, ∀ r ∈ readings other, Earlier r (replacementReading previous message now appendNow seq) := by
  obtain ⟨hmem, hle⟩ := isGreatest_stamps
    (stored (some previous) appendNow (advanceMessageCursor now seq message)).toContainerMessage
  generalize messageCursorEventId
    (stored (some previous) appendNow (advanceMessageCursor now seq message)).toContainerMessage = cursor at hmem hle ⊢
  rw [stamps_eq, readings_stored] at hmem hle
  have hmine : ∀ r, 0 ≤ r.2 ∧ r.2 ≤ 999999 →
      (cursorOf r.1 r.2 < cursorOf (replacementReading previous message now appendNow seq).1
        (replacementReading previous message now appendNow seq).2 ↔
          Earlier r (replacementReading previous message now appendNow seq)) :=
    fun r hr => cursorOf_lt_iff hr (replacementReading_bounds ..).2 (replacementReading_bounds ..).1
  constructor
  · intro hless
    -- the cursor is not that of the sort key, which the message had before
    have hcursor : cursor = cursorOf (replacementReading previous message now appendNow seq).1
        (replacementReading previous message now appendNow seq).2 := by
      obtain ⟨r, hr, e⟩ := List.mem_map.mp hmem
      rcases List.mem_append.mp hr with hr | hr
      · exact absurd e (ne_of_lt (hless previous hprevious r (List.mem_append_left _ hr)))
      · rw [← e, List.mem_singleton.mp hr]
    intro other hother r hr
    rw [← hmine r (readings_bounds hr), ← hcursor]
    exact hless other hother r hr
  · intro hearlier other hother r hr
    refine lt_of_lt_of_le ((hmine r (readings_bounds hr)).mpr (hearlier other hother r hr)) (hle ?_)
    exact List.mem_map.mpr ⟨_, List.mem_append_right _ (List.mem_singleton_self _), rfl⟩

theorem getsGreater_iff (s : Counted) (earlier : List Message) (use : CounterUse) :
    GetsGreater s earlier use ↔ ReplacesLater s earlier use := by
  cases use with
  | create now appendNow message => exact Iff.rfl
  | repair now containerId lane sourceRef => exact Iff.rfl
  | replace now appendNow message =>
    refine forall_congr' fun previous => imp_congr_right fun hprevious => ?_
    have hall : (∀ other ∈ previous :: earlier, ∀ r ∈ readings other, cursorOf r.1 r.2 < messageCursorEventId
        (stored (some previous) appendNow (advanceMessageCursor now s.counter message)).toContainerMessage) ↔ _ :=
      cursors_lt_replacement_iff previous message now appendNow s.counter (previous :: earlier) List.mem_cons_self
    rw [← hall]
    simp only [← cursor_lt_iff, List.forall_mem_cons]

theorem allGreater_iff (log : List CounterUse) : ∀ (s : Counted) (earlier : List Message),
    AllGreater s earlier log ↔ AllLater s earlier log := by
  induction log with
  | nil => exact fun s earlier => Iff.rfl
  | cons use log ih => exact fun s earlier => and_congr (getsGreater_iff s earlier use) (ih _ _)

/-! ## runs with ascending times and numbers -/

/-- the clock's time and the counter's number -/
def handedOut (now : Nat) (seq : UInt64) : Reading := (now, clamp (asI64 seq.toNat) 0 999999)

/-- the message's number is the counter's, or for a new message not above it; a replaced one is there -/
def TakesNumber (s : Counted) : CounterUse → Prop
  | .create _ _ message => (updateReading message.toContainerMessage).2 ≤ clamp (asI64 s.counter.toNat) 0 999999
  | .replace _ _ message =>
    s.messages.get? message.messageId ≠ none ∧ ∃ fields, message.bodyJson = .obj fields
  | .repair .. => True

/-- a use between the epoch and the end of the 64-bit cursors, after the time and number `last` -/
structure TakenAfter (last : Reading) (s : Counted) (use : CounterUse) : Prop where
  intro ::
  after : Before last (handedOut use.now s.counter)
  positive : 0 < use.now
  bounded : use.now ≤ 9223372036853
  takesNumber : TakesNumber s use

/-- the times and numbers that are handed out ascend -/
def Ascending (last : Reading) (s : Counted) : List CounterUse → Prop
  | [] => True
  | use :: log => TakenAfter last s use ∧ Ascending (handedOut use.now s.counter) (s.use use) log

def AtMost (a b : Reading) : Prop := a.1 < b.1 ∨ a.1 = b.1 ∧ a.2 ≤ b.2

/-- nothing in the message is read as later than `last` -/
def UpTo (last : Reading) (message : Message) : Prop := ∀ r ∈ readings message, AtMost r last

def StoredUpTo (last : Reading) (s : Counted) : Prop :=
  ∀ messageId message, s.messages.get? messageId = some message → UpTo last message

variable {last : Reading} {use : CounterUse} {existing : Option Message}

theorem AtMost.of_before (h : AtMost r a) (hab : Before a b) : AtMost r b := by
  unfold AtMost Before at *
  omega

theorem UpTo.of_before (h : UpTo a message) (hab : Before a b) : UpTo b message :=
  fun r hr => (h r hr).of_before hab

theorem TakenAfter.later (h : TakenAfter last s use) (hother : UpTo last message) (hr : r ∈ readings message) :
    Earlier r (handedOut use.now s.counter) := by
  obtain ⟨hlow, hhigh⟩ := readings_bounds hr
  have hle := hother r hr
  have hafter := h.after
  have hbounded := h.bounded
  unfold AtMost at hle
  unfold Before handedOut at hafter
  unfold Earlier Before handedOut maxI64
  dsimp only at hafter ⊢
  omega

theorem TakenAfter.fst_le (h : TakenAfter last s use) : last.1 ≤ use.now := by
  have hafter := h.after
  unfold Before handedOut at hafter
  dsimp only at hafter
  omega

theorem asI64_of_le {n : Nat} (h : n ≤ 9223372036854775807) : asI64 n = n := by
  unfold asI64
  rw [Int.bmod_def]
  omega

theorem millisOf_written {old : Nat} (hold : millisOf old ≤ now) (hbounded : now ≤ 9223372036853) :
    millisOf (asU128 (asI64 (max old now))) = now := by
  have hle : old ≤ now := by
    unfold millisOf maxI64 at hold
    split at hold
    · omega
    · exfalso
      omega
  rw [max_eq_right hle, asI64_of_le (hbounded.trans (by decide))]
  unfold asU128 millisOf maxI64
  omega

theorem UpTo.millisOf_le (h : UpTo last message) : millisOf message.updatedAtMs ≤ last.1 := by
  have hle := h (updateReading message.toContainerMessage) (List.mem_append_right _ (List.mem_singleton_self _))
  unfold AtMost updateReading at hle
  dsimp only at hle
  omega

/-- what is read in a message that is appended: its old sort key's time and number, or the new one's, and
the clock's time -/
theorem mem_readings_stored (hold : ∀ previous, existing = some previous → millisOf previous.updatedAtMs ≤ now)
    (hupdated : message.updatedAtMs = now) (hpositive : 0 < now) (hbounded : now ≤ 9223372036853)
    (hr : r ∈ readings (stored existing appendNow message)) :
    (∃ previous, existing = some previous ∧ r ∈ readings previous) ∨
      (existing = none ∧ keyReading? message.sortKey = some r) ∨
        r = ((now : Int), (updateReading message.toContainerMessage).2) := by
  rcases List.mem_append.mp hr with hr | hr
  · rw [stored, sortKey_placed] at hr
    cases existing with
    | none => exact Or.inr (Or.inl ⟨rfl, Option.mem_toList.mp hr⟩)
    | some previous => exact Or.inl ⟨previous, rfl, List.mem_append_left _ hr⟩
  · refine Or.inr (Or.inr ?_)
    rw [List.mem_singleton.mp hr, stored, updateReading_placed, hupdated, if_neg hpositive.ne']
    cases existing with
    | none =>
      have hzero : millisOf 0 ≤ now := by
        unfold millisOf maxI64
        omega
      have hwritten := millisOf_written hzero hbounded
      rw [Nat.max_eq_right (Nat.zero_le now)] at hwritten
      rw [Option.elim_none, hwritten, updateReading]
    | some previous =>
      rw [Option.elim_some, millisOf_written (hold previous rfl) hbounded, updateReading]

/-! ## the keys of new messages -/

theorem toList_zeroPadded (width n : Nat) :
    ∃ k, (zeroPadded width n).toList = List.replicate k '0' ++ Nat.toDigits 10 n := by
  refine ⟨width - (toString n).toList.length, ?_⟩
  rw [zeroPadded, String.toList_ofList, List.leftpad, Text.toList_toString]

theorem isDigit_zeroPadded (width n : Nat) : (zeroPadded width n).toList.all Char.isDigit = true := by
  obtain ⟨k, h⟩ := toList_zeroPadded width n
  rw [h, List.all_append, List.all_replicate]
  have hdigits : (Nat.toDigits 10 n).all Char.isDigit = true :=
    List.all_eq_true.mpr fun c hc => Nat.isDigit_of_mem_toDigits (by decide) (by decide) hc
  rw [hdigits]
  split
  · rfl
  · decide

theorem ofDigits_eq {l : List Char} (h : l.all Char.isDigit = true) : ofDigits l = Nat.ofDigitChars 10 l 0 := by
  induction l using List.reverseRecOn with
  | nil => rfl
  | append_singleton l c ih =>
    rw [List.all_append, Bool.and_eq_true] at h
    have hdigit := isDigit_iff.mp (List.all_eq_true.mp h.2 c List.mem_cons_self)
    rw [ofDigits_concat, ih h.1, Nat.ofDigitChars_append, Nat.ofDigitChars_cons, Nat.ofDigitChars_nil]
    have hzero : '0'.toNat = 48 := rfl
    omega

theorem ofDigits_zeroPadded (width n : Nat) : ofDigits (zeroPadded width n).toList = n := by
  rw [ofDigits_eq (isDigit_zeroPadded width n)]
  obtain ⟨k, h⟩ := toList_zeroPadded width n
  rw [h, Nat.ofDigitChars_append, Nat.ofDigitChars_replicate_zero, Nat.mul_zero, Nat.ofDigitChars_ten_toDigits]

theorem parse?_zeroPadded (width n : Nat) :
    parse? (zeroPadded width n) = if inRange n then some (n : Int) else none := by
  obtain ⟨k, h⟩ := toList_zeroPadded width n
  have hne : (zeroPadded width n).toList ≠ [] := by
    rw [h]
    exact List.append_ne_nil_of_right_ne_nil _ Nat.toDigits_ne_nil
  have hdigits := isDigit_zeroPadded width n
  rw [parse?, splitSign_digits hdigits]
  dsimp only
  rw [ofDigits_zeroPadded, signed, if_neg Bool.false_ne_true]
  simp only [hne, hdigits, ne_eq, not_false_eq_true, true_and]

theorem keyReading?_newMessage (hbounded : now ≤ 9223372036853)
    (h : keyReading? (newMessage now seq message).sortKey = some r) : AtMost r (handedOut now seq) := by
  have hnot (width n : Nat) : '_' ∉ (zeroPadded width n).toList :=
    fun hmem => absurd (List.all_eq_true.mp (isDigit_zeroPadded width n) '_' hmem) (by decide)
  have hsplit : Text.splitOn '_' (newMessage now seq message).sortKey =
      [zeroPadded 20 now, zeroPadded 10 seq.toNat] := 
    Text.splitOn_pair (hnot 20 now) (hnot 10 seq.toNat)
  have hnow : inRange now = true := inRange_iff.mpr (by unfold minI64 maxI64; omega)
  rw [keyReading?, hsplit] at h
  simp only [List.getElem?_cons_zero, List.getElem?_cons_succ, Option.bind_some, parse?_zeroPadded, hnow, if_pos,
    Option.map_some, Option.some.injEq] at h
  subst h
  refine Or.inr ⟨rfl, ?_⟩
  unfold handedOut
  dsimp only
  by_cases hseq : inRange seq.toNat = true
  · have hle : seq.toNat ≤ 9223372036854775807 := by
      have := (inRange_iff.mp hseq).2
      unfold maxI64 at this
      omega
    rw [if_pos hseq, Option.getD_some, asI64_of_le hle]
  · rw [if_neg hseq, Option.getD_none]
    exact (clamp_bounds _).1

/-! ## ascending runs -/

theorem TakenAfter.millisOf_le (h : TakenAfter last s use) (hstored : StoredUpTo last s) {messageId : String} :
    ∀ previous, s.messages.get? messageId = some previous → millisOf previous.updatedAtMs ≤ use.now :=
  fun previous hprevious => (hstored messageId previous hprevious).millisOf_le.trans h.fst_le

theorem updateReading_repaired (now : Nat) (seq : UInt64) (lane : MessageLane) (sourceRef : String)
    (message : Message) :
    updateReading (repaired now seq lane sourceRef message).toContainerMessage =
      (millisOf (asU128 (asI64 now)), clamp (asI64 seq.toNat) 0 999999) := by
  have hbody : (repairBody now seq lane sourceRef).get? "_feed_cursor_seq" = some (.num (asI64 seq.toNat)) := by
    simp [repairBody, Json.get?]
  have hseq : feedCursorSeq (repaired now seq lane sourceRef message).toContainerMessage = some (asI64 seq.toNat) := by
    rw [feedCursorSeq, repaired]
    dsimp only
    rw [hbody, Option.bind_some, asI64?, if_pos (inRange_asI64 _)]
  rw [updateReading, hseq, repaired, Option.some_or, Option.getD_some]

theorem numbered_upTo (h : TakenAfter last s use) (hstored : StoredUpTo last s) :
    ∀ message ∈ s.numbered use, UpTo (handedOut use.now s.counter) message := by
  intro numbered hnumbered r hr
  have hprevious {messageId : String} {previous : Message} (e : s.messages.get? messageId = some previous)
      (hr : r ∈ readings previous) : AtMost r (handedOut use.now s.counter) :=
    ((hstored messageId previous e).of_before h.after) r hr
  cases use with
  | create now appendNow message =>
    rw [List.mem_singleton.mp hnumbered] at hr
    rcases mem_readings_stored (h.millisOf_le hstored) rfl h.positive h.bounded hr with
      ⟨previous, e, hr⟩ | ⟨-, hkey⟩ | rfl
    · exact hprevious e hr
    · exact keyReading?_newMessage h.bounded hkey
    · exact Or.inr ⟨rfl, h.takesNumber⟩
  | replace now appendNow message =>
    rw [List.mem_singleton.mp hnumbered] at hr
    obtain ⟨hthere, fields, hbody⟩ := h.takesNumber
    rcases mem_readings_stored (h.millisOf_le hstored) rfl h.positive h.bounded hr with
      ⟨previous, e, hr⟩ | ⟨e, -⟩ | rfl
    · exact hprevious e hr
    · exact absurd e hthere
    · refine Or.inr ⟨rfl, le_of_eq ?_⟩
      have hsource : (advanceMessageCursor now s.counter message).sourceSeq = message.sourceSeq := rfl
      rw [updateReading, hsource, feedCursorSeq_advance, replacementSeq, hbody, handedOut]
      dsimp only
      rw [Option.getD_some]
  | repair now containerId lane sourceRef =>
    obtain ⟨old, hold, rfl⟩ := List.mem_map.mp hnumbered
    obtain ⟨messageId, hget⟩ := Table.mem_values.mp (List.mem_of_mem_filter hold)
    rcases List.mem_append.mp hr with hr | hr
    · exact hprevious hget (List.mem_append_left _ hr)
    · have hzero : millisOf 0 ≤ now := by
        unfold millisOf maxI64
        omega
      have hwritten := millisOf_written hzero h.bounded
      rw [Nat.max_eq_right (Nat.zero_le now)] at hwritten
      rw [List.mem_singleton.mp hr, updateReading_repaired, hwritten]
      exact Or.inr ⟨rfl, le_refl _⟩

theorem get?_use {messageId : String} (hget : (s.use use).messages.get? messageId = some message) :
    (∃ previous, s.messages.get? messageId = some previous ∧ message = previous) ∨ message ∈ s.numbered use := by
  cases use with
  | create _ _ _ | replace _ _ _ =>
    rw [Counted.use] at hget
    dsimp only at hget
    rw [appendMessage, Table.get?_insert] at hget
    split at hget
    · exact Or.inr (List.mem_singleton.mpr (Option.some.inj hget).symm)
    · exact Or.inl ⟨message, hget, rfl⟩
  | repair now containerId lane sourceRef =>
    rw [Counted.use] at hget
    dsimp only at hget
    rw [Table.get?_mapValues] at hget
    obtain ⟨previous, hprevious, rfl⟩ := Option.map_eq_some_iff.mp hget
    by_cases hlocked : isLockedError containerId lane sourceRef previous = true
    · rw [if_pos hlocked]
      refine Or.inr (List.mem_map.mpr ⟨previous, List.mem_filter.mpr ⟨?_, hlocked⟩, rfl⟩)
      exact Table.mem_values.mpr ⟨messageId, hprevious⟩
    · rw [if_neg hlocked]
      exact Or.inl ⟨previous, hprevious, rfl⟩

theorem storedUpTo_use (h : TakenAfter last s use) (hstored : StoredUpTo last s) :
    StoredUpTo (handedOut use.now s.counter) (s.use use) := by
  intro messageId message hget
  rcases get?_use hget with ⟨previous, hprevious, rfl⟩ | hnumbered
  · exact (hstored messageId message hprevious).of_before h.after
  · exact numbered_upTo h hstored message hnumbered

theorem replacesLater_of_takenAfter (h : TakenAfter last s use) (hstored : StoredUpTo last s)
    (hearlier : ∀ message ∈ earlier, UpTo last message) : ReplacesLater s earlier use := by
  cases use with
  | create now appendNow message => trivial
  | repair now containerId lane sourceRef => trivial
  | replace now appendNow message =>
    intro previous hprevious other hother r hr
    have hupTo : UpTo last other := by
      rcases List.mem_cons.mp hother with rfl | hother
      · exact hstored _ _ hprevious
      · exact hearlier other hother
    obtain ⟨-, fields, hbody⟩ := h.takesNumber
    have hmine : replacementReading previous message now appendNow s.counter = handedOut now s.counter := by
      have hpositive : ¬ now = 0 := h.positive.ne'
      have hbounded : now ≤ 9223372036853 := h.bounded
      have hold : millisOf previous.updatedAtMs ≤ now := h.millisOf_le hstored previous hprevious
      rw [replacementReading, if_neg hpositive, millisOf_written hold hbounded, replacementSeq, hbody, handedOut]
      dsimp only
      rw [Option.getD_some]
    rw [hmine]
    exact h.later hupTo hr

theorem allLater_of_ascending (log : List CounterUse) : ∀ (last : Reading) (s : Counted) (earlier : List Message),
    Ascending last s log → StoredUpTo last s → (∀ message ∈ earlier, UpTo last message) → AllLater s earlier log := by
  induction log with
  | nil => exact fun last s earlier _ _ _ => trivial
  | cons use log ih =>
    rintro last s earlier ⟨h, hlog⟩ hstored hearlier
    refine ⟨replacesLater_of_takenAfter h hstored hearlier, ih _ _ _ hlog (storedUpTo_use h hstored) ?_⟩
    intro message hmessage
    rcases List.mem_append.mp hmessage with hmessage | hmessage
    · exact (hearlier message hmessage).of_before h.after
    · exact numbered_upTo h hstored message hmessage

/-- **every replacement of a run gets a greater cursor exactly when its time and number come later; so it
does while the handed out times and numbers ascend** -/
theorem replacements_greater_iff (s : Counted) (log : List CounterUse) :
    (AllGreater s [] log ↔ AllLater s [] log) ∧
      ∀ last, StoredUpTo last s → Ascending last s log → AllGreater s [] log := by
  refine ⟨allGreater_iff log s [], fun last hstored hascending => (allGreater_iff log s []).mpr ?_⟩
  exact allLater_of_ascending log last s [] hascending hstored fun _ hnil => absurd hnil List.not_mem_nil

end

/-- a message of the fifth millisecond, in a process that has handed out a million numbers -/
def sampleMessage : Message where
  messageId := "msg"
  containerId := "container"
  lane := .chat
  bodyText := none
  bodyJson := .obj []
  chatThreadId := some "chat"
  taskId := none
  sourceSeq := none
  createdAtMs := 5
  updatedAtMs := 5
  sortKey := "00000000000000000005_0000000001"
  workspaceUid := "ws"
  role := .assistant
  messageType := .text
  status := "streaming"
  title := none
  cardJson := .obj []
  jobId := none
  sourceKind := "model_stream"
  sourceRef := "stream"

def millionHandedOut : Counted := ⟨Table.empty.insert "msg" sampleMessage, 1000000⟩

/-- replaced twice in one millisecond, a message has the same cursor -/
theorem replaced_in_the_same_millisecond : ¬ ∀ (s : Counted) (log : List CounterUse),
    (log.map CounterUse.now).Pairwise (· ≤ ·) → AllGreater s [] log := by
  intro h
  obtain ⟨-, hsecond, -⟩ := h millionHandedOut [.replace 5 5 sampleMessage, .replace 5 5 sampleMessage] (by decide)
  obtain ⟨hless, -⟩ := hsecond (stored (some sampleMessage) 5 (advanceMessageCursor 5 1000000 sampleMessage))
    (by decide +kernel)
  exact absurd hless (by decide +kernel)

end Feed

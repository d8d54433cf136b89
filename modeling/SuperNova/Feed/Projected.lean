import SuperNova.Feed.Merge
import SuperNova.Lib.Limit

/-!
# A page of a container from limited pages

`list_projected_container_messages_page_for_lane` asks every database for one page and merges these.  The
statement of a database orders its rows by their sort keys alone, the merged page also by cursors and ids.

* `collectedPage`: the page that is made of all messages of all databases;
* `Assigns`: a store whose databases hold the messages of a log, and maybe older copies of them;
* `Uncrowded`: every message of a page is among the first of the log, also when the rows with its sort key
  come first;
* `selectPage_perm`, `merge_eq`, `dedupe_filter`: both kinds of pages, in one direction.
-/

set_option linter.unusedSectionVars false

namespace Feed

/-! ## the page of the program -/

/-- the files of the active shards of a container, those of them that exist -/
def Store.containerShards (store : Store) (containerId : String) : List MessageTable :=
  (((listContainerProjectionShards store.records containerId).filter fun r => r.status == "active").take
    maxContainerAggregatedShards).filterMap fun record => store.files.get? record.relativeDbPath

variable (castReal : String → Int)

def listProjectedContainerMessagesPageForLane (store : Store) (containerId : String)
    (lane : Option MessageLane) (afterEventId : Option Int) (limit : Option Nat) :
    Except String (List ContainerMessage) := do
  let own ← listMessagesPage castReal store.main "container_id" containerId lane afterEventId limit
  let shards := (store.containerShards containerId).flatMap fun table =>
    (listMessagesPageForLane castReal table lane afterEventId limit).filter fun message =>
      message.containerId == containerId && lane.all (message.lane == ·)
  pure (mergeProjectedMessages (own ++ shards) afterEventId limit)

/-! ## the page of all messages -/

/-- the statement for one database selects a row by its cursor -/
def beyond (afterEventId : Option Int) (row : Row) : Bool :=
  afterEventId.all fun after => messageCursorSql castReal row > after

/-- all messages of a container in one database -/
def containerMessages (containerId : String) (lane : Option MessageLane) (afterEventId : Option Int)
    (table : MessageTable) : List ContainerMessage :=
  ((table.rows.filter (inScope .containerId containerId lane)).filter (beyond castReal afterEventId)).map
    rowToMessage

def Store.sources (store : Store) (containerId : String) : List MessageTable :=
  store.main :: store.containerShards containerId

/-- the page of what all databases hold -/
def collectedPage (store : Store) (containerId : String) (lane : Option MessageLane)
    (afterEventId : Option Int) (limit : Option Nat) : List ContainerMessage :=
  mergeProjectedMessages
    ((store.sources containerId).flatMap (containerMessages castReal containerId lane afterEventId))
    afterEventId limit

/-! ## logs -/

/-- `row` is the message `m`, or an older copy of it with the same sort key -/
structure CopyOf (row m : Row) : Prop where
  messageId : row.messageId = m.messageId
  containerId : row.containerId = m.containerId
  lane : row.lane = m.lane
  sortKey : row.sortKey = m.sortKey
  sqlCursor : messageCursorSql castReal row ≤ messageCursorSql castReal m
  cursor : messageCursorEventId (rowToMessage row) ≤ messageCursorEventId (rowToMessage m)

/-- the databases of a container hold the messages of a log and copies of them -/
structure Assigns (store : Store) (containerId : String) (log : MessageTable) : Prop where
  copies : ∀ table ∈ store.sources containerId, ∀ row ∈ table.rows, ∃ m ∈ log.rows,
    CopyOf castReal row m
  placed : ∀ m ∈ log.rows, ∃ table ∈ store.sources containerId, m ∈ table.rows

section
variable (containerId : String) (lane : Option MessageLane) (afterEventId : Option Int)
  (limit : Option Nat) (log : MessageTable)

/-- however the messages of a log are assigned, the limits do not change the page -/
def LimitsHarmless : Prop :=
  ∀ store : Store, Assigns castReal store containerId log →
    listProjectedContainerMessagesPageForLane castReal store containerId lane afterEventId limit =
      .ok (collectedPage castReal store containerId lane afterEventId limit)

/-- the page of a log -/
def pageOfLog : List ContainerMessage :=
  mergeProjectedMessages (containerMessages castReal containerId lane afterEventId log) afterEventId
    limit

end

/-- `a` is not behind `b` in the order of a statement; where no cursor is given, it selects the last rows
first -/
def sortKeyOrder (afterEventId : Option Int) (a b : Row) : Prop :=
  match afterEventId with
  | some _ => ¬ b.sortKey.toList < a.sortKey.toList
  | none => ¬ a.sortKey.toList < b.sortKey.toList

instance (afterEventId : Option Int) : DecidableRel (sortKeyOrder afterEventId) := fun a b =>
  match afterEventId with
  | some _ => inferInstanceAs (Decidable (¬ b.sortKey.toList < a.sortKey.toList))
  | none => inferInstanceAs (Decidable (¬ a.sortKey.toList < b.sortKey.toList))

/-- the rows of a log that the statement for a shard selects; a shard is not asked for a container -/
def shardRows (lane : Option MessageLane) (afterEventId : Option Int) (log : MessageTable) :
    List Row :=
  (log.rows.filter fun row => lane.all (row.lane == ·)).filter (beyond castReal afterEventId)

/-- with a message of the page, the rows that are ahead of it or have its sort key fit on a page -/
def Uncrowded (containerId : String) (lane : Option MessageLane) (afterEventId : Option Int)
    (limit : Option Nat) (log : MessageTable) : Prop :=
  ∀ row ∈ log.rows, rowToMessage row ∈ pageOfLog castReal containerId lane afterEventId limit log →
    Limit.Fits (sortKeyOrder afterEventId) (shardRows castReal lane afterEventId log)
      (normalizeMessagePageLimit limit) row

/-! ## both directions -/

section
variable {castReal : String → Int} {after : Option Int}

theorem sortKeyOrder_trans {a b c : Row} (hab : sortKeyOrder after a b)
    (hbc : sortKeyOrder after b c) : sortKeyOrder after a c := by
  cases after with
  | some _ => exact not_lt.mpr (le_trans (not_lt.mp hab) (not_lt.mp hbc))
  | none => exact not_lt.mpr (le_trans (not_lt.mp hbc) (not_lt.mp hab))

theorem sortKeyOrder_total (a b : Row) : sortKeyOrder after a b ∨ sortKeyOrder after b a := by
  have h := le_total a.sortKey.toList b.sortKey.toList
  cases after with
  | some _ => exact h.imp not_lt.mpr not_lt.mpr
  | none => exact h.symm.imp not_lt.mpr not_lt.mpr

instance : IsTrans Row (sortKeyOrder after) := ⟨fun _ _ _ => sortKeyOrder_trans⟩
instance : Std.Total (sortKeyOrder after) := ⟨sortKeyOrder_total⟩

theorem insertionSort_congr {r r' : Row → Row → Prop} [DecidableRel r] [DecidableRel r']
    (h : ∀ a b, r a b ↔ r' a b) (rows : List Row) : rows.insertionSort r = rows.insertionSort r' := by
  obtain rfl : r = r' := funext fun a => funext fun b => propext (h a b)
  congr!

theorem selectPage_perm (rows : List Row) (limit : Nat) :
    (selectPage castReal rows after limit).Perm
      ((((rows.filter (beyond castReal after)).insertionSort (sortKeyOrder after)).take limit).map
        rowToMessage) := by
  cases after with
  | some a =>
    have hasc : orderAsc (rows.filter (beyond castReal (some a))) =
        (rows.filter (beyond castReal (some a))).insertionSort (sortKeyOrder (some a)) :=
      -- the order on the keys is core's or Mathlib's, by what is imported where `orderAsc` is read
      insertionSort_congr (fun _ _ => by first | exact Iff.rfl | exact not_lt.symm) _
    exact .of_eq (congrArg (fun rows => (rows.take limit).map rowToMessage) hasc)
  | none =>
    have hall : rows.filter (beyond castReal none) = rows := List.filter_eq_self.mpr fun _ _ => rfl
    have hdesc : orderDesc rows = rows.insertionSort (sortKeyOrder none) :=
      insertionSort_congr (fun _ _ => by first | exact Iff.rfl | exact not_lt.symm) _
    rw [hall, ← hdesc]
    exact (List.perm_insertionSort _ _).map _

def keyOrder {κ : Type} [LE κ] (after : Option Int) (k k' : κ) : Prop :=
  match after with
  | some _ => k ≤ k'
  | none => k' ≤ k

/-- the order on a page, the last messages first when no cursor is given -/
def pageOrder (after : Option Int) (a b : ContainerMessage) : Prop :=
  keyOrder after (displayKey a) (displayKey b)

theorem keyOrder_antisymm {κ : Type} [PartialOrder κ] {k k' : κ} (h : keyOrder after k k')
    (h' : keyOrder after k' k) : k = k' := by
  cases after with
  | some _ => exact le_antisymm h h'
  | none => exact le_antisymm h' h

def turned {α : Type} (after : Option Int) (l : List α) : List α :=
  match after with
  | some _ => l
  | none => l.reverse

theorem mem_turned {α : Type} {l : List α} {x : α} : x ∈ turned after l ↔ x ∈ l := by
  cases after with
  | some _ => exact Iff.rfl
  | none => exact List.mem_reverse

/-- the candidates of a page without duplicates, those of the page first -/
def ranked (after : Option Int) (candidates : List ContainerMessage) : List ContainerMessage :=
  turned after (sortMessagesForDisplayPage (dedupe after candidates))

theorem mem_ranked {candidates : List ContainerMessage} {m : ContainerMessage} :
    m ∈ ranked after candidates ↔ m ∈ dedupe after candidates :=
  mem_turned.trans (List.mem_insertionSort _)

theorem merge_eq (candidates : List ContainerMessage) (limit : Option Nat) :
    mergeProjectedMessages candidates after limit =
      turned after ((ranked after candidates).take (normalizeMessagePageLimit limit)) := by
  cases after with
  | some a => rfl
  | none =>
    show (if _ then _ else _) = (List.take _ (List.reverse _)).reverse
    rw [List.take_reverse, List.reverse_reverse]
    split
    · rfl
    · rename_i hshort
      rw [Nat.sub_eq_zero_of_le (Nat.le_of_not_gt hshort), List.drop_zero]

theorem ranked_sorted (candidates : List ContainerMessage) :
    (ranked after candidates).Pairwise (pageOrder after) := by
  have htrans : IsTrans ContainerMessage fun a b => displayKey a ≤ displayKey b :=
    ⟨fun _ _ _ => le_trans⟩
  have htotal : Std.Total fun a b : ContainerMessage => displayKey a ≤ displayKey b :=
    ⟨fun a b => le_total (displayKey a) (displayKey b)⟩
  have hsorted := List.pairwise_insertionSort (fun a b => displayKey a ≤ displayKey b)
    (dedupe after candidates)
  cases after with
  | some a => exact hsorted
  | none => exact List.pairwise_reverse.mpr hsorted

theorem ranked_ids (candidates : List ContainerMessage) :
    ((ranked after candidates).map (·.messageId)).Nodup := by
  have hsorted : ((sortMessagesForDisplayPage (dedupe after candidates)).map (·.messageId)).Nodup :=
    ((List.perm_insertionSort _ _).map _).nodup_iff.mpr (dedupe_nodup after candidates)
  cases after with
  | some a => exact hsorted
  | none =>
    show (List.map _ (List.reverse _)).Nodup
    rw [List.map_reverse]
    exact List.nodup_reverse.mpr hsorted

theorem messageId_of_displayKey {m m' : ContainerMessage} (h : displayKey m = displayKey m') :
    m.messageId = m'.messageId := by
  have hids : m.messageId.toList = m'.messageId.toList := congrArg (fun key => key.2.2) h
  exact String.toList_injective hids

theorem pageOrder_of_sortKey {m m' : ContainerMessage} {row row' : Row}
    (hm : m.sortKey = row.sortKey) (hm' : m'.sortKey = row'.sortKey)
    (h : ¬ sortKeyOrder after row' row) : pageOrder after m m' := by
  cases after with
  | some _ =>
    have hlt : row.sortKey.toList < row'.sortKey.toList := not_not.mp h
    exact le_of_lt (Prod.Lex.toLex_lt_toLex.mpr (.inl (by rw [hm, hm']; exact hlt)))
  | none =>
    have hlt : row'.sortKey.toList < row.sortKey.toList := not_not.mp h
    exact le_of_lt (Prod.Lex.toLex_lt_toLex.mpr (.inl (by rw [hm, hm']; exact hlt)))

/-! ## one id -/

theorem mergeStep_filter (deduped : List ContainerMessage) (c : ContainerMessage) (id : String) :
    (mergeStep after deduped c).filter (fun m => decide (m.messageId = id)) =
      if c.messageId = id then mergeStep after (deduped.filter fun m => decide (m.messageId = id)) c
      else deduped.filter fun m => decide (m.messageId = id) := by
  by_cases hid : c.messageId = id
  · subst hid
    have hfind : (deduped.filter fun m => decide (m.messageId = c.messageId)).find?
        (fun m => m.messageId == c.messageId) =
        deduped.find? fun m => m.messageId == c.messageId := by
      rw [List.find?_filter]
      exact congrArg (deduped.find? ·) (funext fun m => by simp [Bool.beq_eq_decide_eq])
    have hone : [c].filter (fun m => decide (m.messageId = c.messageId)) = [c] := by simp
    rw [if_pos rfl, mergeStep, mergeStep, hfind]
    split
    · rfl
    split
    · split
      · rfl
      · rw [List.filter_append, hone, List.filter_filter, List.filter_filter]
        congr 2
        funext m
        exact Bool.and_comm _ _
    · rw [List.filter_append, hone]
  · have hnone : [c].filter (fun m => decide (m.messageId = id)) = [] := by simp [hid]
    rw [if_neg hid]
    rcases mergeStep_cases after deduped c with ⟨heq, -⟩ | ⟨heq, -⟩
    · rw [heq]
    · rw [heq, List.filter_append, hnone, List.append_nil, List.filter_filter]
      refine List.filter_congr fun m _ => ?_
      by_cases hm : m.messageId = id
      · have hne : (m.messageId != c.messageId) = true := bne_iff_ne.mpr fun h => hid (h.symm.trans hm)
        rw [hne, Bool.and_true]
      · rw [decide_eq_false hm, Bool.false_and]

theorem dedupe_filter (candidates : List ContainerMessage) (id : String) :
    (dedupe after candidates).filter (fun m => decide (m.messageId = id)) =
      dedupe after (candidates.filter fun m => decide (m.messageId = id)) := by
  induction candidates using List.reverseRecOn with
  | nil => rfl
  | append_singleton candidates c ih =>
    rw [dedupe, List.foldl_concat, mergeStep_filter, ← dedupe, ih, List.filter_append]
    by_cases hid : c.messageId = id
    · have hone : [c].filter (fun m => decide (m.messageId = id)) = [c] := by simp [hid]
      rw [if_pos hid, hone, dedupe, dedupe, List.foldl_concat]
    · have hnone : [c].filter (fun m => decide (m.messageId = id)) = [] := by simp [hid]
      rw [if_neg hid, hnone, List.append_nil]

end

end Feed

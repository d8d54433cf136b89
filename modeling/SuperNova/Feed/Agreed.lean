import Mathlib.Data.Int.ConditionallyCompleteOrder
import Mathlib.Data.Int.Order.Basic
import Mathlib.Order.Bounds.Basic
import SuperNova.Feed.Page

/-!
# Where the two cursors agree

The database reads two stamps in a row, one in its sort key and one in its time of update, and so does
the program in the message that is read back.  The two read the texts and the numbers by different
rules, and each cursor is the latest of its stamps.

* `cursors_agree_iff` (**main**): the cursors agree exactly when a stamp that only one of the two reads is
  earlier than one that both read; with a key of twenty and ten digits and ordinary numbers, exactly when
  the key's number is at most 999999 or the update is not before it;
* `large_event_number`: a row whose key has a larger number.
-/

set_option linter.unusedSectionVars false

namespace Feed

open Int64

/-! ## the greatest elements of two lists -/

section
variable {α : Type} [LinearOrder α] {l l' : List α}

/-- what is only in the first list is below something that is in both -/
def OnlyBelowShared (l l' : List α) : Prop := ∀ x ∈ l, x ∉ l' → ∃ y ∈ l, y ∈ l' ∧ x < y

theorem OnlyBelowShared.le {a : α} (h : OnlyBelowShared l l') (hle : ∀ y ∈ l', y ≤ a) : ∀ x ∈ l, x ≤ a := by
  intro x hx
  by_cases hx' : x ∈ l'
  · exact hle x hx'
  · obtain ⟨y, -, hy, hlt⟩ := h x hx hx'
    exact hlt.le.trans (hle y hy)

theorem OnlyBelowShared.mem {a : α} (h : OnlyBelowShared l' l) (ha : a ∈ l') (hle : ∀ y ∈ l', y ≤ a) : a ∈ l := by
  by_contra hnot
  obtain ⟨y, hy, -, hlt⟩ := h a ha hnot
  exact absurd (hle y hy) (not_le.mpr hlt)

theorem onlyBelowShared_of_isGreatest {a : α} (h : IsGreatest {x | x ∈ l} a) (h' : a ∈ l') : OnlyBelowShared l l' :=
  fun _ hx hnot => ⟨a, h.1, h', lt_of_le_of_ne (h.2 hx) fun e => hnot (e ▸ h')⟩

theorem isGreatest_eq_iff {a a' : α} (ha : IsGreatest {x | x ∈ l} a) (ha' : IsGreatest {x | x ∈ l'} a') :
    a = a' ↔ OnlyBelowShared l l' ∧ OnlyBelowShared l' l := by
  constructor
  · rintro rfl
    exact ⟨onlyBelowShared_of_isGreatest ha ha'.1, onlyBelowShared_of_isGreatest ha' ha.1⟩
  · rintro ⟨h, h'⟩
    have hmem : a' ∈ l := h'.mem ha'.1 fun y hy => ha'.2 hy
    exact ha.unique ⟨hmem, h.le fun y hy => ha'.2 hy⟩

end

/-! ## the stamps of a row -/

/-- a time and a number, in the database's arithmetic -/
def sqlStamp (millis n : Int) : Int := (SqlNum.add (.mul (.int millis) (.int 1000000)) (.int n)).value

/-- the number of the update, as the database reads it -/
def sqlSeq (castReal : String → Int) (row : Row) : Int :=
  clamp ((((row.bodyJson.get? "_feed_cursor_seq").bind (extractSeq castReal)).or row.sourceSeq).getD 0) 0 999999

/-- the stamps that the database reads: of the sort key by the places of its characters, and of the
update -/
def sqlStamps (castReal : String → Int) (row : Row) : List Int :=
  [sqlStamp (castText (row.sortKey.toList.take 20)) (castText ((row.sortKey.toList.drop 21).take 10)),
    sqlStamp row.updatedAtMs (sqlSeq castReal row)]

/-- the stamps that the program reads: of a sort key whose first part is a number, and of the update -/
def stamps (message : ContainerMessage) : List Int :=
  (sortKeyToCursor message.sortKey).toList ++ [updatedCursor message]

/-- a stamp that only the database or only the program reads is earlier than one that both read -/
structure ReadsAgree (castReal : String → Int) (row : Row) : Prop where
  intro ::
  database : OnlyBelowShared (sqlStamps castReal row) (stamps (rowToMessage row))
  program : OnlyBelowShared (stamps (rowToMessage row)) (sqlStamps castReal row)

section
variable {castReal : String → Int} {row : Row} {message : ContainerMessage} {millis n : Int}

theorem value_maximum (a b : SqlNum) : (SqlNum.maximum a b).value = max a.value b.value := by
  unfold SqlNum.maximum
  by_cases h : a.value < b.value
  · rw [if_pos h, max_eq_right h.le]
  · rw [if_neg h, max_eq_left (not_lt.mp h)]

theorem isGreatest_pair (a b : Int) : IsGreatest {x | x ∈ [a, b]} (max a b) := by
  constructor
  · rcases le_total a b with h | h
    · rw [max_eq_right h]
      exact List.mem_cons_of_mem a List.mem_cons_self
    · rw [max_eq_left h]
      exact List.mem_cons_self
  · intro x hx
    rcases List.mem_cons.mp hx with rfl | hx
    · exact le_max_left ..
    · rw [List.mem_singleton.mp hx]
      exact le_max_right ..

theorem isGreatest_sqlStamps (castReal : String → Int) (row : Row) :
    IsGreatest {x | x ∈ sqlStamps castReal row} (messageCursorSql castReal row) := by
  rw [messageCursorSql, value_maximum]
  exact isGreatest_pair _ _

theorem isGreatest_stamps (message : ContainerMessage) :
    IsGreatest {x | x ∈ stamps message} (messageCursorEventId message) := by
  unfold stamps messageCursorEventId
  cases sortKeyToCursor message.sortKey with
  | none => exact ⟨List.mem_singleton_self _, fun x hx => (List.mem_singleton.mp hx).le⟩
  | some sortCursor => exact isGreatest_pair _ _

theorem messageCursorSql_eq_iff (castReal : String → Int) (row : Row) :
    messageCursorSql castReal row = messageCursorEventId (rowToMessage row) ↔ ReadsAgree castReal row :=
  (isGreatest_eq_iff (isGreatest_sqlStamps castReal row) (isGreatest_stamps (rowToMessage row))).trans
    ⟨fun h => ⟨h.1, h.2⟩, fun h => ⟨h.database, h.program⟩⟩

/-! ## keys of digits -/

/-- a time and a number whose stamp is a 64-bit integer -/
def Fits (millis n : Int) : Prop := 0 ≤ millis ∧ 0 ≤ n ∧ millis * 1000000 + n ≤ maxI64

theorem inRange_iff : inRange n = true ↔ minI64 ≤ n ∧ n ≤ maxI64 := by
  rw [inRange, Bool.and_eq_true, decide_eq_true_eq, decide_eq_true_eq]

theorem arith_of_inRange {op : Int → Int → Int} {a b : Int} (h : inRange (op a b) = true) :
    SqlNum.arith op (.int a) (.int b) = .int (op a b) := if_pos h

theorem sqlStamp_of_fits (h : Fits millis n) : sqlStamp millis n = millis * 1000000 + n := by
  obtain ⟨hmillis, hn, hle⟩ := h
  have hmul : inRange (millis * 1000000) = true := inRange_iff.mpr (by unfold minI64; omega)
  have hadd : inRange (millis * 1000000 + n) = true := inRange_iff.mpr (by unfold minI64; omega)
  rw [sqlStamp, SqlNum.mul, arith_of_inRange hmul, SqlNum.add, arith_of_inRange hadd]
  rfl

theorem cursorOf_of_fits (h : Fits millis n) : cursorOf millis n = millis * 1000000 + n := by
  obtain ⟨hmillis, hn, hle⟩ := h
  unfold maxI64 at hle
  unfold cursorOf saturatingAdd saturatingMul saturate minI64 maxI64
  omega

/-- a key of twenty digits for the time, and ten for a number -/
def DigitKey (key : String) (millis n : Int) : Prop :=
  ∃ ds es : List Char, key.toList = ds ++ '_' :: es ∧ ds.length = 20 ∧ es.length = 10 ∧
    ds.all Char.isDigit = true ∧ es.all Char.isDigit = true ∧ ofDigits ds = millis ∧ ofDigits es = n

/-- a sequence number that is missing or a 64-bit integer -/
def IntegerSeq (body : Json) : Prop :=
  ∀ v, body.get? "_feed_cursor_seq" = some v → v = .null ∨ ∃ k, v = .num k ∧ inRange k = true

theorem isDigit_iff {c : Char} : c.isDigit = true ↔ 48 ≤ c.toNat ∧ c.toNat ≤ 57 := by
  rw [Char.isDigit, Bool.and_eq_true, decide_eq_true_eq, decide_eq_true_eq]
  rfl

theorem splitSign_digits {l : List Char} (h : l.all Char.isDigit = true) : splitSign l = (false, l) := by
  unfold splitSign
  split
  · exact absurd (List.all_eq_true.mp h '-' List.mem_cons_self) (by decide)
  · exact absurd (List.all_eq_true.mp h '+' List.mem_cons_self) (by decide)
  · rfl

theorem dropWhile_digits {l : List Char} (h : l.all Char.isDigit = true) : l.dropWhile isSqlSpace = l := by
  cases l with
  | nil => rfl
  | cons c l =>
    have hdigit := isDigit_iff.mp (List.all_eq_true.mp h c List.mem_cons_self)
    have hspace : isSqlSpace c = false := by
      rw [isSqlSpace, Bool.or_eq_false_iff, beq_eq_false_iff_ne, Bool.and_eq_false_iff,
        decide_eq_false_iff_not, decide_eq_false_iff_not]
      omega
    rw [List.dropWhile_cons_of_neg (by rw [hspace]; exact Bool.false_ne_true)]

theorem castText_digits {l : List Char} (h : l.all Char.isDigit = true) : castText l = saturate (ofDigits l) := by
  have htake : l.takeWhile Char.isDigit = l := List.takeWhile_eq_self_iff.mpr (List.all_eq_true.mp h)
  rw [castText, dropWhile_digits h, splitSign_digits h]
  simp only [htake]
  rfl

theorem parse?_digits {l : List Char} (h : l.all Char.isDigit = true) (hne : l ≠ [])
    (hin : inRange (ofDigits l) = true) :
    parse? (String.ofList l) = some (ofDigits l) := by
  rw [parse?, String.toList_ofList, splitSign_digits h]
  exact if_pos ⟨hne, h, hin⟩

theorem saturate_of_inRange (h : inRange n = true) : saturate n = n := by
  obtain ⟨hmin, hmax⟩ := inRange_iff.mp h
  unfold saturate
  omega

theorem ofDigits_concat (l : List Char) (c : Char) :
    ofDigits (l ++ [c]) = ofDigits l * 10 + ((c.toNat : Int) - 48) := by
  rw [ofDigits, List.foldl_append]
  rfl

theorem ofDigits_bounds (l : List Char) (h : l.all Char.isDigit = true) :
    0 ≤ ofDigits l ∧ ofDigits l < 10 ^ l.length := by
  induction l using List.reverseRecOn with
  | nil => exact ⟨le_refl _, by decide⟩
  | append_singleton l c ih =>
    rw [List.all_append, Bool.and_eq_true] at h
    obtain ⟨hlow, hhigh⟩ := ih h.1
    have hdigit := isDigit_iff.mp (List.all_eq_true.mp h.2 c List.mem_cons_self)
    rw [ofDigits_concat, List.length_append, List.length_singleton, Int.pow_succ]
    omega

theorem DigitKey.reads {key : String} (h : DigitKey key millis n) (hfits : Fits millis n) :
    castText (key.toList.take 20) = millis ∧ castText ((key.toList.drop 21).take 10) = n ∧
      sortKeyToCursor key = some (cursorOf millis (min n 999999)) := by
  obtain ⟨ds, es, hkey, hds, hes, hall, hall', rfl, rfl⟩ := h
  obtain ⟨hmillis, hn, hle⟩ := hfits
  have hin : inRange (ofDigits ds) = true := inRange_iff.mpr (by unfold minI64; omega)
  have hin' : inRange (ofDigits es) = true := by
    obtain ⟨hlow, hhigh⟩ := ofDigits_bounds es hall'
    rw [hes] at hhigh
    refine inRange_iff.mpr ⟨?_, ?_⟩
    · unfold minI64
      omega
    · unfold maxI64
      omega
  have hne : ds ≠ [] := by
    rintro rfl
    cases hds
  have hne' : es ≠ [] := by
    rintro rfl
    cases hes
  have htake : key.toList.take 20 = ds := by rw [hkey, ← hds, List.take_left]
  have hdrop : (key.toList.drop 21).take 10 = es := by
    rw [hkey, ← List.singleton_append, ← List.append_assoc,
      show 21 = (ds ++ ['_']).length by rw [List.length_append, hds]; rfl, List.drop_left, ← hes, List.take_length]
  have hsplit : Text.splitOn '_' key = [String.ofList ds, String.ofList es] := by
    have hkey' : key = String.ofList ds ++ String.ofList ['_'] ++ String.ofList es := by
      apply String.toList_inj.mp
      rw [hkey, String.toList_append, String.toList_append, String.toList_ofList, String.toList_ofList,
        String.toList_ofList, List.append_assoc, List.singleton_append]
    have hnot {l : List Char} (hl : l.all Char.isDigit = true) : '_' ∉ (String.ofList l).toList := by
      rw [String.toList_ofList]
      exact fun hmem => absurd (List.all_eq_true.mp hl '_' hmem) (by decide)
    rw [hkey', Text.splitOn_pair (hnot hall) (hnot hall')]
  refine ⟨?_, ?_, ?_⟩
  · rw [htake, castText_digits hall, saturate_of_inRange hin]
  · rw [hdrop, castText_digits hall', saturate_of_inRange hin']
  · rw [sortKeyToCursor, hsplit]
    simp only [List.getElem?_cons_zero, List.getElem?_cons_succ, Option.bind_some, parse?_digits hall hne hin,
      parse?_digits hall' hne' hin', Option.map_some, Option.getD_some, clamp]
    rw [max_eq_right (le_min hn (by decide))]

theorem sqlSeq_eq (h : IntegerSeq row.bodyJson) : sqlSeq castReal row =
    clamp (((feedCursorSeq (rowToMessage row)).or (rowToMessage row).sourceSeq).getD 0) 0 999999 := by
  unfold sqlSeq feedCursorSeq
  show _ = clamp ((((row.bodyJson.get? "_feed_cursor_seq").bind asI64?).or row.sourceSeq).getD 0) 0 999999
  rcases hv : row.bodyJson.get? "_feed_cursor_seq" with _ | v
  · rw [Option.bind_none, Option.bind_none]
  · rw [Option.bind_some, Option.bind_some]
    rcases h v hv with rfl | ⟨k, rfl, hk⟩
    · rfl
    · rw [extractSeq, asI64?, if_pos hk, saturate_of_inRange hk]

theorem messageCursorSql_eq_iff_of_digits (hkey : DigitKey row.sortKey millis n) (hfits : Fits millis n)
    (hseq : IntegerSeq row.bodyJson) (hupdated : Fits row.updatedAtMs (sqlSeq castReal row)) :
    messageCursorSql castReal row = messageCursorEventId (rowToMessage row) ↔
      n ≤ 999999 ∨ millis * 1000000 + n ≤ row.updatedAtMs * 1000000 + sqlSeq castReal row := by
  obtain ⟨hsql, hsql', hprogram⟩ := hkey.reads hfits
  have hmin : Fits millis (min n 999999) := by
    obtain ⟨h1, h2, h3⟩ := hfits
    exact ⟨h1, le_min h2 (by decide), by omega⟩
  have htime : millisOf (rowToMessage row).updatedAtMs = row.updatedAtMs := by
    obtain ⟨h1, h2, h3⟩ := hupdated
    show millisOf (asU128 row.updatedAtMs) = row.updatedAtMs
    unfold maxI64 at h3
    unfold millisOf asU128 maxI64
    omega
  have hupd : updatedCursor (rowToMessage row) = row.updatedAtMs * 1000000 + sqlSeq castReal row := by
    have hread : sqlSeq castReal row = _ := sqlSeq_eq hseq
    rw [updatedCursor, ← hread, htime, cursorOf_of_fits hupdated]
  have hleft : messageCursorSql castReal row =
      max (millis * 1000000 + n) (row.updatedAtMs * 1000000 + sqlSeq castReal row) := by
    apply (isGreatest_sqlStamps castReal row).unique
    rw [sqlStamps, hsql, hsql', sqlStamp_of_fits hfits, sqlStamp_of_fits hupdated]
    exact isGreatest_pair _ _
  have hright : messageCursorEventId (rowToMessage row) =
      max (millis * 1000000 + min n 999999) (row.updatedAtMs * 1000000 + sqlSeq castReal row) := by
    rw [messageCursorEventId, show (rowToMessage row).sortKey = row.sortKey from rfl, hprogram]
    simp only [hupd, cursorOf_of_fits hmin]
  rw [hleft, hright]
  omega

/-- **when the database and the program compute the same cursor** -/
theorem cursors_agree_iff (castReal : String → Int) (row : Row) :
    (messageCursorSql castReal row = messageCursorEventId (rowToMessage row) ↔ ReadsAgree castReal row) ∧
      ∀ millis n, DigitKey row.sortKey millis n → Fits millis n → IntegerSeq row.bodyJson →
        Fits row.updatedAtMs (sqlSeq castReal row) →
        (messageCursorSql castReal row = messageCursorEventId (rowToMessage row) ↔
          n ≤ 999999 ∨ millis * 1000000 + n ≤ row.updatedAtMs * 1000000 + sqlSeq castReal row) :=
  ⟨messageCursorSql_eq_iff castReal row, fun _ _ hkey hfits hseq hupdated =>
    messageCursorSql_eq_iff_of_digits hkey hfits hseq hupdated⟩

end

/-- a row of the millionth event of a log -/
def millionthEvent : Row where
  messageId := "task_evt_job_1000000"
  containerId := "container"
  lane := .task
  bodyText := none
  bodyJson := .obj []
  chatThreadId := none
  taskId := some "job"
  sourceSeq := some 1000000
  createdAtMs := 1
  updatedAtMs := 1
  sortKey := "00000000000000000001_0001000000"

theorem large_event_number : ¬ ∀ (castReal : String → Int) (row : Row),
    messageCursorSql castReal row = messageCursorEventId (rowToMessage row) := by
  intro h
  exact absurd (h (fun _ => 0) millionthEvent) (by decide +kernel)

end Feed

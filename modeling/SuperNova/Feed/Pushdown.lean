import SuperNova.Feed.Projected

/-!
# Limits below a merge

* `limitsHarmless_iff` (**main**): the page that is merged from limited pages is the page of all messages,
  however these are assigned to the databases, exactly when no message of the page is crowded;
* `tie_takes_place`: two messages with one sort key, of which the page holds the wrong one.
-/

set_option linter.unusedSectionVars false

namespace Feed

/-! ## the messages of one database -/

section
variable {castReal : String → Int} {containerId : String} {lane : Option MessageLane}
  {after : Option Int} {table : MessageTable} {message : ContainerMessage} {row : Row}

theorem mem_containerMessages :
    message ∈ containerMessages castReal containerId lane after table ↔
      ∃ row ∈ table.rows, inScope .containerId containerId lane row = true ∧
        beyond castReal after row = true ∧ message = rowToMessage row := by
  rw [containerMessages, List.mem_map]
  constructor
  · rintro ⟨row, hrow, rfl⟩
    obtain ⟨hrow, hbeyond⟩ := List.mem_filter.mp hrow
    obtain ⟨hrow, hscope⟩ := List.mem_filter.mp hrow
    exact ⟨row, hrow, hscope, hbeyond, rfl⟩
  · rintro ⟨row, hrow, hscope, hbeyond, rfl⟩
    exact ⟨row, List.mem_filter.mpr ⟨List.mem_filter.mpr ⟨hrow, hscope⟩, hbeyond⟩, rfl⟩

theorem ids_of_sublist {rows : List Row} (h : List.Sublist rows table.rows) :
    ((rows.map rowToMessage).map (·.messageId)).Nodup := by
  rw [List.map_map]
  exact table.ids.sublist (h.map _)

theorem containerMessages_ids :
    ((containerMessages castReal containerId lane after table).map (·.messageId)).Nodup :=
  ids_of_sublist (List.filter_sublist.trans List.filter_sublist)

theorem eq_of_messageId {row' : Row} (h : row ∈ table.rows) (h' : row' ∈ table.rows)
    (hid : row.messageId = row'.messageId) : row = row' :=
  List.inj_on_of_nodup_map table.ids h h' hid

theorem CopyOf.inScope {m : Row} (h : CopyOf castReal row m)
    (hrow : inScope .containerId containerId lane row = true) :
    inScope .containerId containerId lane m = true := by
  rw [Feed.inScope, ScopeColumn.get, h.containerId, h.lane] at hrow
  exact hrow

theorem CopyOf.beyond {m : Row} (h : CopyOf castReal row m) (hrow : beyond castReal after row = true) :
    beyond castReal after m = true := by
  cases after with
  | none => rfl
  | some a =>
    have hcursor : messageCursorSql castReal row > a := of_decide_eq_true hrow
    have hle := h.sqlCursor
    exact decide_eq_true (show messageCursorSql castReal m > a by omega)

theorem CopyOf.refl (row : Row) : CopyOf castReal row row :=
  ⟨rfl, rfl, rfl, rfl, le_refl _, le_refl _⟩

theorem sortKeyOrder_congr {m m' row' : Row} (h : CopyOf castReal row m)
    (h' : CopyOf castReal row' m') : sortKeyOrder after row row' ↔ sortKeyOrder after m m' := by
  cases after with
  | some _ =>
    show ¬ row'.sortKey.toList < row.sortKey.toList ↔ _
    rw [h.sortKey, h'.sortKey]
    exact Iff.rfl
  | none =>
    show ¬ row.sortKey.toList < row'.sortKey.toList ↔ _
    rw [h.sortKey, h'.sortKey]
    exact Iff.rfl

end

/-! ## limited pages -/

section
variable {castReal : String → Int} {containerId : String} {lane : Option MessageLane}
  {after : Option Int} {limit : Option Nat} {log table : MessageTable} {picks : Row → Bool}

variable (castReal lane after limit log) in
/-- the message with this id is near enough to be on every limited page that it could be on -/
def Near (messageId : String) : Prop :=
  ∃ m ∈ log.rows, m.messageId = messageId ∧
    Limit.Fits (sortKeyOrder after) (shardRows castReal lane after log) (normalizeMessagePageLimit limit) m

variable (castReal containerId lane after limit table picks) in
/-- what comes from one database -/
def limitedMessages : List ContainerMessage :=
  (selectPage castReal (table.rows.filter picks) after (normalizeMessagePageLimit limit)).filter
    fun message => message.containerId == containerId && lane.all (message.lane == ·)

theorem limitedMessages_ids :
    ((limitedMessages castReal containerId lane after limit table picks).map (·.messageId)).Nodup := by
  have hsub : List.Sublist ((((table.rows.filter picks).filter (beyond castReal after)).insertionSort
      (sortKeyOrder after)).take (normalizeMessagePageLimit limit))
      (((table.rows.filter picks).filter (beyond castReal after)).insertionSort (sortKeyOrder after)) :=
    List.take_sublist _ _
  have hsorted : ((((table.rows.filter picks).filter (beyond castReal after)).insertionSort
      (sortKeyOrder after)).map Row.messageId).Nodup :=
    ((List.perm_insertionSort _ _).map _).nodup_iff.mpr
      (table.ids.sublist ((List.filter_sublist.trans List.filter_sublist).map _))
  have hpage : ((selectPage castReal (table.rows.filter picks) after
      (normalizeMessagePageLimit limit)).map (·.messageId)).Nodup := by
    refine ((selectPage_perm _ _).map _).nodup_iff.mpr ?_
    rw [List.map_map]
    exact hsorted.sublist (hsub.map _)
  exact hpage.sublist (List.filter_sublist.map _)

theorem mem_limitedMessages {message : ContainerMessage} :
    message ∈ limitedMessages castReal containerId lane after limit table picks ↔
      ∃ row ∈ (((table.rows.filter picks).filter (beyond castReal after)).insertionSort
        (sortKeyOrder after)).take (normalizeMessagePageLimit limit),
        inScope .containerId containerId lane row = true ∧ message = rowToMessage row := by
  rw [limitedMessages, List.mem_filter, (selectPage_perm _ _).mem_iff, List.mem_map]
  constructor
  · rintro ⟨⟨row, hrow, rfl⟩, hscope⟩
    exact ⟨row, hrow, hscope, rfl⟩
  · rintro ⟨row, hrow, hscope, rfl⟩
    exact ⟨⟨row, hrow, rfl⟩, hscope⟩

theorem mem_of_mem_limitedMessages {message : ContainerMessage}
    (h : message ∈ limitedMessages castReal containerId lane after limit table picks) :
    message ∈ containerMessages castReal containerId lane after table := by
  obtain ⟨row, hrow, hscope, rfl⟩ := mem_limitedMessages.mp h
  obtain ⟨hrow, hbeyond⟩ := List.mem_filter.mp ((List.mem_insertionSort _).mp (List.mem_of_mem_take hrow))
  exact mem_containerMessages.mpr ⟨row, List.mem_of_mem_filter hrow, hscope, hbeyond, rfl⟩

theorem mem_limitedMessages_of_near
    (hpicks : ∀ row, inScope .containerId containerId lane row = true → picks row = true)
    (hlane : ∀ row, picks row = true → lane.all (row.lane == ·) = true)
    (hcopies : ∀ row ∈ table.rows, ∃ m ∈ log.rows, CopyOf castReal row m) {message : ContainerMessage}
    (hnear : Near castReal lane after limit log message.messageId)
    (h : message ∈ containerMessages castReal containerId lane after table) :
    message ∈ limitedMessages castReal containerId lane after limit table picks := by
  obtain ⟨row, hrow, hscope, hbeyond, rfl⟩ := mem_containerMessages.mp h
  obtain ⟨m, hm, hid, hfits⟩ := hnear
  obtain ⟨m', hm', hcopy⟩ := hcopies row hrow
  obtain rfl : m' = m := eq_of_messageId hm' hm (hcopy.messageId.symm.trans hid.symm)
  let rows := (table.rows.filter picks).filter (beyond castReal after)
  have hmem : row ∈ rows :=
    List.mem_filter.mpr ⟨List.mem_filter.mpr ⟨hrow, hpicks row hscope⟩, hbeyond⟩
  have hle : (rows.filter fun y => decide (sortKeyOrder after y row)).length ≤
      ((shardRows castReal lane after log).filter fun y => decide (sortKeyOrder after y m')).length := by
    have hids : ((rows.filter fun y => decide (sortKeyOrder after y row)).map Row.messageId).Nodup :=
      table.ids.sublist ((List.filter_sublist.trans (List.filter_sublist.trans List.filter_sublist)).map _)
    refine Limit.length_le_of_keys hids fun y hy => ?_
    · obtain ⟨hy, hahead⟩ := List.mem_filter.mp hy
      obtain ⟨hy, hybeyond⟩ := List.mem_filter.mp hy
      obtain ⟨hy, hypicks⟩ := List.mem_filter.mp hy
      obtain ⟨my, hmy, hycopy⟩ := hcopies y hy
      refine ⟨my, List.mem_filter.mpr ⟨List.mem_filter.mpr ⟨List.mem_filter.mpr ⟨hmy, ?_⟩, ?_⟩, ?_⟩,
        hycopy.messageId.symm⟩
      · rw [← hycopy.lane]
        exact hlane y hypicks
      · exact hycopy.beyond hybeyond
      · exact decide_eq_true ((sortKeyOrder_congr hycopy hcopy).mp (of_decide_eq_true hahead))
  have hfits' : Limit.Fits (sortKeyOrder after) (rows.insertionSort (sortKeyOrder after))
      (normalizeMessagePageLimit limit) row := by
    have hperm := ((List.perm_insertionSort (sortKeyOrder after) rows).filter fun y =>
      decide (sortKeyOrder after y row)).length_eq
    unfold Limit.Fits at hfits ⊢
    omega
  refine mem_limitedMessages.mpr ⟨row, Limit.mem_take_of_fits (List.pairwise_insertionSort _ _) ?_ ?_
    hfits', hscope, rfl⟩
  · exact (sortKeyOrder_total row row).elim id id
  · exact (List.mem_insertionSort _).mpr hmem

end

/-! ## the candidates of a page -/

section
variable {castReal : String → Int} {containerId : String} {lane : Option MessageLane}
  {after : Option Int} {limit : Option Nat} {log : MessageTable} {store : Store}

variable (castReal containerId lane after store) in
/-- the messages of all databases -/
def allMessages : List ContainerMessage :=
  (store.sources containerId).flatMap (containerMessages castReal containerId lane after)

variable (castReal containerId lane after limit store) in
/-- the messages of all limited pages -/
def pageMessages : List ContainerMessage :=
  limitedMessages castReal containerId lane after limit store.main (inScope .containerId containerId lane) ++
    (store.containerShards containerId).flatMap fun table =>
      limitedMessages castReal containerId lane after limit table fun row => lane.all (row.lane == ·)

theorem inScope_lane {row : Row} (h : inScope .containerId containerId lane row = true) :
    lane.all (row.lane == ·) = true := (Bool.and_eq_true_iff.mp h).2

theorem listProjected_eq :
    listProjectedContainerMessagesPageForLane castReal store containerId lane after limit =
      .ok (mergeProjectedMessages (pageMessages castReal containerId lane after limit store) after limit) := by
  have hmain : listMessagesPage castReal store.main "container_id" containerId lane after limit =
      .ok (limitedMessages castReal containerId lane after limit store.main
        (inScope .containerId containerId lane)) := by
    have hall : limitedMessages castReal containerId lane after limit store.main
        (inScope .containerId containerId lane) =
        selectPage castReal (store.main.rows.filter (inScope .containerId containerId lane)) after
          (normalizeMessagePageLimit limit) := by
      refine List.filter_eq_self.mpr fun message hmessage => ?_
      obtain ⟨row, hrow, rfl⟩ := mem_of_mem_selectPage hmessage
      exact (List.mem_filter.mp hrow).2
    rw [hall]
    cases after <;> rfl
  rw [listProjectedContainerMessagesPageForLane, hmain]
  rfl

theorem mem_allMessages_of_page {message : ContainerMessage}
    (h : message ∈ pageMessages castReal containerId lane after limit store) :
    message ∈ allMessages castReal containerId lane after store := by
  rcases List.mem_append.mp h with h | h
  · exact List.mem_flatMap.mpr ⟨store.main, List.mem_cons_self, mem_of_mem_limitedMessages h⟩
  · obtain ⟨table, htable, h⟩ := List.mem_flatMap.mp h
    exact List.mem_flatMap.mpr
      ⟨table, List.mem_cons_of_mem _ htable, mem_of_mem_limitedMessages h⟩

theorem Assigns.of_mem (h : Assigns castReal store containerId log) {message : ContainerMessage}
    (hmessage : message ∈ allMessages castReal containerId lane after store) :
    ∃ row m, message = rowToMessage row ∧ m ∈ log.rows ∧ CopyOf castReal row m ∧
      rowToMessage m ∈ containerMessages castReal containerId lane after log := by
  obtain ⟨table, htable, hmem⟩ := List.mem_flatMap.mp hmessage
  obtain ⟨row, hrow, hscope, hbeyond, rfl⟩ := mem_containerMessages.mp hmem
  obtain ⟨m, hm, hcopy⟩ := h.copies table htable row hrow
  exact ⟨row, m, rfl, hm, hcopy,
    mem_containerMessages.mpr ⟨m, hm, hcopy.inScope hscope, hcopy.beyond hbeyond, rfl⟩⟩

theorem Assigns.mem_of_log (h : Assigns castReal store containerId log) {message : ContainerMessage}
    (hmessage : message ∈ containerMessages castReal containerId lane after log) :
    message ∈ allMessages castReal containerId lane after store := by
  obtain ⟨m, hm, hscope, hbeyond, rfl⟩ := mem_containerMessages.mp hmessage
  obtain ⟨table, htable, hmem⟩ := h.placed m hm
  exact List.mem_flatMap.mpr
    ⟨table, htable, mem_containerMessages.mpr ⟨m, hmem, hscope, hbeyond, rfl⟩⟩

theorem pageMessages_filter (h : Assigns castReal store containerId log) {id : String}
    (hnear : Near castReal lane after limit log id) :
    ((pageMessages castReal containerId lane after limit store).filter fun m => decide (m.messageId = id)) =
      (allMessages castReal containerId lane after store).filter fun m => decide (m.messageId = id) := by
  have hone : ∀ table ∈ store.sources containerId, ∀ picks : Row → Bool,
      (∀ row, inScope .containerId containerId lane row = true → picks row = true) →
      (∀ row, picks row = true → lane.all (row.lane == ·) = true) →
      ((limitedMessages castReal containerId lane after limit table picks).filter fun m =>
          decide (m.messageId = id)) =
        (containerMessages castReal containerId lane after table).filter fun m =>
          decide (m.messageId = id) := by
    intro table htable picks hpicks hlane
    refine Limit.filter_eq_filter limitedMessages_ids containerMessages_ids fun message hid => ?_
    exact ⟨mem_of_mem_limitedMessages,
      mem_limitedMessages_of_near hpicks hlane (h.copies table htable) (hid ▸ hnear)⟩
  rw [pageMessages, allMessages, Store.sources, List.flatMap_cons, List.filter_append,
    List.filter_append, List.filter_flatMap, List.filter_flatMap]
  congr 1
  · exact hone store.main List.mem_cons_self _ (fun _ hrow => hrow) fun _ hrow => inScope_lane hrow
  · refine List.flatMap_congr fun table htable => ?_
    exact hone table (List.mem_cons_of_mem _ htable) _ (fun _ hrow => inScope_lane hrow) fun _ hrow => hrow

/-! ## the page of a log -/

theorem cursor_of_mem_dedupe {candidates : List ContainerMessage} {m : ContainerMessage}
    (h : m ∈ dedupe after candidates) : ∀ a, after = some a → messageCursorEventId m > a := by
  rintro a rfl
  induction candidates using List.reverseRecOn with
  | nil => exact absurd h List.not_mem_nil
  | append_singleton candidates c ih =>
    rw [dedupe, List.foldl_concat, ← dedupe] at h
    by_cases hold : messageCursorEventId c ≤ a
    · have hany : ((some a).any fun after => decide (messageCursorEventId c ≤ after)) = true :=
        decide_eq_true hold
      rw [mergeStep, if_pos hany] at h
      exact ih h
    · rcases mergeStep_cases (some a) (dedupe (some a) candidates) c with ⟨heq, -⟩ | ⟨heq, -⟩
      · exact ih (heq ▸ h)
      · rcases List.mem_append.mp (heq ▸ h) with h | h
        · exact ih (List.mem_of_mem_filter h)
        · rw [List.mem_singleton.mp h]
          omega

theorem displayKeys_nodup (candidates : List ContainerMessage) :
    ((ranked after candidates).map displayKey).Nodup := by
  refine List.Nodup.map_on ?_ (ranked_ids candidates).of_map
  exact fun m hm m' hm' heq =>
    List.inj_on_of_nodup_map (ranked_ids candidates) hm hm' (messageId_of_displayKey heq)

theorem displayKey_congr {row m : Row} (hcopy : CopyOf castReal row m)
    (hle : messageCursorEventId (rowToMessage m) ≤ messageCursorEventId (rowToMessage row)) :
    displayKey (rowToMessage row) = displayKey (rowToMessage m) := by
  have hcursor : messageCursorEventId (rowToMessage row) = messageCursorEventId (rowToMessage m) :=
    Int.le_antisymm hcopy.cursor hle
  have hid : (rowToMessage row).messageId = (rowToMessage m).messageId := hcopy.messageId
  have hsort : (rowToMessage row).sortKey = (rowToMessage m).sortKey := hcopy.sortKey
  rw [displayKey, displayKey, hcursor, hid, hsort]

theorem Assigns.exists_ranked (h : Assigns castReal store containerId log) {m : Row} (hm : m ∈ log.rows)
    (hmessage : rowToMessage m ∈ containerMessages castReal containerId lane after log)
    (hafter : ∀ a, after = some a → messageCursorEventId (rowToMessage m) > a) :
    ∃ d ∈ dedupe after (allMessages castReal containerId lane after store),
      d.messageId = m.messageId ∧ displayKey d = displayKey (rowToMessage m) := by
  obtain ⟨d, hd, hid, hle⟩ := exists_mem_dedupe (h.mem_of_log hmessage) hafter
  obtain ⟨row, m', rfl, hm', hcopy, -⟩ := h.of_mem (mem_of_mem_dedupe hd)
  obtain rfl : m' = m := eq_of_messageId hm' hm (hcopy.messageId.symm.trans hid)
  exact ⟨rowToMessage row, hd, hid, displayKey_congr hcopy hle⟩

theorem Assigns.displayKeys (h : Assigns castReal store containerId log) :
    (ranked after (allMessages castReal containerId lane after store)).map displayKey =
      (ranked after (containerMessages castReal containerId lane after log)).map displayKey := by
  have hsorted : ∀ candidates, ((ranked after candidates).map displayKey).Pairwise (keyOrder after) :=
    fun candidates => List.pairwise_map.mpr (ranked_sorted candidates)
  refine List.Perm.eq_of_pairwise (fun _ _ _ _ => keyOrder_antisymm) (hsorted _) (hsorted _) ?_
  refine (List.perm_ext_iff_of_nodup (displayKeys_nodup _) (displayKeys_nodup _)).mpr fun key => ?_
  rw [List.mem_map, List.mem_map]
  constructor
  · rintro ⟨d, hd, rfl⟩
    rw [mem_ranked] at hd
    obtain ⟨row, m, rfl, hm, hcopy, hmessage⟩ := h.of_mem (mem_of_mem_dedupe hd)
    have hafter : ∀ a, after = some a → messageCursorEventId (rowToMessage m) > a := by
      intro a ha
      have hrow := cursor_of_mem_dedupe hd a ha
      have hle := hcopy.cursor
      omega
    obtain ⟨d', hd', hid', hkey⟩ := h.exists_ranked hm hmessage hafter
    have hsame : d' = rowToMessage row := List.inj_on_of_nodup_map (dedupe_nodup after _) hd' hd
      (hid'.trans hcopy.messageId.symm)
    obtain ⟨y, hy, hid, -⟩ := exists_mem_dedupe hmessage hafter
    have hym : y = rowToMessage m :=
      List.inj_on_of_nodup_map containerMessages_ids (mem_of_mem_dedupe hy) hmessage hid
    exact ⟨rowToMessage m, mem_ranked.mpr (hym ▸ hy), by rw [← hkey, hsame]⟩
  · rintro ⟨y, hy, rfl⟩
    rw [mem_ranked] at hy
    have hmessage := mem_of_mem_dedupe hy
    obtain ⟨m, hm, -, -, rfl⟩ := mem_containerMessages.mp hmessage
    obtain ⟨d, hd, -, hkey⟩ := h.exists_ranked hm hmessage (cursor_of_mem_dedupe hy)
    exact ⟨d, mem_ranked.mpr hd, hkey⟩

theorem mem_dedupe_congr {candidates candidates' : List ContainerMessage} {m : ContainerMessage}
    (h : (candidates.filter fun c => decide (c.messageId = m.messageId)) =
      candidates'.filter fun c => decide (c.messageId = m.messageId)) :
    m ∈ dedupe after candidates ↔ m ∈ dedupe after candidates' := by
  have hmem : ∀ l : List ContainerMessage,
      m ∈ l ↔ m ∈ l.filter fun c => decide (c.messageId = m.messageId) := by
    intro l
    rw [List.mem_filter, decide_eq_true_iff]
    exact ⟨fun hm => ⟨hm, rfl⟩, And.left⟩
  rw [hmem, dedupe_filter, h, ← dedupe_filter, ← hmem]

theorem eq_of_ranked {candidates : List ContainerMessage} {m m' : ContainerMessage}
    (hm : m ∈ ranked after candidates) (hm' : m' ∈ ranked after candidates) (h : pageOrder after m m')
    (h' : pageOrder after m' m) : m = m' :=
  List.inj_on_of_nodup_map (ranked_ids candidates) hm hm'
    (messageId_of_displayKey (keyOrder_antisymm h h'))

theorem ranked_congr {candidates candidates' : List ContainerMessage}
    (h : ∀ id, (candidates.filter fun c => decide (c.messageId = id)) =
      candidates'.filter fun c => decide (c.messageId = id)) :
    ranked after candidates = ranked after candidates' := by
  have hmem : ∀ m, m ∈ ranked after candidates ↔ m ∈ ranked after candidates' := by
    intro m
    rw [mem_ranked, mem_ranked]
    exact mem_dedupe_congr (h m.messageId)
  refine List.Perm.eq_of_pairwise (fun m m' hm hm' => eq_of_ranked hm ((hmem m').mpr hm'))
    (ranked_sorted _) (ranked_sorted _) ?_
  exact (List.perm_ext_iff_of_nodup (ranked_ids _).of_map (ranked_ids _).of_map).mpr hmem

theorem Assigns.near (h : Assigns castReal store containerId log)
    (hlog : Uncrowded castReal containerId lane after limit log) {message : ContainerMessage}
    (hmessage : message ∈ (ranked after (allMessages castReal containerId lane after store)).take
      (normalizeMessagePageLimit limit)) : Near castReal lane after limit log message.messageId := by
  have hkey : displayKey message ∈ ((ranked after
      (containerMessages castReal containerId lane after log)).take
        (normalizeMessagePageLimit limit)).map displayKey := by
    rw [List.map_take, ← h.displayKeys, ← List.map_take]
    exact List.mem_map_of_mem hmessage
  obtain ⟨y, hy, hkey⟩ := List.mem_map.mp hkey
  obtain ⟨m, hm, -, -, rfl⟩ := mem_containerMessages.mp
    (mem_of_mem_dedupe (mem_ranked.mp (List.mem_of_mem_take hy)))
  have hpage : rowToMessage m ∈ pageOfLog castReal containerId lane after limit log := by
    rw [pageOfLog, merge_eq]
    exact mem_turned.mpr hy
  exact ⟨m, hm, messageId_of_displayKey hkey, hlog m hm hpage⟩

theorem limitsHarmless_of_uncrowded (hlog : Uncrowded castReal containerId lane after limit log) :
    LimitsHarmless castReal containerId lane after limit log := by
  intro store h
  rw [listProjected_eq, collectedPage, ← allMessages, merge_eq, merge_eq]
  refine congrArg (fun l => Except.ok (turned after l)) ?_
  have hnear : ∀ x ∈ (ranked after (allMessages castReal containerId lane after store)).take
      (normalizeMessagePageLimit limit), Near castReal lane after limit log x.messageId :=
    fun x hx => h.near hlog hx
  refine Limit.take_eq_take (ranked_sorted _) (ranked_sorted _) (ranked_ids _).of_map
    (ranked_ids _).of_map (fun a ha b hb => eq_of_ranked ha hb) hnear ?_ ?_ ?_
  · intro x hx
    rw [mem_ranked, mem_ranked]
    exact mem_dedupe_congr (pageMessages_filter h hx)
  · intro x hx y hy hfar
    obtain ⟨mx, hmx, hidx, hfits⟩ := hnear x hx
    obtain ⟨rx, mx', rfl, hmx', hcopyx, -⟩ := h.of_mem
      (mem_of_mem_dedupe (mem_ranked.mp (List.mem_of_mem_take hx)))
    obtain rfl : mx' = mx := eq_of_messageId hmx' hmx (hcopyx.messageId.symm.trans hidx.symm)
    obtain ⟨ry, my, rfl, hmy, hcopyy, -⟩ := h.of_mem
      (mem_allMessages_of_page (mem_of_mem_dedupe (mem_ranked.mp hy)))
    refine pageOrder_of_sortKey hcopyx.sortKey hcopyy.sortKey fun hahead => hfar ?_
    exact ⟨my, hmy, hcopyy.messageId.symm, Limit.Fits.mono (fun z hz => sortKeyOrder_trans hz hahead) hfits⟩
  · intro hshort y hy
    have hcandidate := mem_allMessages_of_page (mem_of_mem_dedupe (mem_ranked.mp hy))
    obtain ⟨x, hx, hid, -⟩ :=
      exists_mem_dedupe hcandidate (cursor_of_mem_dedupe (mem_ranked.mp hy))
    have hpage : x ∈ (ranked after (allMessages castReal containerId lane after store)).take
        (normalizeMessagePageLimit limit) := by
      rw [List.take_of_length_le hshort]
      exact mem_ranked.mpr hx
    exact hid ▸ hnear x hpage

end

/-! ## all messages in one shard -/

section
variable {castReal : String → Int} {containerId : String} {lane : Option MessageLane}
  {after : Option Int} {limit : Option Nat} {log table : MessageTable} {row : Row}

/-- a store whose messages are all in one shard -/
def shardStore (containerId : String) (table : MessageTable) : Store where
  main := .empty
  records :=
    [{ shardId := "shard", containerId, chatThreadId := none, relativeDbPath := "shard.sqlite"
       status := "active", updatedAtMs := 0 }]
  files := Table.empty.insert "shard.sqlite" table

theorem shardStore_shards : (shardStore containerId table).containerShards containerId = [table] := by
  simp [Store.containerShards, shardStore, listContainerProjectionShards, maxContainerAggregatedShards,
    Table.get?_insert]

theorem assigns_shardStore (h : table.rows.Perm log.rows) :
    Assigns castReal (shardStore containerId table) containerId log := by
  have hsources : (shardStore containerId table).sources containerId = [.empty, table] := by
    rw [Store.sources, shardStore_shards]
    rfl
  constructor
  · rw [hsources]
    intro t ht row hrow
    rcases List.mem_cons.mp ht with rfl | ht
    · exact absurd hrow List.not_mem_nil
    · rw [List.mem_singleton.mp ht] at hrow
      exact ⟨row, h.mem_iff.mp hrow, .refl row⟩
  · rw [hsources]
    exact fun m hm => ⟨table, List.mem_cons_of_mem _ List.mem_cons_self, h.mem_iff.mpr hm⟩

theorem pageMessages_shardStore :
    pageMessages castReal containerId lane after limit (shardStore containerId table) =
      limitedMessages castReal containerId lane after limit table fun row => lane.all (row.lane == ·) := by
  have hnone : limitedMessages castReal containerId lane after limit (shardStore containerId table).main
      (inScope .containerId containerId lane) = [] := by
    refine List.eq_nil_iff_forall_not_mem.mpr fun message h => ?_
    obtain ⟨row, hrow, -⟩ := mem_containerMessages.mp (mem_of_mem_limitedMessages h)
    exact List.not_mem_nil hrow
  rw [pageMessages, hnone, shardStore_shards, List.nil_append, List.flatMap_singleton]

theorem collectedPage_shardStore (h : table.rows.Perm log.rows) :
    collectedPage castReal (shardStore containerId table) containerId lane after limit =
      pageOfLog castReal containerId lane after limit log := by
  have hall : allMessages castReal containerId lane after (shardStore containerId table) =
      containerMessages castReal containerId lane after table := by
    rw [allMessages, Store.sources, shardStore_shards]
    exact (List.nil_append _).trans (List.flatMap_singleton _ _)
  have hperm : (containerMessages castReal containerId lane after table).Perm
      (containerMessages castReal containerId lane after log) := ((h.filter _).filter _).map _
  rw [collectedPage, ← allMessages, hall, pageOfLog, merge_eq, merge_eq]
  rw [ranked_congr fun id => Limit.filter_eq_filter containerMessages_ids containerMessages_ids
    fun _ _ => hperm.mem_iff]

/-! ## a table that crowds a message out -/

section
variable (after log row)

/-- the other rows of a log that are not behind `row`, in their order -/
def rowsAhead : List Row :=
  ((log.rows.erase row).filter fun r => decide (sortKeyOrder after r row)).insertionSort (sortKeyOrder after)

def rowsBehind : List Row :=
  ((log.rows.erase row).filter fun r => !decide (sortKeyOrder after r row)).insertionSort
    (sortKeyOrder after)

end

theorem crowded_perm (hrow : row ∈ log.rows) :
    (rowsAhead after log row ++ row :: rowsBehind after log row).Perm log.rows := by
  have hothers : (rowsAhead after log row ++ rowsBehind after log row).Perm (log.rows.erase row) :=
    ((List.perm_insertionSort _ _).append (List.perm_insertionSort _ _)).trans
      (List.filter_append_perm _ _)
  exact List.perm_middle.trans ((hothers.cons row).trans (List.perm_cons_erase hrow).symm)

theorem crowded_sorted :
    (rowsAhead after log row ++ row :: rowsBehind after log row).Pairwise (sortKeyOrder after) := by
  have hahead : ∀ r ∈ rowsAhead after log row, sortKeyOrder after r row := fun r hr =>
    of_decide_eq_true (List.mem_filter.mp ((List.mem_insertionSort _).mp hr)).2
  have hbehind : ∀ r ∈ rowsBehind after log row, sortKeyOrder after row r := by
    intro r hr
    have hnot := (List.mem_filter.mp ((List.mem_insertionSort _).mp hr)).2
    exact (sortKeyOrder_total row r).resolve_right (by simpa using hnot)
  refine List.pairwise_append.mpr ⟨List.pairwise_insertionSort _ _,
    List.pairwise_cons.mpr ⟨hbehind, List.pairwise_insertionSort _ _⟩, fun r hr r' hr' => ?_⟩
  rcases List.mem_cons.mp hr' with rfl | hr'
  · exact hahead r hr
  · exact sortKeyOrder_trans (hahead r hr) (hbehind r' hr')

/-- the rows of a log, with `row` behind all that it does not precede -/
def crowdedTable (after : Option Int) (log : MessageTable) (row : Row) (hrow : row ∈ log.rows) :
    MessageTable where
  rows := rowsAhead after log row ++ row :: rowsBehind after log row
  ids := ((crowded_perm hrow).map _).nodup_iff.mpr log.ids

theorem crowded_not_mem (hrow : row ∈ log.rows)
    (hselected : row ∈ shardRows castReal lane after log)
    (h : ¬ Limit.Fits (sortKeyOrder after) (shardRows castReal lane after log)
      (normalizeMessagePageLimit limit) row) :
    rowToMessage row ∉ limitedMessages castReal containerId lane after limit
      (crowdedTable after log row hrow) fun row => lane.all (row.lane == ·) := by
  intro hmem
  obtain ⟨row', hrow', -, heq⟩ := mem_limitedMessages.mp hmem
  have hmem' := (List.mem_insertionSort _).mp (List.mem_of_mem_take hrow')
  have hin : row' ∈ (crowdedTable after log row hrow).rows :=
    List.mem_of_mem_filter (List.mem_of_mem_filter hmem')
  have hsame : row' = row := eq_of_messageId hin ((crowded_perm hrow).mem_iff.mpr hrow)
    (congrArg ContainerMessage.messageId heq).symm
  let selected : Row → Bool := fun r => beyond castReal after r && lane.all (r.lane == ·)
  have hselected : selected row = true := by
    rw [shardRows, List.filter_filter] at hselected
    exact (List.mem_filter.mp hselected).2
  have hsorted : ((crowdedTable after log row hrow).rows.filter selected).insertionSort
      (sortKeyOrder after) =
      (rowsAhead after log row).filter selected ++ row :: (rowsBehind after log row).filter selected := by
    show ((rowsAhead after log row ++ row :: rowsBehind after log row).filter selected).insertionSort _ = _
    rw [(crowded_sorted.filter selected).insertionSort_eq, List.filter_append,
      List.filter_cons_of_pos hselected]
  have hcount : normalizeMessagePageLimit limit ≤ ((rowsAhead after log row).filter selected).length := by
    have hothers : ((rowsAhead after log row).filter selected).length =
        ((log.rows.erase row).filter fun r => selected r && decide (sortKeyOrder after r row)).length := by
      rw [rowsAhead, ((List.perm_insertionSort _ _).filter selected).length_eq, List.filter_filter]
    have hlog : ((log.rows.filter selected).filter fun r => decide (sortKeyOrder after r row)).length ≤
        ((log.rows.erase row).filter fun r => selected r && decide (sortKeyOrder after r row)).length + 1 := by
      rw [List.filter_filter, ((List.perm_cons_erase hrow).filter _).length_eq, List.filter_cons]
      simp only [Bool.and_comm]
      split <;> simp
    have hrows : shardRows castReal lane after log = log.rows.filter selected := List.filter_filter ..
    rw [Limit.Fits, hrows] at h
    omega
  have hnot : row ∉ (rowsAhead after log row).filter selected := by
    intro hin
    have herase := List.mem_of_mem_filter ((List.mem_insertionSort _).mp (List.mem_of_mem_filter hin))
    exact List.Nodup.not_mem_erase log.ids.of_map herase
  rw [hsame, List.filter_filter, hsorted] at hrow'
  exact Limit.not_mem_take hcount hnot hrow'

end

/-- **limits below a merge**: whatever databases hold the messages of a log, the page that is merged from
limited pages is the page of all messages, exactly when no message of the page is crowded -/
theorem limitsHarmless_iff (castReal : String → Int) (containerId : String) (lane : Option MessageLane)
    (after : Option Int) (limit : Option Nat) (log : MessageTable) :
    LimitsHarmless castReal containerId lane after limit log ↔
      Uncrowded castReal containerId lane after limit log := by
  refine ⟨fun h row hrow hpage => ?_, limitsHarmless_of_uncrowded⟩
  by_contra hcrowded
  have hmerged := h (shardStore containerId (crowdedTable after log row hrow))
    (assigns_shardStore (crowded_perm hrow))
  have hselected : row ∈ shardRows castReal lane after log := by
    obtain ⟨row', hrow', hscope, hbeyond, heq⟩ := mem_containerMessages.mp (mem_of_mem_merge hpage)
    obtain rfl : row = row' := eq_of_messageId hrow hrow' (congrArg ContainerMessage.messageId heq)
    exact List.mem_filter.mpr ⟨List.mem_filter.mpr ⟨hrow, inScope_lane hscope⟩, hbeyond⟩
  rw [listProjected_eq, collectedPage_shardStore (crowded_perm hrow), pageMessages_shardStore] at hmerged
  rw [← Except.ok.inj hmerged] at hpage
  exact crowded_not_mem hrow hselected hcrowded (mem_of_mem_merge hpage)

/-- two messages with one sort key; the one with the greater cursor was stored first -/
def tiedMessages : MessageTable where
  rows := [chatRow "a" 40 "00000000000000000010_0000000001",
    chatRow "b" 20 "00000000000000000010_0000000001"]
  ids := by decide

/-- a shard that is asked for one message returns `a`, and the first message of all is `b` -/
theorem tie_takes_place : ¬ LimitsHarmless (fun _ => 0) "container" none (some 0) (some 1) tiedMessages := by
  intro h
  have hpage := h (shardStore "container" tiedMessages) (assigns_shardStore (List.Perm.refl _))
  rw [listProjected_eq, collectedPage_shardStore (List.Perm.refl _), pageMessages_shardStore] at hpage
  have hids := congrArg (fun page => page.toOption.map (List.map ContainerMessage.messageId)) hpage
  revert hids
  decide

end Feed

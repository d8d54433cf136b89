import SuperNova.Workbench.Messages

/-!
# What the workbench shows

The buffer of live messages holds what was shown of them, so that an answer that was hidden once is
gone from it, and a version that arrives later replaces an earlier one whatever its time is.

* `mergeMessages_eq`: a merge shows the messages that no other one hides;
* `sortedMessages_eq` (**main**): as long as hidden answers stay hidden, what is shown after any
  arrivals is one merge of the last version of each message;
* `stale_version_shown`: the last version, not the newest.
-/

set_option linter.unusedSectionVars false

namespace Workbench

open Feed Hiding

variable {collation : Collation} {base additions live page l : List Message} {k x y : Message}

/-! ## the order -/

instance (collation : Collation) : Std.TransCmp (compareMessagesForDisplay collation) := by
  let _ : Ord String := ⟨collation.localeCompare⟩
  have _ : Std.TransOrd String := collation.consistent
  exact inferInstanceAs (Std.TransCmp (compareLex (compareOn fun message : Message => message.createdAtMs)
    (compareLex (compareOn fun message : Message => message.sourceSeq.getD 0)
      (compareLex (compareOn fun message : Message => message.sortKey)
        (compareOn fun message : Message => message.messageId)))))

/-- shown above -/
def Above (collation : Collation) (k x : Message) : Prop := compareMessagesForDisplay collation k x = .lt

instance (collation : Collation) : DecidableRel (Above collation) := fun _ _ => inferInstanceAs (Decidable (_ = _))

theorem Above.asymm (h : Above collation k x) : ¬ Above collation x k := Std.OrientedCmp.not_lt_of_lt h

instance (collation : Collation) : Std.Irrefl (Above collation) := ⟨fun _ h => h.asymm h⟩

instance (collation : Collation) : IsTrans Message (Above collation) := ⟨fun _ _ _ => Std.TransCmp.lt_trans⟩

instance (collation : Collation) : Std.Antisymm (Above collation) := ⟨fun _ _ h h' => absurd h' h.asymm⟩

instance (collation : Collation) :
    IsTrans Message fun left right => compareMessagesForDisplay collation left right ≠ .gt where
  trans a b c hab hbc := by
    have hle := Std.TransCmp.isLE_trans (Ordering.isLE_iff_ne_gt.mpr hab) (Ordering.isLE_iff_ne_gt.mpr hbc)
    exact Ordering.isLE_iff_ne_gt.mp hle

instance (collation : Collation) :
    Std.Total fun left right => compareMessagesForDisplay collation left right ≠ .gt where
  total a b := by
    by_cases h : compareMessagesForDisplay collation a b = .gt
    · refine Or.inr fun h' => ?_
      have hlt := Std.OrientedCmp.gt_iff_lt.mp h
      rw [h'] at hlt
      cases hlt
    · exact Or.inl h

/-- the collation tells different ids of messages apart -/
def TellsApart (collation : Collation) (messages : List Message) : Prop :=
  ∀ x ∈ messages, ∀ y ∈ messages,
    collation.localeCompare x.messageId y.messageId = .eq → x.messageId = y.messageId

theorem sortForDisplay_sorted (htells : TellsApart collation l) (hnodup : (l.map (·.messageId)).Nodup) :
    (sortForDisplay collation l).Pairwise (Above collation) := by
  have hperm : (sortForDisplay collation l).Perm l := List.perm_insertionSort _ l
  have hle : (sortForDisplay collation l).Pairwise fun a b => compareMessagesForDisplay collation a b ≠ .gt :=
    List.pairwise_insertionSort _ l
  have hne : (sortForDisplay collation l).Pairwise fun a b => a.messageId ≠ b.messageId :=
    List.pairwise_map.mp ((hperm.map _).nodup_iff.mpr hnodup)
  refine (hle.and hne).imp_of_mem fun {a b} ha hb hab => ?_
  rcases hcompare : compareMessagesForDisplay collation a b with _ | _ | _
  · exact hcompare
  · have hids : collation.localeCompare a.messageId b.messageId = .eq := by
      unfold compareMessagesForDisplay at hcompare
      simp only [Ordering.then_eq_eq] at hcompare
      exact hcompare.2.2.2
    exact absurd (htells a (hperm.subset ha) b (hperm.subset hb) hids) hab.2
  · exact absurd hcompare hab.1

/-! ## duplicate answers -/

/-- a stored answer that repeats a streamed one -/
def RepeatsStream (k x : Message) : Prop := isChatTruthAssistantText x ∧ isDuplicateStream x k

/-- two final answers of a task with the same text -/
def RepeatsFinal (k x : Message) : Prop := isTaskFinalAnswer k ∧ isTaskFinalAnswer x ∧ finalKey k = finalKey x

instance : DecidableRel RepeatsStream := fun _ _ => inferInstanceAs (Decidable (_ ∧ _))

instance : DecidableRel RepeatsFinal := fun _ _ => inferInstanceAs (Decidable (_ ∧ _))

/-- an answer hides the ones that repeat it below -/
def Hides (collation : Collation) (k x : Message) : Prop :=
  (Above collation k x ∧ RepeatsStream k x) ∨ (Above collation k x ∧ RepeatsFinal k x)

instance (collation : Collation) : DecidableRel (Hides collation) := fun _ _ => inferInstanceAs (Decidable (_ ∨ _))

theorem RepeatsStream.stream (h : RepeatsStream k x) : isModelStreamAssistantText k = true := by
  have hdup := h.2
  unfold isDuplicateStream at hdup
  simp only [Bool.and_eq_true] at hdup
  exact hdup.1.1.1

theorem RepeatsStream.unrepeated (h : RepeatsStream k x) : ¬ RepeatsStream y k := by
  intro h'
  have hstream := h.stream
  have htruth := h'.1
  unfold isModelStreamAssistantText isAssistantText at hstream
  unfold isChatTruthAssistantText isAssistantText at htruth
  simp only [decide_eq_true_eq] at hstream htruth
  exact absurd (hstream.2.2.2.symm.trans htruth.2.2.2) (by decide)

theorem lane_of_isAssistantText {sourceKind : String} (h : isAssistantText sourceKind x = true) : x.lane = .chat := by
  unfold isAssistantText at h
  simp only [decide_eq_true_eq] at h
  exact h.1

theorem lane_of_isTaskFinalAnswer (h : isTaskFinalAnswer x = true) : x.lane = .task := by
  unfold isTaskFinalAnswer at h
  simp only [decide_eq_true_eq] at h
  exact h.1

theorem RepeatsStream.not_final (h : RepeatsStream k x) : ¬ RepeatsFinal x y ∧ ¬ RepeatsFinal y k := by
  constructor
  · intro h'
    have hlane := lane_of_isTaskFinalAnswer h'.1
    rw [lane_of_isAssistantText h.1] at hlane
    cases hlane
  · intro h'
    have hlane := lane_of_isTaskFinalAnswer h'.2.1
    rw [lane_of_isAssistantText h.stream] at hlane
    cases hlane

theorem RepeatsFinal.trans (h : RepeatsFinal k x) (h' : RepeatsFinal x y) : RepeatsFinal k y :=
  ⟨h.1, h'.2.1, h.2.2.trans h'.2.2⟩

theorem hides_irrefl (collation : Collation) (x : Message) : ¬ Hides collation x x := fun h =>
  h.elim (fun h => h.1.asymm h.1) fun h => h.1.asymm h.1

theorem hides_trans (collation : Collation) (k x y : Message) (h : Hides collation k x) (h' : Hides collation x y) :
    Hides collation k y := by
  rcases h' with ⟨habove', hrepeats'⟩ | ⟨habove', hrepeats'⟩
  · rcases h with ⟨-, hrepeats⟩ | ⟨-, hrepeats⟩
    · exact absurd hrepeats hrepeats'.unrepeated
    · exact absurd hrepeats hrepeats'.not_final.2
  · rcases h with ⟨-, hrepeats⟩ | ⟨habove, hrepeats⟩
    · exact absurd hrepeats' hrepeats.not_final.1
    · exact Or.inr ⟨trans_of (Above collation) habove habove', hrepeats.trans hrepeats'⟩

/-! ## the two loops -/

theorem suppressDuplicateChatFinalAnswers_eq (messages : List Message) :
    suppressDuplicateChatFinalAnswers messages = sift RepeatsStream messages := by
  unfold suppressDuplicateChatFinalAnswers sift
  congr 1
  funext kept message
  by_cases htruth : isChatTruthAssistantText message = true
  · have hfind : ((kept.find? (isDuplicateStream message)).isSome = true) ↔ Hidden RepeatsStream kept message := by
      rw [List.find?_isSome]
      exact exists_congr fun k => and_congr_right fun _ => (and_iff_right htruth).symm
    rw [if_neg (not_not.mpr htruth)]
    simp only [hfind]
  · have hnot : ¬ Hidden RepeatsStream kept message := fun ⟨_, _, h⟩ => htruth h.1
    rw [if_pos htruth, if_neg hnot]

theorem suppressDuplicateTaskFinalAnswers_eq (messages : List Message) :
    suppressDuplicateTaskFinalAnswers messages = sift RepeatsFinal messages := by
  suffices h : messages.foldl (fun state message =>
      if ¬ isTaskFinalAnswer message then (state.1 ++ [message], state.2)
      else if finalKey message ∈ state.2 then (state.1, state.2)
      else (state.1 ++ [message], state.2 ++ [finalKey message]))
        (([], []) : List Message × List String) =
      (sift RepeatsFinal messages, ((sift RepeatsFinal messages).filter isTaskFinalAnswer).map finalKey) from
    congrArg Prod.fst h
  induction messages using List.reverseRecOn with
  | nil => rfl
  | append_singleton messages message ih =>
    rw [List.foldl_append, List.foldl_cons, List.foldl_nil, ih, sift_concat]
    dsimp only
    by_cases hfinal : isTaskFinalAnswer message = true
    · have hseen : finalKey message ∈ ((sift RepeatsFinal messages).filter isTaskFinalAnswer).map finalKey ↔
          Hidden RepeatsFinal (sift RepeatsFinal messages) message := by
        rw [List.mem_map]
        constructor
        · rintro ⟨k, hk, hkey⟩
          obtain ⟨hk, hkfinal⟩ := List.mem_filter.mp hk
          exact ⟨k, hk, hkfinal, hfinal, hkey⟩
        · rintro ⟨k, hk, hkfinal, -, hkey⟩
          exact ⟨k, List.mem_filter.mpr ⟨hk, hkfinal⟩, hkey⟩
      rw [if_neg (not_not.mpr hfinal)]
      by_cases hhidden : Hidden RepeatsFinal (sift RepeatsFinal messages) message
      · rw [if_pos (hseen.mpr hhidden), if_pos hhidden]
      · rw [if_neg fun h => hhidden (hseen.mp h), if_neg hhidden, List.filter_append, List.map_append,
          List.filter_cons_of_pos hfinal, List.filter_nil, List.map_singleton]
    · have hnot : ¬ Hidden RepeatsFinal (sift RepeatsFinal messages) message := by
        rintro ⟨_, _, h⟩
        exact hfinal h.2.1
      rw [if_pos hfinal, if_neg hnot, List.filter_append, List.filter_cons_of_neg hfinal, List.filter_nil,
        List.append_nil]

theorem suppressed_eq (hsorted : l.Pairwise (Above collation)) :
    suppressDuplicateTaskFinalAnswers (suppressDuplicateChatFinalAnswers l) = shown (Hides collation) l := by
  have hasymm : ∀ x y, Above collation x y → ¬ Above collation y x := fun _ _ h => h.asymm
  have hchat : sift RepeatsStream l = shown (fun k x => Above collation k x ∧ RepeatsStream k x) l :=
    sift_eq_shown (fun _ _ _ h h' => absurd h h'.unrepeated) hasymm hsorted
  have hrest : (shown (fun k x => Above collation k x ∧ RepeatsStream k x) l).Pairwise (Above collation) :=
    hsorted.sublist List.filter_sublist
  rw [suppressDuplicateChatFinalAnswers_eq, suppressDuplicateTaskFinalAnswers_eq, hchat,
    sift_eq_shown (fun _ _ _ h h' => h.trans h') hasymm hrest]
  exact shown_shown fun k x y h h' => h.2.not_final.1 h'.2

/-! ## merges -/

theorem byId_nodup (base additions : List Message) : ((byId base additions).map (·.messageId)).Nodup :=
  overlay_nodup overlay_nil_nodup

theorem mem_byId : x ∈ byId base additions ↔
    x ∈ byId [] additions ∨ x ∈ byId [] base ∧ x.messageId ∉ additions.map (·.messageId) :=
  mem_overlay overlay_nil_nodup

theorem mem_of_mem_byId (h : x ∈ byId base additions) : x ∈ base ∨ x ∈ additions := by
  have hone {l : List Message} (h : x ∈ byId [] l) : x ∈ l := by
    obtain ⟨earlier, later, rfl, -⟩ := mem_overlay_nil.mp h
    exact List.mem_append_right _ List.mem_cons_self
  rcases mem_byId.mp h with h | ⟨h, -⟩
  · exact Or.inr (hone h)
  · exact Or.inl (hone h)

theorem TellsApart.mono (h : TellsApart collation l) {l' : List Message} (hsub : ∀ x ∈ l', x ∈ l) :
    TellsApart collation l' := fun x hx y hy => h x (hsub x hx) y (hsub y hy)

theorem TellsApart.byId (h : TellsApart collation (base ++ additions)) :
    TellsApart collation (byId base additions) :=
  h.mono fun _ hx => List.mem_append.mpr (mem_of_mem_byId hx)

/-- **a merge shows the messages that no other one hides** -/
theorem mergeMessages_eq (htells : TellsApart collation (base ++ additions)) :
    mergeMessages collation base additions =
      shown (Hides collation) (sortForDisplay collation (byId base additions)) :=
  suppressed_eq (sortForDisplay_sorted htells.byId (byId_nodup base additions))

theorem mem_mergeMessages (htells : TellsApart collation (base ++ additions)) :
    x ∈ mergeMessages collation base additions ↔ x ∈ shown (Hides collation) (byId base additions) := by
  rw [mergeMessages_eq htells]
  exact mem_shown_congr fun y => List.mem_insertionSort _

theorem mergeMessages_congr {base' additions' : List Message} (htells : TellsApart collation (base ++ additions))
    (htells' : TellsApart collation (base' ++ additions'))
    (h : ∀ x, x ∈ shown (Hides collation) (byId base additions) ↔
      x ∈ shown (Hides collation) (byId base' additions')) :
    mergeMessages collation base additions = mergeMessages collation base' additions' := by
  have hsorted {base additions : List Message} (htells : TellsApart collation (base ++ additions)) :
      (mergeMessages collation base additions).Pairwise (Above collation) := by
    rw [mergeMessages_eq htells]
    exact (sortForDisplay_sorted htells.byId (byId_nodup _ _)).sublist List.filter_sublist
  apply List.Pairwise.eq_of_mem_iff (hsorted htells) (hsorted htells')
  intro x
  rw [mem_mergeMessages htells, mem_mergeMessages htells', h]

theorem mergeMessages_subset (htells : TellsApart collation (base ++ additions)) :
    mergeMessages collation base additions ⊆ byId base additions := fun _ h =>
  (mem_shown.mp ((mem_mergeMessages htells).mp h)).1

theorem length_mergeMessages (htells : TellsApart collation (base ++ additions)) :
    (mergeMessages collation base additions).length ≤ (byId base additions).length := by
  rw [mergeMessages_eq htells]
  have hlength := List.length_insertionSort (fun left right => compareMessagesForDisplay collation left right ≠ .gt)
    (byId base additions)
  exact (List.length_filter_le _ _).trans_eq hlength

theorem mergeMessages_ids (htells : TellsApart collation (base ++ additions)) :
    ((mergeMessages collation base additions).map (·.messageId)).Nodup := by
  have hsorted : ((sortForDisplay collation (byId base additions)).map (·.messageId)).Nodup :=
    ((List.perm_insertionSort _ _).map _).nodup_iff.mpr (byId_nodup base additions)
  rw [mergeMessages_eq htells]
  exact hsorted.sublist (List.filter_sublist.map _)

/-! ## the buffer -/

/-- the last version of each message -/
def latest (live : List Message) : List Message := byId [] live

/-- a buffer after some live messages -/
def buffer (collation : Collation) (live : List Message) : List Message :=
  live.foldl (fun current message =>
    limitMessages (mergeMessages collation current [message]) liveMessageBufferLimit) []

/-- a message that takes the place of another version leaves every other hidden one hidden -/
def KeepsHidden (collation : Collation) (live : List Message) : Prop :=
  ∀ old message, old ++ [message] <+: live → ∀ x ∈ latest old, x.messageId ≠ message.messageId →
    Hidden (Hides collation) (latest old) x → Hidden (Hides collation) (latest (old ++ [message])) x

theorem latest_concat (old : List Message) (message : Message) :
    latest (old ++ [message]) = put (·.messageId) (latest old) message := overlay_concat [] old message

theorem mem_latest_concat {old : List Message} {message : Message} : x ∈ latest (old ++ [message]) ↔
    x = message ∨ x ∈ latest old ∧ x.messageId ≠ message.messageId := by
  rw [latest_concat]
  exact mem_put overlay_nil_nodup

theorem latest_subset (live : List Message) : ∀ x ∈ latest live, x ∈ live := fun _ hx =>
  (mem_of_mem_byId hx).elim (fun h => absurd h List.not_mem_nil) id

theorem mem_byId_singleton {message : Message} (hnodup : (base.map (·.messageId)).Nodup) :
    x ∈ byId base [message] ↔ x = message ∨ x ∈ base ∧ x.messageId ≠ message.messageId := by
  have hself : x ∈ byId [] [message] ↔ x = message := List.mem_singleton
  have hbase : x ∈ byId [] base ↔ x ∈ base := mem_overlay_nil_of_nodup hnodup
  rw [mem_byId, hself, hbase, List.map_singleton, List.mem_singleton]

/-- **the buffer holds what one merge of all its messages shows**, as long as hidden ones stay hidden -/
theorem buffer_eq (htells : TellsApart collation live) (hlimit : (latest live).length ≤ liveMessageBufferLimit)
    (hkeeps : KeepsHidden collation live) : buffer collation live = mergeMessages collation [] live := by
  induction live using List.reverseRecOn with
  | nil => rfl
  | append_singleton old message ih =>
    have hold : TellsApart collation old := htells.mono fun x hx => List.mem_append_left _ hx
    have hshorter : (latest old).length ≤ (latest (old ++ [message])).length := by
      rw [latest_concat]
      exact length_put _ _
    have hbuffer := ih hold (hshorter.trans hlimit) fun old' message' hfront =>
      hkeeps old' message' (hfront.trans (List.prefix_append _ _))
    have hsub : mergeMessages collation [] old ⊆ latest old := mergeMessages_subset hold
    have htells' : TellsApart collation (mergeMessages collation [] old ++ [message]) := htells.mono fun x hx =>
      (List.mem_append.mp hx).elim (fun h => List.mem_append_left _ (latest_subset old x (hsub h)))
        fun h => List.mem_append_right _ h
    have hnodup : ((mergeMessages collation [] old).map (·.messageId)).Nodup := @mergeMessages_ids _ [] old hold
    have hmerge : mergeMessages collation (mergeMessages collation [] old) [message] =
        mergeMessages collation [] (old ++ [message]) := by
      apply mergeMessages_congr htells' (show TellsApart collation ([] ++ (old ++ [message])) from htells)
      intro x
      apply mem_shown_of_subset (hides_irrefl collation) (hides_trans collation)
      · intro y hy
        rcases (mem_byId_singleton hnodup).mp hy with rfl | ⟨hy, hne⟩
        · exact mem_latest_concat.mpr (Or.inl rfl)
        · exact mem_latest_concat.mpr (Or.inr ⟨hsub hy, hne⟩)
      · intro y hy hnot
        rcases mem_latest_concat.mp hy with rfl | ⟨hy, hne⟩
        · exact absurd ((mem_byId_singleton hnodup).mpr (Or.inl rfl)) hnot
        · refine hkeeps old message List.prefix_rfl y hy hne ?_
          by_contra hshown
          have hmem : y ∈ mergeMessages collation [] old :=
            (mem_mergeMessages hold).mpr (mem_shown.mpr ⟨hy, hshown⟩)
          exact hnot ((mem_byId_singleton hnodup).mpr (Or.inr ⟨hmem, hne⟩))
    have hfits : (mergeMessages collation [] (old ++ [message])).length ≤ liveMessageBufferLimit :=
      (@length_mergeMessages _ [] (old ++ [message]) htells).trans hlimit
    unfold buffer at hbuffer ⊢
    rw [List.foldl_append, List.foldl_cons, List.foldl_nil, hbuffer, hmerge, limitMessages, if_pos hfits]

/-! ## the page below the buffer -/

/-- the fetched version of a message whose live version is hidden is hidden as well -/
def PageKeepsHidden (collation : Collation) (page live : List Message) : Prop :=
  ∀ y ∈ latest page, (∃ x ∈ latest live, x.messageId = y.messageId ∧ Hidden (Hides collation) (latest live) x) →
    Hidden (Hides collation) (byId page live) y

theorem merge_shown_live (htells : TellsApart collation (page ++ live)) (hpage : PageKeepsHidden collation page live) :
    mergeMessages collation page (mergeMessages collation [] live) = mergeMessages collation page live := by
  have hlive : TellsApart collation live := htells.mono fun x hx => List.mem_append_right _ hx
  have hsub : mergeMessages collation [] live ⊆ latest live := mergeMessages_subset hlive
  have htells' : TellsApart collation (page ++ mergeMessages collation [] live) := htells.mono fun x hx =>
    (List.mem_append.mp hx).elim (List.mem_append_left _)
      fun h => List.mem_append_right _ (latest_subset live x (hsub h))
  have hnodup : ((mergeMessages collation [] live).map (·.messageId)).Nodup := @mergeMessages_ids _ [] live hlive
  have hshown (y : Message) : y ∈ mergeMessages collation [] live ↔
      y ∈ latest live ∧ ¬ Hidden (Hides collation) (latest live) y :=
    (mem_mergeMessages hlive).trans mem_shown
  have hown (y : Message) : y ∈ byId [] (mergeMessages collation [] live) ↔ y ∈ mergeMessages collation [] live :=
    mem_overlay_nil_of_nodup hnodup
  have hlatest : latest live ⊆ byId page live := fun y hy => mem_byId.mpr (Or.inl hy)
  apply mergeMessages_congr htells' htells
  intro x
  apply mem_shown_of_agree (hides_irrefl collation) (hides_trans collation)
  · intro y hy hnot
    rcases mem_byId.mp hy with hy | ⟨hy, hid⟩
    · exact absurd (hlatest (hsub ((hown y).mp hy))) hnot
    · apply hpage y hy
      have hlater : y.messageId ∈ live.map (·.messageId) := by
        by_contra habsent
        exact hnot (mem_byId.mpr (Or.inr ⟨hy, habsent⟩))
      obtain ⟨z, hz, hzid⟩ := List.mem_map.mp ((keys_overlay_nil live y.messageId).mpr hlater)
      refine ⟨z, hz, hzid, ?_⟩
      by_contra hzshown
      exact hid (List.mem_map.mpr ⟨z, (hshown z).mpr ⟨hz, hzshown⟩, hzid⟩)
  · intro y hy hnot
    rcases mem_byId.mp hy with hy | ⟨hy, hid⟩
    · have hhidden : Hidden (Hides collation) (latest live) y := by
        by_contra hyshown
        exact hnot (mem_byId.mpr (Or.inl ((hown y).mpr ((hshown y).mpr ⟨hy, hyshown⟩))))
      exact hhidden.mono hlatest
    · refine absurd (mem_byId.mpr (Or.inr ⟨hy, fun hid' => hid ?_⟩)) hnot
      obtain ⟨z, hz, hzid⟩ := List.mem_map.mp hid'
      exact hzid ▸ List.mem_map_of_mem (latest_subset live z (hsub hz))

/-! ## runs -/

/-- the message of a container that came with an event -/
def Arrival.liveIn (containerId : String) : Arrival → Option Message
  | .live message => if message.containerId = containerId then some message else none
  | .page .. => none

def liveOf (containerId : String) (arrivals : List Arrival) : List Message :=
  arrivals.filterMap (Arrival.liveIn containerId)

/-- the page of a container after an arrival -/
def Arrival.pageIn (containerId : String) (page : List Message) : Arrival → List Message
  | .page fetchedId items => if fetchedId = containerId then items else page
  | .live _ => page

/-- the last page of a container -/
def pageOf (containerId : String) (arrivals : List Arrival) : List Message :=
  arrivals.foldl (Arrival.pageIn containerId) []

/-- the last version of a message in a list -/
def LastIn (messages : List Message) (x : Message) : Prop :=
  ∃ earlier later, messages = earlier ++ x :: later ∧ x.messageId ∉ later.map (·.messageId)

/-- the last version of a message: the last one that came with an event, or else the one on the page -/
def LastVersion (arrivals : List Arrival) (containerId : String) (x : Message) : Prop :=
  LastIn (liveOf containerId arrivals) x ∨
    LastIn (pageOf containerId arrivals) x ∧ x.messageId ∉ (liveOf containerId arrivals).map (·.messageId)

theorem lastVersion_iff {arrivals : List Arrival} {containerId : String} : LastVersion arrivals containerId x ↔
    x ∈ byId (pageOf containerId arrivals) (liveOf containerId arrivals) := by
  rw [mem_byId]
  exact or_congr mem_overlay_nil.symm (and_congr_left' mem_overlay_nil.symm)

theorem pages_run (arrivals : List Arrival) (containerId : String) :
    (State.run collation arrivals).pages containerId = pageOf containerId arrivals := by
  induction arrivals using List.reverseRecOn with
  | nil => rfl
  | append_singleton arrivals arrival ih =>
    unfold State.run pageOf at *
    rw [List.foldl_append, List.foldl_append, List.foldl_cons, List.foldl_cons, List.foldl_nil, List.foldl_nil, ← ih]
    cases arrival with
    | live message => rfl
    | page fetchedId items =>
      rw [State.step, Arrival.pageIn]
      dsimp only
      by_cases hid : fetchedId = containerId
      · rw [hid, Function.update_self, if_pos rfl]
      · rw [Function.update_of_ne (Ne.symm hid), if_neg hid]

theorem live_run (arrivals : List Arrival) (containerId : String) :
    (State.run collation arrivals).liveMessagesByContainer containerId =
      buffer collation (liveOf containerId arrivals) := by
  induction arrivals using List.reverseRecOn with
  | nil => rfl
  | append_singleton arrivals arrival ih =>
    unfold State.run at *
    rw [List.foldl_append, List.foldl_cons, List.foldl_nil, liveOf, List.filterMap_append, ← liveOf]
    cases arrival with
    | page fetchedId items =>
      rw [List.filterMap_cons_none rfl, List.filterMap_nil, List.append_nil]
      exact ih
    | live message =>
      rw [State.step, appendMessageByContainer]
      dsimp only
      by_cases hid : message.containerId = containerId
      · have hlive : (Arrival.live message).liveIn containerId = some message := if_pos hid
        rw [hid, Function.update_self, List.filterMap_cons_some hlive, List.filterMap_nil, ih, buffer, buffer,
          List.foldl_append, List.foldl_cons, List.foldl_nil]
      · have hother : (Arrival.live message).liveIn containerId = none := if_neg hid
        rw [Function.update_of_ne (Ne.symm hid), List.filterMap_cons_none hother, List.filterMap_nil,
          List.append_nil]
        exact ih

/-- **as long as hidden answers stay hidden, what is shown is one merge of the last version of each message** -/
theorem sortedMessages_eq (collation : Collation) (arrivals : List Arrival) (containerId : String)
    (versions : List Message) (hone : (versions.map (·.messageId)).Nodup)
    (hlast : ∀ x, x ∈ versions ↔ LastVersion arrivals containerId x)
    (htells : TellsApart collation (pageOf containerId arrivals ++ liveOf containerId arrivals))
    (hlimit : (latest (liveOf containerId arrivals)).length ≤ liveMessageBufferLimit)
    (hkeeps : KeepsHidden collation (liveOf containerId arrivals))
    (hpage : PageKeepsHidden collation (pageOf containerId arrivals) (liveOf containerId arrivals)) :
    (State.run collation arrivals).sortedMessages collation containerId = mergeMessages collation [] versions := by
  have hlive : TellsApart collation (liveOf containerId arrivals) := htells.mono fun x hx =>
    List.mem_append_right _ hx
  have hmem (x : Message) : x ∈ byId (pageOf containerId arrivals) (liveOf containerId arrivals) ↔
      x ∈ byId [] versions := by
    have hversions : x ∈ byId [] versions ↔ x ∈ versions := mem_overlay_nil_of_nodup hone
    rw [hversions, hlast, lastVersion_iff]
  have htells' : TellsApart collation ([] ++ versions) := htells.mono fun x hx =>
    List.mem_append.mpr (mem_of_mem_byId ((hmem x).mpr ((mem_overlay_nil_of_nodup hone).mpr hx)))
  rw [State.sortedMessages, pages_run, live_run, buffer_eq hlive hlimit hkeeps, merge_shown_live htells hpage]
  exact mergeMessages_congr htells htells' fun x => mem_shown_congr hmem

/-- a message of a chat, with what duplicates are told by -/
def chatMessage (messageId sourceKind bodyText : String) (createdAtMs updatedAtMs : Nat) : Message where
  messageId := messageId
  workspaceUid := "workspace"
  containerId := "container"
  lane := .chat
  role := .assistant
  messageType := .text
  status := "completed"
  title := none
  bodyText := some bodyText
  bodyJson := .obj []
  cardJson := .obj []
  chatThreadId := some "chat"
  taskId := none
  jobId := none
  sourceKind := sourceKind
  sourceRef := ""
  sourceSeq := none
  createdAtMs := createdAtMs
  updatedAtMs := updatedAtMs
  sortKey := messageId

/-- strings compared by their characters -/
def Collation.byCharacters : Collation := ⟨compare, inferInstance⟩

def answerText : String := "An answer that is long enough to be told from others."

/-- an answer that is streamed and then stored -/
def streamedAndStored : List Arrival :=
  [.live (chatMessage "1" "model_stream" "An ans" 1 1), .page "container" [chatMessage "2" "chat_truth" answerText 2 2],
    .live (chatMessage "1" "model_stream" answerText 1 3), .live (chatMessage "2" "chat_truth" answerText 2 2)]

theorem tellsApart_byCharacters (messages : List Message) : TellsApart .byCharacters messages :=
  fun x _ y _ h => Std.LawfulEqCmp.eq_of_compare (show compare x.messageId y.messageId = .eq from h)

theorem not_hidden_singleton (h : x ∈ [k]) : ¬ Hidden (Hides collation) [k] x := by
  rintro ⟨k', hk', hhides⟩
  rw [List.mem_singleton] at h hk'
  subst h hk'
  exact hides_irrefl collation _ hhides

theorem sortedMessages_eq_streamed :
    (State.run .byCharacters streamedAndStored).sortedMessages .byCharacters "container" =
      mergeMessages .byCharacters [] [chatMessage "2" "chat_truth" answerText 2 2,
        chatMessage "1" "model_stream" answerText 1 3] := by
  refine sortedMessages_eq .byCharacters streamedAndStored "container" _ (by decide) (fun x => ?_)
    (tellsApart_byCharacters _) (by decide +kernel) ?_ ?_
  · have hversions : byId (pageOf "container" streamedAndStored) (liveOf "container" streamedAndStored) =
        [chatMessage "2" "chat_truth" answerText 2 2, chatMessage "1" "model_stream" answerText 1 3] := by
      decide +kernel
    rw [← hversions]
    exact lastVersion_iff.symm
  · intro old message hfront y hy hne hhidden
    have hlive : liveOf "container" streamedAndStored = [chatMessage "1" "model_stream" "An ans" 1 1,
        chatMessage "1" "model_stream" answerText 1 3, chatMessage "2" "chat_truth" answerText 2 2] := rfl
    rw [hlive] at hfront
    have honly : latest old = [] ∨ ∃ k, latest old = [k] := by
      rcases old with _ | ⟨first, _ | ⟨second, _ | ⟨third, rest⟩⟩⟩
      · exact Or.inl rfl
      · exact Or.inr ⟨first, rfl⟩
      · rw [List.cons_append, List.cons_append, List.cons_prefix_cons, List.cons_prefix_cons] at hfront
        obtain ⟨rfl, rfl, -⟩ := hfront
        exact Or.inr ⟨_, rfl⟩
      · have hlength := hfront.length_le
        simp only [List.length_append, List.length_cons, List.length_nil] at hlength
        omega
    rcases honly with hnone | ⟨k, hk⟩
    · rw [hnone] at hy
      cases hy
    · rw [hk] at hy hhidden
      exact absurd hhidden (not_hidden_singleton hy)
  · intro y hy _
    have hpage : y ∈ [chatMessage "2" "chat_truth" answerText 2 2] := hy
    rw [List.mem_singleton] at hpage
    subst hpage
    decide +kernel

/-! ## times -/

/-- every version of a message of a container that arrived -/
def received (containerId : String) (arrivals : List Arrival) : List Message :=
  arrivals.flatMap fun
    | .page fetchedId items => if fetchedId = containerId then items else []
    | .live message => if message.containerId = containerId then [message] else []

/-- the versions of a message have different times -/
def DistinctTimes (messages : List Message) : Prop :=
  ∀ x ∈ messages, ∀ y ∈ messages, x.messageId = y.messageId → x.updatedAtMs = y.updatedAtMs → x = y

def NewestVersion (arrivals : List Arrival) (containerId : String) (x : Message) : Prop :=
  x ∈ received containerId arrivals ∧
    ∀ y ∈ received containerId arrivals, y.messageId = x.messageId → y.updatedAtMs ≤ x.updatedAtMs

/-- what is shown is one merge of the newest version of each message -/
def ShowsNewest (collation : Collation) (arrivals : List Arrival) (containerId : String) : Prop :=
  ∀ versions : List Message, (versions.map (·.messageId)).Nodup →
    (∀ x, x ∈ versions ↔ NewestVersion arrivals containerId x) →
      (State.run collation arrivals).sortedMessages collation containerId = mergeMessages collation [] versions

/-- a message whose older version arrives after the newer one -/
def staleLast : List Arrival :=
  [.live (chatMessage "1" "model_stream" answerText 1 20), .live (chatMessage "1" "model_stream" "An ans" 1 10)]

/-- **the last version is shown, not the newest** -/
theorem stale_version_shown : ¬ ∀ (collation : Collation) (arrivals : List Arrival) (containerId : String),
    TellsApart collation (received containerId arrivals) → DistinctTimes (received containerId arrivals) →
      (latest (received containerId arrivals)).length ≤ liveMessageBufferLimit →
        ShowsNewest collation arrivals containerId := by
  intro hall
  have hreceived : received "container" staleLast =
      [chatMessage "1" "model_stream" answerText 1 20, chatMessage "1" "model_stream" "An ans" 1 10] := rfl
  have hdistinct : DistinctTimes (received "container" staleLast) := by
    unfold DistinctTimes
    decide +kernel
  have hshows := hall .byCharacters staleLast "container" (tellsApart_byCharacters _) hdistinct (by decide +kernel)
  refine absurd (hshows [chatMessage "1" "model_stream" answerText 1 20] (by decide) fun x => ?_) (by decide +kernel)
  unfold NewestVersion
  rw [hreceived, List.mem_singleton, List.mem_cons, List.mem_singleton, List.forall_mem_cons, List.forall_mem_singleton]
  constructor
  · rintro rfl
    exact ⟨Or.inl rfl, fun _ => le_rfl, fun _ => by decide⟩
  · rintro ⟨rfl | rfl, hnewest, -⟩
    · rfl
    · exact absurd (hnewest rfl) (by decide)

end Workbench

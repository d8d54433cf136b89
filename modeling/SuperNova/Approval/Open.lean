import SuperNova.Approval.Once
import SuperNova.Context.Previews
import SuperNova.Gate.Closure

/-!
# Open previews

Three folds of the log say which previews wait for an approval: the closure gate, the state of the task
and the approval runtime itself.

* `Agree`: they name the same previews;
* `tables_run`: what the state of the task knows after a run;
* `agree_of_run` (**main**): they agree in every run in which no two previews have an id from one
  millisecond and no approval stops between its two events;
* `half_approval`: an approval that stops there.
-/

set_option linter.unusedSectionVars false

namespace Approval

open Text Workspace Os FileTree Context

/-! ## what is promised -/

/-- a preview of this id was created, and a token can be issued for it -/
def Issuable (rt : Runtime) (first second : Nat) (note : String) (log : List Event)
    (previewId : String) : Prop :=
  (∃ event ∈ log, event.eventType = "preview_tx_created" ∧
    event.data.strAt? "preview_id" = some previewId) ∧
      ∃ t, issueToken rt.render first second log (some previewId) note = .ok t

/-- the gate, the state of the task and the runtime name the same previews -/
def Agree (rt : Runtime) (log : List Event) : Prop :=
  ∀ previewId first second note,
    (previewId ∈ Gate.pendingApprovals log ↔ previewId ∈ activePreviewIds (replayPreviews log)) ∧
      (previewId ∈ Gate.pendingApprovals log ↔ Issuable rt first second note log previewId)

/-! ## the tables of the task -/

/-- a token names the transaction, or is about to -/
def Resolved (s : State) (txId : String) : Prop :=
  ∃ t, (t ∈ s.approved ∨ t ∈ s.tokens) ∧ t.txId = txId

/-- the tables know the previews, and which of them are not resolved -/
structure TableOf (tables : PreviewTables) (s : State) : Prop where
  previews : ∀ p ∈ s.previews, ∃ tx, tables.previewTxs.get? p.txId = some tx ∧
    tx.previewId = p.previewId ∧ (tx.status = "created" ↔ ¬ Resolved s p.txId)
  known : ∀ txId tx, tables.previewTxs.get? txId = some tx → ∃ p ∈ s.previews, p.txId = txId
  tokens : ∀ id token, tables.tokens.get? id = some token → ∃ t ∈ s.tokens, t.txId = token.txId

section
variable {rt : Runtime} {s s' : State} {moves : List Move} {tables : PreviewTables} {event : Event}
  {txId status : String}

theorem TableOf.mark (h : TableOf tables s) (hstatus : status ≠ "created")
    (hpreviews : s'.previews = s.previews) (htokens : ∀ t ∈ s.tokens, t ∈ s'.tokens)
    (hresolved : ∀ x, Resolved s' x ↔ Resolved s x ∨ x = txId) :
    TableOf (tables.mark txId status) s' where
  previews p hp := by
    obtain ⟨tx, htx, hid, hcreated⟩ := h.previews p (hpreviews ▸ hp)
    rw [mark_get?, hresolved]
    by_cases hmark : p.txId = txId
    · rw [if_pos hmark, htx]
      refine ⟨{ tx with status := status }, rfl, hid, ?_⟩
      exact iff_of_false hstatus fun hne => hne (Or.inr hmark)
    · rw [if_neg hmark, htx]
      refine ⟨tx, rfl, hid, hcreated.trans (not_congr ?_)⟩
      exact ⟨Or.inl, fun hor => hor.resolve_right hmark⟩
  known x tx hx := by
    rw [hpreviews]
    rw [mark_get?] at hx
    split at hx
    · obtain ⟨tx', htx', -⟩ := Option.map_eq_some_iff.mp hx
      exact h.known x tx' htx'
    · exact h.known x tx hx
  tokens id token htoken := by
    obtain ⟨t, ht, htx⟩ := h.tokens id token htoken
    exact ⟨t, htokens t ht, htx⟩

theorem TableOf.setTokens (h : TableOf tables s) {tokens : Table String ApprovalTokenState}
    (htokens : ∀ id token, tokens.get? id = some token → ∃ t ∈ s.tokens, t.txId = token.txId) :
    TableOf { tables with tokens := tokens } s := ⟨h.previews, h.known, htokens⟩

theorem fold_quiet (h : event.eventType ∉ tellingTypes) : tables.fold event = tables := by
  unfold PreviewTables.fold
  simp only [tellingTypes, List.mem_cons, List.not_mem_nil, or_false, not_or] at h
  obtain ⟨h1, h2, h3, h4, h5, h6⟩ := h
  split
  · exact absurd ‹_› h1
  · exact absurd ‹_› h2
  · exact absurd ‹_› h3
  · exact absurd ‹_› h4
  · exact absurd ‹_› h5
  · exact absurd ‹_› h6
  · rfl

theorem TableOf.create (h : TableOf tables s) {p : PreviewTx} (hs : Sound rt s)
    (hnamed : ∃ m n, p.previewId = previewName m ∧ p.txId = txName n)
    (hfresh : p.txId ∉ s.previews.map (·.txId)) :
    TableOf (tables.fold ⟨"preview_tx_created", p.toJson⟩)
      { s with log := s.log ++ [⟨"preview_tx_created", p.toJson⟩], previews := s.previews ++ [p] } := by
  obtain ⟨m, n, hm, hn⟩ := hnamed
  have hnames : p.txId ≠ "" ∧ p.previewId ≠ "" := by
    rw [hm, hn, previewName, txName]
    constructor
    · intro e
      exact absurd (String.append_eq_empty_iff.mp e).1 (by decide)
    · intro e
      exact absurd (String.append_eq_empty_iff.mp e).1 (by decide)
  have hfold : tables.fold ⟨"preview_tx_created", p.toJson⟩ =
      { tables with previewTxs := tables.previewTxs.insert p.txId ⟨p.txId, p.previewId, "created"⟩ } :=
    if_pos hnames
  rw [hfold]
  refine ⟨fun q hq => ?_, fun x tx hx => ?_, h.tokens⟩
  · rcases List.mem_append.mp hq with hq | hq
    · have hne : q.txId ≠ p.txId := fun e => hfresh (List.mem_map.mpr ⟨q, hq, e⟩)
      rw [Table.get?_insert, if_neg hne]
      exact h.previews q hq
    · rw [List.mem_singleton.mp hq, Table.get?_insert, if_pos rfl]
      refine ⟨_, rfl, rfl, iff_of_true rfl ?_⟩
      rintro ⟨t, ht, htx⟩
      obtain ⟨q', hq', _, _, _, rfl⟩ := hs.ofPreview t ht
      exact hfresh (List.mem_map.mpr ⟨q', hq', htx⟩)
  · rw [Table.get?_insert] at hx
    split at hx
    · rename_i hkey
      exact ⟨p, List.mem_append_right _ (List.mem_singleton_self _), hkey.symm⟩
    · obtain ⟨q, hq, hkey⟩ := h.known x tx hx
      exact ⟨q, List.mem_append_left _ hq, hkey⟩

theorem resolved_approve {x : String} (log : List Event) (t : ApprovalTokenRecord) :
    Resolved { s with log := log, approved := s.approved ++ [t] } x ↔ Resolved s x ∨ x = t.txId := by
  simp only [Resolved, List.mem_append, List.mem_singleton]
  constructor
  · rintro ⟨t', (ht' | rfl) | ht', hx⟩
    · exact Or.inl ⟨t', Or.inl ht', hx⟩
    · exact Or.inr hx.symm
    · exact Or.inl ⟨t', Or.inr ht', hx⟩
  · rintro (⟨t', ht' | ht', hx⟩ | rfl)
    · exact ⟨t', Or.inl (Or.inl ht'), hx⟩
    · exact ⟨t', Or.inr ht', hx⟩
    · exact ⟨t, Or.inl (Or.inr rfl), rfl⟩

theorem resolved_issue {x : String} (log : List Event) (t : ApprovalTokenRecord) :
    Resolved { s with log := log, tokens := s.tokens ++ [t] } x ↔ Resolved s x ∨ x = t.txId := by
  simp only [Resolved, List.mem_append, List.mem_singleton]
  constructor
  · rintro ⟨t', ht' | ht' | rfl, hx⟩
    · exact Or.inl ⟨t', Or.inl ht', hx⟩
    · exact Or.inl ⟨t', Or.inr ht', hx⟩
    · exact Or.inr hx.symm
  · rintro (⟨t', ht' | ht', hx⟩ | rfl)
    · exact ⟨t', Or.inl ht', hx⟩
    · exact ⟨t', Or.inr (Or.inl ht'), hx⟩
    · exact ⟨t, Or.inr (Or.inr rfl), rfl⟩

theorem resolved_again {t : ApprovalTokenRecord} {x : String} (ht : t ∈ s.tokens) (htx : t.txId = txId) :
    Resolved s x ↔ Resolved s x ∨ x = txId :=
  ⟨Or.inl, fun hor => hor.elim id fun hx => ⟨t, Or.inr ht, htx.trans hx.symm⟩⟩

theorem TableOf.issue (h : TableOf tables s) {t : ApprovalTokenRecord}
    (ht : ∃ p ∈ s.previews, ∃ m n note, t = tokenOf rt.render m n p note) :
    TableOf (tables.fold ⟨"approval_token_issued", t.toJson⟩)
      { s with log := s.log ++ [⟨"approval_token_issued", t.toJson⟩], tokens := s.tokens ++ [t] } := by
  have hname : stringField t.toJson "approval_token_id" ≠ "" := by
    obtain ⟨p, -, m, n, note, rfl⟩ := ht
    intro e
    rw [stringField] at e
    have e' : "approval_" ++ safeBlobName p.previewId ++ "_" ++ toString m = "" := e
    rw [String.append_eq_empty_iff, String.append_eq_empty_iff, String.append_eq_empty_iff] at e'
    exact absurd e'.1.1.1 (by decide)
  have hfold : tables.fold ⟨"approval_token_issued", t.toJson⟩ =
      { tables.mark t.txId "approved" with
        tokens := tables.tokens.insert t.approvalTokenId ⟨t.approvalTokenId, t.txId, "active"⟩ } := if_pos hname
  rw [hfold]
  have happroved : "approved" ≠ "created" := by decide
  have hmark : TableOf (tables.mark t.txId "approved") { s with
      log := s.log ++ [⟨"approval_token_issued", t.toJson⟩], tokens := s.tokens ++ [t] } :=
    h.mark happroved rfl (fun t ht => List.mem_append_left _ ht) fun x => resolved_issue _ t
  refine hmark.setTokens fun id token htoken => ?_
  rw [Table.get?_insert] at htoken
  split at htoken
  · cases htoken
    exact ⟨t, List.mem_append_right _ (List.mem_singleton_self _), rfl⟩
  · obtain ⟨t', ht', hx⟩ := h.tokens id token htoken
    exact ⟨t', List.mem_append_left _ ht', hx⟩

theorem TableOf.use (h : TableOf tables s) {id : String}
    (htype : event.eventType = "approval_token_consumed" ∨ event.eventType = "approval_token_used")
    (hid : event.data.strAt? "approval_token_id" = some id) :
    TableOf (tables.fold event) { s with log := s.log ++ [event], used := s.used ++ [id] } := by
  have hname : stringField event.data "approval_token_id" = id := by rw [stringField, hid]; rfl
  cases htoken : tables.tokens.get? id with
  | none =>
    have hfold : tables.fold event = tables := by
      obtain ⟨eventType, data⟩ := event
      rcases htype with rfl | rfl
      · simp only [PreviewTables.fold, hname, htoken]
      · simp only [PreviewTables.fold, hname, htoken]
    rw [hfold]
    exact ⟨h.previews, h.known, h.tokens⟩
  | some token =>
    have hfold : tables.fold event =
        { tables.mark token.txId "applied" with
          tokens := tables.tokens.modify id fun token => { token with status := "consumed" } } := by
      obtain ⟨eventType, data⟩ := event
      rcases htype with rfl | rfl
      · simp only [PreviewTables.fold, hname, htoken]
      · simp only [PreviewTables.fold, hname, htoken]
    rw [hfold]
    obtain ⟨t, ht, htx⟩ := h.tokens id token htoken
    have happlied : "applied" ≠ "created" := by decide
    have hmark : TableOf (tables.mark token.txId "applied")
        { s with log := s.log ++ [event], used := s.used ++ [id] } :=
      h.mark happlied rfl (fun t ht => ht) fun x => resolved_again ht htx
    refine hmark.setTokens fun id' token' h' => ?_
    rw [Table.get?_modify] at h'
    split at h'
    · obtain ⟨old, hold, rfl⟩ := Option.map_eq_some_iff.mp h'
      exact h.tokens id' old hold
    · exact h.tokens id' token' h'

theorem TableOf.close (h : TableOf tables s) {t : ApprovalTokenRecord} (htype : event.eventType = "preview_tx_closed")
    (ht : t ∈ s.tokens) (htx : event.data.strAt? "tx_id" = some t.txId)
    (hstatus : event.data.strAt? "status" = some "applied") :
    TableOf (tables.fold event) { s with log := s.log ++ [event] } := by
  have hfold : tables.fold event = tables.mark t.txId "applied" := by
    obtain ⟨eventType, data⟩ := event
    cases htype
    simp only [PreviewTables.fold, htx, hstatus, Option.getD_some]
  rw [hfold]
  exact h.mark (by decide) rfl (fun t ht => ht) fun x => resolved_again ht rfl

theorem TableOf.append (h : TableOf (replayPreviews s.log) s) (hs : Sound rt s)
    (happend : Append rt s s') (hnodup : (s'.previews.map (·.txId)).Nodup) :
    TableOf (replayPreviews s'.log) s' := by
  cases happend with
  | quiet event hquiet =>
    rw [replayPreviews_concat, fold_quiet hquiet]
    exact ⟨h.previews, h.known, h.tokens⟩
  | create p hops hnamed =>
    rw [replayPreviews_concat]
    refine h.create hs hnamed fun hmem => ?_
    rw [List.map_append] at hnodup
    exact (List.nodup_append.mp hnodup).2.2 _ hmem _ (List.mem_singleton_self _) rfl
  | approve t ht =>
    rw [replayPreviews_concat]
    have happroved : "approved" ≠ "created" := by decide
    exact h.mark happroved rfl (fun t ht => ht) fun x => resolved_approve _ t
  | issue t hfresh ht =>
    rw [replayPreviews_concat]
    exact h.issue ht
  | use event id htype hid =>
    rw [replayPreviews_concat]
    exact h.use htype hid
  | close event t htype ht htx hpreview hstatus =>
    rw [replayPreviews_concat]
    exact h.close htype ht htx hstatus
  | tick now => exact ⟨h.previews, h.known, h.tokens⟩

theorem front_of_append (happend : Append rt s s') : s.previews <+: s'.previews := by
  cases happend with
  | create p hops hnamed => exact List.prefix_append ..
  | quiet | approve | issue | use | close | tick => exact List.prefix_rfl

theorem tables_run (happends : Appends rt State.start s) (hnodup : (s.previews.map (·.txId)).Nodup) :
    TableOf (replayPreviews s.log) s := by
  induction happends with
  | refl => exact ⟨by simp [State.start], by simp [State.start, replayPreviews, PreviewTables.initial],
      by simp [State.start, replayPreviews, PreviewTables.initial]⟩
  | tail hfirst hlast ih =>
    have hbefore := hnodup.sublist ((front_of_append hlast).sublist.map _)
    exact (ih hbefore).append (sound_start.appends hfirst) hlast hnodup

/-! ## what is open -/

theorem tokened_iff (h : Sound rt s) (hids : (s.previews.map (·.previewId)).Nodup)
    (htxs : (s.previews.map (·.txId)).Nodup) {p : PreviewTx} (hp : p ∈ s.previews) :
    p.previewId ∈ s.tokens.map (·.previewId) ↔ p.txId ∈ s.tokens.map (·.txId) := by
  have hof : ∀ t ∈ s.tokens, ∃ q ∈ s.previews, t.txId = q.txId ∧ t.previewId = q.previewId := by
    intro t ht
    obtain ⟨q, hq, _, _, _, rfl⟩ := h.ofPreview t (Or.inr ht)
    exact ⟨q, hq, rfl, rfl⟩
  rw [List.mem_map, List.mem_map]
  constructor
  · rintro ⟨t, ht, hid⟩
    obtain ⟨q, hq, htx, hpreview⟩ := hof t ht
    have hsame : q = p := List.inj_on_of_nodup_map hids hq hp (hpreview.symm.trans hid)
    exact ⟨t, ht, hsame ▸ htx⟩
  · rintro ⟨t, ht, hid⟩
    obtain ⟨q, hq, htx, hpreview⟩ := hof t ht
    have hsame : q = p := List.inj_on_of_nodup_map htxs hq hp (htx.symm.trans hid)
    exact ⟨t, ht, hsame ▸ hpreview⟩

theorem mem_pendingApprovals (h : Sound rt s) (hids : (s.previews.map (·.previewId)).Nodup)
    (htxs : (s.previews.map (·.txId)).Nodup) {x : String} :
    x ∈ Gate.pendingApprovals s.log ↔
      ∃ p ∈ s.previews, p.previewId = x ∧ p.txId ∉ s.tokens.map (·.txId) := by
  have hcreated : Gate.fieldsOf s.log "preview_tx_created" "preview_id" =
      s.previews.map (·.previewId) := by
    show (ofType s.log _).filterMap _ = _
    rw [h.created, List.filterMap_map]
    exact List.filterMap_eq_map_iff_forall_eq_some.mpr fun p hp => rfl
  have hissued : Gate.fieldsOf s.log "approval_token_issued" "preview_id" =
      s.tokens.map (·.previewId) := by
    show (ofType s.log _).filterMap _ = _
    rw [h.issued, List.filterMap_map]
    exact List.filterMap_eq_map_iff_forall_eq_some.mpr fun t ht => rfl
  have hclosed : ∀ y, y ∈ Gate.fieldsOf s.log "preview_tx_closed" "preview_id" →
      y ∈ s.tokens.map (·.previewId) := by
    intro y hy
    obtain ⟨event, hevent, hid⟩ := List.mem_filterMap.mp hy
    obtain ⟨t, ht, -, hpreview⟩ := h.closed event hevent
    rw [hpreview] at hid
    exact List.mem_map.mpr ⟨t, ht, Option.some.inj hid⟩
  have hpending : x ∈ Gate.pendingApprovals s.log ↔
      x ∈ s.previews.map (·.previewId) ∧ x ∉ s.tokens.map (·.previewId) := by
    rw [Gate.pendingApprovals, List.mem_filter, Gate.mem_textSet, hcreated, hissued]
    simp only [Bool.and_eq_true, Bool.not_eq_true', List.contains_eq_mem, decide_eq_false_iff_not]
    constructor
    · rintro ⟨hmem, hopen, -⟩
      exact ⟨hmem, hopen⟩
    · rintro ⟨hmem, hopen⟩
      exact ⟨hmem, hopen, fun hc => hopen (hclosed x hc)⟩
  rw [hpending, List.mem_map]
  constructor
  · rintro ⟨⟨p, hp, rfl⟩, hopen⟩
    exact ⟨p, hp, rfl, fun hmem => hopen ((tokened_iff h hids htxs hp).mpr hmem)⟩
  · rintro ⟨p, hp, rfl, hopen⟩
    exact ⟨⟨p, hp, rfl⟩, fun hmem => hopen ((tokened_iff h hids htxs hp).mp hmem)⟩

/-- **the three folds name the same previews, in every run in which no two previews have an id from one
millisecond and no approval stops between its two events** -/
theorem agree_of_run (hspaced : Spaced moves) (hwhole : ∀ m ∈ moves, ¬ m.Halves)
    (hrun : State.start.run rt moves = some s) : Agree rt s.log := by
  have h : Sound rt s := sound_run sound_start hrun
  have happroved : s.approved = s.tokens := approved_run hwhole rfl hrun
  have hids := (previewIds_nodup hrun).mpr hspaced.1
  have htxs := (txIds_nodup hrun).mpr hspaced.2
  have htable := tables_run (run_appends sound_start hrun) htxs
  intro x first second note
  rw [mem_pendingApprovals h hids htxs]
  constructor
  · have hresolved (txId : String) : Resolved s txId ↔ txId ∈ s.tokens.map (·.txId) := by
      simp only [Resolved, happroved, or_self, List.mem_map]
    rw [mem_activePreviewIds]
    constructor
    · rintro ⟨p, hp, hid, hopen⟩
      obtain ⟨tx, htx, hpreview, hstatus⟩ := htable.previews p hp
      exact ⟨p.txId, tx, htx, hstatus.mpr fun hr => hopen ((hresolved _).mp hr), hpreview.trans hid⟩
    · rintro ⟨txId, tx, htx, hcreated, hid⟩
      obtain ⟨p, hp, hkey⟩ := htable.known txId tx htx
      obtain ⟨tx', htx', hpreview, hstatus⟩ := htable.previews p hp
      have hsame : tx' = tx := Option.some.inj (htx'.symm.trans (hkey ▸ htx))
      rw [hsame] at hpreview hstatus
      exact ⟨p, hp, hpreview.symm.trans hid, fun hmem => hstatus.mp hcreated ((hresolved _).mpr hmem)⟩
  · have hissue {p : PreviewTx} (hp : p ∈ s.previews) := issueToken_own h happroved hids htxs hp
      (Or.inr rfl : p.previewId = p.txId ∨ p.previewId = p.previewId) first second note
    constructor
    · rintro ⟨p, hp, rfl, hopen⟩
      refine ⟨⟨⟨"preview_tx_created", p.toJson⟩, ?_, rfl, rfl⟩, _, (hissue hp _).mpr ⟨rfl, hopen⟩⟩
      have hmem : (⟨"preview_tx_created", p.toJson⟩ : Event) ∈ ofType s.log "preview_tx_created" := by
        rw [h.created]
        exact List.mem_map.mpr ⟨p, hp, rfl⟩
      exact (mem_ofType.mp hmem).1
    · rintro ⟨⟨event, hevent, htype, hid⟩, t, ht⟩
      have hmem := mem_ofType.mpr ⟨hevent, htype⟩
      rw [h.created] at hmem
      obtain ⟨p, hp, rfl⟩ := List.mem_map.mp hmem
      have hx : p.previewId = x := Option.some.inj hid
      rw [← hx] at ht
      exact ⟨p, hp, hx, ((hissue hp t).mp ht).2⟩

end

theorem agree_of_run_calm : ∃ s, State.start.run sampleRuntime (calmMoves.take 3) = some s ∧
    Gate.pendingApprovals s.log = ["preview_2"] ∧ Agree sampleRuntime s.log := by
  have hspaced : Spaced (calmMoves.take 3) := by
    constructor <;> decide
  have hwhole : ∀ m ∈ calmMoves.take 3, ¬ m.Halves := by
    rintro m hm ⟨approvalId, note, first, second, rfl⟩
    simp [calmMoves] at hm
  obtain ⟨s, hs⟩ : ∃ s, State.start.run sampleRuntime (calmMoves.take 3) = some s := ⟨_, rfl⟩
  have hpending : (State.start.run sampleRuntime (calmMoves.take 3)).map
      (fun s => Gate.pendingApprovals s.log) = some ["preview_2"] := rfl
  rw [hs] at hpending
  exact ⟨s, hs, Option.some.inj hpending, agree_of_run hspaced hwhole hs⟩

/-! ## an approval that stops -/

/-- a preview is created, and the approval of it stops before its token is on the log -/
def haltedMoves : List Move :=
  [.call (.createPreviewTx "Write a.txt, delete b.txt." writeAndDelete "low") 1 1 none,
    .call (.issueToken none "ok") 5 5 (some 1)]

/-- a preview is created, approved, and created again, all within one millisecond -/
def repeatedMoves : List Move :=
  [.call (.createPreviewTx "Write a.txt, delete b.txt." writeAndDelete "low") 1 1 none,
    .call (.issueToken none "ok") 1 1 none,
    .call (.createPreviewTx "Write a.txt, delete b.txt." writeAndDelete "low") 1 1 none]

/-- of an approval that stops, the gate waits for the preview still, and it is not issued any more; of
two previews of one millisecond, the task waits for one that was approved -/
theorem half_approval :
    (∃ s, State.start.run sampleRuntime haltedMoves = some s ∧
      Gate.pendingApprovals s.log = ["preview_1"] ∧ activePreviewIds (replayPreviews s.log) = [] ∧
      issueToken sampleRuntime.render 6 6 s.log (some "preview_1") "ok" =
        .error ⟨.notFound, "no open preview tx to approve for approval_id: preview_1"⟩ ∧
      ¬ Agree sampleRuntime s.log) ∧
    ∃ s, State.start.run sampleRuntime repeatedMoves = some s ∧
      Gate.pendingApprovals s.log = [] ∧
      activePreviewIds (replayPreviews s.log) = ["preview_1"] ∧ ¬ Agree sampleRuntime s.log := by
  refine ⟨⟨_, rfl, rfl, rfl, rfl, fun h => ?_⟩, ⟨_, rfl, rfl, rfl, fun h => ?_⟩⟩
  · have hactive := (h "preview_1" 6 6 "ok").1.mp List.mem_cons_self
    exact absurd hactive List.not_mem_nil
  · have hpending := (h "preview_1" 6 6 "ok").1.mpr List.mem_cons_self
    exact absurd hpending List.not_mem_nil

end Approval

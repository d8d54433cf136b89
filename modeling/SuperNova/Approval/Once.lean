import SuperNova.Approval.Products
import SuperNova.Approval.Runs

/-!
# Each preview is approved once

The ids of previews and tokens are made from the milliseconds of the clock.

* `Identified`: the ids of previews and tokens are distinct, a preview can be approved under its ids
  until a token names it and not after, and a token validates only before it is used;
* `identified_iff` (**main**): in every run of complete calls this holds exactly when no two previews
  read the same millisecond for an id;
* `same_millisecond`: two previews that are created within one millisecond.
-/

set_option linter.unusedSectionVars false

namespace Approval

open Text Workspace Os FileTree

/-! ## what is promised -/

/-- previews and tokens have identities, and each preview is approved once -/
structure Identified (rt : Runtime) (s : State) : Prop where
  previewIds : (s.previews.map (·.previewId)).Nodup
  txIds : (s.previews.map (·.txId)).Nodup
  tokenIds : (s.tokens.map (·.approvalTokenId)).Nodup
  named : ∀ t ∈ s.tokens, ∃ p ∈ s.previews, t.txId = p.txId ∧ t.previewId = p.previewId
  once : (s.tokens.map (·.txId)).Nodup
  /-- under either id a preview is approved, unless a token names it already -/
  issues : ∀ p ∈ s.previews, ∀ id, id = p.txId ∨ id = p.previewId → ∀ first second note t,
    issueToken rt.render first second s.log (some id) note = .ok t ↔
      t = tokenOf rt.render first second p note ∧ p.txId ∉ s.tokens.map (·.txId)
  latest : ∀ first second note t, issueToken rt.render first second s.log none note = .ok t →
    ∃ p ∈ s.previews, t = tokenOf rt.render first second p note ∧ p.txId ∉ s.tokens.map (·.txId)
  /-- what is validated under the id of a token is that token -/
  own : ∀ t ∈ s.tokens, tokenEvent s.log t.approvalTokenId =
    some ⟨"approval_token_issued", t.toJson⟩
  unused : ∀ now id capabilityId targetPaths, validateToken rt.render now (.ok s.log) id capabilityId
    targetPaths = .ok true → id ∉ s.used

/-- the call makes all its appends -/
def Move.Complete (m : Move) : Prop :=
  ∀ c first second stop, m = .call c first second stop → stop = none

/-- no two previews have an id from one millisecond -/
def Spaced (moves : List Move) : Prop :=
  ((moves.filterMap Move.creation).map (·.1)).Nodup ∧
    ((moves.filterMap Move.creation).map (·.2)).Nodup

/-! ## approved and issued -/

/-- an approval that stops before its token is on the log -/
def Move.Halves (m : Move) : Prop :=
  ∃ approvalId note first second, m = .call (.issueToken approvalId note) first second (some 1)

section
variable {rt : Runtime} {s s' : State} {m : Move} {moves : List Move}

theorem foldl_observe_tokens {answer : Answer} (hne : ∀ t, answer ≠ .token t) (events : List Event) :
    ∀ s : State, (events.foldl (State.observe answer) s).approved = s.approved ∧
      (events.foldl (State.observe answer) s).tokens = s.tokens := by
  induction events with
  | nil => exact fun _ => ⟨rfl, rfl⟩
  | cons event events ih =>
    intro s
    rw [List.foldl_cons, (ih _).1, (ih _).2]
    unfold State.observe
    split
    case h_2 => exact absurd rfl (hne _)
    case h_3 => exact absurd rfl (hne _)
    all_goals exact ⟨rfl, rfl⟩

theorem approved_step (hm : ¬ m.Halves) (h : s.approved = s.tokens)
    (hstep : s.step rt m = some s') : s'.approved = s'.tokens := by
  cases m with
  | other event =>
    simp only [State.step] at hstep
    split at hstep
    · cases hstep
    · cases hstep
      exact h
  | call c first second stop =>
    simp only [State.step] at hstep
    split at hstep
    swap
    · cases hstep
    split at hstep
    · cases hstep
      exact h
    rename_i answer events hrun
    cases hstep
    by_cases hne : ∀ t, answer ≠ .token t
    · obtain ⟨happroved, htokens⟩ := foldl_observe_tokens hne (cut stop events) s
      exact happroved.trans (h.trans htokens.symm)
    obtain ⟨t, ht⟩ := not_forall.mp hne
    rw [not_not] at ht
    subst ht
    cases c with
    | issueToken approvalId note =>
      obtain ⟨t', -, hret⟩ := Io.result_bind_ok.mp hrun
      cases hret
      rcases stop with _ | _ | _ | n
      · exact congrArg (· ++ [t]) h
      · exact h
      · exact absurd ⟨_, _, _, _, rfl⟩ hm
      · have hcut : cut (some (n + 2)) (issuedEvents t) = issuedEvents t :=
          List.take_of_length_le (by simp [issuedEvents])
        rw [hcut]
        exact congrArg (· ++ [t]) h
    | createPreviewTx _ _ _ =>
      obtain ⟨p, -, hret⟩ := Io.result_bind_ok.mp hrun
      cases hret
    | validateToken _ _ _ =>
      simp only [Call.run] at hrun
      split at hrun
      · cases hrun
      · cases hrun
    | markTokenUsed _ _ _ => cases hrun

theorem approved_run : ∀ {moves : List Move} {s : State}, (∀ m ∈ moves, ¬ m.Halves) →
    s.approved = s.tokens → s.run rt moves = some s' → s'.approved = s'.tokens := by
  intro moves
  induction moves with
  | nil =>
    intro s _ h hrun
    cases hrun
    exact h
  | cons m moves ih =>
    intro s hmoves h hrun
    obtain ⟨s1, hstep, hrest⟩ := Option.bind_eq_some_iff.mp hrun
    exact ih (fun m' hm' => hmoves m' (List.mem_cons_of_mem _ hm'))
      (approved_step (hmoves m List.mem_cons_self) h hstep) hrest

/-! ## distinct ids -/

theorem previewIds_nodup (hrun : State.start.run rt moves = some s) :
    (s.previews.map (·.previewId)).Nodup ↔ ((moves.filterMap Move.creation).map (·.1)).Nodup := by
  have hids : s.previews.map (·.previewId) =
      ((moves.filterMap Move.creation).map (·.1)).map previewName := by
    have h := congrArg (List.map Prod.fst) (previews_run hrun)
    rw [List.map_map] at h
    rw [List.map_map]
    simpa [State.start, Function.comp_def, PreviewTx.ids] using h
  rw [hids]
  exact List.nodup_map_iff fun _ _ => previewName_inj

theorem txIds_nodup (hrun : State.start.run rt moves = some s) :
    (s.previews.map (·.txId)).Nodup ↔ ((moves.filterMap Move.creation).map (·.2)).Nodup := by
  have hids : s.previews.map (·.txId) =
      ((moves.filterMap Move.creation).map (·.2)).map txName := by
    have h := congrArg (List.map Prod.snd) (previews_run hrun)
    rw [List.map_map] at h
    rw [List.map_map]
    simpa [State.start, Function.comp_def, PreviewTx.ids] using h
  rw [hids]
  exact List.nodup_map_iff fun _ _ => txName_inj

theorem tokenName_inj {a b m n : Nat}
    (h : "approval_" ++ previewName a ++ "_" ++ toString m =
      "approval_" ++ previewName b ++ "_" ++ toString n) : a = b := by
  rw [String.append_assoc, String.append_assoc, String.append_assoc, String.append_assoc] at h
  have h1 := append_left_inj h
  rw [previewName, previewName, String.append_assoc, String.append_assoc] at h1
  have h2 := congrArg (splitOn '_') (append_left_inj h1)
  have hdigits (k : Nat) : '_' ∉ (toString k).toList := by
    rw [Nat.toString_eq_ofList_toDigits, String.toList_ofList]
    exact Nat.underscore_not_in_toDigits
  have hsplit (k l : Nat) : splitOn '_' (toString k ++ ("_" ++ toString l)) =
      [toString k, toString l] := by
    rw [← String.append_assoc]
    exact splitOn_pair (hdigits k) (hdigits l)
  rw [hsplit, hsplit] at h2
  exact toString_inj (List.cons.inj h2).1

theorem find?_unique {α : Type} {l : List α} {test : α → Bool} {a : α} (ha : a ∈ l)
    (htest : test a = true) (hunique : ∀ b ∈ l, test b = true → b = a) : l.find? test = some a := by
  cases hfind : l.find? test with
  | none => exact absurd htest (List.find?_eq_none.mp hfind a ha)
  | some b => rw [hunique b (List.mem_of_find?_eq_some hfind) (List.find?_some hfind)]

theorem txId_of_tokenId (h : Sound rt s) (hids : (s.previews.map (·.previewId)).Nodup)
    {t t' : ApprovalTokenRecord} (ht : t ∈ s.tokens) (ht' : t' ∈ s.tokens)
    (heq : t.approvalTokenId = t'.approvalTokenId) : t.txId = t'.txId := by
  obtain ⟨p, hp, m, n, note, rfl⟩ := h.ofPreview t (Or.inr ht)
  obtain ⟨p', hp', m', n', note', rfl⟩ := h.ofPreview t' (Or.inr ht')
  obtain ⟨a, b, hid, -⟩ := h.named p hp
  obtain ⟨a', b', hid', -⟩ := h.named p' hp'
  have hname : "approval_" ++ previewName a ++ "_" ++ toString m =
      "approval_" ++ previewName a' ++ "_" ++ toString m' := by
    have hsafe := safeBlobName_of_safe (safeName_previewName a)
    have hsafe' := safeBlobName_of_safe (safeName_previewName a')
    have heq' : "approval_" ++ safeBlobName p.previewId ++ "_" ++ toString m =
      "approval_" ++ safeBlobName p'.previewId ++ "_" ++ toString m' := heq
    rw [hid, hid', hsafe, hsafe'] at heq'
    exact heq'
  have hsame : p.previewId = p'.previewId := by
    rw [hid, hid', tokenName_inj hname]
  rw [List.inj_on_of_nodup_map hids hp hp' hsame]
  rfl

/-! ## one approval for each preview -/

theorem selects_own (h : Sound rt s) (hids : (s.previews.map (·.previewId)).Nodup)
    (htxs : (s.previews.map (·.txId)).Nodup) {p q : PreviewTx} (hp : p ∈ s.previews)
    (hq : q ∈ s.previews) {id : String} (hid : id = p.txId ∨ id = p.previewId)
    (hsel : id = q.txId ∨ id = q.previewId) : q = p := by
  obtain ⟨a, b, hpa, hpb⟩ := h.named p hp
  obtain ⟨c, d, hqc, hqd⟩ := h.named q hq
  rcases hid with rfl | rfl
  · rcases hsel with hsel | hsel
    · exact (List.inj_on_of_nodup_map htxs hp hq hsel).symm
    · rw [hpb, hqc] at hsel
      exact absurd hsel.symm (previewName_ne_txName c b)
  · rcases hsel with hsel | hsel
    · rw [hpa, hqd] at hsel
      exact absurd hsel (previewName_ne_txName a d)
    · exact (List.inj_on_of_nodup_map hids hp hq hsel).symm

theorem selectedId_own (h : Sound rt s) {p : PreviewTx} (hp : p ∈ s.previews) {id : String}
    (hid : id = p.txId ∨ id = p.previewId) : selectedId (some id) = some id := by
  obtain ⟨a, b, hpa, hpb⟩ := h.named p hp
  have hne (pre : String) (n : Nat) (hpre : pre ≠ "") : pre ++ toString n ≠ "" := by
    intro e
    rw [String.append_eq_empty_iff] at e
    exact hpre e.1
  rcases hid with rfl | rfl
  · rw [hpb]
    exact selectedId_of_safe (safeName_txName b) (hne _ _ (by decide))
  · rw [hpa]
    exact selectedId_of_safe (safeName_previewName a) (hne _ _ (by decide))

theorem issueToken_own (h : Sound rt s) (happroved : s.approved = s.tokens)
    (hids : (s.previews.map (·.previewId)).Nodup) (htxs : (s.previews.map (·.txId)).Nodup)
    {p : PreviewTx} (hp : p ∈ s.previews) {id : String} (hid : id = p.txId ∨ id = p.previewId)
    (first second : Nat) (note : String) (t : ApprovalTokenRecord) :
    issueToken rt.render first second s.log (some id) note = .ok t ↔
      t = tokenOf rt.render first second p note ∧ p.txId ∉ s.tokens.map (·.txId) := by
  have hopen : closedOrApproved s.log p.txId = true ↔ p.txId ∈ s.tokens.map (·.txId) := by
    rw [closedOrApproved_iff h, happroved, List.mem_map]
    simp only [or_self]
  have hselects {q : PreviewTx} (hq : Selects s (some id) q = true) : id = q.txId ∨ id = q.previewId := by
    have hq' := (Bool.and_eq_true_iff.mp hq).1
    simpa using hq'
  constructor
  · intro hissue
    obtain ⟨q, hq, htoken, hsel⟩ := issueToken_ok h hissue
    rw [selectedId_own h hp hid] at hsel
    cases selects_own h hids htxs hp hq hid (hselects hsel)
    refine ⟨htoken, fun hmem => ?_⟩
    have hclosed := (Bool.and_eq_true_iff.mp hsel).2
    rw [hopen.mpr hmem] at hclosed
    cases hclosed
  · rintro ⟨rfl, hmem⟩
    have hown : Selects s (some id) p = true := by
      rw [Selects, Bool.of_not_eq_true fun hc => hmem (hopen.mp hc)]
      simpa using hid
    have hfind : s.previews.reverse.find? (Selects s (some id)) = some p :=
      find?_unique (List.mem_reverse.mpr hp) hown fun q hq hsel =>
        selects_own h hids htxs hp (List.mem_reverse.mp hq) hid (hselects hsel)
    rw [issueToken, selectedId_own h hp hid, openPreview_eq h, hfind]
    exact tokenFor_created rt.render first second note (h.operations p hp)

theorem not_validates_of_used (h : Sound rt s) {now : Nat} {id capabilityId : String}
    {targetPaths : List String}
    (hvalid : validateToken rt.render now (.ok s.log) id capabilityId targetPaths = .ok true) :
    id ∉ s.used := by
  intro hused
  have hconsumed := (h.consumed id).mpr hused
  unfold validateToken at hvalid
  split at hvalid
  · cases hvalid
  obtain ⟨events, hevents, hrest⟩ := Io.result_bind_ok.mp hvalid
  cases hevents
  split at hrest
  · cases hrest
  · rw [if_pos hconsumed] at hrest
    cases hrest

/-- **in a run of complete calls previews and tokens have identities, and each preview is approved
once, exactly when no two previews have an id from one millisecond** -/
theorem identified_iff (hcomplete : ∀ m ∈ moves, m.Complete)
    (hrun : State.start.run rt moves = some s) : Identified rt s ↔ Spaced moves := by
  have h : Sound rt s := sound_run sound_start hrun
  have happroved : s.approved = s.tokens := by
    refine approved_run (fun m hm hhalves => ?_) rfl hrun
    obtain ⟨_, _, _, _, rfl⟩ := hhalves
    cases hcomplete _ hm _ _ _ _ rfl
  constructor
  · intro hi
    exact ⟨(previewIds_nodup hrun).mp hi.previewIds, (txIds_nodup hrun).mp hi.txIds⟩
  · rintro ⟨hfirst, hsecond⟩
    have hids := (previewIds_nodup hrun).mpr hfirst
    have htxs := (txIds_nodup hrun).mpr hsecond
    have htokens : (s.tokens.map (·.approvalTokenId)).Nodup :=
      (List.Nodup.of_map _ h.once).map_on fun t ht t' ht' heq =>
        List.inj_on_of_nodup_map h.once ht ht' (txId_of_tokenId h hids ht ht' heq)
    refine ⟨hids, htxs, htokens, ?_, h.once, ?_, ?_, ?_, ?_⟩
    · intro t ht
      obtain ⟨p, hp, _, _, _, rfl⟩ := h.ofPreview t (Or.inr ht)
      exact ⟨p, hp, rfl, rfl⟩
    · intro p hp id hid first second note t
      exact issueToken_own h happroved hids htxs hp hid first second note t
    · intro first second note t hissue
      obtain ⟨p, hp, htoken, hsel⟩ := issueToken_ok h hissue
      refine ⟨p, hp, htoken, fun hmem => ?_⟩
      obtain ⟨t', ht', htx⟩ := List.mem_map.mp hmem
      have hclosed := (Bool.and_eq_true_iff.mp hsel).2
      rw [(closedOrApproved_iff h).mpr ⟨t', Or.inr ht', htx⟩] at hclosed
      cases hclosed
    · intro t ht
      have hfind : s.tokens.reverse.find? (fun t' => t'.approvalTokenId == t.approvalTokenId) =
          some t :=
        find?_unique (List.mem_reverse.mpr ht) (beq_self_eq_true t.approvalTokenId) fun t' ht' heq =>
          List.inj_on_of_nodup_map htokens (List.mem_reverse.mp ht') ht (beq_iff_eq.mp heq)
      rw [tokenEvent_eq h, hfind]
      rfl
    · exact fun now id capabilityId targetPaths hvalid => not_validates_of_used h hvalid

end

/-! ## two previews in one millisecond -/

def sampleRuntime : Runtime := ⟨"job", writeAndDeleteText⟩

/-- create twice within a millisecond, and approve the latest -/
def hastyMoves : List Move :=
  [.call (.createPreviewTx "Write a.txt, delete b.txt." writeAndDelete "low") 1 1 none,
    .call (.createPreviewTx "Write a.txt, delete b.txt." writeAndDelete "low") 1 1 none,
    .call (.issueToken none "ok") 5 5 none]

/-- the state they end in -/
def hastyState : State where
  log := createdEvents writeAndDeletePreview ++ createdEvents writeAndDeletePreview ++
    issuedEvents writeAndDeleteToken
  now := 5
  previews := [writeAndDeletePreview, writeAndDeletePreview]
  approved := [writeAndDeleteToken]
  tokens := [writeAndDeleteToken]
  used := []

theorem createPreviewTx_run (events : List Event) : Call.run sampleRuntime events 1 1
    (.createPreviewTx "Write a.txt, delete b.txt." writeAndDelete "low") =
      .ok (.preview writeAndDeletePreview, createdEvents writeAndDeletePreview) := by
  rw [Call.run]
  show (createPreviewTx "job" 1 1 "Write a.txt, delete b.txt." writeAndDelete "low" >>= _) = _
  rw [writeAndDelete_created]
  rfl

theorem hastyState_reached : State.start.run sampleRuntime hastyMoves = some hastyState := by
  have hissue (events : List Event)
      (h : openPreview events none = some ⟨"preview_tx_created", writeAndDeletePreview.toJson⟩) :
      Call.run sampleRuntime events 5 5 (.issueToken none "ok") =
        .ok (.token writeAndDeleteToken, issuedEvents writeAndDeleteToken) := by
    have htoken : issueToken sampleRuntime.render 5 5 events none "ok" = .ok writeAndDeleteToken := by
      have hselected : selectedId none = none := rfl
      rw [issueToken, hselected, h]
      exact tokenFor_created writeAndDeleteText 5 5 "ok" (createPreviewTx_ok writeAndDelete_created).1
    rw [Call.run, htoken]
    rfl
  rw [hastyMoves, State.run, State.step, if_pos (by decide), createPreviewTx_run, Option.bind_some,
    State.run, State.step, if_pos (by decide), createPreviewTx_run, Option.bind_some, State.run,
    State.step, if_pos (by decide), hissue _ rfl]
  rfl

/-- two previews that are created within one millisecond: with one approved, the other is refused -/
theorem same_millisecond :
    State.start.run sampleRuntime hastyMoves = some hastyState ∧ hastyState.previews.length = 2 ∧
      hastyState.tokens.length = 1 ∧
      issueToken writeAndDeleteText 6 6 hastyState.log none "ok" =
        .error ⟨.notFound, "no preview tx to approve"⟩ ∧ ¬ Identified sampleRuntime hastyState := by
  refine ⟨hastyState_reached, rfl, rfl, rfl, fun h => ?_⟩
  have hnodup := h.txIds
  exact absurd hnodup (by decide)

/-- two creations apart, one approval, its use, and another approval -/
def calmMoves : List Move :=
  [.call (.createPreviewTx "Write a.txt, delete b.txt." writeAndDelete "low") 1 1 none,
    .call (.createPreviewTx "Write a.txt, delete b.txt." writeAndDelete "low") 2 2 none,
    .call (.issueToken (some "preview_tx_1") "ok") 5 5 none,
    .call (.markTokenUsed "approval_preview_1_5" "os.write_file" ["a.txt"]) 6 6 none,
    .call (.issueToken none "ok") 7 7 none]

theorem identified_iff_calm : ∃ s, State.start.run sampleRuntime calmMoves = some s ∧
    s.previews.length = 2 ∧ s.tokens.length = 2 ∧ (Identified sampleRuntime s ↔ Spaced calmMoves) := by
  have hcomplete : ∀ m ∈ calmMoves, m.Complete := by
    intro m hm c first second stop e
    simp only [calmMoves, List.mem_cons, List.not_mem_nil, or_false] at hm
    rcases hm with rfl | rfl | rfl | rfl | rfl <;> cases e <;> rfl
  obtain ⟨s, hs⟩ : ∃ s, State.start.run sampleRuntime calmMoves = some s := ⟨_, rfl⟩
  have hlengths : (State.start.run sampleRuntime calmMoves).map
      (fun s => (s.previews.length, s.tokens.length)) = some (2, 2) := rfl
  rw [hs] at hlengths
  have hpair := Prod.mk.inj (Option.some.inj hlengths)
  exact ⟨s, hs, hpair.1, hpair.2, identified_iff hcomplete hs⟩

end Approval

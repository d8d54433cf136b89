import SuperNova.Approval.Created

/-!
# What a token authorises

A preview pairs each capability with its own paths; its token has the capabilities and the paths in two
lists.

* `validates_iff`: what a live token validates: one of its capabilities on any of its paths;
* `authorised_iff` (**main**): a live token authorises no more than the operations of its preview
  exactly when these give every capability of the preview each of its paths;
* `delete_of_written_path`: a write of `a` and a delete of `b`, approved as one preview.
-/

set_option linter.unusedSectionVars false

namespace Approval

open Text Workspace Os FileTree

/-! ## what is promised -/

/-- every target is covered by an operation that has the capability itself -/
def Authorised (p : PreviewTx) (capabilityId : String) (targetPaths : List String) : Prop :=
  ∀ target ∈ targetPaths, ∃ op ∈ p.executableOperations, op.capabilityId = capabilityId ∧
    ∃ scope ∈ op.targetPaths, covers scope (normalizePath target) = true

/-- the operations give every capability, as a token records it, each path of the preview -/
def EachOnAll (p : PreviewTx) : Prop :=
  ∀ op ∈ p.executableOperations, ∀ other ∈ p.executableOperations, ∀ path ∈ other.targetPaths,
    ∃ own ∈ p.executableOperations, own.capabilityId = normalizePath op.capabilityId ∧
      ∃ scope ∈ own.targetPaths, covers scope path = true

/-- the token is not used up, not expired, and its preview is in the log as it was -/
def Live (render : Json → Bytes) (now : Nat) (events : List Event) (t : ApprovalTokenRecord) : Prop :=
  tokenIsConsumed events t.approvalTokenId = false ∧ now ≤ t.expiresAtMs ∧
    previewHashOk render events ⟨"approval_token_issued", t.toJson⟩ = true

/-! ## covering -/

theorem rdropWhile_append (f : Char → Bool) (l l' : List Char) :
    (l ++ l').rdropWhile f =
      if (l'.rdropWhile f).isEmpty then l.rdropWhile f else l ++ l'.rdropWhile f := by
  unfold List.rdropWhile
  rw [List.reverse_append, List.dropWhile_append, List.isEmpty_reverse]
  split
  · rfl
  · rw [List.reverse_append, List.reverse_reverse]

section
variable {a b c : String}

theorem covers_iff : covers a b = true ↔
    a = b ∨ (trimEndMatches '/' a ++ "/").toList <+: b.toList := by
  unfold covers stripPrefix
  rw [Bool.or_eq_true, beq_iff_eq]
  refine or_congr_right ?_
  by_cases h : (trimEndMatches '/' a ++ "/").toList <+: b.toList
  · rw [if_pos h]
    exact iff_of_true rfl h
  · rw [if_neg h]
    exact iff_of_false (by simp) h

theorem covers_self (a : String) : covers a a = true := covers_iff.mpr (Or.inl rfl)

theorem covers_trans (h : covers a b = true) (h' : covers b c = true) : covers a c = true := by
  rcases covers_iff.mp h with rfl | hab
  · exact h'
  rcases covers_iff.mp h' with rfl | hbc
  · exact h
  refine covers_iff.mpr (Or.inr ?_)
  have htrim (s : String) : (trimEndMatches '/' s ++ "/").toList =
      s.toList.rdropWhile (· == '/') ++ ['/'] := by
    rw [String.toList_append, trimEndMatches, String.toList_ofList]
    rfl
  rw [htrim] at hab hbc ⊢
  obtain ⟨rest, hrest⟩ := hab
  -- either all of `rest` is cut off `b`, and the slash before it, or that slash stays
  rw [← hrest, rdropWhile_append] at hbc
  split at hbc
  · rw [List.rdropWhile_concat_pos _ _ _ (by decide), List.rdropWhile_idempotent] at hbc
    exact hbc
  · rw [List.append_assoc] at hbc
    exact (List.prefix_append ..).trans hbc

end

/-! ## what a token validates -/

theorem blank_normalizePath (s : String) : blank (normalizePath s) = blank s := by
  have hchar (c : Char) : isWhitespace (if c = '\\' then '/' else c) = isWhitespace c := by
    by_cases h : c = '\\'
    · rw [if_pos h, h]
      decide
    · rw [if_neg h]
  rw [Bool.eq_iff_iff, blank_iff, blank_iff, normalizePath, replaceChar, toList_mapChars]
  simp only [List.forall_mem_map, hchar]

section
variable {render : Json → Bytes} {tokenMs expiresMs now : Nat} {approvalNote capabilityId : String}
  {p : PreviewTx} {events : List Event} {targetPaths : List String}

theorem mem_approvedActions (hp : Operations p.executableOperations) :
    capabilityId ∈ approvedActions
        ⟨"approval_token_issued", (tokenOf render tokenMs expiresMs p approvalNote).toJson⟩ ↔
      ∃ op ∈ p.executableOperations, normalizePath op.capabilityId = capabilityId := by
  show capabilityId ∈ valuesToStrings
    ((operationCapabilityIds p.executableOperations).map .str) ↔ _
  rw [valuesToStrings, List.filterMap_map]
  have hread : (operationCapabilityIds p.executableOperations).filterMap (Json.asStr? ∘ Json.str) =
      operationCapabilityIds p.executableOperations := List.filterMap_some
  rw [hread, List.mem_filter, List.mem_map]
  constructor
  · rintro ⟨⟨id, hid, rfl⟩, -⟩
    obtain ⟨op, hop, rfl⟩ := (mem_operationCapabilityIds hp).mp hid
    exact ⟨op, hop, rfl⟩
  · rintro ⟨op, hop, rfl⟩
    refine ⟨⟨_, (mem_operationCapabilityIds hp).mpr ⟨op, hop, rfl⟩, rfl⟩, ?_⟩
    rw [blank_normalizePath,
      blank_of_trimmed (hp.normalized op hop).trimmed (hp.normalized op hop).named]
    rfl

theorem approvedPaths_tokenOf (hp : Operations p.executableOperations) :
    approvedPaths ⟨"approval_token_issued", (tokenOf render tokenMs expiresMs p approvalNote).toJson⟩ =
      operationTargetPaths p.executableOperations := by
  apply scopeOf_str
  intro path hpath
  obtain ⟨op, hop, hpath⟩ := (mem_operationTargetPaths hp).mp hpath
  exact (hp.normalized op hop).clean path hpath

theorem validates_iff (hp : Operations p.executableOperations)
    (hevent : tokenEvent events (tokenOf render tokenMs expiresMs p approvalNote).approvalTokenId =
      some ⟨"approval_token_issued", (tokenOf render tokenMs expiresMs p approvalNote).toJson⟩) :
    validateToken render now (.ok events)
        (tokenOf render tokenMs expiresMs p approvalNote).approvalTokenId capabilityId targetPaths =
          .ok true ↔
      Live render now events (tokenOf render tokenMs expiresMs p approvalNote) ∧
        (∃ op ∈ p.executableOperations, normalizePath op.capabilityId = capabilityId) ∧
        ∀ target ∈ targetPaths, ∃ op ∈ p.executableOperations, ∃ path ∈ op.targetPaths,
          covers path (normalizePath target) = true := by
  have hnamed : blank (tokenOf render tokenMs expiresMs p approvalNote).approvalTokenId = false := by
    by_contra h
    have hall := blank_iff.mp (Bool.of_not_eq_false h)
    exact absurd (hall 'a' (by simp [tokenOf])) (by decide)
  have hactions : (approvedActions ⟨"approval_token_issued",
      (tokenOf render tokenMs expiresMs p approvalNote).toJson⟩).any (· == capabilityId) = true ↔
        ∃ op ∈ p.executableOperations, normalizePath op.capabilityId = capabilityId := by
    rw [List.any_beq', List.contains_iff_mem]
    exact mem_approvedActions hp
  have hpaths : ((targetPaths.map normalizePath).all fun target =>
      (operationTargetPaths p.executableOperations).any fun scope => covers scope target) = true ↔
        ∀ target ∈ targetPaths, ∃ op ∈ p.executableOperations, ∃ path ∈ op.targetPaths,
          covers path (normalizePath target) = true := by
    simp only [List.all_map, List.all_eq_true, List.any_eq_true, Function.comp_apply,
      mem_operationTargetPaths hp]
    refine forall₂_congr fun target _ => ⟨?_, ?_⟩
    · rintro ⟨path, ⟨op, hop, hpath⟩, hcovers⟩
      exact ⟨op, hop, path, hpath, hcovers⟩
    · rintro ⟨op, hop, path, hpath, hcovers⟩
      exact ⟨path, ⟨op, hop, hpath⟩, hcovers⟩
  have hvalidate : validateToken render now (.ok events)
      (tokenOf render tokenMs expiresMs p approvalNote).approvalTokenId capabilityId targetPaths =
        if tokenIsConsumed events (tokenOf render tokenMs expiresMs p approvalNote).approvalTokenId then
          .ok false
        else .ok (tokenCovers render now events ⟨"approval_token_issued",
          (tokenOf render tokenMs expiresMs p approvalNote).toJson⟩ capabilityId targetPaths) := by
    rw [validateToken, if_neg (by simp [hnamed])]
    dsimp only [bind, Except.bind]
    rw [hevent]
    rfl
  have hexpires : ((((tokenOf render tokenMs expiresMs p approvalNote).toJson.get?
      "expires_at_ms").bind Json.asNat?).all fun expires => decide (now ≤ expires)) = true ↔
        now ≤ (tokenOf render tokenMs expiresMs p approvalNote).expiresAtMs := by
    show decide _ = true ↔ _
    exact decide_eq_true_iff
  rw [hvalidate]
  by_cases hconsumed :
      tokenIsConsumed events (tokenOf render tokenMs expiresMs p approvalNote).approvalTokenId = true
  · rw [if_pos hconsumed]
    refine iff_of_false (by simp) fun h => ?_
    rw [h.1.1] at hconsumed
    cases hconsumed
  · rw [if_neg hconsumed, Except.ok.injEq, tokenCovers, approvedPaths_tokenOf hp]
    dsimp only
    rw [Bool.and_eq_true, Bool.and_eq_true, Bool.and_eq_true, hactions, hpaths, hexpires]
    constructor
    · rintro ⟨⟨⟨h1, h2⟩, h3⟩, h4⟩
      exact ⟨⟨Bool.of_not_eq_true hconsumed, h3, h4⟩, h1, h2⟩
    · rintro ⟨⟨-, h3, h4⟩, h1, h2⟩
      exact ⟨⟨⟨h1, h2⟩, h3⟩, h4⟩

/-- **a token authorises no more than the operations of its preview exactly when it is dead, or these
give every capability each path** -/
theorem authorised_iff {jobId previewMarkdown riskLevel : String} {previewMs txMs : Nat}
    {operations : List ExecutablePreviewOperation} {before : List Event} {approvalId : Option String}
    {t : ApprovalTokenRecord}
    (hcreated : createPreviewTx jobId previewMs txMs previewMarkdown operations riskLevel = .ok p)
    (hopen : openPreview before (selectedId approvalId) = some ⟨"preview_tx_created", p.toJson⟩)
    (hissued : issueToken render tokenMs expiresMs before approvalId approvalNote = .ok t)
    (hevent : tokenEvent events t.approvalTokenId = some ⟨"approval_token_issued", t.toJson⟩) :
    (∀ capabilityId targetPaths, validateToken render now (.ok events) t.approvalTokenId capabilityId
        targetPaths = .ok true → Authorised p capabilityId targetPaths) ↔
      (Live render now events t → EachOnAll p) := by
  obtain ⟨hp, -, -⟩ := createPreviewTx_ok hcreated
  rw [issueToken, hopen] at hissued
  cases (tokenFor_created render tokenMs expiresMs approvalNote hp).symm.trans hissued
  constructor
  · intro h hlive op hop other hother path hpath
    have hclean := (hp.normalized other hother).clean path hpath
    have hvalid : validateToken render now (.ok events)
        (tokenOf render tokenMs expiresMs p approvalNote).approvalTokenId
          (normalizePath op.capabilityId) [path] = .ok true := by
      refine (validates_iff hp hevent).mpr ⟨hlive, ⟨op, hop, rfl⟩, fun target htarget => ?_⟩
      rw [List.mem_singleton] at htarget
      rw [htarget, hclean.separated]
      exact ⟨other, hother, path, hpath, covers_self path⟩
    obtain ⟨own, hown, hid, scope, hscope, hcovers⟩ := h _ _ hvalid path List.mem_cons_self
    rw [hclean.separated] at hcovers
    exact ⟨own, hown, hid, scope, hscope, hcovers⟩
  · intro h capabilityId targetPaths hvalid target htarget
    obtain ⟨hlive, ⟨op, hop, rfl⟩, hcovered⟩ := (validates_iff hp hevent).mp hvalid
    obtain ⟨other, hother, path, hpath, hcovers⟩ := hcovered target htarget
    obtain ⟨own, hown, hid, scope, hscope, hown'⟩ := h hlive op hop other hother path hpath
    exact ⟨own, hown, hid, scope, hscope, covers_trans hown' hcovers⟩

end

/-! ## a write and a delete -/

/-- a write of `a.txt` and a delete of `b.txt` -/
def writeAndDelete : List ExecutablePreviewOperation :=
  [⟨"os.write_file", .null, ["a.txt"], "write", none⟩,
    ⟨"os.delete_path", .null, ["b.txt"], "delete", none⟩]

def writeAndDeletePreview : PreviewTx where
  txId := "preview_tx_1"
  previewId := "preview_1"
  previewRef := "blob://job/previews/preview_1_preview.md"
  humanPreviewMarkdown := "Write a.txt, delete b.txt."
  executableOperations := writeAndDelete
  proposedActions := ["os.write_file", "os.delete_path"]
  targetPaths := ["a.txt", "b.txt"]
  riskLevel := "low"
  rollbackPlanRef := some "blob://job/previews/preview_1_rollback_plan.json"

@[irreducible] def writeAndDeleteText (_ : Json) : Bytes :=
  ("\x7b\"executable_operations\":[\x7b\"arguments\":null,\"capability_id\":\"os.write_f" ++
      "ile\",\"human_description\":\"write\",\"rollback_policy\":null,\"target_paths\":[\"" ++
      "a.txt\"]\x7d,\x7b\"arguments\":null,\"capability_id\":\"os.delete_path\",\"human_de" ++
      "scription\":\"delete\",\"rollback_policy\":null,\"target_paths\":[\"b.txt\"]\x7d]," ++
      "\"human_preview_markdown\":\"Write a.txt, delete b.txt.\",\"preview_id\":\"preview" ++
      "_1\",\"preview_ref\":\"blob://job/previews/preview_1_preview.md\",\"proposed_acti" ++
      "ons\":[\"os.write_file\",\"os.delete_path\"],\"risk_level\":\"low\",\"rollback_p" ++
      "lan_ref\":\"blob://job/previews/preview_1_rollback_plan.json\",\"target_paths\":[" ++
      "\"a.txt\",\"b.txt\"],\"tx_id\":\"preview_tx_1\"\x7d").toList.map
      fun c => UInt8.ofNat c.toNat

def writeAndDeleteToken : ApprovalTokenRecord :=
  tokenOf writeAndDeleteText 5 5 writeAndDeletePreview "ok"

/-- the log after the token is issued -/
def writeAndDeleteLog : List Event :=
  createdEvents writeAndDeletePreview ++ issuedEvents writeAndDeleteToken

theorem writeAndDelete_created : createPreviewTx "job" 1 1 "Write a.txt, delete b.txt."
    writeAndDelete "low" = .ok writeAndDeletePreview := by
  rfl

theorem writeAndDelete_live :
    Live writeAndDeleteText 10 writeAndDeleteLog writeAndDeleteToken := by
  refine ⟨by decide, by decide, ?_⟩
  refine List.any_eq_true.mpr ⟨⟨"preview_tx_created", writeAndDeletePreview.toJson⟩,
    by simp [writeAndDeleteLog, createdEvents], ?_⟩
  rw [Bool.and_eq_true]
  refine ⟨by decide, ?_⟩
  show (approvalScopeHash writeAndDeleteText writeAndDeletePreview.toJson ==
    approvalScopeHash writeAndDeleteText writeAndDeletePreview.toJson) = true
  exact beq_self_eq_true _

theorem authorised_iff_writeAndDelete :
    (∀ capabilityId targetPaths, validateToken writeAndDeleteText 10 (.ok writeAndDeleteLog)
        writeAndDeleteToken.approvalTokenId capabilityId targetPaths = .ok true →
          Authorised writeAndDeletePreview capabilityId targetPaths) ↔
      (Live writeAndDeleteText 10 writeAndDeleteLog writeAndDeleteToken →
        EachOnAll writeAndDeletePreview) := by
  have hopen : openPreview (createdEvents writeAndDeletePreview) (selectedId none) =
      some ⟨"preview_tx_created", writeAndDeletePreview.toJson⟩ := rfl
  have hissued : issueToken writeAndDeleteText 5 5 (createdEvents writeAndDeletePreview) none "ok" =
      .ok writeAndDeleteToken := rfl
  exact authorised_iff writeAndDelete_created hopen hissued rfl

/-- a write of `a.txt` and a delete of `b.txt` authorise a delete of `a.txt` -/
theorem delete_of_written_path :
    validateToken writeAndDeleteText 10 (.ok writeAndDeleteLog) "approval_preview_1_5"
        "os.delete_path" ["a.txt"] = .ok true ∧
      ¬ Authorised writeAndDeletePreview "os.delete_path" ["a.txt"] := by
  obtain ⟨hp, -, -⟩ := createPreviewTx_ok writeAndDelete_created
  constructor
  · have hname : writeAndDeleteToken.approvalTokenId = "approval_preview_1_5" := by decide
    have hevent : tokenEvent writeAndDeleteLog writeAndDeleteToken.approvalTokenId =
        some ⟨"approval_token_issued", writeAndDeleteToken.toJson⟩ := rfl
    rw [← hname]
    apply (validates_iff hp hevent).mpr
    refine ⟨writeAndDelete_live, ⟨_, List.mem_cons_of_mem _ List.mem_cons_self, by decide⟩, ?_⟩
    intro target htarget
    rw [List.mem_singleton.mp htarget]
    exact ⟨_, List.mem_cons_self, "a.txt", List.mem_cons_self, by decide⟩
  · intro h
    obtain ⟨op, hop, hid, scope, hscope, hcovers⟩ := h "a.txt" List.mem_cons_self
    rcases List.mem_cons.mp hop with rfl | hop
    · exact absurd hid (by decide)
    · rw [List.mem_singleton.mp hop, List.mem_singleton] at hscope
      rw [hscope] at hcovers
      exact absurd hcovers (by decide)

end Approval

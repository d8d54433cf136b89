import SuperNova.Gate.Closure

/-!
# What a verified artifact is

A typed artifact is free for the gate when it shows no gap and no failed verification for it.

* `Clear`: the gate reports nothing about the artifact;
* `verified_of_clear` (**main**): then its typed verifier has passed, the last receipt under its path is
  neither failed nor blocked, and what other capabilities do later changes nothing of this;
* `clear_not_settled`: a write after the verification, and a receipt with another status.
-/

set_option linter.unusedSectionVars false

namespace Gate

open Text Workspace Os

/-! ## receipts of the typed verifier -/

def typedReceipt (payload : Json) : Bool := payload.strAt? "capability_id" == some "artifact.verify_typed"

/-- a receipt of the typed verifier under this path -/
def typedAt (path : String) (payload : Json) : Bool :=
  typedReceipt payload &&
    ((verification payload).map (·.artifactPath) == some (normalizePath path))

/-- the capabilities that materialize an artifact -/
def materializers : List String :=
  ["os.write_file", "os.write_artifact", "os.zip", "dataset.export_csv", "dataset.export_markdown",
    "artifact.copy_source_set", "package.build_zip", "office.docx.create", "office.docx.rewrite_save_as",
    "office.docx.rewrite_in_place", "workspace.tree_index", "workspace.perf_inventory"]

/-- the paths that a receipt says were materialized -/
def materializedPaths (payload : Json) : List String :=
  if (payload.strAt? "capability_id").any (materializers.contains ·) then
    ((((payloadValue payload "artifact_path").or (payloadValue payload "archive_path")).bind
      Json.asStr?).toList ++
        (((payloadValue payload "artifacts").bind Json.asArr?).getD []).filterMap Json.asStr?).map
          normalizePath
  else []

/-- a successful write to this path -/
def writesTo (path : String) (payload : Json) : Bool :=
  payload.strAt? "status" == some "success" && (materializedPaths payload).contains (normalizePath path)

/-- a receipt as the typed verifier writes it; a blocked one has no path -/
structure AsWritten (payload : Json) : Prop where
  status : payload.strAt? "status" = some "success" ∨ payload.strAt? "status" = some "failed" ∨
    payload.strAt? "status" = some "blocked"
  path : payload.strAt? "status" = some "success" →
    ∃ text, (payloadValue payload "artifact_path").bind Json.asStr? = some text

/-- the last receipt of the typed verifier under a path, with what follows it -/
def LatestTyped (events : List Event) (path : String) (payload : Json) (after : List Json) : Prop :=
  ∃ before, payloads events = before ++ payload :: after ∧ typedAt path payload = true ∧
    ∀ later ∈ after, typedAt path later = false

/-! ## what the gate reports -/

/-- the gate reports nothing about a typed artifact that it looks at -/
structure Clear (events : List Event) (artifactRefs : List String) (path : String) : Prop where
  scope : path ∈ artifactScopeSet artifactRefs
  typed : isTyped path = true
  gap : typedGap path ∉ typedArtifactVerifierGaps events (artifactScopeSet artifactRefs)
  failure : ∀ v ∈ verificationFailures events, v.artifactPath ≠ normalizePath path

/-- the last receipt is a success, and nothing is written to the path after it -/
def Settled (events : List Event) (path : String) : Prop :=
  ∃ payload after, LatestTyped events path payload after ∧
    payload.strAt? "status" = some "success" ∧ ∀ later ∈ after, writesTo path later = false

section
variable {events later : List Event} {artifactRefs : List String} {path : String}
  {payload : Json} {after : List Json} {v w : VerificationFailure}

theorem key_inj (hv : v.capabilityId ∈ verifiers) (hw : w.capabilityId ∈ verifiers)
    (h : v.key = w.key) : v.capabilityId = w.capabilityId ∧ v.artifactPath = w.artifactPath := by
  have htake {c : String} (hc : c ∈ verifiers) (rest : String) :
      ((c ++ ":" ++ rest).toList.takeWhile fun a => a != ':') = c.toList := by
    have hplain : ∀ a ∈ c.toList, (a != ':') = true := by
      have hall : ∀ c ∈ verifiers, ∀ a ∈ c.toList, (a != ':') = true := by simp [verifiers]
      exact hall c hc
    rw [String.toList_append, String.toList_append, List.append_assoc,
      List.takeWhile_append_of_pos hplain]
    show c.toList ++ [] = c.toList
    exact List.append_nil _
  have hids : v.capabilityId = w.capabilityId := by
    have hlist := congrArg (fun s => s.toList.takeWhile fun a => a != ':') h
    simp only [VerificationFailure.key, htake hv, htake hw] at hlist
    exact String.toList_injective hlist
  refine ⟨hids, ?_⟩
  have hlist : (w.capabilityId ++ ":").toList ++ v.artifactPath.toList =
      (w.capabilityId ++ ":").toList ++ w.artifactPath.toList := by
    rw [← String.toList_append, ← String.toList_append, ← hids]
    rw [VerificationFailure.key, VerificationFailure.key, ← hids] at h
    exact congrArg String.toList h
  exact String.toList_injective (List.append_cancel_left hlist)

theorem verification_some (h : verification payload = some v) :
    payload.strAt? "capability_id" = some v.capabilityId ∧ v.capabilityId ∈ verifiers ∧
      v.status = (payload.strAt? "status").getD "" ∧
      v.artifactPath = normalizePath
        (((payloadValue payload "artifact_path").bind Json.asStr?).getD "<unknown_artifact>") := by
  unfold verification at h
  split at h
  · cases h
  · rename_i hid
    split at h
    · cases h
      exact ⟨hid, ‹_›, rfl, rfl⟩
    · cases h

theorem typedAt_iff : typedAt path payload = true ↔ ∃ v, verification payload = some v ∧
    v.capabilityId = "artifact.verify_typed" ∧ v.artifactPath = normalizePath path := by
  simp only [typedAt, typedReceipt, Bool.and_eq_true, beq_iff_eq, Option.map_eq_some_iff]
  constructor
  · rintro ⟨hid, v, hv, hpath⟩
    exact ⟨v, hv, Option.some.inj ((verification_some hv).1.symm.trans hid), hpath⟩
  · rintro ⟨v, hv, hid, hpath⟩
    exact ⟨hid ▸ (verification_some hv).1, v, hv, hpath⟩

theorem mem_latest (h : LatestTyped events path payload after) :
    ∃ v ∈ (latestVerifications events).values, v.artifactPath = normalizePath path ∧
      v.status = (payload.strAt? "status").getD "" := by
  obtain ⟨before, hsplit, htyped, hafter⟩ := h
  obtain ⟨v, hv, hid, hpath⟩ := typedAt_iff.mp htyped
  refine ⟨v, Table.mem_values.mpr ⟨v.key, ?_⟩, hpath, (verification_some hv).2.2.1⟩
  have hlast : (after.filterMap verification).filter (fun w => w.key == v.key) = [] := by
    refine List.filter_eq_nil_iff.mpr fun w hw hkey => ?_
    obtain ⟨receipt, hreceipt, hsome⟩ := List.mem_filterMap.mp hw
    obtain ⟨hids, hpaths⟩ := key_inj (verification_some hsome).2.1 (verification_some hv).2.1
      (beq_iff_eq.mp hkey)
    have hat : typedAt path receipt = true :=
      typedAt_iff.mpr ⟨w, hsome, hids.trans hid, hpaths.trans hpath⟩
    rw [hafter receipt hreceipt] at hat
    cases hat
  have hself : (v.key == v.key) = true := beq_self_eq_true v.key
  rw [latestVerifications, Table.get?_fill, hsplit, List.filterMap_append, List.filterMap_cons_some hv,
    List.filter_append, List.filter_cons, if_pos hself, hlast, List.getLast?_append]
  rfl

theorem exists_latest (h : ∃ payload ∈ payloads events, typedAt path payload = true) :
    ∃ payload after, LatestTyped events path payload after := by
  have hsome : ((payloads events).reverse.find? (typedAt path)).isSome = true := by
    rw [List.find?_isSome]
    obtain ⟨payload, hmem, hat⟩ := h
    exact ⟨payload, List.mem_reverse.mpr hmem, hat⟩
  obtain ⟨payload, hfind⟩ := Option.isSome_iff_exists.mp hsome
  obtain ⟨hat, after, before, hsplit, hnone⟩ := List.find?_eq_some_iff_append.mp hfind
  refine ⟨payload, after.reverse, before.reverse, ?_, hat, fun later hlater => ?_⟩
  · have hrev := congrArg List.reverse hsplit
    rw [List.reverse_reverse] at hrev
    simpa using hrev
  · have hlater' := hnone later (List.mem_reverse.mp hlater)
    simpa using hlater'

theorem passed_of_clear (h : Clear events artifactRefs path) :
    ∃ payload ∈ payloads events, payload.strAt? "status" = some "success" ∧
      typedReceipt payload = true ∧ typedPath payload = some (normalizePath path) := by
  have hmem : normalizePath path ∈ typedVerifiedArtifacts events := by
    by_contra hmem
    refine h.gap (List.mem_map.mpr ⟨path, List.mem_filter.mpr ⟨List.mem_filter.mpr
      ⟨h.scope, h.typed⟩, ?_⟩, rfl⟩)
    simpa using hmem
  obtain ⟨payload, hpayload, hpath⟩ := List.mem_filterMap.mp hmem
  split at hpath
  · rename_i hcond
    rw [Bool.and_eq_true, beq_iff_eq] at hcond
    exact ⟨payload, hpayload, hcond.1, hcond.2, hpath⟩
  · cases hpath

theorem payloads_append : payloads (events ++ later) = payloads events ++ payloads later :=
  List.flatMap_append

theorem Clear.append (h : Clear events artifactRefs path)
    (hlater : ∀ payload ∈ payloads later, verification payload = none) :
    Clear (events ++ later) artifactRefs path where
  scope := h.scope
  typed := h.typed
  gap := by
    have hverified : typedVerifiedArtifacts (events ++ later) = typedVerifiedArtifacts events := by
      rw [typedVerifiedArtifacts, payloads_append, List.filterMap_append, typedVerifiedArtifacts]
      refine (congrArg _ (List.filterMap_eq_nil_iff.mpr fun payload hpayload => ?_)).trans
        (List.append_nil _)
      refine if_neg fun hcond => ?_
      rw [Bool.and_eq_true] at hcond
      have hnone := hlater payload hpayload
      have hid : payload.strAt? "capability_id" = some "artifact.verify_typed" := beq_iff_eq.mp hcond.2
      rw [verification, hid] at hnone
      cases hnone
    rw [typedArtifactVerifierGaps, hverified]
    exact h.gap
  failure := by
    have hlatest : latestVerifications (events ++ later) = latestVerifications events := by
      rw [latestVerifications, payloads_append, List.filterMap_append,
        List.filterMap_eq_nil_iff.mpr hlater, List.append_nil, latestVerifications]
    rw [verificationFailures, hlatest]
    exact h.failure

/-- **when the gate reports nothing about a typed artifact, its verifier has passed; the last receipt
under its path is neither failed nor blocked, so a success if it is as the verifier writes it; and what
other capabilities do later is not looked at** -/
theorem verified_of_clear (h : Clear events artifactRefs path) :
    (∃ payload ∈ payloads events, payload.strAt? "status" = some "success" ∧
      typedReceipt payload = true ∧ typedPath payload = some (normalizePath path)) ∧
    (∀ payload after, LatestTyped events path payload after →
      payload.strAt? "status" ≠ some "failed" ∧ payload.strAt? "status" ≠ some "blocked") ∧
    ((∀ payload ∈ payloads events, typedReceipt payload = true → AsWritten payload) →
      ∃ payload after, LatestTyped events path payload after ∧
        payload.strAt? "status" = some "success") ∧
    ∀ later, (∀ payload ∈ payloads later, verification payload = none) →
      Clear (events ++ later) artifactRefs path := by
  have hlatest : ∀ payload after, LatestTyped events path payload after →
      payload.strAt? "status" ≠ some "failed" ∧ payload.strAt? "status" ≠ some "blocked" := by
    intro payload after hlast
    obtain ⟨v, hv, hpath, hstatus⟩ := mem_latest hlast
    have hfree {status : String} (hfailure : status = "failed" ∨ status = "blocked") :
        payload.strAt? "status" ≠ some status := by
      intro hsome
      rw [hsome] at hstatus
      refine h.failure v (List.mem_filter.mpr ⟨hv, ?_⟩) hpath
      rw [hstatus, Bool.or_eq_true, beq_iff_eq, beq_iff_eq]
      exact hfailure
    exact ⟨hfree (Or.inl rfl), hfree (Or.inr rfl)⟩
  refine ⟨passed_of_clear h, hlatest, fun hwritten => ?_, fun later hlater => h.append hlater⟩
  obtain ⟨passed, hmem, hsuccess, htyped, hpath⟩ := passed_of_clear h
  obtain ⟨text, htext⟩ := (hwritten passed hmem htyped).path hsuccess
  have hat : typedAt path passed = true := by
    obtain ⟨value, hvalue, hstr⟩ := Option.bind_eq_some_iff.mp htext
    rw [typedPath, hvalue, Option.some_or, Option.bind_some, hstr, Option.map_some] at hpath
    have hid : passed.strAt? "capability_id" = some "artifact.verify_typed" := beq_iff_eq.mp htyped
    rw [typedAt, htyped, Bool.true_and, beq_iff_eq, verification, hid]
    show some (normalizePath (((payloadValue passed "artifact_path").bind Json.asStr?).getD _)) = _
    rw [htext]
    exact hpath
  obtain ⟨payload, after, hlast⟩ := exists_latest ⟨passed, hmem, hat⟩
  refine ⟨payload, after, hlast, ?_⟩
  obtain ⟨hfailed, hblocked⟩ := hlatest payload after hlast
  obtain ⟨before, hsplit, hat', -⟩ := hlast
  have hpayload : payload ∈ payloads events := by
    rw [hsplit]
    exact List.mem_append_right _ List.mem_cons_self
  rw [typedAt, Bool.and_eq_true] at hat'
  rcases (hwritten payload hpayload hat'.1).status with hs | hs | hs
  · exact hs
  · exact absurd hs hfailed
  · exact absurd hs hblocked

end

/-! ## two logs -/

/-- a receipt for `out.zip` -/
def zipReceipt (capabilityId status : String) : Event :=
  ⟨"capability_receipt", Receipt.toJson
    ⟨capabilityId, "job", "pid", status, .obj [("artifact_path", .str "out.zip")]⟩⟩

/-- the archive is verified, and then written again -/
def rewrittenLog : List Event :=
  [zipReceipt "artifact.verify_typed" "success", zipReceipt "os.zip" "success"]

/-- the archive is verified, and then the verifier reports another status -/
def skippedLog : List Event :=
  [zipReceipt "artifact.verify_typed" "success", zipReceipt "artifact.verify_typed" "skipped"]

theorem rewrittenLog_clear : Clear rewrittenLog ["out.zip"] "out.zip" where
  scope := List.mem_singleton_self _
  typed := by decide
  gap := by
    have hgaps : typedArtifactVerifierGaps rewrittenLog (artifactScopeSet ["out.zip"]) = [] := rfl
    rw [hgaps]
    exact List.not_mem_nil
  failure := by
    have hfailures : verificationFailures rewrittenLog = [] := rfl
    rw [hfailures]
    exact fun v hv => absurd hv List.not_mem_nil

theorem verified_of_clear_rewritten :
    (∃ payload ∈ payloads rewrittenLog, payload.strAt? "status" = some "success" ∧
      typedReceipt payload = true ∧ typedPath payload = some (normalizePath "out.zip")) ∧
    (∀ payload after, LatestTyped rewrittenLog "out.zip" payload after →
      payload.strAt? "status" ≠ some "failed" ∧ payload.strAt? "status" ≠ some "blocked") ∧
    ((∀ payload ∈ payloads rewrittenLog, typedReceipt payload = true → AsWritten payload) →
      ∃ payload after, LatestTyped rewrittenLog "out.zip" payload after ∧
        payload.strAt? "status" = some "success") ∧
    ∀ later, (∀ payload ∈ payloads later, verification payload = none) →
      Clear (rewrittenLog ++ later) ["out.zip"] "out.zip" := verified_of_clear rewrittenLog_clear

theorem pair_split {α : Type} {a b x : α} {before after : List α} (h : [a, b] = before ++ x :: after) :
    x = a ∧ after = [b] ∨ x = b ∧ after = [] := by
  match before with
  | [] =>
    cases h
    exact Or.inl ⟨rfl, rfl⟩
  | [c] =>
    cases h
    exact Or.inr ⟨rfl, rfl⟩
  | c :: d :: rest =>
    have hlength := congrArg List.length h
    simp only [List.length_append, List.length_cons, List.length_nil] at hlength
    omega

/-- the gate reports nothing about an archive that was written after its verification, nor about one
whose last receipt is no success -/
theorem clear_not_settled :
    (Clear rewrittenLog ["out.zip"] "out.zip" ∧ ¬ Settled rewrittenLog "out.zip") ∧
      Clear skippedLog ["out.zip"] "out.zip" ∧ ¬ Settled skippedLog "out.zip" := by
  refine ⟨⟨rewrittenLog_clear, ?_⟩, ⟨List.mem_singleton_self _, by decide, ?_, ?_⟩, ?_⟩
  · rintro ⟨payload, after, ⟨before, hsplit, hat, -⟩, -, hwrites⟩
    rcases pair_split hsplit with ⟨rfl, rfl⟩ | ⟨rfl, rfl⟩
    · exact absurd (hwrites _ List.mem_cons_self) (by decide)
    · exact absurd hat (by decide)
  · have hgaps : typedArtifactVerifierGaps skippedLog (artifactScopeSet ["out.zip"]) = [] := rfl
    rw [hgaps]
    exact List.not_mem_nil
  · have hfailures : verificationFailures skippedLog = [] := rfl
    rw [hfailures]
    exact fun v hv => absurd hv List.not_mem_nil
  · rintro ⟨payload, after, ⟨before, hsplit, -, hafter⟩, hsuccess, -⟩
    rcases pair_split hsplit with ⟨rfl, rfl⟩ | ⟨rfl, rfl⟩
    · exact absurd (hafter _ List.mem_cons_self) (by decide)
    · exact absurd hsuccess (by decide)

end Gate

import SuperNova.Tasks.Artifacts

/-!
# What a verified artifact of a task was

The detail of a task marks an artifact as verified once a verification of it succeeded, and keeps the mark.

* `Confirmed`: a verification of the path succeeded after its last write, and none failed since;
* `VerifiedStands`: the artifacts that are shown as verified, and a destination that is shown as fulfilled, are
  confirmed;
* `verified_stands_iff` (**main**): this holds exactly for the logs that verify a path again whenever it was
  written, or failed to verify, after a verification.
-/

set_option linter.unusedSectionVars false

namespace Tasks

open Standing

/-- a write of the path, or a verification of it that did not succeed -/
def Unsettles (path : String) (event : ProcessEvent) : Prop := Writes path event ∨ FailsToVerify path event

/-- a verification succeeded after the last write, and none failed since -/
def Confirmed (path : String) (events : List ProcessEvent) : Prop :=
  Stands (Verifies path) (Unsettles path) events

/-- what was verified and then written, or failed to verify, was verified again -/
def Reverified (path : String) (events : List ProcessEvent) : Prop :=
  Renewed (Verifies path) (Unsettles path) events

section
variable (taskId containerId : String) (events : List ProcessEvent)

/-- an artifact in the chosen directory is confirmed -/
def DestinationConfirmed : Prop :=
  ∃ record ∈ (projectTaskDetail taskId containerId events).artifacts,
    ∃ path targetDir, record.path = some path ∧
      (projectTaskDetail taskId containerId events).selectedOutputDir = some targetDir ∧
      artifactPathMatchesDir record.path targetDir = true ∧ Confirmed path events

/-- what the detail shows as verified or fulfilled is confirmed by the log -/
structure VerifiedStands : Prop where
  artifacts : ∀ record ∈ (projectTaskDetail taskId containerId events).artifacts, record.verified = true →
    ∃ path, record.path = some path ∧ Confirmed path events
  destination : (projectTaskDetail taskId containerId events).destinationFulfilled = some true →
    DestinationConfirmed taskId containerId events

end

section
variable {taskId containerId path : String} {events : List ProcessEvent}

theorem confirmed_iff (hverified : ∃ event ∈ events, Verifies path event) :
    Confirmed path events ↔ Reverified path events :=
  stands_iff_renewed (fun _ h => h.apart) hverified

theorem exists_of_fulfilled
    (h : (projectTaskDetail taskId containerId events).destinationFulfilled = some true) :
    ∃ record ∈ (projectTaskDetail taskId containerId events).artifacts, ∃ targetDir,
      (projectTaskDetail taskId containerId events).selectedOutputDir = some targetDir ∧
      record.verified = true ∧ artifactPathMatchesDir record.path targetDir = true := by
  obtain ⟨targetDir, hselected, hany⟩ := Option.map_eq_some_iff.mp h
  obtain ⟨record, hrecord, hboth⟩ := List.any_eq_true.mp hany
  obtain ⟨hverified, hmatches⟩ := (Bool.and_eq_true _ _).mp hboth
  exact ⟨record, hrecord, targetDir, hselected, hverified, hmatches⟩

/-- **What is shown as verified is confirmed exactly when every path was verified again after each write and
each failed verification that followed a verification.** -/
theorem verified_stands_iff :
    VerifiedStands taskId containerId events ↔ ∀ path, Reverified path events := by
  constructor
  · intro h path before event after hsplit hunsettles hearlier
    have hverified : ∃ event ∈ events, Verifies path event := by
      obtain ⟨earlier, hmem, hgives⟩ := hearlier
      exact ⟨earlier, hsplit ▸ List.mem_append_left _ hmem, hgives⟩
    have hlisted : ∃ record ∈ (projectTaskDetail taskId containerId events).artifacts,
        record.path = some path ∧ record.verified = true := artifact_verified_iff.mpr hverified
    obtain ⟨record, hrecord, hpath, hshown⟩ := hlisted
    obtain ⟨path', hpath', hconfirmed⟩ := h.artifacts record hrecord hshown
    have hsame : path' = path := Option.some.inj (hpath'.symm.trans hpath)
    subst hsame
    exact (confirmed_iff hverified).mp hconfirmed before event after hsplit hunsettles hearlier
  · intro h
    have hartifacts : ∀ record ∈ (projectTaskDetail taskId containerId events).artifacts,
        record.verified = true → ∃ path, record.path = some path ∧ Confirmed path events := by
      intro record hrecord hshown
      obtain ⟨path, hpath⟩ := artifact_path hrecord
      have hverified := artifact_verified_iff.mp ⟨record, hrecord, hpath, hshown⟩
      exact ⟨path, hpath, (confirmed_iff hverified).mpr (h path)⟩
    refine ⟨hartifacts, fun hfulfilled => ?_⟩
    obtain ⟨record, hrecord, targetDir, hselected, hshown, hmatches⟩ := exists_of_fulfilled hfulfilled
    obtain ⟨path, hpath, hconfirmed⟩ := hartifacts record hrecord hshown
    exact ⟨record, hrecord, path, targetDir, hpath, hselected, hmatches, hconfirmed⟩

end

/-! ## a verification that is out of date -/

/-- a receipt for `reports/out.md` -/
def outReceipt (eventId : Nat) (eventType capability status : String) : ProcessEvent where
  eventId := eventId
  timestampMs := eventId
  eventType := eventType
  data := .obj [("capability_id", .str capability), ("status", .str status),
    ("data", .obj [("artifact_path", .str "reports/out.md")])]

/-- the output goes to `reports`; the artifact is written and verified -/
def verifiedLog : List ProcessEvent :=
  [{ eventId := 1, timestampMs := 1, eventType := "task_artifact_destination_guidance_attached",
     data := .obj [("selected_output_dir", .str "reports")] },
    outReceipt 2 "capability_receipt" "os.write_artifact" "success",
    outReceipt 3 "verify_event" "os.verify_artifact" "success"]

/-- then a verification fails -/
def failedEvent : ProcessEvent := outReceipt 4 "verify_event" "os.verify_artifact" "failed"

/-- or the artifact is written again -/
def rewrittenEvent : ProcessEvent := outReceipt 4 "capability_receipt" "os.write_artifact" "success"

theorem mem_outPaths (eventId : Nat) (eventType capability status : String) :
    "reports/out.md" ∈ eventPaths (outReceipt eventId eventType capability status) := by
  rw [eventPaths, mem_artifactPathsFromValue]
  show "reports/out.md" ∈ collectPathFields (.obj [("artifact_path", .str "reports/out.md")])
  decide +kernel

theorem not_stands_after {last : ProcessEvent} (hlast : Unsettles "reports/out.md" last) :
    ¬ VerifiedStands "task" "box" (verifiedLog ++ [last]) := by
  intro h
  have hverifies : Verifies "reports/out.md" (outReceipt 3 "verify_event" "os.verify_artifact" "success") :=
    ⟨by decide, by decide, mem_outPaths ..⟩
  have hmem : outReceipt 3 "verify_event" "os.verify_artifact" "success" ∈ verifiedLog ++ [last] := by
    simp [verifiedLog]
  have hlisted : ∃ record ∈ (projectTaskDetail "task" "box" (verifiedLog ++ [last])).artifacts,
      record.path = some "reports/out.md" ∧ record.verified = true :=
    artifact_verified_iff.mpr ⟨_, hmem, hverifies⟩
  obtain ⟨record, hrecord, hpath, hshown⟩ := hlisted
  obtain ⟨path, hpath', hconfirmed⟩ := h.artifacts record hrecord hshown
  rw [hpath, Option.some.injEq] at hpath'
  subst hpath'
  exact not_stands_concat hlast (fun hgives => hgives.apart hlast) hconfirmed

/-- a failed verification, or a new write, leaves the artifact verified and the destination fulfilled -/
theorem verified_out_of_date :
    (projectTaskDetail "task" "box" (verifiedLog ++ [failedEvent])).destinationFulfilled = some true ∧
      ¬ VerifiedStands "task" "box" (verifiedLog ++ [failedEvent]) ∧
      ¬ VerifiedStands "task" "box" (verifiedLog ++ [rewrittenEvent]) := by
  refine ⟨by decide +kernel, not_stands_after (Or.inr ⟨by decide, by decide, mem_outPaths ..⟩),
    not_stands_after (Or.inl ⟨by decide, by decide, mem_outPaths ..⟩)⟩

end Tasks

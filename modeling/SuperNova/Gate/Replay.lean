import SuperNova.Gate.Closure
import SuperNova.Jobs.Lifecycle

/-!
# Replay of a job

`replay` reads the state of a job off its event log: the status, the artifacts that any event names, and for
each artifact the events that produced it.

* `TruthLog`: a log, whose ids increase, and `TruthLog.appendEvent`;
* `replay`: the fold;
* `mem_artifactRefs`: an artifact is listed exactly when some event names it;
* `history_append` (**main**): the history of an artifact only grows, at its end.
-/

set_option linter.unusedSectionVars false

namespace Gate

open Text Workspace Os

/-! ## the log -/

/-- `ProcessEvent`, as far as the gate reads it -/
structure ProcessEvent where
  eventId : Nat
  event : Event

/-- the events of a job, which are read in the order of their ids -/
structure TruthLog where
  entries : List ProcessEvent
  increasing : entries.Pairwise fun a b => a.eventId < b.eventId

namespace TruthLog

/-- `SELECT COALESCE(MAX(event_id), 0)` -/
def maxEventId (log : TruthLog) : Nat := (log.entries.map (·.eventId)).foldl max 0

def events (log : TruthLog) : List Event := log.entries.map (·.event)

theorem le_foldl_max (ids : List Nat) (start : Nat) :
    start ≤ ids.foldl max start ∧ ∀ id ∈ ids, id ≤ ids.foldl max start := by
  induction ids generalizing start with
  | nil => exact ⟨le_rfl, fun id hid => absurd hid List.not_mem_nil⟩
  | cons a ids ih =>
    obtain ⟨hstart, hids⟩ := ih (max start a)
    refine ⟨(le_max_left _ _).trans hstart, fun id hid => ?_⟩
    rcases List.mem_cons.mp hid with rfl | hid
    · exact (le_max_right _ _).trans hstart
    · exact hids id hid

theorem eventId_le_max {log : TruthLog} {e : ProcessEvent} (h : e ∈ log.entries) :
    e.eventId ≤ log.maxEventId :=
  (le_foldl_max _ 0).2 _ (List.mem_map_of_mem h)

/-- `append_event` -/
def appendEvent (log : TruthLog) (event : Event) : TruthLog where
  entries := log.entries ++ [⟨log.maxEventId + 1, event⟩]
  increasing := by
    refine List.pairwise_append.mpr ⟨log.increasing, List.pairwise_singleton _ _, fun a ha b hb => ?_⟩
    rw [List.mem_singleton.mp hb]
    exact Nat.lt_succ_of_le (eventId_le_max ha)

def appendEvents (log : TruthLog) (events : List Event) : TruthLog := events.foldl appendEvent log

end TruthLog

/-- events with ids one after the other -/
def numberFrom (n : Nat) : List Event → List ProcessEvent
  | [] => []
  | event :: events => ⟨n, event⟩ :: numberFrom (n + 1) events

theorem maxEventId_appendEvent (log : TruthLog) (event : Event) :
    (log.appendEvent event).maxEventId = log.maxEventId + 1 := by
  rw [TruthLog.maxEventId, TruthLog.appendEvent, List.map_append, List.foldl_append]
  exact max_eq_right (Nat.le_succ _)

theorem entries_appendEvents (log : TruthLog) (later : List Event) :
    (log.appendEvents later).entries = log.entries ++ numberFrom (log.maxEventId + 1) later := by
  induction later generalizing log with
  | nil => exact (List.append_nil _).symm
  | cons event later ih =>
    have hstep : log.appendEvents (event :: later) = (log.appendEvent event).appendEvents later := rfl
    rw [hstep, ih, maxEventId_appendEvent, numberFrom, TruthLog.appendEvent, List.append_assoc,
      List.singleton_append]

/-! ## what an event names -/

/-- `event_payloads` of the replay: the data of an event, and the data in them -/
def replayPayloads (event : Event) : List Json := event.data :: (event.data.get? "data").toList

structure ArtifactProvenance where
  eventId : Nat
  capabilityId : String
  artifactRef : String
  artifactPath : String
  txId : Option String
  sourceRefs : List String
  deriving DecidableEq

/-- the keys under which a receipt names what it read -/
def sourceKeys : List String :=
  ["source_path", "source_set_ref", "dataset_ref", "left_path", "right_path", "before_path", "after_path"]

/-- `sort` and `dedup` -/
def sortDedup (items : List String) : List String := (items.insertionSort (· ≤ ·)).dedup

/-- the path that a payload says was produced -/
def producedPath (payload : Json) : Option String :=
  ((payload.get? "artifact_path").or ((payload.get? "archive_path").or
    (payload.get? "destination_path"))).bind Json.asStr?

def artifactProvenanceFromEvent (e : ProcessEvent) (payload : Json) : Option ArtifactProvenance := do
  let capabilityId ← ((e.event.data.get? "capability_id").or (payload.get? "capability_id")).bind Json.asStr?
  let artifactPath ← producedPath payload
  if trim artifactPath = "" then none
  else
    some
      { eventId := e.eventId
        capabilityId
        artifactRef := (payload.strAt? "artifact_ref").getD ("artifact://" ++ normalizePath artifactPath)
        artifactPath := normalizePath artifactPath
        txId := payload.strAt? "tx_id"
        sourceRefs := sortDedup (sourceKeys.filterMap fun key => payload.strAt? key) }

/-- `push_artifact_ref` -/
def pushArtifactRef (path : String) : Option String :=
  let normalized := normalizePath (trim path)
  if normalized = "" then none else some normalized

/-- the texts of a payload that are pushed to the artifact refs -/
def namedPaths (e : ProcessEvent) (payload : Json) : List String :=
  (((payload.get? "artifacts").bind Json.asArr?).getD []).filterMap Json.asStr? ++
    (payload.strAt? "artifact_path").toList ++ (payload.strAt? "archive_path").toList ++
    ((artifactProvenanceFromEvent e payload).map (·.artifactPath)).toList

def provenancesOf (e : ProcessEvent) : List ArtifactProvenance :=
  (replayPayloads e.event).filterMap (artifactProvenanceFromEvent e)

def refsOf (e : ProcessEvent) : List String :=
  ((replayPayloads e.event).flatMap (namedPaths e)).filterMap pushArtifactRef

/-! ## the fold -/

structure ReplayState where
  status : String
  eventCount : Nat
  artifactRefs : List String
  artifactProvenance : List ArtifactProvenance

/-- the order by path, and then by event -/
def beforeOrSame (a b : ArtifactProvenance) : Prop :=
  a.artifactPath < b.artifactPath ∨ a.artifactPath = b.artifactPath ∧ a.eventId ≤ b.eventId

instance : DecidableRel beforeOrSame := fun _ _ => inferInstanceAs (Decidable (_ ∨ _))

/-- the part of an event that decides on the status -/
def statusEvent (event : Event) : Jobs.Event := ⟨event.eventType, event.data.strAt? "status"⟩

def replay (log : TruthLog) : ReplayState where
  status := Jobs.replay (log.events.map statusEvent)
  eventCount := log.entries.length
  artifactRefs := sortDedup (log.entries.flatMap refsOf)
  artifactProvenance := (log.entries.flatMap provenancesOf).insertionSort beforeOrSame

/-- what is known of the making of an artifact, in the order in which it is listed -/
def ReplayState.history (state : ReplayState) (path : String) : List ArtifactProvenance :=
  state.artifactProvenance.filter fun p => p.artifactPath = path

section
variable {log : TruthLog} {later : List Event} {path : String} {e : ProcessEvent} {p : ArtifactProvenance}

theorem mem_sortDedup {items : List String} {item : String} : item ∈ sortDedup items ↔ item ∈ items := by
  rw [sortDedup, List.mem_dedup, List.mem_insertionSort]

/-- **an artifact is listed exactly when a payload of some event names it, by a path that is not blank** -/
theorem mem_artifactRefs : path ∈ (replay log).artifactRefs ↔ ∃ e ∈ log.entries,
    ∃ payload ∈ replayPayloads e.event, ∃ named ∈ namedPaths e payload, pushArtifactRef named = some path := by
  rw [replay, mem_sortDedup, List.mem_flatMap]
  refine exists_congr fun e => and_congr_right fun _ => ?_
  rw [refsOf, List.mem_filterMap]
  simp only [List.mem_flatMap]
  constructor
  · rintro ⟨named, ⟨payload, hpayload, hnamed⟩, hpath⟩
    exact ⟨payload, hpayload, named, hnamed, hpath⟩
  · rintro ⟨payload, hpayload, named, hnamed, hpath⟩
    exact ⟨named, ⟨payload, hpayload, hnamed⟩, hpath⟩

instance : Std.Total beforeOrSame where
  total a b := by
    rcases lt_trichotomy a.artifactPath b.artifactPath with h | h | h
    · exact Or.inl (Or.inl h)
    · exact (le_total a.eventId b.eventId).imp (fun hle => Or.inr ⟨h, hle⟩) fun hle => Or.inr ⟨h.symm, hle⟩
    · exact Or.inr (Or.inl h)

instance : IsTrans ArtifactProvenance beforeOrSame where
  trans a b c := by
    rintro (hab | ⟨hab, hab'⟩) (hbc | ⟨hbc, hbc'⟩)
    · exact Or.inl (hab.trans hbc)
    · exact Or.inl (hbc ▸ hab)
    · exact Or.inl (hab ▸ hbc)
    · exact Or.inr ⟨hab.trans hbc, hab'.trans hbc'⟩

theorem filter_insertionSort {α : Type} (r : α → α → Prop) [DecidableRel r] [Std.Total r] [IsTrans α r]
    (q : α → Bool) {l : List α} (h : (l.filter q).Pairwise r) : (l.insertionSort r).filter q = l.filter q := by
  have hsub : (l.filter q).Sublist ((l.insertionSort r).filter q) := by
    have hsorted := (List.sublist_insertionSort h List.filter_sublist).filter q
    rwa [List.filter_filter, show (fun a => q a && q a) = q from funext fun a => Bool.and_self (q a)] at hsorted
  have hperm : ((l.insertionSort r).filter q).Perm (l.filter q) := (List.perm_insertionSort r l).filter q
  exact (hsub.eq_of_length hperm.length_eq.symm).symm

theorem artifactProvenanceFromEvent_some {payload : Json} (h : artifactProvenanceFromEvent e payload = some p) :
    p.eventId = e.eventId ∧ ∃ text, producedPath payload = some text ∧ trim text ≠ "" ∧
      p.artifactPath = normalizePath text := by
  simp only [artifactProvenanceFromEvent, Option.bind_eq_bind, Option.bind_eq_some_iff] at h
  obtain ⟨capabilityId, -, text, htext, h⟩ := h
  split at h
  · cases h
  · rename_i hne
    rw [Option.some.injEq] at h
    subst h
    exact ⟨rfl, text, htext, hne, rfl⟩

theorem eventId_of_mem_provenancesOf (h : p ∈ provenancesOf e) : p.eventId = e.eventId := by
  obtain ⟨payload, -, hp⟩ := List.mem_filterMap.mp h
  exact (artifactProvenanceFromEvent_some hp).1

theorem ordered_history (entries : List ProcessEvent) (hids : entries.Pairwise fun a b => a.eventId < b.eventId) :
    (entries.flatMap provenancesOf).Pairwise fun a b => a.eventId ≤ b.eventId := by
  refine List.pairwise_flatMap.mpr ⟨fun e _ => ?_, hids.imp fun hlt a ha b hb => ?_⟩
  · refine List.Pairwise.imp_of_mem (fun ha hb _ => ?_) (List.pairwise_of_forall fun _ _ => trivial)
    rw [eventId_of_mem_provenancesOf ha, eventId_of_mem_provenancesOf hb]
  · rw [eventId_of_mem_provenancesOf ha, eventId_of_mem_provenancesOf hb]
    exact hlt.le

theorem history_eq (log : TruthLog) (path : String) : (replay log).history path =
    (log.entries.flatMap provenancesOf).filter fun p => p.artifactPath = path := by
  refine filter_insertionSort beforeOrSame _ ?_
  have hordered := (ordered_history log.entries log.increasing).filter fun p => decide (p.artifactPath = path)
  refine hordered.imp_of_mem fun ha hb hle => ?_
  have hpathA : _ = path := of_decide_eq_true (List.mem_filter.mp ha).2
  have hpathB : _ = path := of_decide_eq_true (List.mem_filter.mp hb).2
  exact Or.inr ⟨hpathA.trans hpathB.symm, hle⟩

theorem trim_normalizePath_ne {s : String} (h : trim s ≠ "") : trim (normalizePath s) ≠ "" := by
  rw [Ne, trim_eq_empty, blank_iff] at h ⊢
  intro hblank
  refine h fun c hc => ?_
  by_cases hslash : c = '\\'
  · have hmem : '/' ∈ (normalizePath s).toList := by
      rw [normalizePath, replaceChar, mapChars, String.toList_ofList]
      exact List.mem_map.mpr ⟨c, hc, if_pos hslash⟩
    exact absurd (hblank '/' hmem) (by decide)
  · refine hblank c ?_
    rw [normalizePath, replaceChar, mapChars, String.toList_ofList]
    exact List.mem_map.mpr ⟨c, hc, if_neg hslash⟩

theorem normalizePath_ne_empty {s : String} (h : s ≠ "") : normalizePath s ≠ "" := by
  intro hempty
  have hlist := congrArg String.toList hempty
  rw [normalizePath, replaceChar, mapChars, String.toList_ofList, String.toList_empty, List.map_eq_nil_iff] at hlist
  exact h (String.toList_injective hlist)

theorem listed_of_provenance (h : p ∈ (replay log).artifactProvenance) :
    ∃ ref ∈ (replay log).artifactRefs, pushArtifactRef p.artifactPath = some ref := by
  have hmem : p ∈ log.entries.flatMap provenancesOf := by
    rw [replay] at h
    exact (List.mem_insertionSort beforeOrSame).mp h
  obtain ⟨e, he, hp⟩ := List.mem_flatMap.mp hmem
  obtain ⟨payload, hpayload, hsome⟩ := List.mem_filterMap.mp hp
  obtain ⟨-, text, -, hne, hpath⟩ := artifactProvenanceFromEvent_some hsome
  have hblank : trim p.artifactPath ≠ "" := hpath ▸ trim_normalizePath_ne hne
  have hpush : pushArtifactRef p.artifactPath = some (normalizePath (trim p.artifactPath)) :=
    by
    rw [pushArtifactRef]
    exact if_neg (normalizePath_ne_empty hblank)
  refine ⟨normalizePath (trim p.artifactPath), ?_, hpush⟩
  refine mem_artifactRefs.mpr ⟨e, he, payload, hpayload, p.artifactPath, ?_, hpush⟩
  rw [namedPaths, hsome, Option.map_some, Option.toList_some]
  exact List.mem_append_right _ (List.mem_singleton_self _)

/-- **Events that are appended to a log add what they name to the artifacts and take nothing away; the history
of every artifact stays as it was, and what they say of its making comes behind it.  Whatever has a history is
listed.** -/
theorem history_append (log : TruthLog) (later : List Event) :
    (∀ path, (replay (log.appendEvents later)).history path = (replay log).history path ++
      ((numberFrom (log.maxEventId + 1) later).flatMap provenancesOf).filter fun p => p.artifactPath = path) ∧
    (∀ ref, ref ∈ (replay (log.appendEvents later)).artifactRefs ↔ ref ∈ (replay log).artifactRefs ∨
      ∃ e ∈ numberFrom (log.maxEventId + 1) later, ref ∈ refsOf e) ∧
    ∀ p ∈ (replay log).artifactProvenance,
      ∃ ref ∈ (replay log).artifactRefs, pushArtifactRef p.artifactPath = some ref := by
  refine ⟨fun path => ?_, fun ref => ?_, fun p hp => listed_of_provenance hp⟩
  · rw [history_eq, history_eq, entries_appendEvents, List.flatMap_append, List.filter_append]
  · rw [replay, replay, mem_sortDedup, mem_sortDedup, entries_appendEvents, List.flatMap_append, List.mem_append,
      List.mem_flatMap (b := ref) (l := numberFrom _ later)]

end

end Gate

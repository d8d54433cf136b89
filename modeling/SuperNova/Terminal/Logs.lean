import SuperNova.Terminal.Services
import SuperNova.Truth.Files

/-!
# Files of a service

A service has a registry file and two logs, which are blobs.  The names of all three are made from its id.

* `validateServiceId_ok`: the ids that are accepted;
* `serviceFiles`: the files of a service;
* `service_blobs_iff` (**main**): the logs of a service lead back exactly when its id is not `..`, and two services have
  no file in common.
-/

set_option linter.unusedSectionVars false

namespace Terminal

open Paths Io FileTree Text Workspace Os Truth

/-! ## names -/

def logStreams : List String := ["stdout.log", "stderr.log"]

/-- the name of a log of `start_service` -/
def logName (serviceId stream : String) : String := "terminal_services/" ++ serviceId ++ "/" ++ stream

/-- the id is one that `validate_service_id` returns -/
def AcceptedId (serviceId : String) : Prop := ∃ given, validateServiceId given = .ok serviceId

section
variable (stateRoot : Path) (jobId : String)

/-- the directory of the blobs of a job; the id of a job is one name -/
def blobDirOf : Path := stateRoot ++ ["blobs", jobId]

/-- `service_registry_path` -/
def registryFile (serviceId : String) : Path := stateRoot ++ ["terminal_services", jobId, serviceId ++ ".json"]

def serviceFiles (serviceId : String) : List Path :=
  registryFile stateRoot jobId serviceId ::
    logStreams.map fun stream => placeOf (blobDirOf stateRoot jobId) (logName serviceId stream)

end

/-! ## ids that are accepted -/

section
variable {stateRoot : Path} {jobId serviceId given other stream : String} {p : Path}

theorem validateServiceId_ok (h : validateServiceId given = .ok serviceId) : serviceId ≠ "" ∧
    ∀ c ∈ serviceId.toList, c.isAlphanum ∨ c = '_' ∨ c = '-' ∨ c = '.' := by
  unfold validateServiceId at h
  dsimp only at h
  split at h
  · cases h
  · next hempty =>
    split at h
    · cases h
    · next hboth =>
      rw [not_or, not_not] at hboth
      obtain rfl := Except.ok.inj h
      refine ⟨hempty, fun c hc => ?_⟩
      have hchar := List.all_eq_true.mp hboth.2 c hc
      simpa [or_assoc] using hchar

theorem AcceptedId.not_mem (h : AcceptedId serviceId) {c : Char} (hc : c.isAlphanum = false) (hline : c ≠ '_')
    (hdash : c ≠ '-') (hdot : c ≠ '.') : c ∉ serviceId.toList := by
  obtain ⟨given, hgiven⟩ := h
  intro hmem
  rcases (validateServiceId_ok hgiven).2 c hmem with hchar | hchar | hchar | hchar
  · rw [hc] at hchar
    cases hchar
  · exact hline hchar
  · exact hdash hchar
  · exact hdot hchar

theorem AcceptedId.nonempty (h : AcceptedId serviceId) : serviceId ≠ "" := by
  obtain ⟨given, hgiven⟩ := h
  exact (validateServiceId_ok hgiven).1

theorem AcceptedId.noSlash (h : AcceptedId serviceId) : '/' ∉ serviceId.toList :=
  h.not_mem (by decide) (by decide) (by decide) (by decide)

theorem AcceptedId.separated (h : AcceptedId serviceId) : Separated serviceId :=
  h.not_mem (by decide) (by decide) (by decide) (by decide)

/-! ## logs -/

theorem splitOn_logName (h : AcceptedId serviceId) (hstream : stream ∈ logStreams) :
    splitOn '/' (logName serviceId stream) = ["terminal_services", serviceId, stream] := by
  have hslash : ("/" : String) = String.ofList ['/'] := rfl
  have hsplit : splitOn '/' stream = [stream] := by
    rcases List.mem_pair.mp hstream with rfl | rfl <;> decide
  have hname : logName serviceId stream =
      "terminal_services" ++ String.ofList ['/'] ++ serviceId ++ String.ofList ['/'] ++ stream := rfl
  have hfirst : splitOn '/' "terminal_services" = ["terminal_services"] := by decide
  rw [hname, splitOn_append, splitOn_append, splitOn_of_not_mem h.noSlash, hsplit, hfirst]
  rfl

theorem isAbsolute_logName (serviceId stream : String) : isAbsolute (logName serviceId stream) = false := by
  have hhead : ("terminal_services/" : String).toList.head? = some 't' := by decide
  unfold isAbsolute logName
  rw [String.append_assoc, String.append_assoc, String.toList_append, List.head?_append_of_ne_nil _ (by decide), hhead]
  decide

theorem plain_logName_iff (h : AcceptedId serviceId) (hstream : stream ∈ logStreams) :
    Plain (logName serviceId stream) ↔ serviceId ≠ ".." := by
  have hproper : stream ≠ ".." ∧ Separated stream := by
    rcases List.mem_pair.mp hstream with rfl | rfl <;> decide
  constructor
  · rintro hplain rfl
    apply hplain.below
    rw [components, splitOn_logName h hstream]
    exact List.mem_filter.mpr ⟨by simp, by decide⟩
  · intro hne
    refine ⟨?_, ?_, isAbsolute_logName serviceId stream, fun hdots => ?_⟩
    · intro hempty
      have hsplit := splitOn_logName h hstream
      rw [hempty, show splitOn '/' "" = [""] by decide, List.cons.injEq] at hsplit
      exact absurd hsplit.1 (by decide)
    · unfold Separated logName
      simp only [String.toList_append, List.mem_append, not_or]
      exact ⟨⟨⟨by decide, h.separated⟩, by decide⟩, hproper.2⟩
    · have hmem := List.mem_of_mem_filter hdots
      rw [splitOn_logName h hstream] at hmem
      rcases List.mem_cons.mp hmem with hbad | hmem
      · exact absurd hbad (by decide)
      · rcases List.mem_pair.mp hmem with hbad | hbad
        · exact hne hbad.symm
        · exact hproper.1 hbad.symm

theorem blobTarget_logName (blobDir : Path) (h : AcceptedId serviceId) (hstream : stream ∈ logStreams) :
    blobTarget blobDir (logName serviceId stream) = ⟨blobDir, ["terminal_services", serviceId, stream]⟩ := by
  rw [blobTarget, Raw.join, isAbsolute_logName, if_neg Bool.false_ne_true, splitOn_logName h hstream]
  rfl

theorem placeOf_logName (blobDir : Path) (h : AcceptedId serviceId) (hstream : stream ∈ logStreams) :
    placeOf blobDir (logName serviceId stream) = blobDir ++
      ((if serviceId = ".." then [] else "terminal_services" :: if serviceId = "." then [] else [serviceId]) ++
        [stream]) := by
  have hproper : stays stream = false ∧ stream ≠ ".." := by
    rcases List.mem_pair.mp hstream with rfl | rfl <;> decide
  have hfirst : advance blobDir "terminal_services" = blobDir ++ ["terminal_services"] :=
    advance_name (by decide) (by decide)
  rw [placeOf, blobTarget_logName blobDir h hstream]
  show advance (advance (advance blobDir "terminal_services") serviceId) stream = _
  rw [advance_name hproper.1 hproper.2, hfirst, ← List.append_assoc blobDir]
  congr 1
  by_cases hup : serviceId = ".."
  · rw [hup, if_pos rfl, List.append_nil]
    exact List.dropLast_concat
  · rw [if_neg hup]
    by_cases hstay : serviceId = "."
    · rw [hstay, if_pos rfl]
      exact advance_stays (by decide)
    · have hname : stays serviceId = false := by simp [stays, h.nonempty, hstay]
      rw [if_neg hstay, advance_name hname hup, List.append_assoc]
      rfl

theorem not_unwritable_logName (blobDir : Path) (h : AcceptedId "..") (hstream : stream ∈ logStreams) :
    ¬ Unwritable blobDir (logName ".." stream) := by
  have hproper : stays stream = false ∧ stream ≠ ".." ∧ stream ≠ "terminal_services" ∧
      Raw.hasNul ⟨blobDir, ["terminal_services", "..", stream]⟩ = false := by
    rcases List.mem_pair.mp hstream with rfl | rfl <;> exact ⟨by decide, by decide, by decide, by rfl⟩
  obtain ⟨hstays, hdots, hother, hnul⟩ := hproper
  have hplace := placeOf_logName blobDir h hstream
  rw [if_pos rfl, List.nil_append] at hplace
  have hshort (q : Path) (hq : q = blobDir) : ¬ blobDir ++ [stream] <+: q := by
    rintro hprefix
    have hlength := hprefix.length_le
    rw [hq, List.length_append, List.length_singleton] at hlength
    omega
  rw [Unwritable, blobTarget_logName blobDir h hstream, hplace]
  rintro (hbad | ⟨last, hlast, hbad⟩ | ⟨q, hq, hprefix⟩)
  · rw [hnul] at hbad
    cases hbad
  · obtain rfl : stream = last := Option.some.inj hlast
    rcases hbad with hbad | hbad
    · rw [hstays] at hbad
      cases hbad
    · exact hdots hbad
  · have hpassed : q ∈ [blobDir, blobDir, blobDir ++ ["terminal_services"], blobDir] := by
      have hup : advance (blobDir ++ ["terminal_services"]) ".." = blobDir := List.dropLast_concat
      have hdown : advance blobDir "terminal_services" = blobDir ++ ["terminal_services"] :=
        advance_name (by decide) (by decide)
      have hsame : passed blobDir ["terminal_services", ".."] =
          [blobDir, blobDir ++ ["terminal_services"], blobDir] := by
        rw [passed, passed, passed, hdown, hup]
      exact hsame ▸ hq
    simp only [List.mem_cons, List.not_mem_nil, or_false] at hpassed
    rcases hpassed with hq | hq | hq | hq
    · exact hshort q hq hprefix
    · exact hshort q hq hprefix
    · rw [hq, List.prefix_append_right_inj, List.cons_prefix_cons] at hprefix
      exact hother hprefix.1
    · exact hshort q hq hprefix

/-- **the logs of a service lead back exactly when its id is not `..`** -/
theorem logs_lead_back_iff (h : AcceptedId serviceId) :
    (∀ stream ∈ logStreams, LeadsBack (blobDirOf stateRoot jobId) jobId (logName serviceId stream)) ↔
      serviceId ≠ ".." := by
  constructor
  · rintro hback rfl
    have hstream : "stdout.log" ∈ logStreams := List.mem_cons_self
    rcases leadsBack_iff.mp (hback _ hstream) with hbad | hplain
    · exact not_unwritable_logName _ h hstream hbad
    · exact (plain_logName_iff h hstream).mp hplain rfl
  · exact fun hne stream hstream => leadsBack_iff.mpr (Or.inr ((plain_logName_iff h hstream).mpr hne))

/-! ## different services -/

theorem placeOf_logName_inj {stream' : String} (blobDir : Path) (h : AcceptedId serviceId) (hother : AcceptedId other)
    (hstream : stream ∈ logStreams) (hstream' : stream' ∈ logStreams)
    (hsame : placeOf blobDir (logName serviceId stream) = placeOf blobDir (logName other stream')) :
    serviceId = other := by
  rw [placeOf_logName blobDir h hstream, placeOf_logName blobDir hother hstream', List.append_cancel_left_eq] at hsame
  have hfront := List.append_inj_left' hsame rfl
  by_cases hup : serviceId = ".." <;> by_cases hup' : other = ".."
  · rw [hup, hup']
  · rw [if_pos hup, if_neg hup'] at hfront
    cases hfront
  · rw [if_neg hup, if_pos hup'] at hfront
    cases hfront
  · rw [if_neg hup, if_neg hup', List.cons.injEq, and_iff_right rfl] at hfront
    by_cases hstay : serviceId = "." <;> by_cases hstay' : other = "."
    · rw [hstay, hstay']
    · rw [if_pos hstay, if_neg hstay'] at hfront
      cases hfront
    · rw [if_neg hstay, if_pos hstay'] at hfront
      cases hfront
    · rw [if_neg hstay, if_neg hstay'] at hfront
      exact List.singleton_inj.mp hfront

theorem registryFile_ne (h : AcceptedId serviceId) (hstream : stream ∈ logStreams) :
    registryFile stateRoot jobId other ≠ placeOf (blobDirOf stateRoot jobId) (logName serviceId stream) := by
  rw [placeOf_logName _ h hstream, registryFile, blobDirOf, List.append_assoc, Ne, List.append_cancel_left_eq]
  intro hsame
  exact absurd (List.cons.inj hsame).1 (by decide)

theorem serviceFiles_disjoint (h : AcceptedId serviceId) (hother : AcceptedId other) (hne : serviceId ≠ other) :
    List.Disjoint (serviceFiles stateRoot jobId serviceId) (serviceFiles stateRoot jobId other) := by
  intro p hp hp'
  rcases List.mem_cons.mp hp with rfl | hp <;> rcases List.mem_cons.mp hp' with hsame | hp'
  · rw [registryFile, registryFile, List.append_cancel_left_eq] at hsame
    have hfile := List.head_eq_of_cons_eq (List.tail_eq_of_cons_eq (List.tail_eq_of_cons_eq hsame))
    exact hne ((String.append_left_inj _).mp hfile)
  · obtain ⟨stream, hstream, hplace⟩ := List.mem_map.mp hp'
    exact registryFile_ne hother hstream hplace.symm
  · obtain ⟨stream, hstream, hplace⟩ := List.mem_map.mp hp
    exact registryFile_ne h hstream (hsame.symm.trans hplace.symm)
  · obtain ⟨stream, hstream, rfl⟩ := List.mem_map.mp hp
    obtain ⟨stream', hstream', hplace⟩ := List.mem_map.mp hp'
    exact hne (placeOf_logName_inj _ h hother hstream hstream' hplace.symm)

end

/-- **the refs of a name lead back exactly when the name is plain or cannot be written, those of the logs of a service
exactly when its id is not `..`; different services have no file in common** -/
theorem service_blobs_iff (stateRoot : Path) (jobId : String) :
    (∀ name, LeadsBack (blobDirOf stateRoot jobId) jobId name ↔
      Unwritable (blobDirOf stateRoot jobId) name ∨ Plain name) ∧
    ∀ serviceId, AcceptedId serviceId →
      ((∀ stream ∈ logStreams, LeadsBack (blobDirOf stateRoot jobId) jobId (logName serviceId stream)) ↔
        serviceId ≠ "..") ∧
      ∀ other, AcceptedId other → serviceId ≠ other →
        List.Disjoint (serviceFiles stateRoot jobId serviceId) (serviceFiles stateRoot jobId other) :=
  ⟨fun _ => leadsBack_iff, fun _ h => ⟨logs_lead_back_iff h, fun _ => serviceFiles_disjoint h⟩⟩

theorem accepted_web : AcceptedId "web" := ⟨" web ", by decide +kernel⟩

theorem accepted_api : AcceptedId "api" := ⟨"api", by decide +kernel⟩

theorem service_blobs_web :
    (∀ stream ∈ logStreams, LeadsBack (blobDirOf ["state"] "job") "job" (logName "web" stream)) ∧
      List.Disjoint (serviceFiles ["state"] "job" "web") (serviceFiles ["state"] "job" "api") :=
  ⟨(((service_blobs_iff ["state"] "job").2 "web" accepted_web).1).mpr (by decide),
    ((service_blobs_iff ["state"] "job").2 "web" accepted_web).2 "api" accepted_api (by decide)⟩

/-- the id `..` is accepted, its log is written, and the ref of the log is refused; so is the ref of `a\..` -/
theorem parent_service_lost : validateServiceId ".." = .ok ".." ∧
    (∃ disk', Ok (Truth.writeBlob ["blobs", "job"] "job" (logName ".." "stdout.log") []) Tree.empty
      "blob://job/terminal_services/../stdout.log" disk' ∧ disk'.entry ["blobs", "job", "stdout.log"] =
        some (.file [])) ∧
    resolveBlobRef "job" "blob://job/terminal_services/../stdout.log" =
      .error "blob ref leaves blob store boundary" ∧
    ¬ LeadsBack ["blobs", "job"] "job" (logName ".." "stdout.log") ∧ ¬ LeadsBack ["blobs", "job"] "job" "a\\..\\b" := by
  have haccepted : validateServiceId ".." = .ok ".." := by decide +kernel
  have hid : AcceptedId ".." := ⟨"..", haccepted⟩
  have hstream : "stdout.log" ∈ logStreams := List.mem_cons_self
  have hlog : ¬ LeadsBack ["blobs", "job"] "job" (logName ".." "stdout.log") := by
    rw [leadsBack_iff]
    rintro (hbad | hplain)
    · exact not_unwritable_logName _ hid hstream hbad
    · exact (plain_logName_iff hid hstream).mp hplain rfl
  refine ⟨haccepted, ?_, by decide +kernel, hlog, ?_⟩
  · obtain ⟨disk', hwrite⟩ := exists_writeBlob "job" [] (not_unwritable_logName ["blobs", "job"] hid hstream)
    obtain ⟨-, hmakes, -⟩ := Truth.writeBlob_ok hwrite
    rw [placeOf_logName _ hid hstream] at hmakes
    exact ⟨disk', hwrite, hmakes.1⟩
  · rw [leadsBack_iff]
    rintro (hbad | hplain)
    · exact absurd hbad (by decide +kernel)
    · exact absurd hplain.separated (by decide)

end Terminal

import SuperNova.Os.Kernel
import SuperNova.Provider.Stored

/-!
# What the recorders write

* `resolve_ref`: the ref of a file leads to its path;
* `path_eq_iff` (**main**): different files have different paths, but for the results of tool calls whose
  ids have the same safe form;
* `Proper`: the files have different names, and an event refers to files that are written before it;
* `writesOf_proper` (**main**): so does every recorder;
* `evidence_writes`: the store after some writes.
-/

set_option linter.unusedSectionVars false

namespace Provider

open Text Workspace Truth

/-! ## names -/

theorem safeName_safeBlobName (s : String) : Os.SafeName (safeBlobName s) := by
  intro c hc
  rw [safeBlobName, toList_mapChars] at hc
  obtain ⟨a, -, rfl⟩ := List.mem_map.mp hc
  split
  · assumption
  · rfl

theorem component_of_safe {s : String} (h : Os.SafeName s) (hline : '_' ∈ s.toList) : Component s where
  nonempty := by
    rintro rfl
    exact absurd hline (by decide)
  ne_dot := by
    rintro rfl
    exact absurd hline (by decide)
  ne_dots := by
    rintro rfl
    exact absurd hline (by decide)
  noSlash := fun hslash => absurd (h _ hslash) (by decide)
  noBackslash := fun hslash => absurd (h _ hslash) (by decide)

theorem component_around {front middle back : String} (hfront : Os.SafeName front)
    (hline : '_' ∈ front.toList) (hmiddle : Os.SafeName middle) (hback : Os.SafeName back) :
    Component (front ++ middle ++ back) := by
  refine component_of_safe (Os.safeName_append (Os.safeName_append hfront hmiddle) hback) ?_
  simp [hline]

theorem TranscriptFile.component (file : TranscriptFile) : Component file.name := by
  cases file with
  | messages => exact ⟨by decide, by decide, by decide, by decide, by decide⟩
  | summary => exact ⟨by decide, by decide, by decide, by decide, by decide⟩
  | tool callId =>
    exact component_around (by decide) (by decide) (safeName_safeBlobName callId) (by decide)
  | assistant index | reasoning index | user index | userControl index | liveSuffix index
  | messagesCompacted index | summaryCompacted index =>
    exact component_around (by decide) (by decide) (Os.safeName_toString index) (by decide)

theorem component_transcriptId (r : Recorder) : Component (safeBlobName r.transcriptId) := by
  refine component_of_safe (safeName_safeBlobName _) ?_
  rw [safeBlobName, toList_mapChars]
  refine List.mem_map.mpr ⟨'_', ?_, rfl⟩
  rw [replaceChar, toList_mapChars]
  refine List.mem_map.mpr ⟨'_', ?_, rfl⟩
  simp [Recorder.transcriptId]

theorem component_root : Component "provider_transcripts" :=
  component_of_safe (by decide) (by decide)

theorem plain_blobName (r : Recorder) (file : TranscriptFile) : Plain (r.blobName file) := by
  unfold Recorder.blobName
  exact (component_root.plain.append (component_transcriptId r)).append file.component

theorem path_eq (r : Recorder) (file : TranscriptFile) :
    r.path file = ["provider_transcripts", safeBlobName r.transcriptId, file.name] := by
  have hroot := component_root.components
  have hid := (component_transcriptId r).components
  have hname := file.component.components
  unfold Recorder.path Recorder.blobName blobPath
  generalize "provider_transcripts" = root at hroot ⊢
  generalize safeBlobName r.transcriptId = id at hid ⊢
  generalize file.name = name at hname ⊢
  rw [components_append, components_append, hroot, hid, hname]
  rfl

theorem resolve_ref (r : Recorder) (file : TranscriptFile) :
    resolveBlobRef r.jobId (r.ref file) = .ok (r.path file) := by
  unfold Recorder.ref Recorder.path
  exact resolveBlobRef_blobRef r.jobId (plain_blobName r file)

/-! ## different files -/

theorem append_right_inj {s s' t : String} (h : s ++ t = s' ++ t) : s = s' := by
  have hlist := congrArg String.toList h
  rw [String.toList_append, String.toList_append] at hlist
  exact String.toList_injective (List.append_cancel_right hlist)

theorem middle_inj {front middle middle' back : String}
    (h : front ++ middle ++ back = front ++ middle' ++ back) : middle = middle' :=
  append_left_inj (append_right_inj h)

def TranscriptFile.initial : TranscriptFile → Char
  | messages | messagesCompacted _ => 'm'
  | summary | summaryCompacted _ => 's'
  | assistant _ => 'a'
  | reasoning _ => 'r'
  | user _ | userControl _ => 'u'
  | tool _ => 't'
  | liveSuffix _ => 'l'

theorem head_append (c : Char) (s t : String) (h : s.toList.head? = some c) :
    (s ++ t).toList.head? = some c := by
  rw [String.toList_append, List.head?_append, h]
  rfl

theorem TranscriptFile.head_name (file : TranscriptFile) :
    file.name.toList.head? = some file.initial := by
  cases file with
  | messages | summary => rfl
  | assistant index | reasoning index | user index | userControl index | tool callId
  | liveSuffix index | messagesCompacted index | summaryCompacted index =>
    exact head_append _ _ _ (head_append _ _ _ rfl)

theorem number_ne_control (n : Nat) (t t' : String) : toString n ++ t ≠ "control_" ++ t' := by
  intro h
  have hhead := congrArg (fun s : String => s.toList.head?) h
  cases hdigits : (toString n).toList with
  | nil =>
    rw [toList_toString] at hdigits
    exact Nat.toDigits_ne_nil hdigits
  | cons c rest =>
    have hdigit : c.isDigit = true := isDigit_of_mem_toString (hdigits ▸ List.mem_cons_self)
    have hc : (toString n ++ t).toList.head? = some c := head_append c _ _ (by rw [hdigits]; rfl)
    have hcontrol : ("control_" ++ t').toList.head? = some 'c' := head_append 'c' _ _ rfl
    rw [h, hcontrol] at hc
    rw [← Option.some.inj hc] at hdigit
    exact absurd hdigit (by decide)

theorem numbered_inj {front back : String} {m n : Nat}
    (h : front ++ toString m ++ back = front ++ toString n ++ back) : m = n :=
  toString_inj (middle_inj h)

theorem ne_of_common {start t t' : String} (c c' : Char) (h : t.toList.head? = some c)
    (h' : t'.toList.head? = some c') (hne : c ≠ c') : start ++ t ≠ start ++ t' := by
  intro heq
  rw [append_left_inj heq, h'] at h
  exact hne (Option.some.inj h).symm

theorem user_ne_userControl (m n : Nat) :
    (TranscriptFile.user m).name ≠ (TranscriptFile.userControl n).name := by
  intro h
  have hsplit : "user_" ++ (toString m ++ ".json") = "user_" ++ ("control_" ++ (toString n ++ ".json")) := by
    rw [← String.append_assoc, ← String.append_assoc, ← String.append_assoc]
    exact h
  exact number_ne_control m _ _ (append_left_inj hsplit)

theorem messages_ne_compacted (n : Nat) :
    TranscriptFile.messages.name ≠ (TranscriptFile.messagesCompacted n).name := by
  intro h
  have hsplit : "messages" ++ ".json" = "messages" ++ ("_compacted_" ++ (toString n ++ ".json")) := by
    rw [← String.append_assoc, ← String.append_assoc]
    exact h
  exact ne_of_common '.' '_' rfl (head_append '_' _ _ rfl) (by decide) hsplit

theorem summary_ne_compacted (n : Nat) :
    TranscriptFile.summary.name ≠ (TranscriptFile.summaryCompacted n).name := by
  intro h
  have hsplit : "summary" ++ ".json" = "summary" ++ ("_compacted_" ++ (toString n ++ ".json")) := by
    rw [← String.append_assoc, ← String.append_assoc]
    exact h
  exact ne_of_common '.' '_' rfl (head_append '_' _ _ rfl) (by decide) hsplit

theorem TranscriptFile.name_inj {f g : TranscriptFile} (h : f.name = g.name) : f.key = g.key := by
  have hinitial : f.initial = g.initial := by
    have hhead := f.head_name
    rw [h, g.head_name] at hhead
    exact (Option.some.inj hhead).symm
  -- files whose names start with one letter are of one kind, or of the three pairs above
  cases f with
  | messages =>
    cases g with
    | messages => rfl
    | messagesCompacted stamp => exact absurd h (messages_ne_compacted stamp)
    | _ => simp [initial] at hinitial
  | messagesCompacted stamp =>
    cases g with
    | messages => exact absurd h.symm (messages_ne_compacted stamp)
    | messagesCompacted stamp' => exact congrArg messagesCompacted (numbered_inj h)
    | _ => simp [initial] at hinitial
  | summary =>
    cases g with
    | summary => rfl
    | summaryCompacted stamp => exact absurd h (summary_ne_compacted stamp)
    | _ => simp [initial] at hinitial
  | summaryCompacted stamp =>
    cases g with
    | summary => exact absurd h.symm (summary_ne_compacted stamp)
    | summaryCompacted stamp' => exact congrArg summaryCompacted (numbered_inj h)
    | _ => simp [initial] at hinitial
  | user index =>
    cases g with
    | user index' => exact congrArg user (numbered_inj h)
    | userControl index' => exact absurd h (user_ne_userControl index index')
    | _ => simp [initial] at hinitial
  | userControl index =>
    cases g with
    | user index' => exact absurd h.symm (user_ne_userControl index' index)
    | userControl index' => exact congrArg userControl (numbered_inj h)
    | _ => simp [initial] at hinitial
  | assistant index =>
    cases g with
    | assistant index' => exact congrArg assistant (numbered_inj h)
    | _ => simp [initial] at hinitial
  | reasoning index =>
    cases g with
    | reasoning index' => exact congrArg reasoning (numbered_inj h)
    | _ => simp [initial] at hinitial
  | liveSuffix stamp =>
    cases g with
    | liveSuffix stamp' => exact congrArg liveSuffix (numbered_inj h)
    | _ => simp [initial] at hinitial
  | tool callId =>
    cases g with
    | tool callId' => exact congrArg tool (middle_inj h)
    | _ => simp [initial] at hinitial

theorem TranscriptFile.name_key (file : TranscriptFile) : file.key.name = file.name := by
  cases file with
  | tool callId =>
    show "tool_" ++ safeBlobName (safeBlobName callId) ++ ".json" = _
    rw [show safeBlobName (safeBlobName callId) = safeBlobName callId from
      Os.safeBlobName_of_safe (safeName_safeBlobName callId)]
    rfl
  | _ => rfl

/-- **different files are in different places** -/
theorem path_eq_iff (r : Recorder) {f g : TranscriptFile} : r.path f = r.path g ↔ f.key = g.key := by
  rw [path_eq, path_eq]
  constructor
  · intro h
    exact TranscriptFile.name_inj (List.cons.inj (List.cons.inj (List.cons.inj h).2).2).1
  · intro h
    rw [← f.name_key, ← g.name_key, h]

end Provider

namespace Provider

open Answers Workspace Truth

/-! ## lists of writes -/

def filesOf : List Write → List (TranscriptFile × Blob)
  | [] => []
  | .file file content :: writes => (file, content) :: filesOf writes
  | .event _ _ :: writes => filesOf writes

def eventsOf : List Write → List StoredEvent
  | [] => []
  | .file _ _ :: writes => eventsOf writes
  | .event event _ :: writes => event :: eventsOf writes

def citesOf : List Write → List (TranscriptFile × Blob)
  | [] => []
  | .file _ _ :: writes => citesOf writes
  | .event _ cites :: writes => cites ++ citesOf writes

/-- every event cites files that are there when it is appended -/
def CitesWritten : List (TranscriptFile × Blob) → List Write → Prop
  | _, [] => True
  | seen, .file file content :: writes => CitesWritten (seen ++ [(file, content)]) writes
  | seen, .event _ cites :: writes => (∀ c ∈ cites, c ∈ seen) ∧ CitesWritten seen writes

/-- the files of single messages -/
def TranscriptFile.OfMessage : TranscriptFile → Prop
  | assistant _ | reasoning _ | tool _ => True
  | _ => False

@[simp] theorem ofMessage_assistant (index : Nat) : (TranscriptFile.assistant index).OfMessage := trivial

@[simp] theorem ofMessage_reasoning (index : Nat) : (TranscriptFile.reasoning index).OfMessage := trivial

@[simp] theorem ofMessage_tool (callId : String) : (TranscriptFile.tool callId).OfMessage := trivial

/-- the refs of an event are those of what it cites -/
def Write.RefsCited (r : Recorder) : Write → Prop
  | .file _ _ => True
  | .event e cites => e.messageRefs = cites.map (fun c => r.ref c.1) ∧ ∀ c ∈ cites, c.1.OfMessage

structure Proper (r : Recorder) (writes : List Write) : Prop where
  distinct : ((filesOf writes).map (·.1.key)).Nodup
  cites : CitesWritten [] writes
  refs : ∀ w ∈ writes, w.RefsCited r

section
variable {r : Recorder} {s : TruthStore} {writes more : List Write} {seen : List (TranscriptFile × Blob)}
  {file : TranscriptFile} {content : Blob}

@[simp] theorem filesOf_append : filesOf (writes ++ more) = filesOf writes ++ filesOf more := by
  induction writes with
  | nil => rfl
  | cons w writes ih =>
    cases w with
    | file f c => exact congrArg ((f, c) :: ·) ih
    | event e cites => exact ih

@[simp] theorem eventsOf_append : eventsOf (writes ++ more) = eventsOf writes ++ eventsOf more := by
  induction writes with
  | nil => rfl
  | cons w writes ih =>
    cases w with
    | file f c => exact ih
    | event e cites => exact congrArg (e :: ·) ih

theorem mem_citesOf {event : StoredEvent} {cites : List (TranscriptFile × Blob)}
    {c : TranscriptFile × Blob} (h : .event event cites ∈ writes) (hc : c ∈ cites) : c ∈ citesOf writes := by
  induction writes with
  | nil => exact absurd h List.not_mem_nil
  | cons w writes ih =>
    rcases List.mem_cons.mp h with rfl | hrest
    · exact List.mem_append_left _ hc
    · cases w with
      | file f x => exact ih hrest
      | event e cites' => exact List.mem_append_right _ (ih hrest)

theorem mem_filesOf : (file, content) ∈ filesOf writes ↔ .file file content ∈ writes := by
  induction writes with
  | nil => simp [filesOf]
  | cons w writes ih =>
    cases w with
    | file f c => simp [filesOf, ih]
    | event e cites => simp [filesOf, ih]

theorem citesWritten_append :
    CitesWritten seen (writes ++ more) ↔
      CitesWritten seen writes ∧ CitesWritten (seen ++ filesOf writes) more := by
  induction writes generalizing seen with
  | nil => simp [CitesWritten, filesOf]
  | cons w writes ih =>
    cases w with
    | file f c =>
      rw [List.cons_append, CitesWritten, CitesWritten, ih]
      simp [filesOf]
    | event e cites =>
      rw [List.cons_append, CitesWritten, CitesWritten, ih, and_assoc]
      rfl

theorem CitesWritten.mem {c : TranscriptFile × Blob} (h : CitesWritten seen writes)
    (hc : c ∈ citesOf writes) : c ∈ seen ++ filesOf writes := by
  induction writes generalizing seen with
  | nil => exact absurd hc List.not_mem_nil
  | cons w writes ih =>
    cases w with
    | file f x =>
      have hmem := ih h hc
      rwa [List.append_assoc] at hmem
    | event e cites =>
      rcases List.mem_append.mp hc with hnow | hlater
      · exact List.mem_append_left _ (h.1 c hnow)
      · exact ih h.2 hlater

theorem Proper.take (h : Proper r writes) (n : Nat) : Proper r (writes.take n) := by
  have hsplit := List.take_append_drop n writes
  obtain ⟨hdistinct, hcites, hrefs⟩ := h
  rw [← hsplit, filesOf_append, List.map_append] at hdistinct
  rw [← hsplit, citesWritten_append] at hcites
  exact ⟨hdistinct.of_append_left, hcites.1, fun w hw => hrefs w (List.mem_of_mem_take hw)⟩

theorem Proper.cut (h : Proper r writes) (stop : Option Nat) : Proper r (cutWrites stop writes) := by
  cases stop with
  | none => exact h
  | some n => exact h.take n

theorem proper_nil : Proper r [] := ⟨List.nodup_nil, trivial, fun _ hw => absurd hw List.not_mem_nil⟩

/-! ## the store after some writes -/

@[simp] theorem events_writes :
    (writes.foldl (TruthStore.write r) s).events = s.events ++ eventsOf writes := by
  induction writes generalizing s with
  | nil => exact (List.append_nil _).symm
  | cons w writes ih =>
    rw [List.foldl_cons, ih]
    cases w with
    | file f c => rfl
    | event e cites =>
      show (s.events ++ [e]) ++ eventsOf writes = s.events ++ (e :: eventsOf writes)
      simp

@[simp] theorem cited_writes :
    (writes.foldl (TruthStore.write r) s).cited = s.cited ++ citesOf writes := by
  induction writes generalizing s with
  | nil => exact (List.append_nil _).symm
  | cons w writes ih =>
    rw [List.foldl_cons, ih]
    cases w with
    | file f c => rfl
    | event e cites => exact List.append_assoc s.cited cites _

/-- a file where it is -/
def Recorder.at (r : Recorder) (c : TranscriptFile × Blob) : Path × Blob := (r.path c.1, c.2)

/-- the store as files and citations -/
def TruthStore.evidence (r : Recorder) (s : TruthStore) : Evidence.Store Path Blob :=
  ⟨s.files, s.cited.map r.at⟩

theorem evidence_file :
    (s.write r (.file file content)).evidence r = (s.evidence r).write (r.at (file, content)) := by
  rfl

theorem evidence_event {event : StoredEvent} {cites : List (TranscriptFile × Blob)} :
    (s.write r (.event event cites)).evidence r = (s.evidence r).cite (cites.map r.at) := by
  unfold TruthStore.evidence TruthStore.write Evidence.Store.cite
  rw [List.map_append]

theorem evidence_writes :
    (writes.foldl (TruthStore.write r) s).evidence r =
      (((filesOf writes).map r.at).foldl Evidence.Store.write (s.evidence r)).cite
        ((citesOf writes).map r.at) := by
  induction writes generalizing s with
  | nil => exact (Evidence.cite_nil _).symm
  | cons w writes ih =>
    rw [List.foldl_cons, ih]
    cases w with
    | file f c =>
      rw [evidence_file]
      rfl
    | event e cites =>
      rw [evidence_event, Evidence.writes_cite, Evidence.cite_cite, ← List.map_append]
      rfl

theorem nodup_paths (h : ((filesOf writes).map (·.1.key)).Nodup) :
    (((filesOf writes).map r.at).map Prod.fst).Nodup := by
  rw [List.map_map]
  refine List.Nodup.map_on ?_ h.of_map
  intro c hc d hd hpath
  exact List.inj_on_of_nodup_map h hc hd ((path_eq_iff r).mp hpath)

theorem Proper.written (h : Proper r writes) (hmem : .file file content ∈ writes) :
    (writes.foldl (TruthStore.write r) s).files (r.path file) = some content := by
  have hevidence := congrArg Evidence.Store.files (@evidence_writes r s writes)
  have hat : r.at (file, content) ∈ (filesOf writes).map r.at :=
    List.mem_map_of_mem (mem_filesOf.mpr hmem)
  exact (congrFun hevidence (r.path file)).trans
    (Evidence.files_writes (nodup_paths h.distinct) hat)

theorem not_written (h : ∀ c ∈ filesOf writes, c.1.key ≠ file.key) :
    (writes.foldl (TruthStore.write r) s).files (r.path file) = s.files (r.path file) := by
  have hevidence := congrArg Evidence.Store.files (@evidence_writes r s writes)
  refine (congrFun hevidence (r.path file)).trans (Evidence.files_writes_of_not_mem ?_)
  rw [List.map_map]
  intro hmem
  obtain ⟨c, hc, hpath⟩ := List.mem_map.mp hmem
  exact h c hc ((path_eq_iff r).mp hpath)

end

/-! ## each recorder -/

/-- what a recorder can write -/
inductive Writes (r : Recorder) (s : TruthStore) : Op → List Write → Prop
  | nothing (op : Op) : Writes r s op []
  | assistant {response : ModelProviderResponse} {assistant : ProviderAssistantMessage}
      {messages : List ProviderTranscriptMessage} (storeReasoningContent : Bool)
      (hassistant : assistantOf response = some assistant)
      (hmessages : readMessages r s (replayState s.events) = .ok messages) :
      Writes r s (.assistantResponse response storeReasoningContent)
        (assistantWrites r (replayState s.events) messages assistant storeReasoningContent)
  | tool {id : String} {previous : ProviderTranscriptState} {messages : List ProviderTranscriptMessage}
      (toolResult : Json) (hprevious : replayState s.events = some previous)
      (hpending : previous.pendingToolCalls.any (·.providerToolCallId == id) = true)
      (hmessages : readProviderMessages r s previous = .ok messages) :
      Writes r s (.toolResult id toolResult) (toolWrites r previous messages id toolResult)
  | user {messages : List ProviderTranscriptMessage} (content : String)
      (hmessages : readMessages r s (replayState s.events) = .ok messages) :
      Writes r s (.userMessage content) (createdWrites (replayState s.events) ++
        userWrites r (replayState s.events) messages (userMessage content) (.user messages.length)
          (.userMessageRecorded (r.ref (.user messages.length)) (r.ref .messages) (r.ref .summary)
            messages.length))
  | control {previous : ProviderTranscriptState} {messages : List ProviderTranscriptMessage}
      (controlMessage : Json) (hprevious : replayState s.events = some previous)
      (hmessages : readProviderMessages r s previous = .ok messages) :
      Writes r s (.userControl controlMessage)
        (userWrites r (some previous) messages
          (userMessage (providerToolResultContent r.codec controlMessage)) (.userControl messages.length)
          (.userControlMessageRecorded (r.ref (.userControl messages.length)) (r.ref .messages)
            (r.ref .summary) messages.length))
  | replacement {previous : ProviderTranscriptState} {messages : List ProviderTranscriptMessage}
      (summaryText : String) (minLiveSuffixTurns stamp : Nat)
      (hprevious : replayState s.events = some previous)
      (hmessages : readProviderMessages r s previous = .ok messages) :
      Writes r s (.replacement summaryText minLiveSuffixTurns stamp)
        (replacementWrites r previous
          (messages.drop (liveSuffixStartIndex messages previous.pendingToolCalls minLiveSuffixTurns))
          (userMessage summaryText ::
            messages.drop (liveSuffixStartIndex messages previous.pendingToolCalls minLiveSuffixTurns))
          stamp)

section
variable {r : Recorder} {s : TruthStore} {op : Op} {writes : List Write}
  {previous : ProviderTranscriptState} {messages : List ProviderTranscriptMessage}
  {latest : Option String} {pendingCount : Nat} {reasoningRefs : List String}
  {seen : List (TranscriptFile × Blob)}

theorem writesOf_cases (h : writesOf r s op = .ok writes) : Writes r s op writes := by
  cases op with
  | assistantResponse response storeReasoningContent =>
    rw [writesOf, TruthStore.recordProviderAssistantResponse] at h
    cases hassistant : assistantOf response with
    | none =>
      rw [hassistant] at h
      cases h
      exact .nothing _
    | some assistant =>
      rw [hassistant] at h
      obtain ⟨messages, hmessages, hok⟩ := Io.result_bind_ok.mp h
      cases hok
      exact .assistant storeReasoningContent hassistant hmessages
  | toolResult id toolResult =>
    rw [writesOf, TruthStore.recordProviderToolResult] at h
    cases hprevious : replayState s.events with
    | none =>
      rw [hprevious] at h
      cases h
    | some previous =>
      rw [hprevious] at h
      dsimp only at h
      split at h
      · next hpending =>
        obtain ⟨messages, hmessages, hok⟩ := Io.result_bind_ok.mp h
        cases hok
        exact .tool toolResult hprevious hpending hmessages
      · cases h
  | userMessage content =>
    obtain ⟨messages, hmessages, hok⟩ := Io.result_bind_ok.mp h
    cases hok
    exact .user content hmessages
  | userControl controlMessage =>
    rw [writesOf, TruthStore.recordProviderUserControlMessage] at h
    cases hprevious : replayState s.events with
    | none =>
      rw [hprevious] at h
      cases h
      exact .nothing _
    | some previous =>
      rw [hprevious] at h
      obtain ⟨messages, hmessages, hok⟩ := Io.result_bind_ok.mp h
      cases hok
      exact .control controlMessage hprevious hmessages
  | replacement summaryText minLiveSuffixTurns stamp =>
    rw [writesOf, TruthStore.replaceProviderVisibleTranscript] at h
    cases hprevious : replayState s.events with
    | none =>
      rw [hprevious] at h
      cases h
      exact .nothing _
    | some previous =>
      rw [hprevious] at h
      obtain ⟨messages, hmessages, hok⟩ := Io.result_bind_ok.mp h
      split at hok
      · cases hok
        exact .nothing _
      · dsimp only at hok
        split at hok
        · cases hok
        · cases hok
          exact .replacement summaryText minLiveSuffixTurns stamp hprevious hmessages

theorem writesOf_assistant {response : ModelProviderResponse} {assistant : ProviderAssistantMessage}
    {store : Bool} (hassistant : assistantOf response = some assistant)
    (hmessages : readMessages r s (replayState s.events) = .ok messages) :
    writesOf r s (.assistantResponse response store) =
      .ok (assistantWrites r (replayState s.events) messages assistant store) := by
  show s.recordProviderAssistantResponse r response store = _
  unfold TruthStore.recordProviderAssistantResponse
  rw [hassistant]
  dsimp only
  rw [hmessages]
  rfl

theorem writesOf_tool {id : String} {toolResult : Json} (hprevious : replayState s.events = some previous)
    (hpending : previous.pendingToolCalls.any (·.providerToolCallId == id) = true)
    (hmessages : readProviderMessages r s previous = .ok messages) :
    writesOf r s (.toolResult id toolResult) = .ok (toolWrites r previous messages id toolResult) := by
  show s.recordProviderToolResult r id toolResult = _
  unfold TruthStore.recordProviderToolResult
  rw [hprevious]
  dsimp only
  rw [if_pos hpending, hmessages]
  rfl

/-! ## all writes are proper -/

theorem filesOf_transcriptWrites :
    (filesOf (transcriptWrites r messages latest pendingCount reasoningRefs)).map (·.1.key) =
      [.messages, .summary] := by
  unfold transcriptWrites
  split <;> rfl

theorem citesWritten_transcriptWrites :
    CitesWritten seen (transcriptWrites r messages latest pendingCount reasoningRefs) := by
  unfold transcriptWrites
  split <;> simp [CitesWritten]

theorem refs_transcriptWrites :
    ∀ w ∈ transcriptWrites r messages latest pendingCount reasoningRefs, w.RefsCited r := by
  unfold transcriptWrites
  split <;> simp [Write.RefsCited, StoredEvent.messageRefs]

theorem proper_created (previous : Option ProviderTranscriptState) : Proper r (createdWrites previous) := by
  cases previous with
  | none => exact ⟨List.nodup_nil, by simp [createdWrites, CitesWritten], by
      simp [createdWrites, Write.RefsCited, StoredEvent.messageRefs]⟩
  | some previous => exact proper_nil

theorem Proper.after_created (h : Proper r writes) (previous : Option ProviderTranscriptState) :
    Proper r (createdWrites previous ++ writes) := by
  cases previous with
  | some previous => exact h
  | none =>
    refine ⟨h.distinct, ⟨fun _ hc => absurd hc List.not_mem_nil, h.cites⟩, ?_⟩
    exact List.forall_mem_cons.mpr ⟨⟨rfl, by simp⟩, h.refs⟩

theorem filesOf_created (previous : Option ProviderTranscriptState) :
    filesOf (createdWrites previous) = [] := by
  cases previous <;> rfl

theorem proper_user (message : ProviderTranscriptMessage) {file : TranscriptFile} {event : StoredEvent}
    (hfile : file.key ≠ .messages ∧ file.key ≠ .summary) (hevent : event.messageRefs = [])
    (state : Option ProviderTranscriptState) :
    Proper r (userWrites r state messages message file event) where
  distinct := by
    unfold userWrites
    rw [filesOf_append, filesOf_append, List.map_append, List.map_append, filesOf_transcriptWrites]
    simp [filesOf, hfile]
  cites := by
    unfold userWrites
    rw [citesWritten_append, citesWritten_append]
    exact ⟨⟨by simp [CitesWritten], citesWritten_transcriptWrites⟩, by simp [CitesWritten]⟩
  refs := by
    unfold userWrites
    simp only [List.forall_mem_append]
    refine ⟨⟨?_, refs_transcriptWrites⟩, ?_⟩
    · simp [Write.RefsCited]
    · simp only [List.forall_mem_cons]
      exact ⟨⟨hevent, by simp⟩, ⟨rfl, by simp⟩, fun _ h => absurd h List.not_mem_nil⟩

theorem proper_tool (id : String) (toolResult : Json) :
    Proper r (toolWrites r previous messages id toolResult) where
  distinct := by
    unfold toolWrites
    rw [filesOf_append, filesOf_append, List.map_append, List.map_append, filesOf_transcriptWrites]
    simp [filesOf, TranscriptFile.key]
  cites := by
    unfold toolWrites
    rw [citesWritten_append, citesWritten_append]
    exact ⟨⟨by simp [CitesWritten], citesWritten_transcriptWrites⟩, by simp [CitesWritten, filesOf]⟩
  refs := by
    unfold toolWrites
    simp only [List.forall_mem_append]
    refine ⟨⟨?_, refs_transcriptWrites⟩, ?_⟩
    · simp [Write.RefsCited]
    · simp [Write.RefsCited, StoredEvent.messageRefs]

theorem proper_replacement (suffix replacement : List ProviderTranscriptMessage) (stamp : Nat) :
    Proper r (replacementWrites r previous suffix replacement stamp) where
  distinct := by simp [replacementWrites, filesOf, TranscriptFile.key]
  cites := by simp [replacementWrites, CitesWritten]
  refs := by simp [replacementWrites, Write.RefsCited, StoredEvent.messageRefs]

theorem filesOf_reasoning (index : Nat) (reasoning : Option String) :
    filesOf (reasoningWrites r index reasoning) = reasoningCites index reasoning := by
  cases reasoning <;> rfl

theorem citesWritten_reasoning (index : Nat) (reasoning : Option String) :
    CitesWritten seen (reasoningWrites r index reasoning) := by
  cases reasoning <;> simp [reasoningWrites, CitesWritten]

theorem refs_reasoning (index : Nat) (reasoning : Option String) :
    ∀ w ∈ reasoningWrites r index reasoning, w.RefsCited r := by
  cases reasoning <;> simp [reasoningWrites, Write.RefsCited, StoredEvent.messageRefs]

theorem filesOf_requests (index : Nat) (assistant : ProviderAssistantMessage) :
    filesOf (requestWrites r index assistant) = [] := by
  unfold requestWrites
  induction assistant.toolCalls with
  | nil => rfl
  | cons call calls ih => exact ih

theorem citesWritten_requests (index : Nat) (assistant : ProviderAssistantMessage)
    (h : (TranscriptFile.assistant index, Blob.message (assistantMessage assistant)) ∈ seen) :
    CitesWritten seen (requestWrites r index assistant) := by
  unfold requestWrites
  induction assistant.toolCalls with
  | nil => trivial
  | cons call calls ih =>
    refine ⟨?_, ih⟩
    intro c hc
    rw [List.mem_singleton.mp hc]
    exact h

theorem refs_requests (index : Nat) (assistant : ProviderAssistantMessage) :
    ∀ w ∈ requestWrites r index assistant, w.RefsCited r := by
  intro w hw
  obtain ⟨call, -, rfl⟩ := List.mem_map.mp hw
  exact ⟨rfl, by simp⟩

theorem refs_reasoningCites (index : Nat) (reasoning : Option String) :
    (reasoning.map fun _ => r.ref (.reasoning index)).toList =
      (reasoningCites index reasoning).map fun c => r.ref c.1 := by
  cases reasoning <;> rfl

theorem ofMessage_reasoningCites (index : Nat) (reasoning : Option String) :
    ∀ c ∈ reasoningCites index reasoning, c.1.OfMessage := by
  cases reasoning <;> simp [reasoningCites]

theorem proper_assistant (state : Option ProviderTranscriptState) (assistant : ProviderAssistantMessage)
    (storeReasoningContent : Bool) :
    Proper r (assistantWrites r state messages assistant storeReasoningContent) where
  distinct := by
    unfold assistantWrites
    simp only [filesOf_append, List.map_append, filesOf_transcriptWrites, filesOf_created,
      filesOf_reasoning, filesOf_requests]
    cases storedReasoning assistant storeReasoningContent <;>
      simp [filesOf, reasoningCites, TranscriptFile.key]
  cites := by
    unfold assistantWrites
    simp only [citesWritten_append, filesOf_append, filesOf_created, filesOf_reasoning]
    refine ⟨⟨⟨⟨⟨(proper_created (r := r) state).cites, citesWritten_reasoning _ _⟩, ?_⟩,
      citesWritten_transcriptWrites⟩, ?_⟩, citesWritten_requests _ _ ?_⟩
    · simp [CitesWritten]
    · simp only [CitesWritten, List.mem_append]
      refine ⟨fun c hc => by simp [hc], fun c hc => ?_, trivial⟩
      rcases List.mem_cons.mp hc with rfl | hc
      · simp [filesOf]
      · simp [hc]
    · simp [filesOf]
  refs := by
    unfold assistantWrites
    simp only [List.forall_mem_append]
    refine ⟨⟨⟨⟨⟨(proper_created state).refs, refs_reasoning _ _⟩, ?_⟩, refs_transcriptWrites⟩, ?_⟩,
      refs_requests _ _⟩
    · simp [Write.RefsCited]
    · simp only [List.forall_mem_cons]
      have hmessage := ofMessage_reasoningCites messages.length
        (storedReasoning assistant storeReasoningContent)
      refine ⟨⟨?_, hmessage⟩, ⟨?_, ?_⟩, fun _ h => absurd h List.not_mem_nil⟩
      · exact (List.append_nil _).trans (refs_reasoningCites _ _)
      · exact congrArg (r.ref (.assistant messages.length) :: ·) (refs_reasoningCites _ _)
      · exact List.forall_mem_cons.mpr ⟨trivial, hmessage⟩

/-- **what a recorder writes is proper** -/
theorem writesOf_proper (h : writesOf r s op = .ok writes) : Proper r writes := by
  cases writesOf_cases h with
  | nothing => exact proper_nil
  | assistant store hassistant hmessages => exact proper_assistant _ _ _
  | tool toolResult hprevious hpending hmessages => exact proper_tool _ _
  | user content hmessages =>
    refine Proper.after_created (proper_user _ ?_ ?_ _) _
    · exact ⟨by simp [TranscriptFile.key], by simp [TranscriptFile.key]⟩
    · rfl
  | control controlMessage hprevious hmessages =>
    exact proper_user _ ⟨by simp [TranscriptFile.key], by simp [TranscriptFile.key]⟩ rfl _
  | replacement summaryText minLiveSuffixTurns stamp hprevious hmessages =>
    exact proper_replacement _ _ _

end

end Provider

import SuperNova.Os.ZipFormat
import SuperNova.Truth.Blobs
import SuperNova.Workspace.Lengths

/-!
# The blobs of a chat

A text is written below the blobs of its chat thread, and the ref that is returned names the thread and the
file.  The part of the ref behind the thread is checked; the thread is not.

* `writeChatBlob`, `readChatBlobText`: the writer and the reader;
* `read_inside_iff`: a file that was read lies below the blobs of the thread unless the thread is `.` or `..`;
* `reads_back_iff`: a ref leads back to the text exactly for addressable threads and names without `\`;
* `chat_blobs_iff` (**main**): both.
-/

set_option linter.unusedSectionVars false

namespace Chat

open Paths Io FileTree Text Workspace Os

/-! ## refs -/

def parseChatBlobRef (blobRef : String) : Except Fault (String × String) :=
  match stripPrefix "chat_blob://" blobRef with
  | none => .error (.invalidInput "chat blob ref must use chat_blob://")
  | some raw =>
    match splitOnce '/' raw with
    | none => .error (.invalidInput "chat blob ref must include thread and path")
    | some (chatThreadId, relative) =>
      if chatThreadId = "" ∨ relative = "" then
        .error (.invalidInput "chat blob ref must include non-empty thread and path")
      else .ok (chatThreadId, relative)

def checkedRelativePath (value : String) : Except Fault (List String) :=
  if value = "" ∨ isAbsolute value = true then
    .error (.invalidInput "chat blob path must be a non-empty relative path")
  else if ".." ∈ components value then
    .error (.invalidInput "chat blob path must stay inside chat blob root")
  else .ok (components value)

def chatBlobRef (chatThreadId relative : String) : String :=
  "chat_blob://" ++ chatThreadId ++ "/" ++ relative

section
variable (stateRoot : Path)

def chatBlobRoot (chatThreadId : String) : Raw := Raw.join ⟨stateRoot, ["blobs", "chat"]⟩ chatThreadId

/-- where the blobs of a thread are -/
def threadPlace (chatThreadId : String) : Path :=
  placeAt (chatBlobRoot stateRoot chatThreadId).base (chatBlobRoot stateRoot chatThreadId).segments

def writeChatBlob (chatThreadId name : String) (content : Bytes) : DiskM String := do
  let safeName ← lift (checkedRelativePath name)
  let path := (chatBlobRoot stateRoot chatThreadId).joinNames safeName
  path.parent.createDirAll
  path.write content
  pure (chatBlobRef chatThreadId (normalizePath (join "/" safeName)))

/-- `read_to_string` of a file -/
def textOf (content : Bytes) : Except Fault String :=
  match String.fromUTF8? ⟨content.toArray⟩ with
  | some text => .ok text
  | none => .error (.invalidData "stream did not contain valid UTF-8")

def readChatBlobText (blobRef : String) : DiskM String := do
  let (chatThreadId, relative) ← lift (parseChatBlobRef blobRef)
  let safeName ← lift (checkedRelativePath relative)
  let content ← ((chatBlobRoot stateRoot chatThreadId).joinNames safeName).read
  lift (textOf content)

/-- the file that a ref leads to lies below the blobs of the thread that it names -/
def ReadInside (disk : Disk) (blobRef : String) : Prop :=
  ∃ chatThreadId relative safeName place, parseChatBlobRef blobRef = .ok (chatThreadId, relative) ∧
    checkedRelativePath relative = .ok safeName ∧
    walk disk ((chatBlobRoot stateRoot chatThreadId).joinNames safeName).base
      ((chatBlobRoot stateRoot chatThreadId).joinNames safeName).segments = .ok place ∧
    stateRoot ++ ["blobs", "chat", chatThreadId] <+: place

/-- a text can be written under the name -/
def Writable (disk : Disk) (chatThreadId name : String) : Prop :=
  ∃ text blobRef disk', Ok (writeChatBlob stateRoot chatThreadId name (utf8 text)) disk blobRef disk'

/-- the ref of every text that is written under the name leads back to the text -/
def ReadsBack (disk : Disk) (chatThreadId name : String) : Prop :=
  ∀ text blobRef disk', Ok (writeChatBlob stateRoot chatThreadId name (utf8 text)) disk blobRef disk' →
    Ok (readChatBlobText stateRoot blobRef) disk' text disk'

end

/-- the ref names a thread, and not a place above or at the blobs of all threads -/
def NamesThread (blobRef : String) : Prop :=
  ∀ chatThreadId relative, parseChatBlobRef blobRef = .ok (chatThreadId, relative) →
    chatThreadId ≠ "." ∧ chatThreadId ≠ ".."

/-- the part of a thread id up to its first `/` is not empty, and the rest is a path that a ref may have -/
def Addressable (chatThreadId : String) : Prop :=
  match splitOnce '/' chatThreadId with
  | none => chatThreadId ≠ ""
  | some (first, rest) => first ≠ "" ∧ ∃ names, checkedRelativePath rest = .ok names

/-! ## paths -/

section
variable {stateRoot : Path} {disk disk' : Disk} {value chatThreadId relative name blobRef text : String}
  {names : List String} {content : Bytes} {r : Raw}

theorem checkedRelativePath_ok (h : checkedRelativePath value = .ok names) :
    value ≠ "" ∧ isAbsolute value = false ∧ ".." ∉ components value ∧ names = components value := by
  rw [checkedRelativePath] at h
  split at h
  · cases h
  · next hvalue =>
    split at h
    · cases h
    · next hdots =>
      rw [not_or, Bool.not_eq_true] at hvalue
      exact ⟨hvalue.1, hvalue.2, hdots, (Except.ok.inj h).symm⟩

theorem checkedRelativePath_of (hvalue : value ≠ "") (habsolute : isAbsolute value = false)
    (hdots : ".." ∉ components value) : checkedRelativePath value = .ok (components value) := by
  have hnot : ¬ (value = "" ∨ isAbsolute value = true) := by
    rw [habsolute]
    simpa using hvalue
  rw [checkedRelativePath, if_neg hnot, if_neg hdots]

theorem normalName_of_checked (h : checkedRelativePath value = .ok names) : ∀ name ∈ names, NormalName name := by
  obtain ⟨-, -, hdots, rfl⟩ := checkedRelativePath_ok h
  intro name hname
  obtain ⟨hempty, hdot, hslash⟩ := mem_components hname
  exact ⟨hempty, hdot, ne_of_mem_of_not_mem hname hdots, hslash⟩

theorem placeAt_joinNames (hnames : ∀ name ∈ names, NormalName name) :
    placeAt (r.joinNames names).base (r.joinNames names).segments = placeAt r.base r.segments ++ names := by
  rw [Raw.joinNames, placeAt_append]
  cases names with
  | nil => exact (List.append_nil _).symm
  | cons name names =>
    rw [if_neg (List.cons_ne_nil name names)]
    exact placeAt_normal _ hnames

/-! ## reading -/

theorem parseChatBlobRef_ok (h : parseChatBlobRef blobRef = .ok (chatThreadId, relative)) :
    '/' ∉ chatThreadId.toList ∧ chatThreadId ≠ "" := by
  rw [parseChatBlobRef] at h
  split at h
  · cases h
  split at h
  · cases h
  · next raw _ first rest hsplit =>
    split at h
    · cases h
    · next hboth =>
      obtain ⟨rfl, rfl⟩ := Prod.mk.inj (Except.ok.inj h)
      exact ⟨(eq_of_splitOnce hsplit).2, fun hempty => hboth (Or.inl hempty)⟩

theorem textOf_utf8 (text : String) : textOf (utf8 text) = .ok text := by
  rw [textOf, fromUTF8_utf8]

theorem eq_utf8_of_textOf (h : textOf content = .ok text) : content = utf8 text := by
  rw [textOf] at h
  cases hdecode : String.fromUTF8? ⟨content.toArray⟩ with
  | none =>
    rw [hdecode] at h
    cases h
  | some decoded =>
    rw [hdecode] at h
    cases h
    exact (utf8_of_fromUTF8 hdecode).symm

theorem readChatBlobText_ok (h : Ok (readChatBlobText stateRoot blobRef) disk text disk') :
    disk' = disk ∧ ∃ chatThreadId relative names, parseChatBlobRef blobRef = .ok (chatThreadId, relative) ∧
      checkedRelativePath relative = .ok names ∧
      walk disk ((chatBlobRoot stateRoot chatThreadId).joinNames names).base
        ((chatBlobRoot stateRoot chatThreadId).joinNames names).segments =
          .ok (threadPlace stateRoot chatThreadId ++ names) ∧
      disk.entry (threadPlace stateRoot chatThreadId ++ names) = some (.file (utf8 text)) := by
  rw [readChatBlobText] at h
  obtain ⟨⟨chatThreadId, relative⟩, _, hlift, hbehind⟩ := bind_ok.mp h
  obtain ⟨hparse, rfl⟩ := lift_ok.mp hlift
  dsimp only at hbehind
  obtain ⟨names, _, hlift', hread⟩ := bind_ok.mp hbehind
  obtain ⟨hchecked, rfl⟩ := lift_ok.mp hlift'
  obtain ⟨content, _, hcontent, hdecode⟩ := bind_ok.mp hread
  obtain ⟨htext, rfl⟩ := lift_ok.mp hdecode
  obtain ⟨rfl, -, place, hwalk, hentry⟩ := Raw.read_ok.mp hcontent
  have hplace : place = _ := (walk_eq hwalk).trans (placeAt_joinNames (normalName_of_checked hchecked))
  subst hplace
  rw [eq_utf8_of_textOf htext] at hentry
  exact ⟨rfl, chatThreadId, relative, names, hparse, hchecked, hwalk, hentry⟩

theorem threadPlace_segment (hslash : '/' ∉ chatThreadId.toList) :
    threadPlace stateRoot chatThreadId = advance (stateRoot ++ ["blobs", "chat"]) chatThreadId := by
  rw [threadPlace, chatBlobRoot, Raw.join, isAbsolute_of_not_mem hslash, splitOn_of_not_mem hslash,
    if_neg Bool.false_ne_true]
  show placeAt stateRoot (["blobs", "chat"] ++ [chatThreadId]) = _
  have hnames : ∀ name ∈ ["blobs", "chat"], stays name = false ∧ name ≠ ".." := by decide
  rw [placeAt_append, placeAt_names hnames]
  rfl

/-- **A file that was read lies below the blobs of the thread unless the thread is `.` or `..`.** -/
theorem read_inside_iff (h : Ok (readChatBlobText stateRoot blobRef) disk text disk') :
    ReadInside stateRoot disk blobRef ↔ NamesThread blobRef := by
  obtain ⟨-, chatThreadId, relative, names, hparse, hchecked, hwalk, -⟩ := readChatBlobText_ok h
  obtain ⟨hslash, hempty⟩ := parseChatBlobRef_ok hparse
  have hnormal := normalName_of_checked hchecked
  rw [threadPlace_segment hslash] at hwalk
  constructor
  · rintro ⟨thread, rest, safeName, place, hsame, hsafe, hplace, hinside⟩ other more hother
    obtain ⟨rfl, rfl⟩ := Prod.mk.inj (Except.ok.inj (hsame.symm.trans hparse))
    obtain ⟨rfl, rfl⟩ := Prod.mk.inj (Except.ok.inj (hother.symm.trans hparse))
    obtain rfl := Except.ok.inj (hsafe.symm.trans hchecked)
    obtain rfl := Except.ok.inj (hplace.symm.trans hwalk)
    constructor
    · rintro rfl
      rw [advance_stays rfl, List.append_assoc, List.prefix_append_right_inj] at hinside
      obtain ⟨after, hafter⟩ := hinside
      have hnames : safeName = "." :: after := by simpa using hafter.symm
      rw [hnames] at hnormal
      exact (hnormal "." List.mem_cons_self).ne_dot rfl
    · rintro rfl
      have hup : advance (stateRoot ++ ["blobs", "chat"]) ".." = stateRoot ++ ["blobs"] := by
        rw [advance, if_neg (by decide), if_pos rfl, List.append_cons, List.dropLast_concat]
      rw [hup, List.append_assoc, List.prefix_append_right_inj] at hinside
      obtain ⟨after, hafter⟩ := hinside
      have hnames : safeName = "chat" :: ".." :: after := by simpa using hafter.symm
      rw [hnames] at hnormal
      exact (hnormal ".." (List.mem_cons_of_mem _ List.mem_cons_self)).ne_dots rfl
  · intro hnames
    obtain ⟨hdot, hdots⟩ := hnames chatThreadId relative hparse
    refine ⟨chatThreadId, relative, names, _, hparse, hchecked, hwalk, ?_⟩
    have hthread := (stays_normalName ⟨hempty, hdot, hdots, hslash⟩).1
    rw [advance_name hthread hdots, List.append_assoc stateRoot]
    exact List.prefix_append _ names

/-! ## writing -/

/-- a text was written under the name: the names of its file, and the disk with the directories above it -/
structure Written (stateRoot : Path) (disk : Disk) (chatThreadId name blobRef : String) (front : List String)
    (last : String) (made : Disk) : Prop where
  checked : checkedRelativePath name = .ok (front ++ [last])
  returned : blobRef = chatBlobRef chatThreadId (normalizePath (join "/" (front ++ [last])))
  noNul : ((chatBlobRoot stateRoot chatThreadId).joinNames (front ++ [last])).hasNul = false
  reached : walk made (chatBlobRoot stateRoot chatThreadId).base
    ((chatBlobRoot stateRoot chatThreadId).segments ++ front) = .ok (threadPlace stateRoot chatThreadId ++ front)
  above : made.isDir (threadPlace stateRoot chatThreadId ++ front) = true
  free : made.isDir (threadPlace stateRoot chatThreadId ++ (front ++ [last])) = false
  contents : ∀ content : Bytes, ∃ after,
    Ok (writeChatBlob stateRoot chatThreadId name content) disk blobRef after ∧
    ∀ q, after.entry q = if q = threadPlace stateRoot chatThreadId ++ (front ++ [last]) then
      some (.file content) else made.entry q

theorem writeChatBlob_ok (h : Ok (writeChatBlob stateRoot chatThreadId name content) disk blobRef disk') :
    ∃ front last made, Written stateRoot disk chatThreadId name blobRef front last made := by
  rw [writeChatBlob] at h
  obtain ⟨names, _, hlift, hmade⟩ := bind_ok.mp h
  obtain ⟨hchecked, rfl⟩ := lift_ok.mp hlift
  dsimp only at hmade
  obtain ⟨_, made, hdirs, hwritten⟩ := bind_ok.mp hmade
  obtain ⟨_, after, hwrite, hpure⟩ := bind_ok.mp hwritten
  cases hpure
  obtain ⟨hnul, place, last, hwalk, hlast, hstays, hdots, hput⟩ := Raw.write_ok.mp hwrite
  obtain ⟨front, rfl⟩ : ∃ front, names = front ++ [last] := by
    rcases List.eq_nil_or_concat' names with rfl | ⟨front, other, rfl⟩
    · rw [Raw.joinNames, if_pos rfl, List.getLast?_concat, Option.some.injEq] at hlast
      rw [← hlast] at hstays
      cases hstays
    · rw [Raw.joinNames_concat, List.getLast?_concat, Option.some.injEq] at hlast
      exact ⟨front, by rw [hlast]⟩
  rw [Raw.parent_joinNames _ _ hstays] at hdirs
  have hnormal := normalName_of_checked hchecked
  have hfront : placeAt (chatBlobRoot stateRoot chatThreadId).base
      ((chatBlobRoot stateRoot chatThreadId).segments ++ front) = threadPlace stateRoot chatThreadId ++ front := by
    rw [placeAt_append]
    exact placeAt_normal _ fun name hname => hnormal name (List.mem_append_left _ hname)
  obtain ⟨hmadeWalk, hdir, -⟩ := makeDirs_ok (Raw.createDirAll_ok hdirs)
  rw [hfront] at hmadeWalk hdir
  have hsegments : ((chatBlobRoot stateRoot chatThreadId).joinNames (front ++ [last])).segments.dropLast =
      (chatBlobRoot stateRoot chatThreadId).segments ++ front := by
    rw [Raw.joinNames_concat, List.dropLast_concat]
  have hplace : place = threadPlace stateRoot chatThreadId ++ front := by
    rw [hsegments] at hwalk
    exact (walk_eq hwalk).trans hfront
  subst hplace
  obtain ⟨hne, hparent, hfree, -⟩ := FileTree.write_ok hput
  rw [List.append_assoc] at hne hparent hfree
  refine ⟨front, last, made, hchecked, rfl, hnul, hmadeWalk, hdir, ?_, fun content' => ?_⟩
  · rw [Bool.eq_false_iff]
    exact fun hisDir => hfree (Tree.isDir_iff.mp hisDir)
  · obtain ⟨after', hafter⟩ := write_total content' hne hparent hfree
    obtain ⟨-, -, -, hentries⟩ := FileTree.write_ok hafter
    refine ⟨after', ?_, hentries⟩
    rw [← List.append_assoc] at hafter
    refine bind_ok.mpr ⟨_, _, lift_ok.mpr ⟨hchecked, rfl⟩, bind_ok.mpr ⟨(), made, ?_, ?_⟩⟩
    · rw [Raw.parent_joinNames _ _ hstays]
      exact hdirs
    · exact bind_ok.mpr ⟨(), after', Raw.write_ok.mpr ⟨hnul, _, last, hwalk, hlast, hstays, hdots, hafter⟩, rfl⟩

/-! ## the ref that is returned -/

theorem parseChatBlobRef_written (chatThreadId : String) (hrelative : relative ≠ "") :
    parseChatBlobRef (chatBlobRef chatThreadId relative) =
      match splitOnce '/' chatThreadId with
      | none => if chatThreadId = "" then
          .error (.invalidInput "chat blob ref must include non-empty thread and path")
        else .ok (chatThreadId, relative)
      | some (first, rest) => if first = "" then
          .error (.invalidInput "chat blob ref must include non-empty thread and path")
        else .ok (first, rest ++ "/" ++ relative) := by
  have hslash : ("/" : String) = String.ofList ['/'] := rfl
  have href : chatBlobRef chatThreadId relative = "chat_blob://" ++ (chatThreadId ++ "/" ++ relative) := by
    rw [chatBlobRef, String.append_assoc, String.append_assoc, String.append_assoc]
  rw [parseChatBlobRef, href, stripPrefix_append]
  dsimp only
  cases hsplit : splitOnce '/' chatThreadId with
  | none =>
    rw [hslash, splitOnce_append _ (splitOnce_eq_none.mp hsplit)]
    simp [hrelative]
  | some parts =>
    obtain ⟨first, rest⟩ := parts
    obtain ⟨hthread, hfirst⟩ := eq_of_splitOnce hsplit
    have hbehind : chatThreadId ++ "/" ++ relative = first ++ String.ofList ['/'] ++ (rest ++ "/" ++ relative) := by
      rw [hthread, hslash]
      simp only [String.append_assoc]
    rw [hbehind, splitOnce_append _ hfirst]
    have hne : rest ++ "/" ++ relative ≠ "" := by simp
    simp [hne]

theorem written_ref_names {first : String} (hrelative : relative ≠ "")
    (hparse : parseChatBlobRef (chatBlobRef chatThreadId relative) = .ok (first, value))
    (hchecked : checkedRelativePath value = .ok names) :
    Addressable chatThreadId ∧ ∃ tail, splitOn '/' chatThreadId = first :: tail ∧
      names = (tail.filter fun segment => !stays segment) ++ components relative := by
  rw [parseChatBlobRef_written _ hrelative] at hparse
  rw [Addressable]
  cases hsplit : splitOnce '/' chatThreadId with
  | none =>
    rw [hsplit] at hparse
    dsimp only at hparse ⊢
    split at hparse
    · cases hparse
    · next hne =>
      obtain ⟨rfl, rfl⟩ := Prod.mk.inj (Except.ok.inj hparse)
      obtain ⟨-, -, -, rfl⟩ := checkedRelativePath_ok hchecked
      exact ⟨hne, [], splitOn_of_not_mem (splitOnce_eq_none.mp hsplit), rfl⟩
  | some parts =>
    obtain ⟨start, rest⟩ := parts
    rw [hsplit] at hparse
    dsimp only at hparse ⊢
    split at hparse
    · cases hparse
    · next hne =>
      obtain ⟨rfl, rfl⟩ := Prod.mk.inj (Except.ok.inj hparse)
      obtain ⟨-, habsolute, hdots, rfl⟩ := checkedRelativePath_ok hchecked
      obtain ⟨hthread, hfirst⟩ := eq_of_splitOnce hsplit
      rw [components_append, List.mem_append, not_or] at hdots
      have hrest : rest ≠ "" ∧ isAbsolute rest = false := by
        unfold isAbsolute at habsolute ⊢
        cases hchars : rest.toList with
        | nil => simp [hchars] at habsolute
        | cons c more =>
          rw [String.toList_append, String.toList_append, hchars] at habsolute
          refine ⟨?_, habsolute⟩
          rintro rfl
          cases hchars
      refine ⟨⟨hne, _, checkedRelativePath_of hrest.1 hrest.2 hdots.1⟩, splitOn '/' rest, ?_, ?_⟩
      · rw [hthread, splitOn_append, splitOn_of_not_mem hfirst]
        rfl
      · rw [components_append, components_eq rest]

theorem written_ref_parsed (hthread : Addressable chatThreadId) (hrelative : relative ≠ "")
    (habsolute : isAbsolute relative = false) (hdots : ".." ∉ components relative) :
    ∃ first value names, parseChatBlobRef (chatBlobRef chatThreadId relative) = .ok (first, value) ∧
      checkedRelativePath value = .ok names := by
  rw [parseChatBlobRef_written _ hrelative]
  rw [Addressable] at hthread
  cases hsplit : splitOnce '/' chatThreadId with
  | none =>
    rw [hsplit] at hthread
    exact ⟨chatThreadId, relative, _, if_neg hthread, checkedRelativePath_of hrelative habsolute hdots⟩
  | some parts =>
    obtain ⟨first, rest⟩ := parts
    rw [hsplit] at hthread
    obtain ⟨hfirst, names, hchecked⟩ := hthread
    obtain ⟨hne, hrest, hrestDots, -⟩ := checkedRelativePath_ok hchecked
    refine ⟨first, rest ++ "/" ++ relative, _, if_neg hfirst, checkedRelativePath_of (by simp) ?_ ?_⟩
    · unfold isAbsolute at hrest ⊢
      cases hchars : rest.toList with
      | nil => exact absurd (String.toList_injective hchars) hne
      | cons c more =>
        rw [hchars] at hrest
        simpa [hchars] using hrest
    · rw [components_append, List.mem_append, not_or]
      exact ⟨hrestDots, hdots⟩

theorem not_isAbsolute_of_split {first : String} {tail : List String} (hne : first ≠ "")
    (hsplit : splitOn '/' chatThreadId = first :: tail) : isAbsolute chatThreadId = false := by
  rw [isAbsolute, beq_eq_false_iff_ne]
  intro hhead
  obtain ⟨more, hchars⟩ : ∃ more, chatThreadId.toList = '/' :: more := by
    cases hchars : chatThreadId.toList with
    | nil => simp [hchars] at hhead
    | cons c more =>
      rw [hchars, List.head?_cons, Option.some.injEq] at hhead
      exact ⟨more, by rw [hhead]⟩
  have hempty : chatThreadId = "" ++ String.ofList ['/'] ++ String.ofList more := by
    apply String.toList_injective
    simp [hchars]
  rw [hempty, splitOn_append] at hsplit
  exact hne (List.cons.inj hsplit).1.symm

theorem threadPlace_names {first : String} {tail : List String} (hfirst : '/' ∉ first.toList) (hne : first ≠ "")
    (hsplit : splitOn '/' chatThreadId = first :: tail)
    (hnormal : ∀ name ∈ (tail.filter fun segment => !stays segment) ++ names, NormalName name) :
    threadPlace stateRoot first ++ ((tail.filter fun segment => !stays segment) ++ names) =
      threadPlace stateRoot chatThreadId ++ names := by
  have hthread : placeAt (threadPlace stateRoot first) tail = threadPlace stateRoot chatThreadId := by
    rw [threadPlace, threadPlace, chatBlobRoot, chatBlobRoot, Raw.join, Raw.join, isAbsolute_of_not_mem hfirst,
      not_isAbsolute_of_split hne hsplit, splitOn_of_not_mem hfirst, hsplit, if_neg Bool.false_ne_true,
      if_neg Bool.false_ne_true, ← placeAt_append]
    rfl
  have hnames : ∀ name ∈ names, NormalName name := fun name hname =>
    hnormal name (List.mem_append_right _ hname)
  rw [← placeAt_normal _ hnormal, placeAt_append, placeAt_filter, hthread, placeAt_normal _ hnames]

/-! ## reading back -/

theorem hasNul_mono {r' : Raw} (hsub : ∀ segment ∈ r'.segments, segment ∈ r.segments) (h : r.hasNul = false) :
    r'.hasNul = false := by
  rw [Raw.hasNul, List.any_eq_false] at h ⊢
  exact fun segment hsegment => h segment (hsub segment hsegment)

theorem joined_ne_empty (front : List String) {last : String} (hlast : last ≠ "") :
    normalizePath (join "/" (front ++ [last])) ≠ "" := by
  intro hempty
  obtain ⟨c, hc⟩ : ∃ c, c ∈ last.toList := by
    cases hchars : last.toList with
    | nil => exact absurd (String.toList_injective hchars) hlast
    | cons c rest => exact ⟨c, List.mem_cons_self⟩
  have hmem : last ∈ front ++ [last] := List.mem_append_right _ List.mem_cons_self
  have hjoin := mem_join_of_mem hmem hc
  have hnil := congrArg String.toList hempty
  rw [normalizePath, replaceChar, toList_mapChars] at hnil
  rw [List.map_eq_nil_iff.mp hnil] at hjoin
  exact List.not_mem_nil hjoin

theorem walk_written {made : Disk} {base dir : Path} {segments : List String} {last : String}
    (hdirs : ∀ q, made.isDir q = true → disk.isDir q = true) (hwalk : walk made base segments = .ok dir)
    (hdir : made.isDir dir = true) (hlast : NormalName last) :
    walk disk base (segments ++ [last]) = .ok (dir ++ [last]) := by
  obtain ⟨hstays, hdots⟩ := stays_normalName hlast
  refine walk_append.mpr ⟨dir, walk_mono hdirs hwalk, ?_⟩
  rw [Workspace.walk, if_pos (hdirs dir hdir), advance_name hstays hdots]
  rfl

theorem joinNames_first {first : String} (hfirst : '/' ∉ first.toList) (hnames : names ≠ []) :
    (chatBlobRoot stateRoot first).joinNames names = ⟨stateRoot, ["blobs", "chat", first] ++ names⟩ := by
  rw [chatBlobRoot, Raw.join, isAbsolute_of_not_mem hfirst, if_neg Bool.false_ne_true, splitOn_of_not_mem hfirst,
    Raw.joinNames, if_neg hnames]
  rfl

section
variable {front tail : List String} {first last : String} {made : Disk}

theorem Written.normal (h : Written stateRoot disk chatThreadId name blobRef front last made) :
    ∀ name ∈ front ++ [last], NormalName name := normalName_of_checked h.checked

theorem Written.last_normal (h : Written stateRoot disk chatThreadId name blobRef front last made) :
    NormalName last := h.normal last (List.mem_append_right _ List.mem_cons_self)

theorem segments_written (hne : first ≠ "") (hsplit : splitOn '/' chatThreadId = first :: tail) :
    chatBlobRoot stateRoot chatThreadId = ⟨stateRoot, ["blobs", "chat", first] ++ tail⟩ := by
  rw [chatBlobRoot, Raw.join, not_isAbsolute_of_split hne hsplit, if_neg Bool.false_ne_true, hsplit]
  rfl

theorem Written.ref_reached (h : Written stateRoot disk chatThreadId name blobRef front last made)
    (hdirs : ∀ q, made.isDir q = true → disk'.isDir q = true) (hne : first ≠ "")
    (hsplit : splitOn '/' chatThreadId = first :: tail) :
    walk disk' stateRoot (["blobs", "chat", first] ++
      ((tail.filter fun segment => !stays segment) ++ (front ++ [last]))) =
        .ok (threadPlace stateRoot chatThreadId ++ (front ++ [last])) := by
  have hend := walk_written hdirs h.reached h.above h.last_normal
  rw [segments_written hne hsplit, List.append_assoc, List.append_assoc, List.append_assoc] at hend
  obtain ⟨q, hstart, hrest⟩ := walk_append.mp hend
  have hfilter : (front ++ [last]).filter (fun segment => !stays segment) = front ++ [last] := by
    refine List.filter_eq_self.mpr fun name hname => ?_
    rw [(stays_normalName (h.normal name hname)).1]
    rfl
  have hnames := walk_filter hrest
  rw [List.filter_append, hfilter] at hnames
  exact walk_append.mpr ⟨q, hstart, hnames⟩

theorem Written.ref_noNul (h : Written stateRoot disk chatThreadId name blobRef front last made)
    (hfirst : '/' ∉ first.toList) (hne : first ≠ "") (hsplit : splitOn '/' chatThreadId = first :: tail) :
    ((chatBlobRoot stateRoot first).joinNames ((tail.filter fun segment => !stays segment) ++
      (front ++ [last]))).hasNul = false := by
  have hsub : List.Sublist
      (["blobs", "chat", first] ++ ((tail.filter fun segment => !stays segment) ++ (front ++ [last])))
      (["blobs", "chat", first] ++ tail ++ front ++ [last]) := by
    rw [List.append_assoc, List.append_assoc _ tail]
    exact (List.filter_sublist.append_right _).append_left _
  refine hasNul_mono (fun segment hsegment => ?_) h.noNul
  rw [joinNames_first hfirst (by simp)] at hsegment
  rw [Raw.joinNames_concat, segments_written hne hsplit]
  exact hsub.subset hsegment

end

theorem reads_back_of_addressable (hthread : Addressable chatThreadId) (hname : Separated name) :
    ReadsBack stateRoot disk chatThreadId name := by
  intro text blobRef disk' hwrite
  obtain ⟨front, last, made, h⟩ := writeChatBlob_ok hwrite
  obtain ⟨after, hafter, hentries⟩ := h.contents (utf8 text)
  obtain rfl : disk' = after := (EStateM.Result.ok.inj (hwrite.symm.trans hafter)).2
  have hseparated : ∀ c ∈ front ++ [last], Separated c := by
    obtain ⟨-, -, -, heq⟩ := checkedRelativePath_ok h.checked
    intro c hc
    rw [heq] at hc
    exact separated_of_mem_components hname hc
  have hjoined : normalizePath (join "/" (front ++ [last])) = join "/" (front ++ [last]) :=
    normalizePath_of_separated (separated_join hseparated)
  have hrelative : join "/" (front ++ [last]) ≠ "" := hjoined ▸ joined_ne_empty front h.last_normal.nonempty
  have hcomponents : components (join "/" (front ++ [last])) = front ++ [last] := components_join h.normal
  have hdots : ".." ∉ components (join "/" (front ++ [last])) := by
    rw [hcomponents]
    exact fun hmem => (h.normal ".." hmem).ne_dots rfl
  obtain ⟨first, value, names, hparse, hvalue⟩ :=
    written_ref_parsed hthread hrelative (isAbsolute_join h.normal) hdots
  obtain ⟨-, tail, hsplit, rfl⟩ := written_ref_names hrelative hparse hvalue
  obtain ⟨hfirst, hne⟩ := parseChatBlobRef_ok hparse
  rw [hcomponents] at hvalue
  have hentry := (hentries (threadPlace stateRoot chatThreadId ++ (front ++ [last]))).trans (if_pos rfl)
  have hdirs : ∀ q, made.isDir q = true → disk'.isDir q = true := by
    intro q hq
    have hother : q ≠ threadPlace stateRoot chatThreadId ++ (front ++ [last]) := by
      rintro rfl
      rw [h.free] at hq
      cases hq
    rw [Tree.isDir_iff] at hq ⊢
    rw [hentries, if_neg hother, hq]
  rw [h.returned, hjoined, readChatBlobText]
  refine bind_ok.mpr ⟨_, disk', lift_ok.mpr ⟨hparse, rfl⟩, bind_ok.mpr ⟨_, disk', lift_ok.mpr ⟨hvalue, rfl⟩, ?_⟩⟩
  refine bind_ok.mpr ⟨utf8 text, disk', Raw.read_ok.mpr ⟨rfl, h.ref_noNul hfirst hne hsplit, _, ?_, hentry⟩,
    lift_ok.mpr ⟨textOf_utf8 text, rfl⟩⟩
  rw [joinNames_first hfirst (by simp)]
  exact h.ref_reached hdirs hne hsplit

theorem ref_place {front : List String} {first last : String} {made : Disk}
    (h : Written stateRoot disk chatThreadId name blobRef front last made)
    (hparse : parseChatBlobRef blobRef = .ok (first, value)) (hvalue : checkedRelativePath value = .ok names) :
    Addressable chatThreadId ∧ threadPlace stateRoot first ++ names =
      threadPlace stateRoot chatThreadId ++ components (normalizePath (join "/" (front ++ [last]))) := by
  obtain ⟨hfirst, hne⟩ := parseChatBlobRef_ok hparse
  rw [h.returned] at hparse
  obtain ⟨haddressable, tail, hsplit, rfl⟩ :=
    written_ref_names (joined_ne_empty front h.last_normal.nonempty) hparse hvalue
  exact ⟨haddressable, threadPlace_names hfirst hne hsplit (normalName_of_checked hvalue)⟩

theorem addressable_of_reads_back (hwritable : Writable stateRoot disk chatThreadId name)
    (hback : ReadsBack stateRoot disk chatThreadId name) : Addressable chatThreadId ∧ Separated name := by
  obtain ⟨text, blobRef, disk', hwrite⟩ := hwritable
  obtain ⟨front, last, made, h⟩ := writeChatBlob_ok hwrite
  obtain ⟨after, hafter, hentries⟩ := h.contents (utf8 "")
  obtain ⟨other, hother, hotherEntries⟩ := h.contents (utf8 "a")
  obtain ⟨-, first, value, names, hparse, hvalue, -, hentry⟩ := readChatBlobText_ok (hback "" blobRef after hafter)
  obtain ⟨-, first', value', names', hparse', hvalue', -, hentry'⟩ :=
    readChatBlobText_ok (hback "a" blobRef other hother)
  obtain ⟨rfl, rfl⟩ := Prod.mk.inj (Except.ok.inj (hparse.symm.trans hparse'))
  obtain rfl := Except.ok.inj (hvalue.symm.trans hvalue')
  obtain ⟨haddressable, hplace⟩ := ref_place h hparse hvalue
  refine ⟨haddressable, ?_⟩
  rw [hplace, hentries] at hentry
  rw [hplace, hotherEntries] at hentry'
  have hsame : components (normalizePath (join "/" (front ++ [last]))) = front ++ [last] := by
    by_contra hne
    have hapart : threadPlace stateRoot chatThreadId ++ components (normalizePath (join "/" (front ++ [last]))) ≠
        threadPlace stateRoot chatThreadId ++ (front ++ [last]) := fun heq => hne (List.append_cancel_left heq)
    rw [if_neg hapart] at hentry hentry'
    rw [hentry, Option.some.injEq, Entry.file.injEq] at hentry'
    exact absurd hentry' (by decide)
  obtain ⟨-, -, -, heq⟩ := checkedRelativePath_ok h.checked
  refine separated_of_components fun c hc => ?_
  rw [← heq, ← hsame] at hc
  exact separated_components hc

/-- **The refs of a name lead back to the texts exactly when the thread is addressable and the name has no `\`.** -/
theorem reads_back_iff (hwritable : Writable stateRoot disk chatThreadId name) :
    ReadsBack stateRoot disk chatThreadId name ↔ Addressable chatThreadId ∧ Separated name :=
  ⟨addressable_of_reads_back hwritable, fun ⟨hthread, hname⟩ => reads_back_of_addressable hthread hname⟩

end

/-- **A file that is read lies below the blobs of the thread that the ref names exactly when the thread is
neither `.` nor `..`; the refs of a name lead back to the texts that were written exactly when the thread is
addressable and the name has no `\`.** -/
theorem chat_blobs_iff (stateRoot : Path) :
    (∀ disk blobRef text disk', Ok (readChatBlobText stateRoot blobRef) disk text disk' →
      (ReadInside stateRoot disk blobRef ↔ NamesThread blobRef)) ∧
    ∀ disk chatThreadId name, Writable stateRoot disk chatThreadId name →
      (ReadsBack stateRoot disk chatThreadId name ↔ Addressable chatThreadId ∧ Separated name) :=
  ⟨fun _ _ _ _ => read_inside_iff, fun _ _ _ => reads_back_iff⟩

/-- a message of a turn is read back -/
theorem chat_blobs_turn : Writable ["state"] Tree.empty "chat_1" "turns/user.txt" ∧
    ReadsBack ["state"] Tree.empty "chat_1" "turns/user.txt" := by
  have hwritable : Writable ["state"] Tree.empty "chat_1" "turns/user.txt" := ⟨"hello", _, _, rfl⟩
  have hthread : Addressable "chat_1" := (by decide : "chat_1" ≠ "")
  exact ⟨hwritable, ((chat_blobs_iff ["state"]).2 _ _ _ hwritable).mpr ⟨hthread, by decide⟩⟩

/-- a disk with the plan of a job -/
def jobDisk : Disk :=
  final (do
    createDirAll ["state", "blobs", "chat"]
    createDirAll ["state", "blobs", "job_1"]
    write ["state", "blobs", "job_1", "plan.md"] (utf8 "plan") : DiskM Unit) Tree.empty

theorem read_jobDisk :
    Ok (readChatBlobText ["state"] "chat_blob://../job_1/plan.md") jobDisk "plan" jobDisk := by
  refine bind_ok.mpr ⟨("..", "job_1/plan.md"), jobDisk, lift_ok.mpr ⟨by rfl, rfl⟩, ?_⟩
  refine bind_ok.mpr ⟨["job_1", "plan.md"], jobDisk, lift_ok.mpr ⟨by rfl, rfl⟩, ?_⟩
  refine bind_ok.mpr ⟨utf8 "plan", jobDisk, Raw.read_ok.mpr ⟨rfl, by decide, ?_⟩, lift_ok.mpr ⟨textOf_utf8 _, rfl⟩⟩
  exact ⟨["state", "blobs", "job_1", "plan.md"], by rfl, by rfl⟩

theorem writable_backslash : Writable ["state"] Tree.empty "chat_1" "notes\\a.md" :=
  ⟨"note", _, _, rfl⟩

theorem thread_escapes :
    (Ok (readChatBlobText ["state"] "chat_blob://../job_1/plan.md") jobDisk "plan" jobDisk ∧
      ¬ ReadInside ["state"] jobDisk "chat_blob://../job_1/plan.md") ∧
    Writable ["state"] Tree.empty "chat_1" "notes\\a.md" ∧
      ¬ ReadsBack ["state"] Tree.empty "chat_1" "notes\\a.md" := by
  refine ⟨⟨read_jobDisk, fun hinside => ?_⟩, writable_backslash, fun hback => ?_⟩
  · have hnames := (read_inside_iff read_jobDisk).mp hinside
    exact (hnames ".." "job_1/plan.md" (by rfl)).2 rfl
  · exact absurd (addressable_of_reads_back writable_backslash hback).2 (by decide)

end Chat

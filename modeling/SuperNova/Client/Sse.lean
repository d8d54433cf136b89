import SuperNova.Lib.Blocks
import SuperNova.Lib.Decoder
import SuperNova.Lib.Text

/-!
# The event stream that a client reads

The client of the protocol reads the events of a response while it arrives, chunk after chunk of its bytes.

* `readSseEvents`: the reader, with the events in the order in which the handler gets them;
* `emitSseParts_eq`: a text has the events of its runs of lines;
* `emitted_append`: the complete parts of a buffer have the events that they have in any text;
* `sse_events` (**main**): however the bytes are cut, the handler gets the events of the text at once.
-/

set_option linter.unusedSectionVars false

namespace Client

open Blocks Decoding

/-! ## text -/

/-- `\s`, which is what `trim` takes away -/
def isSpace (c : Char) : Bool := Text.isWhitespace c && c.toNat != 0x85 || c.toNat == 0xFEFF

def trim (text : List Char) : List Char := (text.dropWhile isSpace).rdropWhile isSpace

/-- `replace(/\r\n/g, "\n")` -/
def normalize : List Char → List Char
  | [] => []
  | [c] => [c]
  | c :: c' :: rest =>
    if c = '\r' ∧ c' = '\n' then '\n' :: normalize rest else c :: normalize (c' :: rest)

/-- `split(/\n\s*\n/g)` -/
def splitParts (text : List Char) : List (List Char) := splitBlank isSpace '\n' text

/-! ## events -/

def dataPrefix : List Char := ['d', 'a', 't', 'a', ':']

/-- the data of a line -/
def dataLine (line : List Char) : Option (List Char) :=
  if dataPrefix <+: line then some (trim (line.drop dataPrefix.length)) else none

section
variable {ε : Type} (parse : List Char → Option ε)

/-- `parseSseEvent`; `JSON.parse` gives no event when it throws and when its value is falsy -/
def parseSseEvent (chunk : List Char) : Option ε :=
  let data := ['\n'].intercalate ((chunk.splitOn '\n').filterMap dataLine)
  if data = [] then none else parse data

/-- `emitSseParts`, which adds the events of a text to those that the handler got -/
def emitSseParts (text : List Char) (events : List ε) : List ε :=
  let chunks := ((splitParts text).map trim).filter (· ≠ [])
  events ++ chunks.filterMap (parseSseEvent parse)

/-- `emitCompleteSseChunks`: the remainder, and the events -/
def emitCompleteSseChunks (buffer : List Char) (events : List ε) : List Char × List ε :=
  let parts := splitParts (normalize buffer)
  (parts.getLastD [], emitSseParts parse (['\n', '\n'].intercalate parts.dropLast) events)

/-- the loop over the chunks that arrive -/
def readLoop (decoder : TextDecoder) (buffer : List Char) (events : List ε) : List (List UInt8) → List ε
  | [] => emitSseParts parse (buffer ++ decoder.flush) events
  | value :: rest =>
    let decoded := decoder.decode value
    let complete := emitCompleteSseChunks parse (buffer ++ decoded.2) events
    readLoop decoded.1 complete.1 complete.2 rest

/-- a response: its bytes, and the chunks in which its body arrives if it has one -/
structure Response where
  bytes : List UInt8
  body : Option (List (List UInt8))
  cut : ∀ chunks ∈ body, chunks.flatten = bytes

def readSseEvents (response : Response) : List ε :=
  match response.body with
  | none => emitSseParts parse (decodeAll response.bytes) []
  | some chunks => readLoop parse TextDecoder.start [] [] chunks

end

/-! ## lines -/

section
variable {β : Type} {line text : List Char} {c : Char}

theorem isSpace_newline : isSpace '\n' = true := by decide

theorem apply_rdropWhile {f : List Char → β} (h : ∀ l c, isSpace c = true → f (l ++ [c]) = f l) (l : List Char) :
    f (l.rdropWhile isSpace) = f l := by
  induction l using List.reverseRecOn with
  | nil => rfl
  | append_singleton l c ih =>
    by_cases hc : isSpace c = true
    · rw [List.rdropWhile_concat_pos _ _ _ hc, ih, h l c hc]
    · rw [List.rdropWhile_concat_neg _ _ _ hc]

theorem dropWhile_space (hc : isSpace c = true) (l : List Char) :
    (l ++ [c]).dropWhile isSpace = [] ∧ l.dropWhile isSpace = [] ∨
      (l ++ [c]).dropWhile isSpace = l.dropWhile isSpace ++ [c] := by
  rw [List.dropWhile_append]
  cases hl : l.dropWhile isSpace with
  | nil => exact .inl ⟨by simp [hc], rfl⟩
  | cons d rest => exact .inr rfl

theorem trim_space (l : List Char) (c : Char) (hc : isSpace c = true) : trim (l ++ [c]) = trim l := by
  unfold trim
  rcases dropWhile_space hc l with ⟨hboth, hl⟩ | hboth
  · rw [hboth, hl]
  · rw [hboth, List.rdropWhile_concat_pos _ _ _ hc]

theorem dataLine_space (line : List Char) (c : Char) (hc : isSpace c = true) :
    dataLine (line ++ [c]) = dataLine line := by
  have hcolon : c ≠ ':' := by
    rintro rfl
    revert hc
    decide
  have hbegins : dataPrefix <+: line ++ [c] ↔ dataPrefix <+: line := by
    rw [List.prefix_concat_iff]
    refine or_iff_right fun h => hcolon ?_
    exact (List.singleton_inj.mp (@List.append_inj' _ ['d', 'a', 't', 'a'] _ _ _ h rfl).2).symm
  unfold dataLine
  simp only [hbegins]
  split
  · next h => rw [List.drop_append_of_le_length h.length_le, trim_space _ _ hc]
  · rfl

theorem dataLine_blank (h : blank isSpace line = true) : dataLine line = none := by
  refine if_neg fun hprefix => ?_
  have hd : 'd' ∈ line := hprefix.subset List.mem_cons_self
  exact absurd (List.all_eq_true.mp h 'd' hd) (by decide)

/-- the data of a line that is trimmed at its start -/
def firstData (line : List Char) : Option (List Char) := dataLine (line.dropWhile isSpace)

theorem firstData_space (line : List Char) (c : Char) (hc : isSpace c = true) :
    firstData (line ++ [c]) = firstData line := by
  unfold firstData
  rcases dropWhile_space hc line with ⟨hboth, hl⟩ | hboth
  · rw [hboth, hl]
  · rw [hboth, dataLine_space _ _ hc]

theorem splitOn_concat (hc : c ≠ '\n') (text : List Char) : ∃ front last, text.splitOn '\n' = front ++ [last] ∧
    (text ++ [c]).splitOn '\n' = front ++ [last ++ [c]] := by
  induction text with
  | nil => exact ⟨[], [], rfl, List.splitOn_eq_singleton (by simpa using hc.symm)⟩
  | cons d text ih =>
    obtain ⟨front, last, htext, hboth⟩ := ih
    rw [List.cons_append, List.splitOn_cons_eq_if_modifyHead, List.splitOn_cons_eq_if_modifyHead, htext, hboth]
    split
    · exact ⟨[] :: front, last, rfl, rfl⟩
    · cases front with
      | nil => exact ⟨[], d :: last, rfl, rfl⟩
      | cons first front => exact ⟨(d :: first) :: front, last, rfl, rfl⟩

/-- the data of a text -/
def dataOf (text : List Char) : List (List Char) := (text.splitOn '\n').filterMap dataLine

theorem dataOf_space (text : List Char) (c : Char) (hc : isSpace c = true) : dataOf (text ++ [c]) = dataOf text := by
  unfold dataOf
  by_cases hnl : c = '\n'
  · rw [hnl, List.splitOn_append_cons_self, List.splitOn_nil, List.filterMap_append]
    exact List.append_nil _
  · obtain ⟨front, last, htext, hboth⟩ := splitOn_concat hnl text
    rw [htext, hboth, List.filterMap_append, List.filterMap_append, List.filterMap_cons, List.filterMap_cons,
      dataLine_space last c hc]

/-! ## the event of a run of lines -/

/-- the data of a run of lines -/
def runData : List (List Char) → List (List Char)
  | [] => []
  | first :: more => (firstData first).toList ++ more.filterMap dataLine

theorem filterMap_dataLine_solid (lines : List (List Char)) :
    (lines.filter fun line => !blank isSpace line).filterMap dataLine = lines.filterMap dataLine := by
  rw [List.filterMap_filter]
  refine List.filterMap_congr fun line _ => ?_
  cases hblank : blank isSpace line with
  | true => exact (dataLine_blank hblank).symm
  | false => rfl

theorem blank_space {c : Char} (hc : isSpace c = true) (line : List Char) :
    blank isSpace (c :: line) = blank isSpace line := by
  show (isSpace c && blank isSpace line) = _
  rw [hc, Bool.true_and]

theorem dataOf_trim (text : List Char) : dataOf (trim text) = runData (solid isSpace '\n' text) := by
  rw [trim, apply_rdropWhile dataOf_space]
  induction text with
  | nil => rfl
  | cons c text ih =>
    by_cases hc : isSpace c = true
    · rw [List.dropWhile_cons_of_pos hc, ih]
      unfold solid
      rw [List.splitOn_cons_eq_if_modifyHead]
      split
      · rfl
      · cases text.splitOn '\n' with
        | nil => rfl
        | cons first more =>
          rw [List.modifyHead_cons, List.filter_cons, List.filter_cons, blank_space hc]
          split
          · rw [runData, runData, firstData, firstData, List.dropWhile_cons_of_pos hc]
          · rfl
    · have hnl : (c == '\n') = false := by
        rw [beq_eq_false_iff_ne]
        rintro rfl
        exact hc isSpace_newline
      rw [List.dropWhile_cons_of_neg hc]
      unfold dataOf solid
      rw [List.splitOn_cons_eq_if_modifyHead, hnl, if_neg (by decide)]
      cases text.splitOn '\n' with
      | nil => rfl
      | cons first more =>
        have hblank : blank isSpace (c :: first) = false := by
          show (isSpace c && blank isSpace first) = _
          rw [Bool.not_eq_true] at hc
          rw [hc, Bool.false_and]
        rw [List.modifyHead_cons, List.filter_cons_of_pos (by rw [hblank]; rfl), runData, firstData,
          List.dropWhile_cons_of_neg hc, filterMap_dataLine_solid, List.filterMap_cons]
        cases dataLine (c :: first) with
        | none => rfl
        | some data => rfl

theorem runData_trimmed (run : List (List Char)) : runData (run.map (List.rdropWhile isSpace)) = runData run := by
  cases run with
  | nil => rfl
  | cons first more =>
    rw [List.map_cons, runData, runData, apply_rdropWhile firstData_space, List.filterMap_map]
    congr 1
    exact List.filterMap_congr fun line _ => apply_rdropWhile dataLine_space line

theorem blank_trimmed (line : List Char) : blank isSpace (line.rdropWhile isSpace) = blank isSpace line := by
  refine apply_rdropWhile (fun l c hc => ?_) line
  rw [blank, blank, List.all_append, List.all_cons, hc]
  exact Bool.and_true _

end

/-! ## events of a text -/

section
variable {ε : Type} {parse : List Char → Option ε} {text buffer : List Char} {events : List ε}

/-- the event with some data -/
def eventOf (parse : List Char → Option ε) (data : List (List Char)) : Option ε :=
  if ['\n'].intercalate data = [] then none else parse (['\n'].intercalate data)

def runEvent (parse : List Char → Option ε) (run : List (List Char)) : Option ε := eventOf parse (runData run)

/-- the events of a text -/
def eventsOf (parse : List Char → Option ε) (text : List Char) : List ε := gather isSpace '\n' (runEvent parse) text

theorem runEvent_nil : runEvent parse [] = none := rfl

theorem parseSseEvent_trim (part : List Char) :
    parseSseEvent parse (trim part) = runEvent parse (solid isSpace '\n' part) := by
  rw [runEvent, ← dataOf_trim]
  rfl

theorem emitSseParts_eq (text : List Char) (events : List ε) :
    emitSseParts parse text events = events ++ eventsOf parse text := by
  have hempty (chunk : List Char) : (if decide (chunk ≠ []) = true then parseSseEvent parse chunk else none) =
      parseSseEvent parse chunk := by
    cases chunk with
    | nil => rfl
    | cons c chunk => rfl
  rw [emitSseParts, List.filterMap_filter, List.filterMap_map, eventsOf,
    ← gather_splitBlank runEvent_nil isSpace_newline]
  refine congrArg (events ++ ·) (List.filterMap_congr fun part _ => ?_)
  exact (hempty (trim part)).trans (parseSseEvent_trim part)

/-! ## line ends -/

/-- the lines of a text without the white space at their ends -/
def trimmedLines (text : List Char) : List (List Char) := (text.splitOn '\n').map (List.rdropWhile isSpace)

theorem eventsOf_congr {text' : List Char} (h : trimmedLines text = trimmedLines text') :
    eventsOf parse text = eventsOf parse text' :=
  gather_congr blank_trimmed (fun run => congrArg (eventOf parse) (runData_trimmed run)) h

theorem rdropWhile_cons (c : Char) (l : List Char) : (c :: l).rdropWhile isSpace =
    if l.rdropWhile isSpace = [] then [c].rdropWhile isSpace else c :: l.rdropWhile isSpace := by
  unfold List.rdropWhile
  rw [List.reverse_cons, List.dropWhile_append]
  cases l.reverse.dropWhile isSpace with
  | nil => rfl
  | cons d rest => simp

theorem trimmedLines_cons (c : Char) {text' : List Char} (h : trimmedLines text = trimmedLines text') :
    trimmedLines (c :: text) = trimmedLines (c :: text') := by
  unfold trimmedLines at *
  rw [List.splitOn_cons_eq_if_modifyHead, List.splitOn_cons_eq_if_modifyHead]
  split
  · rw [List.map_cons, List.map_cons, h]
  · cases hlines : text.splitOn '\n' with
    | nil => exact absurd hlines (List.splitOn_ne_nil _ _)
    | cons first more =>
      cases hlines' : text'.splitOn '\n' with
      | nil => exact absurd hlines' (List.splitOn_ne_nil _ _)
      | cons first' more' =>
        rw [hlines, hlines', List.map_cons, List.map_cons, List.cons.injEq] at h
        rw [List.modifyHead_cons, List.modifyHead_cons, List.map_cons, List.map_cons, rdropWhile_cons c first,
          rdropWhile_cons c first', h.1, h.2]

theorem trimmedLines_return (text : List Char) :
    trimmedLines ('\r' :: '\n' :: text) = trimmedLines ('\n' :: text) := rfl

theorem trimmedLines_normalize (buffer more : List Char) :
    trimmedLines (normalize buffer ++ more) = trimmedLines (buffer ++ more) := by
  induction buffer using normalize.induct with
  | case1 => rfl
  | case2 c => rfl
  | case3 c c' rest h ih =>
    obtain ⟨rfl, rfl⟩ := h
    rw [normalize, if_pos ⟨rfl, rfl⟩, List.cons_append, List.cons_append, List.cons_append, trimmedLines_return]
    exact trimmedLines_cons _ ih
  | case4 c c' rest h ih =>
    rw [normalize, if_neg h, List.cons_append]
    exact trimmedLines_cons _ ih

/-! ## chunks -/

/-- **the complete parts of a buffer have the events that they have in any text** -/
theorem emitted_append (buffer more : List Char) (events : List ε) :
    events ++ eventsOf parse (buffer ++ more) =
      (emitCompleteSseChunks parse buffer events).2 ++
        eventsOf parse ((emitCompleteSseChunks parse buffer events).1 ++ more) := by
  have hparts : eventsOf parse (['\n', '\n'].intercalate (splitParts (normalize buffer)).dropLast) =
      (splitParts (normalize buffer)).dropLast.flatMap (eventsOf parse) := gather_intercalate runEvent_nil _
  have hmore : eventsOf parse (normalize buffer ++ more) =
      (splitParts (normalize buffer)).dropLast.flatMap (eventsOf parse) ++
        eventsOf parse ((splitParts (normalize buffer)).getLastD [] ++ more) :=
    gather_splitBlank_append runEvent_nil _ _
  rw [emitCompleteSseChunks, emitSseParts_eq, hparts, List.append_assoc, ← hmore,
    eventsOf_congr (trimmedLines_normalize buffer more)]

theorem readLoop_eq (decoder : TextDecoder) (buffer : List Char) (events : List ε) (chunks : List (List UInt8)) :
    readLoop parse decoder buffer events chunks =
      events ++ eventsOf parse (buffer ++ ((decoder.decode chunks.flatten).2 ++
        (decoder.decode chunks.flatten).1.flush))
    := by
  induction chunks generalizing decoder buffer events with
  | nil =>
    rw [readLoop, emitSseParts_eq]
    rfl
  | cons value rest ih =>
    rw [readLoop, ih, ← emitted_append, List.flatten_cons, decode_append, List.append_assoc, List.append_assoc]

theorem eventsOf_space {c : Char} (hc : isSpace c = true) (text : List Char) :
    eventsOf parse (c :: text) = eventsOf parse text := by
  unfold eventsOf gather blocks
  rw [List.splitOn_cons_eq_if_modifyHead]
  split
  · have hempty : ∀ line ∈ [([] : List Char)], blank isSpace line = true := List.forall_mem_singleton.mpr rfl
    exact gather_blank_lines runEvent_nil hempty
  · cases text.splitOn '\n' with
    | nil => rfl
    | cons first more =>
      have hfirst (lines : List (List Char)) : runEvent parse ((c :: first) :: lines) =
          runEvent parse (first :: lines) := by
        rw [runEvent, runEvent, runData, runData, firstData, firstData, List.dropWhile_cons_of_pos hc]
      rw [List.modifyHead_cons, List.splitOnP_cons_eq_if_modifyHead, List.splitOnP_cons_eq_if_modifyHead,
        blank_space hc]
      split
      · rfl
      · cases hruns : more.splitOnP (blank isSpace) with
        | nil => rfl
        | cons run runs =>
          rw [List.modifyHead_cons, List.modifyHead_cons, List.filterMap_cons, List.filterMap_cons, hfirst]

theorem eventsOf_dropMark (text : List Char) : eventsOf parse (dropMark text) = eventsOf parse text := by
  cases text with
  | nil => rfl
  | cons c text =>
    rw [dropMark]
    split
    · next hmark =>
      rw [hmark]
      exact (eventsOf_space (by decide) text).symm
    · rfl

theorem readSseEvents_eq (response : Response) :
    readSseEvents parse response = eventsOf parse (decodeAll response.bytes) := by
  unfold readSseEvents
  cases hbody : response.body with
  | none =>
    dsimp only
    rw [emitSseParts_eq, List.nil_append]
  | some chunks =>
    dsimp only
    rw [readLoop_eq, response.cut chunks hbody, List.nil_append, List.nil_append]
    rfl

/-- **however the bytes of a text are cut, the handler gets the events of the whole text at once** -/
theorem sse_events (parse : List Char → Option ε) (text : List Char) (response : Response)
    (h : response.bytes = encoded text) : readSseEvents parse response = emitSseParts parse text [] := by
  rw [readSseEvents_eq, h, decodeAll_encoded, eventsOf_dropMark, emitSseParts_eq, List.nil_append]

end

/-! ## a response -/

/-- two events, the first of two lines, with both kinds of line ends -/
def sampleText : List Char := "data: 1\r\ndata: é\r\n\r\nid: 7\ndata:2\n \n".toList

/-- cut inside a line end, inside a character and inside a separator -/
def sampleResponse : Response where
  bytes := encoded sampleText
  body := some [(encoded sampleText).take 8, ((encoded sampleText).drop 8).take 8, (encoded sampleText).drop 16]
  cut := by
    intro chunks hchunks
    obtain rfl := Option.mem_some.mp hchunks
    simp only [List.flatten_cons, List.flatten_nil, List.append_nil]
    decide

theorem sse_events_sample : readSseEvents some sampleResponse = emitSseParts some sampleText [] :=
  sse_events some sampleText sampleResponse rfl

end Client

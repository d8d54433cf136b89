import SuperNova.Lib.Slots
import SuperNova.Stream.Attempts
import SuperNova.Stream.Cut

/-!
# A message, whole and in pieces

One message of the model comes as a body or as a stream of deltas.  The body is parsed at once, the deltas are added
up by the reader of the event stream.

* `readDeepseekResponse`: the parser of a body;
* `Streaming`: the ways in which a message comes as a stream;
* `readLoop_delivered` (**main**): the reader of a stream that is delivered gathers all its deltas.
-/

set_option linter.unusedSectionVars false

namespace Stream

open Io Text Provider Slots

/-! ## the body -/

/-- `parse_provider_tool_calls` of one item -/
def parseProviderToolCall (item : Json) : Option ProviderToolCall :=
  (item.strAt? "id").map fun id =>
    ⟨id, (item.strAt? "type").getD "function", (item.get? "function").getD (.obj [])⟩

def parseProviderToolCalls (value : Option Json) : List ProviderToolCall :=
  match value.bind Json.asArr? with
  | none => []
  | some items => items.filterMap parseProviderToolCall

def firstChoice (raw : Json) : Option Json := ((raw.get? "choices").bind Json.asArr?).bind List.head?

/-- what `invoke` does with the body of a response that is not streamed -/
def readDeepseekResponse (request : Request) (raw : Json) : Except Failure ModelProviderResponse :=
  let message := ((firstChoice raw).bind (·.get? "message")).getD (.obj [])
  let outputText := (message.strAt? "content").getD ""
  let reasoningContent := message.strAt? "reasoning_content"
  let toolCalls := parseProviderToolCalls (message.get? "tool_calls")
  if blank outputText ∧ toolCalls = [] then
    .error ⟨"DEEPSEEK_RESPONSE_CONTENT_MISSING",
      "DeepSeek response did not contain choices[0].message.content", false⟩
  else
    let finishReason := (firstChoice raw).bind (·.strAt? "finish_reason")
    match finishReason.elim (.ok ()) validateFinishReason with
    | .error e => .error e
    | .ok _ => .ok
      { outputText := outputText
        assistantMessage := some ⟨"assistant", if outputText = "" then none else some outputText, reasoningContent,
          toolCalls⟩
        reasoningContent := reasoningContent
        toolCalls := toolCalls
        usage := (raw.get? "usage").getD (.obj [])
        finishReason := finishReason
        raw := raw
        samplingIgnoredByProvider := request.samplingIgnoredByProvider
        streaming := false
        firstTokenMs := none
        chunksCount := 0
        streamEventCount := 0
        firstByteTimeoutMs := none
        idleTimeoutMs := none
        maxWallTimeMs := none }

/-! ## messages -/

structure ToolCall where
  id : String
  type : Option String
  name : String
  arguments : String

structure Message where
  content : Option String
  reasoning : Option String
  toolCalls : List ToolCall

/-- a message with the finish reason and the usage that come with it -/
structure Completion where
  message : Message
  finishReason : Option String
  usage : Option Json
  finish_ne : finishReason ≠ some ""
  usage_ne : usage ≠ some .null

/-- a field that may be missing -/
def optField (key : String) (value : Option Json) : List (String × Json) := (value.map (key, ·)).toList

def ToolCall.function (call : ToolCall) : Json :=
  .obj [("name", .str call.name), ("arguments", .str call.arguments)]

def ToolCall.toJson (call : ToolCall) : Json :=
  .obj ([("id", .str call.id)] ++ optField "type" (call.type.map .str) ++ [("function", call.function)])

def Message.toJson (message : Message) : Json :=
  .obj [("role", .str "assistant"), ("content", Json.ofText? message.content),
    ("reasoning_content", Json.ofText? message.reasoning), ("tool_calls", .arr (message.toolCalls.map ToolCall.toJson))]

def Completion.body (c : Completion) : Json :=
  .obj ([("choices", .arr [.obj [("index", .num 0), ("message", c.message.toJson),
    ("finish_reason", Json.ofText? c.finishReason)]])] ++ optField "usage" c.usage)

/-! ## deltas -/

/-- a piece of a tool call -/
structure Fragment where
  index : Nat
  id : Option String
  type : Option String
  name : Option String
  arguments : Option String

structure Delta where
  content : Option String
  reasoning : Option String
  fragments : List Fragment
  finishReason : Option String

structure StreamEvent where
  deltas : List Delta
  usage : Option Json

def Fragment.toJson (f : Fragment) : Json :=
  .obj ([("index", .num f.index)] ++ optField "id" (f.id.map .str) ++ optField "type" (f.type.map .str) ++
    [("function", .obj (optField "name" (f.name.map .str) ++ optField "arguments" (f.arguments.map .str)))])

/-- the choice with the delta -/
def Delta.toJson (d : Delta) : Json :=
  .obj [("index", .num 0),
    ("delta", .obj (optField "content" (d.content.map .str) ++ optField "reasoning_content" (d.reasoning.map .str) ++
      [("tool_calls", .arr (d.fragments.map Fragment.toJson))])),
    ("finish_reason", Json.ofText? d.finishReason)]

def StreamEvent.toJson (e : StreamEvent) : Json :=
  .obj [("choices", .arr (e.deltas.map Delta.toJson)), ("usage", e.usage.getD .null)]

/-- a string that is there and not empty -/
def given (o : Option String) : Option String := o.filter (· ≠ "")

/-- the fragments of one call: the first has its id, type and name, the others nothing but arguments -/
def Spells (fragments : List Fragment) (call : ToolCall) : Prop :=
  ∃ first rest, fragments = first :: rest ∧
    first.id = some call.id ∧ first.type = call.type ∧ first.name = some call.name ∧
      (∀ f ∈ rest, given f.id = none ∧ given f.type = none ∧ given f.name = none) ∧
        join "" (fragments.map fun f => f.arguments.getD "") = call.arguments

/-- a way to split a message; each call has an index, and the fragments of the calls come in any order -/
structure Split (c : Completion) where
  events : List StreamEvent
  indices : List Nat
  content_eq : join "" ((events.flatMap (·.deltas)).map fun d => d.content.getD "") = c.message.content.getD ""
  reasoning_eq : join "" ((events.flatMap (·.deltas)).map fun d => d.reasoning.getD "") = c.message.reasoning.getD ""
  sorted : indices.Pairwise (· < ·)
  length_eq : indices.length = c.message.toolCalls.length
  spelled : ∀ entry ∈ indices.zip c.message.toolCalls,
    Spells (((events.flatMap (·.deltas)).flatMap (·.fragments)).filter (·.index = entry.1)) entry.2
  indexed : ∀ f ∈ (events.flatMap (·.deltas)).flatMap (·.fragments), f.index ∈ indices
  finish_eq : ((events.flatMap (·.deltas)).filterMap fun d => given d.finishReason).getLast? = c.finishReason
  usage_eq : (events.filterMap fun e => e.usage.filter (· ≠ .null)).getLast? = c.usage

/-- the lines bring the events, each in a data line, with other lines between them, up to `[DONE]` or the end of the
connection; no time is over -/
inductive Delivered (codec : Codec) (config : DeepSeekStreamConfig) (closedAt : Nat) :
    List LineRead → List StreamEvent → Prop where
  | closed (hwall : ¬ config.Exceeded closedAt) : Delivered codec config closedAt [] []
  | done {read : LineRead} (rest : List LineRead) (hwall : ¬ config.Exceeded read.elapsed)
      (hpayload : read.payload = some "[DONE]") : Delivered codec config closedAt (read :: rest) []
  | quiet {read : LineRead} {line : String} {rest : List LineRead} {events : List StreamEvent}
      (hwall : ¬ config.Exceeded read.elapsed) (hline : read.line = .ok line) (hpayload : payloadOf line = none)
      (h : Delivered codec config closedAt rest events) : Delivered codec config closedAt (read :: rest) events
  | event {read : LineRead} {payload : String} {rest : List LineRead} {e : StreamEvent} {events : List StreamEvent}
      (hwall : ¬ config.Exceeded read.elapsed) (hpayload : read.payload = some payload) (hdone : payload ≠ "[DONE]")
      (hparse : codec.parse payload = .ok e.toJson) (h : Delivered codec config closedAt rest events) :
      Delivered codec config closedAt (read :: rest) (e :: events)

/-- a message that is streamed -/
structure Streaming (codec : Codec) (config : DeepSeekStreamConfig) (c : Completion) extends Split c where
  arrivals : Arrivals
  delivered : Delivered codec config arrivals.closedAt arrivals.reads events

/-! ## reading fields -/

section
variable {key k : String} {value : Option Json} {fields fields' : List (String × Json)}

theorem get?_append : (Json.obj (fields ++ fields')).get? k =
    ((Json.obj fields).get? k).or ((Json.obj fields').get? k) := by
  show ((fields ++ fields').find? _).map _ = _
  rw [List.find?_append]
  cases hfind : fields.find? fun f => f.1 == k with
  | none => simp [Json.get?, hfind]
  | some f => simp [Json.get?, hfind]

theorem get?_optField : (Json.obj (optField key value)).get? k = if k = key then value else none := by
  cases value with
  | none => simp [optField, Json.get?]
  | some v =>
    by_cases hk : k = key
    · simp [optField, Json.get?, hk]
    · simp [optField, Json.get?, hk, Ne.symm hk]

theorem get?_single {v : Json} : (Json.obj [(key, v)]).get? k = if k = key then some v else none :=
  @get?_optField key k (some v)

theorem asStr_map (o : Option String) : (o.map Json.str).bind Json.asStr? = o := by
  cases o with
  | none => rfl
  | some text => rfl

theorem asStr_ofText (o : Option String) : (Json.ofText? o).asStr? = o := by
  cases o with
  | none => rfl
  | some text => rfl

end

/-! ## what the reader gathers -/

theorem join_cons (s : String) (l : List String) : join "" (s :: l) = s ++ join "" l := by
  cases l with
  | nil => exact String.append_empty.symm
  | cons t l => rw [join_cons_cons, String.append_empty]

/-- what the reader has so far; reasoning that is empty is none -/
structure Gathered where
  text : String
  reasoning : Option String
  calls : List PartialToolCall
  finish : Option String
  usage : Json

def Accumulator.gathered (acc : Accumulator) : Gathered where
  text := join "" acc.chunks
  reasoning := if acc.reasoningChunks = [] then none else some (join "" acc.reasoningChunks)
  calls := acc.toolCalls
  finish := acc.finishReason
  usage := acc.usage

def Fragment.add (f : Fragment) (call : PartialToolCall) : PartialToolCall where
  id := (given f.id).or call.id
  callType := (given f.type).or call.callType
  functionName := call.functionName ++ f.name.getD ""
  functionArguments := call.functionArguments ++ f.arguments.getD ""

def addPiece (reasoning : Option String) (piece : String) : Option String :=
  if piece = "" then reasoning else some (reasoning.getD "" ++ piece)

def Gathered.addDelta (g : Gathered) (d : Delta) : Gathered where
  text := g.text ++ d.content.getD ""
  reasoning := addPiece g.reasoning (d.reasoning.getD "")
  calls := putAll .default Fragment.index Fragment.add d.fragments g.calls
  finish := (given d.finishReason).or g.finish
  usage := g.usage

def Gathered.addEvent (g : Gathered) (e : StreamEvent) : Gathered :=
  e.deltas.foldl Gathered.addDelta { g with usage := (e.usage.filter (· ≠ .null)).getD g.usage }

section
variable {codec : Codec} {request : Request} {arrived : Nat} {acc : Accumulator}

theorem given_some {text : String} : given (some text) = if text = "" then none else some text := by
  by_cases hempty : text = ""
  · simp [given, Option.filter, hempty]
  · simp [given, Option.filter, hempty]

theorem add_fragment (call : PartialToolCall) (f : Fragment) : call.add f.toJson = f.add call := by
  have hid : f.toJson.strAt? "id" = f.id := by
    rw [Json.strAt?, Fragment.toJson, get?_append, get?_append, get?_append, get?_single, get?_optField, get?_optField,
      get?_single]
    simp [asStr_map]
  have htype : f.toJson.strAt? "type" = f.type := by
    rw [Json.strAt?, Fragment.toJson, get?_append, get?_append, get?_append, get?_single, get?_optField, get?_optField,
      get?_single]
    simp [asStr_map]
  have hfunction : f.toJson.get? "function" =
      some (.obj (optField "name" (f.name.map .str) ++ optField "arguments" (f.arguments.map .str))) := by
    rw [Fragment.toJson, get?_append, get?_append, get?_append, get?_single, get?_optField, get?_optField, get?_single]
    simp
  have hname : (Json.obj (optField "name" (f.name.map .str) ++ optField "arguments" (f.arguments.map .str))).strAt?
      "name" = f.name := by
    rw [Json.strAt?, get?_append, get?_optField, get?_optField]
    simp [asStr_map]
  have harguments : (Json.obj (optField "name" (f.name.map .str) ++
      optField "arguments" (f.arguments.map .str))).strAt? "arguments" = f.arguments := by
    rw [Json.strAt?, get?_append, get?_optField, get?_optField]
    simp [asStr_map]
  have haddId : call.addId f.toJson = { call with id := (given f.id).or call.id } := by
    rw [PartialToolCall.addId, hid]
    cases f.id with
    | none => rfl
    | some id =>
      by_cases hempty : id = ""
      · simp [given_some, hempty]
      · simp [given_some, hempty]
  have haddType : ∀ c : PartialToolCall, c.addType f.toJson = { c with callType := (given f.type).or c.callType } := by
    intro c
    rw [PartialToolCall.addType, htype]
    cases f.type with
    | none => rfl
    | some type =>
      by_cases hempty : type = ""
      · simp [given_some, hempty]
      · simp [given_some, hempty]
  rw [PartialToolCall.add, haddId, haddType, PartialToolCall.addFunction, hfunction]
  dsimp only
  rw [hname, harguments]
  rfl

theorem fragmentIndex_fragment (fallback : Nat) (f : Fragment) : fragmentIndex fallback f.toJson = f.index := rfl

theorem accumulateItems_fragments (fragments : List Fragment) (fallback : Nat) (calls : List PartialToolCall) :
    accumulateItems fallback (fragments.map Fragment.toJson) calls =
      putAll .default Fragment.index Fragment.add fragments calls := by
  induction fragments generalizing fallback calls with
  | nil => rfl
  | cons f rest ih =>
    have hadd : (fun call : PartialToolCall => call.add f.toJson) = f.add := funext fun call => add_fragment call f
    rw [List.map_cons, accumulateItems, fragmentIndex_fragment, ih, hadd]
    rfl

theorem gathered_addContent (content : String) : (acc.addContent request arrived content).gathered =
    { acc.gathered with text := acc.gathered.text ++ content } := by
  unfold Accumulator.addContent
  split
  · rename_i hempty
    rw [hempty, String.append_empty]
  · show Gathered.mk _ _ _ _ _ = Gathered.mk _ _ _ _ _
    rw [show (acc.chunks ++ [content]) = acc.chunks.concat content from List.concat_eq_append.symm]
    simp [Accumulator.gathered, join_concat]

theorem gathered_addReasoning (content : String) : (acc.addReasoning request arrived content).gathered =
    { acc.gathered with reasoning := addPiece acc.gathered.reasoning content } := by
  unfold Accumulator.addReasoning addPiece
  split
  · rfl
  · by_cases hnone : acc.reasoningChunks = []
    · simp [Accumulator.gathered, hnone, join]
    · simp [Accumulator.gathered, hnone, join_concat]

theorem extractResponseText_str (text : Option String) : extractResponseText codec (text.map .str) = text := by
  cases text with
  | none => rfl
  | some text => rfl

theorem gathered_addDelta {fields : Json} {content reasoning : Option String} {fragments : List Fragment}
    (hcontent : fields.get? "content" = content.map .str)
    (hreasoning : fields.get? "reasoning_content" = reasoning.map .str)
    (hcalls : fields.get? "tool_calls" = some (.arr (fragments.map Fragment.toJson))) :
    (acc.addDelta codec request arrived fields).gathered =
      { acc.gathered with
        text := acc.gathered.text ++ content.getD ""
        reasoning := addPiece acc.gathered.reasoning (reasoning.getD "")
        calls := putAll .default Fragment.index Fragment.add fragments acc.gathered.calls } := by
  have hitems : ∀ w : Accumulator,
      ({ w with toolCalls := accumulateToolCallDeltas (some (.arr (fragments.map Fragment.toJson))) w.toolCalls } :
        Accumulator).gathered =
      { w.gathered with calls := putAll .default Fragment.index Fragment.add fragments w.gathered.calls } := by
    intro w
    show { w.gathered with calls := accumulateItems 0 (fragments.map Fragment.toJson) w.toolCalls } = _
    rw [accumulateItems_fragments]
    rfl
  unfold Accumulator.addDelta
  rw [hcontent, hreasoning, hcalls, extractResponseText_str, extractResponseText_str]
  cases content with
  | none =>
    cases reasoning with
    | none =>
      refine (hitems acc).trans ?_
      simp [addPiece]
    | some reasoning =>
      refine (hitems (acc.addReasoning request arrived reasoning)).trans ?_
      rw [gathered_addReasoning]
      simp
  | some content =>
    cases reasoning with
    | none =>
      refine (hitems (acc.addContent request arrived content)).trans ?_
      rw [gathered_addContent]
      simp [addPiece]
    | some reasoning =>
      refine (hitems ((acc.addContent request arrived content).addReasoning request arrived reasoning)).trans ?_
      rw [gathered_addReasoning, gathered_addContent]
      simp

theorem gathered_addChoice (d : Delta) :
    (acc.addChoice codec request arrived d.toJson).gathered = acc.gathered.addDelta d := by
  have hfinish : finishReasonOf d.toJson = given d.finishReason :=
    congrArg given (asStr_ofText d.finishReason)
  unfold Accumulator.addChoice
  rw [hfinish]
  show (Accumulator.addDelta codec request arrived _ _).gathered = _
  rw [@gathered_addDelta _ _ _ _ _ d.content d.reasoning d.fragments]
  · rfl
  · rw [get?_append, get?_append, get?_optField, get?_optField, get?_single]
    simp
  · rw [get?_append, get?_append, get?_optField, get?_optField, get?_single]
    simp
  · rw [get?_append, get?_append, get?_optField, get?_optField, get?_single]
    simp

theorem foldl_addChoice (ds : List Delta) (acc : Accumulator) :
    ((ds.map Delta.toJson).foldl (·.addChoice codec request arrived) acc).gathered =
      ds.foldl Gathered.addDelta acc.gathered := by
  induction ds generalizing acc with
  | nil => rfl
  | cons d ds ih =>
    rw [List.map_cons, List.foldl_cons, List.foldl_cons, ih, gathered_addChoice]

theorem usageOf_event (e : StreamEvent) (old : Json) : usageOf e.toJson old =
    (e.usage.filter (· ≠ .null)).getD old := by
  obtain ⟨deltas, usage⟩ := e
  cases usage with
  | none => rfl
  | some usage => cases usage <;> rfl

theorem gathered_addEvent (e : StreamEvent) :
    (acc.addEvent codec request arrived e.toJson).gathered = acc.gathered.addEvent e := by
  show ((e.deltas.map Delta.toJson).foldl _ { acc with usage := usageOf e.toJson acc.usage }).gathered = _
  rw [foldl_addChoice, usageOf_event]
  rfl

theorem readLoop_delivered {config : DeepSeekStreamConfig} {closedAt : Nat} {reads : List LineRead}
    {events : List StreamEvent} (h : Delivered codec config closedAt reads events) (acc : Accumulator) :
    ∃ done acc', Ok (readLoop codec config request closedAt reads) acc done acc' ∧
      acc'.gathered = events.foldl Gathered.addEvent acc.gathered := by
  induction h generalizing acc with
  | closed hwall => exact ⟨false, acc, bind_ok.mpr ⟨(), acc, checkWallTime_ok hwall, rfl⟩, rfl⟩
  | @done read rest hwall hpayload =>
    refine ⟨true, acc, ?_, rfl⟩
    rw [Ok, readLoop, bind_of_ok (checkWallTime_ok hwall), bind_of_ok (get_apply acc)]
    unfold LineRead.payload at hpayload
    cases hline : read.line with
    | error e =>
      rw [hline] at hpayload
      cases hpayload
    | ok line =>
      rw [hline] at hpayload
      have hline' : payloadOf line = some "[DONE]" := hpayload
      simp only [hline', if_true]
      rfl
  | quiet hwall hline hpayload _ ih =>
    obtain ⟨done, acc', hok, hacc'⟩ := ih acc
    exact ⟨done, acc', (readLoop_of_none hwall hline hpayload).trans hok, hacc'⟩
  | @event read payload rest e events hwall hpayload hdone hparse _ ih =>
    unfold LineRead.payload at hpayload
    cases hline : read.line with
    | error e =>
      rw [hline] at hpayload
      cases hpayload
    | ok line =>
      rw [hline] at hpayload
      have hread : Ok (readPayload codec request read.arrived payload) acc () (Accumulator.addEvent codec request
          read.arrived { acc with streamEventCount := saturatingSucc acc.streamEventCount } e.toJson) := by
        unfold readPayload
        rw [hparse]
        exact bind_ok.mpr ⟨(), _, rfl, rfl⟩
      obtain ⟨done, acc', hok, hacc'⟩ := ih (Accumulator.addEvent codec request read.arrived
        { acc with streamEventCount := saturatingSucc acc.streamEventCount } e.toJson)
      refine ⟨done, acc', ?_, ?_⟩
      · rw [Ok, readLoop_of_payload hwall hline hpayload hdone, bind_of_ok hread]
        exact hok
      · rw [hacc', gathered_addEvent]
        rfl

end

end Stream

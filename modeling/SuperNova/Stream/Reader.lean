import Mathlib.Algebra.GroupWithZero.Nat
import SuperNova.Lib.Io
import SuperNova.Lib.Json
import SuperNova.Lib.Text
import SuperNova.Provider.Tools

/-!
# The reader of a DeepSeek event stream

`readDeepseekStreamingResponse` reads line after line, adds text, reasoning and fragments of tool
calls up, and decides at the end from what it has.  The arriving lines with their times are the
input; `Codec` stands for the JSON library.
-/

namespace Stream

open Io Text Provider

/-! ## input -/

structure DeepSeekStreamConfig where
  firstByteTimeoutMs : Nat
  idleTimeoutMs : Nat
  maxWallTimeMs : Nat

/-- what the reader uses of `ModelProviderRequest` -/
structure Request where
  modelCallId : String
  operation : String
  samplingIgnoredByProvider : Bool

inductive ReadError where
  | timedOut (message : String)
  | other (message : String)

/-- one `read_line`: the time at the check before it, the time it returned, and its result; a line
that was read has at least one character -/
structure LineRead where
  elapsed : Nat
  arrived : Nat
  line : Except ReadError String
  nonempty : line ≠ .ok ""

/-- all reads up to the end of the connection, and the time of the last check -/
structure Arrivals where
  reads : List LineRead
  closedAt : Nat

/-- `ModelProviderFailure` -/
structure Failure where
  errorCode : String
  message : String
  retryable : Bool

/-! ## what is added up -/

structure PartialToolCall where
  id : Option String
  callType : Option String
  functionName : String
  functionArguments : String

def PartialToolCall.default : PartialToolCall := ⟨none, none, "", ""⟩

inductive ModelStreamDeltaKind where
  | answer
  | reasoning

structure ModelStreamDelta where
  modelCallId : String
  operation : String
  kind : ModelStreamDeltaKind
  sequence : Nat
  delta : String

/-- the local variables of the loop, and what went to the sink -/
structure Accumulator where
  firstTokenMs : Option Nat
  chunksCount : Nat
  streamEventCount : Nat
  chunks : List String
  reasoningChunks : List String
  reasoningChunksCount : Nat
  toolCalls : List PartialToolCall
  usage : Json
  finishReason : Option String
  sent : List ModelStreamDelta

def Accumulator.start : Accumulator := ⟨none, 0, 0, [], [], 0, [], .obj [], none, []⟩

abbrev StreamM (α : Type) := EStateM Failure Accumulator α

/-- `u32::saturating_add` of one -/
def saturatingSucc (n : Nat) : Nat := min (n + 1) 4294967295

/-- `String::len` summed over the chunks -/
def partialChars (chunks : List String) : Nat := (chunks.map String.utf8ByteSize).sum

/-! ## one event -/

def extractResponseText (codec : Codec) : Option Json → Option String
  | none => none
  | some (.str text) => some text
  | some (.arr items) =>
    some (join "\n" (items.filterMap fun item => (item.strAt? "text").or item.asStr?))
  | some .null => none
  | some other => some (codec.render other)

def PartialToolCall.addId (call : PartialToolCall) (item : Json) : PartialToolCall :=
  match item.strAt? "id" with
  | some id => if id = "" then call else { call with id := some id }
  | none => call

def PartialToolCall.addType (call : PartialToolCall) (item : Json) : PartialToolCall :=
  match item.strAt? "type" with
  | some type => if type = "" then call else { call with callType := some type }
  | none => call

def PartialToolCall.addFunction (call : PartialToolCall) (item : Json) : PartialToolCall :=
  match item.get? "function" with
  | none => call
  | some function =>
    { call with
      functionName := call.functionName ++ (function.strAt? "name").getD ""
      functionArguments := call.functionArguments ++ (function.strAt? "arguments").getD "" }

/-- the fields of one fragment, added to the call it belongs to -/
def PartialToolCall.add (call : PartialToolCall) (item : Json) : PartialToolCall :=
  ((call.addId item).addType item).addFunction item

/-- the index of a fragment, or its place in the list -/
def fragmentIndex (fallback : Nat) (item : Json) : Nat :=
  ((item.get? "index").bind Json.asNat?).getD fallback

/-- the loop of `accumulate_tool_call_deltas` -/
def accumulateItems : Nat → List Json → List PartialToolCall → List PartialToolCall
  | _, [], calls => calls
  | fallback, item :: rest, calls =>
    let index := fragmentIndex fallback item
    let padded := calls ++ List.replicate (index + 1 - calls.length) PartialToolCall.default
    accumulateItems (fallback + 1) rest (padded.modify index (·.add item))

def accumulateToolCallDeltas (value : Option Json) (calls : List PartialToolCall) :
    List PartialToolCall :=
  match value.bind Json.asArr? with
  | none => calls
  | some items => accumulateItems 0 items calls

/-- a piece of answer text -/
def Accumulator.addContent (request : Request) (arrived : Nat) (acc : Accumulator)
    (content : String) : Accumulator :=
  if content = "" then acc
  else
    let count := saturatingSucc acc.chunksCount
    { acc with
      firstTokenMs := acc.firstTokenMs.or (some arrived)
      chunksCount := count
      sent := acc.sent ++
        [⟨request.modelCallId, request.operation, .answer, count, content⟩]
      chunks := acc.chunks ++ [content] }

def Accumulator.addReasoning (request : Request) (arrived : Nat) (acc : Accumulator)
    (content : String) : Accumulator :=
  if content = "" then acc
  else
    let count := saturatingSucc acc.reasoningChunksCount
    { acc with
      firstTokenMs := acc.firstTokenMs.or (some arrived)
      reasoningChunksCount := count
      sent := acc.sent ++
        [⟨request.modelCallId, request.operation, .reasoning, count, content⟩]
      reasoningChunks := acc.reasoningChunks ++ [content] }

def Accumulator.addDelta (codec : Codec) (request : Request) (arrived : Nat) (acc : Accumulator)
    (delta : Json) : Accumulator :=
  let acc := match extractResponseText codec (delta.get? "content") with
    | some content => acc.addContent request arrived content
    | none => acc
  let acc := match extractResponseText codec (delta.get? "reasoning_content") with
    | some content => acc.addReasoning request arrived content
    | none => acc
  { acc with toolCalls := accumulateToolCallDeltas (delta.get? "tool_calls") acc.toolCalls }

/-- the finish reason a choice names -/
def finishReasonOf (choice : Json) : Option String :=
  (choice.strAt? "finish_reason").filter (· ≠ "")

def Accumulator.addChoice (codec : Codec) (request : Request) (arrived : Nat) (acc : Accumulator)
    (choice : Json) : Accumulator :=
  let acc := { acc with finishReason := (finishReasonOf choice).or acc.finishReason }
  match choice.get? "delta" with
  | none => acc
  | some delta => acc.addDelta codec request arrived delta

def choicesOf (event : Json) : List Json := ((event.get? "choices").bind Json.asArr?).getD []

/-- the usage an event reports -/
def usageOf (event : Json) (old : Json) : Json :=
  match event.get? "usage" with
  | none | some .null => old
  | some usage => usage

def Accumulator.addEvent (codec : Codec) (request : Request) (arrived : Nat) (acc : Accumulator)
    (event : Json) : Accumulator :=
  (choicesOf event).foldl (·.addChoice codec request arrived)
    { acc with usage := usageOf event acc.usage }

/-! ## the loop -/

/-- the payload of a data line; comments, other fields and empty lines have none -/
def payloadOf (line : String) : Option String :=
  let trimmed := trim line
  if trimmed = "" ∨ trimmed.toList.head? = some ':' then none
  else (stripPrefix "data:" trimmed).map trim

def checkWallTime (config : DeepSeekStreamConfig) (elapsed : Nat) : StreamM Unit := do
  let acc ← get
  if config.maxWallTimeMs > 0 ∧ elapsed > config.maxWallTimeMs then
    throw ⟨"DEEPSEEK_STREAM_WALL_TIMEOUT",
      "DeepSeek stream exceeded max wall time after " ++ toString acc.streamEventCount ++
        " events, " ++ toString acc.chunksCount ++ " chunks, " ++
        toString (partialChars acc.chunks) ++ " partial chars; partial output discarded", true⟩
  else pure ()

/-- the failure of a `read_line` -/
def readFailure (acc : Accumulator) (error : ReadError) : Failure :=
  let discarded (message : String) := message ++ "; " ++ toString acc.chunksCount ++
    " partial chunks and " ++ toString (partialChars acc.chunks) ++ " partial chars discarded"
  match error with
  | .timedOut message =>
    ⟨if acc.firstTokenMs.isNone then "DEEPSEEK_STREAM_FIRST_BYTE_TIMEOUT"
      else "DEEPSEEK_STREAM_IDLE_TIMEOUT", discarded message, true⟩
  | .other message => ⟨"DEEPSEEK_STREAM_READ_ERROR", discarded message, true⟩

def readPayload (codec : Codec) (request : Request) (arrived : Nat) (payload : String) :
    StreamM Unit := do
  modify fun acc => { acc with streamEventCount := saturatingSucc acc.streamEventCount }
  match codec.parse payload with
  | .error e =>
    throw ⟨"DEEPSEEK_STREAM_JSON_INVALID",
      e ++ ": " ++ String.ofList (payload.toList.take 400), false⟩
  | .ok event =>
    match event.get? "error" with
    | some providerError =>
      throw ⟨"DEEPSEEK_STREAM_PROVIDER_ERROR", codec.render providerError, true⟩
    | none => modify fun acc => acc.addEvent codec request arrived event

/-- the loop; whether it ended at the `[DONE]` line -/
def readLoop (codec : Codec) (config : DeepSeekStreamConfig) (request : Request) (closedAt : Nat) :
    List LineRead → StreamM Bool
  | [] => do
    checkWallTime config closedAt
    pure false
  | read :: rest => do
    checkWallTime config read.elapsed
    let acc ← get
    match read.line with
    | .error e => throw (readFailure acc e)
    | .ok line =>
      match payloadOf line with
      | none => readLoop codec config request closedAt rest
      | some payload =>
        if payload = "[DONE]" then pure true
        else do
          readPayload codec request read.arrived payload
          readLoop codec config request closedAt rest

/-! ## the end -/

def validateFinishReason (finishReason : String) : Except Failure Unit :=
  if finishReason = "length" then
    .error ⟨"MODEL_OUTPUT_TRUNCATED",
      "model output was truncated by provider finish_reason=length", false⟩
  else if finishReason = "content_filter" then
    .error ⟨"MODEL_CONTENT_FILTERED", "model output was filtered by provider", false⟩
  else if finishReason = "insufficient_system_resource" then
    .error ⟨"MODEL_UNAVAILABLE", "provider reported insufficient system resource", true⟩
  else .ok ()

/-- a call of which nothing but white space arrived -/
def PartialToolCall.isEmpty (call : PartialToolCall) : Bool :=
  call.id.isNone && blank call.functionName && blank call.functionArguments

/-- the loop of `materialize_tool_calls` -/
def materializeFrom : Nat → List PartialToolCall → List ProviderToolCall
  | _, [] => []
  | index, call :: rest =>
    if call.isEmpty then materializeFrom (index + 1) rest
    else ⟨call.id.getD ("tool_call_" ++ toString index), call.callType.getD "function",
      .obj [("name", .str call.functionName), ("arguments", .str call.functionArguments)]⟩ ::
        materializeFrom (index + 1) rest

def materializeToolCalls (calls : List PartialToolCall) : List ProviderToolCall :=
  materializeFrom 0 calls

/-- the response made of what was added up -/
def responseOf (config : DeepSeekStreamConfig) (request : Request) (acc : Accumulator)
    (done : Bool) : ModelProviderResponse :=
  let outputText := join "" acc.chunks
  let toolCalls := materializeToolCalls acc.toolCalls
  let reasoningContent :=
    if acc.reasoningChunks = [] then none else some (join "" acc.reasoningChunks)
  { outputText := outputText
    assistantMessage := some ⟨"assistant", if outputText = "" then none else some outputText,
      reasoningContent, toolCalls⟩
    reasoningContent := reasoningContent
    toolCalls := toolCalls
    usage := acc.usage
    finishReason := acc.finishReason
    raw := .obj [("stream", .bool true), ("done", .bool done),
      ("chunks_count", .num acc.chunksCount),
      ("reasoning_chunks_count", .num acc.reasoningChunksCount),
      ("stream_event_count", .num acc.streamEventCount), ("usage", acc.usage),
      ("model_call_id", .str request.modelCallId)]
    samplingIgnoredByProvider := request.samplingIgnoredByProvider
    streaming := true
    firstTokenMs := acc.firstTokenMs
    chunksCount := acc.chunksCount
    streamEventCount := acc.streamEventCount
    firstByteTimeoutMs := some config.firstByteTimeoutMs
    idleTimeoutMs := some config.idleTimeoutMs
    maxWallTimeMs := some config.maxWallTimeMs }

/-- what the reader does after the loop -/
def finishResponse (config : DeepSeekStreamConfig) (request : Request) (acc : Accumulator)
    (done : Bool) : Except Failure ModelProviderResponse :=
  match acc.finishReason.elim (.ok ()) validateFinishReason with
  | .error e => .error e
  | .ok _ =>
    if blank (join "" acc.chunks) ∧ materializeToolCalls acc.toolCalls = [] then
      .error ⟨"DEEPSEEK_STREAM_EMPTY_RESPONSE", "DeepSeek stream ended without text content",
        !done⟩
    else .ok (responseOf config request acc done)

def readDeepseekStreamingResponse (codec : Codec) (arrivals : Arrivals) (request : Request)
    (config : DeepSeekStreamConfig) : StreamM ModelProviderResponse := do
  let done ← readLoop codec config request arrivals.closedAt arrivals.reads
  let acc ← get
  match finishResponse config request acc done with
  | .error e => throw e
  | .ok response => pure response

end Stream

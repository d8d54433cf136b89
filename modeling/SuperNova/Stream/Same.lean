import SuperNova.Stream.Parsed

/-!
# One response for both ways

A message that is streamed and the same message in a body, and the responses that the two parsers make of them.

* `Split.calls_eq_iff`: the calls of a stream are those of the body;
* `response_same_iff` (**main**): both give one response exactly when the reasoning, the ids and the types of the calls
  are not empty strings;
* `empty_reasoning_differs`: a message with empty reasoning.
-/

set_option linter.unusedSectionVars false

namespace Stream

open Io Text Provider Slots

/-! ## responses -/

/-- a response without what tells how it came -/
structure Assembled where
  outputText : String
  assistantMessage : Option ProviderAssistantMessage
  reasoningContent : Option String
  toolCalls : List ProviderToolCall
  usage : Json
  finishReason : Option String

def assembled (r : ModelProviderResponse) : Assembled where
  outputText := r.outputText
  assistantMessage := r.assistantMessage
  reasoningContent := r.reasoningContent
  toolCalls := r.toolCalls
  usage := r.usage
  finishReason := r.finishReason

/-- one response, or none -/
def SameResponse (a b : Except Failure ModelProviderResponse) : Prop :=
  a.toOption.map assembled = b.toOption.map assembled

/-- the finish reason is no refusal, and there is text or a call -/
def Completion.Answers (c : Completion) : Prop :=
  (∀ reason, c.finishReason = some reason → validateFinishReason reason = .ok ()) ∧
    ¬ (blank (c.message.content.getD "") ∧ c.message.toolCalls = [])

/-! ## everything that was gathered -/

theorem foldl_addPiece (pieces : List String) {reasoning : Option String} (h : reasoning ≠ some "") :
    pieces.foldl addPiece reasoning = given (some (reasoning.getD "" ++ join "" pieces)) := by
  induction pieces generalizing reasoning with
  | nil =>
    cases reasoning with
    | none => rfl
    | some text =>
      have htext : text ≠ "" := fun hempty => h (congrArg some hempty)
      show some text = given (some (text ++ ""))
      rw [String.append_empty, given_some, if_neg htext]
  | cons piece rest ih =>
    rw [List.foldl_cons, join_cons, ← String.append_assoc]
    unfold addPiece
    split
    · rename_i hempty
      rw [hempty, String.append_empty]
      exact ih h
    · rename_i hpiece
      refine ih fun hnone => hpiece ?_
      exact (append_eq_empty.mp (Option.some.inj hnone)).2

theorem foldl_addDelta (ds : List Delta) (g : Gathered) : ds.foldl Gathered.addDelta g =
    { text := g.text ++ join "" (ds.map fun d => d.content.getD "")
      reasoning := (ds.map fun d => d.reasoning.getD "").foldl addPiece g.reasoning
      calls := putAll .default Fragment.index Fragment.add (ds.flatMap (·.fragments)) g.calls
      finish := (ds.filterMap fun d => given d.finishReason).getLast?.or g.finish
      usage := g.usage } := by
  induction ds generalizing g with
  | nil =>
    show g = Gathered.mk (g.text ++ "") _ _ _ _
    rw [String.append_empty]
    rfl
  | cons d ds ih =>
    have htext : (g.addDelta d).text ++ join "" (ds.map fun d => d.content.getD "") =
        g.text ++ join "" ((d :: ds).map fun d => d.content.getD "") := by
      rw [List.map_cons, join_cons, ← String.append_assoc]
      rfl
    have hcalls : putAll .default Fragment.index Fragment.add (ds.flatMap (·.fragments)) (g.addDelta d).calls =
        putAll .default Fragment.index Fragment.add ((d :: ds).flatMap (·.fragments)) g.calls := by
      rw [List.flatMap_cons]
      exact List.foldl_append.symm
    have hfinish : (ds.filterMap fun d => given d.finishReason).getLast?.or (g.addDelta d).finish =
        ((d :: ds).filterMap fun d => given d.finishReason).getLast?.or g.finish := by
      show _ = (((d :: ds).filterMap _).getLast?).or _
      rw [List.filterMap_cons, show (g.addDelta d).finish = (given d.finishReason).or g.finish from rfl]
      cases given d.finishReason with
      | none => rfl
      | some reason =>
        rw [List.getLast?_cons]
        cases (ds.filterMap fun d => given d.finishReason).getLast? <;> rfl
    rw [List.foldl_cons, ih, htext, hcalls, hfinish]
    rfl

theorem foldl_addDelta_usage (ds : List Delta) (g : Gathered) (usage : Json) :
    ds.foldl Gathered.addDelta { g with usage } = { ds.foldl Gathered.addDelta g with usage } := by
  rw [foldl_addDelta, foldl_addDelta]

theorem foldl_addEvent (events : List StreamEvent) (g : Gathered) : events.foldl Gathered.addEvent g =
    { (events.flatMap (·.deltas)).foldl Gathered.addDelta g with
      usage := (events.filterMap fun e => e.usage.filter (· ≠ .null)).getLast?.getD g.usage } := by
  induction events generalizing g with
  | nil => rfl
  | cons e events ih =>
    have hevent : g.addEvent e = { e.deltas.foldl Gathered.addDelta g with
        usage := (e.usage.filter (· ≠ .null)).getD g.usage } := foldl_addDelta_usage ..
    have husage : (events.filterMap fun e => e.usage.filter (· ≠ .null)).getLast?.getD (g.addEvent e).usage =
        ((e :: events).filterMap fun e => e.usage.filter (· ≠ .null)).getLast?.getD g.usage := by
      rw [hevent, List.filterMap_cons]
      cases e.usage.filter (· ≠ .null) with
      | none => rfl
      | some usage =>
        rw [List.getLast?_cons]
        cases (events.filterMap fun e => e.usage.filter (· ≠ .null)).getLast? <;> rfl
    rw [List.foldl_cons, ih, husage, hevent, foldl_addDelta_usage, List.flatMap_cons, List.foldl_append]

/-! ## the calls -/

/-- the fields of a call as the reader has them at the end -/
def ToolCall.whole (call : ToolCall) : PartialToolCall where
  id := given (some call.id)
  callType := given call.type
  functionName := call.name
  functionArguments := call.arguments

/-- the call in the body, parsed -/
def ToolCall.parsed (call : ToolCall) : ProviderToolCall := ⟨call.id, call.type.getD "function", call.function⟩

/-- `materialize_tool_calls` of one slot -/
def PartialToolCall.materialize (index : Nat) (call : PartialToolCall) : Option ProviderToolCall :=
  if call.isEmpty then none
  else some ⟨call.id.getD ("tool_call_" ++ toString index), call.callType.getD "function",
    .obj [("name", .str call.functionName), ("arguments", .str call.functionArguments)]⟩

theorem materializeFrom_eq (calls : List PartialToolCall) (index : Nat) : materializeFrom index calls =
    (List.range calls.length).filterMap fun i => (slot .default calls i).materialize (index + i) := by
  induction calls generalizing index with
  | nil => rfl
  | cons call rest ih =>
    have hrest : ((List.range rest.length).map Nat.succ).filterMap
        (fun i => (slot .default (call :: rest) i).materialize (index + i)) = materializeFrom (index + 1) rest := by
      rw [ih, List.filterMap_map]
      apply List.filterMap_congr
      intro i _
      show (slot .default rest i).materialize (index + (i + 1)) = _
      rw [Nat.add_assoc, Nat.add_comm 1 i]
    rw [List.length_cons, List.range_succ_eq_map, List.filterMap_cons, hrest, materializeFrom]
    rw [Nat.add_zero, show slot .default (call :: rest) 0 = call from rfl, PartialToolCall.materialize]
    cases call.isEmpty with
    | true => rfl
    | false => rfl

theorem getD_of_given {o : Option String} (h : given o = none) : o.getD "" = "" := by
  cases o with
  | none => rfl
  | some text =>
    rw [given_some] at h
    by_contra hne
    have htext : text ≠ "" := hne
    rw [if_neg htext] at h
    cases h

theorem foldl_add_arguments {rest : List Fragment}
    (h : ∀ f ∈ rest, given f.id = none ∧ given f.type = none ∧ given f.name = none) (call : PartialToolCall) :
    rest.foldl (fun call f => f.add call) call =
      { call with functionArguments := call.functionArguments ++ join "" (rest.map fun f => f.arguments.getD "") } := by
  induction rest generalizing call with
  | nil =>
    show call = { call with functionArguments := call.functionArguments ++ "" }
    rw [String.append_empty]
  | cons f rest ih =>
    obtain ⟨hid, htype, hname⟩ := h f List.mem_cons_self
    have hadd : f.add call = { call with functionArguments := call.functionArguments ++ f.arguments.getD "" } := by
      rw [Fragment.add, hid, htype, getD_of_given hname, String.append_empty]
      rfl
    rw [List.foldl_cons, ih (fun g hg => h g (List.mem_cons_of_mem f hg)), hadd, List.map_cons, join_cons,
      ← String.append_assoc]

theorem Spells.foldl_add {fragments : List Fragment} {call : ToolCall} (h : Spells fragments call) :
    fragments.foldl (fun call f => f.add call) .default = call.whole := by
  obtain ⟨first, rest, rfl, hid, htype, hname, hrest, harguments⟩ := h
  rw [List.map_cons, join_cons] at harguments
  rw [List.foldl_cons, foldl_add_arguments hrest, Fragment.add, hid, htype, hname, ToolCall.whole, ← harguments]
  show PartialToolCall.mk ((given (some call.id)).or none) ((given call.type).or none) ("" ++ call.name)
    (("" ++ first.arguments.getD "") ++ _) = _
  rw [Option.or_none, Option.or_none, String.empty_append, String.empty_append]

theorem materialize_default (index : Nat) : PartialToolCall.default.materialize index = none := by
  rw [PartialToolCall.materialize, if_pos (by decide)]

theorem materialize_partial_iff (index : Nat) (call : ToolCall) :
    call.whole.materialize index = some call.parsed ↔ call.id ≠ "" ∧ call.type ≠ some "" := by
  have htype : (given call.type).getD "function" = call.type.getD "function" ↔ call.type ≠ some "" := by
    cases call.type with
    | none => simp [given]
    | some type =>
      by_cases hempty : type = ""
      · simp [given_some, hempty]
      · simp [given_some, hempty]
  unfold PartialToolCall.materialize
  by_cases hid : call.id = ""
  · refine iff_of_false (fun h => ?_) fun h => h.1 hid
    split at h
    · cases h
    · have hsame : "tool_call_" ++ toString index = call.id := by
        have hname := congrArg ProviderToolCall.id (Option.some.inj h)
        rw [ToolCall.whole, given_some, if_pos hid] at hname
        exact hname
      rw [hid] at hsame
      exact absurd (append_eq_empty.mp hsame).1 (by decide)
  · have hgiven : given (some call.id) = some call.id := by rw [given_some, if_neg hid]
    have hsome : call.whole.isEmpty = false := by
      rw [PartialToolCall.isEmpty, ToolCall.whole, hgiven]
      rfl
    rw [hsome, if_neg Bool.false_ne_true, Option.some_inj, ToolCall.whole, hgiven, ToolCall.parsed,
      ProviderToolCall.mk.injEq]
    show (call.id = call.id ∧ (given call.type).getD "function" = call.type.getD "function" ∧ _ = _) ↔ _
    rw [htype]
    exact ⟨fun h => ⟨hid, h.2.1⟩, fun h => ⟨rfl, h.2, rfl⟩⟩

section
variable {c : Completion}

def Split.fragments (s : Split c) : List Fragment := (s.events.flatMap (·.deltas)).flatMap (·.fragments)

/-- the calls as the reader has them at the end -/
def Split.partials (s : Split c) : List PartialToolCall :=
  putAll .default Fragment.index Fragment.add s.fragments []

theorem Split.materialize_eq (s : Split c) :
    materializeToolCalls s.partials =
      (s.indices.zip c.message.toolCalls).filterMap fun entry => entry.2.whole.materialize entry.1 := by
  have hslot : ∀ i, slot PartialToolCall.default s.partials i =
      (s.fragments.filter (·.index = i)).foldl (fun call f => f.add call) .default := fun _ => slot_putAll
  have hsorted : (s.indices.zip c.message.toolCalls).map Prod.fst = s.indices :=
    List.map_fst_zip (le_of_eq s.length_eq)
  have hlt : ∀ i ∈ s.indices, i < s.partials.length := by
    intro i hi
    rw [← hsorted] at hi
    obtain ⟨entry, hentry, rfl⟩ := List.mem_map.mp hi
    obtain ⟨first, rest, hfragments, -⟩ := s.spelled entry hentry
    have hfirst : first ∈ s.fragments.filter (·.index = entry.1) := hfragments ▸ List.mem_cons_self
    obtain ⟨hmem, hindex⟩ := List.mem_filter.mp hfirst
    rw [← of_decide_eq_true hindex]
    exact length_putAll.2 first hmem
  have hnone : ∀ i, i ∉ s.indices →
      (slot PartialToolCall.default s.partials i).materialize (0 + i) = none := by
    intro i hi
    have hempty : s.fragments.filter (·.index = i) = [] := by
      rw [List.filter_eq_nil_iff]
      intro f hf hindex
      exact hi (of_decide_eq_true hindex ▸ s.indexed f hf)
    rw [hslot, hempty]
    exact materialize_default _
  rw [materializeToolCalls, materializeFrom_eq, filterMap_range_of_sparse s.sorted hlt hnone, ← hsorted,
    List.filterMap_map, hsorted]
  apply List.filterMap_congr
  intro entry hentry
  show (slot PartialToolCall.default _ entry.1).materialize (0 + entry.1) = _
  have hspelled : (s.fragments.filter (·.index = entry.1)).foldl (fun call f => f.add call) .default = entry.2.whole :=
    (s.spelled entry hentry).foldl_add
  rw [hslot, hspelled, Nat.zero_add]

theorem Split.calls_eq_iff (s : Split c) :
    materializeToolCalls s.partials =
        c.message.toolCalls.map ToolCall.parsed ↔
      ∀ call ∈ c.message.toolCalls, call.id ≠ "" ∧ call.type ≠ some "" := by
  have hsnd : (s.indices.zip c.message.toolCalls).map Prod.snd = c.message.toolCalls :=
    List.map_snd_zip (le_of_eq s.length_eq.symm)
  have hparsed : c.message.toolCalls.map ToolCall.parsed =
      (s.indices.zip c.message.toolCalls).map fun entry => entry.2.parsed := by
    conv_lhs => rw [← hsnd]
    exact List.map_map
  rw [s.materialize_eq, hparsed, filterMap_eq_map_iff]
  simp only [materialize_partial_iff]
  constructor
  · intro h call hcall
    rw [← hsnd] at hcall
    obtain ⟨entry, hentry, rfl⟩ := List.mem_map.mp hcall
    exact h entry hentry
  · intro h entry hentry
    exact h entry.2 (List.of_mem_zip hentry).2

/-! ## answers -/

/-- the finish reason lets the response through -/
def accepted (finish : Option String) : Bool :=
  match finish.elim (.ok ()) validateFinishReason with
  | .ok _ => true
  | .error _ => false

/-- the response that both parsers make of the parts, if they make one -/
def answer (text : String) (reasoning : Option String) (calls : List ProviderToolCall) (usage : Json)
    (finish : Option String) : Option Assembled :=
  if accepted finish = true ∧ ¬ (blank text = true ∧ calls = []) then
    some
      { outputText := text
        assistantMessage := some ⟨"assistant", if text = "" then none else some text, reasoning, calls⟩
        reasoningContent := reasoning
        toolCalls := calls
        usage
        finishReason := finish }
  else none

section
variable {text : String} {reasoning finish : Option String} {calls : List ProviderToolCall} {usage : Json}

theorem accepted_of_ok {u : Unit} (h : finish.elim (.ok ()) validateFinishReason = .ok u) : accepted finish = true := by
  rw [accepted, h]

theorem accepted_of_error {e : Failure} (h : finish.elim (.ok ()) validateFinishReason = .error e) :
    accepted finish = false := by
  rw [accepted, h]

theorem answer_of_not_accepted (h : accepted finish = false) : answer text reasoning calls usage finish = none := by
  refine if_neg fun hboth => ?_
  rw [h] at hboth
  exact Bool.false_ne_true hboth.1

theorem answer_of_empty (h : blank text = true ∧ calls = []) : answer text reasoning calls usage finish = none :=
  if_neg fun hboth => hboth.2 h

theorem answer_of_accepted (h : accepted finish = true) (hsome : ¬ (blank text = true ∧ calls = [])) :
    answer text reasoning calls usage finish = some ⟨text, some ⟨"assistant", if text = "" then none else some text,
      reasoning, calls⟩, reasoning, calls, usage, finish⟩ :=
  if_pos ⟨h, hsome⟩

end

theorem answers_iff : c.Answers ↔ accepted c.finishReason = true ∧
    ¬ (blank (c.message.content.getD "") = true ∧ c.message.toolCalls.map ToolCall.parsed = []) := by
  have haccepted : (∀ reason, c.finishReason = some reason → validateFinishReason reason = .ok ()) ↔
      accepted c.finishReason = true := by
    unfold accepted
    cases c.finishReason with
    | none => simp
    | some reason =>
      show (∀ r, some reason = some r → _) ↔ (match validateFinishReason reason with
        | .ok _ => true
        | .error _ => false) = true
      cases hvalid : validateFinishReason reason with
      | ok u => simp [hvalid]
      | error e => simp [hvalid]
  rw [Completion.Answers, haccepted, List.map_eq_nil_iff]

theorem finishResponse_answer {config : DeepSeekStreamConfig} {request : Request} (acc : Accumulator) (done : Bool) :
    (finishResponse config request acc done).toOption.map assembled =
      answer acc.gathered.text acc.gathered.reasoning (materializeToolCalls acc.gathered.calls) acc.gathered.usage
        acc.gathered.finish := by
  have hfinish : acc.gathered.finish = acc.finishReason := rfl
  have htext : acc.gathered.text = join "" acc.chunks := rfl
  have hcalls : acc.gathered.calls = acc.toolCalls := rfl
  rw [finishResponse, hfinish, htext, hcalls]
  cases hvalid : acc.finishReason.elim (.ok ()) validateFinishReason with
  | error e =>
    rw [answer_of_not_accepted (accepted_of_error hvalid)]
    rfl
  | ok u =>
    dsimp only
    by_cases hempty : blank (join "" acc.chunks) = true ∧ materializeToolCalls acc.toolCalls = []
    · rw [if_pos hempty, answer_of_empty hempty]
      rfl
    · rw [if_neg hempty, answer_of_accepted (accepted_of_ok hvalid) hempty]
      rfl

theorem Streaming.answer_eq {codec : Codec} {config : DeepSeekStreamConfig} (s : Streaming codec config c)
    (request : Request) :
    ((Attempt.streamed s.arrivals).run codec config request).1.toOption.map assembled =
      answer (c.message.content.getD "") (given c.message.reasoning)
        (materializeToolCalls s.partials) (c.usage.getD (.obj []))
          c.finishReason := by
  obtain ⟨done, acc, hloop, hgathered⟩ := @readLoop_delivered codec request _ _ _ _ s.delivered .start
  have hreasoning : ((s.events.flatMap (·.deltas)).map fun d => d.reasoning.getD "").foldl addPiece none =
      given c.message.reasoning := by
    rw [foldl_addPiece _ (Option.some_ne_none "").symm, s.reasoning_eq]
    cases c.message.reasoning with
    | none => rfl
    | some text => exact congrArg (fun t => given (some t)) String.empty_append
  have hfinish : (((s.events.flatMap (·.deltas)).filterMap fun d => given d.finishReason).getLast?.or none) =
      c.finishReason := by
    rw [Option.or_none, s.finish_eq]
  have hall : acc.gathered =
      { text := c.message.content.getD ""
        reasoning := given c.message.reasoning
        calls := s.partials
        finish := c.finishReason
        usage := c.usage.getD (.obj []) } := by
    rw [hgathered, foldl_addEvent, foldl_addDelta, s.usage_eq]
    show Gathered.mk ("" ++ _) (List.foldl addPiece none _) _ (Option.or _ none) _ = _
    rw [s.content_eq, String.empty_append, hreasoning, hfinish]
    rfl
  have hrun : ((Attempt.streamed s.arrivals).run codec config request).1 = finishResponse config request acc done := by
    unfold Attempt.run readDeepseekStreamingResponse
    dsimp only
    rw [bind_of_ok hloop, bind_of_ok (get_apply acc)]
    cases finishResponse config request acc done with
    | error e => rfl
    | ok response => rfl
  rw [hrun, finishResponse_answer, hall]

theorem parseProviderToolCall_toJson (call : ToolCall) : parseProviderToolCall call.toJson = some call.parsed := by
  have hid : call.toJson.strAt? "id" = some call.id := by
    rw [Json.strAt?, ToolCall.toJson, get?_append, get?_append, get?_single, get?_optField, get?_single]
    rfl
  have htype : call.toJson.strAt? "type" = call.type := by
    rw [Json.strAt?, ToolCall.toJson, get?_append, get?_append, get?_single, get?_optField, get?_single]
    simp [asStr_map]
  have hfunction : call.toJson.get? "function" = some call.function := by
    rw [ToolCall.toJson, get?_append, get?_append, get?_single, get?_optField, get?_single]
    simp
  rw [parseProviderToolCall, hid, htype, hfunction]
  rfl

theorem readDeepseekResponse_body (request : Request) :
    (readDeepseekResponse request c.body).toOption.map assembled =
      answer (c.message.content.getD "") c.message.reasoning (c.message.toolCalls.map ToolCall.parsed)
        (c.usage.getD (.obj [])) c.finishReason := by
  have hchoices : c.body.get? "choices" = some (.arr [.obj [("index", .num 0), ("message", c.message.toJson),
      ("finish_reason", Json.ofText? c.finishReason)]]) := by
    rw [Completion.body, get?_append, get?_single, get?_optField]
    rfl
  have hchoice : firstChoice c.body = some (.obj [("index", .num 0), ("message", c.message.toJson),
      ("finish_reason", Json.ofText? c.finishReason)]) := by
    rw [firstChoice, hchoices]
    rfl
  have husage : c.body.get? "usage" = c.usage := by
    rw [Completion.body, get?_append, get?_single, get?_optField]
    simp
  have hcontent : c.message.toJson.strAt? "content" = c.message.content := asStr_ofText c.message.content
  have hreasoning : c.message.toJson.strAt? "reasoning_content" = c.message.reasoning :=
    asStr_ofText c.message.reasoning
  have hcalls : parseProviderToolCalls (c.message.toJson.get? "tool_calls") =
      c.message.toolCalls.map ToolCall.parsed := by
    show (c.message.toolCalls.map ToolCall.toJson).filterMap parseProviderToolCall = _
    rw [List.filterMap_map, filterMap_eq_map_iff]
    exact fun call _ => parseProviderToolCall_toJson call
  have hfinish : (firstChoice c.body).bind (·.strAt? "finish_reason") = c.finishReason := by
    rw [hchoice]
    exact asStr_ofText c.finishReason
  have hmessage : ((firstChoice c.body).bind (·.get? "message")).getD (.obj []) = c.message.toJson := by
    rw [hchoice]
    rfl
  unfold readDeepseekResponse
  dsimp only
  rw [hmessage, hcontent, hreasoning, hcalls, hfinish, husage]
  by_cases hempty : blank (c.message.content.getD "") = true ∧ c.message.toolCalls.map ToolCall.parsed = []
  · rw [if_pos hempty, answer_of_empty hempty]
    rfl
  · rw [if_neg hempty]
    cases hvalid : c.finishReason.elim (.ok ()) validateFinishReason with
    | error e =>
      rw [answer_of_not_accepted (accepted_of_error hvalid)]
      rfl
    | ok u =>
      rw [answer_of_accepted (accepted_of_ok hvalid) hempty]
      rfl

theorem given_eq_iff (o : Option String) : given o = o ↔ o ≠ some "" := by
  cases o with
  | none => simp [given]
  | some text =>
    by_cases hempty : text = ""
    · simp [given_some, hempty]
    · simp [given_some, hempty]

/-- **a message that is streamed gives the response of its body if and only if, when the body gives a response, neither
the reasoning nor the id or type of a call is an empty string** -/
theorem response_same_iff (codec : Codec) (config : DeepSeekStreamConfig) (request : Request) (c : Completion)
    (s : Streaming codec config c) :
    SameResponse ((Attempt.streamed s.arrivals).run codec config request).1 (readDeepseekResponse request c.body) ↔
      (c.Answers → c.message.reasoning ≠ some "" ∧
        ∀ call ∈ c.message.toolCalls, call.id ≠ "" ∧ call.type ≠ some "") := by
  rw [SameResponse, s.answer_eq request, readDeepseekResponse_body, answers_iff, ← s.calls_eq_iff, ← given_eq_iff]
  constructor
  · intro h hanswers
    rw [answer, answer, if_pos hanswers] at h
    split at h
    · have hsame := Option.some.inj h
      exact ⟨congrArg Assembled.reasoningContent hsame, congrArg Assembled.toolCalls hsame⟩
    · cases h
  · intro h
    by_cases hanswers : accepted c.finishReason = true ∧
        ¬ (blank (c.message.content.getD "") = true ∧ c.message.toolCalls.map ToolCall.parsed = [])
    · rw [(h hanswers).1, (h hanswers).2]
    · have hnone : ¬ (accepted c.finishReason = true ∧ ¬ (blank (c.message.content.getD "") = true ∧
          materializeToolCalls s.partials = [])) := by
        rintro ⟨haccepted, hsome⟩
        refine hanswers ⟨haccepted, fun hempty => hsome ⟨hempty.1, ?_⟩⟩
        have hnil : c.message.toolCalls = [] := List.map_eq_nil_iff.mp hempty.2
        rw [s.materialize_eq, hnil, List.zip_nil_right]
        rfl
      rw [answer, answer, if_neg hanswers, if_neg hnone]

end

/-! ## empty reasoning -/

def quietDelta : Delta := ⟨some "Done", some "", [], some "stop"⟩

def quietEvent : StreamEvent := ⟨[quietDelta], none⟩

def quietPayload : String :=
  "\x7b\"choices\":[\x7b\"index\":0,\"delta\":\x7b\"content\":\"Done\",\"reasoning_content\":\"\"," ++
    "\"tool_calls\":[]\x7d,\"finish_reason\":\"stop\"\x7d],\"usage\":null\x7d"

def quietCodec : Codec where
  parse payload := if payload = quietPayload then .ok quietEvent.toJson else .error "expected value"
  render _ := "null"

/-- an answer with reasoning that is an empty string -/
def quietCompletion : Completion where
  message := ⟨some "Done", some "", []⟩
  finishReason := some "stop"
  usage := none
  finish_ne := by decide
  usage_ne := nofun

theorem done_ne : "data: " ++ "[DONE]" ++ "\n" ≠ "" := by decide

def quietStreaming : Streaming quietCodec streamLimits quietCompletion where
  events := [quietEvent]
  indices := []
  content_eq := by decide
  reasoning_eq := by decide
  sorted := List.Pairwise.nil
  length_eq := rfl
  spelled := fun entry h => absurd h List.not_mem_nil
  indexed := fun f h => absurd h List.not_mem_nil
  finish_eq := by decide
  usage_eq := rfl
  arrivals := ⟨[dataLine quietPayload (by decide), dataLine "[DONE]" done_ne], 2⟩
  delivered := by
    have hparse : quietCodec.parse quietPayload = .ok quietEvent.toJson := by simp [quietCodec]
    have hfirst : (dataLine quietPayload (by decide)).payload = some quietPayload := by decide +kernel
    have hlast : (dataLine "[DONE]" (by decide)).payload = some "[DONE]" := by decide +kernel
    refine .event ?_ hfirst (by decide) hparse (.done [] ?_ hlast)
    · exact fun h => absurd h.2 (by decide)
    · exact fun h => absurd h.2 (by decide)

/-- the stream gives no reasoning, and the body gives empty reasoning -/
theorem empty_reasoning_differs :
    ¬ SameResponse ((Attempt.streamed quietStreaming.arrivals).run quietCodec streamLimits taskRequest).1
      (readDeepseekResponse taskRequest quietCompletion.body) := by
  rw [SameResponse, quietStreaming.answer_eq taskRequest, readDeepseekResponse_body]
  have haccepted : accepted quietCompletion.finishReason = true := by decide
  have htext : ∀ calls : List ProviderToolCall,
      ¬ (blank (quietCompletion.message.content.getD "") = true ∧ calls = []) :=
    fun _ h => absurd h.1 (by decide)
  rw [answer_of_accepted haccepted (htext _), answer_of_accepted haccepted (htext _)]
  intro h
  have hreasoning : given (some "") = some "" := congrArg Assembled.reasoningContent (Option.some.inj h)
  exact absurd hreasoning (by decide)

end Stream

import Mathlib.Tactic.Tauto
import SuperNova.Stream.Reader

/-!
# Streams that were cut

A stream is cut when neither the `[DONE]` line nor a finish reason arrived before the connection
closed.  The reader looks at neither when it decides: `cut_stream_errs_iff` says that it fails on a
cut stream exactly when a read, a payload or the wall time fails, or when nothing but white space
arrived.  Everything else is returned as a response (`cut_stream_returned`).
-/

set_option linter.unusedSectionVars false

namespace Stream

open Io Text

variable {codec : Codec} {request : Request} {config : DeepSeekStreamConfig}

/-! ## blank texts -/

theorem blank_append (s t : String) : blank (s ++ t) = (blank s && blank t) := by
  rw [blank, String.toList_append, List.all_append]
  rfl

theorem blank_empty : blank "" = true := by decide

theorem blank_join (l : List String) : blank (join "" l) ↔ ∀ s ∈ l, blank s := by
  induction l with
  | nil => simp [join, blank_empty]
  | cons s l ih =>
    cases l with
    | nil => simp [join]
    | cons t l =>
      rw [join_cons_cons, blank_append, blank_append, blank_empty, Bool.and_true,
        Bool.and_eq_true, ih]
      simp only [List.mem_cons, forall_eq_or_imp]

/-! ## fragments that add nothing -/

/-- a fragment without an id and with blank text -/
def isQuietItem (item : Json) : Bool :=
  ((item.strAt? "id").all (· == "")) &&
    ((item.get? "function").all fun function =>
      ((function.strAt? "name").all blank) && ((function.strAt? "arguments").all blank))

/-- a delta whose text is blank and whose fragments are quiet -/
def isQuietDelta (codec : Codec) (delta : Json) : Bool :=
  ((extractResponseText codec (delta.get? "content")).all blank) &&
    (((delta.get? "tool_calls").bind Json.asArr?).getD []).all isQuietItem

/-- an event whose deltas are all quiet -/
def isQuietEvent (codec : Codec) (event : Json) : Bool :=
  (choicesOf event).all fun choice => (choice.get? "delta").all (isQuietDelta codec)

theorem blank_append_getD (s : String) (o : Option String) :
    blank (s ++ o.getD "") = (blank s && o.all blank) := by
  cases o with
  | none => simp
  | some t => rw [Option.getD_some, blank_append, Option.all_some]

theorem addId_isEmpty (call : PartialToolCall) (item : Json) :
    (call.addId item).isEmpty = (call.isEmpty && (item.strAt? "id").all (· == "")) := by
  unfold PartialToolCall.addId
  cases item.strAt? "id" with
  | none => simp
  | some id =>
    by_cases h : id = ""
    · simp [h]
    · simp [h, PartialToolCall.isEmpty]

theorem addType_isEmpty (call : PartialToolCall) (item : Json) :
    (call.addType item).isEmpty = call.isEmpty := by
  unfold PartialToolCall.addType
  cases item.strAt? "type" with
  | none => rfl
  | some type =>
    by_cases h : type = ""
    · simp [h]
    · simp [h, PartialToolCall.isEmpty]

theorem addFunction_isEmpty (call : PartialToolCall) (item : Json) :
    (call.addFunction item).isEmpty = (call.isEmpty && (item.get? "function").all fun function =>
      ((function.strAt? "name").all blank) && ((function.strAt? "arguments").all blank)) := by
  unfold PartialToolCall.addFunction
  cases item.get? "function" with
  | none => simp
  | some function =>
    simp only [PartialToolCall.isEmpty, blank_append_getD, Option.all_some]
    ac_rfl

theorem add_isEmpty (call : PartialToolCall) (item : Json) :
    (call.add item).isEmpty = (call.isEmpty && isQuietItem item) := by
  rw [PartialToolCall.add, addFunction_isEmpty, addType_isEmpty, addId_isEmpty, Bool.and_assoc]
  rfl

theorem all_modify {α : Type} {p : α → Bool} {f : α → α} {b : Bool} (hf : ∀ a, p (f a) = (p a && b))
    (l : List α) : ∀ i, i < l.length → (l.modify i f).all p = (l.all p && b) := by
  induction l with
  | nil => exact fun i h => absurd h (Nat.not_lt_zero i)
  | cons a l ih =>
    intro i h
    cases i with
    | zero =>
      rw [List.modify_zero_cons, List.all_cons, List.all_cons, hf]
      ac_rfl
    | succ i =>
      rw [List.modify_succ_cons, List.all_cons, List.all_cons, ih i (Nat.lt_of_succ_lt_succ h),
        Bool.and_assoc]

theorem accumulateItems_isEmpty (items : List Json) : ∀ (fallback : Nat)
    (calls : List PartialToolCall),
    (accumulateItems fallback items calls).all PartialToolCall.isEmpty =
      (calls.all PartialToolCall.isEmpty && items.all isQuietItem) := by
  induction items with
  | nil => simp [accumulateItems]
  | cons item rest ih =>
    intro fallback calls
    have hlen : fragmentIndex fallback item < (calls ++ List.replicate
        (fragmentIndex fallback item + 1 - calls.length) PartialToolCall.default).length := by
      rw [List.length_append, List.length_replicate]
      omega
    have hpad : ∀ n, (List.replicate n PartialToolCall.default).all PartialToolCall.isEmpty := by
      intro n
      rw [List.all_eq_true]
      intro c hc
      rw [List.eq_of_mem_replicate hc]
      decide
    rw [accumulateItems, ih, all_modify (fun call => add_isEmpty call item) _ _ hlen, List.all_append, hpad,
      Bool.and_true, List.all_cons, Bool.and_assoc]

theorem accumulateToolCallDeltas_isEmpty (value : Option Json) (calls : List PartialToolCall) :
    (accumulateToolCallDeltas value calls).all PartialToolCall.isEmpty =
      (calls.all PartialToolCall.isEmpty &&
        ((value.bind Json.asArr?).getD []).all isQuietItem) := by
  unfold accumulateToolCallDeltas
  cases value.bind Json.asArr? with
  | none => simp
  | some items => exact accumulateItems_isEmpty items 0 calls

theorem materializeFrom_nil_iff (calls : List PartialToolCall) : ∀ index,
    materializeFrom index calls = [] ↔ calls.all PartialToolCall.isEmpty := by
  induction calls with
  | nil => simp [materializeFrom]
  | cons call rest ih =>
    intro index
    rw [materializeFrom, List.all_cons]
    cases call.isEmpty with
    | true => simpa using ih (index + 1)
    | false => simp

/-! ## what was added up -/

/-- nothing but white space was added up -/
def Accumulator.isSilent (acc : Accumulator) : Bool :=
  acc.chunks.all blank && acc.toolCalls.all PartialToolCall.isEmpty

theorem addContent_isSilent (arrived : Nat) (acc : Accumulator) (content : String) :
    (acc.addContent request arrived content).isSilent = (acc.isSilent && blank content) := by
  unfold Accumulator.addContent
  split
  · rename_i h
    rw [h, blank_empty, Bool.and_true]
  · simp only [Accumulator.isSilent, List.all_append, List.all_cons, List.all_nil, Bool.and_true]
    ac_rfl

theorem addReasoning_isSilent (arrived : Nat) (acc : Accumulator) (content : String) :
    (acc.addReasoning request arrived content).isSilent = acc.isSilent := by
  unfold Accumulator.addReasoning
  split <;> rfl

theorem addToolCalls_isSilent (acc : Accumulator) (value : Option Json) :
    { acc with toolCalls := accumulateToolCallDeltas value acc.toolCalls }.isSilent =
      (acc.isSilent && ((value.bind Json.asArr?).getD []).all isQuietItem) := by
  simp only [Accumulator.isSilent, accumulateToolCallDeltas_isEmpty, Bool.and_assoc]

theorem addDelta_isSilent (arrived : Nat) (acc : Accumulator) (delta : Json) :
    (acc.addDelta codec request arrived delta).isSilent =
      (acc.isSilent && isQuietDelta codec delta) := by
  unfold Accumulator.addDelta isQuietDelta
  cases extractResponseText codec (delta.get? "content") with
  | none =>
    cases extractResponseText codec (delta.get? "reasoning_content") with
    | none => simp only [addToolCalls_isSilent, Option.all_none, Bool.true_and]
    | some c =>
      simp only [addToolCalls_isSilent, addReasoning_isSilent, Option.all_none, Bool.true_and]
  | some c =>
    cases extractResponseText codec (delta.get? "reasoning_content") with
    | none => simp only [addToolCalls_isSilent, addContent_isSilent, Option.all_some, Bool.and_assoc]
    | some c' =>
      simp only [addToolCalls_isSilent, addReasoning_isSilent, addContent_isSilent,
        Option.all_some, Bool.and_assoc]

theorem addChoice_isSilent (arrived : Nat) (acc : Accumulator) (choice : Json) :
    (acc.addChoice codec request arrived choice).isSilent =
      (acc.isSilent && (choice.get? "delta").all (isQuietDelta codec)) := by
  unfold Accumulator.addChoice
  cases choice.get? "delta" with
  | none => simp [Accumulator.isSilent]
  | some delta =>
    rw [Option.all_some]
    exact addDelta_isSilent arrived _ delta

theorem addEvent_isSilent (arrived : Nat) (acc : Accumulator) (event : Json) :
    (acc.addEvent codec request arrived event).isSilent =
      (acc.isSilent && isQuietEvent codec event) := by
  have hfold : ∀ (choices : List Json) (acc : Accumulator),
      (choices.foldl (·.addChoice codec request arrived) acc).isSilent =
        (acc.isSilent && choices.all fun choice => (choice.get? "delta").all
          (isQuietDelta codec)) := by
    intro choices
    induction choices with
    | nil => simp
    | cons choice rest ih =>
      intro acc
      rw [List.foldl_cons, ih, addChoice_isSilent, List.all_cons, Bool.and_assoc]
  exact hfold _ _

/-! ## finish reasons -/

/-- no choice of the event names a finish reason -/
def isOpenEvent (event : Json) : Bool :=
  (choicesOf event).all fun choice => (finishReasonOf choice).isNone

theorem addDelta_finishReason (arrived : Nat) (acc : Accumulator) (delta : Json) :
    (acc.addDelta codec request arrived delta).finishReason = acc.finishReason := by
  have hc : ∀ (a : Accumulator) c, (a.addContent request arrived c).finishReason = a.finishReason := by
    intro a c
    unfold Accumulator.addContent
    split <;> rfl
  have hr : ∀ (a : Accumulator) c,
      (a.addReasoning request arrived c).finishReason = a.finishReason := by
    intro a c
    unfold Accumulator.addReasoning
    split <;> rfl
  unfold Accumulator.addDelta
  cases extractResponseText codec (delta.get? "content") with
  | none =>
    cases extractResponseText codec (delta.get? "reasoning_content") with
    | none => rfl
    | some c => exact hr acc c
  | some c =>
    cases extractResponseText codec (delta.get? "reasoning_content") with
    | none => exact hc acc c
    | some c' => exact (hr _ c').trans (hc acc c)

theorem addEvent_finishReason {event : Json} (h : isOpenEvent event) (arrived : Nat)
    (acc : Accumulator) :
    (acc.addEvent codec request arrived event).finishReason = acc.finishReason := by
  have hfold : ∀ (choices : List Json) (acc : Accumulator),
      (choices.all fun choice => (finishReasonOf choice).isNone) →
        (choices.foldl (·.addChoice codec request arrived) acc).finishReason = acc.finishReason := by
    intro choices
    induction choices with
    | nil => exact fun _ _ => rfl
    | cons choice rest ih =>
      intro acc hall
      rw [List.all_cons, Bool.and_eq_true, Option.isNone_iff_eq_none] at hall
      rw [List.foldl_cons, ih _ hall.2]
      unfold Accumulator.addChoice
      rw [hall.1, Option.none_or]
      cases choice.get? "delta" with
      | none => rfl
      | some delta => exact addDelta_finishReason arrived acc delta
  exact hfold _ _ h

/-! ## the loop on a cut stream -/

/-- the wall time is over at a check -/
def DeepSeekStreamConfig.Exceeded (config : DeepSeekStreamConfig) (elapsed : Nat) : Prop :=
  config.maxWallTimeMs > 0 ∧ elapsed > config.maxWallTimeMs

def LineRead.payload (read : LineRead) : Option String :=
  match read.line with
  | .ok line => payloadOf line
  | .error _ => none

def LineRead.event (codec : Codec) (read : LineRead) : Option Json :=
  read.payload.bind fun payload => (codec.parse payload).toOption

/-- a read that ends the loop with a failure: the wall time, the connection, a payload that is not
JSON, or an error of the provider -/
def LineRead.Fails (codec : Codec) (config : DeepSeekStreamConfig) (read : LineRead) : Prop :=
  config.Exceeded read.elapsed ∨ (∃ e, read.line = .error e) ∨
    (∃ payload e, read.payload = some payload ∧ codec.parse payload = .error e) ∨
    ∃ event e, read.event codec = some event ∧ event.get? "error" = some e

/-- neither the `[DONE]` line nor a finish reason -/
def LineRead.IsOpen (codec : Codec) (read : LineRead) : Prop :=
  read.payload ≠ some "[DONE]" ∧ ∀ event, read.event codec = some event → isOpenEvent event

/-- nothing but white space -/
def LineRead.IsQuiet (codec : Codec) (read : LineRead) : Prop :=
  ∀ event, read.event codec = some event → isQuietEvent codec event

theorem checkWallTime_exceeded {elapsed : Nat} {acc : Accumulator} (h : config.Exceeded elapsed) :
    ∃ e, Err (checkWallTime config elapsed) acc e acc := by
  obtain ⟨h1, h2⟩ := h
  exact ⟨_, bind_err.mpr (Or.inr ⟨acc, acc, rfl, by rw [if_pos ⟨h1, h2⟩]; rfl⟩)⟩

theorem checkWallTime_ok {elapsed : Nat} {acc : Accumulator} (h : ¬ config.Exceeded elapsed) :
    Ok (checkWallTime config elapsed) acc () acc := by
  have h' : ¬ (config.maxWallTimeMs > 0 ∧ elapsed > config.maxWallTimeMs) := h
  exact bind_ok.mpr ⟨acc, acc, rfl, by rw [if_neg h']; rfl⟩

theorem readPayload_invalid {arrived : Nat} {payload e : String} (acc : Accumulator)
    (h : codec.parse payload = .error e) :
    ∃ e' acc', Err (readPayload codec request arrived payload) acc e' acc' := by
  unfold readPayload
  rw [h]
  exact ⟨_, _, bind_err.mpr (Or.inr ⟨(), _, rfl, rfl⟩)⟩

theorem readPayload_event {arrived : Nat} {payload : String} {event : Json} (acc : Accumulator)
    (h : codec.parse payload = .ok event) (hopen : isOpenEvent event) :
    (∃ v e acc', event.get? "error" = some v ∧
        Err (readPayload codec request arrived payload) acc e acc') ∨
      (event.get? "error" = none ∧
        ∃ acc', Ok (readPayload codec request arrived payload) acc () acc' ∧
          acc'.finishReason = acc.finishReason ∧
          acc'.isSilent = (acc.isSilent && isQuietEvent codec event)) := by
  unfold readPayload
  rw [h]
  cases he : event.get? "error" with
  | some v => exact Or.inl ⟨v, _, _, rfl, bind_err.mpr (Or.inr ⟨(), _, rfl, by simp only [he]; rfl⟩)⟩
  | none =>
    refine Or.inr ⟨rfl, _, bind_ok.mpr ⟨(), _, rfl, by simp only [he]; rfl⟩, ?_, ?_⟩
    · exact addEvent_finishReason hopen arrived _
    · exact addEvent_isSilent arrived _ event

section
variable {closedAt : Nat} {read : LineRead} {rest : List LineRead} {acc : Accumulator}

theorem readLoop_of_error {e : ReadError} (hwall : ¬ config.Exceeded read.elapsed)
    (h : read.line = .error e) : readLoop codec config request closedAt (read :: rest) acc =
      .error (readFailure acc e) acc := by
  rw [readLoop, bind_of_ok (checkWallTime_ok hwall), bind_of_ok (get_apply acc), h]
  rfl

theorem readLoop_of_none {line : String} (hwall : ¬ config.Exceeded read.elapsed)
    (h : read.line = .ok line) (hp : payloadOf line = none) :
    readLoop codec config request closedAt (read :: rest) acc =
      readLoop codec config request closedAt rest acc := by
  rw [readLoop, bind_of_ok (checkWallTime_ok hwall), bind_of_ok (get_apply acc), h]
  simp only [hp]

theorem readLoop_of_payload {line payload : String} (hwall : ¬ config.Exceeded read.elapsed)
    (h : read.line = .ok line) (hp : payloadOf line = some payload) (hd : payload ≠ "[DONE]") :
    readLoop codec config request closedAt (read :: rest) acc = (do
      readPayload codec request read.arrived payload
      readLoop codec config request closedAt rest : StreamM Bool) acc := by
  rw [readLoop, bind_of_ok (checkWallTime_ok hwall), bind_of_ok (get_apply acc), h]
  simp only [hp, if_neg hd]

end

theorem readLoop_cons {closedAt : Nat} {read : LineRead} (rest : List LineRead)
    (acc : Accumulator) (hopen : read.IsOpen codec) :
    (read.Fails codec config ∧
        ∃ e acc', Err (readLoop codec config request closedAt (read :: rest)) acc e acc') ∨
      (¬ read.Fails codec config ∧ ∃ acc',
        readLoop codec config request closedAt (read :: rest) acc =
          readLoop codec config request closedAt rest acc' ∧
        acc'.finishReason = acc.finishReason ∧
        (acc'.isSilent ↔ acc.isSilent ∧ read.IsQuiet codec)) := by
  by_cases hwall : config.Exceeded read.elapsed
  · obtain ⟨e, he⟩ := @checkWallTime_exceeded config _ acc hwall
    exact Or.inl ⟨Or.inl hwall, e, acc, bind_err.mpr (Or.inl he)⟩
  cases hline : read.line with
  | error e => exact Or.inl ⟨Or.inr (Or.inl ⟨e, hline⟩), _, _, readLoop_of_error hwall hline⟩
  | ok line =>
    have hpay : read.payload = payloadOf line := by rw [LineRead.payload, hline]
    cases hp : payloadOf line with
    | none =>
      rw [hp] at hpay
      have hevent : read.event codec = none := by rw [LineRead.event, hpay]; rfl
      refine Or.inr ⟨?_, acc, readLoop_of_none hwall hline hp, rfl, ?_⟩
      · rintro (h | ⟨e, h⟩ | ⟨p, e, h, -⟩ | ⟨v, e, h, -⟩)
        · exact hwall h
        · rw [hline] at h
          cases h
        · rw [hpay] at h
          cases h
        · rw [hevent] at h
          cases h
      · refine (and_iff_left ?_).symm
        intro event h
        rw [hevent] at h
        cases h
    | some payload =>
      rw [hp] at hpay
      have hdone : payload ≠ "[DONE]" := by
        rintro rfl
        exact hopen.1 hpay
      have hgo := @readLoop_of_payload codec request config closedAt read rest acc line payload
        hwall hline hp hdone
      cases hparse : codec.parse payload with
      | error e =>
        obtain ⟨e', acc', he⟩ := @readPayload_invalid codec request read.arrived payload e acc hparse
        exact Or.inl ⟨Or.inr (Or.inr (Or.inl ⟨payload, e, hpay, hparse⟩)), e', acc',
          hgo.trans (bind_err.mpr (Or.inl he))⟩
      | ok event =>
        have hevent : read.event codec = some event := by
          rw [LineRead.event, hpay, Option.bind_some, hparse]
          rfl
        rcases @readPayload_event codec request read.arrived payload event acc hparse
          (hopen.2 event hevent) with
          ⟨v, e, acc', he, h⟩ | ⟨he, acc', h, hreason, hsilent⟩
        · exact Or.inl ⟨Or.inr (Or.inr (Or.inr ⟨event, v, hevent, he⟩)), e, acc',
            hgo.trans (bind_err.mpr (Or.inl h))⟩
        · refine Or.inr ⟨?_, acc', hgo.trans (bind_of_ok h), hreason, ?_⟩
          · rintro (h | ⟨e, h⟩ | ⟨p, e, h, h'⟩ | ⟨v, e, h, h'⟩)
            · exact hwall h
            · rw [hline] at h
              cases h
            · rw [hpay] at h
              cases h
              rw [hparse] at h'
              cases h'
            · rw [hevent] at h
              cases h
              rw [he] at h'
              cases h'
          · rw [hsilent, Bool.and_eq_true]
            refine and_congr_right fun _ => ⟨fun hq v hv => ?_, fun hq => hq event hevent⟩
            rw [hevent] at hv
            cases hv
            exact hq

/-- **the loop on a cut stream**: it fails when something fails, and else stops without a finish
reason, with nothing but white space exactly when nothing else arrived -/
theorem readLoop_cut {closedAt : Nat} (reads : List LineRead) : ∀ acc : Accumulator,
    (∀ read ∈ reads, read.IsOpen codec) →
      ((config.Exceeded closedAt ∨ ∃ read ∈ reads, read.Fails codec config) ∧
          ∃ e acc', Err (readLoop codec config request closedAt reads) acc e acc') ∨
        (¬ (config.Exceeded closedAt ∨ ∃ read ∈ reads, read.Fails codec config) ∧
          ∃ acc', Ok (readLoop codec config request closedAt reads) acc false acc' ∧
            acc'.finishReason = acc.finishReason ∧
            (acc'.isSilent ↔ acc.isSilent ∧ ∀ read ∈ reads, read.IsQuiet codec)) := by
  induction reads with
  | nil =>
    intro acc _
    by_cases h : config.Exceeded closedAt
    · obtain ⟨e, he⟩ := @checkWallTime_exceeded config closedAt acc h
      exact Or.inl ⟨Or.inl h, e, acc, bind_err.mpr (Or.inl he)⟩
    · refine Or.inr ⟨by simp [h], acc, ?_, rfl, by simp⟩
      exact bind_ok.mpr ⟨(), acc, checkWallTime_ok h, rfl⟩
  | cons read rest ih =>
    intro acc hopen
    rcases @readLoop_cons codec request config closedAt read rest acc
      (hopen read List.mem_cons_self) with ⟨hf, herr⟩ | ⟨hf, acc1, hgo, hreason, hsilent⟩
    · exact Or.inl ⟨Or.inr ⟨read, List.mem_cons_self, hf⟩, herr⟩
    · have hiff : (config.Exceeded closedAt ∨ ∃ r ∈ read :: rest, r.Fails codec config) ↔
          (config.Exceeded closedAt ∨ ∃ r ∈ rest, r.Fails codec config) := by
        simp [hf]
      rw [hiff]
      unfold Err Ok
      rw [hgo]
      rcases ih acc1 (fun r hr => hopen r (List.mem_cons_of_mem _ hr)) with h | ⟨hno, acc', hok,
        hreason', hsilent'⟩
      · exact Or.inl h
      · refine Or.inr ⟨hno, acc', hok, hreason'.trans hreason, ?_⟩
        rw [hsilent', hsilent, and_assoc, List.forall_mem_cons]

/-! ## the decision at the end -/

theorem isSilent_iff (acc : Accumulator) : acc.isSilent ↔
    blank (join "" acc.chunks) ∧ materializeToolCalls acc.toolCalls = [] := by
  rw [Accumulator.isSilent, Bool.and_eq_true, blank_join, List.all_eq_true,
    materializeToolCalls, materializeFrom_nil_iff]

theorem finishResponse_open {acc : Accumulator} {done : Bool} (h : acc.finishReason = none) :
    (∃ e, finishResponse config request acc done = .error e) ↔ acc.isSilent := by
  rw [isSilent_iff, finishResponse, h]
  simp only [Option.elim_none]
  split
  · rename_i hs
    exact iff_of_true ⟨_, rfl⟩ hs
  · rename_i hs
    refine iff_of_false ?_ hs
    rintro ⟨e, he⟩
    cases he

/-- **a cut stream is an error exactly when something failed or nothing but white space arrived** -/
theorem cut_stream_errs_iff (codec : Codec) (request : Request) (config : DeepSeekStreamConfig)
    (arrivals : Arrivals) (hopen : ∀ read ∈ arrivals.reads, read.IsOpen codec) :
    (∃ e acc, Err (readDeepseekStreamingResponse codec arrivals request config) .start e acc) ↔
      (config.Exceeded arrivals.closedAt ∨ ∃ read ∈ arrivals.reads, read.Fails codec config) ∨
        ∀ read ∈ arrivals.reads, read.IsQuiet codec := by
  rcases @readLoop_cut codec request config arrivals.closedAt arrivals.reads .start hopen with
    ⟨hfail, e, acc, he⟩ | ⟨hno, acc, hok, hreason, hsilent⟩
  · exact iff_of_true ⟨e, acc, bind_err.mpr (Or.inl he)⟩ (Or.inl hfail)
  · have hquiet : acc.isSilent ↔ ∀ read ∈ arrivals.reads, read.IsQuiet codec := by
      rw [hsilent, and_iff_right (show Accumulator.start.isSilent = true from rfl)]
    rw [or_iff_right hno, ← hquiet, ← @finishResponse_open request config acc false hreason]
    unfold readDeepseekStreamingResponse Err
    rw [bind_of_ok hok, bind_of_ok (get_apply acc)]
    cases hfin : finishResponse config request acc false with
    | error e => exact iff_of_true ⟨e, acc, rfl⟩ ⟨e, rfl⟩
    | ok response =>
      refine iff_of_false ?_ ?_
      · rintro ⟨e, acc', h⟩
        cases h
      · rintro ⟨e, h⟩
        cases h

/-! ## a stream cut after one chunk -/

/-- a chunk with the text `Hel` -/
def chunkPayload : String :=
  "\x7b\"choices\":[\x7b\"delta\":\x7b\"content\":\"Hel\"\x7d\x7d]\x7d"

def sampleCodec : Codec where
  parse payload := if payload = chunkPayload then
      .ok (.obj [("choices", .arr [.obj [("delta", .obj [("content", .str "Hel")])]])])
    else .error "expected value"
  render _ := "null"

def sampleRequest : Request := ⟨"model_call", "chat_turn", false⟩

def sampleConfig : DeepSeekStreamConfig := ⟨1000, 1000, 10000⟩

/-- the chunk, and then the end of the connection -/
def cutArrivals : Arrivals :=
  ⟨[⟨0, 1, .ok ("data: " ++ chunkPayload ++ "\n"),
    fun h => absurd (Except.ok.inj h) (by decide)⟩], 2⟩

theorem cutArrivals_open : ∀ read ∈ cutArrivals.reads, read.IsOpen sampleCodec := by
  intro read hread
  rw [cutArrivals, List.mem_singleton] at hread
  subst hread
  refine ⟨by decide, fun event he => ?_⟩
  cases he
  decide

theorem cut_stream_errs_iff_chunk :
    (∃ e acc, Err (readDeepseekStreamingResponse sampleCodec cutArrivals sampleRequest
        sampleConfig) .start e acc) ↔
      (sampleConfig.Exceeded 2 ∨ ∃ read ∈ cutArrivals.reads, read.Fails sampleCodec sampleConfig) ∨
        ∀ read ∈ cutArrivals.reads, read.IsQuiet sampleCodec :=
  cut_stream_errs_iff sampleCodec sampleRequest sampleConfig cutArrivals cutArrivals_open

/-- a cut stream whose text so far is returned as a response -/
theorem cut_stream_returned :
    (∀ read ∈ cutArrivals.reads, read.IsOpen sampleCodec) ∧
      ∃ response acc, Ok (readDeepseekStreamingResponse sampleCodec cutArrivals sampleRequest
        sampleConfig) .start response acc ∧ response.outputText = "Hel" :=
  ⟨cutArrivals_open, _, _, rfl, by decide⟩

end Stream

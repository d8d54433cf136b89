import SuperNova.Provider.Transcript

/-!
# A batch of tool calls being answered

What every loop over the calls of one response relies on.  The requests and answers may be read off
the transcript in more than one way, so the rules are for any reading `R` that follows the recorders
(`Tracks R`).

* `InBatch R base ids n t`: the response is recorded and its first `n` calls are answered;
* `Stuck R base ids t`: some id of the response was answered before and cannot be answered again;
* `InBatch.record`, `InBatch.recordAll`: one result and all the results that are left.
-/

set_option linter.unusedSectionVars false

namespace Provider

open Answers Io

/-- the results for several calls, in order; the first that is refused ends the loop -/
def recordProviderToolResults (codec : Codec) (results : List (String × Json)) :
    TranscriptM Unit :=
  results.forM fun result => recordProviderToolResult codec result.1 result.2

/-- a reading of the transcript that follows the recorders -/
def Tracks (R : Transcript → List (Mark String) → Prop) : Prop :=
  ∀ {t t' : Transcript} {m : Mark String} {pending : List String} {log : List (Mark String)},
    R t log → Recorded t t' m pending → R t' (log ++ [m])

theorem tracks_marks : Tracks fun t log => marks t = log := fun h hr => h ▸ hr.marks

theorem recordNoCalls (codec : Codec) (r : Response) (hc : r.response.toolCalls = [])
    (t : Transcript) :
    ∃ t', Ok (recordProviderAssistantResponse codec r.response) t () t' ∧
      (t' = t ∨ Recorded t t' .other (pendingIds t)) := by
  cases ha : assistantOf r.response with
  | none => exact ⟨t, by rw [recordProviderAssistantResponse, ha]; rfl, Or.inl rfl⟩
  | some assistant =>
    obtain ⟨t', hok, hrec⟩ := recordProviderAssistantResponse_spec codec ha t
    rw [calls_of_some r ha, hc, List.map_nil, List.append_nil] at hrec
    exact ⟨t', hok, Or.inr hrec⟩

section
variable {R : Transcript → List (Mark String) → Prop} {base : List (Mark String)}
  {ids : List String} {n : Nat} {t : Transcript}

/-- a response is recorded after `base` and its first `n` calls are answered -/
def InBatch (R : Transcript → List (Mark String) → Prop) (base : List (Mark String))
    (ids : List String) (n : Nat) (t : Transcript) : Prop :=
  t.Exists ∧ ∃ log, R t log ∧ Partway base ids n log (pendingIds t)

/-- the calls of a response cannot all be answered -/
def Stuck (R : Transcript → List (Mark String) → Prop) (base : List (Mark String))
    (ids : List String) (t : Transcript) : Prop :=
  ∃ log n, R t log ∧ Partway base ids n log (pendingIds t) ∧ ¬ ids.Nodup ∧ ¬ (ids.take n).Perm ids

theorem other_quiet : Quiet [(.other : Mark String)] := fun _ h => nomatch List.mem_singleton.mp h

theorem InBatch.start (hR : Tracks R) (codec : Codec) (r : Response)
    (hc : r.response.toolCalls ≠ []) (h : R t base) :
    ∃ t', Ok (recordProviderAssistantResponse codec r.response) t () t' ∧
      InBatch R base (r.response.toolCalls.map (·.id)) 0 t' := by
  obtain ⟨assistant, ha⟩ : ∃ assistant, assistantOf r.response = some assistant :=
    Option.ne_none_iff_exists'.mp fun hn => hc (calls_of_none r hn)
  obtain ⟨t', hok, hrec⟩ := recordProviderAssistantResponse_spec codec ha t
  rw [calls_of_some r ha] at hrec
  have hlog := hR h hrec
  rw [requestMark, if_neg hc] at hlog
  refine ⟨t', hok, hrec.isThere, _, hlog, Partway.start fun id hid => ?_⟩
  rw [hrec.pending]
  exact List.mem_append_right _ hid

theorem InBatch.other (hR : Tracks R) (h : InBatch R base ids n t) {t' : Transcript}
    (hrec : Recorded t t' .other (pendingIds t)) : InBatch R base ids n t' := by
  obtain ⟨-, log, hlog, hp⟩ := h
  refine ⟨hrec.isThere, _, hR hlog hrec, ?_⟩
  rw [hrec.pending]
  exact hp.silent other_quiet rfl

theorem InBatch.record (hR : Tracks R) (codec : Codec) (h : InBatch R base ids n t) {id : String}
    (hid : ids[n]? = some id) (result : Json) :
    Ends (recordProviderToolResult codec id result) t (fun _ t' => InBatch R base ids (n + 1) t')
      (Stuck R base ids) := by
  obtain ⟨he, log, hlog, hp⟩ := h
  by_cases hpend : id ∈ pendingIds t
  · obtain ⟨t', hok, hrec⟩ := recordProviderToolResult_ok codec result he hpend
    refine Ends.of_ok hok ⟨hrec.isThere, _, hR hlog hrec, ?_⟩
    rw [hrec.pending]
    exact hp.answer hid hpend
  · exact Ends.of_err (recordProviderToolResult_err codec result he hpend)
      ⟨log, n, hlog, hp, hp.stuck hid hpend⟩

theorem next_of_rest {call : ProviderToolCall} {rest : List ProviderToolCall}
    (h : (call :: rest).map (·.id) = ids.drop n) :
    ids[n]? = some call.id ∧ rest.map (·.id) = ids.drop (n + 1) := by
  constructor
  · rw [← List.head?_drop, ← h, List.map_cons, List.head?_cons]
  · rw [← List.tail_drop, ← h, List.map_cons, List.tail_cons]

theorem InBatch.atEnd (h : InBatch R base ids n t) (hrest : [] = ids.drop n) :
    InBatch R base ids ids.length t := by
  obtain ⟨he, log, hlog, hp⟩ := h
  have hle : n = ids.length := by
    obtain ⟨tail, -, -, hprog⟩ := hp
    have hn := List.drop_eq_nil_iff.mp hrest.symm
    have := hprog.le
    omega
  exact hle ▸ ⟨he, log, hlog, hp⟩

theorem InBatch.recordAll (hR : Tracks R) (codec : Codec) (results : List (String × Json)) :
    ∀ {n : Nat} {t : Transcript}, InBatch R base ids n t → results.map (·.1) = ids.drop n →
      Ends (recordProviderToolResults codec results) t
        (fun _ t' => InBatch R base ids ids.length t') (Stuck R base ids) := by
  induction results with
  | nil =>
    intro n t h hrest
    exact Ends.pure (h.atEnd hrest)
  | cons result results ih =>
    intro n t h hrest
    rw [List.map_cons] at hrest
    have hid : ids[n]? = some result.1 := by
      rw [← List.head?_drop, ← hrest, List.head?_cons]
    refine Ends.bind (h.record hR codec hid result.2) fun _ t' h' => ih h' ?_
    rw [← List.tail_drop, ← hrest, List.tail_cons]

theorem InBatch.done {P : List String → List String → Prop} (h : InBatch R base ids ids.length t)
    (hb : Each P base) (hp : ids.Nodup → P ids ids) : ∃ log, R t log ∧ Each P log := by
  obtain ⟨-, log, hlog, hpart⟩ := h
  obtain ⟨hn, htake⟩ := hpart.done (Nat.le_refl _)
  exact ⟨log, hlog, hpart.each_iff.mpr ⟨hb, htake.symm ▸ hp hn⟩⟩

end

end Provider

import SuperNova.Lib.Settled
import SuperNova.Provider.Replace

/-!
# The live suffix of a valid transcript

A list of messages is valid when each message has its shape and their requests and answers are settled
(`valid_iff`).  The search for the live suffix stops at a suffix that answers no call from before it.

* `compaction_keeps` (**main**): the compaction of a valid transcript puts the summary in front of a
  valid suffix, with no call apart from its result, and the last turns in it.
-/

set_option linter.unusedSectionVars false

namespace Provider

open Answers Io

/-! ## what the validator accepts -/

/-- the fields of a message are those of its role -/
def Shaped (m : ProviderTranscriptMessage) : Prop :=
  (m.role = "assistant" ∧ m.toolCallId = none ∧ ∀ call ∈ m.toolCalls, Text.blank call.id = false) ∨
    (m.role = "tool" ∧ m.toolCallId.isSome ∧ m.toolCalls = []) ∨
    ((m.role = "system" ∨ m.role = "user") ∧ m.toolCallId = none ∧ m.toolCalls = [])

section
variable {scan : ProtocolScan} {o c : List String} {index k : Nat} {m : ProviderTranscriptMessage}
  {messages : List ProviderTranscriptMessage} {calls : List ProviderToolCall}

theorem error_errors (scan : ProtocolScan) (text : String) :
    (scan.error text).errors ≠ [] := by
  show scan.errors ++ [text] ≠ []
  simp

theorem scanToolCall_bad {call : ProviderToolCall} (h : scan.errors ≠ []) :
    (scanToolCall index scan call).errors ≠ [] := by
  unfold scanToolCall
  split
  · exact error_errors _ _
  · split
    · exact error_errors _ _
    · exact h

theorem scanToolCalls_bad (h : scan.errors ≠ []) :
    (calls.foldl (scanToolCall index) scan).errors ≠ [] := by
  induction calls generalizing scan with
  | nil => exact h
  | cons call calls ih => exact ih (scanToolCall_bad h)

theorem scanToolMessage_bad {id : String} (h : scan.errors ≠ []) :
    (scanToolMessage index scan m id).errors ≠ [] := by
  unfold scanToolMessage
  dsimp only
  split
  · split
    · exact h
    · exact error_errors _ _
  · exact error_errors _ _

theorem scanMessage_bad (h : scan.errors ≠ []) : (scanMessage scan (m, index)).errors ≠ [] := by
  unfold scanMessage
  dsimp only
  split
  · refine scanToolCalls_bad ?_
    split
    · exact error_errors _ _
    · exact h
  · split
    · split
      · exact error_errors _ _
      · exact scanToolMessage_bad h
    · split
      · split
        · exact error_errors _ _
        · exact h
      · exact error_errors _ _

theorem scan_bad (h : scan.errors ≠ []) :
    ((messages.zipIdx k).foldl scanMessage scan).errors ≠ [] := by
  induction messages generalizing scan k with
  | nil => exact h
  | cons m messages ih =>
    rw [List.zipIdx_cons, List.foldl_cons]
    exact ih (scanMessage_bad h)

theorem scanToolCalls_clean : (calls.foldl (scanToolCall index) ⟨o, c, []⟩).errors = [] ↔
    (∀ call ∈ calls, Text.blank call.id = false) ∧ (calls.map (·.id)).Nodup ∧
      ∀ id ∈ calls.map (·.id), id ∉ o ∧ id ∉ c := by
  induction calls generalizing o with
  | nil => simp
  | cons call calls ih =>
    rw [List.foldl_cons]
    by_cases hblank : Text.blank call.id = true
    · have hbad : (scanToolCall index ⟨o, c, []⟩ call).errors ≠ [] := by
        rw [scanToolCall, if_pos hblank]
        exact error_errors _ _
      refine iff_of_false (scanToolCalls_bad hbad) fun h => ?_
      rw [h.1 call List.mem_cons_self] at hblank
      cases hblank
    · by_cases hold : call.id ∈ o ∨ call.id ∈ c
      · have hbad : (scanToolCall index ⟨o, c, []⟩ call).errors ≠ [] := by
          rw [scanToolCall, if_neg hblank, if_pos hold]
          exact error_errors _ _
        refine iff_of_false (scanToolCalls_bad hbad) fun h => ?_
        have hnew := h.2.2 call.id (List.mem_map_of_mem List.mem_cons_self)
        exact hold.elim hnew.1 hnew.2
      · have hstep : scanToolCall index ⟨o, c, []⟩ call = ⟨o ++ [call.id], c, []⟩ := by
          rw [scanToolCall, if_neg hblank, if_neg hold]
        rw [hstep, ih, List.forall_mem_cons, List.map_cons, List.nodup_cons, List.forall_mem_cons]
        have hnot := not_or.mp hold
        have hfalse : Text.blank call.id = false := by simpa using hblank
        constructor
        · rintro ⟨hblanks, hnodup, hnew⟩
          refine ⟨⟨hfalse, hblanks⟩, ⟨fun hmem => ?_, hnodup⟩, hnot, fun id hid => ?_⟩
          · exact (hnew _ hmem).1 (List.mem_append_right _ (List.mem_singleton_self _))
          · exact ⟨fun ho => (hnew id hid).1 (List.mem_append_left _ ho), (hnew id hid).2⟩
        · rintro ⟨⟨-, hblanks⟩, ⟨hfirst, hnodup⟩, -, hnew⟩
          refine ⟨hblanks, hnodup, fun id hid => ⟨fun ho => ?_, (hnew id hid).2⟩⟩
          rcases List.mem_append.mp ho with ho | hsame
          · exact (hnew id hid).1 ho
          · rw [List.mem_singleton] at hsame
            exact hfirst (hsame ▸ hid)

theorem scanToolCalls_eq (h : (calls.foldl (scanToolCall index) ⟨o, c, []⟩).errors = []) :
    calls.foldl (scanToolCall index) ⟨o, c, []⟩ = ⟨o ++ calls.map (·.id), c, []⟩ := by
  induction calls generalizing o with
  | nil => simp
  | cons call calls ih =>
    have hstep : scanToolCall index ⟨o, c, []⟩ call = ⟨o ++ [call.id], c, []⟩ := by
      have hclean := scanToolCalls_clean.mp h
      have hblank : ¬ Text.blank call.id = true := by simp [hclean.1 call List.mem_cons_self]
      have hnew := hclean.2.2 call.id (List.mem_map_of_mem List.mem_cons_self)
      rw [scanToolCall, if_neg hblank, if_neg (not_or.mpr hnew)]
    rw [List.foldl_cons, hstep] at h ⊢
    rw [ih h, List.map_cons, List.append_assoc]
    rfl

theorem Shaped.assistant (hrole : m.role = "assistant") :
    Shaped m ↔ m.toolCallId = none ∧ ∀ call ∈ m.toolCalls, Text.blank call.id = false := by
  simp [Shaped, hrole]

theorem Shaped.tool (hrole : m.role = "tool") :
    Shaped m ↔ m.toolCallId.isSome ∧ m.toolCalls = [] := by
  simp [Shaped, hrole]

theorem Shaped.other (hassistant : m.role ≠ "assistant") (htool : m.role ≠ "tool") : Shaped m ↔
    (m.role = "system" ∨ m.role = "user") ∧ m.toolCallId = none ∧ m.toolCalls = [] := by
  simp [Shaped, hassistant, htool]

theorem settles_assistant {log : List (Mark String)} (hrole : m.role = "assistant") :
    Settles o c (markOf m :: log) ↔ ((m.toolCalls.map (·.id)).Nodup ∧
      ∀ id ∈ m.toolCalls.map (·.id), id ∉ o ∧ id ∉ c) ∧
        Settles (o ++ m.toolCalls.map (·.id)) c log := by
  rw [markOf, if_pos hrole]
  by_cases hcalls : m.toolCalls = []
  · rw [if_pos hcalls, hcalls]
    simp [Settles]
  · rw [if_neg hcalls]
    exact and_assoc.symm

theorem scanMessage_cases (o c : List String) (m : ProviderTranscriptMessage) (index : Nat) :
    ((scanMessage ⟨o, c, []⟩ (m, index)).errors ≠ [] ∧
      ∀ log, ¬ (Shaped m ∧ Settles o c (markOf m :: log))) ∨
    ∃ o' c', scanMessage ⟨o, c, []⟩ (m, index) = ⟨o', c', []⟩ ∧ Shaped m ∧
      ∀ log, Settles o c (markOf m :: log) ↔ Settles o' c' log := by
  by_cases hassistant : m.role = "assistant"
  · rw [scanMessage, if_pos hassistant, Shaped.assistant hassistant]
    cases hid : m.toolCallId with
    | some id =>
      rw [Option.isSome_some, if_pos rfl]
      refine .inl ⟨scanToolCalls_bad (error_errors _ _), fun log h => ?_⟩
      cases h.1.1
    | none =>
      rw [Option.isSome_none, if_neg Bool.false_ne_true]
      by_cases hclean : (m.toolCalls.foldl (scanToolCall index) ⟨o, c, []⟩).errors = []
      · obtain ⟨hblank, hnew⟩ := scanToolCalls_clean.mp hclean
        refine .inr ⟨_, c, scanToolCalls_eq hclean, ⟨rfl, hblank⟩, fun log => ?_⟩
        rw [settles_assistant hassistant, and_iff_right hnew]
      · refine .inl ⟨hclean, fun log h => hclean (scanToolCalls_clean.mpr ⟨h.1.2, ?_⟩)⟩
        exact ((settles_assistant hassistant).mp h.2).1
  · by_cases htool : m.role = "tool"
    · rw [scanMessage, if_neg hassistant, if_pos htool, Shaped.tool htool, markOf, if_neg hassistant]
      cases hid : m.toolCallId with
      | none =>
        refine .inl ⟨error_errors _ _, fun log h => ?_⟩
        cases h.1.1
      | some id =>
        dsimp only
        rw [if_pos htool, scanToolMessage]
        by_cases hopen : id ∈ o
        · by_cases hcalls : m.toolCalls = []
          · refine .inr ⟨o.filter (· ≠ id), c ++ [id], ?_, ⟨rfl, hcalls⟩, fun log => ?_⟩
            · rw [if_pos hopen, if_pos hcalls]
            · exact and_iff_right hopen
          · refine .inl ⟨?_, fun log h => hcalls h.1.2⟩
            rw [if_neg hcalls]
            exact error_errors _ _
        · refine .inl ⟨?_, fun log h => hopen h.2.1⟩
          rw [if_neg hopen]
          split
          · exact error_errors _ _
          · exact error_errors _ _
    · rw [scanMessage, if_neg hassistant, if_neg htool, Shaped.other hassistant htool]
      have hmark : markOf m = .other := by
        rw [markOf, if_neg hassistant]
        cases m.toolCallId with
        | none => rfl
        | some id => exact if_neg htool
      by_cases hrole : m.role = "system" ∨ m.role = "user"
      · rw [if_pos hrole]
        by_cases hfields : m.toolCallId.isSome ∨ m.toolCalls ≠ []
        · rw [if_pos hfields]
          refine .inl ⟨error_errors _ _, fun log h => ?_⟩
          rw [h.1.2.1] at hfields
          exact hfields.elim Bool.false_ne_true fun hcalls => hcalls h.1.2.2
        · rw [if_neg hfields]
          obtain ⟨hid, hcalls⟩ := not_or.mp hfields
          refine .inr ⟨o, c, rfl, ⟨hrole, ?_, not_not.mp hcalls⟩, fun log => ?_⟩
          · exact Option.not_isSome_iff_eq_none.mp hid
          · rw [hmark]
            exact Iff.rfl
      · rw [if_neg hrole]
        exact .inl ⟨error_errors _ _, fun log h => hrole h.1.1⟩

theorem scan_clean (o c : List String) (messages : List ProviderTranscriptMessage) (k : Nat) :
    (((messages.zipIdx k).foldl scanMessage ⟨o, c, []⟩).errors = [] ∧
      ((messages.zipIdx k).foldl scanMessage ⟨o, c, []⟩).pending = []) ↔
      (∀ m ∈ messages, Shaped m) ∧ Settles o c (messages.map markOf) := by
  induction messages generalizing o c k with
  | nil => simp [Settles]
  | cons m messages ih =>
    rw [List.zipIdx_cons, List.foldl_cons, List.forall_mem_cons, List.map_cons]
    rcases scanMessage_cases o c m k with ⟨hbad, hnot⟩ | ⟨o', c', hstep, hshaped, hsettles⟩
    · exact iff_of_false (fun h => scan_bad hbad h.1) fun h => hnot _ ⟨h.1.1, h.2⟩
    · rw [hstep, ih, hsettles, and_iff_right hshaped]

/-- **what is valid**: messages of the right shape, with settled requests -/
theorem valid_iff : (validateDeepseekNativeMessages messages).valid ↔
    (∀ m ∈ messages, Shaped m) ∧ Settles [] [] (messages.map markOf) := by
  rw [← scan_clean [] [] messages 0]
  show (List.isEmpty _ && List.isEmpty _) = true ↔ _
  rw [Bool.and_eq_true, List.isEmpty_iff, List.isEmpty_iff]

/-! ## the search -/

theorem suffixFirst_le (messages : List ProviderTranscriptMessage)
    (pending : List ProviderToolCallState) (n : Nat) :
    suffixFirst messages pending n ≤ messages.length - max (n * 2) 1 := by
  unfold suffixFirst
  generalize messages.length - max (n * 2) 1 = start
  induction pending generalizing start with
  | nil => exact Nat.le_refl start
  | cons call pending ih =>
    refine (ih _).trans ?_
    dsimp only
    split
    · exact Nat.min_le_left _ _
    · exact Nat.le_refl start

theorem suffixLoop_le (messages : List ProviderTranscriptMessage) (n start : Nat) :
    suffixLoop messages n start ≤ start := by
  induction n generalizing start with
  | zero => exact Nat.le_refl start
  | succ n ih =>
    have hlowers := suffixRound_lowers messages start
    unfold suffixLoop
    cases hround : suffixRound messages start with
    | mk start' changed =>
      rw [hround] at hlowers
      have hle : start' ≤ start := by
        rcases hlowers with heq | ⟨hlt, -⟩
        · cases heq
          exact Nat.le_refl start
        · exact Nat.le_of_lt hlt
      cases changed with
      | true => exact (ih start').trans hle
      | false => exact hle

theorem suffixLoop_enough (messages : List ProviderTranscriptMessage) {n n' start : Nat}
    (hn : start < n) (hn' : start < n') :
    suffixLoop messages n start = suffixLoop messages n' start := by
  induction n generalizing n' start with
  | zero => exact absurd hn (Nat.not_lt_zero start)
  | succ n ih =>
    cases n' with
    | zero => exact absurd hn' (Nat.not_lt_zero start)
    | succ n' =>
      have hlowers := suffixRound_lowers messages start
      unfold suffixLoop
      cases hround : suffixRound messages start with
      | mk start' changed =>
        rw [hround] at hlowers
        cases changed with
        | false => rfl
        | true =>
          rcases hlowers with heq | ⟨hlt, -⟩
          · cases heq
          · have hlt' : start' < start := hlt
            exact ih (by omega) (by omega)

theorem fixed_of_foldl {α : Type} {f : Nat × Bool → α → Nat × Bool}
    (hf : ∀ a st, Lowers st (f st a)) {start : Nat} {l : List α}
    (h : l.foldl f (start, false) = (start, false)) :
    ∀ a ∈ l, f (start, false) a = (start, false) := by
  induction l with
  | nil => exact fun a ha => absurd ha List.not_mem_nil
  | cons a l ih =>
    rw [List.foldl_cons] at h
    have hfirst : f (start, false) a = (start, false) := by
      rcases hf a (start, false) with heq | ⟨-, hflag⟩
      · exact heq
      · have hrest := lowers_foldl l (fun b _ st => hf b st) (f (start, false) a)
        rw [h] at hrest
        rcases hrest with heq | ⟨-, hfalse⟩
        · rw [← heq] at hflag
          cases hflag
        · cases hfalse
    rw [hfirst] at h
    exact List.forall_mem_cons.mpr ⟨hfirst, ih h⟩

theorem suffixStep_of_round {start index : Nat} (h : suffixRound messages start = (start, false))
    (hle : start ≤ index) (hlt : index < messages.length) :
    suffixStep messages (start, false) index = (start, false) := by
  refine fixed_of_foldl (fun i st => suffixStep_lowers messages st i) h index ?_
  rw [List.mem_range'_1]
  omega

theorem lastBefore_some {p : ProviderTranscriptMessage → Bool} {index i : Nat}
    (h : lastBefore p messages index = some i) :
    i < index ∧ ∃ m, messages[i]? = some m ∧ p m = true := by
  have hmem := List.mem_of_find?_eq_some h
  have hp := List.find?_some h
  rw [List.mem_reverse, List.mem_range] at hmem
  exact ⟨by omega, by simpa [Option.any_eq_true] using hp⟩

theorem lastBefore_isSome {p : ProviderTranscriptMessage → Bool} {index i : Nat} {m}
    (hlt : i < index) (hm : messages[i]? = some m) (hp : p m = true) :
    ∃ j, lastBefore p messages index = some j := by
  obtain ⟨hlength, -⟩ := List.getElem?_eq_some_iff.mp hm
  refine Option.isSome_iff_exists.mp (List.find?_isSome.mpr ⟨i, ?_, by rw [hm]; exact hp⟩)
  rw [List.mem_reverse, List.mem_range]
  omega

theorem asked_in_suffix {start index i : Nat} {id : String} {asker : ProviderTranscriptMessage}
    (h : suffixRound messages start = (start, false)) (hle : start ≤ index)
    (hm : messages[index]? = some m) (hrole : m.role = "tool") (hid : m.toolCallId = some id)
    (hasker : messages[i]? = some asker) (hasks : asksFor id asker = true) (hi : i < start) :
    ∃ j m', start ≤ j ∧ messages[j]? = some m' ∧ asksFor id m' = true := by
  obtain ⟨hlt, -⟩ := List.getElem?_eq_some_iff.mp hm
  obtain ⟨j, hj⟩ := lastBefore_isSome (Nat.lt_of_lt_of_le hi hle) hasker hasks
  obtain ⟨-, m', hm', hp⟩ := lastBefore_some hj
  refine ⟨j, m', ?_, hm', hp⟩
  have hstep := suffixStep_of_round h hle hlt
  rw [suffixStep, hm] at hstep
  dsimp only at hstep
  rw [if_pos hrole, hid, Option.bind_some, hj] at hstep
  dsimp only at hstep
  by_contra hless
  rw [if_pos (Nat.lt_of_not_le hless)] at hstep
  cases hstep

/-! ## calls and results -/

/-- the result of the tool call -/
def answersTo (id : String) (message : ProviderTranscriptMessage) : Bool :=
  message.role == "tool" && message.toolCallId == some id

theorem requested_map {id : String} :
    Requested id (messages.map markOf) ↔ ∃ m ∈ messages, asksFor id m = true := by
  have hone (m : ProviderTranscriptMessage) :
      (∃ ids, markOf m = .request ids ∧ id ∈ ids) ↔ asksFor id m = true := by
    unfold markOf asksFor
    by_cases hrole : m.role = "assistant"
    · by_cases hcalls : m.toolCalls = []
      · simp [hrole, hcalls]
      · simp [hrole, hcalls]
    · cases m.toolCallId with
      | none => simp [hrole]
      | some id' => by_cases htool : m.role = "tool" <;> simp [hrole, htool]
  constructor
  · rintro ⟨ids, hmem, hid⟩
    obtain ⟨m, hm, hmark⟩ := List.mem_map.mp hmem
    exact ⟨m, hm, (hone m).mp ⟨ids, hmark, hid⟩⟩
  · rintro ⟨m, hm, hasks⟩
    obtain ⟨ids, hmark, hid⟩ := (hone m).mpr hasks
    exact ⟨ids, hmark ▸ List.mem_map_of_mem hm, hid⟩

theorem answer_mem_map {id : String} :
    .answer id ∈ messages.map markOf ↔ ∃ m ∈ messages, answersTo id m = true := by
  have hone (m : ProviderTranscriptMessage) : markOf m = .answer id ↔ answersTo id m = true := by
    unfold markOf answersTo
    by_cases hrole : m.role = "assistant"
    · by_cases hcalls : m.toolCalls = [] <;> simp [hrole, hcalls]
    · cases m.toolCallId with
      | none => simp [hrole]
      | some id' => by_cases htool : m.role = "tool" <;> simp [hrole, htool]
  rw [List.mem_map]
  exact exists_congr fun m => and_congr_right fun _ => hone m

/-- the compaction keeps the messages from `start` on -/
structure SuffixKept (messages : List ProviderTranscriptMessage) (minTurns start : Nat)
    (summary : String) : Prop where
  valid : (validateDeepseekNativeMessages (userMessage summary :: messages.drop start)).valid
  /-- no call and no result of an id before `start`, when there is one from `start` on -/
  together : ∀ id, (∃ m ∈ messages.take start, asksFor id m || answersTo id m) →
    ¬ ∃ m ∈ messages.drop start, asksFor id m || answersTo id m
  lastTurns : messages.drop (messages.length - max 1 (2 * minTurns)) <:+ messages.drop start
  enough : min messages.length (max 1 (2 * minTurns)) ≤ (messages.drop start).length

/-- the search ends at `start`, where a round changes nothing, and more rounds would not go on -/
def SearchEnds (messages : List ProviderTranscriptMessage) (first start : Nat) : Prop :=
  suffixRound messages start = (start, false) ∧
    ∀ rounds, first < rounds → suffixLoop messages rounds first = start

theorem not_answered_after {start : Nat} {id : String}
    (h : suffixRound messages start = (start, false))
    (hsettles : Settles [] [] (messages.map markOf))
    (hreq : Requested id ((messages.take start).map markOf)) :
    .answer id ∉ (messages.drop start).map markOf := by
  rw [← List.take_append_drop start messages, List.map_append] at hsettles
  rw [answer_mem_map]
  rintro ⟨m, hmem, hanswers⟩
  obtain ⟨asker, hasker, hasks⟩ := requested_map.mp hreq
  obtain ⟨i, hi⟩ := List.mem_iff_getElem?.mp hasker
  obtain ⟨k, hk⟩ := List.mem_iff_getElem?.mp hmem
  rw [List.getElem?_take] at hi
  split at hi
  case isFalse => cases hi
  case isTrue hlt =>
    rw [List.getElem?_drop] at hk
    obtain ⟨hrole, hid⟩ : m.role = "tool" ∧ m.toolCallId = some id := by
      simpa [answersTo] using hanswers
    obtain ⟨j, m', hle, hm', hasks'⟩ :=
      asked_in_suffix h (Nat.le_add_right start k) hk hrole hid hi hasks hlt
    refine hsettles.not_requested_after (.inl hreq) (requested_map.mpr ⟨m', ?_, hasks'⟩)
    refine List.mem_iff_getElem?.mpr ⟨j - start, ?_⟩
    rw [List.getElem?_drop, Nat.add_sub_cancel' hle]
    exact hm'

theorem suffixKept_of_fixed {start minTurns : Nat} (summary : String)
    (h : suffixRound messages start = (start, false))
    (hle : start ≤ messages.length - max (minTurns * 2) 1)
    (hvalid : (validateDeepseekNativeMessages messages).valid) :
    SuffixKept messages minTurns start summary := by
  obtain ⟨hshaped, hsettles⟩ := valid_iff.mp hvalid
  have hparts : Settles [] []
      ((messages.take start).map markOf ++ (messages.drop start).map markOf) := by
    rwa [← List.map_append, List.take_append_drop]
  refine ⟨valid_iff.mpr ⟨?_, ?_⟩, ?_, ?_, ?_⟩
  · refine List.forall_mem_cons.mpr ⟨.inr (.inr ⟨.inr rfl, rfl, rfl⟩), fun m hm => ?_⟩
    exact hshaped m (List.mem_of_mem_drop hm)
  · rw [List.map_cons, markOf_userMessage]
    exact hparts.suffix fun id hreq => not_answered_after h hsettles hreq
  · rintro id ⟨m, hm, hm1⟩ ⟨m', hm', hm2⟩
    rw [Bool.or_eq_true] at hm1 hm2
    have hbefore : Requested id ((messages.take start).map markOf) ∨
        .answer id ∈ (messages.take start).map markOf :=
      hm1.imp (fun hasks => requested_map.mpr ⟨m, hm, hasks⟩) fun hanswers =>
        answer_mem_map.mpr ⟨m, hm, hanswers⟩
    rcases hm2 with hasks | hanswers
    · exact hparts.not_requested_after hbefore (requested_map.mpr ⟨m', hm', hasks⟩)
    · have hlater : .answer id ∈ (messages.drop start).map markOf :=
        answer_mem_map.mpr ⟨m', hm', hanswers⟩
      have hreq : Requested id ((messages.take start).map markOf) :=
        hbefore.elim (fun hreq => hreq) fun hans =>
          (hparts.requested_of_answer hans).resolve_left List.not_mem_nil
      exact not_answered_after h hsettles hreq hlater
  · exact List.drop_suffix_drop_left messages (by omega)
  · rw [List.length_drop]
    omega

end

/-- **compaction of a valid transcript**: the summary takes the place of the messages before a start
that keeps what `SuffixKept` says, and the search for it ends; nothing is done to an empty transcript -/
theorem compaction_keeps (steps : Steps) (provider protocol summary : String) (minTurns : Nat)
    (t : Transcript) (hthere : t.Exists) (hvalid : (validateDeepseekNativeMessages t.messages).valid) :
    ∃ start, SuffixKept t.messages minTurns start summary ∧
      SearchEnds t.messages (suffixFirst t.messages (pendingToolCalls t.events) minTurns) start ∧
      ((∀ step ∈ .readMessages :: commitSteps, steps step = .ok ()) →
        Ok (replaceProviderVisibleTranscript steps provider protocol summary minTurns) t
          (if t.messages = [] then none else some (userMessage summary :: t.messages.drop start))
          (if t.messages = [] then t else t.replaced (userMessage summary :: t.messages.drop start))) := by
  let first := suffixFirst t.messages (pendingToolCalls t.events) minTurns
  let start := liveSuffixStartIndex t.messages (pendingToolCalls t.events) minTurns
  have hfixed : suffixRound t.messages start = (start, false) := liveSuffixStartIndex_fixed _ _ _
  have hle : start ≤ t.messages.length - max (minTurns * 2) 1 :=
    (suffixLoop_le t.messages (first + 1) first).trans (suffixFirst_le _ _ _)
  have hkept := suffixKept_of_fixed summary hfixed hle hvalid
  refine ⟨start, hkept, ⟨hfixed, fun rounds hrounds => ?_⟩, fun hsteps => ?_⟩
  · exact suffixLoop_enough t.messages hrounds (Nat.lt_succ_self first)
  · obtain ⟨hread, hwritten⟩ := List.forall_mem_cons.mp hsteps
    by_cases hnil : t.messages = []
    · rw [if_pos hnil, if_pos hnil]
      exact replace_of_nothing (.inr ⟨hread, hnil⟩)
    · rw [if_neg hnil, if_neg hnil]
      refine replace_of_replaces ⟨hthere, hread, hnil, rfl, fun _ => hkept.valid, ?_⟩
      exact (Steps.run_ok steps commitSteps).mpr hwritten

/-- a question, the tool call of the assistant with its result, and a second question -/
def sampleTranscript : Transcript where
  messages := [userMessage "list",
    ⟨"assistant", none, none, [⟨"call_1", "function", .obj []⟩], none⟩,
    ⟨"tool", some "a.txt", none, [], some "call_1"⟩, userMessage "thanks"]
  events := [.transcriptCompacted]

theorem compaction_keeps_sample :
    sampleTranscript.Exists ∧ (validateDeepseekNativeMessages sampleTranscript.messages).valid ∧
      ∃ start, SuffixKept sampleTranscript.messages 1 start "summary" ∧
        SearchEnds sampleTranscript.messages
          (suffixFirst sampleTranscript.messages (pendingToolCalls sampleTranscript.events) 1) start ∧
        ((∀ step ∈ CompactionStep.readMessages :: commitSteps,
            (fun _ => .ok () : Steps) step = .ok ()) →
          Ok (replaceProviderVisibleTranscript (fun _ => .ok ()) "deepseek" "deepseek_chat_completions"
              "summary" 1) sampleTranscript
            (if sampleTranscript.messages = [] then none
              else some (userMessage "summary" :: sampleTranscript.messages.drop start))
            (if sampleTranscript.messages = [] then sampleTranscript
              else sampleTranscript.replaced
                (userMessage "summary" :: sampleTranscript.messages.drop start))) :=
  ⟨rfl, by decide, compaction_keeps _ _ _ _ 1 sampleTranscript rfl (by decide)⟩

/-- a transcript without messages is valid, and is not replaced -/
theorem empty_not_replaced :
    Transcript.Exists ⟨[], [.transcriptCompacted]⟩ ∧ (validateDeepseekNativeMessages []).valid ∧
      Ok (replaceProviderVisibleTranscript (fun _ => .ok ()) "deepseek" "deepseek_chat_completions"
        "summary" 1) ⟨[], [.transcriptCompacted]⟩ none ⟨[], [.transcriptCompacted]⟩ :=
  ⟨rfl, by decide, rfl⟩

end Provider

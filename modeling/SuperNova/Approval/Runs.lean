import Mathlib.Logic.Relation
import SuperNova.Approval.Created

/-!
# Runs of the approval runtime

Any number of calls on one log, one after the other, under a clock that does not go back; others append
their own events between them.  A call may stop after any number of its appends.  Beside the log, a
state keeps what was created, approved, issued and used so far.

* `State.step`, `State.run`: one move, and a run of them;
* `Sound`: the log tells what was done;
* `run_appends`, `sound_run`: what a run appends, event by event, keeps it so;
* `previews_run`: the ids of the created previews are the readings of the clock.
-/

set_option linter.unusedSectionVars false

namespace Approval

open Text Workspace Os FileTree

/-- a log, the last reading of the clock, and what the events on the log tell -/
structure State where
  log : List Event
  now : Nat
  previews : List PreviewTx
  approved : List ApprovalTokenRecord
  tokens : List ApprovalTokenRecord
  used : List String

def State.start : State := ⟨[], 0, [], [], [], []⟩

/-- the event types of the approval runtime -/
def approvalTypes : List String :=
  ["preview_tx_created", "preview_created", "preview_tx_approved", "approval_token_issued",
    "approval_token_consumed", "preview_tx_applied", "approval_token_used", "preview_tx_closed"]

/-- one more event on the log, of a call that returns the answer -/
def State.observe (answer : Answer) (s : State) (event : Event) : State :=
  let log := s.log ++ [event]
  match answer, event.eventType with
  | .preview p, "preview_tx_created" => { s with log := log, previews := s.previews ++ [p] }
  | .token t, "preview_tx_approved" => { s with log := log, approved := s.approved ++ [t] }
  | .token t, "approval_token_issued" => { s with log := log, tokens := s.tokens ++ [t] }
  | .used id, "approval_token_consumed" => { s with log := log, used := s.used ++ [id] }
  | .used id, "approval_token_used" => { s with log := log, used := s.used ++ [id] }
  | _, _ => { s with log := log }

inductive Move where
  /-- a call under two readings of the clock, and after how many appends it stops, if it does -/
  | call (c : Call) (first second : Nat) (stop : Option Nat)
  /-- an event of another part of the process -/
  | other (event : Event)

/-- the events that are appended before the call stops -/
def cut (stop : Option Nat) (events : List Event) : List Event :=
  stop.elim events events.take

def State.step (rt : Runtime) (s : State) : Move → Option State
  | .other event =>
    if event.eventType ∈ approvalTypes then none else some { s with log := s.log ++ [event] }
  | .call c first second stop =>
    if s.now ≤ first ∧ first ≤ second then
      match c.run rt s.log first second with
      | .error _ => some { s with now := second }
      | .ok (answer, events) =>
        some { (cut stop events).foldl (State.observe answer) s with now := second }
    else none

def State.run (rt : Runtime) (s : State) : List Move → Option State
  | [] => some s
  | m :: moves => (s.step rt m).bind fun s' => s'.run rt moves

/-- the readings that a created preview has its ids from -/
def Move.creation : Move → Option (Nat × Nat)
  | .call (.createPreviewTx _ operations _) first second stop =>
    match normalizeExecutableOperations operations with
    | .ok _ => if stop = some 0 then none else some (first, second)
    | .error _ => none
  | _ => none

/-! ## ids -/

def previewName (ms : Nat) : String := "preview_" ++ toString ms

def txName (ms : Nat) : String := "preview_tx_" ++ toString ms

theorem previewName_inj {m n : Nat} (h : previewName m = previewName n) : m = n :=
  toString_inj (append_left_inj h)

theorem txName_inj {m n : Nat} (h : txName m = txName n) : m = n := toString_inj (append_left_inj h)

theorem previewName_ne_txName (m n : Nat) : previewName m ≠ txName n := by
  intro h
  have hlist := congrArg String.toList h
  have hpre : ("preview_tx_" : String).toList = ("preview_" : String).toList ++ ['t', 'x', '_'] := rfl
  rw [previewName, txName, String.toList_append, String.toList_append, hpre, List.append_assoc] at hlist
  have htail := List.append_cancel_left hlist
  have hdigit : ('t').isDigit = true := by
    apply Nat.isDigit_of_mem_toDigits (b := 10) (n := m) (by decide) (by decide)
    have hrepr : (toString m).toList = Nat.toDigits 10 m := by
      rw [Nat.toString_eq_ofList_toDigits, String.toList_ofList]
    rw [← hrepr, htail]
    exact List.mem_cons_self
  exact absurd hdigit (by decide)

theorem safeName_previewName (ms : Nat) : SafeName (previewName ms) :=
  safeName_append (by decide) (safeName_toString ms)

theorem safeName_txName (ms : Nat) : SafeName (txName ms) :=
  safeName_append (by decide) (safeName_toString ms)

theorem isWhitespace_of_safe {c : Char}
    (h : (c.isAlphanum || c == '.' || c == '-' || c == '_') = true) : isWhitespace c = false := by
  unfold Char.isAlphanum Char.isAlpha Char.isUpper Char.isLower Char.isDigit at h
  simp only [Bool.or_eq_true, beq_iff_eq, Bool.and_eq_true, decide_eq_true_eq, UInt32.le_iff_toNat_le, ge_iff_le] at h
  have hrange : 45 ≤ c.toNat ∧ c.toNat ≤ 122 := by
    have hval : c.toNat = c.val.toNat := rfl
    rcases h with ((((h | h) | h) | rfl) | rfl) | rfl
    · have h1 := h.1
      have h2 := h.2
      simp at h1 h2
      omega
    · have h1 := h.1
      have h2 := h.2
      simp at h1 h2
      omega
    · have h1 := h.1
      have h2 := h.2
      simp at h1 h2
      omega
    all_goals decide
  simp only [isWhitespace, Bool.or_eq_false_iff, Bool.and_eq_false_iff, decide_eq_false_iff_not,
    beq_eq_false_iff_ne]
  omega

theorem trim_of_plain {s : String} (h : ∀ c ∈ s.toList, isWhitespace c = false) : trim s = s := by
  rw [← String.toList_inj, toList_trim]
  have hstart : s.toList.dropWhile isWhitespace = s.toList := by
    cases hs : s.toList with
    | nil => rfl
    | cons c rest =>
      have hc := h c (hs ▸ List.mem_cons_self)
      exact List.dropWhile_cons_of_neg (by simp [hc])
  rw [hstart, List.rdropWhile_eq_self_iff]
  intro hne hlast
  rw [h _ (List.getLast_mem hne)] at hlast
  cases hlast

theorem selectedId_of_safe {s : String} (h : SafeName s) (hne : s ≠ "") :
    selectedId (some s) = some s := by
  show (some (trim s)).filter _ = _
  rw [trim_of_plain fun c hc => isWhitespace_of_safe (h c hc)]
  exact Option.filter_some_pos (by simpa using hne)

/-! ## what the log tells -/

def ofType (log : List Event) (eventType : String) : List Event :=
  log.filter fun event => event.eventType == eventType

section
variable {log : List Event} {event : Event} {eventType : String}

theorem ofType_concat_self (h : event.eventType = eventType) :
    ofType (log ++ [event]) eventType = ofType log eventType ++ [event] := by
  rw [ofType, List.filter_append, List.filter_singleton, h, beq_self_eq_true]
  rfl

theorem ofType_concat_other (h : event.eventType ≠ eventType) :
    ofType (log ++ [event]) eventType = ofType log eventType := by
  rw [ofType, List.filter_append, List.filter_singleton, beq_false_of_ne h]
  exact List.append_nil _

theorem find?_ofType (log : List Event) (eventType : String) (test : Event → Bool) :
    (ofType log eventType).reverse.find? test =
      log.reverse.find? fun event => event.eventType == eventType && test event := by
  rw [ofType, ← List.filter_reverse, List.find?_filter]
  congr 1
  funext event
  rw [Bool.decide_and, Bool.decide_eq_true, Bool.decide_eq_true]

theorem mem_ofType : event ∈ ofType log eventType ↔ event ∈ log ∧ event.eventType = eventType := by
  rw [ofType, List.mem_filter, beq_iff_eq]

end

/-- the types that say what was done -/
def tellingTypes : List String :=
  ["preview_tx_created", "preview_tx_approved", "approval_token_issued", "approval_token_consumed",
    "approval_token_used", "preview_tx_closed"]

theorem ne_of_quiet {eventType known : String} (h : eventType ∉ tellingTypes)
    (hknown : known ∈ tellingTypes) : eventType ≠ known := fun e => h (e ▸ hknown)

/-- the events that record what was done, and the log has no others of their types -/
structure Sound (rt : Runtime) (s : State) : Prop where
  created : ofType s.log "preview_tx_created" =
    s.previews.map fun p => ⟨"preview_tx_created", p.toJson⟩
  approved : ofType s.log "preview_tx_approved" =
    s.approved.map fun t => ⟨"preview_tx_approved", t.approvedJson⟩
  issued : ofType s.log "approval_token_issued" =
    s.tokens.map fun t => ⟨"approval_token_issued", t.toJson⟩
  consumed : ∀ id, tokenIsConsumed s.log id = true ↔ id ∈ s.used
  closed : ∀ event ∈ ofType s.log "preview_tx_closed", ∃ t ∈ s.tokens,
    event.data.strAt? "tx_id" = some t.txId ∧ event.data.strAt? "preview_id" = some t.previewId
  operations : ∀ p ∈ s.previews, Operations p.executableOperations
  named : ∀ p ∈ s.previews, ∃ m n, p.previewId = previewName m ∧ p.txId = txName n
  ofPreview : ∀ t, t ∈ s.approved ∨ t ∈ s.tokens → ∃ p ∈ s.previews, ∃ m n note,
    t = tokenOf rt.render m n p note
  once : (s.tokens.map (·.txId)).Nodup

section
variable {rt : Runtime} {s s' : State} {event : Event} {p : PreviewTx} {t : ApprovalTokenRecord}
  {id : String} {c : Call} {first second : Nat} {stop : Option Nat}

theorem tokenIsConsumed_concat : tokenIsConsumed (s.log ++ [event]) id = true ↔
    tokenIsConsumed s.log id = true ∨ (event.eventType = "approval_token_consumed" ∨
      event.eventType = "approval_token_used") ∧ event.data.strAt? "approval_token_id" = some id := by
  simp [tokenIsConsumed]

theorem Sound.closed_concat (h : Sound rt s) (hne : event.eventType ≠ "preview_tx_closed") :
    ∀ e ∈ ofType (s.log ++ [event]) "preview_tx_closed", ∃ t ∈ s.tokens,
      e.data.strAt? "tx_id" = some t.txId ∧ e.data.strAt? "preview_id" = some t.previewId := by
  rw [ofType_concat_other hne]
  exact h.closed

theorem sound_start : Sound rt State.start where
  created := rfl
  approved := rfl
  issued := rfl
  consumed := by simp [State.start, tokenIsConsumed]
  closed := by simp [State.start, ofType]
  operations := by simp [State.start]
  named := by simp [State.start]
  ofPreview := by simp [State.start]
  once := List.nodup_nil

theorem Sound.quiet (h : Sound rt s) (hquiet : event.eventType ∉ tellingTypes) :
    Sound rt { s with log := s.log ++ [event] } where
  created := (ofType_concat_other (ne_of_quiet hquiet (by simp [tellingTypes]))).trans h.created
  approved := (ofType_concat_other (ne_of_quiet hquiet (by simp [tellingTypes]))).trans h.approved
  issued := (ofType_concat_other (ne_of_quiet hquiet (by simp [tellingTypes]))).trans h.issued
  consumed id := by
    have hconsumed : event.eventType ≠ "approval_token_consumed" :=
      ne_of_quiet hquiet (by simp [tellingTypes])
    have hused : event.eventType ≠ "approval_token_used" :=
      ne_of_quiet hquiet (by simp [tellingTypes])
    rw [tokenIsConsumed_concat, h.consumed]
    simp [hconsumed, hused]
  closed := h.closed_concat (ne_of_quiet hquiet (by simp [tellingTypes]))
  operations := h.operations
  named := h.named
  ofPreview := h.ofPreview
  once := h.once

theorem Sound.create (h : Sound rt s) (hp : Operations p.executableOperations)
    (hn : ∃ m n, p.previewId = previewName m ∧ p.txId = txName n) :
    Sound rt { s with log := s.log ++ [⟨"preview_tx_created", p.toJson⟩]
                      previews := s.previews ++ [p] } where
  created := by
    rw [List.map_append, ← h.created]
    exact ofType_concat_self rfl
  approved := (ofType_concat_other (by simp)).trans h.approved
  issued := (ofType_concat_other (by simp)).trans h.issued
  consumed id := by
    rw [tokenIsConsumed_concat, h.consumed]
    simp
  closed := h.closed_concat (by simp)
  operations q hq := by
    rcases List.mem_append.mp hq with hq | hq
    · exact h.operations q hq
    · exact List.mem_singleton.mp hq ▸ hp
  named q hq := by
    rcases List.mem_append.mp hq with hq | hq
    · exact h.named q hq
    · exact List.mem_singleton.mp hq ▸ hn
  ofPreview t ht := by
    obtain ⟨q, hq, hof⟩ := h.ofPreview t ht
    exact ⟨q, List.mem_append_left _ hq, hof⟩
  once := h.once

theorem Sound.approve (h : Sound rt s)
    (ht : ∃ p ∈ s.previews, ∃ m n note, t = tokenOf rt.render m n p note) :
    Sound rt { s with log := s.log ++ [⟨"preview_tx_approved", t.approvedJson⟩]
                      approved := s.approved ++ [t] } where
  created := (ofType_concat_other (by simp)).trans h.created
  approved := by
    rw [List.map_append, ← h.approved]
    exact ofType_concat_self rfl
  issued := (ofType_concat_other (by simp)).trans h.issued
  consumed id := by
    rw [tokenIsConsumed_concat, h.consumed]
    simp
  closed := h.closed_concat (by simp)
  operations := h.operations
  named := h.named
  ofPreview t' ht' := by
    rcases ht' with ht' | ht'
    · rcases List.mem_append.mp ht' with ht' | ht'
      · exact h.ofPreview t' (Or.inl ht')
      · exact List.mem_singleton.mp ht' ▸ ht
    · exact h.ofPreview t' (Or.inr ht')
  once := h.once

theorem Sound.issue (h : Sound rt s) (hfresh : t.txId ∉ s.tokens.map (·.txId))
    (ht : ∃ p ∈ s.previews, ∃ m n note, t = tokenOf rt.render m n p note) :
    Sound rt { s with log := s.log ++ [⟨"approval_token_issued", t.toJson⟩]
                      tokens := s.tokens ++ [t] } where
  created := (ofType_concat_other (by simp)).trans h.created
  approved := (ofType_concat_other (by simp)).trans h.approved
  issued := by
    rw [List.map_append, ← h.issued]
    exact ofType_concat_self rfl
  consumed id := by
    rw [tokenIsConsumed_concat, h.consumed]
    simp
  closed e he := by
    obtain ⟨t', ht', hclosed⟩ := h.closed_concat (by simp) e he
    exact ⟨t', List.mem_append_left _ ht', hclosed⟩
  operations := h.operations
  named := h.named
  ofPreview t' ht' := by
    rcases ht' with ht' | ht'
    · exact h.ofPreview t' (Or.inl ht')
    · rcases List.mem_append.mp ht' with ht' | ht'
      · exact h.ofPreview t' (Or.inr ht')
      · exact List.mem_singleton.mp ht' ▸ ht
  once := by
    rw [List.map_append]
    refine List.nodup_append.mpr ⟨h.once, List.nodup_singleton _, fun x hx y hy e => hfresh ?_⟩
    have hy' : y = t.txId := List.mem_singleton.mp hy
    rw [← hy', ← e]
    exact hx

theorem Sound.use (h : Sound rt s)
    (htype : event.eventType = "approval_token_consumed" ∨ event.eventType = "approval_token_used")
    (hid : event.data.strAt? "approval_token_id" = some id) :
    Sound rt { s with log := s.log ++ [event], used := s.used ++ [id] } where
  created := (ofType_concat_other (by rcases htype with e | e <;> simp [e])).trans h.created
  approved := (ofType_concat_other (by rcases htype with e | e <;> simp [e])).trans h.approved
  issued := (ofType_concat_other (by rcases htype with e | e <;> simp [e])).trans h.issued
  consumed id' := by
    rw [tokenIsConsumed_concat, h.consumed, hid]
    simp [htype, eq_comm (a := id)]
  closed := h.closed_concat (by rcases htype with e | e <;> simp [e])
  operations := h.operations
  named := h.named
  ofPreview := h.ofPreview
  once := h.once

theorem Sound.close (h : Sound rt s) (htype : event.eventType = "preview_tx_closed")
    (ht : t ∈ s.tokens) (htx : event.data.strAt? "tx_id" = some t.txId)
    (hpreview : event.data.strAt? "preview_id" = some t.previewId) :
    Sound rt { s with log := s.log ++ [event] } where
  created := (ofType_concat_other (by simp [htype])).trans h.created
  approved := (ofType_concat_other (by simp [htype])).trans h.approved
  issued := (ofType_concat_other (by simp [htype])).trans h.issued
  consumed id := by
    rw [tokenIsConsumed_concat, h.consumed]
    simp [htype]
  closed e he := by
    rw [ofType_concat_self htype, List.mem_append, List.mem_singleton] at he
    rcases he with he | rfl
    · exact h.closed e he
    · exact ⟨t, ht, htx, hpreview⟩
  operations := h.operations
  named := h.named
  ofPreview := h.ofPreview
  once := h.once

/-- one more event, and what it tells -/
inductive Append (rt : Runtime) (s : State) : State → Prop
  | quiet (event : Event) (h : event.eventType ∉ tellingTypes) :
    Append rt s { s with log := s.log ++ [event] }
  | create (p : PreviewTx) (hops : Operations p.executableOperations)
      (hnamed : ∃ m n, p.previewId = previewName m ∧ p.txId = txName n) :
    Append rt s { s with log := s.log ++ [⟨"preview_tx_created", p.toJson⟩]
                         previews := s.previews ++ [p] }
  | approve (t : ApprovalTokenRecord)
      (ht : ∃ p ∈ s.previews, ∃ m n note, t = tokenOf rt.render m n p note) :
    Append rt s { s with log := s.log ++ [⟨"preview_tx_approved", t.approvedJson⟩]
                         approved := s.approved ++ [t] }
  | issue (t : ApprovalTokenRecord) (hfresh : t.txId ∉ s.tokens.map (·.txId))
      (ht : ∃ p ∈ s.previews, ∃ m n note, t = tokenOf rt.render m n p note) :
    Append rt s { s with log := s.log ++ [⟨"approval_token_issued", t.toJson⟩]
                         tokens := s.tokens ++ [t] }
  | use (event : Event) (id : String)
      (htype : event.eventType = "approval_token_consumed" ∨ event.eventType = "approval_token_used")
      (hid : event.data.strAt? "approval_token_id" = some id) :
    Append rt s { s with log := s.log ++ [event], used := s.used ++ [id] }
  | close (event : Event) (t : ApprovalTokenRecord) (htype : event.eventType = "preview_tx_closed")
      (ht : t ∈ s.tokens) (htx : event.data.strAt? "tx_id" = some t.txId)
      (hpreview : event.data.strAt? "preview_id" = some t.previewId)
      (hstatus : event.data.strAt? "status" = some "applied") :
    Append rt s { s with log := s.log ++ [event] }
  | tick (now : Nat) : Append rt s { s with now := now }

theorem Sound.append (h : Sound rt s) (hs : Append rt s s') : Sound rt s' := by
  cases hs with
  | quiet event hquiet => exact h.quiet hquiet
  | create p hops hnamed => exact h.create hops hnamed
  | approve t ht => exact h.approve ht
  | issue t hfresh ht => exact h.issue hfresh ht
  | use event id htype hid => exact h.use htype hid
  | close event t htype ht htx hpreview hstatus => exact h.close htype ht htx hpreview
  | tick now =>
    exact ⟨h.created, h.approved, h.issued, h.consumed, h.closed, h.operations, h.named, h.ofPreview,
      h.once⟩

/-- any number of events -/
abbrev Appends (rt : Runtime) : State → State → Prop := Relation.ReflTransGen (Append rt)

theorem Sound.appends (h : Sound rt s) (hs : Appends rt s s') : Sound rt s' := by
  induction hs with
  | refl => exact h
  | tail _ hlast ih => exact ih.append hlast

/-! ## what the calls read off the log -/

theorem closedOrApproved_iff (h : Sound rt s) {txId : String} :
    closedOrApproved s.log txId = true ↔ ∃ t, (t ∈ s.approved ∨ t ∈ s.tokens) ∧ t.txId = txId := by
  simp only [closedOrApproved, List.any_eq_true, Bool.and_eq_true, Bool.or_eq_true, beq_iff_eq]
  constructor
  · rintro ⟨event, hmem, (htype | htype) | htype, htx⟩
    · obtain ⟨t, ht, htx', -⟩ := h.closed event (mem_ofType.mpr ⟨hmem, htype⟩)
      exact ⟨t, Or.inr ht, Option.some.inj (htx'.symm.trans htx)⟩
    · have hmem' := mem_ofType.mpr ⟨hmem, htype⟩
      rw [h.approved] at hmem'
      obtain ⟨t, ht, rfl⟩ := List.mem_map.mp hmem'
      exact ⟨t, Or.inl ht, Option.some.inj htx⟩
    · have hmem' := mem_ofType.mpr ⟨hmem, htype⟩
      rw [h.issued] at hmem'
      obtain ⟨t, ht, rfl⟩ := List.mem_map.mp hmem'
      exact ⟨t, Or.inr ht, Option.some.inj htx⟩
  · rintro ⟨t, ht | ht, rfl⟩
    · have hmem : (⟨"preview_tx_approved", t.approvedJson⟩ : Event) ∈
          ofType s.log "preview_tx_approved" := by
        rw [h.approved]
        exact List.mem_map.mpr ⟨t, ht, rfl⟩
      exact ⟨_, (mem_ofType.mp hmem).1, Or.inl (Or.inr rfl), rfl⟩
    · have hmem : (⟨"approval_token_issued", t.toJson⟩ : Event) ∈
          ofType s.log "approval_token_issued" := by
        rw [h.issued]
        exact List.mem_map.mpr ⟨t, ht, rfl⟩
      exact ⟨_, (mem_ofType.mp hmem).1, Or.inr rfl, rfl⟩

/-- the preview is selected by the id, or by none, and still open -/
def Selects (s : State) (selected : Option String) (p : PreviewTx) : Bool :=
  (selected.all fun id => id == p.txId || id == p.previewId) && !closedOrApproved s.log p.txId

theorem openPreview_eq (h : Sound rt s) (selected : Option String) :
    openPreview s.log selected =
      (s.previews.reverse.find? (Selects s selected)).map
        fun p => ⟨"preview_tx_created", p.toJson⟩ := by
  have hfind : openPreview s.log selected =
      (ofType s.log "preview_tx_created").reverse.find? fun event =>
        (selected.all fun id => id == (event.data.strAt? "tx_id").getD "" ||
          id == (event.data.strAt? "preview_id").getD "") &&
            !closedOrApproved s.log ((event.data.strAt? "tx_id").getD "") := by
    rw [find?_ofType]
    exact congrArg (fun q => s.log.reverse.find? q) (funext fun event => Bool.and_assoc _ _ _)
  rw [hfind, h.created, ← List.map_reverse, List.find?_map]
  rfl

theorem tokenEvent_eq (h : Sound rt s) (id : String) :
    tokenEvent s.log id = (s.tokens.reverse.find? fun t => t.approvalTokenId == id).map
      fun t => ⟨"approval_token_issued", t.toJson⟩ := by
  have hfind : tokenEvent s.log id = (ofType s.log "approval_token_issued").reverse.find? fun event =>
      event.data.strAt? "approval_token_id" == some id := by
    rw [find?_ofType]
    rfl
  rw [hfind, h.issued, ← List.map_reverse, List.find?_map]
  rfl

theorem issueToken_ok (h : Sound rt s) {approvalId : Option String} {note : String}
    (hissue : issueToken rt.render first second s.log approvalId note = .ok t) :
    ∃ p ∈ s.previews, t = tokenOf rt.render first second p note ∧
      Selects s (selectedId approvalId) p = true := by
  rw [issueToken, openPreview_eq h] at hissue
  cases hfind : s.previews.reverse.find? (Selects s (selectedId approvalId)) with
  | none =>
    rw [hfind] at hissue
    cases hissue
  | some p =>
    rw [hfind] at hissue
    have hp : p ∈ s.previews := List.mem_reverse.mp (List.mem_of_find?_eq_some hfind)
    have hsel := List.find?_some hfind
    have htoken := tokenFor_created rt.render first second note (h.operations p hp)
    refine ⟨p, hp, ?_, hsel⟩
    exact (Except.ok.inj (htoken.symm.trans hissue)).symm

/-! ## steps -/

theorem foldl_observe_previews {answer : Answer} (hne : ∀ p, answer ≠ .preview p)
    (events : List Event) : ∀ s : State,
      (events.foldl (State.observe answer) s).previews = s.previews := by
  induction events with
  | nil => exact fun _ => rfl
  | cons event events ih =>
    intro s
    rw [List.foldl_cons, ih]
    unfold State.observe
    split
    · exact absurd rfl (hne _)
    all_goals rfl

/-- an event that using a token appends -/
def UseEvent (tokens : List ApprovalTokenRecord) (id : String) (event : Event) : Prop :=
  (event.eventType = "approval_token_consumed" ∨ event.eventType = "approval_token_used") ∧
      event.data.strAt? "approval_token_id" = some id ∨
    event.eventType = "preview_tx_applied" ∨
    event.eventType = "preview_tx_closed" ∧ event.data.strAt? "status" = some "applied" ∧
      ∃ t ∈ tokens, event.data.strAt? "tx_id" = some t.txId ∧
        event.data.strAt? "preview_id" = some t.previewId

theorem useAll_appends {events : List Event} : ∀ {s : State},
    (∀ event ∈ events, UseEvent s.tokens id event) →
      Appends rt s (events.foldl (State.observe (.used id)) s) := by
  induction events with
  | nil => exact fun _ => Relation.ReflTransGen.refl
  | cons event events ih =>
    intro s hevents
    obtain ⟨eventType, data⟩ := event
    have hrest := fun e he => hevents e (List.mem_cons_of_mem _ he)
    rw [List.foldl_cons]
    rcases hevents _ List.mem_cons_self with
      ⟨htype | htype, hid⟩ | htype | ⟨htype, hstatus, t, ht, htx, hp⟩
    · cases htype
      exact Relation.ReflTransGen.head (.use _ id (Or.inl rfl) hid) (ih hrest)
    · cases htype
      exact Relation.ReflTransGen.head (.use _ id (Or.inr rfl) hid) (ih hrest)
    · cases htype
      exact Relation.ReflTransGen.head (.quiet _ (by simp [tellingTypes])) (ih hrest)
    · cases htype
      exact Relation.ReflTransGen.head (.close _ t rfl ht htx hp hstatus) (ih hrest)

theorem usedEvents_fit (h : Sound rt s) (capabilityId : String) (targetPaths : List String) :
    ∀ event ∈ usedEvents s.log id capabilityId targetPaths, UseEvent s.tokens id event := by
  have hclosed : ∀ t' : Event, tokenEvent s.log id = some t' →
      ∃ t ∈ s.tokens, t'.data.strAt? "tx_id" = some t.txId ∧
        t'.data.strAt? "preview_id" = some t.previewId := by
    intro t' ht'
    rw [tokenEvent_eq h] at ht'
    obtain ⟨t, hfind, rfl⟩ := Option.map_eq_some_iff.mp ht'
    exact ⟨t, List.mem_reverse.mp (List.mem_of_find?_eq_some hfind), rfl, rfl⟩
  intro event hevent
  simp only [usedEvents, List.mem_append, List.mem_singleton] at hevent
  rcases hevent with ((rfl | hevent) | rfl) | hevent
  · exact Or.inl ⟨Or.inl rfl, rfl⟩
  · split at hevent
    · cases hevent
    · rw [List.mem_singleton.mp hevent]
      exact Or.inr (Or.inl rfl)
  · exact Or.inl ⟨Or.inr rfl, rfl⟩
  · split at hevent
    · cases hevent
    rename_i hne
    cases htoken : tokenEvent s.log id with
    | none =>
      rw [htoken] at hne
      exact absurd rfl hne
    | some t' =>
      obtain ⟨t, ht, htx, hp⟩ := hclosed t' htoken
      rw [htoken, List.mem_singleton] at hevent
      rw [hevent]
      refine Or.inr (Or.inr ⟨rfl, rfl, t, ht, ?_, ?_⟩)
      · show some ((t'.data.strAt? "tx_id").getD "") = _
        rw [htx]
        rfl
      · show some ((t'.data.strAt? "preview_id").getD "") = _
        rw [hp]
        rfl

theorem cut_eq_take (stop : Option Nat) (events : List Event) :
    ∃ n, cut stop events = events.take n := by
  cases stop with
  | none => exact ⟨events.length, List.take_length.symm⟩
  | some n => exact ⟨n, rfl⟩

theorem call_appends (h : Sound rt s) {answer : Answer} {events : List Event}
    (hrun : c.run rt s.log first second = .ok (answer, events)) :
    Appends rt s ((cut stop events).foldl (State.observe answer) s) := by
  obtain ⟨n, hn⟩ := cut_eq_take stop events
  rw [hn]
  cases c with
  | createPreviewTx previewMarkdown operations riskLevel =>
    obtain ⟨p, hp, hret⟩ := Io.result_bind_ok.mp hrun
    cases hret
    obtain ⟨hops, hid, htx⟩ := createPreviewTx_ok hp
    have hcreated : Append rt s { s with log := s.log ++ [⟨"preview_tx_created", p.toJson⟩]
                                         previews := s.previews ++ [p] } :=
      .create p hops ⟨first, second, hid, htx⟩
    match n with
    | 0 => exact Relation.ReflTransGen.refl
    | 1 => exact Relation.ReflTransGen.single hcreated
    | n + 2 =>
      rw [List.take_of_length_le (by simp [createdEvents])]
      refine (Relation.ReflTransGen.single hcreated).tail ?_
      exact .quiet ⟨"preview_created", p.createdJson⟩ (by simp [tellingTypes])
  | issueToken approvalId note =>
    obtain ⟨t, ht, hret⟩ := Io.result_bind_ok.mp hrun
    cases hret
    obtain ⟨p, hp, htoken, hsel⟩ := issueToken_ok h ht
    have hof : ∃ p ∈ s.previews, ∃ m n note, t = tokenOf rt.render m n p note :=
      ⟨p, hp, _, _, _, htoken⟩
    have hfresh : t.txId ∉ s.tokens.map (·.txId) := by
      intro hmem
      obtain ⟨t', ht', htx⟩ := List.mem_map.mp hmem
      have hopen := (Bool.and_eq_true_iff.mp hsel).2
      rw [(closedOrApproved_iff h).mpr ⟨t', Or.inr ht', htx.trans (by rw [htoken]; rfl)⟩] at hopen
      cases hopen
    match n with
    | 0 => exact Relation.ReflTransGen.refl
    | 1 => exact Relation.ReflTransGen.single (.approve t hof)
    | n + 2 =>
      rw [List.take_of_length_le (by simp [issuedEvents])]
      exact (Relation.ReflTransGen.single (.approve t hof)).tail (.issue t hfresh hof)
  | validateToken approvalTokenId capabilityId targetPaths =>
    have hevents : events = [] := by
      simp only [Call.run] at hrun
      split at hrun
      · cases hrun
        rfl
      · cases hrun
        rfl
    rw [hevents, List.take_nil]
    exact Relation.ReflTransGen.refl
  | markTokenUsed approvalTokenId capabilityId targetPaths =>
    cases hrun
    exact useAll_appends fun event hevent => usedEvents_fit h _ _ event (List.mem_of_mem_take hevent)

theorem step_appends {m : Move} (h : Sound rt s) (hstep : s.step rt m = some s') :
    Appends rt s s' := by
  cases m with
  | other event =>
    simp only [State.step] at hstep
    split at hstep
    · cases hstep
    rename_i hother
    cases hstep
    refine Relation.ReflTransGen.single (.quiet event fun hmem => hother ?_)
    simp only [tellingTypes, List.mem_cons, List.not_mem_nil, or_false] at hmem
    simp only [approvalTypes, List.mem_cons, List.not_mem_nil, or_false]
    rcases hmem with e | e | e | e | e | e <;> simp [e]
  | call c first second stop =>
    simp only [State.step] at hstep
    split at hstep
    · split at hstep
      · cases hstep
        exact Relation.ReflTransGen.single (.tick second)
      · rename_i hrun
        cases hstep
        exact (call_appends h hrun).tail (.tick second)
    · cases hstep

/-- **what a run does to the log is told by its events, one by one** -/
theorem run_appends {moves : List Move} : ∀ {s : State}, Sound rt s → s.run rt moves = some s' →
    Appends rt s s' := by
  induction moves with
  | nil =>
    intro s _ hrun
    cases hrun
    exact Relation.ReflTransGen.refl
  | cons m moves ih =>
    intro s h hrun
    obtain ⟨s1, hstep, hrest⟩ := Option.bind_eq_some_iff.mp hrun
    have hfirst := step_appends h hstep
    exact hfirst.trans (ih (h.appends hfirst) hrest)

theorem sound_run {moves : List Move} (h : Sound rt s) (hrun : s.run rt moves = some s') :
    Sound rt s' := h.appends (run_appends h hrun)

/-! ## the ids of the created previews -/

def PreviewTx.ids (p : PreviewTx) : String × String := (p.previewId, p.txId)

theorem previews_created (hstop : stop ≠ some 0) :
    ((cut stop (createdEvents p)).foldl (State.observe (.preview p)) s).previews =
      s.previews ++ [p] := by
  match stop with
  | none => rfl
  | some 0 => exact absurd rfl hstop
  | some 1 => rfl
  | some (n + 2) =>
    have hcut : cut (some (n + 2)) (createdEvents p) = createdEvents p :=
      List.take_of_length_le (by simp [createdEvents])
    rw [hcut]
    rfl

theorem run_create_cases (rt : Runtime) (log : List Event) (first second : Nat) (previewMarkdown : String)
    (operations : List ExecutablePreviewOperation) (riskLevel : String) :
    (∃ e, normalizeExecutableOperations operations = .error e ∧
        Call.run rt log first second (.createPreviewTx previewMarkdown operations riskLevel) = .error e) ∨
      ∃ normalized p, normalizeExecutableOperations operations = .ok normalized ∧
        p.ids = (previewName first, txName second) ∧
        Call.run rt log first second (.createPreviewTx previewMarkdown operations riskLevel) =
          .ok (.preview p, createdEvents p) := by
  cases hops : normalizeExecutableOperations operations with
  | error e =>
    have hcreate : createPreviewTx rt.jobId first second previewMarkdown operations riskLevel = .error e := by
      rw [createPreviewTx, hops]
      rfl
    refine Or.inl ⟨e, rfl, ?_⟩
    rw [Call.run, hcreate]
    rfl
  | ok normalized =>
    obtain ⟨p, hp⟩ : ∃ p, createPreviewTx rt.jobId first second previewMarkdown operations riskLevel = .ok p := by
      rw [createPreviewTx, hops]
      exact ⟨_, rfl⟩
    obtain ⟨-, hid, htx⟩ := createPreviewTx_ok hp
    refine Or.inr ⟨normalized, p, rfl, Prod.ext hid htx, ?_⟩
    rw [Call.run, hp]
    rfl

theorem previews_step {m : Move} (hstep : s.step rt m = some s') :
    s'.previews.map PreviewTx.ids =
      s.previews.map PreviewTx.ids ++ m.creation.toList.map fun r => (previewName r.1, txName r.2) := by
  cases m with
  | other event =>
    simp only [State.step] at hstep
    split at hstep
    · cases hstep
    · cases hstep
      exact (List.append_nil _).symm
  | call c first second stop =>
    simp only [State.step] at hstep
    split at hstep
    swap
    · cases hstep
    cases c with
    | createPreviewTx previewMarkdown operations riskLevel =>
      rcases run_create_cases rt s.log first second previewMarkdown operations riskLevel with
        ⟨e, hops, hrun⟩ | ⟨normalized, p, hops, hids, hrun⟩
      · rw [hrun] at hstep
        cases hstep
        simp [Move.creation, hops]
      · rw [hrun] at hstep
        cases hstep
        by_cases hstop : stop = some 0
        · simp [Move.creation, hops, hstop, cut]
        · show (((cut stop (createdEvents p)).foldl _ s).previews.map _) = _
          rw [previews_created hstop, List.map_append, List.map_singleton, hids, Move.creation, hops]
          simp only [if_neg hstop]
          rfl
    | issueToken approvalId note =>
      split at hstep
      · cases hstep
        exact (List.append_nil _).symm
      · rename_i answer events hrun
        obtain ⟨t, -, hret⟩ := Io.result_bind_ok.mp hrun
        cases hret
        cases hstep
        show (((cut stop _).foldl _ s).previews.map _) = _ ++ []
        rw [foldl_observe_previews (by simp), List.append_nil]
    | validateToken approvalTokenId capabilityId targetPaths =>
      split at hstep
      · cases hstep
        exact (List.append_nil _).symm
      · rename_i answer events hrun
        cases hstep
        show (((cut stop _).foldl _ s).previews.map _) = _ ++ []
        rw [foldl_observe_previews, List.append_nil]
        intro p hp
        simp only [Call.run] at hrun
        split at hrun
        · cases hrun
          cases hp
        · cases hrun
          cases hp
    | markTokenUsed approvalTokenId capabilityId targetPaths =>
      cases hstep
      show (((cut stop _).foldl _ s).previews.map _) = _ ++ []
      rw [foldl_observe_previews (by simp), List.append_nil]

theorem previews_run {moves : List Move} : ∀ {s : State}, s.run rt moves = some s' →
    s'.previews.map PreviewTx.ids =
      s.previews.map PreviewTx.ids ++
        (moves.filterMap Move.creation).map fun r => (previewName r.1, txName r.2) := by
  induction moves with
  | nil =>
    intro s hrun
    cases hrun
    exact (List.append_nil _).symm
  | cons m moves ih =>
    intro s hrun
    obtain ⟨s1, hstep, hrest⟩ := Option.bind_eq_some_iff.mp hrun
    rw [ih hrest, previews_step hstep, List.append_assoc, ← List.map_append]
    congr 2
    cases hm : m.creation with
    | none => rw [List.filterMap_cons_none hm]; rfl
    | some r => rw [List.filterMap_cons_some hm]; rfl

end

end Approval

import Mathlib.Data.List.TakeWhile
import SuperNova.ClientEnv.Runtime

/-!
# Disclosure of sensitive fields

A value of a sensitive network field may be in a receipt only while an approval of the field is not
expired.  Scans check this when they start, and reading a snapshot does not check it at all.

* `disclosure_iff` (**main**): every receipt keeps to the approvals, and no request is approved twice,
  exactly when no scan and no read outlasts the approvals of the fields it shows;
* `expired_snapshot_read`: a snapshot that is read an hour after the approval.
-/

set_option linter.unusedSectionVars false

namespace ClientEnv

open Io

variable {s s' : ClientEnvState} {events l l' : List Event} {field : String} {now : Nat}

/-! ## what is promised -/

/-- the keys of the sensitive network fields -/
def networkFacts : List (String × String) :=
  [("network.local_ip", "local_ip"), ("network.mac_address", "mac_address")]

/-- a network section has a value of the field -/
def Shows (sections : List ClientEnvSection) (field : String) : Prop :=
  ∃ key, (field, key) ∈ networkFacts ∧
    ∃ section_ ∈ sections, section_.sectionId = "network" ∧ key ∈ section_.facts.map Prod.fst

def ReceiptData.sections : ReceiptData → List ClientEnvSection
  | .snapshot _ snap => snap.sections
  | .page _ _ _ _ _ sections => sections
  | _ => []

/-- an approval, by the user, of a request that was recorded before it; both cover the field -/
def Covers (events : List Event) (field : String) (a : Approval) : Prop :=
  field ∈ a.allowedFields ∧ a.userApproved ∧ ∃ l l' r, events = l ++ .approved a :: l' ∧
    .requested r ∈ l ∧ r.requestId = a.requestId ∧ field ∈ r.requestedFields

/-- a receipt shows a field only under an approval that is not expired -/
def Moment.Disclosed (m : Moment) : Prop :=
  ∀ field, Shows m.receipt.data.sections field →
    ∃ a, Covers m.events field a ∧ m.now ≤ a.expiresAtUnixMs

def Event.approves (requestId : String) : Event → Bool
  | .approved a => a.requestId == requestId
  | _ => false

/-- up to the next request with the same id, a request is approved at most once -/
def ResolvedOnce (events : List Event) : Prop :=
  ∀ l r l', events = l ++ .requested r :: l' →
    (l'.takeWhile fun e => e.requests? ≠ some r.requestId).countP (·.approves r.requestId) ≤ 1

/-! ## the condition -/

/-- some approval of the field is not expired -/
def Unexpired (events : List Event) (now : Nat) (field : String) : Prop :=
  ∃ a, .approved a ∈ events ∧ field ∈ a.allowedFields ∧ now ≤ a.expiresAtUnixMs

/-- the fields that a scan may return, from the log before it -/
def granted (s : ClientEnvState) (options : ClientEnvScanOptions) : List String :=
  if options.includeSensitiveFields then
    match options.authorization? with
    | none => []
    | some authorizationId =>
      match authorizedFields s.events s.nextReading authorizationId
          (sensitiveFieldsForSections options.scanned) with
      | .ok fields => fields
      | .error _ => []
  else []

/-- the page of a snapshot that is read -/
def pageOf (rt : Runtime) (s : ClientEnvState) (ref : String) (offset limit : Nat) :
    List ClientEnvSection :=
  match findSnapshot rt s.blobs ref with
  | .ok snapshot => (snapshot.sections.drop offset).take (min (max limit 1) 50)
  | .error _ => []

/-- at the end of a scan the fields that it was granted, and at the end of a read the fields on the
page, have an approval that is not expired -/
def Timely (s : ClientEnvState) (c : Call) : Prop :=
  match c with
  | .scan _ _ kind options =>
    ∀ field ∈ granted s (kind.call options).2, Unexpired s.events (s.call c).clock field
  | .readSnapshot rt ref offset limit =>
    ∀ field, Shows (pageOf rt s ref offset limit) field → Unexpired s.events (s.call c).clock field
  | _ => True

def AllTimely (s : ClientEnvState) : List Call → Prop
  | [] => True
  | c :: calls => Timely s c ∧ AllTimely (s.call c) calls

/-! ## the log -/

/-- every approval was by the user, of a request recorded before it -/
def Recorded (events : List Event) : Prop :=
  ∀ l a l', events = l ++ .approved a :: l' → a.userApproved ∧ ∃ r, .requested r ∈ l ∧
    r.requestId = a.requestId ∧ ∀ field ∈ a.allowedFields, field ∈ r.requestedFields

/-- what the log keeps -/
structure Sound (events : List Event) : Prop where
  recorded : Recorded events
  resolvedOnce : ResolvedOnce events

/-- neither a request nor an answer to one -/
def Event.quiet (e : Event) : Prop := e.requests? = none ∧ e.resolves? = none

theorem split_concat {α : Type} {l l1 l2 : List α} {x y : α} (h : l ++ [x] = l1 ++ y :: l2) :
    (l = l1 ∧ x = y ∧ l2 = []) ∨ ∃ l3, l2 = l3 ++ [x] ∧ l = l1 ++ y :: l3 := by
  rcases List.eq_nil_or_concat' l2 with rfl | ⟨l3, z, rfl⟩
  · obtain ⟨rfl, e⟩ := List.append_inj' h rfl
    exact Or.inl ⟨rfl, (List.cons.inj e).1, rfl⟩
  · rw [← List.cons_append, ← List.append_assoc] at h
    obtain ⟨rfl, e⟩ := List.append_inj' h rfl
    obtain rfl := (List.cons.inj e).1
    exact Or.inr ⟨l3, rfl, rfl⟩

theorem Recorded.concat {e : Event} (h : Recorded events)
    (he : ∀ a, e = .approved a → a.userApproved ∧ ∃ r, .requested r ∈ events ∧
      r.requestId = a.requestId ∧ ∀ field ∈ a.allowedFields, field ∈ r.requestedFields) :
    Recorded (events ++ [e]) := by
  intro l1 a l2 hsplit
  rcases split_concat hsplit with ⟨rfl, rfl, -⟩ | ⟨l3, -, hl⟩
  · exact he a rfl
  · exact h l1 a l3 hl

theorem ResolvedOnce.concat {e : Event} (h : ResolvedOnce events)
    (he : ∀ l1 r l2, events = l1 ++ .requested r :: l2 → e.approves r.requestId →
      (∀ e' ∈ l2, e'.requests? ≠ some r.requestId) → l2.countP (·.approves r.requestId) = 0) :
    ResolvedOnce (events ++ [e]) := by
  intro l1 r l2 hsplit
  rcases split_concat hsplit with ⟨-, -, rfl⟩ | ⟨l3, rfl, hl⟩
  · exact Nat.zero_le 1
  · by_cases hsame : ∀ e' ∈ l3, e'.requests? ≠ some r.requestId
    · have hall : l3.takeWhile (fun e => e.requests? ≠ some r.requestId) = l3 :=
        List.takeWhile_eq_self_iff.mpr fun e' he' => decide_eq_true (hsame e' he')
      have hold := h l1 r l3 hl
      rw [List.takeWhile_append, if_pos (by rw [hall]), List.countP_append]
      rw [hall] at hold
      by_cases happ : e.approves r.requestId
      · rw [he l1 r l3 hl happ hsame, Nat.zero_add]
        exact Nat.le_trans List.countP_le_length (List.takeWhile_prefix _).length_le
      · have hzero : ([e].takeWhile fun e => e.requests? ≠ some r.requestId).countP
            (·.approves r.requestId) = 0 := by
          refine List.countP_eq_zero.mpr fun e' he' => ?_
          obtain rfl := List.mem_singleton.mp ((List.takeWhile_prefix _).subset he')
          exact happ
        omega
    · rw [List.takeWhile_append, if_neg]
      · exact h l1 r l3 hl
      · intro hlen
        apply hsame
        have := (List.takeWhile_prefix (p := fun e => e.requests? ≠ some r.requestId)
          (l := l3)).eq_of_length hlen
        intro e' he'
        exact of_decide_eq_true (List.takeWhile_eq_self_iff.mp this e' he')

theorem not_approves_of_quiet {e : Event} (h : e.quiet) (id : String) : ¬ e.approves id := by
  cases e with
  | approved a => cases h.2
  | _ => exact Bool.false_ne_true

theorem Sound.quiet (h : Sound events) (hl : ∀ e ∈ l, e.quiet) : Sound (events ++ l) := by
  induction l generalizing events with
  | nil => rwa [List.append_nil]
  | cons e l ih =>
    have hq := hl e List.mem_cons_self
    rw [List.append_cons]
    refine ih ⟨h.recorded.concat fun a ha => ?_, h.resolvedOnce.concat fun _ r _ _ happ => ?_⟩
      fun e' he' => hl e' (List.mem_cons_of_mem e he')
    · rw [ha] at hq
      cases hq.2
    · exact absurd happ (not_approves_of_quiet hq r.requestId)

theorem Sound.request {r : ClientEnvDisclosureRequest} (h : Sound events) :
    Sound (events ++ [.requested r]) where
  recorded := h.recorded.concat fun _ ha => nomatch ha
  resolvedOnce := h.resolvedOnce.concat fun _ _ _ _ happ => nomatch happ

theorem Sound.reject {requestId reason : String} (h : Sound events) :
    Sound (events ++ [.rejected requestId reason]) where
  recorded := h.recorded.concat fun _ ha => nomatch ha
  resolvedOnce := h.resolvedOnce.concat fun _ _ _ _ happ => nomatch happ

theorem lastRequest_some {requestId : String} {r : ClientEnvDisclosureRequest} {later : List Event}
    (h : lastRequest requestId events = some (r, later)) :
    r.requestId = requestId ∧ ∃ l, events = l ++ .requested r :: later := by
  induction events with
  | nil => cases h
  | cons e rest ih =>
    unfold lastRequest at h
    split at h
    · rename_i found hrest
      cases h
      obtain ⟨hid, l, rfl⟩ := ih hrest
      exact ⟨hid, e :: l, rfl⟩
    · split at h
      · split at h
        · rename_i hid
          cases h
          exact ⟨hid, [], rfl⟩
        · cases h
      · cases h

theorem lastRequest_append {l : List Event} {r : ClientEnvDisclosureRequest}
    (hlater : ∀ e ∈ l', e.requests? ≠ some r.requestId) :
    lastRequest r.requestId (l ++ .requested r :: l') = some (r, l') := by
  induction l with
  | nil =>
    have hnone : lastRequest r.requestId l' = none := by
      cases hfound : lastRequest r.requestId l' with
      | none => rfl
      | some found =>
        obtain ⟨hid, l1, rfl⟩ := @lastRequest_some _ _ found.1 found.2 hfound
        exact absurd (congrArg some hid)
          (hlater (.requested found.1) (List.mem_append_right l1 List.mem_cons_self))
    rw [List.nil_append, lastRequest, hnone]
    dsimp only
    rw [if_pos rfl]
  | cons e l ih =>
    rw [List.cons_append]
    unfold lastRequest
    rw [ih]

theorem pending_ok {requestId : String} {r : ClientEnvDisclosureRequest}
    (h : pendingDisclosureRequestForApproval events requestId now = .ok r) :
    r.requestId = requestId ∧ ∃ later, lastRequest requestId events = some (r, later) ∧
      ∀ e ∈ later, e.resolves? ≠ some requestId := by
  unfold pendingDisclosureRequestForApproval at h
  split at h
  · cases h
  · split at h
    · cases h
    · rename_i request later hlast
      split at h
      · cases h
      · split at h
        · cases h
        · split at h
          · cases h
          · rename_i hnone
            cases h
            refine ⟨(lastRequest_some hlast).1, later, hlast, fun e he => ?_⟩
            exact of_decide_eq_false
              (Bool.eq_false_iff.mpr (List.find?_eq_none.mp hnone e (List.mem_reverse.mpr he)))

/-- **an approval** answers the last request with its id, which no event after it answers -/
theorem Sound.approve {a : Approval} {r : ClientEnvDisclosureRequest} (h : Sound events)
    (hpending : pendingDisclosureRequestForApproval events a.requestId now = .ok r)
    (huser : a.userApproved) (hallowed : ∀ field ∈ a.allowedFields, field ∈ r.requestedFields) :
    Sound (events ++ [.approved a]) := by
  obtain ⟨hid, later, hlast, hresolved⟩ := pending_ok hpending
  refine ⟨h.recorded.concat fun b hb => ?_, h.resolvedOnce.concat fun l1 r1 l2 hsplit happ hlater => ?_⟩
  · cases hb
    obtain ⟨-, l, rfl⟩ := lastRequest_some hlast
    exact ⟨huser, r, List.mem_append_right l List.mem_cons_self, hid, hallowed⟩
  · have happ' : a.requestId = r1.requestId := by simpa [Event.approves] using happ
    rw [hsplit, happ', lastRequest_append hlater] at hlast
    cases hlast
    refine List.countP_eq_zero.mpr fun e he happ1 => ?_
    cases e with
    | approved b =>
      refine hresolved _ he (congrArg some ?_)
      rw [happ']
      simpa [Event.approves] using happ1
    | _ => exact Bool.false_ne_true happ1

theorem unexpired_iff (h : Sound events) :
    Unexpired events now field ↔ ∃ a, Covers events field a ∧ now ≤ a.expiresAtUnixMs := by
  constructor
  · rintro ⟨a, hm, hf, hle⟩
    obtain ⟨l, l', rfl⟩ := List.append_of_mem hm
    obtain ⟨huser, r, hr, hid, hall⟩ := h.recorded l a l' rfl
    exact ⟨a, ⟨hf, huser, l, l', r, rfl, hr, hid, hall field hf⟩, hle⟩
  · rintro ⟨a, ⟨hf, -, l, l', r, rfl, -⟩, hle⟩
    exact ⟨a, List.mem_append_right l List.mem_cons_self, hf, hle⟩

theorem unexpired_quiet (hl : ∀ e ∈ l, e.quiet) :
    Unexpired (events ++ l) now field ↔ Unexpired events now field := by
  refine exists_congr fun a => and_congr_left fun _ => ?_
  rw [List.mem_append]
  refine or_iff_left fun hm => ?_
  cases (hl _ hm).2

/-! ## what a call does -/

/-- the state after a call that only adds quiet events -/
structure Logs (s s' : ClientEnvState) : Prop where
  events : ∃ l, s'.events = s.events ++ l ∧ ∀ e ∈ l, e.quiet
  receipts : s'.receipts = s.receipts

theorem Logs.refl (s : ClientEnvState) : Logs s s :=
  ⟨⟨[], (List.append_nil _).symm, fun _ h => absurd h List.not_mem_nil⟩, rfl⟩

theorem Logs.trans {s1 s2 s3 : ClientEnvState} (h : Logs s1 s2) (h' : Logs s2 s3) : Logs s1 s3 := by
  obtain ⟨l, hl, hq⟩ := h.events
  obtain ⟨l', hl', hq'⟩ := h'.events
  refine ⟨⟨l ++ l', by rw [hl', hl, List.append_assoc], fun e he => ?_⟩,
    h'.receipts.trans h.receipts⟩
  exact (List.mem_append.mp he).elim (hq e) (hq' e)

/-- the state after a call that returns a receipt with these sections -/
structure Returns (s s' : ClientEnvState) (sections : List ClientEnvSection) : Prop where
  events : ∃ l, s'.events = s.events ++ l ∧ ∀ e ∈ l, e.quiet
  receipts : ∃ receipt, s'.receipts = s.receipts ++ [⟨s'.clock, s'.events, receipt⟩] ∧
    receipt.data.sections = sections

theorem Logs.returns {s1 s2 s3 : ClientEnvState} {sections : List ClientEnvSection} (h : Logs s1 s2)
    (h' : Returns s2 s3 sections) : Returns s1 s3 sections := by
  obtain ⟨l, hl, hq⟩ := h.events
  obtain ⟨l', hl', hq'⟩ := h'.events
  refine ⟨⟨l ++ l', by rw [hl', hl, List.append_assoc], fun e he => ?_⟩, h.receipts ▸ h'.receipts⟩
  exact (List.mem_append.mp he).elim (hq e) (hq' e)

theorem nowMs_ok (s : ClientEnvState) : Ok nowMs s s.nextReading
    { s with clock := s.nextReading, delays := s.delays.tail } := rfl

theorem appendAll_ok (l : List Event) : ∀ s : ClientEnvState, ∃ s',
    Ok (l.forM appendEvent) s ⟨⟩ s' ∧ s'.events = s.events ++ l ∧ s'.receipts = s.receipts := by
  induction l with
  | nil => exact fun s => ⟨s, rfl, (List.append_nil _).symm, rfl⟩
  | cons e l ih =>
    intro s
    obtain ⟨s1, h1, hevents, hreceipts⟩ : ∃ s1, Ok (appendEvent e) s () s1 ∧
        s1.events = s.events ++ [e] ∧ s1.receipts = s.receipts := ⟨_, rfl, rfl, rfl⟩
    obtain ⟨s2, h2, hevents2, hreceipts2⟩ := ih s1
    refine ⟨s2, forM_cons_ok.mpr ⟨s1, h1, h2⟩, ?_, hreceipts2.trans hreceipts⟩
    rw [hevents2, hevents, List.append_assoc]
    rfl

theorem emitEvents_ok (rt : Runtime) (l : List Event) (s : ClientEnvState) : ∃ s',
    Ok (emitEvents rt l) s ⟨⟩ s' ∧ (s'.events = s.events ++ l ∨ s'.events = s.events) ∧
      s'.receipts = s.receipts := by
  obtain ⟨s', h, hevents, hreceipts⟩ :=
    appendAll_ok (if rt.emitCapabilityReceiptEvent then l else []) s
  refine ⟨s', h, ?_, hreceipts⟩
  split at hevents
  · exact Or.inl hevents
  · exact Or.inr (hevents.trans (List.append_nil _))

theorem emitEvents_logs (rt : Runtime) {l : List Event} (hl : ∀ e ∈ l, e.quiet)
    (s : ClientEnvState) : ∃ s', Ok (emitEvents rt l) s ⟨⟩ s' ∧ Logs s s' := by
  obtain ⟨s', h, hevents | hevents, hreceipts⟩ := emitEvents_ok rt l s
  · exact ⟨s', h, ⟨l, hevents, hl⟩, hreceipts⟩
  · exact ⟨s', h, ⟨[], hevents.trans (List.append_nil _).symm, fun _ h => absurd h List.not_mem_nil⟩,
      hreceipts⟩

theorem processCapabilityReceipt_ok (rt : Runtime) (capabilityId status : String)
    (data : ReceiptData) (s : ClientEnvState) :
    ∃ receipt s', Ok (processCapabilityReceipt rt capabilityId status data) s receipt s' ∧
      Returns s s' data.sections := by
  obtain ⟨s1, h1, hlog⟩ := emitEvents_logs rt
    (l := [.capabilityReceipt ⟨capabilityId, status, data⟩])
    (fun e he => List.mem_singleton.mp he ▸ ⟨rfl, rfl⟩) s
  refine ⟨_, _, (bind_of_ok h1).trans rfl, hlog.returns ⟨⟨[], ?_, ?_⟩, _, rfl, rfl⟩⟩
  · exact (List.append_nil _).symm
  · exact fun _ h => absurd h List.not_mem_nil

/-! ## scans -/

theorem authorizedFields_subset {authorizationId : String} {requested fields : List String}
    (h : authorizedFields events now authorizationId requested = .ok fields) :
    ∀ f ∈ fields, f ∈ requested := by
  unfold authorizedFields at h
  dsimp only at h
  split at h
  · cases h
  · split at h
    · cases h
    · split at h
      · cases h
      · cases h
        exact fun f hf => (List.mem_filter.mp hf).1

theorem authorize_ok (s : ClientEnvState) (options : ClientEnvScanOptions) :
    ∃ result s', Ok (authorize options (sensitiveFieldsForSections options.scanned)) s result s' ∧
      Logs s s' ∧ (result = .ok (granted s options) ∧
        (∀ f ∈ granted s options, f ∈ sensitiveFieldsForSections options.scanned) ∨
        (∃ data, result = .error data) ∧ granted s options = []) := by
  unfold authorize granted
  cases options.includeSensitiveFields with
  | false => exact ⟨_, s, rfl, Logs.refl s, Or.inl ⟨rfl, fun _ h => absurd h List.not_mem_nil⟩⟩
  | true =>
    cases options.authorization? with
    | none => exact ⟨_, s, rfl, Logs.refl s, Or.inr ⟨⟨_, rfl⟩, rfl⟩⟩
    | some authorizationId =>
      refine ⟨authorizedFields s.events s.nextReading authorizationId
        (sensitiveFieldsForSections options.scanned), _, rfl,
        ⟨⟨[], (List.append_nil _).symm, fun _ h => absurd h List.not_mem_nil⟩, rfl⟩, ?_⟩
      rw [if_pos rfl]
      dsimp only
      cases hf : authorizedFields s.events s.nextReading authorizationId
          (sensitiveFieldsForSections options.scanned) with
      | ok fields => exact Or.inl ⟨rfl, authorizedFields_subset hf⟩
      | error data => exact Or.inr ⟨⟨data, rfl⟩, rfl⟩

theorem deviceSection_id (host : Host) : (collectDeviceSection host).sectionId = "device" := by
  unfold collectDeviceSection
  split <;> rfl

theorem storageSection_id (host : Host) : (collectStorageSection host).sectionId = "storage" := by
  unfold collectStorageSection
  dsimp only
  split <;> rfl

theorem collectSection_network (host : Host) (authorized : List String) {name : String}
    (h : (collectSection host authorized name).sectionId = "network") : name = "network" := by
  unfold collectSection at h
  split at h
  · exact absurd ((deviceSection_id host).symm.trans h) (by decide)
  · split at h
    · exact absurd ((storageSection_id host).symm.trans h) (by decide)
    · split at h
      · assumption
      · split at h
        · replace h : "runtimes" = "network" := h
          exact absurd h (by decide)
        · exact h

theorem networkSection_keys (host : Host) (authorized : List String) {key : String}
    (hk : (field, key) ∈ networkFacts) :
    key ∈ (collectNetworkSection host authorized).facts.map Prod.fst ↔ field ∈ authorized := by
  simp only [networkFacts, List.mem_cons, List.not_mem_nil, or_false, Prod.mk.injEq] at hk
  simp only [collectNetworkSection, List.map_append, List.mem_append, List.map_cons, List.map_nil,
    List.mem_cons, List.not_mem_nil, or_false]
  rcases hk with ⟨rfl, rfl⟩ | ⟨rfl, rfl⟩
  · by_cases hi : "network.local_ip" ∈ authorized <;>
      by_cases hm : "network.mac_address" ∈ authorized <;> simp [hi, hm]
  · by_cases hi : "network.local_ip" ∈ authorized <;>
      by_cases hm : "network.mac_address" ∈ authorized <;> simp [hi, hm]

/-- **a scan** shows the fields it was granted -/
theorem shows_scan (host : Host) {sections authorized : List String}
    (hauth : ∀ f ∈ authorized, f ∈ sensitiveFieldsForSections sections) :
    Shows (sections.map (collectSection host authorized)) field ↔ field ∈ authorized := by
  constructor
  · rintro ⟨key, hk, section_, hm, hid, hkey⟩
    obtain ⟨name, -, rfl⟩ := List.mem_map.mp hm
    obtain rfl := collectSection_network host authorized hid
    exact (networkSection_keys host authorized hk).mp hkey
  · intro hf
    have hfield := hauth field hf
    unfold sensitiveFieldsForSections at hfield
    split at hfield
    · rename_i hnetwork
      obtain ⟨key, hk⟩ : ∃ key, (field, key) ∈ networkFacts := by
        rcases List.mem_cons.mp hfield with rfl | hfield
        · exact ⟨_, List.mem_cons_self⟩
        · obtain rfl := List.mem_singleton.mp hfield
          exact ⟨_, List.mem_cons_of_mem _ List.mem_cons_self⟩
      exact ⟨key, hk, collectSection host authorized "network",
        List.mem_map.mpr ⟨"network", hnetwork, rfl⟩, rfl,
        (networkSection_keys host authorized hk).mpr hf⟩
    · exact absurd hfield List.not_mem_nil

theorem snapshotEvents_quiet (capabilityId ref : String) (snapshot : ClientEnvSnapshot) :
    ∀ e ∈ snapshotEvents capabilityId ref snapshot, e.quiet := by
  intro e he
  rcases List.mem_append.mp he with he | he
  · obtain rfl := List.mem_singleton.mp he
    exact ⟨rfl, rfl⟩
  · split at he
    · exact absurd he List.not_mem_nil
    · obtain rfl := List.mem_singleton.mp he
      exact ⟨rfl, rfl⟩

theorem storeSnapshot_ok (rt : Runtime) (host : Host) (sections authorized : List String)
    (s : ClientEnvState) :
    ∃ ref snapshot s', Ok (storeSnapshot rt host sections authorized) s (ref, snapshot) s' ∧
      Logs s s' ∧ snapshot.sections = sections.map (collectSection host authorized) :=
  ⟨_, _, _, rfl, ⟨⟨[], (List.append_nil _).symm, fun _ h => absurd h List.not_mem_nil⟩, rfl⟩, rfl⟩

theorem recordScan_ok (rt : Runtime) (host : Host) (capabilityId : String)
    (sections authorized : List String) (s : ClientEnvState) :
    ∃ receipt s', Ok (recordScan rt host capabilityId sections authorized) s receipt s' ∧
      Returns s s' (sections.map (collectSection host authorized)) := by
  obtain ⟨ref, snapshot, s1, h1, hlog1, hsections⟩ := storeSnapshot_ok rt host sections authorized s
  obtain ⟨s2, h2, hlog2⟩ := emitEvents_logs rt (snapshotEvents_quiet capabilityId ref snapshot) s1
  obtain ⟨receipt, s3, h3, hret⟩ :=
    processCapabilityReceipt_ok rt capabilityId "success" (.snapshot ref snapshot) s2
  refine ⟨receipt, s3, (bind_of_ok h1).trans ((bind_of_ok h2).trans h3), ?_⟩
  exact hsections ▸ (hlog1.trans hlog2).returns hret

theorem scan_ok (rt : Runtime) (host : Host) (capabilityId : String) (options : ClientEnvScanOptions)
    (s : ClientEnvState) :
    ∃ receipt s' sections, Ok (scan rt host capabilityId options) s receipt s' ∧
      Returns s s' sections ∧ ∀ field, Shows sections field ↔ field ∈ granted s options := by
  obtain ⟨result, s1, h1, hlog, hresult⟩ := authorize_ok s options
  unfold scan
  rcases hresult with ⟨rfl, hsub⟩ | ⟨⟨data, rfl⟩, hnone⟩
  · obtain ⟨receipt, s2, h2, hret⟩ :=
      recordScan_ok rt host capabilityId options.scanned (granted s options) s1
    exact ⟨receipt, s2, _, (bind_of_ok h1).trans h2, hlog.returns hret,
      fun field => shows_scan host hsub⟩
  · obtain ⟨receipt, s2, h2, hret⟩ :=
      processCapabilityReceipt_ok rt capabilityId "blocked" (.blocked data) s1
    refine ⟨receipt, s2, _, (bind_of_ok h1).trans h2, hlog.returns hret, fun field => ?_⟩
    rw [hnone]
    exact iff_of_false (fun ⟨_, _, _, hm, _⟩ => absurd hm List.not_mem_nil) List.not_mem_nil

/-! ## one call -/

/-- the log stays sound, and the receipts that the call returns, if any, keep to the approvals
exactly when it is timely -/
structure Steps (s : ClientEnvState) (c : Call) : Prop where
  sound : Sound (s.call c).events
  receipts : ∃ new, (s.call c).receipts = s.receipts ++ new ∧
    ((∀ m ∈ new, m.Disclosed) ↔ Timely s c)

theorem disclosed_of_returns {sections : List ClientEnvSection} (h : Sound s.events)
    (hret : Returns s s' sections) :
    ∃ m, s'.receipts = s.receipts ++ [m] ∧
      (m.Disclosed ↔ ∀ field, Shows sections field → Unexpired s.events s'.clock field) := by
  obtain ⟨l, hl, hq⟩ := hret.events
  obtain ⟨receipt, hreceipts, hsections⟩ := hret.receipts
  refine ⟨_, hreceipts, forall_congr' fun field => ?_⟩
  show (Shows receipt.data.sections field → ∃ a, Covers s'.events field a ∧ _) ↔ _
  rw [hsections, hl, ← unexpired_iff (h.quiet hq), unexpired_quiet hq]

theorem steps_of_returns {c : Call} {sections : List ClientEnvSection} (h : Sound s.events)
    (hret : Returns s (s.call c) sections)
    (htimely : Timely s c ↔
      ∀ field, Shows sections field → Unexpired s.events (s.call c).clock field) : Steps s c := by
  obtain ⟨l, hl, hq⟩ := hret.events
  obtain ⟨m, hm, hd⟩ := disclosed_of_returns h hret
  refine ⟨hl ▸ h.quiet hq, [m], hm, ?_⟩
  rw [List.forall_mem_singleton, hd, htimely]

theorem steps_of_none {c : Call} (hs : Sound (s.call c).events)
    (hreceipts : (s.call c).receipts = s.receipts) (htimely : Timely s c) : Steps s c :=
  ⟨hs, [], hreceipts.trans (List.append_nil _).symm,
    iff_of_true (fun _ h => absurd h List.not_mem_nil) htimely⟩

theorem steps_of_blank {c : Call} {s1 : ClientEnvState} (h : Sound s1.events)
    (hreceipts : s1.receipts = s.receipts) (hret : Returns s1 (s.call c) []) (ht : Timely s c) :
    Steps s c := by
  obtain ⟨l, hl, hq⟩ := hret.events
  obtain ⟨m, hm, hd⟩ := disclosed_of_returns h hret
  refine ⟨hl ▸ h.quiet hq, [m], hreceipts ▸ hm, ?_⟩
  rw [List.forall_mem_singleton, hd]
  exact iff_of_true (fun _ ⟨_, _, _, hmem, _⟩ => absurd hmem List.not_mem_nil) ht

theorem request_steps (h : Sound s.events) (rt : Runtime) (fields : List String) (reason : String) :
    Steps s (.request rt fields reason) := by
  have hcall : s.call (.request rt fields reason) =
      final (requestSensitiveDisclosure rt fields reason) s := rfl
  cases htime : timeToJson (s.nextReading + disclosureTtlMs) with
  | error e =>
    have herr : Err (requestSensitiveDisclosure rt fields reason) s e
        { s with clock := s.nextReading, delays := s.delays.tail } := by
      refine (bind_of_ok (nowMs_ok s)).trans (bind_of_err ?_)
      exact lift_err.mpr ⟨htime, rfl⟩
    rw [final_of_err herr] at hcall
    exact steps_of_none (hcall ▸ h) (hcall ▸ rfl) trivial
  | ok expires =>
    obtain ⟨s1, h1, hevents, hreceipts⟩ := emitEvents_ok rt
      [.requested (disclosureRequest rt fields reason s.nextReading)]
      { s with clock := s.nextReading, delays := s.delays.tail }
    obtain ⟨receipt, s2, h2, hret⟩ := processCapabilityReceipt_ok rt
      "client_env.request_sensitive_disclosure" "blocked"
      (.requested (disclosureRequest rt fields reason s.nextReading)) s1
    have hok : Ok (requestSensitiveDisclosure rt fields reason) s receipt s2 := by
      exact (bind_of_ok (nowMs_ok s)).trans
        ((bind_of_ok (lift_ok.mpr ⟨htime, rfl⟩)).trans ((bind_of_ok h1).trans h2))
    rw [final_of_ok hok] at hcall
    refine steps_of_blank ?_ hreceipts (hcall ▸ hret) trivial
    rcases hevents with he | he
    · exact he ▸ h.request
    · exact he ▸ h

theorem checkAllowedFields_subset {request : ClientEnvDisclosureRequest} {fields allowed : List String}
    (h : checkAllowedFields request fields = .ok allowed) :
    ∀ f ∈ allowed, f ∈ request.requestedFields := by
  unfold checkAllowedFields at h
  dsimp only at h
  split at h
  · cases h
  · split at h
    · cases h
    · rename_i hscope
      cases h
      intro f hf
      by_contra hout
      have := List.filter_eq_nil_iff.mp (not_not.mp hscope) f hf
      exact this (decide_eq_true hout)

theorem approve_steps (h : Sound s.events) (requestId : String) (fields : List String)
    (note : String) : Steps s (.approve requestId fields note) := by
  have hends : Ends (approveSensitiveDisclosure requestId fields note) s
      (fun _ s' => Sound s'.events ∧ s'.receipts = s.receipts)
      (fun s' => Sound s'.events ∧ s'.receipts = s.receipts) := by
    refine Ends.bind (Q := fun now s1 => Sound s1.events ∧ s1.receipts = s.receipts) ⟨h, rfl⟩ ?_
    rintro now s1 ⟨h1, hr1⟩
    refine Ends.get_bind (Ends.bind (Ends.lift (fun request hp => ⟨hp, rfl⟩) fun _ _ => ⟨h1, hr1⟩)
      (Q := fun request s2 =>
        pendingDisclosureRequestForApproval s1.events requestId now = .ok request ∧ s2 = s1) ?_)
    rintro request s2 ⟨hp, rfl⟩
    refine Ends.bind (Ends.lift (fun allowed ha => ⟨ha, rfl⟩) fun _ _ => ⟨h1, hr1⟩)
      (Q := fun allowed s3 => checkAllowedFields request fields = .ok allowed ∧ s3 = s2) ?_
    rintro allowed s3 ⟨ha, rfl⟩
    refine Ends.bind (Ends.lift (fun _ _ => rfl) fun _ _ => ⟨h1, hr1⟩)
      (Q := fun _ s4 => s4 = s3) ?_
    rintro expiresAt s4 rfl
    refine Ends.bind (Q := fun _ s5 => Sound s5.events ∧ s5.receipts = s.receipts) ?_ fun _ _ h5 =>
      Ends.pure h5
    exact ⟨Sound.approve h1 hp rfl (checkAllowedFields_subset ha), hr1⟩
  obtain ⟨hs, hr⟩ := hends.final
  exact steps_of_none hs hr trivial

theorem reject_steps (h : Sound s.events) (requestId reason : String) :
    Steps s (.reject requestId reason) := steps_of_none h.reject rfl trivial

theorem scan_steps (h : Sound s.events) (rt : Runtime) (host : Host) (kind : ScanKind)
    (options : ClientEnvScanOptions) : Steps s (.scan rt host kind options) := by
  obtain ⟨receipt, s1, sections, hok, hret, hshows⟩ :=
    scan_ok rt host (kind.call options).1 (kind.call options).2 s
  have hcall : s.call (.scan rt host kind options) = s1 := final_of_ok hok
  refine steps_of_returns h (hcall ▸ hret) (forall_congr' fun field => ?_)
  rw [hshows]

theorem read_steps (h : Sound s.events) (rt : Runtime) (ref : String) (offset limit : Nat) :
    Steps s (.readSnapshot rt ref offset limit) := by
  cases hfind : findSnapshot rt s.blobs ref with
  | error e =>
    have herr : Err (readSnapshot rt ref offset limit) s e s :=
      (bind_of_ok (get_apply s)).trans (bind_of_err (lift_err.mpr ⟨hfind, rfl⟩))
    have hcall : s.call (.readSnapshot rt ref offset limit) = s := final_of_err herr
    refine steps_of_none (hcall.symm ▸ h) (hcall.symm ▸ rfl) ?_
    rintro field ⟨_, _, _, hm, _⟩
    rw [pageOf, hfind] at hm
    exact absurd hm List.not_mem_nil
  | ok snapshot =>
    obtain ⟨receipt, s1, h1, hret⟩ := processCapabilityReceipt_ok rt "client_env.read_snapshot"
      "success" (.page ref snapshot offset (min (max limit 1) 50) snapshot.sections.length
        ((snapshot.sections.drop offset).take (min (max limit 1) 50))) s
    have hok : Ok (readSnapshot rt ref offset limit) s receipt s1 :=
      (bind_of_ok (get_apply s)).trans ((bind_of_ok (lift_ok.mpr ⟨hfind, rfl⟩)).trans h1)
    have hcall : s.call (.readSnapshot rt ref offset limit) = s1 := final_of_ok hok
    refine steps_of_returns h (hcall ▸ hret) ?_
    show (∀ field, Shows (pageOf rt s ref offset limit) field → _) ↔ _
    rw [pageOf, hfind]
    rfl

/-- **one call** -/
theorem call_steps (h : Sound s.events) (c : Call) : Steps s c := by
  cases c with
  | request rt fields reason => exact request_steps h rt fields reason
  | approve requestId fields note => exact approve_steps h requestId fields note
  | reject requestId reason => exact reject_steps h requestId reason
  | scan rt host kind options => exact scan_steps h rt host kind options
  | readSnapshot rt ref offset limit => exact read_steps h rt ref offset limit

/-! ## runs -/

/-- **any calls** -/
theorem calls_steps (calls : List Call) : ∀ s : ClientEnvState, Sound s.events →
    Sound (s.calls calls).events ∧ ∃ new, (s.calls calls).receipts = s.receipts ++ new ∧
      ((∀ m ∈ new, m.Disclosed) ↔ AllTimely s calls) := by
  induction calls with
  | nil =>
    exact fun s h => ⟨h, [], (List.append_nil _).symm,
      iff_of_true (fun _ h => absurd h List.not_mem_nil) trivial⟩
  | cons c calls ih =>
    intro s h
    obtain ⟨hs, new, hnew, hd⟩ := call_steps h c
    obtain ⟨hs', new', hnew', hd'⟩ := ih (s.call c) hs
    refine ⟨hs', new ++ new', ?_, ?_⟩
    · rw [← List.append_assoc, ← hnew]
      exact hnew'
    · rw [List.forall_mem_append, hd, hd']
      rfl

/-- no log yet; the clock, and how long it takes from one reading to the next -/
def ClientEnvState.start (clock : Nat) (delays : List Nat) : ClientEnvState :=
  ⟨clock, delays, [], [], []⟩

theorem sound_nil : Sound [] where
  recorded l _ _ h := absurd h.symm (by cases l <;> exact List.cons_ne_nil _ _)
  resolvedOnce l _ _ h := absurd h.symm (by cases l <;> exact List.cons_ne_nil _ _)

/-- **disclosure**: after any calls under any clock, every receipt shows sensitive network fields only
under an approval that is not expired, and no request is approved twice, exactly when no scan and no
read of a snapshot outlasts the approvals of the fields that it shows -/
theorem disclosure_iff (clock : Nat) (delays : List Nat) (calls : List Call) :
    ((∀ m ∈ ((ClientEnvState.start clock delays).calls calls).receipts, m.Disclosed) ∧
      ResolvedOnce ((ClientEnvState.start clock delays).calls calls).events) ↔
    AllTimely (ClientEnvState.start clock delays) calls := by
  obtain ⟨hs, new, hnew, hd⟩ := calls_steps calls (ClientEnvState.start clock delays) sound_nil
  rw [hnew, ← hd]
  exact and_iff_left hs.resolvedOnce

/-! ## a snapshot that is read after the approval -/

def sampleRuntime : Runtime := ⟨"job_1", "pid_1", true⟩

def sampleHost : Host where
  deviceFacts := []
  memoryTotalBucket := none
  volumeBuckets := none
  loopbackBindAvailable := true
  localhostResolutionAvailable := true
  localIps := ["192.168.0.7"]
  macAddresses := []
  runtimeFacts := []

def sampleRef : String := "blob://job_1/client_env/client_env_snapshot_pid_1_0_0.json"

/-- a request, its approval, a scan with it, and a read of the snapshot of the scan -/
def sampleCalls : List Call :=
  [.request sampleRuntime ["network.local_ip"] "report",
    .approve "client_env_disclosure_pid_1_0" ["network.local_ip"] "for the report",
    .scan sampleRuntime sampleHost .network
      { includeSensitiveFields := true
        authorizationId := some "client_env_auth_client_env_disclosure_pid_1_0_0" },
    .readSnapshot sampleRuntime sampleRef 0 20]

/-- the first readings of the clock are at once, and an hour passes before the read -/
def sampleDelays : List Nat := List.replicate 14 0 ++ [3600000]

def scannedState : ClientEnvState :=
  (ClientEnvState.start 0 sampleDelays).calls (sampleCalls.take 3)

theorem scanned_page :
    (pageOf sampleRuntime scannedState sampleRef 0 20).any (fun section_ =>
      section_.sectionId == "network" && (section_.facts.map Prod.fst).contains "local_ip") ∧
    (scannedState.events.all fun e =>
      match e with
      | .approved a => a.expiresAtUnixMs < 3600000
      | _ => true) ∧
    (scannedState.call (.readSnapshot sampleRuntime sampleRef 0 20)).clock = 3600000 := by
  decide +kernel

/-- the approval expired after ten minutes, and the snapshot still shows the address after an hour -/
theorem expired_snapshot_read :
    ¬ ∀ m ∈ ((ClientEnvState.start 0 sampleDelays).calls sampleCalls).receipts, m.Disclosed := by
  obtain ⟨-, new, hnew, hd⟩ := calls_steps sampleCalls (ClientEnvState.start 0 sampleDelays) sound_nil
  obtain ⟨hpage, hexpired, hclock⟩ := scanned_page
  intro h
  rw [hnew] at h
  have hread : Timely scannedState (.readSnapshot sampleRuntime sampleRef 0 20) :=
    (hd.mp h).2.2.2.1
  obtain ⟨section_, hm, hs⟩ := List.any_eq_true.mp hpage
  rw [Bool.and_eq_true, beq_iff_eq, List.contains_iff_mem] at hs
  obtain ⟨a, ha, -, hle⟩ := hread "network.local_ip"
    ⟨"local_ip", List.mem_cons_self, section_, hm, hs⟩
  have hlt := List.all_eq_true.mp hexpired _ ha
  rw [hclock] at hle
  exact absurd (of_decide_eq_true hlt) (Nat.not_lt.mpr hle)

end ClientEnv

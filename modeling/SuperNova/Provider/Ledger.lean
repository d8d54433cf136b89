import SuperNova.Lib.Io
import SuperNova.Lib.Torn
import Mathlib.Data.List.Sublists

/-!
# The model-call ledger

The receipts of all model calls of a job are one JSON document.  A call reads the document, adds its
receipt, and writes it again; a document that cannot be parsed counts as empty.

* `finished_kept` (**main**): as long as no write breaks off between two characters after a call was
  finished, each later call that is finished finds the finished ones in the ledger, in order and once;
* `torn_write_forgets`: a write that breaks off, and the call after it.
-/

set_option linter.unusedSectionVars false

namespace Ledger

open Io Torn

/-! ## data -/

inductive ModelFailurePolicy where
  | failClosed
  | other
  deriving DecidableEq

/-- the fields of a receipt that decide something here -/
structure ModelCallReceipt where
  modelCallId : String
  status : String
  ledgerRef : Option String
  required : Bool
  failurePolicy : ModelFailurePolicy
  deriving DecidableEq

structure ModelCallLedger where
  jobId : String
  ledgerRef : String
  entries : List ModelCallReceipt
  deriving DecidableEq

/-- the JSON library: a ledger as text, and a text as a ledger or as a list of receipts -/
structure LedgerJson where
  render : ModelCallLedger → List Char
  parseLedger : List Char → Option ModelCallLedger
  parseEntries : List Char → Option (List ModelCallReceipt)

/-- how a call goes: what it returned to record, and which of its steps fails; a write breaks off after
some bytes, and of the events some are appended -/
structure Call where
  receipt : ModelCallReceipt
  directoryFails : Bool := false
  readFails : Bool := false
  openFails : Bool := false
  writeStops : Option Nat := none
  eventStops : Option Nat := none

/-- the ledger file, the events, the receipts of the calls that were finished, and of all calls -/
structure State where
  file : Option Content
  events : List String
  finished : List ModelCallReceipt
  called : List ModelCallReceipt

abbrev LedgerM := EStateM String State

variable (json : LedgerJson) (jobId : String)

/-! ## the ledger file -/

def ledgerRef : String := "model_ledger://" ++ jobId ++ "/model_call_ledger.json"

/-- `finish_model_call` puts the ref of the ledger into the receipt -/
def Call.recorded (c : Call) : ModelCallReceipt :=
  { c.receipt with ledgerRef := some (ledgerRef jobId) }

/-- the entries of a text: of a ledger, of the list of receipts that a ledger once was, or none -/
def entriesOf (text : List Char) : List ModelCallReceipt :=
  match json.parseLedger text with
  | some ledger => ledger.entries
  | none => (json.parseEntries text).getD []

/-- the entries that `write_model_call_ledger` starts from -/
def readEntries (c : Call) (file : Option Content) : Except String (List ModelCallReceipt) :=
  match file with
  | none => .ok []
  | some content =>
    if c.readFails then .error "the ledger cannot be opened"
    else
      match content.read? with
      | none => .error "the ledger is not valid UTF-8"
      | some text => .ok (entriesOf json text)

def textOf (entries : List ModelCallReceipt) : List Char :=
  json.render ⟨jobId, ledgerRef jobId, entries⟩

/-- `fs::write` of the ledger -/
def writeText (c : Call) (text : List Char) : LedgerM Unit :=
  if c.openFails then throw "the ledger cannot be opened"
  else
    match c.writeStops with
    | none => modify fun s => { s with file := some (whole text) }
    | some bytes => do
      modify fun s => { s with file := some (cut text bytes) }
      throw "the ledger cannot be written"

def writeModelCallLedger (c : Call) : LedgerM Unit := do
  if c.directoryFails then throw "the ledger directory cannot be created"
  else do
    let s ← get
    let entries ← lift (readEntries json c s.file)
    writeText c (textOf json jobId (entries ++ [c.recorded jobId]))

/-- the types of the events of a finished call -/
def finishEvents (receipt : ModelCallReceipt) : List String :=
  [if receipt.status = "success" then "model_call_completed"
    else if receipt.status = "blocked" then "model_call_blocked"
    else "model_call_failed",
    "model_call_ledger", "model_call_receipt", "capability_receipt"] ++
  if receipt.status ≠ "success" ∧ (receipt.required ∨ receipt.failurePolicy = .failClosed) then
    ["required_model_operation_failed"]
  else []

/-- the events, up to the first that cannot be appended -/
def appendEvents (c : Call) (events : List String) : LedgerM Unit := do
  modify fun s => { s with events := s.events ++ (c.eventStops.elim events fun n => events.take n) }
  if c.eventStops.any (· < events.length) then throw "an event cannot be appended" else pure ()

def finishModelCall (c : Call) : LedgerM Unit := do
  writeModelCallLedger json jobId c
  appendEvents c (finishEvents c.receipt)

/-! ## runs -/

/-- a call, and whether it was finished -/
def State.call (s : State) (c : Call) : State :=
  match finishModelCall json jobId c s with
  | .ok _ s' =>
    { s' with
      finished := s.finished ++ [c.recorded jobId]
      called := s.called ++ [c.recorded jobId] }
  | .error _ s' => { s' with called := s.called ++ [c.recorded jobId] }

def State.calls (s : State) (calls : List Call) : State := calls.foldl (State.call json jobId) s

def Finishes (s : State) (c : Call) : Prop := ∃ s', Ok (finishModelCall json jobId c) s () s'

/-- before the first call -/
def State.start : State := ⟨none, [], [], []⟩

/-! ## what is promised -/

def ledgerEntries (file : Option Content) : Option (List ModelCallReceipt) :=
  ((file.bind Content.read?).bind json.parseLedger).map (·.entries)

/-- the finished calls are in the ledger, in order, and no call is in it twice -/
def Kept (s : State) : Prop :=
  ∃ entries, ledgerEntries json s.file = some entries ∧ s.finished.Sublist entries ∧
    entries.Sublist s.called

/-- for the ledgers that some calls can make: what was written is read back, and a text that breaks
off, which lacks the last bracket, is not a document -/
structure LedgerJson.Faithful (receipts : List ModelCallReceipt) : Prop where
  parse_render : ∀ entries, entries.Sublist receipts →
    json.parseLedger (textOf json jobId entries) = some ⟨jobId, ledgerRef jobId, entries⟩
  parse_part : ∀ entries, entries.Sublist receipts → ∀ part, part <+: textOf json jobId entries →
    part ≠ textOf json jobId entries →
      json.parseLedger part = none ∧ json.parseEntries part = none

/-- the write does not break off, breaks off inside a character or after the whole text, or nothing
was finished before it -/
def Harmless (s : State) (c : Call) : Prop :=
  ∀ bytes, c.writeStops = some bytes → ∀ entries, readEntries json c s.file = .ok entries →
    s.finished = [] ∨ ∀ part,
      (cut (textOf json jobId (entries ++ [c.recorded jobId])) bytes).read? = some part →
        part = textOf json jobId (entries ++ [c.recorded jobId])

def AllHarmless (s : State) : List Call → Prop
  | [] => True
  | c :: calls => Harmless json jobId s c ∧ AllHarmless (s.call json jobId c) calls

/-! ## one call -/

variable {json jobId} {s : State} {c : Call} {receipts entries : List ModelCallReceipt}

/-- a call that stops before it writes -/
structure Stops (json : LedgerJson) (jobId : String) (s : State) (c : Call) : Prop where
  file : (s.call json jobId c).file = s.file
  finished : (s.call json jobId c).finished = s.finished
  failed : ¬ Finishes json jobId s c

/-- a call whose write breaks off -/
structure Breaks (json : LedgerJson) (jobId : String) (s : State) (c : Call)
    (entries : List ModelCallReceipt) (bytes : Nat) : Prop where
  read : readEntries json c s.file = .ok entries
  stops : c.writeStops = some bytes
  file : (s.call json jobId c).file =
    some (cut (textOf json jobId (entries ++ [c.recorded jobId])) bytes)
  finished : (s.call json jobId c).finished = s.finished
  failed : ¬ Finishes json jobId s c

/-- a call that writes the ledger, finished or not -/
structure Writes (json : LedgerJson) (jobId : String) (s : State) (c : Call)
    (entries : List ModelCallReceipt) : Prop where
  read : readEntries json c s.file = .ok entries
  file : (s.call json jobId c).file =
    some (whole (textOf json jobId (entries ++ [c.recorded jobId])))
  finished : (s.call json jobId c).finished = s.finished ∨
    (s.call json jobId c).finished = s.finished ++ [c.recorded jobId]

theorem call_of_ok {s' : State} (h : Ok (finishModelCall json jobId c) s () s') :
    s.call json jobId c = { s' with
      finished := s.finished ++ [c.recorded jobId]
      called := s.called ++ [c.recorded jobId] } := by
  rw [State.call, h]

theorem call_of_err {e : String} {s' : State} (h : Err (finishModelCall json jobId c) s e s') :
    s.call json jobId c = { s' with called := s.called ++ [c.recorded jobId] } := by
  rw [State.call, h]

theorem not_finishes {e : String} {s' : State} (h : Err (finishModelCall json jobId c) s e s') :
    ¬ Finishes json jobId s c := by
  rintro ⟨s1, h1⟩
  cases h.symm.trans h1

theorem stops_of_err {e : String} (h : Err (writeModelCallLedger json jobId c) s e s) :
    Stops json jobId s c := by
  have herr : Err (finishModelCall json jobId c) s e s := bind_of_err h
  have hcall := call_of_err herr
  exact ⟨hcall ▸ rfl, hcall ▸ rfl, not_finishes herr⟩

theorem appendEvents_cases (c : Call) (events : List String) (s : State) :
    ∃ s', (Ok (appendEvents c events) s () s' ∨ ∃ e, Err (appendEvents c events) s e s') ∧
      s'.file = s.file ∧ s'.finished = s.finished := by
  unfold appendEvents
  by_cases hstop : c.eventStops.any (· < events.length)
  · refine ⟨{ s with events := s.events ++ (c.eventStops.elim events fun n => events.take n) },
      Or.inr ⟨"an event cannot be appended", ?_⟩, rfl, rfl⟩
    rw [if_pos hstop]
    rfl
  · refine ⟨{ s with events := s.events ++ (c.eventStops.elim events fun n => events.take n) },
      Or.inl ?_, rfl, rfl⟩
    rw [if_neg hstop]
    rfl

/-- **what a call does** -/
theorem call_cases (json : LedgerJson) (jobId : String) (s : State) (c : Call) :
    Stops json jobId s c ∨ (∃ entries bytes, Breaks json jobId s c entries bytes) ∨
      ∃ entries, Writes json jobId s c entries := by
  by_cases hdir : c.directoryFails
  · refine Or.inl (stops_of_err (e := "the ledger directory cannot be created") ?_)
    unfold writeModelCallLedger Err
    rw [if_pos hdir]
    rfl
  have hwrite : writeModelCallLedger json jobId c s = (lift (readEntries json c s.file) >>=
      fun entries => writeText c (textOf json jobId (entries ++ [c.recorded jobId]))) s := by
    unfold writeModelCallLedger
    rw [if_neg hdir]
    rfl
  cases hread : readEntries json c s.file with
  | error e =>
    refine Or.inl (stops_of_err (e := e) (hwrite.trans (bind_of_err ?_)))
    exact lift_err.mpr ⟨hread, rfl⟩
  | ok entries =>
    rw [bind_of_ok (lift_ok.mpr ⟨hread, rfl⟩)] at hwrite
    unfold writeText at hwrite
    by_cases hopen : c.openFails
    · rw [if_pos hopen] at hwrite
      exact Or.inl (stops_of_err hwrite)
    rw [if_neg hopen] at hwrite
    right
    cases hstops : c.writeStops with
    | some bytes =>
      rw [hstops] at hwrite
      have herr := bind_of_err (f := fun _ => appendEvents c (finishEvents c.receipt)) hwrite
      have hcall := call_of_err herr
      exact Or.inl ⟨entries, bytes, hread, hstops, hcall ▸ rfl, hcall ▸ rfl, not_finishes herr⟩
    | none =>
      rw [hstops] at hwrite
      obtain ⟨s', hevents, hfile, hfinished⟩ := appendEvents_cases c (finishEvents c.receipt)
        { s with file := some (whole (textOf json jobId (entries ++ [c.recorded jobId]))) }
      refine Or.inr ⟨entries, ?_⟩
      rcases hevents with hok | ⟨e, herr⟩
      · have hcall := call_of_ok ((bind_of_ok hwrite).trans hok)
        exact ⟨hread, hcall ▸ hfile, Or.inr (hcall ▸ rfl)⟩
      · have hcall := call_of_err ((bind_of_ok hwrite).trans herr)
        exact ⟨hread, hcall ▸ hfile, Or.inl (hcall ▸ hfinished)⟩

theorem called_call (json : LedgerJson) (jobId : String) (s : State) (c : Call) :
    (s.call json jobId c).called = s.called ++ [c.recorded jobId] := by
  unfold State.call
  split <;> rfl

theorem called_calls (json : LedgerJson) (jobId : String) (calls : List Call) : ∀ s : State,
    (s.calls json jobId calls).called = s.called ++ calls.map (Call.recorded jobId) := by
  induction calls with
  | nil => exact fun s => (List.append_nil _).symm
  | cons c calls ih =>
    intro s
    refine (ih (s.call json jobId c)).trans ?_
    rw [called_call, List.append_assoc]
    rfl

/-! ## runs of harmless writes -/

/-- the ledger file between two calls -/
inductive Good (json : LedgerJson) (jobId : String) (s : State) : Prop
  | none (file : s.file = none) (finished : s.finished = [])
  | whole (entries : List ModelCallReceipt)
      (file : s.file = some (whole (textOf json jobId entries)))
      (finished : s.finished.Sublist entries) (called : entries.Sublist s.called)
  | broken (content : Content) (file : s.file = some content) (read : content.read? = none)
  | part (text : List Char) (file : s.file = some (Torn.whole text))
      (empty : entriesOf json text = []) (finished : s.finished = [])

theorem Good.start : Good json jobId State.start := .none rfl rfl

theorem Good.read (h : Good json jobId s) (hfaith : json.Faithful jobId receipts)
    (hcalled : s.called.Sublist receipts) (hread : readEntries json c s.file = .ok entries) :
    s.finished.Sublist entries ∧ entries.Sublist s.called := by
  unfold readEntries at hread
  cases h with
  | none file finished =>
    rw [file] at hread
    cases hread
    exact ⟨finished ▸ List.Sublist.refl _, List.nil_sublist _⟩
  | whole written file finished called =>
    rw [file] at hread
    dsimp only at hread
    split at hread
    · cases hread
    · rw [read_whole] at hread
      have : entriesOf json (textOf json jobId written) = written := by
        rw [entriesOf, hfaith.parse_render written (called.trans hcalled)]
      rw [← Except.ok.inj hread, this]
      exact ⟨finished, called⟩
  | broken content file read =>
    rw [file] at hread
    dsimp only at hread
    rw [read] at hread
    split at hread <;> cases hread
  | part text file empty finished =>
    rw [file] at hread
    dsimp only at hread
    split at hread
    · cases hread
    · rw [read_whole] at hread
      rw [← Except.ok.inj hread, empty, finished]
      exact ⟨List.Sublist.refl _, List.nil_sublist _⟩

theorem Good.call (h : Good json jobId s) (hfaith : json.Faithful jobId receipts)
    (hcalled : (s.called ++ [c.recorded jobId]).Sublist receipts)
    (hharmless : Harmless json jobId s c) : Good json jobId (s.call json jobId c) := by
  have hbefore := (List.sublist_append_left ..).trans hcalled
  rcases call_cases json jobId s c with
    hstops | ⟨entries, bytes, hbreaks⟩ | ⟨entries, hwrites⟩
  · cases h with
    | none file finished => exact .none (hstops.file.trans file) (hstops.finished.trans finished)
    | whole entries file finished called =>
      refine .whole entries (hstops.file.trans file) (hstops.finished ▸ finished) ?_
      rw [called_call]
      exact called.trans (List.sublist_append_left ..)
    | broken content file read => exact .broken content (hstops.file.trans file) read
    | part text file empty finished =>
      exact .part text (hstops.file.trans file) empty (hstops.finished.trans finished)
  · obtain ⟨hfinished, hentries⟩ := h.read hfaith hbefore hbreaks.read
    cases hread : (cut (textOf json jobId (entries ++ [c.recorded jobId])) bytes).read? with
    | none => exact .broken _ hbreaks.file hread
    | some part =>
      have hfile := hbreaks.file.trans (congrArg some (eq_whole_of_read hread))
      have hadded : (entries ++ [c.recorded jobId]).Sublist (s.call json jobId c).called := by
        rw [called_call]
        exact hentries.append (List.Sublist.refl _)
      by_cases hpart : part = textOf json jobId (entries ++ [c.recorded jobId])
      · refine .whole _ (hpart ▸ hfile) ?_ hadded
        rw [hbreaks.finished]
        exact hfinished.trans (List.sublist_append_left ..)
      · rcases hharmless bytes hbreaks.stops entries hbreaks.read with hnone | hall
        · obtain ⟨hledger, hold⟩ := hfaith.parse_part _
            (hadded.trans (called_call json jobId s c ▸ hcalled)) part (read_cut hread) hpart
          refine .part part hfile ?_ (hbreaks.finished.trans hnone)
          rw [entriesOf, hledger, hold]
          rfl
        · exact absurd (hall part hread) hpart
  · obtain ⟨hfinished, hentries⟩ := h.read hfaith hbefore hwrites.read
    refine .whole _ hwrites.file ?_ ?_
    · rcases hwrites.finished with heq | heq
      · rw [heq]
        exact hfinished.trans (List.sublist_append_left ..)
      · rw [heq]
        exact hfinished.append (List.Sublist.refl _)
    · rw [called_call]
      exact hentries.append (List.Sublist.refl _)

theorem Good.calls (hfaith : json.Faithful jobId receipts) (calls : List Call) :
    ∀ s : State, Good json jobId s →
      (s.called ++ calls.map (Call.recorded jobId)).Sublist receipts →
      AllHarmless json jobId s calls → Good json jobId (s.calls json jobId calls) := by
  induction calls with
  | nil => exact fun s h _ _ => h
  | cons c calls ih =>
    intro s h hcalled hharmless
    rw [List.map_cons, List.append_cons] at hcalled
    refine ih (s.call json jobId c) (h.call hfaith ?_ hharmless.1) ?_ hharmless.2
    · exact (List.sublist_append_left ..).trans hcalled
    · rw [called_call]
      exact hcalled

theorem writes_of_finishes (h : Finishes json jobId s c) :
    ∃ entries, Writes json jobId s c entries ∧
      (s.call json jobId c).finished = s.finished ++ [c.recorded jobId] := by
  obtain ⟨s', hok⟩ := h
  rcases call_cases json jobId s c with
    hstops | ⟨entries, bytes, hbreaks⟩ | ⟨entries, hwrites⟩
  · exact absurd ⟨s', hok⟩ hstops.failed
  · exact absurd ⟨s', hok⟩ hbreaks.failed
  · exact ⟨entries, hwrites, call_of_ok hok ▸ rfl⟩

/-- **while every write is harmless, each call that is finished finds the finished ones in the
ledger, in order and once** -/
theorem finished_kept (json : LedgerJson) (jobId : String) (before : List Call) (c : Call)
    (hfaith : json.Faithful jobId ((before ++ [c]).map (Call.recorded jobId)))
    (hharmless : AllHarmless json jobId State.start before)
    (hfinishes : Finishes json jobId (State.start.calls json jobId before) c) :
    Kept json (State.start.calls json jobId (before ++ [c])) := by
  have hcalled := called_calls json jobId before State.start
  rw [List.map_append] at hfaith
  have hgood : Good json jobId (State.start.calls json jobId before) :=
    Good.calls hfaith before State.start Good.start (List.sublist_append_left ..) hharmless
  have hbefore : (State.start.calls json jobId before).called.Sublist
      (before.map (Call.recorded jobId) ++ [c].map (Call.recorded jobId)) :=
    hcalled ▸ List.sublist_append_left ..
  obtain ⟨entries, hwrites, hfinished⟩ := writes_of_finishes hfinishes
  obtain ⟨hkept, hentries⟩ := hgood.read hfaith hbefore hwrites.read
  have hadded : (entries ++ [c.recorded jobId]).Sublist
      (before.map (Call.recorded jobId) ++ [c].map (Call.recorded jobId)) :=
    (hcalled ▸ hentries).append (List.Sublist.refl _)
  rw [State.calls, List.foldl_append]
  refine ⟨entries ++ [c.recorded jobId], ?_, ?_, ?_⟩
  · exact (congrArg (fun f => ledgerEntries json f) hwrites.file).trans
      (congrArg (Option.map _) (hfaith.parse_render _ hadded))
  · exact hfinished ▸ hkept.append (List.Sublist.refl _)
  · exact called_call json jobId _ c ▸ hentries.append (List.Sublist.refl _)

/-! ## two runs -/

def prettyReceipt (r : ModelCallReceipt) : List Char :=
  "    \x7b\n      \"model_call_id\": \"".toList ++ r.modelCallId.toList ++
  "\",\n      \"status\": \"".toList ++ r.status.toList ++
  "\",\n      \"ledger_ref\": ".toList ++
    (r.ledgerRef.elim "null".toList fun ref => '"' :: ref.toList ++ ['"']) ++
  ",\n      \"required\": ".toList ++ (if r.required then "true".toList else "false".toList) ++
  ",\n      \"failure_policy\": \"".toList ++
    (if r.failurePolicy = .failClosed then "fail_closed".toList else "degraded".toList) ++
  "\"\n    \x7d".toList

def prettyLedger (ledger : ModelCallLedger) : List Char :=
  "\x7b\n  \"job_id\": \"".toList ++ ledger.jobId.toList ++
  "\",\n  \"ledger_ref\": \"".toList ++ ledger.ledgerRef.toList ++
  "\",\n  \"entries\": [\n".toList ++
    [',', '\n'].intercalate (ledger.entries.map prettyReceipt) ++
  "\n  ]\n\x7d".toList

/-- a JSON library that knows some ledgers -/
def knownJson (known : List ModelCallLedger) : LedgerJson where
  render := prettyLedger
  parseLedger text := known.find? fun ledger => prettyLedger ledger = text
  parseEntries _ := none

theorem knownJson_faithful {known : List ModelCallLedger}
    (hknown : ∀ entries ∈ receipts.sublists, ⟨jobId, ledgerRef jobId, entries⟩ ∈ known)
    (hparts : ∀ a ∈ known, ∀ b ∈ known, prettyLedger a <+: prettyLedger b → a = b) :
    (knownJson known).Faithful jobId receipts where
  parse_render entries hentries := by
    have hmem := hknown entries (List.mem_sublists.mpr hentries)
    cases hfind : (knownJson known).parseLedger (textOf (knownJson known) jobId entries) with
    | none =>
      have := List.find?_eq_none.mp hfind _ hmem
      exact absurd rfl (of_decide_eq_false (Bool.eq_false_iff.mpr this))
    | some ledger =>
      have hfound : known.find? (fun ledger => prettyLedger ledger =
        textOf (knownJson known) jobId entries) = some ledger := hfind
      have heq := List.find?_some hfound
      rw [decide_eq_true_eq] at heq
      exact congrArg some
        (hparts _ (List.mem_of_find?_eq_some hfind) _ hmem (heq ▸ List.prefix_rfl))
  parse_part entries hentries part hprefix hpart := by
    have hmem := hknown entries (List.mem_sublists.mpr hentries)
    refine ⟨List.find?_eq_none.mpr fun ledger hledger heq => hpart ?_, rfl⟩
    have heq := of_decide_eq_true heq
    rw [← heq]
    exact congrArg prettyLedger (hparts _ hledger _ hmem (heq ▸ hprefix))

def callNamed (id : String) : Call :=
  { receipt := ⟨id, "success", none, true, .failClosed⟩ }

def recordedNamed (id : String) : ModelCallReceipt := (callNamed id).recorded "job"

/-- the ledgers with some of three receipts -/
def threeKnown : List ModelCallLedger :=
  ([recordedNamed "m1", recordedNamed "m2", recordedNamed "m3"].sublists).map fun entries =>
    ⟨"job", ledgerRef "job", entries⟩

theorem threeKnown_faithful : (knownJson threeKnown).Faithful "job"
    [recordedNamed "m1", recordedNamed "m2", recordedNamed "m3"] :=
  knownJson_faithful (fun _ h => List.mem_map.mpr ⟨_, h, rfl⟩) (by decide +kernel)

/-- nothing was finished before the write that breaks off, and two calls after it -/
theorem finished_kept_two :
    Kept (knownJson threeKnown) (State.start.calls (knownJson threeKnown) "job"
      [{ callNamed "m1" with writeStops := some 60 }, callNamed "m2", callNamed "m3"]) :=
  finished_kept (knownJson threeKnown) "job"
    [{ callNamed "m1" with writeStops := some 60 }, callNamed "m2"] (callNamed "m3")
    threeKnown_faithful
    ⟨fun _ _ _ _ => Or.inl rfl, ⟨fun _ (h : none = some _) => (nomatch h), trivial⟩⟩
    ⟨_, rfl⟩

/-- after the first call the write of the second breaks off; the third is finished, and the ledger
has its receipt alone -/
theorem torn_write_forgets :
    (knownJson threeKnown).Faithful "job"
      ([callNamed "m1", { callNamed "m2" with writeStops := some 60 }, callNamed "m3"].map
        (Call.recorded "job")) ∧
    Finishes (knownJson threeKnown) "job" State.start (callNamed "m1") ∧
    Finishes (knownJson threeKnown) "job" (State.start.calls (knownJson threeKnown) "job"
      [callNamed "m1", { callNamed "m2" with writeStops := some 60 }]) (callNamed "m3") ∧
    ledgerEntries (knownJson threeKnown) (State.start.calls (knownJson threeKnown) "job"
      [callNamed "m1", { callNamed "m2" with writeStops := some 60 }, callNamed "m3"]).file =
        some [recordedNamed "m3"] := by
  refine ⟨threeKnown_faithful, ⟨_, rfl⟩, ⟨_, rfl⟩, ?_⟩
  decide +kernel

end Ledger

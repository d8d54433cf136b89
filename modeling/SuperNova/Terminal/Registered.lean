import SuperNova.Terminal.Services

/-!
# Every live service is registered

As long as nothing goes wrong around a live service process, a record with status running names it,
and only processes of the job are told to stop.

* `services_registered` (**main**): both hold after any calls, and after the services of the job were
  stopped none is alive;
* `stop_failed_leaves_service`: a stop that fails, after which the record no longer says running.
-/

set_option linter.unusedSectionVars false

namespace Terminal

open Io

variable {w : World} {A B : World → Prop} {pid : Nat} {id : String} {reg : Registry}
  {r : TerminalServiceRecord} {pending : Option Nat}

/-! ## fair worlds -/

/-- as long as nothing went wrong -/
def Fair (A : World → Prop) (w : World) : Prop := w.faults = [] → A w

theorem Fair.mono (h : Fair A w) (hAB : A w → B w) : Fair B w := fun hf => hAB (h hf)

theorem blame_faults {fault : Fault} {c : Prop} [Decidable c] :
    (w.blame fault c).faults = [] ↔ w.faults = [] ∧ ¬ c := by
  unfold World.blame
  split <;> simp_all

theorem Fair.blame {fault : Fault} {c : Prop} [Decidable c] (h : ¬ c → Fair A w) :
    Fair A (w.blame fault c) := by
  intro hf
  have hc := (blame_faults.mp hf).2
  rw [World.blame, if_neg hc] at hf ⊢
  exact h hc hf

theorem setProc_procs (p : Option Process) (q : Nat) :
    (w.setProc pid p).procs q = if q = pid then p else w.procs q := by
  simp [World.setProc, Function.update_apply]

theorem move_eq (m : Move) :
    w.move m = { w with procs := (w.move m).procs, faults := (w.move m).faults } := by
  unfold World.move World.blame
  split
  · rfl
  · split <;> rfl
  · split
    · rfl
    · split <;> rfl

theorem move_registry (m : Move) : (w.move m).registry = w.registry := by
  rw [move_eq m]

theorem move_held (m : Move) : (w.move m).held = w.held := by
  rw [move_eq m]

theorem move_signalled (m : Move) : (w.move m).signalled = w.signalled := by
  rw [move_eq m]

theorem faults_of_move {m : Move} (h : (w.move m).faults = []) : w.faults = [] := by
  unfold World.move at h
  split at h
  · exact h
  · split at h <;> exact h
  · split at h
    · exact h
    · exact (blame_faults.mp h).1

/-- what other processes cannot make false without a fault -/
structure Stable (A : World → Prop) : Prop where
  move : ∀ w m, A w → (w.move m).faults = [] → A (w.move m)
  choices : ∀ w l, A w → A { w with choices := l }

theorem Stable.and (hA : Stable A) (hB : Stable B) : Stable fun w => A w ∧ B w where
  move w m h hf := ⟨hA.move w m h.1 hf, hB.move w m h.2 hf⟩
  choices w l h := ⟨hA.choices w l h.1, hB.choices w l h.2⟩

theorem Stable.registry (reg : Registry) : Stable fun w => w.registry = reg where
  move _ m h _ := (move_registry m).trans h
  choices _ _ h := h

theorem Stable.moves (hA : Stable A) (moves : List Move) :
    ∀ {w : World}, Fair A w → Fair A (moves.foldl World.move w) := by
  induction moves with
  | nil => exact id
  | cons m moves ih =>
    intro w h
    exact ih fun hf => hA.move w m (h (faults_of_move hf)) hf

theorem surroundings_ends (hA : Stable A) (h : Fair A w) :
    Ends surroundings w (fun _ => Fair A) fun _ => False := by
  unfold Ends surroundings
  cases hc : w.choices with
  | nil => exact h
  | cons c rest =>
    exact hA.moves c.moves fun hf => hA.choices w rest (h hf)

/-! ## live processes -/

theorem live_of_move {m : Move} (h : (w.move m).Live pid) : w.Live pid := by
  unfold World.move at h
  split at h
  · rename_i p
    rw [World.Live, setProc_procs] at h
    split at h
    · rename_i e
      subst e
      obtain ⟨q, -, hq⟩ := Option.map_eq_some_iff.mp h
      cases congrArg Process.alive hq
    · exact h
  · split at h
    · exact h
    · rw [World.Live, setProc_procs] at h
      split at h
      · cases h
      · exact h
  · split at h
    · exact h
    · have hb : ∀ (v : World) (c : Prop) [Decidable c] (f : Fault),
          (v.blame f c).procs = v.procs := by
        intro v c _ f
        unfold World.blame
        split <;> rfl
      rw [World.Live, hb, setProc_procs] at h
      split at h
      · cases h
      · exact h

theorem procs_of_move {m : Move} {q : Process} (h : (w.move m).procs pid = some q) :
    (∃ q', w.procs pid = some q' ∧ q'.owner = q.owner) ∨ m = .appear pid := by
  cases m with
  | exit p =>
    replace h : (w.setProc p _).procs pid = some q := h
    rw [setProc_procs] at h
    split at h
    · rename_i e
      subst e
      obtain ⟨q', hq', rfl⟩ := Option.map_eq_some_iff.mp h
      exact Or.inl ⟨q', hq', rfl⟩
    · exact Or.inl ⟨q, h, rfl⟩
  | reap p =>
    unfold World.move at h
    dsimp only at h
    split at h
    · exact Or.inl ⟨q, h, rfl⟩
    · rw [setProc_procs] at h
      split at h
      · cases h
      · exact Or.inl ⟨q, h, rfl⟩
  | appear p =>
    by_cases e : p = pid
    · exact Or.inr (e ▸ rfl)
    · left
      unfold World.move World.blame at h
      dsimp only at h
      split at h
      · exact ⟨q, h, rfl⟩
      · have hp : (w.setProc p (some ⟨.other, true⟩)).procs pid = some q := by
          split at h <;> exact h
        rw [setProc_procs, if_neg (Ne.symm e)] at hp
        exact ⟨q, hp, rfl⟩

/-! ## the invariant -/

/-- every live process of the job is recorded, but for the child that is still starting; a pid that is
recorded belongs to no other owner -/
structure Sound (pending : Option Nat) (w : World) : Prop where
  recorded : ∀ pid, w.Live pid → pending = some pid ∨ w.registry.Names pid
  owned : ∀ pid, w.registry.Names pid → ∀ q, w.procs pid = some q → q.owner = .job
  signalled : ∀ owner ∈ w.signalled, owner = .job
  held : ∀ pid, pending = some pid → w.held = some pid ∧
    ∃ q, w.procs pid = some q ∧ q.owner = .job

theorem move_keeps_held {m : Move} {q : Process} (hheld : w.held = some pid)
    (h : w.procs pid = some q) : ∃ q', (w.move m).procs pid = some q' ∧ q'.owner = q.owner := by
  cases m with
  | exit p =>
    refine ⟨if pid = p then { q with alive := false } else q, ?_, by split <;> rfl⟩
    show (w.setProc p _).procs pid = _
    rw [setProc_procs]
    split
    · rename_i e
      subst e
      rw [h]
      rfl
    · exact h
  | reap p =>
    refine ⟨q, ?_, rfl⟩
    unfold World.move
    dsimp only
    split
    · exact h
    · rename_i hn
      rw [setProc_procs, if_neg]
      · exact h
      · rintro rfl
        exact hn (Or.inl hheld)
  | appear p =>
    refine ⟨q, ?_, rfl⟩
    unfold World.move World.blame
    dsimp only
    split
    · exact h
    · rename_i hn
      have hp : (w.setProc p (some ⟨.other, true⟩)).procs pid = some q := by
        rw [setProc_procs, if_neg]
        · exact h
        · rintro rfl
          exact hn (by rw [h]; rfl)
      split <;> exact hp

theorem sound_stable (pending : Option Nat) : Stable (Sound pending) where
  choices w l h := ⟨h.recorded, h.owned, h.signalled, h.held⟩
  move w m h hf := by
    refine ⟨fun p hl => ?_, fun p hn q hq => ?_, ?_, fun p hp => ?_⟩
    · rw [move_registry]
      exact h.recorded p (live_of_move hl)
    · rw [move_registry] at hn
      rcases procs_of_move hq with ⟨q', hq', e⟩ | rfl
      · exact e ▸ h.owned p hn q' hq'
      · unfold World.move at hf hq
        dsimp only at hf hq
        split at hf
        · rename_i hs
          rw [if_pos hs] at hq
          exact h.owned p hn q hq
        · exact absurd hn (blame_faults.mp hf).2
    · rw [move_signalled]
      exact h.signalled
    · obtain ⟨hheld, q, hq, ho⟩ := h.held p hp
      obtain ⟨q', hq', e⟩ := move_keeps_held (m := m) hheld hq
      exact ⟨(move_held m).trans hheld, q', hq', e.trans ho⟩

theorem Sound.drop_pending (h : Sound (some pid) w) (hd : ¬ w.Live pid) : Sound none w where
  recorded p hl := (h.recorded p hl).elim
    (fun e => absurd hl (Option.some.inj e ▸ hd)) Or.inr
  owned := h.owned
  signalled := h.signalled
  held _ hp := nomatch hp

/-- no live process is lost with the file of a service: it is the one that still starts -/
def IdleBut (pending : Option Nat) (id : String) (w : World) : Prop :=
  ∀ r, (id, .record r) ∈ w.registry.files → r.status = .running → w.Live r.pid →
    pending = some r.pid

theorem idleBut_stable (pending : Option Nat) (id : String) : Stable (IdleBut pending id) where
  move _ m h _ r hr hs hl := h r (move_registry m ▸ hr) hs (live_of_move hl)
  choices _ _ h := h

/-! ## calls of the operating system -/

theorem readServiceRecord_ends (hA : Stable A) (h : Fair A w) :
    Ends (readServiceRecord id) w
      (fun found w' => Fair A w' ∧ (∀ r, found = some r → (id, .record r) ∈ w'.registry.files) ∧
        (found = none → ∀ f, (id, f) ∉ w'.registry.files)) (Fair A) := by
  refine Ends.bind (Ends.mono (surroundings_ends hA h) (fun _ _ h => h) fun _ h => h.elim) ?_
  intro c w1 h1
  refine Ends.get_bind ?_
  cases hfind : w1.registry.find? id with
  | none =>
    exact Ends.pure ⟨h1, fun _ e => (nomatch e), fun _ => Registry.find?_none hfind⟩
  | some file =>
    dsimp only
    split
    · exact Ends.throw h1
    · cases file with
      | unreadable => exact Ends.throw h1
      | record r =>
        exact Ends.pure ⟨h1, fun r' e => Option.some.inj e ▸ Registry.find?_some hfind,
          fun e => nomatch e⟩

theorem attempt_ends (hA : Stable A) (h : Fair A w) (message : String) :
    Ends (attempt message) w (fun _ => Fair A) (Fair A) := by
  refine Ends.bind (Ends.mono (surroundings_ends hA h) (fun _ _ h => h) fun _ h => h.elim) ?_
  intro c w1 h1
  split
  · exact Ends.throw h1
  · exact Ends.pure h1

theorem processIsRunning_ends (hA : Stable A) (h : Fair A w) :
    Ends (processIsRunning pid) w (fun found => Fair fun w => A w ∧ (found = false → ¬ w.Live pid))
      fun _ => False := by
  refine Ends.bind (surroundings_ends hA h) ?_
  intro c w1 h1
  refine Ends.get_bind ?_
  split
  · exact Ends.set_bind (Ends.pure (Fair.blame fun hn hf => ⟨h1 hf, fun _ => hn⟩))
  · refine Ends.pure fun hf => ⟨h1 hf, fun hnone hl => ?_⟩
    rw [hl] at hnone
    cases hnone

theorem stopProcessTree_ends (h : Fair (fun w => Sound none w ∧ w.registry = reg) w)
    (hn : reg.Names pid) :
    Ends (stopProcessTree pid) w
      (fun _ => Fair fun w => (Sound none w ∧ w.registry = reg) ∧ ¬ w.Live pid) fun _ => False := by
  refine Ends.bind (surroundings_ends ((sound_stable none).and (Stable.registry reg)) h) ?_
  intro c w1 h1
  refine Ends.get_bind ?_
  have hsignal : Fair (fun w => Sound none w ∧ w.registry = reg) (w1.signal pid) := by
    intro hf
    obtain ⟨hs, hreg⟩ := h1 hf
    refine ⟨⟨hs.recorded, hs.owned, fun owner ho => ?_, fun _ hp => nomatch hp⟩, hreg⟩
    rcases List.mem_append.mp ho with ho | ho
    · exact hs.signalled owner ho
    · obtain ⟨q, hq, rfl⟩ := Option.map_eq_some_iff.mp (Option.mem_toList.mp ho)
      exact hs.owned pid (hreg ▸ hn) q hq
  split
  · exact Ends.set_bind (Ends.pure (Fair.blame fun hd hf => ⟨hsignal hf, hd⟩))
  · refine Ends.set_bind (Ends.pure fun hf => ?_)
    refine ⟨((sound_stable none).and (Stable.registry reg)).move _ _ (hsignal hf) hf, fun hl => ?_⟩
    replace hl : ((w1.signal pid).setProc pid _).Live pid := hl
    rw [World.Live, setProc_procs, if_pos rfl] at hl
    obtain ⟨q, -, hq⟩ := Option.map_eq_some_iff.mp hl
    cases congrArg Process.alive hq

/-- the new record takes over what the file of its service still stands for -/
def Replaces (r : TerminalServiceRecord) (w : World) : Prop :=
  ∀ old, (r.serviceId, .record old) ∈ w.registry.files → old.status = .running → w.Live old.pid →
    r.status = .running ∧ r.pid = old.pid

theorem replaces_stable (r : TerminalServiceRecord) : Stable (Replaces r) where
  move _ m h _ old ho hs hl := h old (move_registry m ▸ ho) hs (live_of_move hl)
  choices _ _ h := h

theorem names_of_replaces {reg' : Registry} (hr : Replaces r w)
    (hother : ∀ i f, i ≠ r.serviceId → (i, f) ∈ w.registry.files → (i, f) ∈ reg'.files)
    (hl : w.Live pid) (hn : w.registry.Names pid) :
    reg'.Names pid ∨ r.status = .running ∧ r.pid = pid := by
  obtain ⟨i, old, ho, hs, rfl⟩ := Registry.names_iff.mp hn
  by_cases e : i = r.serviceId
  · subst e
    exact Or.inr (hr old ho hs hl)
  · exact Or.inl (Registry.names_iff.mpr ⟨i, old, hother i _ e ho, hs, rfl⟩)

theorem Registry.names_write (h : r.status = .running) : (reg.write r).Names r.pid :=
  Registry.names_iff.mpr ⟨r.serviceId, r, Registry.mem_write.mpr (Or.inl ⟨rfl, rfl⟩), h, rfl⟩

theorem names_of_write (hn : (reg.write r).Names pid) :
    reg.Names pid ∨ r.status = .running ∧ r.pid = pid := by
  obtain ⟨i, old, ho, hs, rfl⟩ := Registry.names_iff.mp hn
  rcases Registry.mem_write.mp ho with ⟨-, e⟩ | ⟨-, ho⟩
  · cases e
    exact Or.inr ⟨hs, rfl⟩
  · exact Or.inl (Registry.names_iff.mpr ⟨i, old, ho, hs, rfl⟩)

theorem names_of_tear (hn : (reg.tear id).Names pid) : reg.Names pid := by
  obtain ⟨i, old, ho, hs, rfl⟩ := Registry.names_iff.mp hn
  rcases Registry.mem_tear.mp ho with ⟨-, e⟩ | ⟨-, ho⟩
  · cases e
  · exact Registry.names_iff.mpr ⟨i, old, ho, hs, rfl⟩

/-- a record is written when it takes over what its file stands for, and its pid, if it says running,
is known; the child that was still starting is the one it names -/
structure Writable (pending : Option Nat) (reg : Registry) (r : TerminalServiceRecord) : Prop where
  known : r.status = .running → pending = some r.pid ∨ reg.Names r.pid
  resolves : ∀ pid, pending = some pid → r.status = .running ∧ r.pid = pid

theorem Sound.write (h : Sound pending w) (hw : Writable pending w.registry r) (hr : Replaces r w) :
    Sound none { w with registry := w.registry.write r } where
  recorded p hl := by
    right
    rcases h.recorded p hl with hp | hn
    · obtain ⟨hs, rfl⟩ := hw.resolves p hp
      exact Registry.names_write hs
    · have hothers : ∀ i f, i ≠ r.serviceId → (i, f) ∈ w.registry.files →
          (i, f) ∈ (w.registry.write r).files :=
        fun i f hi hf => Registry.mem_write.mpr (Or.inr ⟨hi, hf⟩)
      rcases names_of_replaces hr hothers hl hn with hn | ⟨hs, rfl⟩
      · exact hn
      · exact Registry.names_write hs
  owned p hn q hq := by
    rcases names_of_write hn with hn | ⟨hs, rfl⟩
    · exact h.owned p hn q hq
    · rcases hw.known hs with hp | hn
      · obtain ⟨-, q', hq', ho⟩ := h.held _ hp
        cases hq.symm.trans hq'
        exact ho
      · exact h.owned _ hn q hq
  signalled := h.signalled
  held _ hp := nomatch hp

theorem Sound.unwritten {reg' : Registry} (h : Sound pending w) (hw : Writable pending w.registry r)
    (hr : Replaces r w) (hother : ∀ i f, i ≠ r.serviceId → (i, f) ∈ w.registry.files → (i, f) ∈ reg'.files)
    (hless : ∀ pid, reg'.Names pid → w.registry.Names pid)
    (hlost : ¬ (r.status = .running ∧ w.Live r.pid ∧ ¬ reg'.Names r.pid)) :
    Sound none { w with registry := reg' } where
  recorded p hl := by
    right
    have hrun : r.status = .running ∧ r.pid = p → reg'.Names p := by
      rintro ⟨hs, rfl⟩
      by_contra hn
      exact hlost ⟨hs, hl, hn⟩
    rcases h.recorded p hl with hp | hn
    · exact hrun (hw.resolves p hp)
    · exact (names_of_replaces hr hother hl hn).elim id hrun
  owned p hn q hq := h.owned p (hless p hn) q hq
  signalled := h.signalled
  held _ hp := nomatch hp

theorem writeServiceRecord_ends
    (h : Fair (fun w => (Sound pending w ∧ Replaces r w) ∧ w.registry = reg) w)
    (hw : Writable pending reg r) :
    Ends (writeServiceRecord r) w (fun _ => Fair fun w => Sound none w ∧ w.registry = reg.write r)
      (Fair (Sound none)) := by
  have hA := ((sound_stable pending).and (replaces_stable r)).and (Stable.registry reg)
  refine Ends.bind (Ends.mono (surroundings_ends hA h) (fun _ _ h => h) fun _ h => h.elim) ?_
  intro c w1 h1
  refine Ends.get_bind ?_
  split
  · refine Ends.set_bind (Ends.throw (Fair.blame fun hlost hf => ?_))
    obtain ⟨⟨hs, hr⟩, rfl⟩ := h1 hf
    refine hs.unwritten hw hr (fun i f hi hf => ?_) (fun p hn => ?_) hlost
    · split
      · exact hf
      · exact Registry.mem_tear.mpr (Or.inr ⟨hi, hf⟩)
    · split at hn
      · exact hn
      · exact names_of_tear hn
  · refine Ends.set fun hf => ?_
    obtain ⟨⟨hs, hr⟩, rfl⟩ := h1 hf
    exact ⟨hs.write hw hr, rfl⟩

/-! ## calls on services -/

theorem stable_sound_at (reg : Registry) : Stable fun w => Sound none w ∧ w.registry = reg :=
  (sound_stable none).and (Stable.registry reg)

theorem appendReceiptEvents_ends (hA : Stable A) (h : Fair A w) :
    Ends appendReceiptEvents w (fun _ => Fair A) (Fair A) :=
  Ends.bind (attempt_ends hA h _) fun _ _ h1 => attempt_ends hA h1 _

theorem serviceReceipt_ends (capabilityId status : String) (reason : Option String)
    (h : Fair (fun w => (Sound none w ∧ Replaces r w) ∧ w.registry = reg) w)
    (hw : Writable none reg r) :
    Ends (serviceReceipt capabilityId status r reason) w (fun _ => Fair (Sound none))
      (Fair (Sound none)) := by
  refine Ends.bind (writeServiceRecord_ends h hw) fun _ w1 h1 => ?_
  have hs : Fair (Sound none) w1 := h1.mono And.left
  exact Ends.bind (appendReceiptEvents_ends (sound_stable none) hs) fun _ _ h2 => Ends.pure h2

theorem replaces_of_write (hreg : w.registry = reg.write r) : Replaces r w := by
  intro old ho hs _
  rw [hreg] at ho
  rcases Registry.mem_write.mp ho with ⟨-, e⟩ | ⟨hne, -⟩
  · cases e
    exact ⟨hs, rfl⟩
  · exact absurd rfl hne

theorem writable_of_write : Writable none (reg.write r) r where
  known hs := Or.inr (Registry.names_write hs)
  resolves _ hp := nomatch hp

theorem replaces_of_mem {r' : TerminalServiceRecord} (hm : (r.serviceId, .record r) ∈ w.registry.files)
    (hid : r'.serviceId = r.serviceId)
    (h : r.status = .running → w.Live r.pid → r'.status = .running ∧ r'.pid = r.pid) :
    Replaces r' w := by
  intro old ho hs hl
  cases w.registry.unique _ _ _ (hid ▸ ho) hm
  exact h hs hl

theorem alreadyRunning_ends (hA : Stable A) (h : Fair A w) :
    Ends (alreadyRunning (some r)) w
      (fun found w' => (found → r.status = .running) ∧
        Fair (fun w => A w ∧ (r.status = .running → found = false → ¬ w.Live r.pid)) w')
      fun _ => False := by
  unfold alreadyRunning
  dsimp only
  split
  · rename_i hs
    exact Ends.mono (processIsRunning_ends hA h)
      (fun _ _ h1 => ⟨fun _ => hs, h1.mono fun h2 => ⟨h2.1, fun _ => h2.2⟩⟩) fun _ h => h
  · rename_i hs
    exact Ends.pure ⟨fun h => (nomatch h), h.mono fun h1 => ⟨h1, fun hr => absurd hr hs⟩⟩

theorem stoppedRecord_not_running (stopped : Bool) (reason : String) :
    (stoppedRecord r stopped reason).status ≠ .running := by
  cases stopped <;> exact fun h => nomatch h

/-- **stop**: the record of the service no longer says running -/
theorem stopServiceRecord_ends (reason : String)
    (h : Fair (fun w => Sound none w ∧ w.registry = reg) w)
    (hm : (r.serviceId, .record r) ∈ reg.files) :
    Ends (stopServiceRecord r reason) w
      (fun _ => Fair fun w => Sound none w ∧ ∃ stopped,
        w.registry = reg.write (stoppedRecord r stopped reason)) (Fair (Sound none)) := by
  refine Ends.bind (Ends.mono (alreadyRunning_ends (r := r) (stable_sound_at reg) h) (fun _ _ h => h)
    fun _ h => h.elim) ?_
  rintro wasRunning w1 ⟨hstatus, h1⟩
  have hstop : Ends (stopIfRunning wasRunning r.pid) w1
      (fun _ => Fair fun w => (Sound none w ∧ w.registry = reg) ∧
        (r.status = .running → ¬ w.Live r.pid)) (Fair (Sound none)) := by
    unfold stopIfRunning
    split
    · rename_i hwas
      have hnames : reg.Names r.pid :=
        Registry.names_iff.mpr ⟨r.serviceId, r, hm, hstatus hwas, rfl⟩
      exact Ends.mono (stopProcessTree_ends (h1.mono And.left) hnames)
        (fun _ _ h2 => h2.mono fun h3 => ⟨h3.1, fun _ => h3.2⟩) fun _ h => h.elim
    · rename_i hwas
      exact Ends.pure (h1.mono fun h2 => ⟨h2.1, fun hs => h2.2 hs (Bool.not_eq_true _ ▸ hwas)⟩)
  refine Ends.bind hstop fun stopped w2 h2 => ?_
  have hwrite : Writable none reg (stoppedRecord r stopped reason) :=
    ⟨fun hs => absurd hs (stoppedRecord_not_running stopped reason), fun _ hp => nomatch hp⟩
  refine Ends.bind (writeServiceRecord_ends (h2.mono fun h3 => ⟨⟨h3.1.1, ?_⟩, h3.1.2⟩) hwrite) ?_
  · exact replaces_of_mem (r := r) (h3.1.2 ▸ hm) rfl fun hs hl => absurd hl (h3.2 hs)
  · intro _ w3 h3
    refine Ends.bind (Ends.mono (appendReceiptEvents_ends (stable_sound_at _) h3) (fun _ _ h => h)
      fun _ h => h.mono And.left) fun _ w4 h4 => ?_
    exact Ends.pure (h4.mono fun h5 => ⟨h5.1, stopped, h5.2⟩)

/-- **status**: a record whose process is gone no longer says running; any other stays as it is -/
theorem serviceStatus_ends (h : Fair (fun w => Sound none w ∧ w.registry = reg) w)
    (hm : (r.serviceId, .record r) ∈ reg.files) :
    Ends (do
      let record ← refreshServiceRecordStatus r
      serviceReceipt "terminal.service_status" "success" record none) w
      (fun _ => Fair (Sound none)) (Fair (Sound none)) := by
  have hsame : Writable none reg r :=
    ⟨fun hs => Or.inr (Registry.names_iff.mpr ⟨r.serviceId, r, hm, hs, rfl⟩), fun _ hp => nomatch hp⟩
  have hunchanged : ∀ {w}, Fair (fun w => Sound none w ∧ w.registry = reg) w →
      Ends (serviceReceipt "terminal.service_status" "success" r none) w
        (fun _ => Fair (Sound none)) (Fair (Sound none)) := fun h =>
    serviceReceipt_ends _ _ _ (h.mono fun h1 => ⟨⟨h1.1, replaces_of_mem (h1.2 ▸ hm) rfl
      fun hs _ => ⟨hs, rfl⟩⟩, h1.2⟩) hsame
  by_cases hs : r.status = .running
  · unfold refreshServiceRecordStatus
    rw [if_pos hs, bind_assoc]
    refine Ends.bind (Ends.mono (processIsRunning_ends (stable_sound_at reg) h) (fun _ _ h => h)
      fun _ h => h.elim) fun found w1 h1 => ?_
    cases found with
    | true => exact hunchanged (h1.mono And.left)
    | false =>
      rw [if_neg Bool.false_ne_true, bind_assoc]
      refine Ends.bind (@writeServiceRecord_ends _ reg _ none
        (h1.mono fun h2 => ⟨⟨h2.1.1, ?_⟩, h2.1.2⟩) ⟨fun he => (nomatch he), fun _ hp => nomatch hp⟩) ?_
      · exact replaces_of_mem (r := r) (h2.1.2 ▸ hm) rfl fun _ hl => absurd hl (h2.2 rfl)
      · intro _ w2 h2
        rw [pure_bind]
        exact serviceReceipt_ends _ _ _ (h2.mono fun h3 => ⟨⟨h3.1, replaces_of_write h3.2⟩, h3.2⟩)
          writable_of_write
  · unfold refreshServiceRecordStatus
    rw [if_neg hs, pure_bind]
    exact hunchanged h

theorem withService_ends {capabilities : List String} {capabilityId serviceId : String}
    {f : TerminalServiceRecord → ServiceM Receipt} (h : Fair (Sound none) w)
    (hf : ∀ {w r}, Fair (fun v => Sound none v ∧ v.registry = w.registry) w →
      (r.serviceId, .record r) ∈ w.registry.files →
      Ends (f r) w (fun _ => Fair (Sound none)) (Fair (Sound none))) :
    Ends (withService capabilities capabilityId serviceId f) w (fun _ => Fair (Sound none))
      (Fair (Sound none)) := by
  unfold withService
  split
  · exact Ends.pure h
  · refine Ends.bind (Q := fun _ => Fair (Sound none))
      (Ends.lift (fun _ _ => h) fun _ _ => h) fun id w1 h1 => ?_
    · refine Ends.bind (readServiceRecord_ends (sound_stable none) h1) ?_
      rintro found w2 ⟨h2, hfound, -⟩
      cases found with
      | none => exact Ends.pure h2
      | some r =>
        have hm := hfound r rfl
        exact hf (fun hfaults => ⟨h2 hfaults, rfl⟩) (w2.registry.named id r hm ▸ hm)

/-! ## start -/

theorem starting_stable (pending : Option Nat) (id : String) (reg : Registry) :
    Stable fun w => (Sound pending w ∧ IdleBut pending id w) ∧ w.registry = reg :=
  ((sound_stable pending).and (idleBut_stable pending id)).and (Stable.registry reg)

/-- what holds around the registry `reg` while the service `id` starts -/
abbrev Starting (pending : Option Nat) (id : String) (reg : Registry) (w : World) : Prop :=
  (Sound pending w ∧ IdleBut pending id w) ∧ w.registry = reg

theorem Starting.drop_pending (h : Starting (some pid) id reg w) (hd : ¬ w.Live pid) :
    Starting none id reg w :=
  ⟨⟨h.1.1.drop_pending hd, fun old ho hs hl => by
    cases h.1.2 old ho hs hl
    exact absurd hl hd⟩, h.2⟩

theorem Starting.remove (h : Starting (some pid) id reg w) :
    Starting none id reg { w.setProc pid none with held := none } := by
  have hlive : ∀ p, (w.setProc pid none).Live p → p ≠ pid ∧ w.Live p := by
    intro p hl
    rw [World.Live, setProc_procs] at hl
    split at hl
    · cases hl
    · rename_i hne
      exact ⟨hne, hl⟩
  refine ⟨⟨⟨fun p hl => ?_, fun p hn q hq => ?_, h.1.1.signalled, fun _ hp => nomatch hp⟩, ?_⟩, h.2⟩
  · obtain ⟨hne, hl⟩ := hlive p hl
    exact (h.1.1.recorded p hl).elim (fun e => absurd (Option.some.inj e).symm hne) Or.inr
  · replace hq : (w.setProc pid none).procs p = some q := hq
    rw [setProc_procs] at hq
    split at hq
    · cases hq
    · exact h.1.1.owned p hn q hq
  · intro old ho hs hl
    obtain ⟨hne, hl⟩ := hlive old.pid hl
    exact absurd (Option.some.inj (h.1.2 old ho hs hl)).symm hne

theorem spawn_ends (h : Fair (Starting none id reg) w) :
    Ends spawn w (fun pid => Fair (Starting (some pid) id reg)) (Fair (Sound none)) := by
  refine Ends.bind (Ends.mono (surroundings_ends (starting_stable none id reg) h) (fun _ _ h => h)
    fun _ h => h.elim) fun c w1 h1 => ?_
  refine Ends.get_bind ?_
  split
  · exact Ends.throw (h1.mono fun h2 => h2.1.1)
  · rename_i hfree
    have hnone : w1.procs c.pid = none := by
      cases hp : w1.procs c.pid with
      | none => rfl
      | some q => exact absurd (Or.inr (hp ▸ rfl)) hfree
    refine Ends.set_bind (Ends.pure fun hf => ?_)
    have hs := h1 hf
    refine ⟨⟨⟨fun p hl => ?_, fun p hn q hq => ?_, hs.1.1.signalled, fun p hp => ?_⟩, ?_⟩, hs.2⟩
    · replace hl : (w1.setProc c.pid _).Live p := hl
      rw [World.Live, setProc_procs] at hl
      split at hl
      · rename_i e
        exact Or.inl (e ▸ rfl)
      · exact Or.inr ((hs.1.1.recorded p hl).resolve_left fun e => nomatch e)
    · replace hq : (w1.setProc c.pid _).procs p = some q := hq
      rw [setProc_procs] at hq
      split at hq
      · cases hq
        rfl
      · exact hs.1.1.owned p hn q hq
    · obtain rfl : c.pid = p := Option.some.inj hp
      exact ⟨rfl, _, (setProc_procs _ _).trans (if_pos rfl), rfl⟩
    · intro old ho hst hl
      replace hl : (w1.setProc c.pid _).Live old.pid := hl
      rw [World.Live, setProc_procs] at hl
      split at hl
      · rename_i e
        exact e ▸ rfl
      · exact absurd (hs.1.2 old ho hst hl) fun e => nomatch e

theorem tryWait_ends (h : Fair (Starting (some pid) id reg) w) :
    Ends (tryWait pid) w
      (fun exited => Fair (Starting (if exited then none else some pid) id reg))
      (Fair (Sound none)) := by
  refine Ends.bind (Ends.mono (surroundings_ends (starting_stable (some pid) id reg) h)
    (fun _ _ h => h) fun _ h => h.elim) fun c w1 h1 => ?_
  refine Ends.get_bind ?_
  split
  · exact Ends.set_bind (Ends.throw (Fair.blame fun hd hf => (h1 hf).1.1.drop_pending hd))
  · split
    · exact Ends.pure h1
    · exact Ends.set_bind (Ends.pure fun hf => Starting.remove (h1 hf))

theorem killAndWait_ends (h : Fair (Starting (some pid) id reg) w) :
    Ends (killAndWait pid) w (fun _ => Fair (Starting none id reg)) fun _ => False := by
  refine Ends.bind (surroundings_ends (starting_stable (some pid) id reg) h) fun c w1 h1 => ?_
  refine Ends.get_bind ?_
  split
  · exact Ends.set (Fair.blame fun hd hf => Starting.drop_pending (h1 hf) hd)
  · exact Ends.set fun hf => Starting.remove (h1 hf)

/-- the child that is still there after the loop -/
def Startup.child (startup : Startup) (pid : Nat) : Option Nat :=
  if startup = .ready then some pid else none

theorem pollRound_ends {a : StartArguments} {otherwise : ServiceM Startup}
    (h : Fair (Starting (some pid) id reg) w)
    (ho : ∀ {w}, Fair (Starting (some pid) id reg) w → Ends otherwise w
      (fun startup => Fair (Starting (startup.child pid) id reg)) (Fair (Sound none))) :
    Ends (pollRound a pid otherwise) w
      (fun startup => Fair (Starting (startup.child pid) id reg)) (Fair (Sound none)) := by
  refine Ends.bind (tryWait_ends h) fun exited w1 h1 => ?_
  cases exited with
  | true => exact Ends.pure h1
  | false =>
    rw [if_neg Bool.false_ne_true]
    have hready : Ends (isReady a) w1 (fun _ => Fair (Starting (some pid) id reg)) fun _ => False :=
      Ends.bind (surroundings_ends (starting_stable (some pid) id reg) h1) fun _ _ h2 => Ends.pure h2
    refine Ends.bind (Ends.mono hready (fun _ _ h => h) fun _ h => h.elim) fun ready w2 h2 => ?_
    split
    · exact Ends.pure h2
    · exact ho h2

/-- **the loop**: when it ends, the child is ready or gone -/
theorem awaitReady_ends (a : StartArguments) (rounds : Nat) :
    ∀ {w}, Fair (Starting (some pid) id reg) w → Ends (awaitReady a pid rounds) w
      (fun startup => Fair (Starting (startup.child pid) id reg)) (Fair (Sound none)) := by
  induction rounds with
  | zero =>
    intro w h
    refine pollRound_ends h fun h1 => ?_
    exact Ends.bind (Ends.mono (killAndWait_ends h1) (fun _ _ h => h) fun _ h => h.elim)
      fun _ _ h2 => Ends.pure h2
  | succ rounds ih => exact fun h => pollRound_ends h fun h1 => ih h1

/-- **start**: from the log files on, for a service whose file stands for nothing -/
theorem spawnService_ends (a : StartArguments) (h : Fair (Starting none id reg) w) :
    Ends (spawnService a id) w (fun _ => Fair (Sound none)) (Fair (Sound none)) := by
  refine Ends.bind (Ends.mono (attempt_ends (starting_stable none id reg) h _) (fun _ _ h => h)
    fun _ h => h.mono fun h1 => h1.1.1) fun _ w1 h1 => ?_
  refine Ends.bind (spawn_ends h1) fun pid w2 h2 => ?_
  refine Ends.bind (awaitReady_ends a a.rounds h2) fun startup w3 h3 => ?_
  have hstatus : startup.child pid ≠ none →
      (startedRecord a id pid startup).status = .running ∧ startup.child pid = some pid := by
    unfold Startup.child startedRecord
    split
    · exact fun _ => ⟨rfl, rfl⟩
    · exact fun hn => absurd rfl hn
  have hwrite : Writable (startup.child pid) reg (startedRecord a id pid startup) := by
    refine ⟨fun hs => Or.inl ?_, fun p hp => ?_⟩
    · unfold Startup.child
      by_cases hr : startup = .ready
      · rw [if_pos hr]
        rfl
      · replace hs : (if startup = .ready then ServiceStatus.running else .failed) = .running := hs
        rw [if_neg hr] at hs
        cases hs
    · obtain ⟨hs, e⟩ := hstatus (hp ▸ Option.some_ne_none p)
      exact ⟨hs, Option.some.inj (e.symm.trans hp)⟩
  refine Ends.bind (writeServiceRecord_ends (h3.mono fun h4 => ⟨⟨h4.1.1, ?_⟩, h4.2⟩) hwrite)
    fun _ w4 h4 => ?_
  · intro old ho hs hl
    have hold := h4.1.2 old ho hs hl
    obtain ⟨hrun, e⟩ := hstatus (hold ▸ Option.some_ne_none _)
    exact ⟨hrun, Option.some.inj (e.symm.trans hold)⟩
  · exact serviceReceipt_ends _ _ _ (h4.mono fun h5 => ⟨⟨h5.1, replaces_of_write h5.2⟩, h5.2⟩)
      writable_of_write

theorem releasing_ends {α : Type} {m : ServiceM α}
    (h : Ends m w (fun _ => Fair (Sound none)) (Fair (Sound none))) :
    Ends (releasing m) w (fun _ => Fair (Sound none)) (Fair (Sound none)) := by
  have hrelease : ∀ {v : World}, Fair (Sound none) v → Fair (Sound none) { v with held := none } :=
    fun hv hf => ⟨(hv hf).recorded, (hv hf).owned, (hv hf).signalled, fun _ hp => nomatch hp⟩
  unfold Ends releasing
  cases hm : m w with
  | ok a w1 => exact hrelease (h.ok hm)
  | error e w1 => exact hrelease (h.err hm)

theorem startIfStopped_ends (a : StartArguments) (h : Fair (Sound none) w) :
    Ends (startIfStopped a id) w (fun _ => Fair (Sound none)) (Fair (Sound none)) := by
  refine Ends.bind (readServiceRecord_ends (sound_stable none) h) ?_
  rintro existing w1 ⟨h1, hsome, hnone⟩
  -- the process of a record that says running is not alive when the probe says no
  have hprobe : Ends (alreadyRunning existing) w1 (fun found => Fair fun w =>
      Sound none w ∧ (found = false → Starting none id w1.registry w)) (Fair (Sound none)) := by
    have hat : Fair (fun w => Sound none w ∧ w.registry = w1.registry) w1 := fun hf => ⟨h1 hf, rfl⟩
    cases existing with
    | none =>
      refine Ends.pure (hat.mono fun h2 => ⟨h2.1, fun _ => ⟨⟨h2.1, ?_⟩, h2.2⟩⟩)
      intro old ho
      exact absurd (h2.2 ▸ ho) (hnone rfl _)
    | some r =>
      refine Ends.mono (alreadyRunning_ends (r := r) (stable_sound_at w1.registry) hat)
        (fun found _ h2 => h2.2.mono fun h3 => ⟨h3.1.1, fun hfound => ⟨⟨h3.1.1, ?_⟩, h3.1.2⟩⟩)
        fun _ h => h.elim
      intro old ho hs hl
      cases w1.registry.unique _ _ _ (h3.1.2 ▸ ho) (hsome r rfl)
      exact absurd hl (h3.2 hs hfound)
  refine Ends.bind hprobe fun found w2 h2 => ?_
  split
  · exact Ends.pure (h2.mono And.left)
  · rename_i hfound
    split
    · exact Ends.pure (h2.mono And.left)
    · exact releasing_ends (spawnService_ends a
        (h2.mono fun h3 => h3.2 (Bool.not_eq_true _ ▸ hfound)))

theorem startService_ends (a : StartArguments) (h : Fair (Sound none) w) :
    Ends (startService a) w (fun _ => Fair (Sound none)) (Fair (Sound none)) := by
  unfold startService
  split
  · exact Ends.pure h
  · refine Ends.bind (Q := fun _ => Fair (Sound none))
      (Ends.lift (fun _ _ => h) fun _ _ => h) fun id w1 h1 => ?_
    · split
      · exact Ends.pure h1
      · split
        · exact Ends.pure h1
        · exact startIfStopped_ends a h1

/-! ## the end of a job -/

/-- only these services can have a record that says running -/
def OnlyRunning (ids : List String) (reg : Registry) : Prop :=
  ∀ id r, (id, .record r) ∈ reg.files → r.status = .running → id ∈ ids

theorem onlyRunning_stable (ids : List String) : Stable fun w => OnlyRunning ids w.registry where
  move _ m h _ := by
    rw [move_registry]
    exact h
  choices _ _ h := h

theorem OnlyRunning.stop {ids : List String} {stopped : Bool} {reason : String}
    (h : OnlyRunning (r.serviceId :: ids) reg) :
    OnlyRunning ids (reg.write (stoppedRecord r stopped reason)) := by
  intro id r' hm hs
  rcases Registry.mem_write.mp hm with ⟨-, e⟩ | ⟨hne, hm⟩
  · cases e
    exact absurd hs (stoppedRecord_not_running stopped reason)
  · exact (List.mem_cons.mp (h id r' hm hs)).resolve_left hne

theorem stopListed_ends {ids : List String} (reason : String)
    (h : Fair (fun w => Sound none w ∧ OnlyRunning (id :: ids) w.registry) w) :
    Ends (stopListed reason id) w (fun _ => Fair fun w => Sound none w ∧ OnlyRunning ids w.registry)
      (Fair (Sound none)) := by
  refine Ends.bind (Ends.mono (@readServiceRecord_ends _ _ id
    ((sound_stable none).and (onlyRunning_stable _)) h) (fun _ _ h => h) fun _ h => h.mono And.left) ?_
  rintro found w1 ⟨h1, hsome, hnone⟩
  cases found with
  | none =>
    refine Ends.pure (h1.mono fun h2 => ⟨h2.1, fun i r hm hs => ?_⟩)
    rcases List.mem_cons.mp (h2.2 i r hm hs) with rfl | hi
    · exact absurd hm (hnone rfl _)
    · exact hi
  | some r =>
    have hm := hsome r rfl
    obtain rfl := w1.registry.named id r hm
    dsimp only
    split
    · -- once something has gone wrong, any registry with the record does
      obtain ⟨reg, hat, hmem, honly⟩ : ∃ reg : Registry,
          Fair (fun w => Sound none w ∧ w.registry = reg) w1 ∧
          (r.serviceId, .record r) ∈ reg.files ∧ OnlyRunning (r.serviceId :: ids) reg := by
        by_cases hf : w1.faults = []
        · exact ⟨w1.registry, fun _ => ⟨(h1 hf).1, rfl⟩, hm, (h1 hf).2⟩
        · refine ⟨Registry.empty.write r, fun hf' => absurd hf' hf,
            Registry.mem_write.mpr (Or.inl ⟨rfl, rfl⟩), fun i r' hm' _ => ?_⟩
          rcases Registry.mem_write.mp hm' with ⟨rfl, -⟩ | ⟨-, hm'⟩
          · exact List.mem_cons_self
          · exact absurd hm' List.not_mem_nil
      refine Ends.bind (stopServiceRecord_ends reason hat hmem) fun _ w2 h2 => Ends.pure ?_
      refine h2.mono fun h3 => ⟨h3.1, ?_⟩
      obtain ⟨stopped, hreg⟩ := h3.2
      exact hreg ▸ honly.stop
    · rename_i hs
      refine Ends.pure (h1.mono fun h2 => ⟨h2.1, fun i r' hm' hrun => ?_⟩)
      rcases List.mem_cons.mp (h2.2 i r' hm' hrun) with rfl | hi
      · cases w1.registry.unique _ _ _ hm' hm
        exact absurd hrun hs
      · exact hi

theorem stopAll_ends (reason : String) (ids : List String) :
    ∀ {w}, Fair (fun w => Sound none w ∧ OnlyRunning ids w.registry) w →
      Ends (ids.forM (stopListed reason)) w
        (fun _ => Fair fun w => Sound none w ∧ OnlyRunning [] w.registry) (Fair (Sound none)) := by
  induction ids with
  | nil => exact fun h => Ends.pure h
  | cons id ids ih =>
    intro w h
    rw [forM_cons]
    exact Ends.bind (stopListed_ends reason h) fun _ _ h1 => ih h1

theorem mem_listing {order : List String} {f : RecordFile} (h : (id, f) ∈ reg.files) :
    id ∈ reg.listing order := by
  have hid : id ∈ reg.files.map Prod.fst := List.mem_map.mpr ⟨_, h, rfl⟩
  by_cases ho : id ∈ order
  · exact List.mem_append_left _ (List.mem_filter.mpr ⟨ho, decide_eq_true hid⟩)
  · exact List.mem_append_right _ (List.mem_filter.mpr ⟨hid, decide_eq_true ho⟩)

/-- **the end of a job**: when its services were stopped, none is alive -/
theorem stopTerminalServicesForJob_ends (order : List String) (reason : String)
    (h : Fair (Sound none) w) :
    Ends (stopTerminalServicesForJob order reason) w
      (fun _ => Fair fun w => Sound none w ∧ ∀ pid, ¬ w.Live pid) (Fair (Sound none)) := by
  refine Ends.get_bind (Ends.mono (stopAll_ends reason _ fun hf => ⟨h hf, ?_⟩) ?_ fun _ h => h)
  · exact fun id r hm _ => mem_listing hm
  · intro _ w1 h1
    refine h1.mono fun h2 => ⟨h2.1, fun pid hl => ?_⟩
    rcases h2.1.recorded pid hl with hp | hn
    · cases hp
    · obtain ⟨id, r, hm, hs, -⟩ := Registry.names_iff.mp hn
      exact absurd (h2.2 id r hm hs) List.not_mem_nil

/-! ## runs -/

/-- a job that has not started anything -/
structure World.Fresh (w : World) : Prop where
  dead : ∀ pid, ¬ w.Live pid
  files : w.registry.files = []
  signalled : w.signalled = []

theorem World.Fresh.sound (h : w.Fresh) : Sound none w where
  recorded pid hl := absurd hl (h.dead pid)
  owned pid hn := by
    obtain ⟨id, r, hm, -⟩ := Registry.names_iff.mp hn
    rw [h.files] at hm
    exact absurd hm List.not_mem_nil
  signalled := h.signalled ▸ fun _ ho => absurd ho List.not_mem_nil
  held _ hp := nomatch hp

/-- **one call** -/
theorem call_sound (h : Fair (Sound none) w) (c : Call) : Fair (Sound none) (w.call c) := by
  cases c with
  | start a => exact Ends.final (startService_ends a h)
  | stop capabilities serviceId reason =>
    refine Ends.final (withService_ends h fun hat hm => ?_)
    exact Ends.mono (stopServiceRecord_ends _ hat hm) (fun _ _ h1 => h1.mono And.left) fun _ h1 => h1
  | status capabilities serviceId =>
    exact Ends.final (withService_ends h fun hat hm => serviceStatus_ends hat hm)
  | stopAll order reason =>
    exact Ends.final (Ends.mono (stopTerminalServicesForJob_ends order reason h)
      (fun _ _ h1 => h1.mono And.left) fun _ h1 => h1)
  | wait moves => exact (sound_stable none).moves moves h

/-- **any calls** -/
theorem calls_sound (h : Fair (Sound none) w) (calls : List Call) :
    Fair (Sound none) (w.calls calls) := by
  induction calls generalizing w with
  | nil => exact h
  | cons c calls ih => exact ih (call_sound h c)

/-- **services are registered**: after any calls on the services of a job, as long as nothing went wrong
around a live one, a record with status running names every live one, and only processes of the job
were told to stop; and when the services of the job were then stopped, none is alive -/
theorem services_registered (w : World) (hw : w.Fresh) (calls : List Call) :
    ((w.calls calls).faults = [] →
      (∀ pid, (w.calls calls).Live pid → ∃ id r,
        (id, .record r) ∈ (w.calls calls).registry.files ∧ r.status = .running ∧ r.pid = pid) ∧
      ∀ owner ∈ (w.calls calls).signalled, owner = .job) ∧
    ∀ order reason w', Ok (stopTerminalServicesForJob order reason) (w.calls calls) () w' →
      w'.faults = [] → (∀ pid, ¬ w'.Live pid) ∧ ∀ owner ∈ w'.signalled, owner = .job := by
  have hsound := calls_sound (fun _ => hw.sound) calls
  refine ⟨fun hf => ⟨fun pid hl => ?_, (hsound hf).signalled⟩, fun order reason w' hok hf => ?_⟩
  · have hnames := ((hsound hf).recorded pid hl).resolve_left fun e => nomatch e
    exact Registry.names_iff.mp hnames
  · obtain ⟨hs, hdead⟩ := (stopTerminalServicesForJob_ends order reason hsound).ok hok hf
    exact ⟨hdead, hs.signalled⟩

/-! ## a stop that fails -/

def sampleWorld (choices : List Choice) : World := ⟨fun _ => none, none, .empty, choices, [], []⟩

theorem sampleWorld_fresh (choices : List Choice) : (sampleWorld choices).Fresh where
  dead _ h := nomatch h
  files := rfl
  signalled := rfl

def webService : StartArguments where
  capabilities := ["terminal.start_service"]
  serviceId := "web"
  argv := ["sleep", "30"]
  startupTimeoutMs := 2000
  healthCheck := none
  expectedPorts := []
  rounds := 0

/-- the third call is the one that starts the process -/
def startChoices : List Choice :=
  [.fine, .fine, { pid := 4711 }, .fine, .fine, .fine, .fine, .fine, .fine]

theorem services_registered_web :
    ∃ w', Ok (stopTerminalServicesForJob [] "job cancelled")
        ((sampleWorld startChoices).calls [.start webService]) () w' ∧
      w'.faults = [] ∧ ∀ pid, ¬ w'.Live pid := by
  obtain ⟨w', hok, hf⟩ : ∃ w', Ok (stopTerminalServicesForJob [] "job cancelled")
      ((sampleWorld startChoices).calls [.start webService]) () w' ∧ w'.faults = [] :=
    ⟨_, rfl, by decide +kernel⟩
  exact ⟨w', hok, hf, ((services_registered (sampleWorld startChoices) (sampleWorld_fresh _)
    [.start webService]).2 [] "job cancelled" w' hok hf).1⟩

/-- the service is started, and the stop of it fails -/
def survivedWorld : World :=
  (sampleWorld (startChoices ++ [.fine, .fine, { fails := true, survives := true }])).calls
    [.start webService, .stop ["terminal.stop_service"] "web" none]

/-- the record says failed, so the service is not found again: when the services of the job were
stopped, it is still alive -/
theorem stop_failed_leaves_service :
    survivedWorld.Live 4711 ∧ ¬ survivedWorld.registry.Names 4711 ∧
      ∃ w', Ok (stopTerminalServicesForJob [] "job cancelled") survivedWorld () w' ∧ w'.Live 4711 := by
  refine ⟨by decide +kernel, by decide +kernel, _, rfl, ?_⟩
  decide +kernel

end Terminal

import SuperNova.Feed.Pending

/-!
# A closed stream has sent what was appended

* `readMain_good`, `listShards_good`, `readShard_good`, `deliver_good`: the steps of a load keep what is known
  of the versions;
* `step_good`, `run_good`: so does every step, and every run, that loses nothing;
* `complete_run` (**main**): a closed stream is complete;
* `late_message_lost`: a message with an old timestamp, appended after a newer one was sent, is never sent.
-/

set_option linter.unusedSectionVars false

namespace Feed

variable {castReal : String → Int} {s s' : Stream} {i : Nat} {v : Row}

/-! ## a load -/

theorem phase_good {phase : Phase} (h : s.Good castReal) (hphase : s.phase ≠ .finished)
    (hover : phase ≠ .finished) (hdone : phase.done = s.phase.done)
    (hread : ∀ m ∈ phase.candidates, ∃ u ∈ s.versions, m = rowToMessage u)
    (hknown : ∀ i v, s.Owes i v → s.Known i v s.phase → s.Known i v phase) :
    Stream.Good castReal { s with phase := phase } := by
  obtain ⟨hkept, hsome, hnotClosed, -, hall⟩ := h.running hphase
  refine ⟨h.finished, fun _ => ⟨?_, hsome.trans hdone.symm, hnotClosed, hread, ?_⟩,
    fun h' => absurd h' hover⟩
  · exact ⟨hkept.held, hkept.opened, hkept.ascending, hkept.agree⟩
  · exact fun i v howes htime => (hall i v howes htime).imp_right (hknown i v howes)

theorem wake_good {wake : Wake} (h : s.Good castReal)
    (hstep : s.step castReal (.wake wake) = some s') : s'.Good castReal := by
  have hwaiting : s.phase = .waiting := by
    cases hphase : s.phase with
    | waiting => rfl
    | _ => simp [Stream.step, hphase] at hstep
  have hphase : s.phase ≠ .finished := by simp [hwaiting]
  have hrunning := h.running hphase
  have hfinished : s.finished = none := by
    have hdone := hrunning.done
    rw [hwaiting] at hdone
    exact Option.not_isSome_iff_eq_none.mp (by rw [hdone]; exact Bool.false_ne_true)
  simp only [Stream.step, hwaiting, Option.some.injEq] at hstep
  have hpending : ∀ i v, s.Owes i v → s.Served i v ∨ s.Pending i v := by
    intro i v howes
    have hknown := hrunning.known i v howes fun n hn => nomatch hfinished.symm.trans hn
    rwa [hwaiting] at hknown
  subst hstep
  cases wake with
  | tick =>
    refine phase_good h hphase Phase.noConfusion (by rw [hwaiting]; rfl)
      (fun m hm => absurd hm List.not_mem_nil) fun i v _ hk => ?_
    rwa [hwaiting] at hk
  | heartbeat =>
    refine phase_good h hphase Phase.noConfusion (by rw [hwaiting]; rfl)
      (fun m hm => absurd hm List.not_mem_nil) fun i v _ hk => ?_
    rwa [hwaiting] at hk
  | done result =>
    have hkept := hrunning.kept
    refine ⟨?_, fun _ => ⟨?_, rfl, hrunning.notClosed, fun m hm => absurd hm List.not_mem_nil, ?_⟩,
      Phase.noConfusion⟩
    · intro n hn
      cases hn
      exact le_refl _
    · exact ⟨hkept.held, hkept.opened, hkept.ascending, hkept.agree⟩
    · exact fun i v howes _ => hpending i v howes

theorem sql_beyond {r : Row} (h : s.Kept castReal) (howes : s.Owes i v) (hlater : s.Later i v r)
    (hheld : s.scope.holds r = true) (hbeyond : s.Beyond r) :
    ∀ a, s.afterEventId = some a → messageCursorSql castReal r > a := by
  intro a ha
  obtain ⟨j, hij, hj, -⟩ := hlater
  rw [h.agree j r ⟨le_trans howes.1 hij, hj, hheld⟩]
  exact hbeyond a ha

theorem normalize_pageLimit : normalizeMessagePageLimit pageLimit = 200 := rfl

theorem readMain_good (h : s.Good castReal) (hheeds : Move.Heeds castReal s .readMain)
    (hstep : s.step castReal .readMain = some s') : s'.Good castReal := by
  cases hphase : s.phase with
  | woken wake =>
    have hover : s.phase ≠ .finished := by simp [hphase]
    have hkept := (h.running hover).kept
    simp only [Stream.step, hphase, Option.some.injEq] at hstep
    subst hstep
    refine phase_good h hover Phase.noConfusion ?_ ?_ ?_
    · rw [hphase]
      cases wake <;> rfl
    · intro m hm
      obtain ⟨row, hrow, rfl⟩ := mem_of_mem_page hm
      exact ⟨row, hkept.held .main row ⟨s.store.main, rfl, hrow⟩, rfl⟩
    · intro i v howes hk
      rw [hphase] at hk
      cases wake with
      | tick => exact hk
      | heartbeat => exact hk
      | done result =>
        obtain ⟨r, hlater, ⟨db, hat⟩, hunsent, -, hbeyond⟩ := hk
        cases db with
        | shard path => exact .inr ⟨r, path, trivial, hlater, hat, hunsent, hbeyond⟩
        | main =>
          obtain ⟨table, htable, hmem⟩ := hat
          cases htable
          have hfits := hheeds result hphase
          rw [← normalize_pageLimit] at hfits
          exact .inl ⟨r, hlater, mem_page hmem hunsent.1
            (sql_beyond hkept howes hlater hunsent.1 hbeyond) hfits, hunsent.1, hbeyond⟩
  | _ => simp [Stream.step, hphase] at hstep

theorem listShards_good (h : s.Good castReal) (hheeds : Move.Heeds castReal s .listShards)
    (hstep : s.step castReal .listShards = some s') : s'.Good castReal := by
  cases hphase : s.phase with
  | listing wake candidates =>
    have hover : s.phase ≠ .finished := by simp [hphase]
    have hread := (h.running hover).read
    simp only [Stream.step, hphase, Option.some.injEq] at hstep
    subst hstep
    refine phase_good h hover Phase.noConfusion ?_ ?_ ?_
    · rw [hphase]
      cases wake <;> rfl
    · rwa [hphase] at hread
    · intro i v howes hk
      rw [hphase] at hk
      cases wake with
      | tick => exact hk
      | heartbeat => exact hk
      | done result =>
        rcases hk with hcaught | ⟨r, p, -, hlater, hat, hunsent, hbeyond⟩
        · exact .inl hcaught
        · obtain ⟨table, htable, hmem⟩ := hat
          exact .inr ⟨r, p, hheeds result candidates hphase p table htable r hmem hunsent hbeyond,
            hlater, ⟨table, htable, hmem⟩, hunsent, hbeyond⟩
  | _ => simp [Stream.step, hphase] at hstep

theorem Stream.Caught.append_left {candidates page : List ContainerMessage}
    (h : s.Caught candidates i v) : s.Caught (candidates ++ page) i v := by
  obtain ⟨r, hlater, hmem, hrest⟩ := h
  exact ⟨r, hlater, List.mem_append_left _ hmem, hrest⟩

theorem readShard_good (h : s.Good castReal) (hheeds : Move.Heeds castReal s .readShard)
    (hstep : s.step castReal .readShard = some s') : s'.Good castReal := by
  cases hphase : s.phase with
  | reading wake candidates shards =>
    have hover : s.phase ≠ .finished := by simp [hphase]
    obtain ⟨hkept, -, -, hread, -⟩ := h.running hover
    rw [hphase] at hread
    cases shards with
    | nil => simp [Stream.step, hphase] at hstep
    | cons record left =>
      cases htable : s.store.files.get? record.relativeDbPath with
      | none =>
        simp only [Stream.step, hphase, htable, Option.some.injEq] at hstep
        subst hstep
        refine phase_good h hover Phase.noConfusion ?_ hread ?_
        · rw [hphase]
          cases wake <;> rfl
        · intro i v howes hk
          rw [hphase] at hk
          cases wake with
          | tick => exact hk
          | heartbeat => exact hk
          | done result =>
            rcases hk with hcaught | ⟨r, p, ⟨record', hmem, hpath⟩, hlater, hat, hrest⟩
            · exact .inl hcaught
            · rcases List.mem_cons.mp hmem with rfl | hmem
              · obtain ⟨table, hsome, -⟩ := hat
                rw [← hpath] at hsome
                exact nomatch htable.symm.trans hsome
              · exact .inr ⟨r, p, ⟨record', hmem, hpath⟩, hlater, hat, hrest⟩
      | some table =>
        simp only [Stream.step, hphase, htable, Option.some.injEq] at hstep
        subst hstep
        refine phase_good h hover Phase.noConfusion ?_ ?_ ?_
        · rw [hphase]
          cases wake <;> rfl
        · intro m hm
          rcases List.mem_append.mp hm with hm | hm
          · exact hread m hm
          · obtain ⟨row, hrow, rfl⟩ := mem_of_mem_page hm
            exact ⟨row, hkept.held (.shard record.relativeDbPath) row ⟨table, htable, hrow⟩, rfl⟩
        · intro i v howes hk
          rw [hphase] at hk
          cases wake with
          | tick => exact hk
          | heartbeat => exact hk
          | done result =>
            rcases hk with hcaught | ⟨r, p, ⟨record', hmem, rfl⟩, hlater, hat, hunsent, hbeyond⟩
            · exact .inl hcaught.append_left
            · rcases List.mem_cons.mp hmem with rfl | hmem
              · obtain ⟨table', hsome, hrow⟩ := hat
                cases htable.symm.trans hsome
                have hfits := hheeds result candidates record' left hphase table htable
                rw [← normalize_pageLimit] at hfits
                have hpage := mem_page hrow hunsent.1
                  (sql_beyond hkept howes hlater hunsent.1 hbeyond) hfits
                exact .inl ⟨r, hlater, List.mem_append_right _ hpage, hunsent.1, hbeyond⟩
              · exact .inr ⟨r, _, ⟨record', hmem, rfl⟩, hlater, hat, hunsent, hbeyond⟩
  | _ => simp [Stream.step, hphase] at hstep

/-! ## the end of a round -/

def Stream.cursorAfter (s : Stream) (messages : List ContainerMessage) : Option Int :=
  (messages.getLast?.map messageCursorEventId).or s.afterEventId

theorem pending_after {messages : List ContainerMessage} {sent : List Event}
    (hsent : ∀ event ∈ s.sent, event ∈ sent) (hall : ∀ m ∈ messages, Event.message m ∈ sent)
    (hleft : ∀ row ∈ s.store.rows, s.Unsent row → s.Newest row → s.Beyond row →
      rowToMessage row ∈ messages ∨
      ∀ last, messages.getLast? = some last → messageCursorEventId last < rowCursor row)
    (h : s.Served i v ∨ s.Pending i v) :
    let s' : Stream :=
      { s with afterEventId := s.cursorAfter messages, sent := sent, phase := .waiting }
    s'.Served i v ∨ s'.Pending i v := by
  rcases h with ⟨j, v', hij, hj, hid, hmem⟩ | ⟨r, hlater, hat, hunsent, hnewest, hbeyond⟩
  · exact .inl ⟨j, v', hij, hj, hid, hsent _ hmem⟩
  · by_cases hserved : Event.message (rowToMessage r) ∈ sent
    · obtain ⟨j, hij, hj, hid⟩ := hlater
      exact .inl ⟨j, r, hij, hj, hid, hserved⟩
    · refine .inr ⟨r, hlater, hat, ⟨hunsent.1, hunsent.2.1, hserved⟩, hnewest, ?_⟩
      rcases hleft r (mem_rows_iff_at.mpr hat) hunsent hnewest hbeyond with hpage | hlast
      · exact absurd (hall _ hpage) hserved
      · intro a ha
        cases hmessages : messages.getLast? with
        | none =>
          have hafter : s.afterEventId = some a := by
            simpa [Stream.cursorAfter, hmessages] using ha
          exact hbeyond a hafter
        | some last =>
          have hcursor : messageCursorEventId last = a := by
            simpa [Stream.cursorAfter, hmessages] using ha
          rw [← hcursor]
          exact hlast last hmessages

theorem round_good {messages : List ContainerMessage} {sent : List Event} (h : s.Good castReal)
    (hphase : s.phase ≠ .finished) (hdone : s.phase.done = false)
    (hpending : ∀ i v, s.Known i v s.phase → s.Pending i v)
    (hsent : ∀ event ∈ s.sent, event ∈ sent) (hall : ∀ m ∈ messages, Event.message m ∈ sent)
    (hclosed : ∀ after result, Event.closed after result ∈ sent →
      Event.closed after result ∈ s.sent)
    (hleft : ∀ row ∈ s.store.rows, s.Unsent row → s.Newest row → s.Beyond row →
      rowToMessage row ∈ messages ∨
      ∀ last, messages.getLast? = some last → messageCursorEventId last < rowCursor row) :
    Stream.Good castReal
      { s with afterEventId := s.cursorAfter messages, sent := sent, phase := .waiting } := by
  obtain ⟨hkept, hsome, hnotClosed, -, hknown⟩ := h.running hphase
  refine ⟨h.finished, fun _ => ⟨?_, hsome.trans hdone, ?_, fun m hm => absurd hm List.not_mem_nil, ?_⟩,
    Phase.noConfusion⟩
  · exact ⟨hkept.held, hkept.opened, hkept.ascending, hkept.agree⟩
  · rintro ⟨after, result, hmem⟩
    exact hnotClosed ⟨after, result, hclosed after result hmem⟩
  · intro i v howes htime
    exact pending_after hsent hall hleft ((hknown i v howes htime).imp_right (hpending i v))

theorem served_of_caught {candidates : List ContainerMessage} {sent : List Event}
    (h : s.Kept castReal) (howes : s.Owes i v)
    (hread : ∀ m ∈ candidates, ∃ u ∈ s.versions, m = rowToMessage u)
    (hfits : (dedupe s.afterEventId candidates).length ≤ 200)
    (hall : ∀ m ∈ mergeProjectedMessages candidates s.afterEventId pageLimit, Event.message m ∈ sent)
    (hcaught : s.Caught candidates i v) :
    ∃ j v', i ≤ j ∧ s.versions[j]? = some v' ∧ v'.messageId = v.messageId ∧
      Event.message (rowToMessage v') ∈ sent := by
  obtain ⟨r, ⟨j, hij, hj, hid⟩, hmem, hheld, hbeyond⟩ := hcaught
  rw [← normalize_pageLimit] at hfits
  obtain ⟨m, hm, hmid, hle⟩ := exists_mem_merge hmem hbeyond hfits
  obtain ⟨u, hu, rfl⟩ := hread m (mem_of_mem_merge hm)
  obtain ⟨k, hk⟩ := List.getElem?_of_mem hu
  have huid : u.messageId = v.messageId := Eq.trans hmid hid
  have hvr : rowCursor v ≤ rowCursor r := by
    rcases Nat.lt_or_eq_of_le hij with hlt | rfl
    · have howesR : s.Owes j r := ⟨le_trans howes.1 hij, hj, hheld⟩
      exact le_of_lt (h.ascending j r howesR i v hlt howes.2.1 hid.symm)
    · rw [Option.some.inj (howes.2.1.symm.trans hj)]
  have hik : i ≤ k := by
    by_contra hki
    have hlt := h.ascending i v howes k u (by omega) hk huid
    have hru : rowCursor r ≤ rowCursor u := hle
    omega
  exact ⟨k, u, hik, hk, huid, hall _ hm⟩

theorem deliver_good (h : s.Good castReal) (hheeds : Move.Heeds castReal s .deliver)
    (hstep : s.step castReal .deliver = some s') : s'.Good castReal := by
  cases hphase : s.phase with
  | reading wake candidates shards =>
    cases shards with
    | cons record left => simp [Stream.step, hphase] at hstep
    | nil =>
      simp only [Stream.step, hphase, Option.some.injEq] at hstep
      subst hstep
      have hover : s.phase ≠ .finished := by simp [hphase]
      have hheeds' := hheeds wake candidates hphase
      cases wake with
      | tick =>
        refine round_good h hover (by rw [hphase]; rfl) (fun i v hk => by rwa [hphase] at hk)
          (fun event hevent => List.mem_append_left _ hevent)
          (fun m hm => List.mem_append_right _ (List.mem_map_of_mem hm)) ?_ hheeds'
        intro after result hmem
        simpa using hmem
      | heartbeat =>
        refine round_good h hover (by rw [hphase]; rfl) (fun i v hk => by rwa [hphase] at hk)
          ?_ ?_ ?_ hheeds'
        · intro event hevent
          split
          · exact List.mem_append_left _ (List.mem_append_left _ hevent)
          · exact List.mem_append_left _ hevent
        · intro m hm
          have hmem : Event.message m ∈ s.sent ++
              (mergeProjectedMessages candidates s.afterEventId pageLimit).map Event.message :=
            List.mem_append_right _ (List.mem_map_of_mem hm)
          split
          · exact List.mem_append_left _ hmem
          · exact hmem
        · intro after result hmem
          split at hmem
          · simpa using hmem
          · simpa using hmem
      | done result =>
        obtain ⟨hkept, hdone, -, hread, hall⟩ := h.running hover
        rw [hphase] at hdone hread
        refine ⟨h.finished, fun h' => absurd rfl h', fun _ _ => ?_⟩
        obtain ⟨n, hn⟩ := Option.isSome_iff_exists.mp hdone
        refine ⟨n, hn, fun i v hopened hi hversion hheld => ?_⟩
        have howes : s.Owes i v := ⟨hopened, hversion, hheld⟩
        have htime : s.InTime i := fun n' hn' => by
          cases hn.symm.trans hn'
          exact hi
        rcases hall i v howes htime with ⟨j, v', hij, hj, hid, hmem⟩ | hknown
        · exact ⟨j, v', hij, hj, hid, List.mem_append_left _ (List.mem_append_left _ hmem)⟩
        · rw [hphase] at hknown
          rcases hknown with hcaught | ⟨r, p, ⟨record, hmem, -⟩, -⟩
          · have hsent : ∀ m ∈ mergeProjectedMessages candidates s.afterEventId pageLimit,
                Event.message m ∈ (s.emit (.done result)
                  (mergeProjectedMessages candidates s.afterEventId pageLimit)).sent :=
              fun m hm => List.mem_append_left _ (List.mem_append_right _ (List.mem_map_of_mem hm))
            have hserved := served_of_caught hkept howes hread hheeds' hsent hcaught
            exact hserved
          · exact absurd hmem List.not_mem_nil
  | _ => simp [Stream.step, hphase] at hstep

theorem broken_good {sent : List Event} (h : s.Good castReal) (hphase : s.phase ≠ .finished)
    (hclosed : ∀ after result, Event.closed after result ∈ sent →
      Event.closed after result ∈ s.sent) :
    Stream.Good castReal { s with sent := sent, phase := .finished } := by
  refine ⟨h.finished, fun h' => absurd rfl h', ?_⟩
  rintro - ⟨after, result, hmem⟩
  exact absurd ⟨after, result, hclosed after result hmem⟩ (h.running hphase).notClosed

theorem loadFails_good {error : String} (h : s.Good castReal)
    (hstep : s.step castReal (.loadFails error) = some s') : s'.Good castReal := by
  have hclosed : ∀ after result,
      Event.closed after result ∈ s.sent ++ [.failed s.afterEventId error] →
        Event.closed after result ∈ s.sent := by
    intro after result hmem
    simpa using hmem
  cases hphase : s.phase with
  | waiting => simp [Stream.step, hphase] at hstep
  | finished => simp [Stream.step, hphase] at hstep
  | _ =>
    simp only [Stream.step, hphase, Option.some.injEq] at hstep
    subst hstep
    exact broken_good h (by simp [hphase]) hclosed

theorem disconnect_good (h : s.Good castReal) (hstep : s.step castReal .disconnect = some s') :
    s'.Good castReal := by
  cases hphase : s.phase with
  | finished => simp [Stream.step, hphase] at hstep
  | _ =>
    simp only [Stream.step, hphase, Option.some.injEq] at hstep
    subst hstep
    exact broken_good h (by simp [hphase]) fun _ _ => id

/-- **one step** that loses nothing -/
theorem step_good {m : Move} (h : s.Good castReal) (hheeds : m.Heeds castReal s)
    (hstep : s.step castReal m = some s') : s'.Good castReal := by
  cases m with
  | append db message now => exact append_good h hheeds hstep
  | ensureShard record now => exact ensureShard_good h hstep
  | wake wake => exact wake_good h hstep
  | readMain => exact readMain_good h hheeds hstep
  | listShards => exact listShards_good h hheeds hstep
  | readShard => exact readShard_good h hheeds hstep
  | deliver => exact deliver_good h hheeds hstep
  | loadFails error => exact loadFails_good h hstep
  | disconnect => exact disconnect_good h hstep

theorem run_good {moves : List Move} (h : s.Good castReal) (hall : AllHeed castReal s moves)
    (hrun : s.run castReal moves = some s') : s'.Good castReal := by
  induction moves generalizing s with
  | nil =>
    cases hrun
    exact h
  | cons m moves ih =>
    obtain ⟨s1, hstep, hrest⟩ := Option.bind_eq_some_iff.mp hrun
    exact ih (step_good h hall.1 hstep) (hall.2 s1 hstep) hrest

/-- **a closed stream is complete**, in every run whose steps lose nothing -/
theorem complete_run (castReal : String → Int) (scope : StreamScope) (store : Store)
    (moves : List Move) (s : Stream) (hall : AllHeed castReal (.start castReal scope store) moves)
    (hrun : (Stream.start castReal scope store).run castReal moves = some s) : s.Complete := by
  have hgood := run_good (start_good castReal scope store) hall hrun
  intro hclosed
  by_cases hphase : s.phase = .finished
  · exact hgood.complete hphase hclosed
  · exact absurd hclosed (hgood.running hphase).notClosed

/-- a message of the task lane of a container -/
def taskMessage (id : String) (atMs : Nat) (sortKey : String) : ContainerMessage :=
  { messageId := id, containerId := "container", lane := .task, bodyText := none, bodyJson := .obj []
    chatThreadId := none, taskId := some "job", sourceSeq := none, createdAtMs := atMs
    updatedAtMs := atMs, sortKey }

def emptyStore : Store := ⟨.empty, [], .empty⟩

/-- a message, a round, another message, and the last round -/
def twoRounds (first second : ContainerMessage) : List Move :=
  [.append .main first 40, .wake .tick, .readMain, .listShards, .deliver,
    .append .main second 40, .wake (.done (.ok ())), .readMain, .listShards, .deliver]

def taskStream : Stream := .start (fun _ => 0) (.container "container" .task) emptyStore

def firstMessage : ContainerMessage :=
  taskMessage "task_start" 20 "00000000000000000020_0000000001"

def laterMessage : ContainerMessage :=
  taskMessage "task_evt_job_7" 30 "00000000000000000030_0000000007"

/-- an event of the kernel, projected with its own timestamp -/
def lateMessage : ContainerMessage :=
  taskMessage "task_evt_job_7" 10 "00000000000000000010_0000000007"

theorem complete_run_two :
    AllHeed (fun _ => 0) taskStream (twoRounds firstMessage laterMessage) ∧
      ∃ s, taskStream.run (fun _ => 0) (twoRounds firstMessage laterMessage) = some s ∧ s.Closed ∧
        s.sent = [.message firstMessage, .message laterMessage, .closed (some 30000007) (.ok ())] ∧
        s.Complete := by
  have hall : AllHeed (fun _ => 0) taskStream (twoRounds firstMessage laterMessage) := by
    refine ⟨?_, fun s1 h1 => ?_⟩
    · intro table htable
      cases htable
      intro _ row _
      exact ⟨(fun old hold => nomatch hold), fun _ => ⟨by decide, fun a ha => (nomatch ha),
        fun u hu => absurd hu List.not_mem_nil⟩⟩
    cases h1
    refine ⟨trivial, fun s2 h2 => ?_⟩
    cases h2
    refine ⟨(fun result h => nomatch h), fun s3 h3 => ?_⟩
    cases h3
    refine ⟨(fun result candidates h => nomatch h), fun s4 h4 => ?_⟩
    cases h4
    refine ⟨?_, fun s5 h5 => ?_⟩
    · intro wake candidates hphase
      cases hphase
      intro row hrow _ _ _
      exact .inl ((by decide : ∀ row ∈ [storedRow none 40 firstMessage],
        rowToMessage row ∈ [firstMessage]) row hrow)
    cases h5
    refine ⟨?_, fun s6 h6 => ?_⟩
    · intro table htable
      cases htable
      intro _ row _
      refine ⟨fun old hold => ?_, fun _ => ⟨by decide, fun a ha => ?_, fun u hu _ => ?_⟩⟩
      · exact nomatch hold
      · cases ha
        decide
      · exact (by decide : ∀ u ∈ [storedRow none 40 firstMessage],
          rowCursor u < rowCursor (storedRow none 40 laterMessage)) u hu
    cases h6
    refine ⟨trivial, fun s7 h7 => ?_⟩
    cases h7
    refine ⟨fun result h => by decide, fun s8 h8 => ?_⟩
    cases h8
    refine ⟨(fun result candidates h path table htable => nomatch htable), fun s9 h9 => ?_⟩
    cases h9
    refine ⟨?_, fun _ _ => trivial⟩
    intro wake candidates hphase
    cases hphase
    decide
  obtain ⟨s, hs⟩ : ∃ s, taskStream.run (fun _ => 0) (twoRounds firstMessage laterMessage) = some s :=
    ⟨_, rfl⟩
  have hrun := hs
  cases hs
  have hsent : _ ∈ [Event.message firstMessage, .message laterMessage,
      .closed (some 30000007) (.ok ())] := List.mem_cons_of_mem _ (List.mem_cons_of_mem _ List.mem_cons_self)
  exact ⟨hall, _, hrun, ⟨_, _, hsent⟩, rfl,
    complete_run (fun _ => 0) _ emptyStore _ _ hall hrun⟩

theorem late_message_lost :
    ∃ s, taskStream.run (fun _ => 0) (twoRounds firstMessage lateMessage) = some s ∧ s.Closed ∧
      s.versions = [storedRow none 40 firstMessage, storedRow none 40 lateMessage] ∧
      s.finished = some 2 ∧
      s.sent = [.message firstMessage, .closed (some 20000001) (.ok ())] ∧ ¬ s.Complete := by
  obtain ⟨s, hs⟩ : ∃ s, taskStream.run (fun _ => 0) (twoRounds firstMessage lateMessage) = some s :=
    ⟨_, rfl⟩
  have hrun := hs
  cases hs
  have hclosed : Event.closed (some 20000001) (.ok ()) ∈
      [Event.message firstMessage, .closed (some 20000001) (.ok ())] :=
    List.mem_cons_of_mem _ List.mem_cons_self
  refine ⟨_, hrun, ⟨_, _, hclosed⟩, rfl, rfl, rfl, fun hcomplete => ?_⟩
  obtain ⟨n, hn, hall⟩ := hcomplete ⟨_, _, hclosed⟩
  cases hn
  obtain ⟨j, v', -, -, hid, hmem⟩ := hall 1 (storedRow none 40 lateMessage) (Nat.zero_le 1)
    (by decide) rfl rfl
  have hsent : Event.message (rowToMessage v') ∈
      [Event.message firstMessage, .closed (some 20000001) (.ok ())] := hmem
  simp only [List.mem_cons, List.not_mem_nil, or_false, Event.message.injEq, reduceCtorEq] at hsent
  have hfirst : v'.messageId = "task_start" := congrArg ContainerMessage.messageId hsent
  exact absurd (hfirst.symm.trans hid) (by decide)

end Feed

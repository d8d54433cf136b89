import SuperNova.Runs.Worker

/-!
# What a command of a worker leaves behind

A command that returns has an entry for its run in the table of active processes, or has none, and its
child was waited for or killed, or was not.

* `Restored`: no entry is left, and no child that nothing was done about;
* `Env.Orderly`: no statement fails between the start of the process and the removal of its entry;
* `restored_iff` (**main**): that is exactly when the state is restored;
* `early_return`: a worker whose first line is no event is left running, with its entry.
-/

set_option linter.unusedSectionVars false

namespace Runs

open Io

variable {δ τ χ κ : Type} {runId : String} {w : World δ}

/-! ## what is promised -/

/-- the table holds a child for the run -/
def World.Entered (w : World δ) (runId : String) : Prop := ∃ entry ∈ w.active, entry.1 = runId

/-- the child, if there is one, was waited for or killed -/
def World.ChildGone (w : World δ) : Prop := ∀ c, w.child = some c → c.Gone

structure Restored (runId : String) (w : World δ) : Prop where
  noEntry : ¬ w.Entered runId
  childGone : w.ChildGone

theorem enter_entered (w : World δ) (runId : String) (pid : Nat) :
    (w.enter runId pid).Entered runId :=
  ⟨_, List.mem_cons_self, rfl⟩

theorem leave_not_entered (w : World δ) (runId : String) : ¬ (w.leave runId).Entered runId := by
  rintro ⟨entry, hmem, heq⟩
  have hne := (List.mem_filter.mp hmem).2
  simp [heq] at hne

/-! ## answers that end a child -/

/-- the child is waited for, or its kill succeeds -/
def Finish.Ends (a : Finish) : Prop :=
  a.childPoisoned = false ∧ (a.first.answer = .ok true ∨ a.first.answer = .ok false ∧ a.kill = .ok ())

/-- the kill of a cancellation succeeds, or there is nothing to kill and the exit is seen -/
def Cancel.Ends (a : Cancel) : Prop :=
  a.childPoisoned = false ∧
    (a.kill = .ok () ∨ ∃ err, a.kill = .error err ∧ err.kind = .invalidInput ∧ a.wait.answer = .ok true)

/-- nothing but the child changes -/
structure World.SameBut (w w' : World δ) : Prop where
  active : w'.active = w.active
  heard : w'.heard = w.heard

theorem World.SameBut.refl (w : World δ) : w.SameBut w := ⟨rfl, rfl⟩

theorem World.SameBut.trans {w w' w'' : World δ} (h : w.SameBut w') (h' : w'.SameBut w'') :
    w.SameBut w'' :=
  ⟨h'.active.trans h.active, h'.heard.trans h.heard⟩

theorem World.SameBut.entered {w w' : World δ} (h : w.SameBut w') :
    w'.Entered runId ↔ w.Entered runId := by
  unfold World.Entered
  rw [h.active]

/-- a program touches the child alone, and the child is gone after it when it was before or `P` -/
structure Touches (m : Prog δ Bool) (w : World δ) (P : Prop) : Prop where
  same : w.SameBut (final m w)
  gone : (final m w).ChildGone ↔ w.ChildGone ∨ P

theorem touches_of_final_eq {m : Prog δ Bool} {P : Prop} (h : final m w = w) (hP : ¬ P) :
    Touches m w P := by
  refine ⟨?_, ?_⟩
  · rw [h]
    exact .refl w
  · rw [h]
    exact ⟨.inl, fun hor => hor.resolve_right hP⟩

theorem markWaited_gone (w : World δ) : (final markWaited w).ChildGone := by
  rintro c hc
  obtain ⟨c0, -, rfl⟩ := Option.map_eq_some_iff.mp hc
  exact .inl rfl

theorem markKilled_gone (w : World δ) : (final markKilled w).ChildGone := by
  rintro c hc
  obtain ⟨c0, -, rfl⟩ := Option.map_eq_some_iff.mp hc
  exact .inr rfl

theorem final_lift_error {α β : Type} {r : Except IoError α} {err : IoError} (h : r = .error err)
    (f : α → Prog δ β) : final (lift r >>= f) w = w :=
  final_bind_of_err (lift_err.mpr ⟨h, rfl⟩)

theorem final_lift_ok {α β : Type} {r : Except IoError α} {a : α} (h : r = .ok a)
    (f : α → Prog δ β) : final (lift r >>= f) w = final (f a) w :=
  final_bind_of_ok (lift_ok.mpr ⟨h, rfl⟩)

theorem okOr_poisoned {poisoned : Bool} (h : poisoned = true) (err : IoError) :
    okOr (!poisoned) err = .error err := by
  rw [h]
  rfl

theorem okOr_sound {poisoned : Bool} (h : poisoned = false) (err : IoError) :
    okOr (!poisoned) err = .ok () := by
  rw [h]
  rfl

theorem waitForChildExit_touches (a : Waits) (w : World δ) :
    Touches (waitForChildExit a) w (a.answer = .ok true) := by
  cases h : a.answer with
  | error err =>
    exact touches_of_final_eq (final_lift_error h _) (by simp)
  | ok exited =>
    cases exited with
    | false => exact touches_of_final_eq (final_lift_ok h _) (by simp)
    | true =>
      have hfinal : final (waitForChildExit a) w = final markWaited w := final_lift_ok h _
      refine ⟨hfinal ▸ ⟨rfl, rfl⟩, ?_⟩
      rw [hfinal]
      exact iff_of_true (markWaited_gone w) (.inr rfl)

theorem markKilled_touches (a : Waits) (w : World δ) :
    Touches (do markKilled; waitForChildExit a) w True := by
  have hwait := waitForChildExit_touches a (final markKilled w)
  have hfinal : final (do markKilled; waitForChildExit a) w =
      final (waitForChildExit a) (final markKilled w) := rfl
  refine ⟨?_, ?_⟩
  · have hmark : w.SameBut (final markKilled w) := ⟨rfl, rfl⟩
    rw [hfinal]
    exact hmark.trans hwait.same
  · rw [hfinal]
    exact iff_of_true (hwait.gone.mpr (.inl (markKilled_gone w))) (.inr trivial)

theorem Touches.of_final {m m' : Prog δ Bool} {P Q : Prop} (hm : Touches m' w P)
    (h : final m w = final m' w) (hPQ : P ↔ Q) : Touches m w Q := by
  refine ⟨?_, ?_⟩
  · rw [h]
    exact hm.same
  · rw [h]
    exact hm.gone.trans (or_congr_right hPQ)

theorem finish_touches (a : Finish) (w : World δ) :
    Touches (finishChildAfterTerminal a) w a.Ends := by
  cases hpoison : a.childPoisoned with
  | true =>
    exact touches_of_final_eq (final_lift_error (okOr_poisoned hpoison _) _) (by simp [Finish.Ends, hpoison])
  | false =>
    have hcheck : okOr (!a.childPoisoned) childLockPoisoned = .ok () := okOr_sound hpoison _
    have hwait := waitForChildExit_touches a.first w
    cases hfirst : a.first.answer with
    | error err =>
      have hfinal : final (finishChildAfterTerminal a) w = w := by
        rw [finishChildAfterTerminal, final_lift_ok hcheck]
        have herr : Err (waitForChildExit a.first) w err w :=
          bind_of_err (lift_err.mpr ⟨hfirst, rfl⟩)
        exact final_bind_of_err herr
      exact touches_of_final_eq hfinal (by simp [Finish.Ends, hfirst])
    | ok exited =>
      cases exited with
      | true =>
        have hok : Ok (waitForChildExit a.first) w true (final markWaited w) :=
          bind_of_ok (lift_ok.mpr ⟨hfirst, rfl⟩)
        have hfinal : final (finishChildAfterTerminal a) w = final markWaited w := by
          rw [finishChildAfterTerminal, final_lift_ok hcheck, final_bind_of_ok hok]
          rfl
        refine ⟨hfinal ▸ ⟨rfl, rfl⟩, ?_⟩
        rw [hfinal]
        exact iff_of_true (markWaited_gone w) (.inr ⟨hpoison, .inl hfirst⟩)
      | false =>
        have hok : Ok (waitForChildExit a.first) w false w :=
          bind_of_ok (lift_ok.mpr ⟨hfirst, rfl⟩)
        cases hkill : a.kill with
        | ok u =>
          have hfinal : final (finishChildAfterTerminal a) w = final (do markKilled; waitForChildExit a.second) w := by
            rw [finishChildAfterTerminal, final_lift_ok hcheck, final_bind_of_ok hok]
            dsimp only
            rw [hkill]
          have hends : a.Ends := ⟨hpoison, .inr ⟨hfirst, hkill⟩⟩
          exact (markKilled_touches a.second w).of_final hfinal (iff_of_true trivial hends)
        | error err =>
          refine touches_of_final_eq ?_ (by simp [Finish.Ends, hfirst, hkill])
          rw [finishChildAfterTerminal, final_lift_ok hcheck, final_bind_of_ok hok]
          dsimp only
          rw [hkill]
          dsimp only
          split
          · rfl
          · rfl

theorem killFound_touches (a : Cancel) (w : World δ) : Touches (killFound a) w a.Ends := by
  cases hpoison : a.childPoisoned with
  | true =>
    exact touches_of_final_eq (final_lift_error (okOr_poisoned hpoison _) _) (by simp [Cancel.Ends, hpoison])
  | false =>
    have hcheck : okOr (!a.childPoisoned) childLockPoisoned = .ok () := okOr_sound hpoison _
    cases hkill : a.kill with
    | ok u =>
      have hfinal : final (killFound a) w = final (do markKilled; waitForChildExit a.wait) w := by
        rw [killFound, final_lift_ok hcheck, hkill]
      have hends : a.Ends := ⟨hpoison, .inl hkill⟩
      exact (markKilled_touches a.wait w).of_final hfinal (iff_of_true trivial hends)
    | error err =>
      have hfinal : final (killFound a) w =
          final (if err.kind = .invalidInput then waitForChildExit a.wait else throw err) w := by
        rw [killFound, final_lift_ok hcheck, hkill]
      by_cases hkind : err.kind = .invalidInput
      · have hends : a.wait.answer = .ok true ↔ a.Ends := by
          simp [Cancel.Ends, hpoison, hkill, hkind]
        rw [if_pos hkind] at hfinal
        exact (waitForChildExit_touches a.wait w).of_final hfinal hends
      · rw [if_neg hkind] at hfinal
        exact touches_of_final_eq hfinal (by simp [Cancel.Ends, hkill, hkind])

theorem killRunProcess_touches (a : Cancel) (hentered : w.Entered runId) :
    Touches (killRunProcess runId a) w (a.activePoisoned = false ∧ a.Ends) := by
  cases hpoison : a.activePoisoned with
  | true =>
    exact touches_of_final_eq (final_lift_error (okOr_poisoned hpoison _) _) (by simp)
  | false =>
    have hcheck : okOr (!a.activePoisoned) activeLockPoisoned = .ok () := okOr_sound hpoison _
    obtain ⟨entry, hfind⟩ : ∃ entry, (w.active.find? fun entry => entry.1 == runId) = some entry := by
      obtain ⟨entry, hmem, heq⟩ := hentered
      exact Option.isSome_iff_exists.mp (List.find?_isSome.mpr ⟨entry, hmem, by simp [heq]⟩)
    have hfinal : final (killRunProcess runId a) w = final (killFound a) w := by
      have hget : Ok (get : Prog δ (World δ)) w w w := rfl
      rw [killRunProcess, final_lift_ok hcheck, final_bind_of_ok hget, hfind]
    exact (killFound_touches a w).of_final hfinal (by simp)

theorem cancelled_touches {kill : Cancel → Prog δ Bool} {P : Cancel → Prop} (I : World δ → Prop)
    (hI : ∀ w w' : World δ, w.SameBut w' → I w → I w')
    (hkill : ∀ a w, I w → Touches (kill a) w (P a)) (cancels : List Cancel) {w : World δ} (hw : I w) :
    ∃ w', Ok (Env.cancelled kill cancels) w ⟨⟩ w' ∧ w.SameBut w' ∧
      (w'.ChildGone ↔ w.ChildGone ∨ ∃ a ∈ cancels, P a) := by
  induction cancels generalizing w with
  | nil => exact ⟨w, rfl, .refl w, by simp⟩
  | cons a cancels ih =>
    have hone := hkill a w hw
    obtain ⟨b, hb⟩ := unwrapOr_ok (kill a) false w
    obtain ⟨w', hrun, hsame, hgone⟩ := ih (hI w _ hone.same hw)
    have hround : Ok (do let _ ← unwrapOr (kill a) false; (pure ⟨⟩ : Prog δ PUnit)) w ⟨⟩
        (final (kill a) w) := bind_of_ok hb
    refine ⟨w', ?_, hone.same.trans hsame, ?_⟩
    · show Ok ((a :: cancels).forM _) w ⟨⟩ w'
      exact forM_cons_ok.mpr ⟨_, hround, hrun⟩
    · rw [hgone, hone.gone, or_assoc]
      simp

/-! ## commands that restore the state -/

namespace Env

/-- after a terminal event: the child is waited for or killed, here or by a cancellation, and the entry
is removed -/
def EndsTerminal (e : Env δ τ χ κ) : Prop :=
  e.poisonedAtRemoval = false ∧
    (e.finish.Ends ∨ (∃ a ∈ e.cancels, a.activePoisoned = false ∧ a.Ends) ∨ ∃ a ∈ e.lateCancels, a.Ends)

/-- after the last line: the child is waited for and the entry is removed -/
def EndsExit (e : Env δ τ χ κ) : Prop :=
  e.childPoisoned = false ∧ (∃ status, e.wait = .ok status) ∧ e.poisonedAtRemoval = false

/-- no line up to the one that ends the loop is refused, and the end is in order; `heard` are the calls of
`on_event` before -/
def LinesOrderly (e : Env δ τ χ κ) : List (ProcessWorkerEvent δ) → List Line → Prop
  | _, [] => e.EndsExit
  | heard, line :: lines =>
    match e.decoders.hearLine line with
    | .error _ => False
    | .ok .nothing => e.LinesOrderly heard lines
    | .ok (.failed _) => e.LinesOrderly heard lines
    | .ok (.tell event) =>
      e.onEvent (heard ++ [event]) = .ok () ∧ e.LinesOrderly (heard ++ [event]) lines
    | .ok (.terminal _) => e.EndsTerminal

/-- no process is started while the table has no entry, or one is and no statement fails from there to the
removal of its entry -/
def Orderly (e : Env δ τ χ κ) (runId : String) (command : κ) (active : List (String × Nat)) : Prop :=
  match e.started with
  | .error _ => ∀ entry ∈ active, entry.1 ≠ runId
  | .ok pid =>
    e.handOver command = .ok () ∧ e.onEvent [.workerStarted pid] = .ok () ∧
      e.LinesOrderly [.workerStarted pid] e.lines

end Env

/-! ## the end of the command -/

/-- what a command can do after its entry was taken from the table: nothing to table or child -/
def World.Left (active : List (String × Nat)) (child : Option Child) (w : World δ) : Prop :=
  w.active = active ∧ w.child = child

section
variable {e : Env δ τ χ κ} {active : List (String × Nat)} {child : Option Child}

theorem writeStatus_keeps (status : String) (errorMessage : Option String) :
    Keeps (World.Left active child) (e.writeStatus status errorMessage) :=
  Keeps.bind (Keeps.lift _) fun _ => Keeps.bind (Keeps.modify fun _ h => h) fun _ => Keeps.lift _

theorem settleTerminal_keeps (result : WorkerTerminalResult τ χ) :
    Keeps (World.Left active child) (e.settleTerminal runId result) := by
  refine Keeps.bind (Keeps.lift _) fun cancelRequested => ?_
  cases cancelRequested with
  | true => exact Keeps.bind (writeStatus_keeps _ _) fun _ => Keeps.throw _ _
  | false => exact Keeps.pure _ _

theorem settleExit_keeps (status : ExitStatus) (workerError : Option String) :
    Keeps (World.Left active child) (e.settleExit runId status workerError) := by
  unfold Env.settleExit
  cases status.success with
  | true =>
    refine Keeps.bind (Keeps.lift _) fun cancelRequested => ?_
    cases cancelRequested with
    | true => exact Keeps.bind (writeStatus_keeps _ _) fun _ => Keeps.throw _ _
    | false => exact Keeps.throw _ _
  | false =>
    refine Keeps.bind (Keeps.lift _) fun cancelRequested => ?_
    cases cancelRequested with
    | true => exact Keeps.bind (writeStatus_keeps _ _) fun _ => Keeps.throw _ _
    | false => exact Keeps.bind (writeStatus_keeps _ _) fun _ => Keeps.throw _ _

end

theorem removal_restored (e : Env δ τ χ κ) (rest : Prog δ (WorkerTerminalResult τ χ))
    (hrest : ∀ active child, Keeps (World.Left active child) rest) (hentered : w.Entered runId) :
    Restored runId (final (do
        e.leaveTable runId
        Env.cancelled killFound e.lateCancels
        rest) w) ↔
      e.poisonedAtRemoval = false ∧ (w.ChildGone ∨ ∃ a ∈ e.lateCancels, a.Ends) := by
  cases hpoison : e.poisonedAtRemoval with
  | true =>
    have herr : Err (e.leaveTable runId) w activeLockPoisoned w :=
      bind_of_err (lift_err.mpr ⟨okOr_poisoned hpoison _, rfl⟩)
    rw [final_bind_of_err herr]
    exact iff_of_false (fun h => h.noEntry hentered) (fun h => Bool.noConfusion h.1)
  | false =>
    have hleave : Ok (e.leaveTable runId) w ⟨⟩ (w.leave runId) :=
      bind_of_ok (lift_ok.mpr ⟨okOr_sound hpoison _, rfl⟩)
    obtain ⟨w', hrun, hsame, hgone⟩ := cancelled_touches (fun _ => True) (fun _ _ _ _ => trivial)
      (fun a w _ => killFound_touches a w) e.lateCancels (w := w.leave runId) trivial
    rw [final_bind_of_ok hleave, final_bind_of_ok hrun]
    obtain ⟨hactive, hchild⟩ := hrest w'.active w'.child w' ⟨rfl, rfl⟩
    have hnoEntry : ¬ (final rest w').Entered runId := by
      unfold World.Entered
      rw [hactive, hsame.active]
      exact leave_not_entered w runId
    have hchildGone : (final rest w').ChildGone ↔ w'.ChildGone := by
      unfold World.ChildGone
      rw [hchild]
    constructor
    · intro h
      have hleft : w.ChildGone ∨ ∃ a ∈ e.lateCancels, a.Ends := hgone.mp (hchildGone.mp h.childGone)
      exact ⟨rfl, hleft⟩
    · rintro ⟨-, h⟩
      exact ⟨hnoEntry, hchildGone.mpr (hgone.mpr h)⟩

theorem afterTerminal_restored (e : Env δ τ χ κ) (result : WorkerTerminalResult τ χ)
    (hentered : w.Entered runId)
    (hgone : w.ChildGone ↔ ∃ a ∈ e.cancels, a.activePoisoned = false ∧ a.Ends) :
    Restored runId (final (e.afterTerminal runId result) w) ↔ e.EndsTerminal := by
  have hfinish := finish_touches e.finish w
  obtain ⟨exited, hexited⟩ := unwrapOr_ok (finishChildAfterTerminal e.finish) false w
  have hrest := removal_restored e (e.settleTerminal runId result)
    (fun _ _ => settleTerminal_keeps result) (hfinish.same.entered.mpr hentered)
  rw [Env.afterTerminal, final_bind_of_ok hexited]
  refine hrest.trans (and_congr_right fun _ => ?_)
  rw [hfinish.gone, hgone, or_assoc, or_left_comm]

theorem afterExit_restored (e : Env δ τ χ κ) (workerError : Option String)
    (hentered : w.Entered runId) :
    Restored runId (final (e.afterExit runId workerError) w) ↔ e.EndsExit := by
  cases hpoison : e.childPoisoned with
  | true =>
    have hfinal : final (e.afterExit runId workerError) w = w :=
      final_lift_error (okOr_poisoned hpoison _) _
    rw [hfinal]
    exact iff_of_false (fun h => h.noEntry hentered) (by simp [Env.EndsExit, hpoison])
  | false =>
    cases hwait : e.wait with
    | error err =>
      have hfinal : final (e.afterExit runId workerError) w = w := by
        rw [Env.afterExit, final_lift_ok (okOr_sound hpoison _), final_lift_error hwait]
      rw [hfinal]
      exact iff_of_false (fun h => h.noEntry hentered) (by simp [Env.EndsExit, hwait])
    | ok status =>
      have hmark : w.SameBut (final markWaited w) := ⟨rfl, rfl⟩
      have hok : Ok markWaited w () (final markWaited w) := rfl
      have hrest := removal_restored e (e.settleExit runId status workerError)
        (fun _ _ => settleExit_keeps status workerError) (hmark.entered.mpr hentered)
      rw [Env.afterExit, final_lift_ok (okOr_sound hpoison _), final_lift_ok hwait,
        final_bind_of_ok hok]
      refine hrest.trans ?_
      have hgone := markWaited_gone w
      simp [Env.EndsExit, hpoison, hwait, hgone]

/-! ## the loop -/

/-- what the command does after the loop -/
def Env.finishCommand (e : Env δ τ χ κ) (runId : String) :
    Option (WorkerTerminalResult τ χ) × Option String → Prog δ (WorkerTerminalResult τ χ)
  | (some result, _) => e.afterTerminal runId result
  | (none, workerError) => e.afterExit runId workerError

theorem tell_ok {e : Env δ τ χ κ} {event : ProcessWorkerEvent δ}
    (h : e.onEvent (w.heard ++ [event]) = .ok ()) :
    Ok (e.tell event) w () { w with heard := w.heard ++ [event] } := by
  show lift (e.onEvent (w.heard ++ [event])) { w with heard := w.heard ++ [event] } = _
  rw [h]
  rfl

theorem tell_err {e : Env δ τ χ κ} {event : ProcessWorkerEvent δ} {err : IoError}
    (h : e.onEvent (w.heard ++ [event]) = .error err) :
    Err (e.tell event) w err { w with heard := w.heard ++ [event] } := by
  show lift (e.onEvent (w.heard ++ [event])) { w with heard := w.heard ++ [event] } = _
  rw [h]
  rfl

/-- **the lines**, by induction on those that are left: the entry is in the table all along -/
theorem readLines_restored (e : Env δ τ χ κ) (lines : List Line) (workerError : Option String)
    {w : World δ} (hentered : w.Entered runId)
    (hgone : w.ChildGone ↔ ∃ a ∈ e.cancels, a.activePoisoned = false ∧ a.Ends) :
    Restored runId (final (e.readLines lines workerError >>= e.finishCommand runId) w) ↔
      e.LinesOrderly w.heard lines := by
  induction lines generalizing w workerError with
  | nil => exact afterExit_restored e workerError hentered
  | cons line lines ih =>
    rw [Env.readLines, bind_assoc, Env.LinesOrderly]
    cases hline : e.decoders.hearLine line with
    | error err =>
      rw [final_lift_error rfl]
      exact iff_of_false (fun h => h.noEntry hentered) id
    | ok said =>
      rw [final_lift_ok rfl]
      cases said with
      | nothing => exact ih workerError hentered hgone
      | failed message => exact ih (some message) hentered hgone
      | terminal result => exact afterTerminal_restored e result hentered hgone
      | tell event =>
        dsimp only
        rw [bind_assoc]
        cases hevent : e.onEvent (w.heard ++ [event]) with
        | error err =>
          rw [final_bind_of_err (tell_err hevent)]
          exact iff_of_false (fun h => h.noEntry hentered) (fun h => nomatch h.1)
        | ok u =>
          rw [final_bind_of_ok (tell_ok hevent)]
          let w1 : World δ := { w with heard := w.heard ++ [event] }
          have hentered1 : w1.Entered runId := hentered
          have hgone1 : w1.ChildGone ↔ ∃ a ∈ e.cancels, a.activePoisoned = false ∧ a.Ends := hgone
          have hrest := ih workerError hentered1 hgone1
          exact hrest.trans ⟨fun h => ⟨rfl, h⟩, fun h => h.2⟩

/-- **the state is restored** exactly when no statement fails between the start of the process and the
removal of its entry -/
theorem restored_iff (e : Env δ τ χ κ) (runId : String) (command : κ) (active : List (String × Nat)) :
    Restored runId (final (e.runWorkerCommand runId command) (World.start active)) ↔
      e.Orderly runId command active := by
  unfold Env.Orderly
  cases hstart : e.started with
  | error err =>
    have hfinal : final (e.runWorkerCommand runId command) (World.start active) =
        World.start active := final_lift_error hstart _
    rw [hfinal]
    constructor
    · intro h entry hmem heq
      exact h.noEntry ⟨entry, hmem, heq⟩
    · intro h
      refine ⟨?_, fun c hc => nomatch hc⟩
      rintro ⟨entry, hmem, heq⟩
      exact h entry hmem heq
  | ok pid =>
    let w0 : World δ := { World.start active with child := some ⟨pid, false, false⟩ }
    have hopen : ¬ w0.ChildGone := fun h => by simpa [Child.Gone] using h _ rfl
    cases hhand : e.handOver command with
    | error err =>
      have hfinal : final (e.runWorkerCommand runId command) (World.start active) = w0 := by
        rw [Env.runWorkerCommand, final_lift_ok hstart]
        exact final_lift_error hhand _
      rw [hfinal]
      exact iff_of_false (fun h => hopen h.childGone) (fun h => nomatch h.1)
    | ok u =>
      have hentered : (w0.enter runId pid).Entered runId := enter_entered w0 runId pid
      obtain ⟨w1, hrun, hsame, hgone⟩ := cancelled_touches (fun w : World δ => w.Entered runId)
        (fun _ _ h => h.entered.mpr) (fun a _ h => killRunProcess_touches a h) e.cancels hentered
      have hgone1 : w1.ChildGone ↔ ∃ a ∈ e.cancels, a.activePoisoned = false ∧ a.Ends :=
        hgone.trans (or_iff_right hopen)
      have hentered1 : w1.Entered runId := hsame.entered.mpr hentered
      have hheard : w1.heard = [] := hsame.heard
      have hfinal : final (e.runWorkerCommand runId command) (World.start active) =
          final (do e.tell (.workerStarted pid); e.readLines e.lines none >>= e.finishCommand runId)
            w1 := by
        rw [Env.runWorkerCommand, final_lift_ok hstart]
        exact (final_lift_ok hhand _).trans (final_bind_of_ok hrun)
      rw [hfinal]
      have hcall : w1.heard ++ [ProcessWorkerEvent.workerStarted pid] = [.workerStarted pid] := by
        rw [hheard]
        rfl
      cases hevent : e.onEvent [.workerStarted pid] with
      | error err =>
        have hcalled : e.onEvent (w1.heard ++ [.workerStarted pid]) = .error err := by
          rw [hcall]
          exact hevent
        rw [final_bind_of_err (tell_err hcalled)]
        exact iff_of_false (fun h => h.noEntry hentered1) fun h => nomatch hevent.symm.trans h.2.1
      | ok u =>
        have hcalled : e.onEvent (w1.heard ++ [.workerStarted pid]) = .ok () := by
          rw [hcall]
          exact hevent
        let w2 : World δ := { w1 with heard := w1.heard ++ [.workerStarted pid] }
        have hentered2 : w2.Entered runId := hentered1
        have hgone2 : w2.ChildGone ↔ ∃ a ∈ e.cancels, a.activePoisoned = false ∧ a.Ends := hgone1
        have hlines := readLines_restored e e.lines none hentered2 hgone2
        rw [show w2.heard = [.workerStarted pid] from hcall] at hlines
        rw [final_bind_of_ok (tell_ok hcalled)]
        exact hlines.trans ⟨fun h => ⟨rfl, hevent, h⟩, fun h => h.2.2⟩

/-- what a calm world answers to a worker that prints one line and ends well -/
def calmEnv (line : String) (event : Except String KernelWorkerEvent) : Env Unit Unit Unit Unit where
  decoders := ⟨fun _ => event, fun _ => .ok (), fun _ => .ok (), fun _ => .ok ()⟩
  configured := true
  spawn := .ok 7
  updateRunWorker := fun _ => .ok ()
  stdin := true
  toWriter := fun _ => .ok ()
  writeNewline := .ok ()
  stdout := true
  poisonedAtEntry := false
  onEvent := fun _ => .ok ()
  cancels := []
  lines := [⟨.ok line, .ok (), fun _ => .ok ()⟩]
  finish := ⟨false, ⟨[.ok false], .ok true⟩, .ok (), ⟨[], .ok true⟩⟩
  childPoisoned := false
  wait := .ok ⟨true, some 0⟩
  poisonedAtRemoval := false
  lateCancels := []
  getRun := fun _ => .ok false
  updateRunStatus := fun _ => .ok ()
  runEvent := fun _ => .ok ()

example : (calmEnv "event" (.ok ⟨"probe.completed", .null⟩)).Orderly "run_1" () [] := by
  refine ⟨rfl, rfl, ?_⟩
  exact ⟨rfl, .inl ⟨rfl, .inl rfl⟩⟩

/-- a line that is no event: the command returns the error of the parser, and the child is in the table,
neither waited for nor killed -/
theorem early_return :
    ∃ w', (calmEnv "boom" (.error "expected value at line 1 column 1")).runWorkerCommand "run_1" ()
        (World.start []) = .error ⟨.invalidData, "expected value at line 1 column 1"⟩ w' ∧
      w'.active = [("run_1", 7)] ∧ w'.child = some ⟨7, false, false⟩ ∧ ¬ Restored "run_1" w' := by
  refine ⟨_, rfl, rfl, rfl, fun h => ?_⟩
  exact h.noEntry ⟨("run_1", 7), List.mem_cons_self, rfl⟩

end Runs

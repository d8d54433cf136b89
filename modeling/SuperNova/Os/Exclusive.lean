import Mathlib.Data.Set.Basic
import SuperNova.Lib.Owned
import SuperNova.Os.Kernel

/-!
# Locks that exclude

Runs that work on one workspace lock the paths of each mutation with a file for each, named after the
path as it was given.  Here they take and drop the files one at a time, in any order.

Two runs can hold the locks of two paths at one time when the lock files in their way are different
(`Together`), whatever the paths resolve to.

* `Shared.step`: one file operation of one run;
* `acquire_alone`: a run that nobody interrupts acquires what `acquireLoop` does;
* `Conflict`: two paths that two mutations must not change at one time;
* `Locked`: what holds all along a run of any number of runs;
* `exclusive_iff` (**main**): no two runs ever hold the locks of conflicting paths exactly when the lock
  files of conflicting paths cannot be held together.
-/

set_option linter.unusedSectionVars false

namespace Os

open Workspace

/-! ## mutations -/

/-- the mutations that lock paths: `write_file_with_capability`, `delete_path` and `copy_like` -/
inductive Mutation where
  | writeFile (relativePath : String)
  | deletePath (relativePath : String)
  | copyLike (sourcePath destinationPath : String) (removeSource : Bool)
  deriving DecidableEq

/-- what a mutation does at one of its paths -/
inductive Effect where
  | written | deleted | copied | moved | replaced
  deriving DecidableEq

structure Target where
  path : String
  effect : Effect
  deriving DecidableEq

def Mutation.targets : Mutation → List Target
  | .writeFile relativePath => [⟨relativePath, .written⟩]
  | .deletePath relativePath => [⟨relativePath, .deleted⟩]
  | .copyLike sourcePath destinationPath removeSource =>
    [⟨sourcePath, if removeSource then .moved else .copied⟩, ⟨destinationPath, .replaced⟩]

/-- everything below the path goes with it -/
def Effect.whole : Effect → Bool
  | .deleted | .moved | .replaced => true
  | .written | .copied => false

/-- the paths of a mutation in the order in which it locks them -/
def Mutation.lockPaths (m : Mutation) : List String :=
  ((m.targets.map fun target => normalizePath target.path).insertionSort (· ≤ ·)).dedup

/-! ## runs -/

/-- runs that work on one workspace, each with its state directory -/
structure Shared (Run : Type) where
  workspaceRoot : Path
  stateRoot : Run → Path

/-- where a run is; the locks are those it holds, as normalized paths -/
inductive LockPhase where
  | idle
  | acquiring (m : Mutation) (locks rest : List String)
  | working (m : Mutation) (locks : List String)
  | dropping (m : Mutation) (locks : List String)

def LockPhase.locks : LockPhase → List String
  | .idle => []
  | .acquiring _ locks _ | .working _ locks | .dropping _ locks => locks

def LockPhase.mutation? : LockPhase → Option Mutation
  | .idle => none
  | .acquiring m _ _ | .working m _ | .dropping m _ => some m

structure LockState (Run : Type) where
  files : List Path
  phase : Run → LockPhase

/-- no lock file is there and no run is at a mutation -/
def LockState.initial {Run : Type} : LockState Run := ⟨[], fun _ => .idle⟩

inductive LockAction (Run : Type) where
  | start (i : Run) (m : Mutation)
  | tryAcquire (i : Run)
  /-- the lock file cannot be created, or nothing can be written to it -/
  | acquireFails (i : Run) (created : Bool)
  | finish (i : Run)
  | dropLock (i : Run) (removed : Bool)
  | crash (i : Run)

namespace Shared

variable {Run : Type} [DecidableEq Run]

def lockPath (w : Shared Run) (i : Run) (normalizedPath : String) : Path :=
  w.stateRoot i ++ ["workspace_file_locks", lockFile normalizedPath]

def resolve (w : Shared Run) (path : String) : Except String Path :=
  resolveWorkspacePath w.workspaceRoot path

/-- every path of the mutation resolves, which it does before any lock is taken -/
def Resolves (w : Shared Run) (m : Mutation) : Prop :=
  ∀ target ∈ m.targets, ∃ p, w.resolve target.path = .ok p

instance (w : Shared Run) (m : Mutation) : Decidable (w.Resolves m) :=
  decidable_of_iff (∀ target ∈ m.targets, (w.resolve target.path).isOk = true) <|
    forall₂_congr fun target _ => by cases w.resolve target.path <;> simp [Except.isOk, Except.toBool]

def set (s : LockState Run) (i : Run) (phase : LockPhase) : LockState Run :=
  { s with phase := Function.update s.phase i phase }

/-- one file operation; one that is not the next of its run does nothing -/
def step (w : Shared Run) (s : LockState Run) : LockAction Run → LockState Run
  | .start i m =>
    match s.phase i with
    | .idle => if w.Resolves m then set s i (.acquiring m [] m.lockPaths) else s
    | _ => s
  | .tryAcquire i =>
    match s.phase i with
    | .acquiring m locks [] => set s i (.working m locks)
    | .acquiring m locks (path :: rest) =>
      if w.lockPath i path ∈ s.files then set s i (.dropping m locks)
      else set { s with files := w.lockPath i path :: s.files } i (.acquiring m (locks ++ [path]) rest)
    | _ => s
  | .acquireFails i created =>
    match s.phase i with
    | .acquiring m locks (path :: _) =>
      set { s with files := if created then w.lockPath i path :: s.files else s.files } i
        (.dropping m locks)
    | _ => s
  | .finish i =>
    match s.phase i with
    | .working m locks => set s i (.dropping m locks)
    | _ => s
  | .dropLock i removed =>
    match s.phase i with
    | .dropping _ [] => set s i .idle
    | .dropping m (path :: rest) =>
      set { s with files := if removed then s.files.filter (· ≠ w.lockPath i path) else s.files } i
        (.dropping m rest)
    | _ => s
  | .crash i => set s i .idle

def run (w : Shared Run) (s : LockState Run) (actions : List (LockAction Run)) : LockState Run :=
  actions.foldl w.step s

/-! ## conflicts -/

/-- the paths resolve to one file, or one lies in the other, which is moved, deleted or replaced -/
def Conflict (w : Shared Run) (t u : Target) : Prop :=
  ∃ p q, w.resolve t.path = .ok p ∧ w.resolve u.path = .ok q ∧
    (p = q ∨ (t.effect.whole ∧ p <+: q) ∨ (u.effect.whole ∧ q <+: p))

/-- the run is at the mutation and holds the lock for its target -/
def Holds (s : LockState Run) (i : Run) (m : Mutation) (t : Target) : Prop :=
  (s.phase i).mutation? = some m ∧ t ∈ m.targets ∧ normalizePath t.path ∈ (s.phase i).locks

/-- no two runs hold the locks of conflicting paths -/
def Exclusive (w : Shared Run) (s : LockState Run) : Prop :=
  ∀ i j, i ≠ j → ∀ m t m' u, Holds s i m t → Holds s j m' u → ¬ w.Conflict t u

/-! ## a run alone -/

section
variable {w : Shared Run} {s : LockState Run} {i : Run} {m : Mutation} {locks rest present acquired : List String}

theorem lockPath_inj {p q : String} : w.lockPath i p = w.lockPath i q ↔ lockFile p = lockFile q := by
  simp [lockPath]

theorem run_tryAcquire_dropping (h : s.phase i = .dropping m locks) (n : Nat) :
    w.run s (List.replicate n (.tryAcquire i)) = s := by
  induction n with
  | zero => rfl
  | succ n ih =>
    have hstep : w.step s (.tryAcquire i) = s := by simp only [step, h]
    rw [List.replicate_succ, run, List.foldl_cons, hstep]
    exact ih

theorem acquire_alone (h : s.phase i = .acquiring m locks rest)
    (hfiles : ∀ p, w.lockPath i p ∈ s.files ↔ lockFile p ∈ present) :
    match acquireLoop present acquired rest with
    | .ok _ => (w.run s (List.replicate (rest.length + 1) (.tryAcquire i))).phase i = .working m (locks ++ rest)
    | .error conflict => ∃ taken later, rest = taken ++ conflict :: later ∧
        (w.run s (List.replicate (rest.length + 1) (.tryAcquire i))).phase i =
          .dropping m (locks ++ taken) := by
  induction rest generalizing s locks present acquired with
  | nil =>
    have hstep : w.step s (.tryAcquire i) = set s i (.working m locks) := by simp only [step, h]
    show (w.step s (.tryAcquire i)).phase i = .working m (locks ++ [])
    rw [hstep, List.append_nil]
    exact Function.update_self ..
  | cons path rest ih =>
    rw [acquireLoop]
    by_cases hpresent : lockFile path ∈ present
    · have hstep : w.step s (.tryAcquire i) = set s i (.dropping m locks) := by
        simp only [step, h]
        exact if_pos ((hfiles path).mpr hpresent)
      rw [if_pos hpresent]
      refine ⟨[], rest, rfl, ?_⟩
      have hself : (set s i (.dropping m locks)).phase i = .dropping m locks := Function.update_self ..
      rw [List.replicate_succ, run, List.foldl_cons, hstep]
      show (w.run _ _).phase i = _
      rw [run_tryAcquire_dropping hself, hself, List.append_nil]
    · have hstep : w.step s (.tryAcquire i) = set { s with files := w.lockPath i path :: s.files } i
          (.acquiring m (locks ++ [path]) rest) := by
        simp only [step, h]
        exact if_neg fun hin => hpresent ((hfiles path).mp hin)
      have hself : (set { s with files := w.lockPath i path :: s.files } i
          (.acquiring m (locks ++ [path]) rest)).phase i = .acquiring m (locks ++ [path]) rest :=
        Function.update_self ..
      have hnext := @ih _ _ (lockFile path :: present) (lockFile path :: acquired) hself
        fun p => by
          show w.lockPath i p ∈ w.lockPath i path :: s.files ↔ _
          rw [List.mem_cons, List.mem_cons, lockPath_inj, hfiles p]
      rw [if_neg hpresent, List.length_cons, List.replicate_succ, run, List.foldl_cons, hstep]
      cases hloop : acquireLoop (lockFile path :: present) (lockFile path :: acquired) rest with
      | ok taken =>
        rw [hloop] at hnext
        show (w.run _ _).phase i = _
        rw [hnext, List.append_assoc]
        rfl
      | error conflict =>
        rw [hloop] at hnext
        obtain ⟨taken, later, hrest, hphase⟩ := hnext
        refine ⟨path :: taken, later, by rw [hrest]; rfl, ?_⟩
        show (w.run _ _).phase i = _
        rw [hphase, List.append_assoc]
        rfl

end

end Shared

end Os

namespace Os

open Workspace LockFiles

namespace Shared

variable {Run : Type} [DecidableEq Run] {w : Shared Run} {s s' : LockState Run} {i j : Run}

/-- the lock files that a run holds -/
def held (w : Shared Run) (s : LockState Run) (i : Run) : List Path :=
  (s.phase i).locks.map (w.lockPath i)

/-- the lock file of a target -/
def lockOf (w : Shared Run) (i : Run) (t : Target) : Path := w.lockPath i (normalizePath t.path)

/-- the lock files that a run creates for a mutation, up to the one of the target -/
def upTo (w : Shared Run) (i : Run) (m : Mutation) (t : Target) : List Path :=
  (m.lockPaths.takeWhile (· ≠ normalizePath t.path)).map (w.lockPath i) ++ [w.lockOf i t]

/-- two runs can hold the locks of two targets at one time -/
structure Together (w : Shared Run) (i : Run) (m : Mutation) (t : Target) (j : Run) (m' : Mutation)
    (u : Target) : Prop where
  left : (w.upTo i m t).Nodup
  right : (w.upTo j m' u).Nodup
  ne : w.lockOf i t ≠ w.lockOf j u
  apart : w.lockOf i t ∉ w.upTo j m' u ∨ w.lockOf j u ∉ w.upTo i m t

/-- what holds all along a run in which each run asks for some mutations only -/
structure Locked (w : Shared Run) (ops : Run → Set Mutation) (s : LockState Run) : Prop where
  owned : Owned s.files (w.held s)
  asked : ∀ i m, (s.phase i).mutation? = some m → m ∈ ops i ∧ w.Resolves m
  inOrder : ∀ i m locks rest, s.phase i = .acquiring m locks rest → locks ++ rest = m.lockPaths
  distinct : ∀ i m t, Holds s i m t → (w.upTo i m t).Nodup
  apart : ∀ i j, i ≠ j → ∀ m t m' u, Holds s i m t → Holds s j m' u →
    w.lockOf i t ∉ w.upTo j m' u ∨ w.lockOf j u ∉ w.upTo i m t

section
variable {ops : Run → Set Mutation} {m m' : Mutation} {t u : Target} {phase : LockPhase}
  {files : List Path} {locks rest : List String} {path : String}

theorem set_self : (set s i phase).phase i = phase := Function.update_self ..

theorem set_of_ne (h : j ≠ i) : (set s i phase).phase j = s.phase j := Function.update_of_ne h ..

theorem held_set : w.held (set s i phase) = Function.update (w.held s) i (phase.locks.map (w.lockPath i)) := by
  funext j
  unfold held
  by_cases hj : j = i
  · subst hj
    rw [set_self, Function.update_self]
  · rw [set_of_ne hj, Function.update_of_ne hj]

theorem mem_held (h : Holds s i m t) : w.lockOf i t ∈ w.held s i := List.mem_map_of_mem h.2.2

theorem Locked.together (h : Locked w ops s) (hne : i ≠ j) (ht : Holds s i m t) (hu : Holds s j m' u) :
    w.Together i m t j m' u where
  left := h.distinct i m t ht
  right := h.distinct j m' u hu
  ne := fun heq => h.owned.not_mem (mem_held ht) hne (heq ▸ mem_held hu)
  apart := h.apart i j hne m t m' u ht hu

/-! ## one step -/

theorem Locked.goesOn (h : Locked w ops s) (hlocks : phase.locks.Sublist (s.phase i).locks)
    (hmutation : ∀ m, phase.mutation? = some m → (s.phase i).mutation? = some m ∨
      phase.locks = [] ∧ m ∈ ops i ∧ w.Resolves m)
    (horder : ∀ m locks rest, phase = .acquiring m locks rest → locks ++ rest = m.lockPaths)
    (howned : Owned files (w.held (set { s with files } i phase))) :
    Locked w ops (set { s with files } i phase) := by
  have hback : ∀ j m t, Holds (set { s with files } i phase) j m t → Holds s j m t := by
    rintro j m t ⟨hm, ht, hlock⟩
    by_cases hj : j = i
    · subst hj
      rw [set_self] at hm hlock
      refine ⟨?_, ht, hlocks.subset hlock⟩
      rcases hmutation m hm with hsame | ⟨hnone, -⟩
      · exact hsame
      · rw [hnone] at hlock
        cases hlock
    · rw [set_of_ne hj] at hm hlock
      exact ⟨hm, ht, hlock⟩
  constructor
  · exact howned
  · intro j m hm
    by_cases hj : j = i
    · subst hj
      rw [set_self] at hm
      rcases hmutation m hm with hsame | ⟨-, hasked⟩
      · exact h.asked j m hsame
      · exact hasked
    · rw [set_of_ne hj] at hm
      exact h.asked j m hm
  · intro j m locks rest hphase
    by_cases hj : j = i
    · subst hj
      rw [set_self] at hphase
      exact horder m locks rest hphase
    · rw [set_of_ne hj] at hphase
      exact h.inOrder j m locks rest hphase
  · intro j m t ht
    exact h.distinct j m t (hback j m t ht)
  · intro j k hne m t m' u ht hu
    exact h.apart j k hne m t m' u (hback j m t ht) (hback k m' u hu)

theorem Locked.moves (h : Locked w ops s) (hfiles : s.files ⊆ files)
    (hlocks : phase.locks.Sublist (s.phase i).locks)
    (hmutation : ∀ m, phase.mutation? = some m → (s.phase i).mutation? = some m ∨
      phase.locks = [] ∧ m ∈ ops i ∧ w.Resolves m)
    (horder : ∀ m locks rest, phase = .acquiring m locks rest → locks ++ rest = m.lockPaths) :
    Locked w ops (set { s with files } i phase) := by
  refine h.goesOn hlocks hmutation horder (h.owned.forget (fun j => ?_) fun j f _ hf => hfiles hf)
  have hsub : (phase.locks.map (w.lockPath i)).Sublist (w.held s i) := hlocks.map _
  rw [held_set]
  exact update_sublist hsub j

theorem Locked.stays (h : Locked w ops s) (hlocks : phase.locks.Sublist (s.phase i).locks)
    (hmutation : ∀ m, phase.mutation? = some m → (s.phase i).mutation? = some m ∨
      phase.locks = [] ∧ m ∈ ops i ∧ w.Resolves m)
    (horder : ∀ m locks rest, phase = .acquiring m locks rest → locks ++ rest = m.lockPaths) :
    Locked w ops (set s i phase) := h.moves (fun _ hf => hf) hlocks hmutation horder

theorem lockPaths_nodup (m : Mutation) : m.lockPaths.Nodup := List.nodup_dedup _

theorem takeWhile_ne (hnodup : (locks ++ path :: rest).Nodup) :
    (locks ++ path :: rest).takeWhile (· ≠ path) = locks := by
  have hlocks : ∀ p ∈ locks, p ≠ path := fun p hp heq =>
    (List.nodup_append.mp hnodup).2.2 p hp path List.mem_cons_self heq
  rw [List.takeWhile_append_of_pos fun p hp => decide_eq_true (hlocks p hp),
    List.takeWhile_cons_of_neg (by simp), List.append_nil]

theorem upTo_eq (h : locks ++ path :: rest = m.lockPaths) (ht : normalizePath t.path = path) :
    w.upTo i m t = (locks ++ [path]).map (w.lockPath i) := by
  rw [upTo, lockOf, ht, ← h, takeWhile_ne (h ▸ lockPaths_nodup m), List.map_append]
  rfl

theorem Locked.takes (h : Locked w ops s) (hphase : s.phase i = .acquiring m locks (path :: rest))
    (hnew : w.lockPath i path ∉ s.files)
    (hs' : s' = set { s with files := w.lockPath i path :: s.files } i (.acquiring m (locks ++ [path]) rest)) :
    Locked w ops s' := by
  have horder := h.inOrder i m locks (path :: rest) hphase
  have hself : s'.phase i = .acquiring m (locks ++ [path]) rest := by rw [hs', set_self]
  have hother : ∀ j, j ≠ i → s'.phase j = s.phase j := fun j hj => by rw [hs', set_of_ne hj]
  have howned : Owned s'.files (w.held s') := by
    have hheld : w.held s i = locks.map (w.lockPath i) := by rw [held, hphase]; rfl
    have hcreate := h.owned.create (i := i) hnew
    rw [hheld] at hcreate
    rw [hs', held_set]
    show Owned _ (Function.update (w.held s) i ((locks ++ [path]).map (w.lockPath i)))
    rw [List.map_append]
    exact hcreate
  -- the lock files up to a new target are all held
  have hnewest : ∀ t, normalizePath t.path = path → w.upTo i m t = w.held s' i := by
    intro t ht
    rw [upTo_eq horder ht, held, hself]
    rfl
  have hback : ∀ j m' t, Holds s' j m' t → Holds s j m' t ∨ j = i ∧ m' = m ∧ normalizePath t.path = path := by
    rintro j m' t ⟨hm, ht, hlock⟩
    by_cases hj : j = i
    · subst hj
      rw [hself] at hm hlock
      cases hm
      rcases List.mem_append.mp hlock with hold | hlast
      · exact Or.inl ⟨by rw [hphase]; rfl, ht, by rw [hphase]; exact hold⟩
      · exact Or.inr ⟨rfl, rfl, List.mem_singleton.mp hlast⟩
    · rw [hother j hj] at hm hlock
      exact Or.inl ⟨hm, ht, hlock⟩
  constructor
  · exact howned
  · intro j m' hm
    by_cases hj : j = i
    · subst hj
      rw [hself] at hm
      cases hm
      exact h.asked j m (by rw [hphase]; rfl)
    · rw [hother j hj] at hm
      exact h.asked j m' hm
  · intro j m' locks' rest' hphase'
    by_cases hj : j = i
    · subst hj
      rw [hself] at hphase'
      cases hphase'
      rw [List.append_assoc]
      exact horder
    · rw [hother j hj] at hphase'
      exact h.inOrder j m' locks' rest' hphase'
  · intro j m' t ht
    rcases hback j m' t ht with hold | ⟨rfl, rfl, hpath⟩
    · exact h.distinct j m' t hold
    · rw [hnewest t hpath]
      exact howned.nodup _
  · intro j k hne m₁ t m₂ u ht hu
    rcases hback j m₁ t ht with holdt | ⟨rfl, rfl, hpath⟩
    · rcases hback k m₂ u hu with holdu | ⟨rfl, rfl, hpath⟩
      · exact h.apart j k hne m₁ t m₂ u holdt holdu
      · left
        rw [hnewest u hpath]
        exact howned.not_mem (mem_held ht) hne
    · right
      rw [hnewest t hpath]
      exact howned.not_mem (mem_held hu) hne.symm

/-- what a run may ask for -/
def Asks (ops : Run → Set Mutation) : LockAction Run → Prop
  | .start i m => m ∈ ops i
  | _ => True

theorem locked_step (h : Locked w ops s) {action : LockAction Run} (hasks : Asks ops action) :
    Locked w ops (w.step s action) := by
  cases action with
  | start i m =>
    rw [step]
    split
    · split
      · next hresolves =>
        refine h.stays (List.nil_sublist _) (fun m' hm => ?_) ?_
        · cases hm
          exact Or.inr ⟨rfl, hasks, hresolves⟩
        · rintro m' locks rest ⟨⟩
          rfl
      · exact h
    · exact h
  | tryAcquire i =>
    rw [step]
    split
    · next m locks hphase =>
      refine h.stays (by rw [hphase]; exact .refl _)
        (fun m' hm => Or.inl ?_) (by rintro _ _ _ ⟨⟩)
      rw [hphase]
      exact hm
    · next m locks path rest hphase =>
      split
      · refine h.stays (by rw [hphase]; exact .refl _)
          (fun m' hm => Or.inl ?_) (by rintro _ _ _ ⟨⟩)
        rw [hphase]
        exact hm
      · next hnew => exact h.takes hphase hnew rfl
    · exact h
  | acquireFails i created =>
    rw [step]
    split
    · next m locks path rest hphase =>
      refine h.moves (fun f hf => ?_) (by rw [hphase]; exact .refl _) (fun m' hm => Or.inl ?_) (by rintro _ _ _ ⟨⟩)
      · split
        · exact List.mem_cons_of_mem _ hf
        · exact hf
      · rw [hphase]
        exact hm
    · exact h
  | finish i =>
    rw [step]
    split
    · next m locks hphase =>
      refine h.stays (by rw [hphase]; exact .refl _)
        (fun m' hm => Or.inl ?_) (by rintro _ _ _ ⟨⟩)
      rw [hphase]
      exact hm
    · exact h
  | dropLock i removed =>
    rw [step]
    split
    · exact h.stays (List.nil_sublist _) (by rintro _ ⟨⟩) (by rintro _ _ _ ⟨⟩)
    · next m path rest hphase =>
      have hlocks : (LockPhase.dropping m rest).locks.Sublist (s.phase i).locks := by
        rw [hphase]
        exact List.sublist_cons_self ..
      have hmutation : ∀ m', (LockPhase.dropping m rest).mutation? = some m' →
          (s.phase i).mutation? = some m' ∨ rest = [] ∧ m' ∈ ops i ∧ w.Resolves m' := by
        intro m' hm
        rw [hphase]
        exact Or.inl hm
      cases removed with
      | false => exact h.stays hlocks hmutation (by rintro _ _ _ ⟨⟩)
      | true =>
        refine h.goesOn hlocks hmutation (by rintro _ _ _ ⟨⟩) ?_
        rw [held_set]
        exact h.owned.remove (by rw [held, hphase]; rfl)
    · exact h
  | crash i => exact h.stays (List.nil_sublist _) (by rintro _ ⟨⟩) (by rintro _ _ _ ⟨⟩)

theorem locked_initial : Locked w ops .initial where
  owned := owned_nil _
  asked _ _ h := nomatch h
  inOrder _ _ _ _ h := nomatch h
  distinct _ _ _ h := nomatch h.2.2
  apart _ _ _ _ _ _ _ h := nomatch h.2.2

/-! ## runs -/

/-- some order of file operations leads to the state -/
def Reachable (w : Shared Run) (ops : Run → Set Mutation) (s : LockState Run) : Prop :=
  ∃ actions, (∀ action ∈ actions, Asks ops action) ∧ w.run .initial actions = s

theorem reachable_initial : Reachable w ops .initial := ⟨[], nofun, rfl⟩

theorem Reachable.step (h : Reachable w ops s) (action : LockAction Run) (hasks : Asks ops action) :
    Reachable w ops (w.step s action) := by
  obtain ⟨actions, hall, rfl⟩ := h
  refine ⟨actions ++ [action], ?_, List.foldl_concat ..⟩
  intro a ha
  rcases List.mem_append.mp ha with hold | hlast
  · exact hall a hold
  · exact List.mem_singleton.mp hlast ▸ hasks

theorem Reachable.locked (h : Reachable w ops s) : Locked w ops s := by
  obtain ⟨actions, hall, rfl⟩ := h
  induction actions using List.reverseRecOn with
  | nil => exact locked_initial
  | append_singleton actions action ih =>
    have hrun : w.run .initial (actions ++ [action]) = w.step (w.run .initial actions) action :=
      List.foldl_concat ..
    rw [hrun]
    refine locked_step (ih fun a ha => hall a (List.mem_append_left _ ha)) ?_
    exact hall action (List.mem_append_right _ List.mem_cons_self)

theorem Reachable.acquires {paths : List String} (h : Reachable w ops s)
    (hphase : s.phase i = .acquiring m locks (paths ++ rest)) (hnodup : (paths.map (w.lockPath i)).Nodup)
    (hnew : ∀ p ∈ paths, w.lockPath i p ∉ s.files) :
    ∃ s', Reachable w ops s' ∧ s'.phase = Function.update s.phase i (.acquiring m (locks ++ paths) rest) ∧
      ∀ f, f ∈ s'.files ↔ f ∈ s.files ∨ f ∈ paths.map (w.lockPath i) := by
  induction paths generalizing s locks with
  | nil =>
    refine ⟨s, h, ?_, fun f => by simp⟩
    rw [List.append_nil, ← (show s.phase i = .acquiring m locks rest from hphase), Function.update_eq_self]
  | cons path paths ih =>
    have hstep : w.step s (.tryAcquire i) = set { s with files := w.lockPath i path :: s.files } i
        (.acquiring m (locks ++ [path]) (paths ++ rest)) := by
      simp only [Shared.step, hphase, List.cons_append]
      exact if_neg (hnew path List.mem_cons_self)
    have hcons := List.nodup_cons.mp hnodup
    have hreach : Reachable w ops (set { s with files := w.lockPath i path :: s.files } i
        (.acquiring m (locks ++ [path]) (paths ++ rest))) := by
      rw [← hstep]
      exact h.step (.tryAcquire i) trivial
    obtain ⟨s', hs', hphase', hfiles'⟩ := ih hreach set_self hcons.2 (by
      intro p hp hmem
      rcases List.mem_cons.mp hmem with heq | hold
      · exact hcons.1 (heq ▸ List.mem_map_of_mem hp)
      · exact hnew p (List.mem_cons_of_mem _ hp) hold)
    refine ⟨s', hs', ?_, fun f => ?_⟩
    · rw [hphase']
      show Function.update (Function.update s.phase i _) i _ = _
      rw [Function.update_idem, List.append_assoc]
      rfl
    · rw [hfiles' f, List.map_cons, List.mem_cons]
      show f ∈ w.lockPath i path :: s.files ∨ _ ↔ _
      rw [List.mem_cons]
      tauto

theorem Reachable.drops {paths : List String} (h : Reachable w ops s)
    (hphase : s.phase i = .dropping m (paths ++ rest)) :
    ∃ s', Reachable w ops s' ∧ s'.phase = Function.update s.phase i (.dropping m rest) ∧
      ∀ f, f ∈ s'.files ↔ f ∈ s.files ∧ f ∉ paths.map (w.lockPath i) := by
  induction paths generalizing s with
  | nil =>
    refine ⟨s, h, ?_, fun f => by simp⟩
    rw [← (show s.phase i = .dropping m rest from hphase), Function.update_eq_self]
  | cons path paths ih =>
    have hstep : w.step s (.dropLock i true) = set { s with files := s.files.filter (· ≠ w.lockPath i path) } i
        (.dropping m (paths ++ rest)) := by
      simp only [Shared.step, hphase, List.cons_append]
      rfl
    have hreach : Reachable w ops (set { s with files := s.files.filter (· ≠ w.lockPath i path) } i
        (.dropping m (paths ++ rest))) := by
      rw [← hstep]
      exact h.step (.dropLock i true) trivial
    obtain ⟨s', hs', hphase', hfiles'⟩ := ih hreach set_self
    refine ⟨s', hs', ?_, fun f => ?_⟩
    · rw [hphase']
      show Function.update (Function.update s.phase i _) i _ = _
      rw [Function.update_idem]
    · rw [hfiles' f, List.map_cons, List.mem_cons]
      show f ∈ s.files.filter (· ≠ w.lockPath i path) ∧ _ ↔ _
      rw [List.mem_filter, decide_eq_true_iff]
      tauto

theorem Reachable.leaves (h : Reachable w ops s) (hphase : s.phase i = .acquiring m locks rest) :
    Reachable w ops (set s i (.dropping m locks)) := by
  cases rest with
  | nil =>
    have hworks : w.step s (.tryAcquire i) = set s i (.working m locks) := by simp only [Shared.step, hphase]
    have hfinish : w.step (set s i (.working m locks)) (.finish i) = set s i (.dropping m locks) := by
      simp only [Shared.step, set_self]
      exact congrArg (LockState.mk s.files) (Function.update_idem ..)
    rw [← hfinish, ← hworks]
    exact (h.step (.tryAcquire i) trivial).step (.finish i) trivial
  | cons path rest =>
    have hfails : w.step s (.acquireFails i false) = set s i (.dropping m locks) := by
      simp only [Shared.step, hphase]
      rfl
    rw [← hfails]
    exact h.step (.acquireFails i false) trivial

theorem mem_lockPaths (ht : t ∈ m.targets) : normalizePath t.path ∈ m.lockPaths := by
  have hpath : normalizePath t.path ∈ m.targets.map fun target => normalizePath target.path :=
    List.mem_map_of_mem ht
  exact List.mem_dedup.mpr ((List.perm_insertionSort _ _).mem_iff.mpr hpath)

theorem Reachable.takesUpTo (h : Reachable w ops s) (hidle : s.phase i = .idle) (hm : m ∈ ops i)
    (hresolves : w.Resolves m) (ht : t ∈ m.targets) (hnodup : (w.upTo i m t).Nodup)
    (hnew : ∀ f ∈ w.upTo i m t, f ∉ s.files) :
    ∃ s' before rest, Reachable w ops s' ∧ w.upTo i m t = (before ++ [normalizePath t.path]).map (w.lockPath i) ∧
      s'.phase = Function.update s.phase i (.acquiring m (before ++ [normalizePath t.path]) rest) ∧
      ∀ f, f ∈ s'.files ↔ f ∈ s.files ∨ f ∈ w.upTo i m t := by
  obtain ⟨before, rest, hpaths⟩ := List.append_of_mem (mem_lockPaths ht)
  have hupTo : w.upTo i m t = (before ++ [normalizePath t.path]).map (w.lockPath i) := upTo_eq hpaths.symm rfl
  have hstart : w.step s (.start i m) = set s i (.acquiring m [] m.lockPaths) := by
    simp only [Shared.step, hidle]
    exact if_pos hresolves
  have hstarted := h.step (.start i m) hm
  rw [hstart] at hstarted
  have hphase : (set s i (.acquiring m [] m.lockPaths)).phase i =
      .acquiring m [] ((before ++ [normalizePath t.path]) ++ rest) := by
    rw [set_self, hpaths, List.append_assoc]
    rfl
  obtain ⟨s', hs', hphase', hfiles'⟩ := hstarted.acquires hphase (hupTo ▸ hnodup) (fun p hp =>
    hnew _ (hupTo ▸ List.mem_map_of_mem hp))
  refine ⟨s', before, rest, hs', hupTo, ?_, fun f => ?_⟩
  · rw [hphase']
    exact Function.update_idem ..
  · rw [hfiles' f, hupTo]
    rfl

theorem exists_holds (hm : m ∈ ops i) (hresolves : w.Resolves m) (ht : t ∈ m.targets)
    (hnodup : (w.upTo i m t).Nodup) :
    ∃ s, Reachable w ops s ∧ Holds s i m t ∧ (∀ j, j ≠ i → s.phase j = .idle) ∧
      ∀ f ∈ s.files, f = w.lockOf i t := by
  obtain ⟨s, before, rest, hs, hupTo, hphase, hfiles⟩ :=
    reachable_initial.takesUpTo (s := .initial) rfl hm hresolves ht hnodup fun _ _ => nofun
  have hleaves := hs.leaves (i := i) (by rw [hphase, Function.update_self])
  obtain ⟨s', hs', hphase', hfiles'⟩ := hleaves.drops (i := i) set_self
  refine ⟨s', hs', ⟨?_, ht, ?_⟩, fun j hj => ?_, fun f hf => ?_⟩
  · rw [hphase', Function.update_self]
    rfl
  · rw [hphase', Function.update_self]
    exact List.mem_cons_self
  · rw [hphase', Function.update_of_ne hj, set_of_ne hj, hphase, Function.update_of_ne hj]
    rfl
  · obtain ⟨hin, hout⟩ := (hfiles' f).mp hf
    have hmem : f ∈ w.upTo i m t := ((hfiles f).mp hin).resolve_left nofun
    rw [hupTo, List.map_append] at hmem
    exact List.mem_singleton.mp ((List.mem_append.mp hmem).resolve_left hout)

theorem exists_both (hne : i ≠ j) (hm : m ∈ ops i) (hm' : m' ∈ ops j) (hresolves : w.Resolves m)
    (hresolves' : w.Resolves m') (ht : t ∈ m.targets) (hu : u ∈ m'.targets)
    (htogether : w.Together i m t j m' u) (hapart : w.lockOf i t ∉ w.upTo j m' u) :
    ∃ s, Reachable w ops s ∧ Holds s i m t ∧ Holds s j m' u := by
  obtain ⟨s, hs, hholds, hidle, hfiles⟩ := exists_holds hm hresolves ht htogether.left
  obtain ⟨s', before, rest, hs', -, hphase, -⟩ := hs.takesUpTo (hidle j hne.symm) hm' hresolves' hu
    htogether.right fun f hf hin => hapart (hfiles f hin ▸ hf)
  refine ⟨s', hs', ?_, ?_, hu, ?_⟩
  · obtain ⟨hmutation, -, hlock⟩ := hholds
    unfold Holds
    rw [hphase, Function.update_of_ne hne]
    exact ⟨hmutation, ht, hlock⟩
  · rw [hphase, Function.update_self]
    rfl
  · rw [hphase, Function.update_self]
    exact List.mem_append_right _ List.mem_cons_self

theorem Together.symm (h : w.Together i m t j m' u) : w.Together j m' u i m t :=
  ⟨h.right, h.left, h.ne.symm, h.apart.symm⟩

end

/-- **whatever the order of the file operations of any number of runs, no two of them hold the locks of
conflicting paths at one time, exactly when the lock files of conflicting paths of mutations that they may
ask for cannot be held together** -/
theorem exclusive_iff (w : Shared Run) (ops : Run → Set Mutation) :
    (∀ actions, (∀ action ∈ actions, Asks ops action) → w.Exclusive (w.run .initial actions)) ↔
    ∀ i j, i ≠ j → ∀ m ∈ ops i, ∀ m' ∈ ops j, w.Resolves m → w.Resolves m' →
      ∀ t ∈ m.targets, ∀ u ∈ m'.targets, w.Together i m t j m' u → ¬ w.Conflict t u := by
  constructor
  · intro hall i j hne m hm m' hm' hresolves hresolves' t ht u hu htogether hconflict
    have hboth : ∃ s, Reachable w ops s ∧ Holds s i m t ∧ Holds s j m' u := by
      rcases htogether.apart with hapart | hapart
      · exact exists_both hne hm hm' hresolves hresolves' ht hu htogether hapart
      · obtain ⟨s, hs, hright, hleft⟩ :=
          exists_both hne.symm hm' hm hresolves' hresolves hu ht htogether.symm hapart
        exact ⟨s, hs, hleft, hright⟩
    obtain ⟨s, ⟨actions, hasks, rfl⟩, hleft, hright⟩ := hboth
    exact hall actions hasks i j hne m t m' u hleft hright hconflict
  · intro hall actions hasks i j hne m t m' u ht hu hconflict
    have hlocked : Locked w ops (w.run .initial actions) := Reachable.locked ⟨actions, hasks, rfl⟩
    obtain ⟨hm, hresolves⟩ := hlocked.asked i m ht.1
    obtain ⟨hm', hresolves'⟩ := hlocked.asked j m' hu.1
    exact hall i j hne m hm m' hm' hresolves hresolves' t ht.2.1 u hu.2.1 (hlocked.together hne ht hu)
      hconflict

/-! ## two spellings of one file -/

theorem upTo_writeFile (w : Shared Run) (i : Run) (path : String) :
    w.upTo i (.writeFile path) ⟨path, .written⟩ = [w.lockOf i ⟨path, .written⟩] := by
  have hpaths : (Mutation.writeFile path).lockPaths = [] ++ normalizePath path :: [] := rfl
  exact upTo_eq (t := ⟨path, .written⟩) hpaths.symm rfl

/-- two runs that write one file under two spellings -/
def spellings : Shared Bool := ⟨["w"], fun _ => ["w", "state"]⟩

theorem spellings_together : spellings.Together false (.writeFile "a.txt") ⟨"a.txt", .written⟩ true
    (.writeFile "./a.txt") ⟨"./a.txt", .written⟩ := by
  have hne : spellings.lockOf false ⟨"a.txt", .written⟩ ≠ spellings.lockOf true ⟨"./a.txt", .written⟩ := by
    decide
  refine ⟨?_, ?_, hne, Or.inl ?_⟩
  · rw [upTo_writeFile]
    exact List.nodup_singleton _
  · rw [upTo_writeFile]
    exact List.nodup_singleton _
  · rw [upTo_writeFile]
    exact fun h => hne (List.mem_singleton.mp h)

theorem both_spellings_held : ¬ ∀ (w : Shared Bool) (actions : List (LockAction Bool)),
    w.Exclusive (w.run .initial actions) := by
  intro h
  have hresolve : ∀ path, path = "a.txt" ∨ path = "./a.txt" → spellings.resolve path = .ok ["w", "a.txt"] := by
    rintro path (rfl | rfl) <;> decide
  have hresolves : ∀ path, path = "a.txt" ∨ path = "./a.txt" → spellings.Resolves (.writeFile path) := by
    intro path hpath target htarget
    rw [List.mem_singleton.mp htarget]
    exact ⟨_, hresolve path hpath⟩
  obtain ⟨s, ⟨actions, -, rfl⟩, hleft, hright⟩ := @exists_both Bool _ spellings false true
    (fun _ => Set.univ) _ _ _ _ (by decide) trivial trivial (hresolves "a.txt" (Or.inl rfl))
      (hresolves "./a.txt" (Or.inr rfl))
    List.mem_cons_self List.mem_cons_self spellings_together (by
      rw [upTo_writeFile]
      exact fun h => spellings_together.ne (List.mem_singleton.mp h))
  exact h spellings actions false true (by decide) _ _ _ _ hleft hright
    ⟨_, _, hresolve _ (Or.inl rfl), hresolve _ (Or.inr rfl), Or.inl rfl⟩

end Shared

end Os

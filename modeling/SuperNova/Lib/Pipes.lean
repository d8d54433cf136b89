import Mathlib.Algebra.GroupWithZero.Nat
import Mathlib.Data.List.Basic
import Mathlib.Logic.Function.Basic

/-!
# Writers of bounded pipes

A program writes bytes to pipes, one after the other, and then exits.  A write blocks while the pipe holds as many
unread bytes as fit into it.

* `Program.exited_read_iff`: when every byte is read at once, the program exits after the sum of its delays;
* `Program.exited_unread_iff` (**main**): when nobody reads, it exits if and only if each of its outputs fits into
  the pipe, and then it exits at that same time;
* `Program.output_of_exited`: at the exit everything is written.
-/

set_option linter.unusedSectionVars false

namespace Pipes

variable {ι β : Type} [DecidableEq ι]

/-- a byte for one pipe, and how long after the write before it -/
structure Write (ι β : Type) where
  after : Nat
  pipe : ι
  byte : β

structure Program (ι β : Type) where
  writes : List (Write ι β)
  exitAfter : Nat

/-- the bytes for one pipe -/
def written (i : ι) (ws : List (Write ι β)) : List β := (ws.filter (·.pipe = i)).map (·.byte)

def delays (ws : List (Write ι β)) : Nat := (ws.map (·.after)).sum

/-- how long the program takes when nothing blocks -/
def Program.time (p : Program ι β) : Nat := delays p.writes + p.exitAfter

/-! ## runs -/

/-- what becomes of the bytes before the program has exited -/
inductive Reader where
  | atOnce
  | never
  deriving DecidableEq

/-- a program on its way: the time of its last write, what is left to write, the bytes that each pipe got, and how
many of them are unread -/
structure Process (ι β : Type) where
  since : Nat
  rest : List (Write ι β)
  output : ι → List β
  unread : ι → Nat

def Process.put (reader : Reader) (q : Process ι β) (w : Write ι β) (rest : List (Write ι β)) : Process ι β where
  since := q.since + w.after
  rest
  output := Function.update q.output w.pipe (q.output w.pipe ++ [w.byte])
  unread :=
    match reader with
    | .atOnce => q.unread
    | .never => Function.update q.unread w.pipe (q.unread w.pipe + 1)

/-- the writes up to a time; the first one that blocks is the last one -/
def advance (reader : Reader) (capacity now : Nat) (q : Process ι β) : List (Write ι β) → Process ι β
  | [] => { q with rest := [] }
  | w :: rest =>
    if q.since + w.after ≤ now ∧ q.unread w.pipe < capacity then
      advance reader capacity now (q.put reader w rest) rest
    else { q with rest := w :: rest }

def Process.start : Process ι β := ⟨0, [], fun _ => [], fun _ => 0⟩

/-- the process at a time after its start -/
def Program.run (p : Program ι β) (reader : Reader) (capacity now : Nat) : Process ι β :=
  advance reader capacity now .start p.writes

/-- everything is written and the time to exit has come -/
def Process.Exited (q : Process ι β) (exitAfter now : Nat) : Prop := q.rest = [] ∧ q.since + exitAfter ≤ now

instance (q : Process ι β) (exitAfter now : Nat) : Decidable (q.Exited exitAfter now) :=
  haveI : Decidable (q.rest = []) := decidable_of_iff (q.rest.isEmpty = true) List.isEmpty_iff
  instDecidableAnd

def Program.Exited (p : Program ι β) (reader : Reader) (capacity now : Nat) : Prop :=
  (p.run reader capacity now).Exited p.exitAfter now

instance (p : Program ι β) (reader : Reader) (capacity now : Nat) : Decidable (p.Exited reader capacity now) :=
  inferInstanceAs (Decidable (Process.Exited _ _ _))

/-! ## exits -/

section
variable {w : Write ι β} {ws rest : List (Write ι β)} {q : Process ι β} {capacity now exitAfter : Nat} {i : ι}
  {reader : Reader} {p : Program ι β}

theorem written_cons_self : written w.pipe (w :: ws) = w.byte :: written w.pipe ws := by
  simp [written]

theorem written_cons_of_ne (h : w.pipe ≠ i) : written i (w :: ws) = written i ws := by
  simp [written, h]

@[simp] theorem delays_cons : delays (w :: ws) = w.after + delays ws := by simp [delays]

@[simp] theorem since_put : (q.put reader w rest).since = q.since + w.after := rfl

theorem room_put (ws : List (Write ι β)) (i : ι) :
    (q.put .never w rest).unread i + (written i ws).length = q.unread i + (written i (w :: ws)).length := by
  show Function.update q.unread w.pipe (q.unread w.pipe + 1) i + _ = _
  by_cases hi : w.pipe = i
  · subst hi
    rw [Function.update_self, written_cons_self, List.length_cons]
    omega
  · rw [Function.update_of_ne (Ne.symm hi), written_cons_of_ne hi]

theorem advance_read_exited (h : ∀ i, q.unread i < capacity) (ws : List (Write ι β)) :
    (advance .atOnce capacity now q ws).Exited exitAfter now ↔ q.since + (delays ws + exitAfter) ≤ now := by
  induction ws generalizing q with
  | nil =>
    show ([] = [] ∧ q.since + exitAfter ≤ now) ↔ _
    simp [delays]
  | cons w rest ih =>
    rw [advance, delays_cons]
    split
    · have hput : ∀ i, (q.put .atOnce w rest).unread i < capacity := h
      rw [ih hput, since_put]
      omega
    · rename_i hblocked
      have hlate : ¬ q.since + w.after ≤ now := fun hdue => hblocked ⟨hdue, h w.pipe⟩
      have hstays : ¬ ({ q with rest := w :: rest } : Process ι β).Exited exitAfter now :=
        fun hexit => absurd hexit.1 (List.cons_ne_nil w rest)
      exact iff_of_false hstays (by omega)

theorem advance_unread_exited (h : ∀ i, q.unread i ≤ capacity) (ws : List (Write ι β)) :
    (advance .never capacity now q ws).Exited exitAfter now ↔
      (∀ i, q.unread i + (written i ws).length ≤ capacity) ∧ q.since + (delays ws + exitAfter) ≤ now := by
  induction ws generalizing q with
  | nil =>
    show ([] = [] ∧ q.since + exitAfter ≤ now) ↔ _
    simp [delays, written, h]
  | cons w rest ih =>
    rw [advance, delays_cons]
    split
    · rename_i hgo
      have hput : ∀ i, (q.put .never w rest).unread i ≤ capacity := by
        intro i
        show Function.update q.unread w.pipe (q.unread w.pipe + 1) i ≤ capacity
        by_cases hi : i = w.pipe
        · rw [hi, Function.update_self]
          exact hgo.2
        · rw [Function.update_of_ne hi]
          exact h i
      have htime : q.since + w.after + (delays rest + exitAfter) = q.since + (w.after + delays rest + exitAfter) := by
        omega
      rw [ih hput, since_put, htime]
      simp only [room_put]
    · rename_i hblocked
      have hstays : ¬ ({ q with rest := w :: rest } : Process ι β).Exited exitAfter now :=
        fun hexit => absurd hexit.1 (List.cons_ne_nil w rest)
      refine iff_of_false hstays ?_
      rintro ⟨hroom, htime⟩
      have hfull := hroom w.pipe
      rw [written_cons_self, List.length_cons] at hfull
      exact hblocked ⟨by omega, by omega⟩

theorem Program.exited_read_iff (h : 0 < capacity) : p.Exited .atOnce capacity now ↔ p.time ≤ now := by
  have hexit : p.Exited .atOnce capacity now ↔
      (Process.start : Process ι β).since + (delays p.writes + p.exitAfter) ≤ now :=
    advance_read_exited (fun _ => h) p.writes
  rw [show (Process.start : Process ι β).since = 0 from rfl, Nat.zero_add] at hexit
  exact hexit

/-- **a program whose bytes nobody reads exits exactly when they fit into the pipes** -/
theorem Program.exited_unread_iff : p.Exited .never capacity now ↔
    (∀ i, (written i p.writes).length ≤ capacity) ∧ p.time ≤ now := by
  have hexit : p.Exited .never capacity now ↔
      (∀ i, (Process.start : Process ι β).unread i + (written i p.writes).length ≤ capacity) ∧
        (Process.start : Process ι β).since + (delays p.writes + p.exitAfter) ≤ now :=
    advance_unread_exited (fun _ => Nat.zero_le capacity) p.writes
  rw [show (Process.start : Process ι β).since = 0 from rfl, Nat.zero_add] at hexit
  simp only [show (Process.start : Process ι β).unread = fun _ => 0 from rfl, Nat.zero_add] at hexit
  exact hexit

theorem output_advance (ws : List (Write ι β)) :
    (advance reader capacity now q ws).output i ++ written i (advance reader capacity now q ws).rest =
      q.output i ++ written i ws := by
  induction ws generalizing q with
  | nil => rfl
  | cons w rest ih =>
    rw [advance]
    split
    · rw [ih]
      show Function.update q.output w.pipe (q.output w.pipe ++ [w.byte]) i ++ _ = _
      by_cases hi : w.pipe = i
      · subst hi
        rw [Function.update_self, written_cons_self, List.append_assoc, List.singleton_append]
      · rw [Function.update_of_ne (Ne.symm hi), written_cons_of_ne hi]
    · rfl

theorem Program.output_of_exited (h : p.Exited reader capacity now) :
    (p.run reader capacity now).output i = written i p.writes := by
  have hall : (p.run reader capacity now).output i ++ written i (p.run reader capacity now).rest =
      [] ++ written i p.writes := output_advance p.writes
  have hnone : written i (p.run reader capacity now).rest = [] := by
    rw [h.1]
    rfl
  rw [hnone, List.append_nil, List.nil_append] at hall
  exact hall

end

end Pipes

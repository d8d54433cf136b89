import Mathlib.Data.List.Infix
import Mathlib.Data.List.Nodup
import Mathlib.Data.List.Perm.Basic

/-!
# Requests and their answers in a log

A log holds requests, each for a list of ids, answers to single ids, and other entries.  The
answers of a request are the ones before the next request.

* `Each P log`: `P` holds between every request and its answers; `Answered` is the case where the
  answers are the ids of the request, in some order;
* `Progress ids n answers pending`: a request of which the first `n` ids were answered one after
  another, where an id can be answered while it is pending and is not pending any more afterwards;
* `Partway base ids n log pending`: a log that ends with such a request.
-/

set_option linter.unusedSectionVars false

namespace Answers

variable {ι : Type}

/-! ## logs -/

inductive Mark (ι : Type) where
  | request (ids : List ι)
  | answer (id : ι)
  | other
  deriving DecidableEq

/-- the ids answered before the next request -/
def answersAhead : List (Mark ι) → List ι
  | [] => []
  | .request _ :: _ => []
  | .answer id :: rest => id :: answersAhead rest
  | .other :: rest => answersAhead rest

def Quiet (log : List (Mark ι)) : Prop := ∀ ids, .request ids ∉ log

/-- `P` holds between the ids of every request and its answers -/
def Each (P : List ι → List ι → Prop) (log : List (Mark ι)) : Prop :=
  ∀ l ids r, log = l ++ .request ids :: r → P ids (answersAhead r)

/-- every request has exactly one answer for each of its ids -/
def Answered (log : List (Mark ι)) : Prop := Each (fun ids answers => answers.Perm ids) log

theorem quiet_nil : Quiet ([] : List (Mark ι)) := fun _ => List.not_mem_nil

theorem quiet_append {l r : List (Mark ι)} (hl : Quiet l) (hr : Quiet r) : Quiet (l ++ r) :=
  fun ids h => (List.mem_append.mp h).elim (hl ids) (hr ids)

theorem answersAhead_append {l : List (Mark ι)} (hl : Quiet l) (r : List (Mark ι)) :
    answersAhead (l ++ r) = answersAhead l ++ answersAhead r := by
  induction l with
  | nil => rfl
  | cons m l ih =>
    have hl' : Quiet l := fun ids h => hl ids (List.mem_cons_of_mem m h)
    cases m with
    | request ids => exact absurd List.mem_cons_self (hl ids)
    | answer id => rw [List.cons_append, answersAhead, answersAhead, ih hl', List.cons_append]
    | other => rw [List.cons_append, answersAhead, answersAhead, ih hl']

theorem answersAhead_append_request (l : List (Mark ι)) (ids : List ι) (r : List (Mark ι)) :
    answersAhead (l ++ .request ids :: r) = answersAhead l := by
  induction l with
  | nil => rfl
  | cons m l ih =>
    cases m with
    | request ids => rfl
    | answer id => rw [List.cons_append, answersAhead, answersAhead, ih]
    | other => rw [List.cons_append, answersAhead, answersAhead, ih]

theorem answersAhead_append_silent (l : List (Mark ι)) {r : List (Mark ι)}
    (hr : answersAhead r = []) : answersAhead (l ++ r) = answersAhead l := by
  induction l with
  | nil => exact hr
  | cons m l ih =>
    cases m with
    | request ids => rfl
    | answer id => rw [List.cons_append, answersAhead, answersAhead, ih]
    | other => rw [List.cons_append, answersAhead, answersAhead, ih]

theorem each_nil (P : List ι → List ι → Prop) : Each P [] := by
  intro l ids r h
  cases l <;> cases h

theorem split_request {a b l r : List (Mark ι)} {ids : List ι}
    (h : a ++ b = l ++ .request ids :: r) :
    (∃ r', a = l ++ .request ids :: r' ∧ r = r' ++ b) ∨
      ∃ l', b = l' ++ .request ids :: r := by
  rcases List.append_eq_append_iff.mp h with ⟨c, e1, e2⟩ | ⟨c, e1, e2⟩
  · exact Or.inr ⟨c, e2⟩
  · cases c with
    | nil => exact Or.inr ⟨[], e2.symm⟩
    | cons m c =>
      rw [List.cons_append, List.cons.injEq] at e2
      obtain ⟨rfl, e3⟩ := e2
      exact Or.inl ⟨c, e1, e3⟩

theorem each_append_silent {P : List ι → List ι → Prop} {log tail : List (Mark ι)}
    (hq : Quiet tail) (ha : answersAhead tail = []) : Each P (log ++ tail) ↔ Each P log := by
  constructor
  · intro h l ids r e
    have := h l ids (r ++ tail) (by rw [e, List.append_assoc, List.cons_append])
    rwa [answersAhead_append_silent r ha] at this
  · intro h l ids r e
    rcases split_request e with ⟨r', e1, rfl⟩ | ⟨l', e2⟩
    · rw [answersAhead_append_silent r' ha]
      exact h l ids r' e1
    · exact absurd (e2 ▸ List.mem_append_right l' List.mem_cons_self) (hq ids)

theorem each_append_request {P : List ι → List ι → Prop} {log tail : List (Mark ι)}
    {ids : List ι} (hq : Quiet tail) :
    Each P (log ++ .request ids :: tail) ↔ Each P log ∧ P ids (answersAhead tail) := by
  constructor
  · refine fun h => ⟨fun l ids' r e => ?_, h log ids tail rfl⟩
    have := h l ids' (r ++ .request ids :: tail) (by rw [e, List.append_assoc, List.cons_append])
    rwa [answersAhead_append_request] at this
  · rintro ⟨h, hp⟩ l ids' r e
    rcases split_request e with ⟨r', e1, rfl⟩ | ⟨l', e2⟩
    · rw [answersAhead_append_request]
      exact h l ids' r' e1
    · cases l' with
      | nil =>
        cases e2
        exact hp
      | cons m l' =>
        rw [List.cons_append, List.cons.injEq] at e2
        exact absurd (e2.2 ▸ List.mem_append_right l' List.mem_cons_self) (hq ids')

/-! ## answering one request -/

variable [DecidableEq ι]

/-- the first `n` ids were answered, each while it was pending -/
structure Progress (ids : List ι) (n : Nat) (answers pending : List ι) : Prop where
  le : n ≤ ids.length
  answers_eq : answers = ids.take n
  nodup : (ids.take n).Nodup
  pending_iff : ∀ id ∈ ids, id ∈ pending ↔ id ∉ ids.take n

theorem Progress.start {ids pending : List ι} (h : ∀ id ∈ ids, id ∈ pending) :
    Progress ids 0 [] pending :=
  ⟨Nat.zero_le _, rfl, List.nodup_nil, fun id hid => iff_of_true (h id hid) List.not_mem_nil⟩

theorem take_succ_of_get {ids : List ι} {n : Nat} {id : ι} (h : ids[n]? = some id) :
    ids.take (n + 1) = ids.take n ++ [id] := by
  rw [List.take_add_one, h, Option.toList_some]

theorem Progress.step {ids answers pending : List ι} {n : Nat} {id : ι}
    (h : Progress ids n answers pending) (hid : ids[n]? = some id) (hp : id ∈ pending) :
    Progress ids (n + 1) (answers ++ [id]) (pending.filter (· ≠ id)) := by
  have hmem : id ∈ ids := List.mem_of_getElem? hid
  have hnew : id ∉ ids.take n := (h.pending_iff id hmem).mp hp
  refine ⟨?_, ?_, ?_, fun a ha => ?_⟩
  · obtain ⟨hlt, -⟩ := List.getElem?_eq_some_iff.mp hid
    exact hlt
  · rw [take_succ_of_get hid, h.answers_eq]
  · rw [take_succ_of_get hid, List.nodup_append]
    refine ⟨h.nodup, List.nodup_singleton id, fun a ha b hb => ?_⟩
    rw [List.mem_singleton] at hb
    rintro rfl
    exact hnew (hb ▸ ha)
  · rw [take_succ_of_get hid, List.mem_filter, h.pending_iff a ha, List.mem_append,
      List.mem_singleton, not_or, decide_eq_true_eq]

theorem Progress.stuck {ids answers pending : List ι} {n : Nat} {id : ι}
    (h : Progress ids n answers pending) (hid : ids[n]? = some id) (hp : id ∉ pending) :
    ¬ ids.Nodup ∧ ¬ answers.Perm ids := by
  have hmem : id ∈ ids := List.mem_of_getElem? hid
  have hold : id ∈ ids.take n := not_not.mp fun c => hp ((h.pending_iff id hmem).mpr c)
  obtain ⟨hlt, -⟩ := List.getElem?_eq_some_iff.mp hid
  constructor
  · intro hn
    have hsub : (ids.take (n + 1)).Nodup := hn.sublist (List.take_sublist _ _)
    rw [take_succ_of_get hid, List.nodup_append] at hsub
    exact hsub.2.2 id hold id (List.mem_singleton_self id) rfl
  · intro hperm
    have := hperm.length_eq
    rw [h.answers_eq, List.length_take] at this
    omega

theorem Progress.done {ids answers pending : List ι} {n : Nat} (h : Progress ids n answers pending)
    (hn : ids.length ≤ n) : ids.Nodup ∧ answers = ids := by
  have e := List.take_of_length_le hn
  exact ⟨e ▸ h.nodup, h.answers_eq.trans e⟩

/-- the log goes on from `base` with a request of which the first `n` ids were answered -/
def Partway (base : List (Mark ι)) (ids : List ι) (n : Nat) (log : List (Mark ι))
    (pending : List ι) : Prop :=
  ∃ tail, log = base ++ .request ids :: tail ∧ Quiet tail ∧
    Progress ids n (answersAhead tail) pending

theorem Partway.start {base : List (Mark ι)} {ids pending : List ι}
    (h : ∀ id ∈ ids, id ∈ pending) : Partway base ids 0 (base ++ [.request ids]) pending :=
  ⟨[], rfl, quiet_nil, Progress.start h⟩

theorem Partway.answer {base log : List (Mark ι)} {ids pending : List ι} {n : Nat} {id : ι}
    (h : Partway base ids n log pending) (hid : ids[n]? = some id) (hp : id ∈ pending) :
    Partway base ids (n + 1) (log ++ [.answer id]) (pending.filter (· ≠ id)) := by
  obtain ⟨tail, rfl, hq, hprog⟩ := h
  have hq1 : Quiet [Mark.answer id] := fun ids' h' => nomatch List.mem_singleton.mp h'
  refine ⟨tail ++ [.answer id], ?_, quiet_append hq hq1, ?_⟩
  · rw [List.append_assoc, List.cons_append]
  · rw [answersAhead_append hq]
    exact hprog.step hid hp

theorem Partway.silent {base log extra : List (Mark ι)} {ids pending : List ι} {n : Nat}
    (h : Partway base ids n log pending) (hq : Quiet extra) (ha : answersAhead extra = []) :
    Partway base ids n (log ++ extra) pending := by
  obtain ⟨tail, rfl, ht, hprog⟩ := h
  refine ⟨tail ++ extra, ?_, quiet_append ht hq, ?_⟩
  · rw [List.append_assoc, List.cons_append]
  · rwa [answersAhead_append_silent tail ha]

theorem Partway.each_iff {P : List ι → List ι → Prop} {base log : List (Mark ι)}
    {ids pending : List ι} {n : Nat} (h : Partway base ids n log pending) :
    Each P log ↔ Each P base ∧ P ids (ids.take n) := by
  obtain ⟨tail, rfl, hq, hprog⟩ := h
  rw [each_append_request hq, hprog.answers_eq]

theorem Partway.stuck {base log : List (Mark ι)} {ids pending : List ι} {n : Nat} {id : ι}
    (h : Partway base ids n log pending) (hid : ids[n]? = some id) (hp : id ∉ pending) :
    ¬ ids.Nodup ∧ ¬ (ids.take n).Perm ids := by
  obtain ⟨tail, rfl, hq, hprog⟩ := h
  have := hprog.stuck hid hp
  rwa [hprog.answers_eq] at this

theorem Partway.done {base log : List (Mark ι)} {ids pending : List ι} {n : Nat}
    (h : Partway base ids n log pending) (hn : ids.length ≤ n) : ids.Nodup ∧ ids.take n = ids := by
  obtain ⟨tail, rfl, hq, hprog⟩ := h
  have := hprog.done hn
  rwa [hprog.answers_eq] at this

end Answers

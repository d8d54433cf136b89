import Mathlib.Data.List.Sort

/-!
# Lists that grow to an index

A list of slots with a default: a slot beyond the end is reached by filling the list up.

* `slot_put`, `length_put`: one update;
* `slot_putAll`, `length_putAll`: a list of updates; a slot gets those with its index, in their order;
* `filterMap_range_of_sparse`: what is read off all slots is what is read off those that have something.
-/

namespace Slots

variable {α β γ : Type}

def slot (d : α) (l : List α) (i : Nat) : α := l.getD i d

/-- update the slot with the index, after filling up to it -/
def put (d : α) (i : Nat) (f : α → α) (l : List α) : List α :=
  (l ++ List.replicate (i + 1 - l.length) d).modify i f

def putAll (d : α) (index : β → Nat) (act : β → α → α) (updates : List β) (l : List α) : List α :=
  updates.foldl (fun l u => put d (index u) (act u) l) l

section
variable {d : α} {i j n : Nat} {f : α → α} {l : List α} {index : β → Nat} {act : β → α → α} {updates : List β}

theorem length_put : (put d i f l).length = max l.length (i + 1) := by
  rw [put, List.length_modify, List.length_append, List.length_replicate]
  omega

theorem slot_fill : slot d (l ++ List.replicate n d) j = slot d l j := by
  rw [slot, slot, List.getD_eq_getElem?_getD, List.getD_eq_getElem?_getD]
  by_cases hj : j < l.length
  · rw [List.getElem?_append_left hj]
  · rw [List.getElem?_append_right (by omega), List.getElem?_eq_none (l := l) (by omega), List.getElem?_replicate]
    split <;> rfl

theorem slot_put : slot d (put d i f l) j = if j = i then f (slot d l i) else slot d l j := by
  have hlength : i < (l ++ List.replicate (i + 1 - l.length) d).length := by
    rw [List.length_append, List.length_replicate]
    omega
  rw [put, slot, List.getD_eq_getElem?_getD, List.getElem?_modify]
  by_cases hji : j = i
  · have hget := List.getElem?_eq_getElem hlength
    have hslot := slot_fill (d := d) (l := l) (n := i + 1 - l.length) (j := i)
    rw [slot, List.getD_eq_getElem?_getD, hget, Option.getD_some] at hslot
    rw [if_pos hji, hji, hget, hslot]
    simp
  · have hne : i ≠ j := Ne.symm hji
    rw [if_neg hji]
    simp only [if_neg hne, Option.map_eq_map, Option.map_id_fun', id]
    rw [← List.getD_eq_getElem?_getD]
    exact slot_fill

theorem length_putAll : l.length ≤ (putAll d index act updates l).length ∧
    ∀ u ∈ updates, index u < (putAll d index act updates l).length := by
  induction updates generalizing l with
  | nil => exact ⟨le_rfl, fun u hu => absurd hu List.not_mem_nil⟩
  | cons u rest ih =>
    have hrest := ih (l := put d (index u) (act u) l)
    have hput := length_put (d := d) (i := index u) (f := act u) (l := l)
    show l.length ≤ (putAll d index act rest (put d (index u) (act u) l)).length ∧ _
    refine ⟨by omega, fun v hv => ?_⟩
    rcases List.mem_cons.mp hv with rfl | hv
    · show _ < (putAll d index act rest (put d (index v) (act v) l)).length
      omega
    · exact hrest.2 v hv

theorem slot_putAll : slot d (putAll d index act updates l) j =
    (updates.filter (index · = j)).foldl (fun a u => act u a) (slot d l j) := by
  induction updates generalizing l with
  | nil => rfl
  | cons u rest ih =>
    show slot d (putAll d index act rest (put d (index u) (act u) l)) j = _
    rw [ih, slot_put]
    by_cases hu : index u = j
    · rw [if_pos hu.symm, List.filter_cons_of_pos (by simp [hu]), List.foldl_cons, hu]
    · rw [if_neg (Ne.symm hu), List.filter_cons_of_neg (by simp [hu])]

end

theorem filterMap_range_of_sparse {f : Nat → Option γ} {n : Nat} {indices : List Nat}
    (hsorted : indices.Pairwise (· < ·)) (hlt : ∀ i ∈ indices, i < n) (hnone : ∀ i, i ∉ indices → f i = none) :
    (List.range n).filterMap f = indices.filterMap f := by
  have hindices : (List.range n).filter (· ∈ indices) = indices := by
    refine (List.pairwise_lt_range.filter _).eq_of_mem_iff hsorted fun i => ?_
    rw [List.mem_filter, List.mem_range, decide_eq_true_eq]
    exact ⟨And.right, fun hi => ⟨hlt i hi, hi⟩⟩
  conv_rhs => rw [← hindices]
  rw [List.filterMap_filter]
  apply List.filterMap_congr
  intro i _
  by_cases hi : i ∈ indices
  · simp [hi]
  · simp [hi, hnone i hi]

theorem filterMap_eq_map_iff {f : α → Option γ} {g : α → γ} {l : List α} :
    l.filterMap f = l.map g ↔ ∀ a ∈ l, f a = some (g a) := by
  constructor
  · intro h
    induction l with
    | nil => exact fun a ha => absurd ha List.not_mem_nil
    | cons a l ih =>
      cases hf : f a with
      | none =>
        have hlength := congrArg List.length h
        have hle := List.length_filterMap_le f l
        rw [List.filterMap_cons_none hf, List.length_map, List.length_cons] at hlength
        omega
      | some c =>
        rw [List.filterMap_cons_some hf, List.map_cons, List.cons.injEq] at h
        exact List.forall_mem_cons.mpr ⟨hf.trans (congrArg some h.1), ih h.2⟩
  · intro h
    rw [← List.filterMap_eq_map']
    exact List.filterMap_congr h

end Slots

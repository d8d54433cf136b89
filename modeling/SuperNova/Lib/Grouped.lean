import SuperNova.Lib.Table

/-!
# Groups in a table

Items that are put one after another under their keys.

* `get?_grouped`: what a key holds are the items with that key, in order;
* `mem_group_iff`: two items share a group exactly when they share a key.
-/

namespace Table

variable {κ α : Type} [LinearOrder κ]

/-- `entry(key).or_default().push(item)` -/
def push (t : Table κ (List α)) (key : κ) (item : α) : Table κ (List α) :=
  t.insert key ((t.get? key).getD [] ++ [item])

/-- items under their keys -/
def grouped (key : α → κ) (items : List α) : Table κ (List α) :=
  items.foldl (fun t item => t.push (key item) item) empty

section
variable {key : α → κ} {items group : List α} {k : κ} {a b : α}

theorem get?_grouped : (grouped key items).get? k =
    if items.filter (fun item => key item = k) = [] then none else some (items.filter fun item => key item = k) := by
  induction items using List.reverseRecOn with
  | nil => rfl
  | append_singleton items a ih =>
    rw [grouped, List.foldl_concat, ← grouped, push, get?_insert, List.filter_append, List.filter_singleton]
    by_cases hk : k = key a
    · subst hk
      have hheld : ((grouped key items).get? (key a)).getD [] = items.filter fun item => key item = key a := by
        rw [ih]
        split
        · exact (‹_› : _ = []).symm
        · rfl
      rw [if_pos rfl, hheld, decide_eq_true rfl, cond_true, if_neg (List.append_ne_nil_of_right_ne_nil _ (by simp))]
    · rw [if_neg hk, ih, decide_eq_false (Ne.symm hk), cond_false, List.append_nil]

theorem mem_grouped : (k, group) ∈ (grouped key items).entries ↔
    group = items.filter (fun item => key item = k) ∧ group ≠ [] := by
  rw [mem_entries, get?_grouped]
  split
  next hempty =>
    rw [hempty]
    exact iff_of_false (fun h => nomatch h) fun h => h.2 h.1
  next hfull =>
    constructor
    · intro h
      obtain rfl := Option.some.inj h
      exact ⟨rfl, hfull⟩
    · rintro ⟨rfl, -⟩
      rfl

/-- **two items share a group** exactly when they share a key -/
theorem mem_group_iff (ha : a ∈ items) (hb : b ∈ items) :
    (∃ e ∈ (grouped key items).entries, a ∈ e.2 ∧ b ∈ e.2) ↔ key a = key b := by
  constructor
  · rintro ⟨⟨k, group⟩, hentry, hagroup, hbgroup⟩
    obtain ⟨rfl, -⟩ := mem_grouped.mp hentry
    exact (of_decide_eq_true (List.mem_filter.mp hagroup).2).trans
      (of_decide_eq_true (List.mem_filter.mp hbgroup).2).symm
  · intro hkey
    have hmem : a ∈ items.filter fun item => key item = key a := List.mem_filter.mpr ⟨ha, decide_eq_true rfl⟩
    exact ⟨(key a, _), mem_grouped.mpr ⟨rfl, List.ne_nil_of_mem hmem⟩, hmem,
      List.mem_filter.mpr ⟨hb, decide_eq_true hkey.symm⟩⟩

end

end Table

import Mathlib.Data.List.Basic
import Mathlib.Data.List.Nodup
import Mathlib.Data.List.Perm.Subperm

/-!
# A limit below a merge

The first items of an ordered list are taken from a shorter list, of which it is only known that it holds
the items that are not too far behind.

* `Fits`: an item and those that are not behind it fit under a limit;
* `take_eq_take` (**main**): the shorter list has the same first items;
* `filter_eq_filter`: two lists of items with different keys that agree on one key.
-/

set_option linter.unusedSectionVars false

namespace Limit

variable {α β : Type}

section
variable (r : α → α → Prop) [DecidableRel r]

/-- at most `n` items are not behind `x` -/
def Fits (l : List α) (n : Nat) (x : α) : Prop := (l.filter fun y => decide (r y x)).length ≤ n

end

section
variable {r : α → α → Prop} {l : List α} {n : Nat} {x y : α}

theorem rel_of_take_drop (hl : l.Pairwise r) (hx : x ∈ l.take n) (hy : y ∈ l.drop n) : r x y := by
  rw [← List.take_append_drop n l, List.pairwise_append] at hl
  exact hl.2.2 x hx y hy

variable [DecidableRel r]

theorem Fits.mono (hxy : ∀ z, r z x → r z y) (h : Fits r l n y) : Fits r l n x := by
  refine Nat.le_trans (List.Sublist.length_le ?_) h
  refine List.monotone_filter_right l fun z hz => ?_
  exact decide_eq_true (hxy z (of_decide_eq_true hz))

theorem mem_take_of_fits (hl : l.Pairwise r) (hrefl : r x x) (hx : x ∈ l) (h : Fits r l n x) :
    x ∈ l.take n := by
  rw [← List.take_append_drop n l] at hx
  refine (List.mem_append.mp hx).resolve_right fun hdrop => ?_
  have hfirst : ∀ y ∈ l.take n, r y x := fun y hy => rel_of_take_drop hl hy hdrop
  have hcount : ((l.take n).filter fun y => decide (r y x)).length = n := by
    rw [List.filter_eq_self.mpr fun y hy => decide_eq_true (hfirst y hy), List.length_take]
    have := List.length_pos_of_mem hdrop
    rw [List.length_drop] at this
    omega
  have hrest : 0 < ((l.drop n).filter fun y => decide (r y x)).length :=
    List.length_pos_of_mem (List.mem_filter.mpr ⟨hdrop, decide_eq_true hrefl⟩)
  have hsum : (l.filter fun y => decide (r y x)).length =
      ((l.take n).filter fun y => decide (r y x)).length +
        ((l.drop n).filter fun y => decide (r y x)).length := by
    rw [← List.length_append, ← List.filter_append, List.take_append_drop]
  unfold Fits at h
  omega

theorem not_mem_take {before after : List α} (hlength : n ≤ before.length) (hx : x ∉ before) :
    x ∉ (before ++ x :: after).take n := by
  rw [List.take_append_of_le_length hlength]
  exact fun h => hx (List.mem_of_mem_take h)

end

/-! ## the first items -/

section
variable {r : α → α → Prop} {d m : List α} {n : Nat} {near : α → Prop}

/-- **the first items**: `m` agrees with `d` on the items that are near, and the first items of `d` are near
and ahead of those of `m` that are not -/
theorem take_eq_take (hd : d.Pairwise r) (hm : m.Pairwise r) (hdn : d.Nodup) (hmn : m.Nodup)
    (hanti : ∀ a ∈ m, ∀ b ∈ m, r a b → r b a → a = b) (hnear : ∀ x ∈ d.take n, near x)
    (hsame : ∀ x, near x → (x ∈ m ↔ x ∈ d))
    (hfar : ∀ x ∈ d.take n, ∀ y ∈ m, ¬ near y → r x y)
    (hshort : d.length ≤ n → ∀ y ∈ m, near y) : m.take n = d.take n := by
  classical
  have hsub : ∀ x ∈ d.take n, x ∈ m := fun x hx =>
    (hsame x (hnear x hx)).mpr (List.mem_of_mem_take hx)
  let rest := m.filter fun y => y ∉ d.take n
  have hmem : ∀ y, y ∈ d.take n ++ rest ↔ y ∈ m := by
    intro y
    rw [List.mem_append, List.mem_filter, decide_eq_true_iff]
    constructor
    · rintro (hy | ⟨hy, -⟩)
      · exact hsub y hy
      · exact hy
    · intro hy
      by_cases htake : y ∈ d.take n
      · exact .inl htake
      · exact .inr ⟨hy, htake⟩
  have hnodup : (d.take n ++ rest).Nodup := by
    refine List.nodup_append.mpr ⟨hdn.sublist (List.take_sublist n d), hmn.filter _, ?_⟩
    rintro x hx y hy rfl
    exact of_decide_eq_true (List.mem_filter.mp hy).2 hx
  have hsorted : (d.take n ++ rest).Pairwise r := by
    refine List.pairwise_append.mpr ⟨hd.sublist (List.take_sublist n d), hm.filter _, ?_⟩
    intro x hx y hy
    obtain ⟨hy, htake⟩ := List.mem_filter.mp hy
    by_cases hfit : near y
    · have hdrop : y ∈ d.drop n := by
        have hyd := (hsame y hfit).mp hy
        rw [← List.take_append_drop n d] at hyd
        exact (List.mem_append.mp hyd).resolve_left (of_decide_eq_true htake)
      exact rel_of_take_drop hd hx hdrop
    · exact hfar x hx y hy hfit
  have heq : m = d.take n ++ rest := by
    refine List.Perm.eq_of_pairwise (fun a b ha hb => hanti a ha b ((hmem b).mp hb)) hm hsorted ?_
    exact (List.perm_ext_iff_of_nodup hmn hnodup).mpr fun y => (hmem y).symm
  rw [heq]
  by_cases hlength : n ≤ d.length
  · have : (d.take n).length = n := by rw [List.length_take]; omega
    exact List.take_left' this
  · have hrest : rest = [] := by
      refine List.filter_eq_nil_iff.mpr fun y hy => ?_
      have hyd := (hsame y (hshort (by omega) y hy)).mp hy
      rw [List.take_of_length_le (by omega : d.length ≤ n)]
      simpa using hyd
    rw [hrest, List.append_nil, List.take_take, Nat.min_self]

end

/-! ## lists of items with different keys -/

section
variable [DecidableEq β] {key : α → β} {l l' : List α} {k : β}

theorem filter_eq_filter (hl : (l.map key).Nodup) (hl' : (l'.map key).Nodup)
    (h : ∀ x, key x = k → (x ∈ l ↔ x ∈ l')) :
    (l.filter fun x => decide (key x = k)) = l'.filter fun x => decide (key x = k) := by
  have hperm : (l.filter fun x => decide (key x = k)).Perm (l'.filter fun x => decide (key x = k)) := by
    refine (List.perm_ext_iff_of_nodup (hl.of_map.filter _) (hl'.of_map.filter _)).mpr fun x => ?_
    rw [List.mem_filter, List.mem_filter, decide_eq_true_iff]
    exact and_congr_left (h x)
  cases hfilter : l.filter fun x => decide (key x = k) with
  | nil =>
    rw [hfilter] at hperm
    exact hperm.nil_eq
  | cons x rest =>
    have hall : ∀ y ∈ x :: rest, y ∈ l ∧ key y = k := by
      intro y hy
      rw [← hfilter, List.mem_filter, decide_eq_true_iff] at hy
      exact hy
    have hone : rest = [] := by
      refine List.eq_nil_iff_forall_not_mem.mpr fun y hy => ?_
      have hsame : x = y := List.inj_on_of_nodup_map hl (hall x List.mem_cons_self).1
        (hall y (List.mem_cons_of_mem x hy)).1
        ((hall x List.mem_cons_self).2.trans (hall y (List.mem_cons_of_mem x hy)).2.symm)
      have hnodup : (x :: rest).Nodup := hfilter ▸ hl.of_map.filter _
      exact (List.nodup_cons.mp hnodup).1 (hsame ▸ hy)
    rw [hfilter, hone] at hperm
    rw [hone, hperm.singleton_eq]

theorem length_le_of_keys (hl : (l.map key).Nodup) (h : ∀ x ∈ l, ∃ y ∈ l', key y = key x) :
    l.length ≤ l'.length := by
  have hsub : l.map key ⊆ l'.map key := by
    intro k hk
    obtain ⟨x, hx, rfl⟩ := List.mem_map.mp hk
    obtain ⟨y, hy, heq⟩ := h x hx
    exact heq ▸ List.mem_map_of_mem hy
  have := (List.subperm_of_subset hl hsub).length_le
  rwa [List.length_map, List.length_map] at this

end

end Limit

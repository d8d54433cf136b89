import Mathlib.Data.List.Nodup
import Mathlib.Data.List.Perm.Subperm
import Mathlib.Data.List.Perm.Basic

/-!
# The first ones in two orders

Some members of an ordered list come up in an order of their own, perhaps more than once.

* `present`: the members that come up, in the order of the list;
* `perm_take_iff` (**main**): the first ones that come up are the first ones of the list exactly when they differ, and
  stand before all others that come up.
-/

set_option linter.unusedSectionVars false

namespace Firsts

variable {α : Type} [DecidableEq α] {order shown : List α} {a b : α} {n : Nat}

/-- the members that come up -/
def present (order shown : List α) : List α := order.filter (· ∈ shown)

theorem mem_present : a ∈ present order shown ↔ a ∈ order ∧ a ∈ shown := by
  rw [present, List.mem_filter, decide_eq_true_iff]

theorem nodup_present (h : order.Nodup) : (present order shown).Nodup := h.filter _

theorem length_present_le : (present order shown).length ≤ order.length := List.length_filter_le _ _

theorem pairwise_idxOf (h : order.Nodup) : order.Pairwise fun a b => order.idxOf a < order.idxOf b := by
  rw [List.pairwise_iff_getElem]
  intro i j hi hj hij
  rw [h.idxOf_getElem i hi, h.idxOf_getElem j hj]
  exact hij

theorem idxOf_lt (h : order.Nodup) (ha : a ∈ (present order shown).take n) (hb : b ∈ (present order shown).drop n) :
    order.idxOf a < order.idxOf b := by
  have hsorted : (present order shown).Pairwise fun a b => order.idxOf a < order.idxOf b :=
    (pairwise_idxOf h).sublist List.filter_sublist
  rw [← List.take_append_drop n (present order shown)] at hsorted
  exact (List.pairwise_append.mp hsorted).2.2 a ha b hb

theorem mem_take_or_drop {l : List α} (h : a ∈ l) : a ∈ l.take n ∨ a ∈ l.drop n := by
  rw [← List.take_append_drop n l] at h
  exact List.mem_append.mp h

theorem take_subset (horder : order.Nodup) (hsub : shown ⊆ order)
    (hbefore : ∀ a ∈ shown.take n, ∀ b ∈ shown, b ∉ shown.take n → order.idxOf a < order.idxOf b) :
    shown.take n ⊆ (present order shown).take n := by
  intro a ha
  by_contra hcut
  have hshown := List.mem_of_mem_take ha
  have hdrop := (mem_take_or_drop (n := n) (mem_present.mpr ⟨hsub hshown, hshown⟩)).resolve_left hcut
  have hfirst : (present order shown).take n ⊆ shown.take n := by
    intro b hb
    by_contra hmissing
    have hb' := (mem_present.mp (List.mem_of_mem_take hb)).2
    exact absurd (idxOf_lt horder hb hdrop) (Nat.lt_asymm (hbefore a ha b hb' hmissing))
  have hlong : ((present order shown).take n).length + 1 ≤ (shown.take n).length := by
    have hcons : (a :: (present order shown).take n).Nodup :=
      List.nodup_cons.mpr ⟨hcut, (nodup_present horder).sublist (List.take_sublist n _)⟩
    refine (hcons.subperm fun b hb => ?_).length_le
    rcases List.mem_cons.mp hb with rfl | hb
    · exact ha
    · exact hfirst hb
  have hdropLength := List.length_pos_of_mem hdrop
  rw [List.length_drop] at hdropLength
  rw [List.length_take, List.length_take] at hlong
  omega

/-- **the first ones that come up** are the first ones of the list -/
theorem perm_take_iff (horder : order.Nodup) (hsub : shown ⊆ order) :
    (shown.take n).Perm ((present order shown).take n) ↔
      (shown.take n).Nodup ∧ ∀ a ∈ shown.take n, ∀ b ∈ shown, b ∉ shown.take n → order.idxOf a < order.idxOf b := by
  have hpresent : ((present order shown).take n).Nodup := (nodup_present horder).sublist (List.take_sublist n _)
  constructor
  · intro h
    refine ⟨h.nodup_iff.mpr hpresent, fun a ha b hb hmissing => ?_⟩
    refine idxOf_lt horder (h.mem_iff.mp ha) ((mem_take_or_drop (mem_present.mpr ⟨hsub hb, hb⟩)).resolve_left ?_)
    exact fun hfirst => hmissing (h.mem_iff.mpr hfirst)
  · rintro ⟨hnodup, hbefore⟩
    have hsubset := take_subset horder hsub hbefore
    refine (List.perm_ext_iff_of_nodup hnodup hpresent).mpr fun b => ⟨fun hb => hsubset hb, fun hb => ?_⟩
    by_contra hmissing
    have hb' := (mem_present.mp (List.mem_of_mem_take hb)).2
    have hdrop := (mem_take_or_drop hb').resolve_left hmissing
    have hlong : (shown.take n).length + 1 ≤ ((present order shown).take n).length := by
      have hcons : (b :: shown.take n).Nodup := List.nodup_cons.mpr ⟨hmissing, hnodup⟩
      refine (hcons.subperm fun a ha => ?_).length_le
      rcases List.mem_cons.mp ha with rfl | ha
      · exact hb
      · exact hsubset ha
    have hdropLength := List.length_pos_of_mem hdrop
    rw [List.length_drop] at hdropLength
    rw [List.length_take, List.length_take] at hlong
    omega

end Firsts

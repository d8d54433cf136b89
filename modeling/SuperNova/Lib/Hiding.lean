import Mathlib.Data.List.Induction
import Mathlib.Data.List.Sort

/-!
# Entries that hide others

A list of entries of which some hide others; an entry is shown when nothing in the list hides it.

* `Hidden.exists_shown`: what is hidden is hidden by something that is shown;
* `shown_of_subset`: entries that are hidden anyway may be left out;
* `sift_eq_shown`: going down a sorted list and dropping what a kept entry hides leaves what is shown;
* `overlay`: a list of entries by their keys, of which the last one at each key counts;
  `mem_overlay_overlay`: it makes no difference which entries were overlaid first.
-/

set_option linter.unusedSectionVars false

namespace Hiding

variable {α κ : Type}

/-! ## hidden entries -/

section
variable (hides : α → α → Prop)

def Hidden (l : List α) (x : α) : Prop := ∃ k ∈ l, hides k x

variable [DecidableRel hides]

instance (l : List α) (x : α) : Decidable (Hidden hides l x) := inferInstanceAs (Decidable (∃ _ ∈ _, _))

/-- the entries that nothing hides -/
def shown (l : List α) : List α := l.filter fun x => ¬ Hidden hides l x

/-- drop what an entry that was kept hides -/
def sift (l : List α) : List α :=
  l.foldl (fun kept x => if Hidden hides kept x then kept else kept ++ [x]) []

end

section
variable {hides : α → α → Prop} [DecidableRel hides] {l l' : List α} {x : α}

theorem Hidden.mono (h : Hidden hides l x) (hsub : l ⊆ l') : Hidden hides l' x := by
  obtain ⟨k, hk, hkx⟩ := h
  exact ⟨k, hsub hk, hkx⟩

theorem mem_shown : x ∈ shown hides l ↔ x ∈ l ∧ ¬ Hidden hides l x := by
  simp [shown]

theorem mem_shown_congr (h : ∀ y, y ∈ l ↔ y ∈ l') : x ∈ shown hides l ↔ x ∈ shown hides l' := by
  simp only [mem_shown, Hidden, h]

section
variable (hirrefl : ∀ x, ¬ hides x x) (htrans : ∀ x y z, hides x y → hides y z → hides x z)
include hirrefl htrans

theorem hiders_lt {k : α} (hk : k ∈ l) (hkx : hides k x) :
    (l.filter fun y => hides y k).length < (l.filter fun y => hides y x).length := by
  have hsplit : (l.filter fun y => hides y k) = (l.filter fun y => hides y x).filter fun y => hides y k := by
    rw [List.filter_filter]
    apply List.filter_congr
    intro y _
    by_cases hy : hides y k
    · simp [hy, htrans y k x hy hkx]
    · simp [hy]
  have hmem : k ∈ l.filter fun y => hides y x := by simp [hk, hkx]
  rw [hsplit]
  exact List.length_filter_lt_length_iff_exists.mpr ⟨k, hmem, by simpa using hirrefl k⟩

/-- **what is hidden is hidden by something that is shown** -/
theorem Hidden.exists_shown (h : Hidden hides l x) : ∃ k ∈ shown hides l, hides k x := by
  induction hn : (l.filter fun y => hides y x).length using Nat.strong_induction_on generalizing x with
  | _ n ih =>
    obtain ⟨k, hk, hkx⟩ := h
    by_cases hhidden : Hidden hides l k
    · have hlt := hiders_lt hirrefl htrans hk hkx
      rw [hn] at hlt
      obtain ⟨k', hk', hk'k⟩ := ih _ hlt hhidden rfl
      exact ⟨k', hk', htrans k' k x hk'k hkx⟩
    · exact ⟨k, mem_shown.mpr ⟨hk, hhidden⟩, hkx⟩

/-- **entries that are hidden anyway may be left out** -/
theorem mem_shown_of_subset (hsub : l ⊆ l') (hleft : ∀ y ∈ l', y ∉ l → Hidden hides l' y) :
    x ∈ shown hides l ↔ x ∈ shown hides l' := by
  constructor
  · intro hx
    obtain ⟨hmem, hshown⟩ := mem_shown.mp hx
    refine mem_shown.mpr ⟨hsub hmem, fun hhidden => hshown ?_⟩
    obtain ⟨k, hk, hkx⟩ := hhidden.exists_shown hirrefl htrans
    obtain ⟨hk', hkshown⟩ := mem_shown.mp hk
    by_cases hkl : k ∈ l
    · exact ⟨k, hkl, hkx⟩
    · exact absurd (hleft k hk' hkl) hkshown
  · intro hx
    obtain ⟨hmem, hshown⟩ := mem_shown.mp hx
    have hxl : x ∈ l := by
      by_contra hnot
      exact hshown (hleft x hmem hnot)
    exact mem_shown.mpr ⟨hxl, fun hhidden => hshown (hhidden.mono hsub)⟩

theorem mem_shown_of_agree (hleft : ∀ y ∈ l, y ∉ l' → Hidden hides l' y)
    (hright : ∀ y ∈ l', y ∉ l → Hidden hides l' y) : x ∈ shown hides l ↔ x ∈ shown hides l' := by
  classical
  have hboth : l'.filter (· ∈ l) ⊆ l' := List.filter_sublist.subset
  have hcommon : ∀ y, y ∈ l'.filter (· ∈ l) ↔ y ∈ l' ∧ y ∈ l := fun y => by simp
  have hshown : ∀ k ∈ shown hides l', k ∈ l'.filter (· ∈ l) := by
    intro k hk
    obtain ⟨hk', hkshown⟩ := mem_shown.mp hk
    refine (hcommon k).mpr ⟨hk', ?_⟩
    by_contra hnot
    exact hkshown (hright k hk' hnot)
  have hfirst : x ∈ shown hides (l'.filter (· ∈ l)) ↔ x ∈ shown hides l := by
    apply mem_shown_of_subset hirrefl htrans
    · exact fun y hy => ((hcommon y).mp hy).2
    · intro y hy hnot
      have hy' : y ∉ l' := fun h => hnot ((hcommon y).mpr ⟨h, hy⟩)
      obtain ⟨k, hk, hky⟩ := (hleft y hy hy').exists_shown hirrefl htrans
      exact ⟨k, ((hcommon k).mp (hshown k hk)).2, hky⟩
  have hsecond : x ∈ shown hides (l'.filter (· ∈ l)) ↔ x ∈ shown hides l' := by
    apply mem_shown_of_subset hirrefl htrans hboth
    intro y hy hnot
    exact hright y hy fun h => hnot ((hcommon y).mpr ⟨hy, h⟩)
  exact hfirst.symm.trans hsecond

end

/-! ## sifting -/

theorem sift_concat (l : List α) (x : α) :
    sift hides (l ++ [x]) = if Hidden hides (sift hides l) x then sift hides l else sift hides l ++ [x] := by
  unfold sift
  rw [List.foldl_append, List.foldl_cons, List.foldl_nil]

theorem sift_sublist (l : List α) : (sift hides l).Sublist l := by
  induction l using List.reverseRecOn with
  | nil => exact List.Sublist.refl _
  | append_singleton l x ih =>
    rw [sift_concat]
    split
    · exact ih.trans (List.sublist_append_left l [x])
    · exact ih.append_right [x]

theorem hidden_sift (htrans : ∀ x y z, hides x y → hides y z → hides x z) (l : List α) (x : α) :
    Hidden hides (sift hides l) x ↔ Hidden hides l x := by
  constructor
  · exact fun h => h.mono (sift_sublist l).subset
  · induction l using List.reverseRecOn generalizing x with
    | nil => exact fun h => h
    | append_singleton l y ih =>
      rintro ⟨k, hk, hkx⟩
      rw [sift_concat]
      rcases List.mem_append.mp hk with hk | hk
      · have hold := ih x ⟨k, hk, hkx⟩
        split
        · exact hold
        · exact hold.mono (List.subset_append_left _ _)
      · rw [List.mem_singleton] at hk
        subst hk
        split
        · rename_i hhidden
          obtain ⟨k', hk', hk'k⟩ := hhidden
          exact ⟨k', hk', htrans k' k x hk'k hkx⟩
        · exact ⟨k, List.mem_append_right _ (List.mem_singleton_self k), hkx⟩

/-- **sifting a sorted list shows what is hidden by nothing above it** -/
theorem sift_eq_shown {before : α → α → Prop} [DecidableRel before]
    (htrans : ∀ x y z, hides x y → hides y z → hides x z) (hasymm : ∀ x y, before x y → ¬ before y x)
    (hsorted : l.Pairwise before) : sift hides l = shown (fun k x => before k x ∧ hides k x) l := by
  induction l using List.reverseRecOn with
  | nil => rfl
  | append_singleton l x ih =>
    obtain ⟨hl, -, hlast⟩ := List.pairwise_append.mp hsorted
    have hbefore : ∀ k ∈ l, before k x := fun k hk => hlast k hk x (List.mem_singleton_self x)
    have hself : ¬ before x x := fun h => hasymm x x h h
    have hxl : Hidden (fun k x => before k x ∧ hides k x) (l ++ [x]) x ↔ Hidden hides l x := by
      constructor
      · rintro ⟨k, hk, hkbefore, hkx⟩
        rcases List.mem_append.mp hk with hk | hk
        · exact ⟨k, hk, hkx⟩
        · rw [List.mem_singleton] at hk
          exact absurd (hk ▸ hkbefore) hself
      · rintro ⟨k, hk, hkx⟩
        exact ⟨k, List.mem_append_left _ hk, hbefore k hk, hkx⟩
    have hearlier : ∀ y ∈ l, Hidden (fun k x => before k x ∧ hides k x) (l ++ [x]) y ↔
        Hidden (fun k x => before k x ∧ hides k x) l y := by
      intro y hy
      constructor
      · rintro ⟨k, hk, hkbefore, hky⟩
        rcases List.mem_append.mp hk with hk | hk
        · exact ⟨k, hk, hkbefore, hky⟩
        · rw [List.mem_singleton] at hk
          exact absurd (hk ▸ hkbefore) (hasymm y x (hbefore y hy))
      · exact fun h => h.mono (List.subset_append_left _ _)
    have hfront : (l.filter fun y => ¬ Hidden (fun k x => before k x ∧ hides k x) (l ++ [x]) y) =
        sift hides l := by
      rw [ih hl]
      apply List.filter_congr
      intro y hy
      simp only [hearlier y hy]
    rw [sift_concat, shown, List.filter_append, hfront]
    simp only [hidden_sift htrans]
    by_cases hhidden : Hidden hides l x
    · rw [if_pos hhidden, List.filter_cons_of_neg (by simpa using hxl.mpr hhidden), List.filter_nil,
        List.append_nil]
    · rw [if_neg hhidden, List.filter_cons_of_pos (by simpa using fun h => hhidden (hxl.mp h)),
        List.filter_nil]

end

theorem shown_shown {hides hides' : α → α → Prop} [DecidableRel hides] [DecidableRel hides'] {l : List α}
    (hapart : ∀ x y z, hides x y → ¬ hides' y z) :
    shown hides' (shown hides l) = shown (fun k x => hides k x ∨ hides' k x) l := by
  unfold shown
  rw [List.filter_filter]
  apply List.filter_congr
  intro x _
  have hkept : Hidden hides' (l.filter fun y => ¬ Hidden hides l y) x ↔ Hidden hides' l x := by
    constructor
    · exact fun h => h.mono List.filter_sublist.subset
    · rintro ⟨k, hk, hkx⟩
      refine ⟨k, ?_, hkx⟩
      have hshown : ¬ Hidden hides l k := by
        rintro ⟨k', -, hk'k⟩
        exact hapart k' k x hk'k hkx
      simp [hk, hshown]
  have hor : Hidden (fun k x => hides k x ∨ hides' k x) l x ↔ Hidden hides l x ∨ Hidden hides' l x := by
    simp only [Hidden, and_or_left, exists_or]
  simp only [hkept, hor, not_or, Bool.decide_and, Bool.and_comm]

/-! ## overlays -/

section
variable [DecidableEq κ] (key : α → κ)

/-- `Map::set`: an entry stays where the key was first set -/
def put : List α → α → List α
  | [], x => [x]
  | y :: rest, x => if key y = key x then x :: rest else y :: put rest x

/-- the entries of a list, set after each other -/
def overlay (base additions : List α) : List α := additions.foldl (put key) base

end

section
variable [DecidableEq κ] {key : α → κ} {base base' additions : List α} {x y : α}

theorem keys_put (l : List α) (x : α) :
    (put key l x).map key = if key x ∈ l.map key then l.map key else l.map key ++ [key x] := by
  induction l with
  | nil => rfl
  | cons y rest ih =>
    rw [put]
    by_cases hkey : key y = key x
    · rw [if_pos hkey, if_pos (by simp [hkey]), List.map_cons, List.map_cons, hkey]
    · rw [if_neg hkey, List.map_cons, ih, List.map_cons]
      by_cases hmem : key x ∈ rest.map key
      · rw [if_pos hmem, if_pos (List.mem_cons_of_mem _ hmem)]
      · rw [if_neg hmem, if_neg (by simpa [Ne.symm hkey] using hmem), List.cons_append]

theorem keys_put_nodup {l : List α} (h : (l.map key).Nodup) : ((put key l x).map key).Nodup := by
  rw [keys_put]
  split
  · exact h
  · rename_i hnot
    rw [List.nodup_append]
    refine ⟨h, List.nodup_singleton _, ?_⟩
    rintro a ha b hb rfl
    exact hnot (List.mem_singleton.mp hb ▸ ha)

theorem mem_put {l : List α} (h : (l.map key).Nodup) :
    y ∈ put key l x ↔ y = x ∨ y ∈ l ∧ key y ≠ key x := by
  induction l with
  | nil => simp [put]
  | cons z rest ih =>
    obtain ⟨hz, hrest⟩ := List.nodup_cons.mp h
    rw [put]
    by_cases hkey : key z = key x
    · rw [if_pos hkey, List.mem_cons]
      have hne : y ∈ rest → key y ≠ key x := fun hy heq =>
        hz (List.mem_map.mpr ⟨y, hy, heq.trans hkey.symm⟩)
      constructor
      · rintro (rfl | hy)
        · exact Or.inl rfl
        · exact Or.inr ⟨List.mem_cons_of_mem z hy, hne hy⟩
      · rintro (rfl | ⟨hy, hnot⟩)
        · exact Or.inl rfl
        · rcases List.mem_cons.mp hy with rfl | hy
          · exact absurd hkey hnot
          · exact Or.inr hy
    · rw [if_neg hkey, List.mem_cons, ih hrest, List.mem_cons]
      constructor
      · rintro (rfl | rfl | ⟨hy, hnot⟩)
        · exact Or.inr ⟨Or.inl rfl, hkey⟩
        · exact Or.inl rfl
        · exact Or.inr ⟨Or.inr hy, hnot⟩
      · rintro (rfl | ⟨rfl | hy, hnot⟩)
        · exact Or.inr (Or.inl rfl)
        · exact Or.inl rfl
        · exact Or.inr (Or.inr ⟨hy, hnot⟩)

theorem overlay_nodup (h : (base.map key).Nodup) : ((overlay key base additions).map key).Nodup := by
  induction additions generalizing base with
  | nil => exact h
  | cons x rest ih => exact ih (keys_put_nodup h)

theorem overlay_nil_nodup : ((overlay key [] additions).map key).Nodup := overlay_nodup (List.Pairwise.nil)

theorem overlay_concat (base additions : List α) (x : α) :
    overlay key base (additions ++ [x]) = put key (overlay key base additions) x := by
  unfold overlay
  rw [List.foldl_append, List.foldl_cons, List.foldl_nil]

/-- **an entry is one of the additions, or no addition has its key** -/
theorem mem_overlay (h : (base.map key).Nodup) : x ∈ overlay key base additions ↔
    x ∈ overlay key [] additions ∨ x ∈ base ∧ key x ∉ additions.map key := by
  induction additions using List.reverseRecOn with
  | nil => simp [overlay]
  | append_singleton additions y ih =>
    rw [overlay_concat, overlay_concat, mem_put (overlay_nodup h), mem_put overlay_nil_nodup, ih,
      List.map_append, List.mem_append, List.map_singleton, List.mem_singleton]
    tauto

theorem keys_overlay_nil (additions : List α) (k : κ) :
    k ∈ (overlay key [] additions).map key ↔ k ∈ additions.map key := by
  induction additions using List.reverseRecOn with
  | nil => rfl
  | append_singleton additions y ih =>
    rw [overlay_concat, keys_put, List.map_append, List.mem_append, List.map_singleton, List.mem_singleton]
    split
    · rename_i hmem
      rw [ih]
      refine ⟨Or.inl, fun h => h.elim id ?_⟩
      rintro rfl
      exact ih.mp hmem
    · rw [List.mem_append, List.mem_singleton, ih]

theorem mem_overlay_nil : x ∈ overlay key [] additions ↔
    ∃ earlier later, additions = earlier ++ x :: later ∧ key x ∉ later.map key := by
  induction additions using List.reverseRecOn with
  | nil => simp [overlay]
  | append_singleton additions y ih =>
    rw [overlay_concat, mem_put overlay_nil_nodup, ih]
    constructor
    · rintro (rfl | ⟨⟨earlier, later, rfl, hlater⟩, hne⟩)
      · exact ⟨additions, [], rfl, List.not_mem_nil⟩
      · refine ⟨earlier, later ++ [y], by simp, ?_⟩
        rw [List.map_append, List.mem_append, List.map_singleton, List.mem_singleton]
        exact fun h => h.elim hlater hne
    · rintro ⟨earlier, later, hsplit, hlater⟩
      rcases List.eq_nil_or_concat later with rfl | ⟨later, z, rfl⟩
      · exact Or.inl (List.append_inj_right' hsplit rfl ▸ List.mem_singleton_self x |> List.mem_singleton.mp)
      · rw [List.concat_eq_append] at hsplit hlater
        rw [List.map_append, List.mem_append, List.map_singleton, List.mem_singleton, not_or] at hlater
        rw [← List.cons_append, ← List.append_assoc] at hsplit
        obtain ⟨hfront, hlast⟩ := List.append_inj' hsplit rfl
        obtain rfl := List.singleton_inj.mp hlast
        exact Or.inr ⟨⟨earlier, later, hfront, hlater.1⟩, hlater.2⟩

theorem length_put (l : List α) (x : α) : l.length ≤ (put key l x).length := by
  have hkeys := congrArg List.length (@keys_put _ _ _ key l x)
  rw [List.length_map] at hkeys
  split at hkeys
  · rw [hkeys, List.length_map]
  · rw [hkeys, List.length_append, List.length_map]
    exact Nat.le_add_right _ _

theorem mem_overlay_nil_of_nodup (h : (additions.map key).Nodup) :
    x ∈ overlay key [] additions ↔ x ∈ additions := by
  induction additions using List.reverseRecOn with
  | nil => rfl
  | append_singleton additions y ih =>
    rw [List.map_append, List.nodup_append] at h
    obtain ⟨hnodup, -, hapart⟩ := h
    have hne : x ∈ additions → key x ≠ key y := fun hx =>
      hapart (key x) (List.mem_map_of_mem hx) (key y) (List.mem_singleton_self _)
    rw [overlay_concat, mem_put overlay_nil_nodup, ih hnodup, List.mem_append, List.mem_singleton]
    tauto

end

end Hiding

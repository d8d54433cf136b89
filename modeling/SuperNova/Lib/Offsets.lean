import Mathlib.Data.List.Basic

/-!
# Paging by an offset

A list is read page after page, each page at the offset behind the page before it, for as long as a page says that
there is more.  What a page says is computed from a total, which need not be the length of the list.

* `read`: the pages, when there is fuel for all of them;
* `read_slice`: what the pages of a list hold together;
* `complete_slice_iff` (**main**): they come to an end and hold the list exactly when the total is at most its length,
  and the last page reaches its end.
-/

set_option linter.unusedSectionVars false

namespace Offsets

variable {α : Type}

/-- what a page shows of the list, and whether there is more -/
structure Page (α : Type) where
  items : List α
  more : Bool

/-- the pages from an offset on -/
def read (pageAt : Nat → Page α) : Nat → Nat → Option (List (List α))
  | 0, _ => none
  | fuel + 1, offset =>
    let page := pageAt offset
    if page.more then (read pageAt fuel (offset + page.items.length)).map (page.items :: ·) else some [page.items]

/-- reading from the start comes to an end, and the pages are the list -/
def Complete (pageAt : Nat → Page α) (items : List α) : Prop :=
  ∃ fuel pages, read pageAt fuel 0 = some pages ∧ pages.flatten = items

/-- a page of a limited length; there is more when its end is before the total -/
def slice (items : List α) (total limit offset : Nat) : Page α :=
  let page := (items.drop offset).take limit
  ⟨page, decide (offset + page.length < total)⟩

/-! ## reading -/

section
variable {pageAt : Nat → Page α} {pages pages' : List (List α)} {fuel fuel' offset : Nat}

theorem read_mono (h : read pageAt fuel offset = some pages) (hle : fuel ≤ fuel') :
    read pageAt fuel' offset = some pages := by
  induction fuel generalizing offset pages fuel' with
  | zero => cases h
  | succ fuel ih =>
    obtain ⟨more, rfl⟩ := Nat.exists_eq_add_of_le hle
    rw [Nat.add_right_comm]
    rw [read] at h ⊢
    split at h
    · next hmore =>
      obtain ⟨rest, hrest, hpages⟩ := Option.map_eq_some_iff.mp h
      rw [if_pos hmore, ih hrest (Nat.le_add_right _ _), Option.map_some, hpages]
    · next hmore => rwa [if_neg hmore]

theorem read_unique (h : read pageAt fuel offset = some pages) (h' : read pageAt fuel' offset = some pages') :
    pages = pages' := by
  rcases Nat.le_total fuel fuel' with hle | hle
  · exact Option.some.inj ((read_mono h hle).symm.trans h')
  · exact Option.some.inj (h.symm.trans (read_mono h' hle))

end

/-! ## slices -/

section
variable {items : List α} {pages : List (List α)} {total limit offset fuel : Nat}

theorem length_slice : (slice items total limit offset).items.length = min limit (items.length - offset) := by
  rw [slice, List.length_take, List.length_drop]

theorem total_le_of_read (h : read (slice items total limit) fuel offset = some pages)
    (hoffset : offset ≤ items.length) :
    total ≤ items.length := by
  induction fuel generalizing offset pages with
  | zero => cases h
  | succ fuel ih =>
    have hnext : offset + (slice items total limit offset).items.length ≤ items.length := by
      rw [length_slice]
      omega
    rw [read] at h
    split at h
    · obtain ⟨rest, hrest, -⟩ := Option.map_eq_some_iff.mp h
      exact ih hrest hnext
    · next hmore =>
      have hlast : ¬ offset + (slice items total limit offset).items.length < total := by
        simpa [slice] using hmore
      omega

/-- where the pages end -/
def lastEnd (length total limit offset : Nat) : Nat :=
  min length (offset + limit * max 1 ((total - offset + limit - 1) / limit))

theorem lastEnd_step {length : Nat} (hlimit : 0 < limit) (hmore : offset + limit < total) :
    lastEnd length total limit (offset + limit) = lastEnd length total limit offset := by
  have hceil : (total - offset + limit - 1) / limit = (total - (offset + limit) + limit - 1) / limit + 1 := by
    have hsum : total - offset + limit - 1 = total - (offset + limit) + limit - 1 + limit := by omega
    rw [hsum, Nat.add_div_right _ hlimit]
  have hpos : 1 ≤ (total - (offset + limit) + limit - 1) / limit := by
    rw [Nat.le_div_iff_mul_le hlimit]
    omega
  rw [lastEnd, lastEnd, hceil, Nat.max_eq_right hpos, Nat.max_eq_right (Nat.le_add_left 1 _), Nat.mul_add, Nat.mul_one]
  congr 1
  omega

theorem slice_items (items : List α) (total limit offset : Nat) :
    (slice items total limit offset).items = (items.take (offset + limit)).drop offset := by
  rw [List.drop_take, Nat.add_sub_cancel_left]
  rfl

theorem pieces_append (items : List α) {a b c : Nat} (hab : a ≤ b) (hbc : b ≤ c) :
    (items.take b).drop a ++ (items.take c).drop b = (items.take c).drop a := by
  rw [List.drop_take, List.drop_take, List.drop_take]
  obtain ⟨first, rfl⟩ := Nat.exists_eq_add_of_le hab
  obtain ⟨second, rfl⟩ := Nat.exists_eq_add_of_le hbc
  rw [Nat.add_sub_cancel_left, Nat.add_sub_cancel_left, Nat.add_assoc, Nat.add_sub_cancel_left, List.take_add,
    List.drop_drop]

theorem read_slice (hlimit : 0 < limit) (htotal : total ≤ items.length) (hoffset : offset ≤ items.length) :
    ∃ fuel pages, read (slice items total limit) fuel offset = some pages ∧
      pages.flatten = (items.take (lastEnd items.length total limit offset)).drop offset := by
  induction hleft : total - offset using Nat.strongRecOn generalizing offset with
  | ind left ih =>
    have hpage : (slice items total limit offset).more =
        decide (offset + (slice items total limit offset).items.length < total) := rfl
    by_cases hmore : offset + limit < total
    · have hlength : (slice items total limit offset).items.length = limit := by
        rw [length_slice]
        omega
      obtain ⟨fuel, pages, hread, hpages⟩ := ih (total - (offset + limit)) (by omega) (by omega) rfl
      refine ⟨fuel + 1, (slice items total limit offset).items :: pages, ?_, ?_⟩
      · rw [read, hpage, hlength, if_pos (decide_eq_true hmore), hread, Option.map_some]
      · rw [lastEnd_step hlimit hmore] at hpages
        rw [List.flatten_cons, hpages, slice_items]
        refine pieces_append items (Nat.le_add_right _ _) ?_
        rw [← lastEnd_step hlimit hmore, lastEnd]
        omega
    · have hlast : ¬ offset + (slice items total limit offset).items.length < total := by
        rw [length_slice]
        omega
      refine ⟨1, [(slice items total limit offset).items], ?_, ?_⟩
      · rw [read, hpage, if_neg (by rwa [decide_eq_true_iff])]
      · have hend : lastEnd items.length total limit offset = min items.length (offset + limit) := by
          have hone : max 1 ((total - offset + limit - 1) / limit) = 1 := by
            have hdiv : (total - offset + limit - 1) / limit < 2 := by
              rw [Nat.div_lt_iff_lt_mul hlimit]
              omega
            omega
          rw [lastEnd, hone, Nat.mul_one]
        rw [List.flatten_singleton, slice_items, hend, Nat.min_comm, List.take_eq_take_min]

theorem flatten_read_zero (h : read (slice items total 0) fuel offset = some pages) : pages.flatten = [] := by
  induction fuel generalizing offset pages with
  | zero => cases h
  | succ fuel ih =>
    rw [read] at h
    split at h
    · obtain ⟨rest, hrest, rfl⟩ := Option.map_eq_some_iff.mp h
      rw [List.flatten_cons, ih hrest]
      rfl
    · cases h
      rfl

/-- **the pages come to an end and hold the list exactly when** the total is at most its length, and as many pages as the
total asks for reach its end -/
theorem complete_slice_iff : Complete (slice items total limit) items ↔
    total ≤ items.length ∧ items.length ≤ limit * max 1 ((total + limit - 1) / limit) := by
  constructor
  · rintro ⟨fuel, pages, hread, hpages⟩
    have htotal := total_le_of_read hread (Nat.zero_le _)
    refine ⟨htotal, ?_⟩
    rcases Nat.eq_zero_or_pos limit with rfl | hlimit
    · rw [Nat.zero_mul, ← hpages, flatten_read_zero hread]
      exact Nat.zero_le 0
    · obtain ⟨fuel', pages', hread', hpages'⟩ := read_slice hlimit htotal (Nat.zero_le items.length)
      rw [← read_unique hread hread', hpages, List.drop_zero] at hpages'
      have hlength := congrArg List.length hpages'
      rw [List.length_take, lastEnd] at hlength
      simp only [Nat.sub_zero, Nat.zero_add] at hlength
      omega
  · rintro ⟨htotal, hreach⟩
    rcases Nat.eq_zero_or_pos limit with rfl | hlimit
    · rw [Nat.zero_mul] at hreach
      obtain rfl : items = [] := List.length_eq_zero_iff.mp (Nat.le_zero.mp hreach)
      obtain rfl : total = 0 := Nat.le_zero.mp htotal
      exact ⟨1, [[]], rfl, rfl⟩
    · obtain ⟨fuel, pages, hread, hpages⟩ := read_slice hlimit htotal (Nat.zero_le items.length)
      refine ⟨fuel, pages, hread, hpages.trans ?_⟩
      rw [List.drop_zero, lastEnd, Nat.sub_zero, Nat.zero_add, Nat.min_eq_left hreach, List.take_length]

end

end Offsets

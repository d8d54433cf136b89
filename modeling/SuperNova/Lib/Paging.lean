import Mathlib.Data.List.Sort

/-!
# Paging by a cursor

A list is read page after page: a page is a front part of the items beyond a cursor, and the next
cursor is the key of the last item of the page.

* `complete_iff` (**main**): pages of every size reach every item beyond the cursor exactly when the
  items beyond it have ascending keys;
* `insertionSort_filter`: selecting and ordering commute, when the order is stable.
-/

set_option linter.unusedSectionVars false

namespace Paging

/-! ## pages -/

variable {α : Type} (key : α → Int)

/-- the items beyond a cursor -/
def beyond (c : Int) (l : List α) : List α := l.filter fun a => decide (key a > c)

def page (l : List α) (n : Nat) (c : Int) : List α := (beyond key c l).take n

/-- the key of the last item -/
def nextCursor (items : List α) : Option Int := items.getLast?.map key

/-- the `k`-th page after a cursor, each next cursor being that of the page just read -/
def nthPage (pageAt : Int → List α) : Nat → Int → List α
  | 0, c => pageAt c
  | k + 1, c =>
    match nextCursor key (pageAt c) with
    | some c' => nthPage pageAt k c'
    | none => []

/-- the pages come to an end, and every item beyond the cursor is on one of them -/
def Complete (pageAt : Int → List α) (l : List α) (c : Int) : Prop :=
  ∃ k, nthPage key pageAt k c = [] ∧
    ∀ a ∈ l, key a > c → ∃ j < k, a ∈ nthPage key pageAt j c

variable {key} {l : List α} {c c' : Int} {n : Nat}

theorem mem_beyond {a : α} : a ∈ beyond key c l ↔ a ∈ l ∧ key a > c := by
  rw [beyond, List.mem_filter, decide_eq_true_iff]

theorem beyond_beyond (h : c ≤ c') : beyond key c' (beyond key c l) = beyond key c' l := by
  rw [beyond, beyond, beyond, List.filter_filter]
  refine List.filter_congr fun a _ => ?_
  by_cases ha : key a > c'
  · have : key a > c := by omega
    simp [ha, this]
  · simp [ha]

theorem nthPage_succ {pageAt : Int → List α} (h : nextCursor key (pageAt c) = some c') (k : Nat) :
    nthPage key pageAt (k + 1) c = nthPage key pageAt k c' := by
  rw [nthPage, h]

theorem key_of_mem_page {a : α} (h : a ∈ page key l n c) : key a > c :=
  (mem_beyond.mp (List.mem_of_mem_take h)).2

theorem key_of_mem_nthPage {a : α} {k : Nat} (h : a ∈ nthPage key (page key l n) k c) :
    key a > c := by
  induction k generalizing c with
  | zero => exact key_of_mem_page h
  | succ k ih =>
    cases hc : nextCursor key (page key l n c) with
    | none => simp [nthPage, hc] at h
    | some c' =>
      rw [nthPage_succ hc] at h
      obtain ⟨x, hx, rfl⟩ := Option.map_eq_some_iff.mp hc
      have h1 : key x > c := key_of_mem_page (List.mem_of_getLast? hx)
      have h2 := ih h
      omega

/-! ## ascending keys are enough -/

theorem beyond_last {p d : List α} {x : α} (hsorted : (p ++ d).Pairwise (key · < key ·))
    (hx : p.getLast? = some x) : beyond key (key x) (p ++ d) = d := by
  obtain ⟨p, rfl⟩ := List.getLast?_eq_some_iff.mp hx
  obtain ⟨hp, -, hd⟩ := List.pairwise_append.mp hsorted
  rw [beyond, List.filter_append, List.filter_eq_nil_iff.mpr, List.nil_append, List.filter_eq_self]
  · intro a ha
    exact decide_eq_true (hd x (List.mem_append_right _ List.mem_cons_self) a ha)
  · intro a ha
    rw [decide_eq_true_iff]
    rcases List.mem_append.mp ha with ha | ha
    · have := (List.pairwise_append.mp hp).2.2 a ha x List.mem_cons_self
      omega
    · rw [List.mem_singleton.mp ha]
      omega

theorem beyond_next {x : α} (h : (beyond key c l).Pairwise (key · < key ·))
    (hx : (page key l n c).getLast? = some x) : beyond key (key x) l = (beyond key c l).drop n := by
  have hcx : c < key x := key_of_mem_page (List.mem_of_getLast? hx)
  have hsplit := List.take_append_drop n (beyond key c l)
  rw [← beyond_beyond (Int.le_of_lt hcx)]
  conv_lhs => rw [← hsplit]
  exact beyond_last (by rw [hsplit]; exact h) hx

theorem beyond_eq_nil (hn : 1 ≤ n) (hpage : page key l n c = []) : beyond key c l = [] := by
  rcases List.take_eq_nil_iff.mp hpage with hzero | hbeyond
  · omega
  · exact hbeyond

theorem complete_of_ascending (hn : 1 ≤ n) (h : (beyond key c l).Pairwise (key · < key ·)) :
    Complete key (page key l n) l c := by
  induction hlen : (beyond key c l).length using Nat.strong_induction_on generalizing c with
  | _ len ih =>
    subst hlen
    cases hx : (page key l n c).getLast? with
    | none =>
      have hpage := List.getLast?_eq_none_iff.mp hx
      refine ⟨0, hpage, fun a ha hc => ?_⟩
      have hmem := mem_beyond.mpr ⟨ha, hc⟩
      rw [beyond_eq_nil hn hpage] at hmem
      cases hmem
    | some x =>
      have hsplit := List.take_append_drop n (beyond key c l)
      have hrest := beyond_next h hx
      have hshort : (beyond key (key x) l).length < (beyond key c l).length := by
        have hmem := List.length_pos_of_mem (List.mem_of_mem_take (List.mem_of_getLast? hx))
        rw [hrest, List.length_drop]
        omega
      obtain ⟨k, hk, hall⟩ := ih _ hshort (hrest ▸ h.sublist (List.drop_sublist n _)) rfl
      have hnext : nextCursor key (page key l n c) = some (key x) := congrArg (·.map key) hx
      refine ⟨k + 1, (nthPage_succ hnext k).trans hk, fun a ha hc => ?_⟩
      have hmem := mem_beyond.mpr ⟨ha, hc⟩
      rw [← hsplit] at hmem
      rcases List.mem_append.mp hmem with hmem | hmem
      · exact ⟨0, Nat.succ_pos k, hmem⟩
      · obtain ⟨j, hj, hjm⟩ := hall a ha (mem_beyond.mp (hrest ▸ hmem)).2
        exact ⟨j + 1, Nat.succ_lt_succ hj, (nthPage_succ hnext j).symm ▸ hjm⟩

theorem flatMap_nthPage (hn : 1 ≤ n) {k : Nat} (h : (beyond key c l).Pairwise (key · < key ·))
    (hk : nthPage key (page key l n) k c = []) :
    (List.range k).flatMap (fun j => nthPage key (page key l n) j c) = beyond key c l := by
  induction k generalizing c with
  | zero => exact (beyond_eq_nil hn hk).symm
  | succ k ih =>
    rw [List.range_succ_eq_map, List.flatMap_cons, List.flatMap_map]
    cases hx : (page key l n c).getLast? with
    | none =>
      have hpage : page key l n c = [] := List.getLast?_eq_none_iff.mp hx
      rw [beyond_eq_nil hn hpage, nthPage, hpage, List.nil_append, List.flatMap_eq_nil_iff]
      intro j _
      rw [nthPage, hpage]
      rfl
    | some x =>
      have hnext : nextCursor key (page key l n c) = some (key x) := congrArg (·.map key) hx
      have hsplit := List.take_append_drop n (beyond key c l)
      have hrest := beyond_next h hx
      rw [nthPage_succ hnext] at hk
      have hlater := ih (hrest ▸ h.sublist (List.drop_sublist n _)) hk
      have hshift : ((List.range k).flatMap fun j => nthPage key (page key l n) (j + 1) c) =
          (List.range k).flatMap fun j => nthPage key (page key l n) j (key x) :=
        List.flatMap_congr fun j _ => nthPage_succ hnext j
      rw [hshift, hlater, hrest]
      exact hsplit

/-! ## pages of one item need ascending keys -/

theorem ascending_of_complete (hnodup : l.Nodup) (h : Complete key (page key l 1) l c) :
    (beyond key c l).Pairwise (key · < key ·) := by
  induction hb : beyond key c l generalizing c with
  | nil => exact .nil
  | cons b rest ih =>
    have hpage : page key l 1 c = [b] := by rw [page, hb, List.take_succ_cons, List.take_zero]
    have hnext : nextCursor key (page key l 1 c) = some (key b) := by rw [hpage]; rfl
    have hcb : c < key b := (mem_beyond.mp (hb ▸ List.mem_cons_self)).2
    obtain ⟨k, hk, hall⟩ := h
    have hlater : ∀ a ∈ l, key a > c → a ≠ b →
        ∃ j, j + 1 < k ∧ a ∈ nthPage key (page key l 1) j (key b) := by
      intro a ha hc hne
      obtain ⟨j, hj, hmem⟩ := hall a ha hc
      cases j with
      | zero => exact absurd (List.mem_singleton.mp (hpage ▸ hmem)) hne
      | succ j => exact ⟨j, hj, nthPage_succ hnext j ▸ hmem⟩
    have hfirst : ∀ a ∈ rest, key b < key a := by
      intro a ha
      have hmem := mem_beyond.mp (hb ▸ List.mem_cons_of_mem b ha : a ∈ beyond key c l)
      have hne : a ≠ b := by
        rintro rfl
        have : (beyond key c l).Nodup := hnodup.filter _
        rw [hb] at this
        exact (List.nodup_cons.mp this).1 ha
      obtain ⟨j, -, hj⟩ := hlater a hmem.1 hmem.2 hne
      exact key_of_mem_nthPage hj
    have hrest : beyond key (key b) l = rest := by
      rw [← beyond_beyond (Int.le_of_lt hcb), hb, beyond, List.filter_cons_of_neg (by simp),
        List.filter_eq_self]
      exact fun a ha => decide_eq_true (hfirst a ha)
    refine List.pairwise_cons.mpr ⟨hfirst, ih ?_ hrest⟩
    cases k with
    | zero => exact absurd (hpage.symm.trans hk) (List.cons_ne_nil _ _)
    | succ k =>
      refine ⟨k, (nthPage_succ hnext k).symm.trans hk, fun a ha hc => ?_⟩
      obtain ⟨j, hj, hmem⟩ := hlater a ha (by omega) (by rintro rfl; omega)
      exact ⟨j, Nat.lt_of_succ_lt_succ hj, hmem⟩

/-- **completeness of paging**: with pages of every size up to a bound, paging reaches every item
beyond the cursor exactly when these have ascending keys -/
theorem complete_iff (hnodup : l.Nodup) {bound : Nat} (hbound : 1 ≤ bound) :
    (∀ n, 1 ≤ n → n ≤ bound → Complete key (page key l n) l c) ↔
      (beyond key c l).Pairwise (key · < key ·) :=
  ⟨fun h => ascending_of_complete hnodup (h 1 (Nat.le_refl 1) hbound),
    fun h _ hn _ => complete_of_ascending hn h⟩

/-! ## selecting and ordering -/

section Order
variable {r : α → α → Prop} [DecidableRel r]

theorem orderedInsert_filter (htrans : ∀ a b c, r a b → r b c → r a c) (p : α → Bool) (a : α)
    (l : List α) (hl : l.Pairwise r) :
    (l.orderedInsert r a).filter p =
      if p a then (l.filter p).orderedInsert r a else l.filter p := by
  induction l with
  | nil =>
    by_cases ha : p a <;> simp [ha]
  | cons b l ih =>
    obtain ⟨hb, hl⟩ := List.pairwise_cons.mp hl
    by_cases hab : r a b
    · have hall : ∀ x ∈ l.filter p, r a x :=
        fun x hx => htrans a b x hab (hb x (List.mem_of_mem_filter hx))
      have hcons : (l.filter p).orderedInsert r a = a :: l.filter p := by
        cases hf : l.filter p with
        | nil => rfl
        | cons x t => exact List.orderedInsert_cons_of_le r t (hall x (hf ▸ List.mem_cons_self))
      rw [List.orderedInsert_cons_of_le r l hab]
      by_cases ha : p a <;> by_cases hpb : p b <;> simp [ha, hpb, hab, hcons]
    · rw [List.orderedInsert_of_not_le r l hab]
      by_cases ha : p a <;> by_cases hpb : p b <;> simp [ha, hpb, hab, ih hl]

theorem insertionSort_filter [Std.Total r] [IsTrans α r] (p : α → Bool) (l : List α) :
    (l.insertionSort r).filter p = (l.filter p).insertionSort r := by
  induction l with
  | nil => rfl
  | cons a l ih =>
    have htrans : ∀ a b c, r a b → r b c → r a c := fun _ _ _ => IsTrans.trans _ _ _
    rw [List.insertionSort_cons, orderedInsert_filter htrans p a _
      (List.pairwise_insertionSort r l), ih, List.filter_cons]
    by_cases ha : p a <;> simp [ha]

end Order

end Paging

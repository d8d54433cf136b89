import Mathlib.Data.List.Infix

/-!
# Patterns with stars

A pattern is a list of symbols, one of which, the star, stands for any list of symbols.

* `Matches`: a list matches a pattern, from its start to its end;
* `Ordered`, `Anchored`: parts that stand in a list one after another, and those of which the last one ends it;
* `matches_iff_parts`: what the parts between the stars say;
* `anchored_iff`: parts that stand in order reach the end when the last one stands there.
-/

set_option linter.unusedSectionVars false

namespace Glob

variable {α : Type} [DecidableEq α]

/-- the list matches the pattern; the star stands for any list -/
def Matches (star : α) : List α → List α → Prop
  | [], s => s = []
  | c :: p, s => if c = star then ∃ t, t <:+ s ∧ Matches star p t else s.head? = some c ∧ Matches star p s.tail

instance decidableMatches (star : α) : ∀ p s : List α, Decidable (Matches star p s)
  | [], s => inferInstanceAs (Decidable (s = []))
  | c :: p, s =>
    have := decidableMatches star p
    if hc : c = star then
      decidable_of_iff (∃ t ∈ s.tails, Matches star p t) (by
        rw [Matches, if_pos hc]
        simp only [List.mem_tails])
    else decidable_of_iff (s.head? = some c ∧ Matches star p s.tail) (by rw [Matches, if_neg hc])

/-- the parts stand in the list one after another -/
def Ordered : List (List α) → List α → Prop
  | [], _ => True
  | part :: parts, s => ∃ gap rest, s = gap ++ (part ++ rest) ∧ Ordered parts rest

/-- the parts stand in the list one after another, up to its end -/
def Anchored : List (List α) → List α → Prop
  | [], s => s = []
  | part :: parts, s => ∃ gap rest, s = gap ++ (part ++ rest) ∧ Anchored parts rest

section
variable {star : α} {part first last s t : List α} {parts : List (List α)}

theorem Ordered.mono (hs : s <:+ t) (h : Ordered parts s) : Ordered parts t := by
  cases parts with
  | nil => exact trivial
  | cons part parts =>
    obtain ⟨more, rfl⟩ := hs
    obtain ⟨gap, rest, rfl, hrest⟩ := h
    exact ⟨more ++ gap, rest, (List.append_assoc _ _ _).symm, hrest⟩

theorem Ordered.length_le (h : Ordered parts s) (hpart : part ∈ parts) : part.length ≤ s.length := by
  induction parts generalizing s with
  | nil => exact absurd hpart List.not_mem_nil
  | cons first parts ih =>
    obtain ⟨gap, rest, rfl, hrest⟩ := h
    rw [List.length_append, List.length_append]
    rcases List.mem_cons.mp hpart with rfl | hmem
    · omega
    · have := ih hrest hmem
      omega

theorem Anchored.ordered (h : Anchored parts s) : Ordered parts s := by
  induction parts generalizing s with
  | nil => exact trivial
  | cons part parts ih =>
    obtain ⟨gap, rest, hs, hrest⟩ := h
    exact ⟨gap, rest, hs, ih hrest⟩

theorem Anchored.suffix (h : Anchored (parts ++ [last]) s) : last <:+ s := by
  induction parts generalizing s with
  | nil =>
    obtain ⟨gap, rest, rfl, rfl⟩ := h
    exact ⟨gap, by rw [List.append_nil]⟩
  | cons part parts ih =>
    obtain ⟨gap, rest, rfl, hrest⟩ := h
    exact (ih hrest).trans ((List.suffix_append part rest).trans (List.suffix_append gap _))

/-- **parts that stand in order** reach the end when the last one stands there -/
theorem anchored_iff : Anchored (parts ++ [last]) s ↔ Ordered (parts ++ [last]) s ∧ last <:+ s := by
  refine ⟨fun h => ⟨h.ordered, h.suffix⟩, ?_⟩
  rintro ⟨hordered, hlast⟩
  induction parts generalizing s with
  | nil =>
    obtain ⟨gap, rfl⟩ := hlast
    exact ⟨gap, [], by rw [List.append_nil], rfl⟩
  | cons part parts ih =>
    obtain ⟨gap, rest, rfl, hrest⟩ := hordered
    have hlength := hrest.length_le (List.mem_append_right parts (List.mem_singleton_self last))
    have hsuffix : rest <:+ gap ++ (part ++ rest) := (List.suffix_append part rest).trans (List.suffix_append gap _)
    exact ⟨gap, rest, rfl, ih hrest (List.suffix_of_suffix_length_le hlast hsuffix hlength)⟩

theorem matches_of_no_star {p : List α} (h : star ∉ p) : Matches star p s ↔ s = p := by
  induction p generalizing s with
  | nil => rfl
  | cons c p ih =>
    obtain ⟨hc, hp⟩ := List.ne_and_not_mem_of_not_mem_cons h
    rw [Matches, if_neg hc.symm, ih hp]
    constructor
    · rintro ⟨hhead, rfl⟩
      exact List.eq_cons_of_mem_head? hhead
    · rintro rfl
      exact ⟨rfl, rfl⟩

theorem ordered_cons_iff (h : first <+: s) : Ordered (first :: parts) s ↔ Ordered parts (s.drop first.length) := by
  obtain ⟨tail, rfl⟩ := h
  rw [List.drop_left]
  constructor
  · rintro ⟨gap, rest, hs, hrest⟩
    refine hrest.mono ?_
    have hsuffix : rest <:+ first ++ tail := by
      rw [hs]
      exact (List.suffix_append first rest).trans (List.suffix_append gap _)
    refine List.suffix_of_suffix_length_le hsuffix (List.suffix_append first tail) ?_
    have hlength := congrArg List.length hs
    rw [List.length_append, List.length_append, List.length_append] at hlength
    omega
  · exact fun h => ⟨[], tail, rfl, h⟩

/-- **what the parts between the stars say** -/
theorem matches_iff_parts (star : α) (p s : List α) : Matches star p s ↔
    ∃ first parts tail, p.splitOn star = first :: parts ∧ s = first ++ tail ∧ Anchored parts tail := by
  induction p generalizing s with
  | nil =>
    rw [Matches, List.splitOn_nil]
    constructor
    · rintro rfl
      exact ⟨[], [], [], rfl, rfl, rfl⟩
    · rintro ⟨first, parts, tail, hsplit, rfl, htail⟩
      obtain ⟨rfl, rfl⟩ := List.cons.inj hsplit
      exact htail
  | cons c p ih =>
    rw [Matches, List.splitOn_cons_eq_if_modifyHead]
    obtain ⟨first, parts, hsplit⟩ := List.exists_cons_of_ne_nil (List.splitOn_ne_nil star p)
    by_cases hc : c = star
    · rw [if_pos hc, if_pos (beq_iff_eq.mpr hc), hsplit]
      constructor
      · rintro ⟨t, ⟨gap, rfl⟩, hmatch⟩
        obtain ⟨first', parts', tail, hsplit', rfl, htail⟩ := (ih t).mp hmatch
        obtain ⟨rfl, rfl⟩ := List.cons.inj (hsplit.symm.trans hsplit')
        exact ⟨[], _, gap ++ (first ++ tail), rfl, rfl, gap, tail, rfl, htail⟩
      · rintro ⟨first', parts', tail, hparts, rfl, htail⟩
        obtain ⟨rfl, rfl⟩ := List.cons.inj hparts
        obtain ⟨gap, rest, rfl, hrest⟩ := htail
        exact ⟨first ++ rest, List.suffix_append gap _, (ih _).mpr ⟨first, parts, rest, hsplit, rfl, hrest⟩⟩
    · rw [if_neg hc, if_neg (by simpa using hc), hsplit, List.modifyHead_cons]
      constructor
      · rintro ⟨hhead, hmatch⟩
        obtain ⟨first', parts', tail, hsplit', htail', htail⟩ := (ih s.tail).mp hmatch
        obtain ⟨rfl, rfl⟩ := List.cons.inj (hsplit.symm.trans hsplit')
        refine ⟨c :: first, parts, tail, rfl, ?_, htail⟩
        rw [List.cons_append, ← htail']
        exact List.eq_cons_of_mem_head? hhead
      · rintro ⟨first', parts', tail, hparts, rfl, htail⟩
        obtain ⟨rfl, rfl⟩ := List.cons.inj hparts
        exact ⟨rfl, (ih _).mpr ⟨first, parts, tail, hsplit, rfl, htail⟩⟩

end

end Glob

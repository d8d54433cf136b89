import Mathlib.Data.List.Basic
import Mathlib.Logic.Function.Basic

/-!
# Picking from a list

A list is gone through once; an item is picked unless its key was seen before, it is of no sort, or as many
of its sort are picked as are wanted.

* `mem_pick_iff`: which items are picked, by what is picked before them;
* `nodup_keys_pick`: no key is picked twice, and none that was seen before.
-/

set_option linter.unusedSectionVars false

namespace Picked

variable {α κ γ : Type} [DecidableEq κ] [DecidableEq γ]

/-- the key of an item, its sort if it is of one, and how many of a sort are wanted (`none`: all) -/
structure Rule (α κ γ : Type) where
  key : α → κ
  sort : α → Option γ
  wanted : γ → Option Nat

/-- as many of the sort are picked as are wanted -/
def Rule.full (r : Rule α κ γ) (g : γ) (n : Nat) : Prop := ∃ m, r.wanted g = some m ∧ m ≤ n

instance (r : Rule α κ γ) (g : γ) (n : Nat) : Decidable (r.full g n) :=
  match h : r.wanted g with
  | none => isFalse fun ⟨_, e, _⟩ => by rw [h] at e; cases e
  | some m => decidable_of_iff (m ≤ n) ⟨fun hle => ⟨m, h, hle⟩, fun ⟨_, e, hle⟩ => by
      rw [h] at e
      exact Option.some.inj e ▸ hle⟩

/-- the items that are picked, with the keys seen and the numbers picked so far -/
def pick (r : Rule α κ γ) : List κ → (γ → Nat) → List α → List α
  | _, _, [] => []
  | seen, taken, a :: l =>
    if r.key a ∈ seen then pick r seen taken l
    else match r.sort a with
      | none => pick r seen taken l
      | some g =>
        if r.full g (taken g) then pick r seen taken l
        else a :: pick r (r.key a :: seen) (Function.update taken g (taken g + 1)) l

variable {r : Rule α κ γ} {seen : List κ} {taken : γ → Nat} {a b : α} {l : List α} {g : γ}

theorem pick_seen (h : r.key a ∈ seen) : pick r seen taken (a :: l) = pick r seen taken l := by
  rw [pick, if_pos h]

theorem pick_unsorted (h : r.sort a = none) : pick r seen taken (a :: l) = pick r seen taken l := by
  rw [pick, h]
  exact ite_self _

theorem pick_full (hsort : r.sort a = some g) (h : r.full g (taken g)) :
    pick r seen taken (a :: l) = pick r seen taken l := by
  rw [pick, hsort]
  simp only [if_pos h, ite_self]

theorem pick_cons (hseen : r.key a ∉ seen) (hsort : r.sort a = some g) (h : ¬ r.full g (taken g)) :
    pick r seen taken (a :: l) = a :: pick r (r.key a :: seen) (Function.update taken g (taken g + 1)) l := by
  rw [pick, if_neg hseen, hsort]
  simp only [if_neg h]

theorem pick_cases (r : Rule α κ γ) (seen : List κ) (taken : γ → Nat) (a : α) (l : List α) :
    (pick r seen taken (a :: l) = pick r seen taken l ∧
      (r.key a ∈ seen ∨ r.sort a = none ∨ ∃ g, r.sort a = some g ∧ r.full g (taken g))) ∨
    ∃ g, r.key a ∉ seen ∧ r.sort a = some g ∧ ¬ r.full g (taken g) ∧
      pick r seen taken (a :: l) = a :: pick r (r.key a :: seen) (Function.update taken g (taken g + 1)) l := by
  by_cases hseen : r.key a ∈ seen
  · exact Or.inl ⟨pick_seen hseen, Or.inl hseen⟩
  · rcases hsort : r.sort a with _ | g
    · exact Or.inl ⟨pick_unsorted hsort, Or.inr (Or.inl rfl)⟩
    · by_cases hfull : r.full g (taken g)
      · exact Or.inl ⟨pick_full hsort hfull, Or.inr (Or.inr ⟨g, rfl, hfull⟩)⟩
      · exact Or.inr ⟨g, hseen, rfl, hfull, pick_cons hseen hsort hfull⟩

theorem pick_sublist (l : List α) : ∀ (seen : List κ) (taken : γ → Nat), (pick r seen taken l).Sublist l := by
  induction l with
  | nil => exact fun _ _ => List.Sublist.refl _
  | cons a l ih =>
    intro seen taken
    rcases pick_cases r seen taken a l with ⟨h, -⟩ | ⟨g, -, -, -, h⟩
    · rw [h]
      exact (ih seen taken).cons a
    · rw [h]
      exact (ih _ _).cons_cons a

theorem nodup_keys_pick (l : List α) : ∀ (seen : List κ) (taken : γ → Nat),
    ((pick r seen taken l).map r.key).Nodup ∧ ∀ a ∈ pick r seen taken l, r.key a ∉ seen := by
  induction l with
  | nil => exact fun _ _ => ⟨List.nodup_nil, fun _ h => absurd h List.not_mem_nil⟩
  | cons a l ih =>
    intro seen taken
    rcases pick_cases r seen taken a l with ⟨h, -⟩ | ⟨g, hseen, -, -, h⟩
    · rw [h]
      exact ih seen taken
    · obtain ⟨hnodup, hfresh⟩ := ih (r.key a :: seen) (Function.update taken g (taken g + 1))
      rw [h]
      refine ⟨List.nodup_cons.mpr ⟨?_, hnodup⟩, fun b hb => ?_⟩
      · intro hmem
        obtain ⟨b, hb, e⟩ := List.mem_map.mp hmem
        exact hfresh b hb (e ▸ List.mem_cons_self)
      · rcases List.mem_cons.mp hb with rfl | hb
        · exact hseen
        · exact fun hmem => hfresh b hb (List.mem_cons_of_mem _ hmem)

/-! ## by what was picked before -/

section
variable {before : α → α → Prop} [DecidableRel before]

/-- how many picked items of the sort come before the item -/
def pickedBefore (before : α → α → Prop) [DecidableRel before] (r : Rule α κ γ) (picked : List α) (g : γ)
    (a : α) : Nat :=
  picked.countP fun b => r.sort b = some g ∧ before b a

/-- an item that is picked: of a sort of which fewer are picked before it than wanted, with a key that was
not seen and that is picked by none before it -/
structure Picks (before : α → α → Prop) [DecidableRel before] (r : Rule α κ γ) (seen : List κ) (taken : γ → Nat)
    (picked : List α) (a : α) : Prop where
  intro ::
  fresh : r.key a ∉ seen
  first : ∀ b ∈ picked, before b a → r.key b ≠ r.key a
  sorted : ∃ g, r.sort a = some g ∧ ¬ r.full g (taken g + pickedBefore before r picked g a)

theorem pickedBefore_first (h : ∀ b ∈ l, ¬ before b a) : pickedBefore before r l g a = 0 := by
  rw [pickedBefore, List.countP_eq_zero]
  intro b hb
  rw [decide_eq_true_eq]
  exact fun hbefore => h b hb hbefore.2

theorem pickedBefore_cons (taken : γ → Nat) (hsort : r.sort b = some g) (hbefore : before b a) (g' : γ) :
    taken g' + pickedBefore before r (b :: l) g' a =
      Function.update taken g (taken g + 1) g' + pickedBefore before r l g' a := by
  rw [pickedBefore, List.countP_cons, ← pickedBefore]
  by_cases h : g' = g
  · subst h
    rw [Function.update_self, if_pos (decide_eq_true ⟨hsort, hbefore⟩)]
    omega
  · have hother : ¬ (r.sort b = some g' ∧ before b a) := by
      rw [hsort]
      exact fun hboth => h (Option.some.inj hboth.1).symm
    rw [Function.update_of_ne h, decide_eq_false hother, if_neg Bool.false_ne_true, Nat.add_zero]

theorem picks_cons (hsort : r.sort b = some g) (hbefore : before b a) :
    Picks before r (r.key b :: seen) (Function.update taken g (taken g + 1)) l a ↔
      Picks before r seen taken (b :: l) a := by
  constructor
  · rintro ⟨hfresh, hfirst, g', hg', hfull⟩
    rw [List.mem_cons, not_or] at hfresh
    refine ⟨hfresh.2, ?_, g', hg', pickedBefore_cons taken hsort hbefore g' ▸ hfull⟩
    intro c hc hca
    rcases List.mem_cons.mp hc with rfl | hc
    · exact Ne.symm hfresh.1
    · exact hfirst c hc hca
  · rintro ⟨hfresh, hfirst, g', hg', hfull⟩
    refine ⟨?_, fun c hc => hfirst c (List.mem_cons_of_mem b hc), g', hg',
      (pickedBefore_cons taken hsort hbefore g').symm ▸ hfull⟩
    rw [List.mem_cons, not_or]
    exact ⟨Ne.symm (hfirst b List.mem_cons_self hbefore), hfresh⟩

/-- **which items of an ordered list are picked** -/
theorem mem_pick_iff (hirrefl : ∀ a, ¬ before a a) (hasymm : ∀ a b, before a b → ¬ before b a) (l : List α) :
    l.Pairwise before → ∀ (seen : List κ) (taken : γ → Nat) (a : α),
      a ∈ pick r seen taken l ↔ a ∈ l ∧ Picks before r seen taken (pick r seen taken l) a := by
  induction l with
  | nil => exact fun _ _ _ a => ⟨fun h => absurd h List.not_mem_nil, fun h => absurd h.1 List.not_mem_nil⟩
  | cons c l ih =>
    intro hsorted seen taken a
    obtain ⟨hfirst, hsorted⟩ := List.pairwise_cons.mp hsorted
    have hafter : ∀ b ∈ l, ¬ before b c := fun b hb => hasymm c b (hfirst b hb)
    rcases pick_cases r seen taken c l with ⟨h, hwhy⟩ | ⟨g, hseen, hsort, hfull, h⟩
    · rw [h, ih hsorted seen taken a, List.mem_cons]
      refine ⟨fun ⟨hmem, hpicks⟩ => ⟨Or.inr hmem, hpicks⟩, fun ⟨hmem, hpicks⟩ => ⟨hmem.resolve_left ?_, hpicks⟩⟩
      -- the first item itself is not one that is picked
      rintro rfl
      rcases hwhy with hseen | hnone | ⟨g, hsort, hfull⟩
      · exact hpicks.fresh hseen
      · obtain ⟨g, hsort, -⟩ := hpicks.sorted
        rw [hnone] at hsort
        cases hsort
      · obtain ⟨g', hsort', hfull'⟩ := hpicks.sorted
        cases hsort.symm.trans hsort'
        rw [pickedBefore_first fun b hb => hafter b ((pick_sublist l seen taken).subset hb)] at hfull'
        exact hfull' hfull
    · have hrest : ∀ b ∈ pick r (r.key c :: seen) (Function.update taken g (taken g + 1)) l, ¬ before b c :=
        fun b hb => hafter b ((pick_sublist l _ _).subset hb)
      rw [h, List.mem_cons, List.mem_cons]
      generalize hpicked : pick r (r.key c :: seen) (Function.update taken g (taken g + 1)) l = picked at hrest ⊢
      have hih := ih hsorted (r.key c :: seen) (Function.update taken g (taken g + 1)) a
      rw [hpicked] at hih
      by_cases hac : a = c
      · subst hac
        refine ⟨fun _ => ⟨Or.inl rfl, hseen, ?_, g, hsort, ?_⟩, fun _ => Or.inl rfl⟩
        · intro b hb hbefore
          rcases List.mem_cons.mp hb with rfl | hb
          · exact absurd hbefore (hirrefl b)
          · exact absurd hbefore (hrest b hb)
        · rw [pickedBefore_first fun b hb => ?_]
          · exact hfull
          · rcases List.mem_cons.mp hb with rfl | hb
            · exact hirrefl b
            · exact hrest b hb
      · rw [or_iff_right hac, or_iff_right hac, hih]
        refine and_congr_right fun hmem => ?_
        exact picks_cons hsort (hfirst a hmem)

end

end Picked

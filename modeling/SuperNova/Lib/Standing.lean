import Mathlib.Data.List.Induction

/-!
# Marks that a log gives and takes back

Some entries of a log give a mark, others take it back.

* `Stands`: the mark was given, and not taken back since;
* `Renewed`: whenever a mark that had been given was taken back, it was given again;
* `stands_iff_renewed` (**main**): a mark that was given at all stands exactly when it was always renewed;
* `Latest`: an entry that no later one with its key replaces;
* `StandsIn`: the mark of a state, where it depends on the state whether an entry sets or clears it.
-/

namespace Standing

variable {E : Type}

/-- some entry gave the mark, and no later one took it back -/
def Stands (gives takes : E → Prop) (log : List E) : Prop :=
  ∃ before entry after, log = before ++ entry :: after ∧ gives entry ∧ ∀ later ∈ after, ¬ takes later

/-- what takes the mark back after it was given is followed by what gives it again -/
def Renewed (gives takes : E → Prop) (log : List E) : Prop :=
  ∀ before entry after, log = before ++ entry :: after → takes entry →
    (∃ earlier ∈ before, gives earlier) → ∃ later ∈ after, gives later

variable {gives takes : E → Prop} {log : List E}

theorem exists_last (h : ∃ entry ∈ log, gives entry) :
    ∃ before entry after, log = before ++ entry :: after ∧ gives entry ∧ ∀ later ∈ after, ¬ gives later := by
  induction log using List.reverseRecOn with
  | nil =>
    obtain ⟨entry, hmem, -⟩ := h
    exact absurd hmem List.not_mem_nil
  | append_singleton log last ih =>
    by_cases hlast : gives last
    · exact ⟨log, last, [], rfl, hlast, fun later hlater => absurd hlater List.not_mem_nil⟩
    · obtain ⟨entry, hmem, hentry⟩ := h
      have hlog : entry ∈ log := by
        rcases List.mem_append.mp hmem with hmem | hmem
        · exact hmem
        · rw [List.mem_singleton.mp hmem] at hentry
          exact absurd hentry hlast
      obtain ⟨before, found, after, rfl, hfound, hafter⟩ := ih ⟨entry, hlog, hentry⟩
      refine ⟨before, found, after ++ [last], by simp, hfound, fun later hlater => ?_⟩
      rcases List.mem_append.mp hlater with hlater | hlater
      · exact hafter later hlater
      · rw [List.mem_singleton.mp hlater]
        exact hlast

theorem mem_split {before after earlier later : List E} {entry other : E}
    (h : before ++ entry :: after = earlier ++ other :: later) :
    other ∈ after ∨ other = entry ∨ entry ∈ later := by
  rcases List.append_eq_append_iff.mp h with ⟨between, rfl, hsplit⟩ | ⟨between, rfl, hsplit⟩
  · cases between with
    | nil => exact Or.inr (Or.inl (List.cons.inj hsplit).1.symm)
    | cons x between =>
      rw [(List.cons.inj hsplit).2]
      exact Or.inl (List.mem_append_right _ List.mem_cons_self)
  · cases between with
    | nil => exact Or.inr (Or.inl (List.cons.inj hsplit).1)
    | cons x between =>
      rw [(List.cons.inj hsplit).2]
      exact Or.inr (Or.inr (List.mem_append_right _ List.mem_cons_self))

/-- **A mark that was given stands exactly when it was given again after all that took it back.** -/
theorem stands_iff_renewed (hapart : ∀ entry, gives entry → ¬ takes entry)
    (hgiven : ∃ entry ∈ log, gives entry) : Stands gives takes log ↔ Renewed gives takes log := by
  constructor
  · rintro ⟨before, entry, after, rfl, hgives, hafter⟩ earlier other later hsplit htakes -
    rcases mem_split hsplit with hother | rfl | hentry
    · exact absurd htakes (hafter other hother)
    · exact absurd htakes (hapart other hgives)
    · exact ⟨entry, hentry, hgives⟩
  · intro hrenewed
    obtain ⟨before, entry, after, rfl, hgives, hlast⟩ := exists_last hgiven
    refine ⟨before, entry, after, rfl, hgives, fun other hother htakes => ?_⟩
    obtain ⟨between, rest, rfl⟩ := List.append_of_mem hother
    have hsplit : before ++ entry :: (between ++ other :: rest) =
        (before ++ entry :: between) ++ other :: rest := by simp
    have hbefore : ∃ earlier ∈ before ++ entry :: between, gives earlier :=
      ⟨entry, List.mem_append_right _ List.mem_cons_self, hgives⟩
    obtain ⟨later, hlater, hagain⟩ := hrenewed _ other rest hsplit htakes hbefore
    exact hlast later (List.mem_append_right _ (List.mem_cons_of_mem _ hlater)) hagain

theorem not_stands_concat {last : E} (htakes : takes last) (hgives : ¬ gives last) :
    ¬ Stands gives takes (log ++ [last]) := by
  rintro ⟨before, entry, after, hsplit, hentry, hafter⟩
  rcases mem_split hsplit.symm with hlast | rfl | hnil
  · exact hafter last hlast htakes
  · exact hgives hentry
  · exact List.not_mem_nil hnil

/-! ## the latest under a key -/

section
variable {K : Type} {key : E → K} {entry other : E} {later : List E}

/-- no later entry has the key of this one -/
def Latest (key : E → K) (log : List E) (entry : E) : Prop :=
  ∃ before after, log = before ++ entry :: after ∧ ∀ later ∈ after, key later ≠ key entry

theorem exists_latest (h : entry ∈ log) : ∃ last, Latest key log last ∧ key last = key entry := by
  have hgiven : ∃ e ∈ log, (fun e => key e = key entry) e := ⟨entry, h, rfl⟩
  obtain ⟨before, last, after, hsplit, hkey, hafter⟩ := exists_last hgiven
  exact ⟨last, ⟨before, after, hsplit, fun later hlater => hkey ▸ hafter later hlater⟩, hkey⟩

theorem latest_iff [DecidableEq K] : Latest key log entry ↔
    (log.filter fun e => key e == key entry).getLast? = some entry := by
  constructor
  · rintro ⟨before, after, rfl, hafter⟩
    have hnone : (after.filter fun e => key e == key entry) = [] :=
      List.filter_eq_nil_iff.mpr fun e he heq => hafter e he (beq_iff_eq.mp heq)
    rw [List.filter_append, List.filter_cons, if_pos (beq_self_eq_true (key entry)), hnone]
    simp
  · intro h
    have hmem : entry ∈ log := (List.mem_filter.mp (List.mem_of_getLast? h)).1
    obtain ⟨last, ⟨before, after, rfl, hafter⟩, hkey⟩ := @exists_latest E log K key entry hmem
    have hnone : (after.filter fun e => key e == key entry) = [] :=
      List.filter_eq_nil_iff.mpr fun e he heq => hafter e he ((beq_iff_eq.mp heq).trans hkey.symm)
    rw [List.filter_append, List.filter_cons, if_pos (by simp [hkey]), hnone, List.getLast?_append] at h
    cases h
    exact ⟨before, after, rfl, hafter⟩

end

/-! ## marks of a state -/

section
variable {S : Type} {step : S → E → S} {marked : S → Prop} {sets clears : S → E → Prop} {s : S} {entry : E}

/-- no entry clears the mark of the state that it finds -/
def Uncleared (step : S → E → S) (clears : S → E → Prop) (s : S) (log : List E) : Prop :=
  ∀ before entry after, log = before ++ entry :: after → ¬ clears (before.foldl step s) entry

/-- some entry sets the mark of the state that it finds, and no later one clears it -/
def StandsIn (step : S → E → S) (sets clears : S → E → Prop) (s : S) (log : List E) : Prop :=
  ∃ before entry after, log = before ++ entry :: after ∧ sets (before.foldl step s) entry ∧
    Uncleared step clears (step (before.foldl step s) entry) after

theorem uncleared_cons : Uncleared step clears s (entry :: log) ↔
    ¬ clears s entry ∧ Uncleared step clears (step s entry) log := by
  constructor
  · intro h
    exact ⟨h [] entry log rfl, fun before other after hsplit => h (entry :: before) other after (hsplit ▸ rfl)⟩
  · rintro ⟨hfirst, hrest⟩ before other after hsplit
    cases before with
    | nil =>
      obtain ⟨rfl, rfl⟩ := List.cons.inj hsplit
      exact hfirst
    | cons first before =>
      obtain ⟨rfl, rfl⟩ := List.cons.inj hsplit
      exact hrest before other after rfl

theorem standsIn_cons : StandsIn step sets clears s (entry :: log) ↔
    sets s entry ∧ Uncleared step clears (step s entry) log ∨ StandsIn step sets clears (step s entry) log := by
  constructor
  · rintro ⟨before, other, after, hsplit, hsets, hafter⟩
    cases before with
    | nil =>
      obtain ⟨rfl, rfl⟩ := List.cons.inj hsplit
      exact Or.inl ⟨hsets, hafter⟩
    | cons first before =>
      obtain ⟨rfl, rfl⟩ := List.cons.inj hsplit
      exact Or.inr ⟨before, other, after, rfl, hsets, hafter⟩
  · rintro (⟨hsets, hafter⟩ | ⟨before, other, after, rfl, hsets, hafter⟩)
    · exact ⟨[], entry, log, rfl, hsets, hafter⟩
    · exact ⟨entry :: before, other, after, rfl, hsets, hafter⟩

/-- **a mark that each step sets, clears or leaves** is there when it was set or there before, and not cleared since -/
theorem foldl_marked_iff (hstep : ∀ s entry, marked (step s entry) ↔ sets s entry ∨ marked s ∧ ¬ clears s entry) :
    marked (log.foldl step s) ↔ StandsIn step sets clears s log ∨ marked s ∧ Uncleared step clears s log := by
  induction log generalizing s with
  | nil => simp [StandsIn, Uncleared]
  | cons entry log ih =>
    rw [List.foldl_cons, ih, hstep, standsIn_cons, uncleared_cons]
    tauto

theorem foldl_marked_iff_standsIn
    (hstep : ∀ s entry, marked (step s entry) ↔ sets s entry ∨ marked s ∧ ¬ clears s entry) (hfirst : ¬ marked s) :
    marked (log.foldl step s) ↔ StandsIn step sets clears s log := by
  rw [foldl_marked_iff hstep]
  exact or_iff_left fun h => hfirst h.1

end

end Standing

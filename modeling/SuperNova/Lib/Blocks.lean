import Mathlib.Data.List.Basic

/-!
# Blocks between blank lines

A text is cut into blocks at its blank lines, either line by line or by a search for separators: a line end, white
space, and a line end, as long as they can be.

* `splitBlank`: the search;
* `blocks`: the runs of lines that are not blank;
* `gather_separated`: what is gathered before and after a blank line;
* `gather_splitBlank` (**main**): the parts that the search finds are the runs, but for blank lines at their ends;
* `gather_splitBlank_append`: a text may go on after its last part.
-/

set_option linter.unusedSectionVars false

namespace Blocks

variable {α ε : Type} [DecidableEq α]

/-! ## the search -/

section
variable (space : α → Bool) (nl : α)

/-- what is left after white space that ends with a line end, the longest there is -/
def afterBlank : List α → Option (List α)
  | [] => none
  | c :: rest =>
    if space c then
      match afterBlank rest with
      | some later => some later
      | none => if c = nl then some rest else none
    else none

/-- what is left after a separator at the start -/
def afterSeparator : List α → Option (List α)
  | [] => none
  | c :: rest => if c = nl then afterBlank space nl rest else none

variable {space nl}

theorem afterBlank_eq {text later : List α} (h : afterBlank space nl text = some later) :
    ∃ w, text = w ++ nl :: later ∧ ∀ c ∈ w, space c = true := by
  induction text with
  | nil => cases h
  | cons c rest ih =>
    rw [afterBlank] at h
    split at h
    · next hc =>
      split at h
      · next found hfound =>
        obtain rfl := Option.some.inj h
        obtain ⟨w, hw, hspaces⟩ := ih hfound
        exact ⟨c :: w, by rw [hw, List.cons_append], List.forall_mem_cons.mpr ⟨hc, hspaces⟩⟩
      · split at h
        · next hnl =>
          obtain rfl := Option.some.inj h
          exact ⟨[], by rw [hnl, List.nil_append], fun _ hmem => absurd hmem List.not_mem_nil⟩
        · cases h
    · cases h

theorem afterBlank_ne_none {w later : List α} (hnl : space nl = true) (hw : ∀ c ∈ w, space c = true) :
    afterBlank space nl (w ++ nl :: later) ≠ none := by
  induction w with
  | nil =>
    rw [List.nil_append, afterBlank, if_pos hnl]
    split
    · exact Option.some_ne_none _
    · rw [if_pos rfl]
      exact Option.some_ne_none _
  | cons c w ih =>
    rw [List.cons_append, afterBlank, if_pos (hw c List.mem_cons_self)]
    split
    · exact Option.some_ne_none _
    · next hnone => exact absurd hnone (ih fun d hd => hw d (List.mem_cons_of_mem c hd))

theorem afterSeparator_eq {text later : List α} (h : afterSeparator space nl text = some later) :
    ∃ w, text = nl :: (w ++ nl :: later) ∧ ∀ c ∈ w, space c = true := by
  cases text with
  | nil => cases h
  | cons c rest =>
    rw [afterSeparator] at h
    split at h
    · next hnl =>
      obtain ⟨w, hw, hspaces⟩ := afterBlank_eq h
      exact ⟨w, by rw [hnl, hw], hspaces⟩
    · cases h

theorem length_afterSeparator {text later : List α} (h : afterSeparator space nl text = some later) :
    later.length < text.length := by
  obtain ⟨w, rfl, -⟩ := afterSeparator_eq h
  simp only [List.length_cons, List.length_append]
  omega

variable (space nl)

/-- the parts between separators, with what there is of the first one -/
def splitFrom (part : List α) : List α → List (List α)
  | [] => [part]
  | c :: rest =>
    match _h : afterSeparator space nl (c :: rest) with
    | some later => part :: splitFrom [] later
    | none => splitFrom (part ++ [c]) rest
termination_by text => text.length
decreasing_by
  · exact length_afterSeparator _h
  · exact Nat.lt_succ_self _

/-- the parts between separators -/
def splitBlank (text : List α) : List (List α) := splitFrom space nl [] text

/-! ## runs of lines -/

/-- nothing but white space -/
def blank (line : List α) : Bool := line.all space

/-- the runs of lines that are not blank; some are empty -/
def blocks (text : List α) : List (List (List α)) := (text.splitOn nl).splitOnP (blank space)

/-- the lines that are not blank -/
def solid (text : List α) : List (List α) := (text.splitOn nl).filter fun line => !blank space line

variable (g : List (List α) → Option ε)

def gather (text : List α) : List ε := (blocks space nl text).filterMap g

end

section
variable {space : α → Bool} {nl : α} {g : List (List α) → Option ε} {w part later text : List α}

theorem blank_of_spaces (hw : ∀ c ∈ w, space c = true) : ∀ line ∈ w.splitOn nl, blank space line = true := by
  induction w with
  | nil =>
    intro line hline
    rw [List.splitOn_nil, List.mem_singleton] at hline
    rw [hline]
    rfl
  | cons c w ih =>
    have hrest := ih fun d hd => hw d (List.mem_cons_of_mem c hd)
    intro line hline
    rw [List.splitOn_cons_eq_if_modifyHead] at hline
    split at hline
    · rcases List.mem_cons.mp hline with rfl | hline
      · rfl
      · exact hrest line hline
    · cases hlines : w.splitOn nl with
      | nil => exact absurd hlines (List.splitOn_ne_nil nl w)
      | cons first more =>
        rw [hlines] at hline hrest
        rcases List.mem_cons.mp hline with rfl | hline
        · show (space c && blank space first) = true
          rw [hw c List.mem_cons_self, hrest first List.mem_cons_self]
          rfl
        · exact hrest line (List.mem_cons_of_mem first hline)

theorem gather_blank_lines (hg : g [] = none) {front back : List (List α)}
    (hfront : ∀ line ∈ front, blank space line = true) :
    ((front ++ back).splitOnP (blank space)).filterMap g = (back.splitOnP (blank space)).filterMap g := by
  induction front with
  | nil => rfl
  | cons line front ih =>
    have hline : blank space line = true := hfront line List.mem_cons_self
    rw [List.cons_append, ← List.nil_append (line :: (front ++ back)), List.splitOnP_append_cons _ _ hline,
      List.splitOnP_nil, List.filterMap_append, List.filterMap_cons_none hg, List.filterMap_nil, List.nil_append]
    exact ih fun l hl => hfront l (List.mem_cons_of_mem line hl)

/-- **a blank line keeps apart what is before and after it** -/
theorem gather_separated (hg : g [] = none) (hw : ∀ c ∈ w, space c = true) (part later : List α) :
    gather space nl g (part ++ nl :: (w ++ nl :: later)) = gather space nl g part ++ gather space nl g later := by
  have hblank := @blank_of_spaces _ _ space nl w hw
  unfold gather blocks
  rw [List.splitOn_append_cons_self, List.splitOn_append_cons_self]
  cases hlines : w.splitOn nl with
  | nil => exact absurd hlines (List.splitOn_ne_nil nl w)
  | cons line more =>
    rw [hlines] at hblank
    rw [List.cons_append, List.splitOnP_append_cons _ _ (hblank line List.mem_cons_self), List.filterMap_append,
      gather_blank_lines hg fun l hl => hblank l (List.mem_cons_of_mem line hl)]

theorem gather_nil (hg : g [] = none) : gather space nl g [] = [] := by
  have hblocks : blocks space nl ([] : List α) = [[], []] := rfl
  rw [gather, hblocks, List.filterMap_cons_none hg, List.filterMap_cons_none hg, List.filterMap_nil]

theorem gather_intercalate (hg : g [] = none) (parts : List (List α)) :
    gather space nl g ([nl, nl].intercalate parts) = parts.flatMap (gather space nl g) := by
  induction parts with
  | nil => exact gather_nil hg
  | cons part parts ih =>
    by_cases hparts : parts = []
    · rw [hparts, List.intercalate_singleton, List.flatMap_singleton]
    · have hjoin : [nl, nl].intercalate (part :: parts) = part ++ nl :: ([] ++ nl :: [nl, nl].intercalate parts) := by
        rw [List.intercalate_cons_of_ne_nil hparts, List.append_assoc]
        rfl
      rw [hjoin, gather_separated hg (fun _ hmem => absurd hmem List.not_mem_nil), ih, List.flatMap_cons]

theorem splitOnP_map {β γ : Type} (f : β → γ) (p : γ → Bool) (l : List β) :
    (l.map f).splitOnP p = (l.splitOnP fun x => p (f x)).map (List.map f) := by
  induction l with
  | nil => rfl
  | cons x l ih =>
    rw [List.map_cons, List.splitOnP_cons_eq_if_modifyHead, List.splitOnP_cons_eq_if_modifyHead, ih]
    split
    · rfl
    · cases l.splitOnP fun x => p (f x) with
      | nil => rfl
      | cons first more => rfl

theorem gather_congr {f : List α → List α} {text' : List α} (hblank : ∀ line, blank space (f line) = blank space line)
    (hf : ∀ run, g (run.map f) = g run) (h : (text.splitOn nl).map f = (text'.splitOn nl).map f) :
    gather space nl g text = gather space nl g text' := by
  have hcanonical (t : List α) : gather space nl g t =
      (((t.splitOn nl).map f).splitOnP (blank space)).filterMap g := by
    rw [splitOnP_map, List.filterMap_map, gather, blocks]
    simp only [hblank]
    exact List.filterMap_congr fun run _ => (hf run).symm
  rw [hcanonical, hcanonical, h]

/-! ## a part -/

theorem intercalate_append (sep : List α) {front back : List (List α)} (hfront : front ≠ []) (hback : back ≠ []) :
    sep.intercalate (front ++ back) = sep.intercalate front ++ (sep ++ sep.intercalate back) := by
  induction front with
  | nil => exact absurd rfl hfront
  | cons line front ih =>
    rw [List.cons_append, List.intercalate_cons_of_ne_nil (List.append_ne_nil_of_right_ne_nil front hback)]
    by_cases hmore : front = []
    · rw [hmore, List.nil_append, List.intercalate_singleton, List.append_assoc]
    · rw [ih hmore, List.intercalate_cons_of_ne_nil hmore]
      simp only [List.append_assoc]

/-- no separator anywhere in it -/
def Whole (space : α → Bool) (nl : α) (part : List α) : Prop :=
  ∀ a w b, (∀ c ∈ w, space c = true) → part ≠ a ++ nl :: (w ++ nl :: b)

theorem Whole.not_blank (h : Whole space nl part) {front back : List (List α)} {line : List α}
    (hlines : part.splitOn nl = front ++ line :: back) (hfront : front ≠ []) (hback : back ≠ []) :
    blank space line = false := by
  by_contra hblank
  rw [Bool.not_eq_false] at hblank
  have hpart : [nl].intercalate (front ++ line :: back) = part := by
    rw [← hlines, List.intercalate_splitOn]
  have hcut : [nl].intercalate (front ++ line :: back) =
      [nl].intercalate front ++ nl :: (line ++ nl :: [nl].intercalate back) := by
    rw [intercalate_append _ hfront (List.cons_ne_nil line back), List.intercalate_cons_of_ne_nil hback,
      List.append_assoc, List.singleton_append, List.singleton_append]
  exact h _ line _ (fun c hc => List.all_eq_true.mp hblank c hc) (hpart.symm.trans hcut)

theorem gather_solid_lines {ls : List (List α)} (h : ∀ line ∈ ls, blank space line = false) :
    (ls.splitOnP (blank space)).filterMap g = (g ls).toList := by
  rw [List.splitOnP_eq_singleton h]
  cases hls : g ls with
  | none => rw [List.filterMap_cons_none hls, List.filterMap_nil, Option.toList_none]
  | some e => rw [List.filterMap_cons_some hls, List.filterMap_nil, Option.toList_some]

theorem gather_last_blank (hg : g [] = none) {ls : List (List α)} {line : List α} (hline : blank space line = true) :
    ((ls ++ [line]).splitOnP (blank space)).filterMap g = (ls.splitOnP (blank space)).filterMap g := by
  rw [List.splitOnP_append_cons _ _ hline, List.splitOnP_nil, List.filterMap_append, List.filterMap_cons_none hg,
    List.filterMap_nil, List.append_nil]

theorem Whole.gather (h : Whole space nl part) (hg : g [] = none) :
    gather space nl g part = (g (solid space nl part)).toList := by
  unfold Blocks.gather blocks solid
  cases hlines : part.splitOn nl with
  | nil => exact absurd hlines (List.splitOn_ne_nil nl part)
  | cons first more =>
    -- without a blank first line and a blank last line
    have hfirst : ∀ back, (∀ line ∈ back, blank space line = false) →
        ((first :: back).splitOnP (blank space)).filterMap g =
          (g ((first :: back).filter fun line => !blank space line)).toList := by
      intro back hback
      have hkept : (back.filter fun line => !blank space line) = back :=
        List.filter_eq_self.mpr fun line hline => by rw [hback line hline]; rfl
      cases hblank : blank space first with
      | true =>
        rw [List.filter_cons_of_neg (by rw [hblank]; decide), hkept, ← gather_solid_lines hback]
        have hfront : ∀ line ∈ [first], blank space line = true := List.forall_mem_singleton.mpr hblank
        exact gather_blank_lines hg hfront
      | false =>
        rw [List.filter_cons_of_pos (by rw [hblank]; rfl), hkept]
        exact gather_solid_lines (List.forall_mem_cons.mpr ⟨hblank, hback⟩)
    rcases List.eq_nil_or_concat more with rfl | ⟨middle, last, rfl⟩
    · exact hfirst [] fun _ hmem => absurd hmem List.not_mem_nil
    · rw [List.concat_eq_append] at hlines ⊢
      have hmiddle : ∀ line ∈ middle, blank space line = false := by
        intro line hline
        obtain ⟨a, b, rfl⟩ := List.append_of_mem hline
        have hcut : part.splitOn nl = (first :: a) ++ line :: (b ++ [last]) := by
          rw [hlines]
          simp
        exact h.not_blank hcut (List.cons_ne_nil _ _) (by simp)
      cases hblank : blank space last with
      | true =>
        have hnone : [last].filter (fun line => !blank space line) = [] := List.filter_cons_of_neg (by simp [hblank])
        rw [← List.cons_append, gather_last_blank hg hblank, List.filter_append, hnone, List.append_nil]
        exact hfirst middle hmiddle
      | false => exact hfirst _ (List.forall_mem_append.mpr ⟨hmiddle, List.forall_mem_singleton.mpr hblank⟩)

/-! ## the search and the runs -/

/-- no separator starts in the part, whatever follows of the text -/
def Scanned (space : α → Bool) (nl : α) (part text : List α) : Prop :=
  ∀ a b, part = a ++ nl :: b → afterBlank space nl (b ++ text) = none

theorem Scanned.whole (hnl : space nl = true) (h : Scanned space nl part text) : Whole space nl part := by
  intro a w b hw hpart
  have hnone := h a (w ++ nl :: b) hpart
  rw [List.append_assoc, List.cons_append] at hnone
  exact afterBlank_ne_none hnl hw hnone

theorem Scanned.step {c : α} {rest : List α} (h : Scanned space nl part (c :: rest))
    (hc : afterSeparator space nl (c :: rest) = none) : Scanned space nl (part ++ [c]) rest := by
  intro a b hpart
  rcases List.eq_nil_or_concat b with rfl | ⟨b', d, rfl⟩
  · obtain ⟨-, hlast⟩ := List.append_inj' hpart rfl
    obtain rfl : c = nl := List.singleton_inj.mp hlast
    rw [afterSeparator, if_pos rfl] at hc
    exact hc
  · rw [List.concat_eq_append, ← List.cons_append, ← List.append_assoc] at hpart
    obtain ⟨hfront, hlast⟩ := List.append_inj' hpart rfl
    obtain rfl : c = d := List.singleton_inj.mp hlast
    rw [List.concat_eq_append, List.append_assoc]
    exact h a b' hfront

theorem scanned_nil : Scanned space nl [] text := fun _ _ h => absurd h.symm (by simp)

theorem gather_splitFrom (hg : g [] = none) (hnl : space nl = true) (part text : List α)
    (h : Scanned space nl part text) :
    (splitFrom space nl part text).filterMap (fun p => g (solid space nl p)) = gather space nl g (part ++ text) := by
  have hone : ∀ {part' text' : List α}, Scanned space nl part' text' → ∀ parts : List (List α),
      (part' :: parts).filterMap (fun p => g (solid space nl p)) =
        gather space nl g part' ++ parts.filterMap (fun p => g (solid space nl p)) := by
    intro part' text' hpart parts
    rw [(hpart.whole hnl).gather hg, List.filterMap_cons]
    cases g (solid space nl part') with
    | none => rfl
    | some e => rfl
  induction part, text using splitFrom.induct space nl with
  | case1 part => rw [splitFrom, hone h, List.filterMap_nil, List.append_nil, List.append_nil]
  | case2 part c rest later hsep ih =>
    obtain ⟨w, htext, hw⟩ := afterSeparator_eq hsep
    rw [splitFrom]
    split
    · next found hfound =>
      obtain rfl := Option.some.inj (hsep.symm.trans hfound)
      rw [hone h, ih scanned_nil, List.nil_append, htext, gather_separated hg hw]
    · next hnone => exact absurd (hsep.symm.trans hnone) (Option.some_ne_none later)
  | case3 part c rest hsep ih =>
    rw [splitFrom]
    split
    · next found hfound => exact absurd (hfound.symm.trans hsep) (Option.some_ne_none found)
    · rw [ih (h.step hsep), List.append_assoc, List.singleton_append]

/-- **the parts that the search finds are the runs** -/
theorem gather_splitBlank (hg : g [] = none) (hnl : space nl = true) (text : List α) :
    (splitBlank space nl text).filterMap (fun p => g (solid space nl p)) = gather space nl g text :=
  gather_splitFrom hg hnl [] text scanned_nil

theorem splitFrom_ne_nil (part text : List α) : splitFrom space nl part text ≠ [] := by
  induction part, text using splitFrom.induct space nl with
  | case1 part => rw [splitFrom]; exact List.cons_ne_nil _ _
  | case2 part c rest later hsep ih =>
    rw [splitFrom]
    split
    · exact List.cons_ne_nil _ _
    · next hnone => exact absurd (hsep.symm.trans hnone) (Option.some_ne_none later)
  | case3 part c rest hsep ih =>
    rw [splitFrom]
    split
    · exact List.cons_ne_nil _ _
    · exact ih

theorem gather_splitFrom_append (hg : g [] = none) (part text more : List α) :
    gather space nl g (part ++ (text ++ more)) =
      (splitFrom space nl part text).dropLast.flatMap (gather space nl g) ++
        gather space nl g ((splitFrom space nl part text).getLastD [] ++ more) := by
  induction part, text using splitFrom.induct space nl with
  | case1 part => rw [splitFrom]; rfl
  | case2 part c rest later hsep ih =>
    obtain ⟨w, htext, hw⟩ := afterSeparator_eq hsep
    rw [splitFrom]
    split
    · next found hfound =>
      obtain rfl := Option.some.inj (hsep.symm.trans hfound)
      have hne : splitFrom space nl [] later ≠ [] := splitFrom_ne_nil [] later
      have hlast : (part :: splitFrom space nl [] later).getLastD [] = (splitFrom space nl [] later).getLastD [] := by
        cases hparts : splitFrom space nl [] later with
        | nil => exact absurd hparts hne
        | cons first rest => rw [List.getLastD_cons, List.getLastD_cons, List.getLastD_cons]
      rw [htext, List.cons_append, List.append_assoc, List.cons_append, gather_separated hg hw,
        List.dropLast_cons_of_ne_nil hne, List.flatMap_cons, List.append_assoc, ← List.nil_append (later ++ more), ih,
          hlast]
    · next hnone => exact absurd (hsep.symm.trans hnone) (Option.some_ne_none later)
  | case3 part c rest hsep ih =>
    rw [splitFrom]
    split
    · next found hfound => exact absurd (hfound.symm.trans hsep) (Option.some_ne_none found)
    · rw [← ih, List.append_assoc, List.singleton_append, List.cons_append]

/-- **a text may go on after its last part** -/
theorem gather_splitBlank_append (hg : g [] = none) (text more : List α) :
    gather space nl g (text ++ more) =
      (splitBlank space nl text).dropLast.flatMap (gather space nl g) ++
        gather space nl g ((splitBlank space nl text).getLastD [] ++ more) :=
  gather_splitFrom_append hg [] text more

end

end Blocks

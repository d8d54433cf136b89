import SuperNova.Lib.Glob
import SuperNova.Package.Build

/-!
# The two matchers of globs

Source sets and packages filter their files with a matcher each.  Both look for the parts between the stars from left to
right; the one of source sets asks also that the first part begins the path and that the last one ends it.

* `globLikeMatch`: the matcher of the data runtime;
* `matchParts_iff`: what looking from left to right finds out;
* `glob_filters` (**main**): which paths the filters of source sets accept, and where those of packages agree.
-/

set_option linter.unusedSectionVars false

namespace Data

open Text Workspace

/-- the parts of a pattern with a star, along the path -/
def matchAnchored (path pattern : String) : List String → Bool
  | [] => true
  | first :: parts =>
    if first ≠ "" ∧ ¬ first.toList <+: path.toList then false
    else if Package.matchParts parts (path.toList.drop first.toList.length) then
      let last := (first :: parts).getLastD ""
      if last ≠ "" ∧ ¬ ['*'] <:+ pattern.toList then last.toList <:+ path.toList else true
    else false

/-- `glob_like_match` of the data runtime -/
def globLikeMatch (path pattern : String) : Bool :=
  let pattern := normalizePath pattern
  if pattern = "*" ∨ pattern = "**/*" then true
  else if '*' ∉ pattern.toList then path == pattern || contains path pattern
  else matchAnchored path pattern (splitOn '*' pattern)

/-- the path begins with what stands before the first star, and ends with what stands after the last one -/
def StandsAtEnds (path pattern : String) : Prop :=
  ((splitOn '*' pattern).headD "").toList <+: path.toList ∧
    ((splitOn '*' pattern).getLastD "").toList <:+ path.toList

instance (path pattern : String) : Decidable (StandsAtEnds path pattern) :=
  inferInstanceAs (Decidable (_ ∧ _))

/-! ## parts in order -/

section
variable {part rest s : List Char} {parts : List String}

theorem dropThrough_isSome (gap rest : List Char) : (Package.dropThrough part (gap ++ (part ++ rest))).isSome := by
  induction gap with
  | nil =>
    cases hs : part ++ rest with
    | nil =>
      rw [List.nil_append, Package.dropThrough, if_pos (List.append_eq_nil_iff.mp hs).1]
      rfl
    | cons c tail =>
      rw [List.nil_append, Package.dropThrough, if_pos ⟨rest, hs⟩]
      rfl
  | cons c gap ih =>
    rw [List.cons_append, Package.dropThrough]
    split
    · rfl
    · exact ih

theorem dropThrough_first (h : Package.dropThrough part s = some rest) : (∃ gap, s = gap ++ (part ++ rest)) ∧
    ∀ gap rest', s = gap ++ (part ++ rest') → rest' <:+ rest := by
  induction s with
  | nil =>
    rw [Package.dropThrough] at h
    split at h
    next hpart =>
      obtain rfl := Option.some.inj h
      refine ⟨⟨[], by rw [hpart]; rfl⟩, fun gap rest' hs => ?_⟩
      obtain ⟨-, hrest⟩ := List.append_eq_nil_iff.mp hs.symm
      rw [(List.append_eq_nil_iff.mp hrest).2]
    next => cases h
  | cons c s ih =>
    rw [Package.dropThrough] at h
    split at h
    next hpart =>
      obtain ⟨tail, htail⟩ := hpart
      obtain rfl : tail = rest := by
        rw [← htail, List.drop_left] at h
        exact Option.some.inj h
      refine ⟨⟨[], htail.symm⟩, fun gap rest' hs => ?_⟩
      have hsuffix : rest' <:+ part ++ tail := by
        rw [htail, hs]
        exact (List.suffix_append part rest').trans (List.suffix_append gap _)
      refine List.suffix_of_suffix_length_le hsuffix (List.suffix_append part tail) ?_
      have hlength := congrArg List.length (htail.trans hs)
      rw [List.length_append, List.length_append, List.length_append] at hlength
      omega
    next hpart =>
      obtain ⟨⟨gap, hgap⟩, hfirst⟩ := ih h
      refine ⟨⟨c :: gap, by rw [hgap]; rfl⟩, fun gap' rest' hs => ?_⟩
      cases gap' with
      | nil => exact absurd ⟨rest', hs.symm⟩ hpart
      | cons d gap' => exact hfirst gap' rest' (List.cons.inj hs).2

/-- **looking from left to right** finds the parts if they stand one after another -/
theorem matchParts_iff : Package.matchParts parts s ↔ Glob.Ordered (parts.map String.toList) s := by
  induction parts generalizing s with
  | nil => exact iff_of_true rfl trivial
  | cons part parts ih =>
    rw [Package.matchParts, List.map_cons]
    split
    next hpart =>
      rw [hpart]
      exact ih.trans (Glob.ordered_cons_iff List.nil_prefix).symm
    next =>
      constructor
      · intro h
        cases hdrop : Package.dropThrough part.toList s with
        | none =>
          rw [hdrop] at h
          cases h
        | some rest =>
          rw [hdrop] at h
          obtain ⟨gap, hs⟩ := (dropThrough_first hdrop).1
          exact ⟨gap, rest, hs, ih.mp h⟩
      · rintro ⟨gap, rest, hs, hrest⟩
        have hsome := @dropThrough_isSome part.toList gap rest
        rw [← hs] at hsome
        obtain ⟨found, hfound⟩ := Option.isSome_iff_exists.mp hsome
        rw [hfound]
        exact ih.mpr (hrest.mono ((dropThrough_first hfound).2 gap rest hs))

end

/-! ## parts of a pattern -/

section
variable {path pattern : String} {first last tail : List Char} {parts : List (List Char)} {l : List Char}

theorem splitOn_star (h : '*' ∈ l) : ∃ first parts last, l.splitOn '*' = first :: (parts ++ [last]) := by
  obtain ⟨before, behind, rfl⟩ := List.append_of_mem h
  rw [List.splitOn_append_cons_self]
  obtain ⟨first, parts, hbefore⟩ := List.exists_cons_of_ne_nil (List.splitOn_ne_nil '*' before)
  refine ⟨first, parts ++ (behind.splitOn '*').dropLast, (behind.splitOn '*').getLast (List.splitOn_ne_nil _ _), ?_⟩
  rw [hbefore, List.cons_append, List.append_assoc, List.dropLast_append_getLast]

theorem last_of_star_suffix (h : ['*'] <:+ l) (hsplit : l.splitOn '*' = first :: (parts ++ [last])) : last = [] := by
  obtain ⟨before, rfl⟩ := h
  rw [List.splitOn_append_cons_self, List.splitOn_nil, ← List.cons_append] at hsplit
  exact (List.cons.inj (List.append_inj' hsplit rfl).2).1.symm

theorem splitOn_eq (hsplit : pattern.toList.splitOn '*' = first :: (parts ++ [last])) : splitOn '*' pattern =
    String.ofList first :: (parts.map String.ofList ++ [String.ofList last]) := by
  rw [splitOn, hsplit, List.map_cons, List.map_append, List.map_singleton]

theorem map_toList_ofList (parts : List (List Char)) : (parts.map String.ofList).map String.toList = parts := by
  rw [List.map_map]
  exact (List.map_congr_left fun part _ => String.toList_ofList).trans (List.map_id parts)

/-- **a pattern with a star**: the first part begins the path, the others follow in order, and the last one ends it -/
theorem matchAnchored_iff (hsplit : pattern.toList.splitOn '*' = first :: (parts ++ [last])) :
    matchAnchored path pattern (splitOn '*' pattern) ↔ first <+: path.toList ∧
      Glob.Ordered (parts ++ [last]) (path.toList.drop first.length) ∧ last <:+ path.toList := by
  have hlast : (String.ofList first :: (parts.map String.ofList ++ [String.ofList last])).getLastD "" =
      String.ofList last := by
    rw [← List.cons_append, List.getLastD_eq_getLast?, List.getLast?_concat]
    rfl
  have hordered : Package.matchParts (parts.map String.ofList ++ [String.ofList last])
      (path.toList.drop first.length) ↔ Glob.Ordered (parts ++ [last]) (path.toList.drop first.length) := by
    rw [matchParts_iff, List.map_append, map_toList_ofList, List.map_singleton, String.toList_ofList]
  rw [splitOn_eq hsplit, matchAnchored, hlast]
  simp only [String.toList_ofList]
  by_cases hfirst : first <+: path.toList
  · rw [if_neg (fun h => h.2 hfirst)]
    by_cases hparts : Package.matchParts (parts.map String.ofList ++ [String.ofList last])
        (path.toList.drop first.length)
    · rw [if_pos hparts]
      by_cases hend : String.ofList last ≠ "" ∧ ¬ ['*'] <:+ pattern.toList
      · rw [if_pos hend, decide_eq_true_iff]
        exact ⟨fun h => ⟨hfirst, hordered.mp hparts, h⟩, fun h => h.2.2⟩
      · rw [if_neg hend]
        refine iff_of_true rfl ⟨hfirst, hordered.mp hparts, ?_⟩
        rcases not_and_or.mp hend with hempty | hstar
        · rw [String.ofList_eq_empty_iff.mp (not_not.mp hempty)]
          exact List.nil_suffix
        · rw [last_of_star_suffix (not_not.mp hstar) hsplit]
          exact List.nil_suffix
    · rw [if_neg hparts]
      exact iff_of_false Bool.false_ne_true fun h => hparts (hordered.mpr h.2.1)
  · rw [if_pos]
    · exact iff_of_false Bool.false_ne_true fun h => hfirst h.1
    · refine ⟨fun h => hfirst ?_, hfirst⟩
      rw [String.ofList_eq_empty_iff.mp h]
      exact List.nil_prefix

theorem matches_iff_ends (hsplit : l.splitOn '*' = first :: (parts ++ [last])) (s : List Char) :
    Glob.Matches '*' l s ↔ first <+: s ∧ Glob.Ordered (parts ++ [last]) (s.drop first.length) ∧ last <:+ s := by
  rw [Glob.matches_iff_parts]
  constructor
  · rintro ⟨first', parts', tail, hsplit', rfl, htail⟩
    obtain ⟨rfl, rfl⟩ := List.cons.inj (hsplit.symm.trans hsplit')
    obtain ⟨hordered, hlast⟩ := Glob.anchored_iff.mp htail
    refine ⟨List.prefix_append first tail, ?_, hlast.trans (List.suffix_append first tail)⟩
    rw [List.drop_left]
    exact hordered
  · rintro ⟨⟨tail, rfl⟩, hordered, hlast⟩
    rw [List.drop_left] at hordered
    have hlength := hordered.length_le (List.mem_append_right parts (List.mem_singleton_self last))
    have hend := List.suffix_of_suffix_length_le hlast (List.suffix_append first tail) hlength
    exact ⟨first, parts ++ [last], tail, hsplit, rfl, Glob.anchored_iff.mpr ⟨hordered, hend⟩⟩

end

/-! ## the two matchers -/

section
variable {path pattern : String}

theorem globLikeMatch_of_star (hstar : '*' ∈ (normalizePath pattern).toList) (hall : normalizePath pattern ≠ "**/*") :
    globLikeMatch path pattern ↔ Glob.Matches '*' (normalizePath pattern).toList path.toList := by
  obtain ⟨first, parts, last, hsplit⟩ := splitOn_star hstar
  by_cases hsingle : normalizePath pattern = "*"
  · rw [globLikeMatch, if_pos (Or.inl hsingle), hsingle]
    exact iff_of_true rfl ⟨[], List.nil_suffix, rfl⟩
  · rw [globLikeMatch, if_neg (not_or.mpr ⟨hsingle, hall⟩), if_neg (not_not.mpr hstar), matchAnchored_iff hsplit,
      matches_iff_ends hsplit]

theorem globLikeMatch_of_no_star (hstar : '*' ∉ (normalizePath pattern).toList) :
    globLikeMatch path pattern ↔ contains path (normalizePath pattern) := by
  have hall : ¬ (normalizePath pattern = "*" ∨ normalizePath pattern = "**/*") := by
    rintro (h | h) <;>
    · rw [h] at hstar
      exact hstar (by decide)
  rw [globLikeMatch, if_neg hall, if_pos hstar, Bool.or_eq_true, beq_iff_eq]
  refine or_iff_right_of_imp ?_
  rintro rfl
  exact decide_eq_true List.infix_rfl

theorem package_of_star (hstar : '*' ∈ (normalizePath pattern).toList) (hall : normalizePath pattern ≠ "**/*") :
    Package.globLikeMatch path pattern ↔ Glob.Ordered ((normalizePath pattern).toList.splitOn '*') path.toList := by
  by_cases hsingle : normalizePath pattern = "*"
  · rw [Package.globLikeMatch, if_pos (Or.inl hsingle), hsingle]
    exact iff_of_true rfl ⟨[], path.toList, rfl, [], path.toList, rfl, trivial⟩
  · rw [Package.globLikeMatch, if_neg (not_or.mpr ⟨hsingle, hall⟩), if_neg (not_not.mpr hstar), matchParts_iff, splitOn,
      map_toList_ofList]

theorem globLikeMatch_of_package (hstar : '*' ∈ (normalizePath pattern).toList)
    (hall : normalizePath pattern ≠ "**/*") :
    globLikeMatch path pattern ↔ Package.globLikeMatch path pattern ∧ StandsAtEnds path (normalizePath pattern) := by
  obtain ⟨first, parts, last, hsplit⟩ := splitOn_star hstar
  have hends : StandsAtEnds path (normalizePath pattern) ↔ first <+: path.toList ∧ last <:+ path.toList := by
    rw [StandsAtEnds, splitOn_eq hsplit, List.headD_cons, ← List.cons_append, List.getLastD_eq_getLast?,
      List.getLast?_concat, Option.getD_some, String.toList_ofList, String.toList_ofList]
  rw [globLikeMatch_of_star hstar hall, matches_iff_ends hsplit, package_of_star hstar hall, hends, hsplit]
  constructor
  · rintro ⟨hfirst, hordered, hlast⟩
    exact ⟨(Glob.ordered_cons_iff hfirst).mpr hordered, hfirst, hlast⟩
  · rintro ⟨hordered, hfirst, hlast⟩
    exact ⟨hfirst, (Glob.ordered_cons_iff hfirst).mp hordered, hlast⟩

theorem package_of_no_star (hstar : '*' ∉ (normalizePath pattern).toList) :
    Package.globLikeMatch path pattern = globLikeMatch path pattern := by
  simp only [Package.globLikeMatch, globLikeMatch, if_pos hstar]

theorem package_of_all (hall : normalizePath pattern = "**/*") :
    Package.globLikeMatch path pattern = globLikeMatch path pattern := by
  rw [Package.globLikeMatch, globLikeMatch, if_pos (Or.inr hall), if_pos (Or.inr hall)]

end

/-- **the filters of source sets** accept what the pattern matches, and besides everything for `**/*` and, for a pattern
without a star, every path that contains it.  The filters of packages give the same answer for a pattern without a star
and for a path that begins and ends as the pattern does; they accept every path that those of source sets accept -/
theorem glob_filters (path pattern : String) :
    (globLikeMatch path pattern ↔ normalizePath pattern = "**/*" ∨
      ('*' ∉ (normalizePath pattern).toList ∧ contains path (normalizePath pattern)) ∨
      Glob.Matches '*' (normalizePath pattern).toList path.toList) ∧
    ('*' ∉ (normalizePath pattern).toList ∨ StandsAtEnds path (normalizePath pattern) →
      Package.globLikeMatch path pattern = globLikeMatch path pattern) ∧
    (globLikeMatch path pattern → Package.globLikeMatch path pattern) := by
  by_cases hall : normalizePath pattern = "**/*"
  · have hdata : globLikeMatch path pattern = true := by rw [globLikeMatch, if_pos (Or.inr hall)]
    exact ⟨iff_of_true hdata (Or.inl hall), fun _ => package_of_all hall, fun h => (package_of_all hall).trans h⟩
  by_cases hstar : '*' ∈ (normalizePath pattern).toList
  · refine ⟨?_, ?_, fun h => ((globLikeMatch_of_package hstar hall).mp h).1⟩
    · rw [globLikeMatch_of_star hstar hall]
      refine ⟨fun h => Or.inr (Or.inr h), ?_⟩
      rintro (h | ⟨h, -⟩ | h)
      · exact absurd h hall
      · exact absurd hstar h
      · exact h
    · rintro (h | hends)
      · exact absurd hstar h
      · exact Bool.eq_iff_iff.mpr (((globLikeMatch_of_package hstar hall).trans (and_iff_left hends)).symm)
  · refine ⟨?_, fun _ => package_of_no_star hstar, fun h => (package_of_no_star hstar).trans h⟩
    rw [globLikeMatch_of_no_star hstar]
    refine ⟨fun h => Or.inr (Or.inl ⟨hstar, h⟩), ?_⟩
    rintro (h | ⟨-, h⟩ | h)
    · exact absurd h hall
    · exact h
    · rw [Glob.matches_of_no_star hstar] at h
      exact decide_eq_true (h ▸ List.infix_rfl)

/-- a pattern without a star accepts more than it matches, and the filters of packages do not see where a path ends -/
theorem filters_disagree :
    (¬ ∀ path pattern : String, globLikeMatch path pattern ↔ Glob.Matches '*' pattern.toList path.toList) ∧
    ¬ ∀ path pattern : String, Package.globLikeMatch path pattern = globLikeMatch path pattern := by
  refine ⟨fun h => ?_, fun h => ?_⟩
  · exact absurd ((h "docs/a.txt" "docs").mp (by decide +kernel)) (by decide +kernel)
  · exact absurd (h "a.md.bak" "*.md") (by decide +kernel)

end Data

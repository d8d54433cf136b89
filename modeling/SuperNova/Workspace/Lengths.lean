import Mathlib.Algebra.GroupWithZero.Nat
import SuperNova.Workspace.Raw
import SuperNova.Workspace.Resolved

/-!
# Segments of a path text and their lengths

The segments of a text are what stands between its separators; its components are the
segments that do not stay.

A normal form leaves names out, so it is no longer than the text.

* `resolveWorkspacePath_ok_iff`: which paths the guard accepts;
* `placeAt_normal`: where proper names lead;
* `splitOn_normalizePath_join`: the segments when every `\` is made a `/`;
* `separated_of_components`: a text has no `\` when its components have none;
* `normalForm_sublist`: the names of a normal form stand in the names in their order;
* `weight`: the length of names with the separators behind them;
* `join_of_weight`: a text whose normal form weighs as much is its normal form.
-/

set_option linter.unusedSectionVars false

namespace Workspace

open Text Os

section
variable {name value original t : String} {names : List String} {root p : Path}

theorem components_eq (s : String) : components s = (splitOn '/' s).filter fun segment => !stays segment := by
  rw [components]
  refine List.filter_congr fun segment _ => ?_
  by_cases hempty : segment = ""
  · simp [stays, hempty]
  · by_cases hdot : segment = "."
    · simp [stays, hdot]
    · simp [stays, hempty, hdot]

theorem resolveWorkspacePath_ok_iff : resolveWorkspacePath root t = .ok p ↔
    isAbsolute t = false ∧ Balanced (components t) ∧ p = root ++ normalForm (components t) := by
  have hloop := pushComponents_eq root [] (components t)
  rw [List.append_nil] at hloop
  rw [resolveWorkspacePath_ok, hloop]
  refine and_congr_right fun _ => ?_
  constructor
  · intro h
    split at h
    · next hbalanced => exact ⟨hbalanced, (Except.ok.inj h).symm⟩
    · cases h
  · rintro ⟨hbalanced, rfl⟩
    exact if_pos hbalanced

theorem stays_normalName (h : NormalName name) : stays name = false ∧ name ≠ ".." := by
  refine ⟨?_, h.ne_dots⟩
  rw [stays, beq_false_of_ne h.nonempty, beq_false_of_ne h.ne_dot]
  rfl

theorem placeAt_normal (place : Path) (hnames : ∀ name ∈ names, NormalName name) :
    placeAt place names = place ++ names :=
  placeAt_names fun name hname => stays_normalName (hnames name hname)

theorem isAbsolute_of_not_mem (h : '/' ∉ value.toList) : isAbsolute value = false := by
  rw [isAbsolute, beq_eq_false_iff_ne]
  intro hhead
  exact h (List.mem_of_mem_head? hhead)

theorem splitOn_of_not_mem (h : '/' ∉ value.toList) : splitOn '/' value = [value] := by
  rw [splitOn, List.splitOn_eq_singleton h, List.map_singleton, String.ofList_toList]

theorem separated_of_components (h : ∀ c ∈ components name, Separated c) : Separated name := by
  intro hmem
  rw [← join_splitOn name] at hmem
  rcases mem_of_mem_join hmem with hslash | ⟨piece, hpiece, hbackslash⟩
  · exact absurd hslash (by decide)
  · refine h piece ?_ hbackslash
    rw [components_eq, List.mem_filter]
    refine ⟨hpiece, ?_⟩
    have hempty : piece ≠ "" := by
      rintro rfl
      exact List.not_mem_nil hbackslash
    have hdot : piece ≠ "." := by
      rintro rfl
      exact absurd hbackslash (by decide)
    simp [stays, hempty, hdot]

theorem separated_of_mem_components (h : Separated name) {c : String} (hc : c ∈ components name) :
    Separated c := by
  intro hmem
  have hname := mem_join_of_mem (List.mem_of_mem_filter hc) hmem
  rw [join_splitOn] at hname
  exact h hname

theorem normalizePath_append (s t : String) : normalizePath (s ++ t) = normalizePath s ++ normalizePath t := by
  apply String.toList_injective
  simp only [normalizePath, replaceChar, toList_mapChars, String.toList_append, List.map_append]

theorem splitOn_normalizePath_join (hne : names ≠ []) : splitOn '/' (normalizePath (join "/" names)) =
    names.flatMap fun name => splitOn '/' (normalizePath name) := by
  induction names with
  | nil => exact absurd rfl hne
  | cons first rest ih =>
    cases rest with
    | nil => exact (List.append_nil _).symm
    | cons second rest =>
      have hslash : normalizePath "/" = String.ofList ['/'] := by decide
      rw [join_cons_cons, normalizePath_append, normalizePath_append, hslash, splitOn_append, ih (List.cons_ne_nil _ _),
        List.flatMap_cons (x := first)]

end

end Workspace

namespace Workspace

open Text Os

section
variable {path names more : List String} {s c : String} {d : Char}

theorem stepInto_sublist (path : Path) (name : String) : (stepInto path name).Sublist (path ++ [name]) := by
  unfold stepInto
  split
  · exact (List.dropLast_sublist path).trans (List.sublist_append_left path [name])
  · exact List.Sublist.refl _

theorem foldl_stepInto_sublist (path : Path) (names : List String) :
    (names.foldl stepInto path).Sublist (path ++ names) := by
  induction names generalizing path with
  | nil =>
    rw [List.append_nil]
    exact List.Sublist.refl path
  | cons name rest ih =>
    have hstep := (stepInto_sublist path name).append (List.Sublist.refl rest)
    rw [List.append_assoc, List.singleton_append] at hstep
    exact (ih (stepInto path name)).trans hstep

theorem normalForm_sublist (names : List String) : (normalForm names).Sublist names := foldl_stepInto_sublist [] names

theorem mem_drop_foldl_stepInto (k : Nat) (h : c ∈ (names.foldl stepInto path).drop k) :
    c ∈ path.drop k ∨ c ∈ names := by
  induction names generalizing path with
  | nil => exact Or.inl h
  | cons name rest ih =>
    rw [List.foldl_cons] at h
    rcases ih h with hpath | hrest
    · unfold stepInto at hpath
      split at hpath
      · exact Or.inl (((List.dropLast_prefix path).drop k).subset hpath)
      · rw [List.drop_append] at hpath
        rcases List.mem_append.mp hpath with hpath | hname
        · exact Or.inl hpath
        · exact Or.inr (List.mem_singleton.mp (List.mem_of_mem_drop hname) ▸ List.mem_cons_self)
    · exact Or.inr (List.mem_cons_of_mem name hrest)

theorem mem_of_mem_drop_foldl (h : c ∈ (names.foldl stepInto path).drop path.length) : c ∈ names := by
  rcases mem_drop_foldl_stepInto path.length h with hpath | hnames
  · rw [List.drop_length] at hpath
    exact absurd hpath List.not_mem_nil
  · exact hnames

theorem components_sublist (s : String) : (components s).Sublist (splitOn '/' s) := List.filter_sublist

theorem mem_of_mem_components (hc : c ∈ components s) (hd : d ∈ c.toList) : d ∈ s.toList := by
  have hjoin := mem_join_of_mem ((components_sublist s).subset hc) hd
  rwa [join_splitOn] at hjoin

/-! ## weights -/

/-- the length of the names, each with a separator -/
def weight (names : List String) : Nat := (names.map fun name => name.toList.length + 1).sum

theorem weight_append (names more : List String) : weight (names ++ more) = weight names + weight more := by
  rw [weight, List.map_append, List.sum_append, weight, weight]

theorem weight_cons (name : String) (names : List String) :
    weight (name :: names) = name.toList.length + 1 + weight names := List.sum_cons

theorem length_join (names : List String) : (join "/" names).toList.length = weight names - 1 := by
  induction names with
  | nil => rfl
  | cons first rest ih =>
    rw [weight_cons]
    cases rest with
    | nil => rfl
    | cons second rest =>
      have hslash : ("/" : String).toList.length = 1 := rfl
      rw [join_cons_cons, String.toList_append, String.toList_append, List.length_append, List.length_append, ih,
        hslash]
      have hweight := weight_cons second rest
      omega

theorem weight_splitOn (s : String) : weight (splitOn '/' s) = s.toList.length + 1 := by
  have hlength := length_join (splitOn '/' s)
  rw [join_splitOn] at hlength
  obtain ⟨first, rest, hsplit⟩ : ∃ first rest, splitOn '/' s = first :: rest := by
    refine List.exists_cons_of_ne_nil fun hnil => ?_
    exact List.splitOnP_ne_nil _ s.toList (List.map_eq_nil_iff.mp hnil)
  rw [hsplit, weight_cons] at hlength ⊢
  omega

theorem weight_sublist (h : names.Sublist more) :
    weight names ≤ weight more ∧ (weight names = weight more → names = more) := by
  induction h with
  | slnil => exact ⟨Nat.le_refl _, fun _ => rfl⟩
  | cons name _ ih =>
    rw [weight_cons]
    refine ⟨by omega, fun heq => ?_⟩
    have := ih.1
    omega
  | cons_cons name _ ih =>
    rw [weight_cons, weight_cons]
    refine ⟨by omega, fun heq => ?_⟩
    rw [ih.2 (by omega)]

theorem normalForm_components_sublist (s : String) : (normalForm (components s)).Sublist (splitOn '/' s) :=
  (normalForm_sublist _).trans (components_sublist s)

theorem weight_normalForm_le (s : String) : weight (normalForm (components s)) ≤ s.toList.length + 1 := by
  rw [← weight_splitOn]
  exact (weight_sublist (normalForm_components_sublist s)).1

/-- **a text whose normal form weighs as much is its normal form** -/
theorem join_of_weight (h : weight (normalForm (components s)) = s.toList.length + 1) :
    join "/" (normalForm (components s)) = s := by
  rw [← weight_splitOn] at h
  rw [(weight_sublist (normalForm_components_sublist s)).2 h, join_splitOn]

theorem weight_normalForm_absolute (h : isAbsolute s = true) :
    weight (normalForm (components s)) ≤ s.toList.length := by
  have hhead : s.toList.head? = some '/' := by
    rw [isAbsolute] at h
    exact beq_iff_eq.mp h
  obtain ⟨rest, hrest⟩ : ∃ rest, s.toList = '/' :: rest := by
    cases hchars : s.toList with
    | nil => simp [hchars] at hhead
    | cons c rest =>
      rw [hchars, List.head?_cons, Option.some.injEq] at hhead
      exact ⟨rest, by rw [hhead]⟩
  have hs : s = "" ++ "/" ++ String.ofList rest := by
    apply String.toList_injective
    simp [hrest]
  have hcomponents : components s = components (String.ofList rest) := by
    have hempty : components "" = [] := by decide
    rw [hs, components_append, hempty, List.nil_append]
  rw [hcomponents, hrest, List.length_cons]
  have hle := weight_normalForm_le (String.ofList rest)
  rwa [String.toList_ofList] at hle

end

end Workspace

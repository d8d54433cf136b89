import SuperNova.Lib.FileTree
import SuperNova.Lib.Text

/-!
# The workspace guard

`resolveWorkspacePath` turns a relative path given by a capability's caller into a path of the
disk, or refuses it.  A resolved path never leaves the workspace (`resolveWorkspacePath_below`).
-/

namespace Workspace

open Paths Text

/-- a path of the disk: its names from the top -/
abbrev Path := List String

/-- `Path::components` of a relative path: no empty names and no `.` -/
def components (relativePath : String) : List String :=
  (splitOn '/' relativePath).filter fun c => c ≠ "" && c ≠ "."

def isAbsolute (path : String) : Bool := path.toList.head? == some '/'

/-- one component of the loop of `resolve_workspace_path` -/
def pushComponent (root resolved : Path) (component : String) : Except String Path :=
  if component = ".." then
    if resolved = root ∨ resolved = [] then
      .error "path traversal leaves workspace boundary"
    else if ¬ root <+: resolved.dropLast then
      .error "path traversal leaves workspace boundary"
    else .ok resolved.dropLast
  else .ok (resolved ++ [component])

/-- the loop of `resolve_workspace_path` -/
def pushComponents (root : Path) : Path → List String → Except String Path
  | resolved, [] => .ok resolved
  | resolved, c :: rest =>
    match pushComponent root resolved c with
    | .ok resolved' => pushComponents root resolved' rest
    | .error e => .error e

/-- `WorkspaceGuard::resolve_workspace_path` -/
def resolveWorkspacePath (root : Path) (relativePath : String) : Except String Path :=
  if isAbsolute relativePath then
    .error "absolute paths are not workspace-scoped capability inputs"
  else
    match pushComponents root root (components relativePath) with
    | .ok resolved =>
      if ¬ root <+: resolved then .error "resolved path leaves workspace boundary" else .ok resolved
    | .error e => .error e

/-- `\` to `/`, as receipts and records store a path -/
def normalizePath (relativePath : String) : String := replaceChar '\\' '/' relativePath

/-- `/` is the only separator of the path -/
def Separated (relativePath : String) : Prop := '\\' ∉ relativePath.toList

instance (relativePath : String) : Decidable (Separated relativePath) :=
  inferInstanceAs (Decidable (¬ _))

theorem normalizePath_of_separated {p : String} (h : Separated p) : normalizePath p = p := by
  apply mapChars_of_fixed
  intro c hc
  have hne : c ≠ '\\' := by
    rintro rfl
    exact h hc
  exact if_neg hne

/-! ## components -/

theorem components_append (s t : String) :
    components (s ++ "/" ++ t) = components s ++ components t := by
  rw [components, show ("/" : String) = String.ofList ['/'] from rfl, splitOn_append,
    List.filter_append, components, components]

theorem components_trimEndMatches (s : String) :
    components (trimEndMatches '/' s) = components s := by
  have key : ∀ l : List Char, components (String.ofList (l.rdropWhile (· == '/'))) =
      components (String.ofList l) := by
    intro l
    induction l using List.reverseRecOn with
    | nil => rfl
    | append_singleton l c ih =>
      by_cases hc : c = '/'
      · have hempty : components "" = [] := by decide
        have happend := components_append (String.ofList l) ""
        rw [hempty, List.append_nil, String.append_empty] at happend
        rw [List.rdropWhile_concat_pos _ _ _ (by rw [hc]; rfl), ih, hc, String.ofList_append]
        exact happend.symm
      · rw [List.rdropWhile_concat_neg _ _ _ (by simpa using hc)]
  have h := key s.toList
  rwa [String.ofList_toList] at h

section
variable {root resolved p : Path} {s : String}

theorem pushComponents_append (names more : List String) : ∀ resolved : Path,
    pushComponents root resolved (names ++ more) = .ok p ↔
      ∃ q, pushComponents root resolved names = .ok q ∧ pushComponents root q more = .ok p := by
  induction names with
  | nil =>
    intro resolved
    constructor
    · exact fun h => ⟨resolved, rfl, h⟩
    · rintro ⟨q, hq, h⟩
      cases hq
      exact h
  | cons name rest ih =>
    intro resolved
    rw [List.cons_append, pushComponents, pushComponents]
    cases pushComponent root resolved name with
    | ok q => exact ih q
    | error e =>
      constructor
      · exact fun h => nomatch h
      · rintro ⟨_, h, _⟩
        cases h

theorem pushComponents_below (names : List String) : ∀ resolved : Path, root <+: resolved →
    pushComponents root resolved names = .ok p → root <+: p := by
  induction names with
  | nil =>
    intro resolved hroot h
    cases h
    exact hroot
  | cons name rest ih =>
    intro resolved hroot h
    rw [pushComponents, pushComponent] at h
    by_cases hname : name = ".."
    · rw [if_pos hname] at h
      by_cases htop : resolved = root ∨ resolved = []
      · rw [if_pos htop] at h
        cases h
      · rw [if_neg htop] at h
        by_cases hleaves : ¬ root <+: resolved.dropLast
        · rw [if_pos hleaves] at h
          cases h
        · rw [if_neg hleaves] at h
          exact ih _ (not_not.mp hleaves) h
    · rw [if_neg hname] at h
      exact ih _ (hroot.trans (List.prefix_append ..)) h

theorem resolveWorkspacePath_ok : resolveWorkspacePath root s = .ok p ↔
    isAbsolute s = false ∧ pushComponents root root (components s) = .ok p := by
  unfold resolveWorkspacePath
  cases isAbsolute s with
  | true => simp
  | false =>
    rw [if_neg Bool.false_ne_true]
    cases hpush : pushComponents root root (components s) with
    | error e => simp
    | ok q =>
      have hbelow := pushComponents_below _ root List.prefix_rfl hpush
      simp [hbelow]

theorem resolveWorkspacePath_below (h : resolveWorkspacePath root s = .ok p) : root <+: p :=
  pushComponents_below _ root List.prefix_rfl (resolveWorkspacePath_ok.mp h).2

end

end Workspace

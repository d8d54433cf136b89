import SuperNova.Office.Batch

/-!
# The list of the documents

The paths of the documents are written to the list, line by line; what the worker reads are lines that it makes paths
in full of, and the kernel takes these back below the workspace.

* `components_fullPath`, `relativePath_fullPath`: what the worker makes of a path, and the kernel of that;
* `length_cameBack`: a path does not come back longer, and when it comes back as long, it has come back as it is;
* `told_of_reported`: when the entries are those of the paths, every path came back as it is;
* `reported_of_told`: and the converse.
-/

set_option linter.unusedSectionVars false

namespace Office

open Paths Io FileTree Workspace Os Text

section
variable {platform : Platform} {directory root names : Path} {path s : String} {l paths : List String}

/-! ## paths in full -/

theorem isAbsolute_pathString (names : Path) : isAbsolute (pathString names) = true := by
  have hchars : (pathString names).toList = '/' :: (join "/" names).toList := by
    rw [pathString, String.toList_append]
    rfl
  rw [isAbsolute, hchars]
  rfl

theorem components_pathString (hnames : ∀ name ∈ names, NormalName name) : components (pathString names) = names := by
  have hempty : components "" = [] := by decide
  have happend := components_append "" (join "/" names)
  rw [hempty, List.nil_append, components_join hnames] at happend
  exact happend

theorem normalName_fullNames (hdirectory : ∀ name ∈ directory, NormalName name) {name : String}
    (h : name ∈ fullNames directory path) : NormalName name := by
  unfold fullNames at h
  split at h
  · exact normalName_of_mem_normalForm h
  · rcases mem_foldl_stepInto h with hmem | ⟨hmem, hne⟩
    · exact hdirectory name hmem
    · obtain ⟨hempty, hdot, hslash⟩ := mem_components hmem
      exact ⟨hempty, hdot, hne, hslash⟩

theorem components_fullPath (hdirectory : ∀ name ∈ directory, NormalName name) (path : String) :
    components (fullPath directory path) = fullNames directory path := by
  have hnames := components_pathString fun _ hname => @normalName_fullNames directory path hdirectory _ hname
  rw [fullPath]
  split
  · have hempty : components "" = [] := by decide
    have happend := components_append (pathString (fullNames directory path)) ""
    rw [hempty, List.append_nil, String.append_empty] at happend
    rw [happend, hnames]
  · rw [String.append_empty, hnames]

theorem isAbsolute_append (s : String) (h : isAbsolute path = true) : isAbsolute (path ++ s) = true := by
  rw [isAbsolute, beq_iff_eq] at h ⊢
  rw [String.toList_append, List.head?_append, h]
  rfl

theorem isAbsolute_fullPath (directory : Path) (path : String) : isAbsolute (fullPath directory path) = true :=
  isAbsolute_append _ (isAbsolute_pathString _)

theorem relativePath_fullPath (hroot : ∀ name ∈ root, NormalName name) (path : String) :
    relativePath root (fullPath root path) = if root <+: fullNames root path
      then normalizePath (join "/" ((fullNames root path).drop root.length))
      else normalizePath (fullPath root path) := by
  rw [relativePath, isAbsolute_fullPath, components_fullPath hroot]
  simp only [true_and]

theorem isAbsolute_normalizePath (h : isAbsolute path = true) : isAbsolute (normalizePath path) = true := by
  rw [isAbsolute, beq_iff_eq] at h ⊢
  rw [normalizePath, replaceChar, toList_mapChars, List.head?_map, h]
  rfl

theorem separated_normalizePath (path : String) : Separated (normalizePath path) := by
  intro hmem
  rw [normalizePath, replaceChar, toList_mapChars] at hmem
  obtain ⟨c, -, hc⟩ := List.mem_map.mp hmem
  split at hc
  · exact absurd hc (by decide)
  · exact absurd hc ‹_›

theorem prefix_of_relative (hroot : ∀ name ∈ root, NormalName name)
    (h : isAbsolute (relativePath root (fullPath root path)) = false) : root <+: fullNames root path := by
  by_contra hnot
  rw [relativePath_fullPath hroot, if_neg hnot, isAbsolute_normalizePath (isAbsolute_fullPath root path)] at h
  cases h

theorem oneLine_relativePath (hroot : ∀ name ∈ root, NormalName name) (hline : OneLine path)
    (h : isAbsolute (relativePath root (fullPath root path)) = false) :
    OneLine (relativePath root (fullPath root path)) := by
  have hbelow := prefix_of_relative hroot h
  have hnames : ∀ name ∈ (fullNames root path).drop root.length, name ∈ components path := by
    intro name hname
    unfold fullNames at hname
    split at hname
    · exact (normalForm_sublist _).subset (List.mem_of_mem_drop hname)
    · exact mem_of_mem_drop_foldl hname
  have hchars : ∀ d ∈ (join "/" ((fullNames root path).drop root.length)).toList, d = '/' ∨ d ∈ path.toList := by
    intro d hd
    rcases mem_of_mem_join hd with hslash | ⟨name, hname, hmem⟩
    · exact Or.inl hslash
    · exact Or.inr (mem_of_mem_components (hnames name hname) hmem)
  rw [relativePath_fullPath hroot, if_pos hbelow]
  have hkept {d : Char} (hd : d ∈ (normalizePath (join "/" ((fullNames root path).drop root.length))).toList) :
      d = '/' ∨ d ∈ path.toList := by
    rw [normalizePath, replaceChar, toList_mapChars] at hd
    obtain ⟨e, he, hde⟩ := List.mem_map.mp hd
    split at hde
    · exact Or.inl hde.symm
    · exact hde ▸ hchars e he
  constructor
  · intro hmem
    exact (hkept hmem).elim (fun hslash => absurd hslash (by decide)) hline.1
  · intro hmem
    exact (hkept hmem).elim (fun hslash => absurd hslash (by decide)) hline.2

/-! ## what is opened -/

def opens (platform : Platform) (path : String) : Bool :=
  match platform.openDocx path with
  | .ok _ => true
  | .error _ => false

def rejects (platform : Platform) (path : String) : Bool := !opens platform path

theorem opens_iff : opens platform path = true ↔ ∃ extraction, platform.openDocx path = .ok extraction := by
  rw [opens]
  cases platform.openDocx path <;> simp

/-- the paths of the entries that the lines of the list get -/
def reportedOf (platform : Platform) (root : Path) (l : List String) : List String :=
  (l.filter (opens platform)).map (fun path => relativePath root (fullPath root path)) ++
    (l.filter (rejects platform)).map (fullPath root)

theorem reportedOf_opened (h : ∀ path ∈ l, opens platform path = true) :
    reportedOf platform root l = l.map fun path => relativePath root (fullPath root path) := by
  have hopens : l.filter (opens platform) = l := List.filter_eq_self.mpr h
  have hrejects : l.filter (rejects platform) = [] := by
    refine List.filter_eq_nil_iff.mpr fun path hpath => ?_
    rw [rejects, h path hpath]
    exact Bool.false_ne_true
  rw [reportedOf, hopens, hrejects, List.map_nil, List.append_nil]

/-! ## lines -/

theorem length_pathString (names : Path) : (pathString names).toList.length = 1 + (weight names - 1) := by
  rw [pathString, String.toList_append, List.length_append, length_join]
  rfl

theorem isAbsolute_listLine (root : Path) (path : String) : isAbsolute (listLine root path) = true :=
  isAbsolute_pathString _

theorem head?_listLine (root : Path) (path : String) : (listLine root path).toList.head? = some '/' := by
  have h := isAbsolute_listLine root path
  rwa [isAbsolute, beq_iff_eq] at h

theorem trim_isAbsolute (h : isAbsolute s = true) : isAbsolute (trim s) = true := by
  rw [isAbsolute, beq_iff_eq] at h ⊢
  exact head?_trim h (by decide)

/-- what comes back of a path -/
def cameBack (root : Path) (path : String) : String :=
  relativePath root (fullPath root (trim (listLine root path)))

theorem fullNames_absolute (h : isAbsolute path = true) : fullNames root path = normalForm (components path) := by
  rw [fullNames, if_pos h]

theorem normalName_root_append (hroot : ∀ name ∈ root, NormalName name) (path : String) :
    ∀ name ∈ root ++ normalForm (components path), NormalName name := by
  intro name hname
  rcases List.mem_append.mp hname with hname | hname
  · exact hroot name hname
  · exact normalName_of_mem_normalForm hname

theorem cameBack_of_trimmed (hroot : ∀ name ∈ root, NormalName name)
    (htrim : trim (listLine root path) = listLine root path) :
    cameBack root path = normalizePath (join "/" (normalForm (components path))) := by
  have hnames := normalName_root_append hroot path
  have hfull : fullNames root (listLine root path) = root ++ normalForm (components path) := by
    rw [fullNames_absolute (isAbsolute_listLine root path), listLine, components_pathString hnames]
    exact foldl_stepInto_names fun name hname => (hnames name hname).ne_dots
  rw [cameBack, htrim, relativePath_fullPath hroot, hfull, if_pos (List.prefix_append _ _), List.drop_left]

/-- **a path does not come back longer**; when it comes back as long, its line was trimmed and it was normal -/
theorem length_cameBack (hroot : ∀ name ∈ root, NormalName name)
    (hrelative : isAbsolute (cameBack root path) = false) :
    (cameBack root path).toList.length ≤ path.toList.length ∧
      ((cameBack root path).toList.length = path.toList.length →
        trim (listLine root path) = listLine root path ∧ join "/" (normalForm (components path)) = path) := by
  have habsolute := trim_isAbsolute (isAbsolute_listLine root path)
  have hbelow := prefix_of_relative hroot hrelative
  have hback : (cameBack root path).toList.length =
      weight ((fullNames root (trim (listLine root path))).drop root.length) - 1 := by
    rw [cameBack, relativePath_fullPath hroot, if_pos hbelow, normalizePath, replaceChar, toList_mapChars,
      List.length_map, length_join]
  obtain ⟨below, hnames⟩ := hbelow
  -- the names in full weigh no more than the trimmed line, and that is no longer than the line
  have hweight := weight_normalForm_absolute habsolute
  rw [← @fullNames_absolute root _ habsolute, ← hnames, weight_append] at hweight
  rw [← hnames, List.drop_left] at hback
  have htrimmed := (toList_trim_sublist (listLine root path)).length_le
  have hlength := length_pathString (root ++ normalForm (components path))
  rw [weight_append, ← listLine] at hlength
  have hnormal := weight_normalForm_le path
  have hnonempty : 0 < (trim (listLine root path)).toList.length := by
    refine List.length_pos_iff.mpr fun hnil => ?_
    rw [isAbsolute, hnil] at habsolute
    cases habsolute
  have hempty (h : path.toList.length = 0) : path = "" := String.toList_injective (List.length_eq_zero_iff.mp h)
  have hnothing (h : path.toList.length = 0) : weight (normalForm (components path)) = 0 := by
    rw [hempty h]
    decide
  refine ⟨by omega, fun heq => ⟨?_, ?_⟩⟩
  · apply String.toList_injective
    refine (toList_trim_sublist (listLine root path)).eq_of_length ?_
    by_cases hzero : path.toList.length = 0
    · have := hnothing hzero
      omega
    · omega
  · by_cases hzero : path.toList.length = 0
    · rw [hempty hzero]
      decide
    · exact join_of_weight (by omega)

/-! ## what the entries tell -/

section
variable {key : String → String} (hroot : ∀ name ∈ root, NormalName name)
  (hrelative : ∀ path ∈ paths, isAbsolute path = false)
include hroot hrelative

theorem opens_of_reported (hreported : (reportedOf platform root l).Perm paths) :
    ∀ path ∈ l, opens platform path = true := by
  intro path hpath
  by_contra hclosed
  have hrejects : rejects platform path = true := by
    rw [rejects, Bool.eq_false_of_not_eq_true hclosed]
    rfl
  have hentry : fullPath root path ∈ reportedOf platform root l :=
    List.mem_append_right _ (List.mem_map_of_mem (List.mem_filter.mpr ⟨hpath, hrejects⟩))
  have habsolute := hrelative _ (hreported.subset hentry)
  rw [isAbsolute_fullPath] at habsolute
  cases habsolute

theorem perm_of_reported (hreported : (reportedOf platform root l).Perm paths) :
    (l.map fun path => relativePath root (fullPath root path)).Perm paths := by
  rwa [reportedOf_opened (opens_of_reported hroot hrelative hreported)] at hreported

theorem oneLine_of_reported (hlines : ∀ line ∈ l, OneLine line) (hreported : (reportedOf platform root l).Perm paths) :
    ∀ path ∈ paths, OneLine path ∧ Separated path := by
  intro path hpath
  have hperm := perm_of_reported hroot hrelative hreported
  obtain ⟨line, hline, rfl⟩ := List.mem_map.mp (hperm.symm.subset hpath)
  refine ⟨oneLine_relativePath hroot (hlines line hline) (hrelative _ hpath), ?_⟩
  unfold relativePath
  split <;> exact separated_normalizePath _

theorem oneLine_root (hne : paths ≠ []) (hl : readList key (join "\n" (paths.map (listLine root))) = l)
    (hreported : (reportedOf platform root l).Perm paths) : ∀ name ∈ root, OneLine name := by
  obtain ⟨path, rest, rfl⟩ := List.exists_cons_of_ne_nil hne
  have hfirst : listLine root path ≠ "" := by
    intro hempty
    have hhead := head?_listLine root path
    rw [hempty] at hhead
    cases hhead
  have hhead : (join "\n" ((path :: rest).map (listLine root))).toList.head? = some '/' := by
    rw [List.map_cons, head?_join hfirst]
    exact head?_listLine root path
  obtain ⟨line, hline, hslash⟩ := @head?_readList (join "\n" ((path :: rest).map (listLine root))) key '/' hhead
    (by decide) (by decide)
  have hone := (mem_readList hline).1
  rw [hl] at hline
  have habsolute : isAbsolute line = true := by rw [isAbsolute, hslash]; rfl
  have hperm := perm_of_reported hroot hrelative hreported
  have hmem := hperm.subset (List.mem_map_of_mem hline)
  have hbelow := prefix_of_relative hroot (hrelative _ hmem)
  rw [fullNames_absolute habsolute] at hbelow
  intro name hname
  have hcomponent := (normalForm_sublist _).subset (hbelow.subset hname)
  have hkept {d : Char} (hd : d ∈ name.toList) : d ∈ line.toList := mem_of_mem_components hcomponent hd
  exact ⟨fun hc => hone.1 (hkept hc), fun hc => hone.2 (hkept hc)⟩

end

theorem oneLine_listLine (hroot : ∀ name ∈ root, OneLine name) (hpath : OneLine path) :
    OneLine (listLine root path) := by
  have hchars {d : Char} (hd : d ∈ (listLine root path).toList) :
      d = '/' ∨ (∃ name ∈ root, d ∈ name.toList) ∨ d ∈ path.toList := by
    rw [listLine, pathString, String.toList_append] at hd
    rcases List.mem_append.mp hd with hslash | hjoin
    · exact Or.inl (List.mem_singleton.mp hslash)
    rcases mem_of_mem_join hjoin with hslash | ⟨name, hname, hmem⟩
    · exact Or.inl hslash
    rcases List.mem_append.mp hname with hname | hname
    · exact Or.inr (Or.inl ⟨name, hname, hmem⟩)
    · exact Or.inr (Or.inr (mem_of_mem_components ((normalForm_sublist _).subset hname) hmem))
  constructor
  · intro hmem
    rcases hchars hmem with hslash | ⟨name, hname, hc⟩ | hc
    · exact absurd hslash (by decide)
    · exact (hroot name hname).1 hc
    · exact hpath.1 hc
  · intro hmem
    rcases hchars hmem with hslash | ⟨name, hname, hc⟩ | hc
    · exact absurd hslash (by decide)
    · exact (hroot name hname).2 hc
    · exact hpath.2 hc

theorem fitsLine_listLine (h : OneLine (listLine root path)) : FitsLine (listLine root path) where
  oneLine := h
  nonempty := by
    intro hempty
    have hhead := head?_listLine root path
    rw [hempty] at hhead
    cases hhead
  unmarked := by
    rw [head?_listLine]
    decide

/-- **entries that are those of the paths** tell that every path came back as it is -/
theorem told_of_reported {key : String → String} (hroot : ∀ name ∈ root, NormalName name)
    (hrelative : ∀ path ∈ paths, isAbsolute path = false)
    (hl : readList key (join "\n" (paths.map (listLine root))) = l) (htotal : l.length = paths.length)
    (hreported : (reportedOf platform root l).Perm paths) :
    l = paths.map (listLine root) ∧ (∀ path ∈ paths, Told platform root path) ∧
      paths.Pairwise fun a b => key (listLine root a) ≠ key (listLine root b) := by
  have hopens := opens_of_reported hroot hrelative hreported
  have hperm := perm_of_reported hroot hrelative hreported
  have hlines : ∀ line ∈ l, OneLine line := fun line hline => (mem_readList (hl ▸ hline)).1
  have hpaths := oneLine_of_reported hroot hrelative hlines hreported
  have hone : ∀ path ∈ paths, OneLine (listLine root path) := fun path hpath =>
    oneLine_listLine (oneLine_root hroot hrelative (List.ne_nil_of_mem hpath) hl hreported) (hpaths path hpath).1
  -- the list is read as it was written, but for white space at the ends
  have hfits : ∀ line ∈ paths.map (listLine root), FitsLine line := by
    intro line hline
    obtain ⟨path, hpath, rfl⟩ := List.mem_map.mp hline
    exact fitsLine_listLine (hone path hpath)
  obtain ⟨hread, hdistinct⟩ := @readList_of_length (paths.map (listLine root)) key hfits
    (by rw [hl, htotal, List.length_map])
  rw [hl] at hread
  -- what comes back is no longer, so it is as long, and there was nothing at the ends
  have hcompose : (l.map fun path => relativePath root (fullPath root path)) = paths.map (cameBack root) := by
    rw [hread, List.map_map, List.map_map]
    refine List.map_congr_left fun path _ => ?_
    rw [Function.comp_apply, Function.comp_apply, cameBack]
  have hback : (paths.map (cameBack root)).Perm (paths.map id) := by
    rw [List.map_id, ← hcompose]
    exact hperm
  have hcame : ∀ path ∈ paths, isAbsolute (cameBack root path) = false := by
    intro path hpath
    have hmem := hback.subset (List.mem_map_of_mem hpath)
    rw [List.map_id] at hmem
    exact hrelative _ hmem
  have hsame := measure_eq_of_perm (fun s : String => s.toList.length) hback fun path hpath =>
    (length_cameBack hroot (hcame path hpath)).1
  have hkept : ∀ path ∈ paths, trim (listLine root path) = listLine root path ∧
      join "/" (normalForm (components path)) = path := fun path hpath =>
    (length_cameBack hroot (hcame path hpath)).2 (hsame path hpath)
  have htrim : (paths.map (listLine root)).map trim = paths.map (listLine root) := by
    rw [List.map_map]
    exact List.map_congr_left fun path hpath => (hkept path hpath).1
  rw [htrim] at hread hdistinct
  rw [List.pairwise_map] at hdistinct
  refine ⟨hread, fun path hpath => ?_, hdistinct⟩
  exact {
    normal := (hkept path hpath).2
    separated := (hpaths path hpath).2
    oneLine := hone path hpath
    trimmed := (hkept path hpath).1
    opened := opens_iff.mp (hopens _ (hread ▸ List.mem_map_of_mem hpath)) }

/-- **paths that come back as they are** are those of the entries -/
theorem reported_of_told {key : String → String} (hroot : ∀ name ∈ root, NormalName name)
    (htold : ∀ path ∈ paths, Told platform root path)
    (hdistinct : paths.Pairwise fun a b => key (listLine root a) ≠ key (listLine root b)) :
    readList key (join "\n" (paths.map (listLine root))) = paths.map (listLine root) ∧
      reportedOf platform root (paths.map (listLine root)) = paths := by
  constructor
  · refine readList_join ?_ ?_ (List.pairwise_map.mpr hdistinct)
    · intro line hline
      obtain ⟨path, hpath, rfl⟩ := List.mem_map.mp hline
      exact fitsLine_listLine (htold path hpath).oneLine
    · intro line hline
      obtain ⟨path, hpath, rfl⟩ := List.mem_map.mp hline
      exact (htold path hpath).trimmed
  · have hopens : ∀ line ∈ paths.map (listLine root), opens platform line = true := by
      intro line hline
      obtain ⟨path, hpath, rfl⟩ := List.mem_map.mp hline
      exact opens_iff.mpr (htold path hpath).opened
    have hback : ∀ path ∈ paths, relativePath root (fullPath root (listLine root path)) = path := by
      intro path hpath
      have hcame := cameBack_of_trimmed hroot (htold path hpath).trimmed
      rw [cameBack, (htold path hpath).trimmed, (htold path hpath).normal,
        normalizePath_of_separated (htold path hpath).separated] at hcame
      exact hcame
    rw [reportedOf_opened hopens, List.map_map]
    exact (List.map_congr_left hback).trans (List.map_id' paths)

end

end Office

import SuperNova.Data.Names

/-!
# Destinations of a plan

`plan_organize` makes the text of a destination from the root, a group, an extension and a name, and tries numbered
names for a text that it has used.  The guard resolves such a text later, and takes names away for `..`.

* `resolve_namedAt`: where the guard puts a destination;
* `namedAt_inj`: two destinations at one place have one text;
* `destinations_nodup_iff`: the texts differ exactly when no file finds all its names taken;
* `organized_iff` (**main**): the places differ and lie below the root exactly when in addition no group leads away.
-/

set_option linter.unusedSectionVars false

namespace Data

open Text Workspace Os

/-! ## the property -/

/-- the places of the destinations: what the guard makes of them -/
def plannedPlaces (root : Path) (files : List SourceSetFile) (destinationRoot : String) : List (Except String Path) :=
  (planOperations files destinationRoot).map fun op => resolveWorkspacePath root op.destinationPath

/-- the place is inside the workspace, strictly below a directory of it -/
def PlacedBelow (root directory : Path) (place : Except String Path) : Prop :=
  ∃ path, place = .ok path ∧ root ++ directory <+: path ∧ path ≠ root ++ directory

/-- the destinations differ, and lie below the root of the plan -/
def Organized (root : Path) (files : List SourceSetFile) (destinationRoot : String) : Prop :=
  (∀ place ∈ plannedPlaces root files destinationRoot,
      PlacedBelow root (normalForm (components (normalizeRel destinationRoot))) place) ∧
    (plannedPlaces root files destinationRoot).Nodup

/-- the root is a path of the workspace, and the group does not lead away from it: with the group `..`, the folder of the
extension leads back -/
def StaysBelow (destinationRoot : String) (file : SourceSetFile) : Prop :=
  isAbsolute (destinationRoot ++ "/") = false ∧ Balanced (components destinationRoot) ∧
    (organizeGroupForPath file.path = ".." → extensionFolder file ≠ "" ∧
      (normalForm (components destinationRoot)).getLast? = some (extensionFolder file))

/-- the text that `disambiguate_destination` tries for a number -/
def numberedDestination (destination : String) (index : Nat) : String :=
  parentText destination ++ "/" ++ (fileStem destination).getD "file" ++ "_" ++ toString index ++
    (if (fileExtension destination).getD "" = "" then "" else "." ++ (fileExtension destination).getD "")

/-- a destination and all its numbered texts are taken -/
def Crowded (used : List String) (destination : String) : Prop :=
  destination ∈ used ∧ ∀ index, 2 ≤ index → index < 10000 → numberedDestination destination index ∈ used

/-- what the loop of `plan_organize` takes -/
def chosen (used : List String) (destination : String) : String :=
  if destination ∈ used then disambiguateDestination destination used else destination

/-- no file comes when its destination is crowded -/
def Roomy (destinationRoot : String) : List String → List SourceSetFile → Prop
  | _, [] => True
  | used, file :: rest => ¬ Crowded used (organizeDestination destinationRoot file) ∧
      Roomy destinationRoot (chosen used (organizeDestination destinationRoot file) :: used) rest

/-! ## texts that are tried -/

section
variable {used : List String} {destination : String}

theorem disambiguateFrom_succ (destination : String) (used : List String) (fuel index : Nat) :
    disambiguateFrom destination used (fuel + 1) index = if numberedDestination destination index ∈ used
      then disambiguateFrom destination used fuel (index + 1) else numberedDestination destination index := rfl

theorem disambiguateFrom_spec (destination : String) (used : List String) (fuel index : Nat) :
    (∃ number, disambiguateFrom destination used fuel index = numberedDestination destination number ∧
        (index ≤ number ∧ number < index + fuel) ∧ numberedDestination destination number ∉ used) ∨
      disambiguateFrom destination used fuel index = destination ∧
        ∀ number, index ≤ number → number < index + fuel → numberedDestination destination number ∈ used := by
  induction fuel generalizing index with
  | zero => exact Or.inr ⟨rfl, fun number hlow hhigh => absurd hhigh (by omega)⟩
  | succ fuel ih =>
    rw [disambiguateFrom_succ]
    by_cases htaken : numberedDestination destination index ∈ used
    · rw [if_pos htaken]
      rcases ih (index + 1) with ⟨number, hnumber, hrange, hfree⟩ | ⟨hsame, hall⟩
      · exact Or.inl ⟨number, hnumber, by omega, hfree⟩
      · refine Or.inr ⟨hsame, fun number hlow hhigh => ?_⟩
        by_cases hfirst : number = index
        · rwa [hfirst]
        · exact hall number (by omega) (by omega)
    · rw [if_neg htaken]
      exact Or.inl ⟨index, rfl, by omega, htaken⟩

theorem chosen_eq (used : List String) (destination : String) : chosen used destination = destination ∨
    ∃ index, chosen used destination = numberedDestination destination index := by
  unfold chosen
  split
  · rcases disambiguateFrom_spec destination used 9998 2 with ⟨number, hnumber, -, -⟩ | ⟨hsame, -⟩
    · exact Or.inr ⟨number, hnumber⟩
    · exact Or.inl hsame
  · exact Or.inl rfl

theorem chosen_mem_iff : chosen used destination ∈ used ↔ Crowded used destination := by
  unfold chosen Crowded
  split
  · next hmem =>
    rw [and_iff_right hmem]
    rcases disambiguateFrom_spec destination used 9998 2 with ⟨number, hnumber, hrange, hfree⟩ | ⟨hsame, hall⟩
    · rw [disambiguateDestination, hnumber]
      exact iff_of_false hfree fun h => hfree (h number (by omega) (by omega))
    · rw [disambiguateDestination, hsame]
      exact iff_of_true hmem fun index hlow hhigh => hall index hlow (by omega)
  · next hnot => exact iff_of_false hnot fun h => hnot h.1

end

/-! ## the loop -/

section
variable {root directory : Path} {destinationRoot : String} {used : List String} {files : List SourceSetFile}

/-- the destinations that the loop plans -/
def destinations (destinationRoot : String) (used : List String) (files : List SourceSetFile) : List String :=
  (planLoop destinationRoot used files).map (·.destinationPath)

theorem destinations_cons (file : SourceSetFile) : destinations destinationRoot used (file :: files) =
    chosen used (organizeDestination destinationRoot file) ::
      destinations destinationRoot (chosen used (organizeDestination destinationRoot file) :: used) files := rfl

/-- **the texts of the destinations differ exactly when no file finds all its names taken** -/
theorem destinations_nodup_iff : ((destinations destinationRoot used files).Nodup ∧
    ∀ t ∈ destinations destinationRoot used files, t ∉ used) ↔ Roomy destinationRoot used files := by
  induction files generalizing used with
  | nil => exact iff_of_true ⟨List.nodup_nil, fun t ht => absurd ht List.not_mem_nil⟩ trivial
  | cons file rest ih =>
    rw [Roomy, ← ih, ← chosen_mem_iff, destinations_cons, List.nodup_cons, List.forall_mem_cons]
    generalize chosen used (organizeDestination destinationRoot file) = t
    constructor
    · rintro ⟨⟨hnot, hnodup⟩, hfree, hrest⟩
      refine ⟨hfree, hnodup, fun t' ht' => ?_⟩
      rw [List.mem_cons, not_or]
      exact ⟨ne_of_mem_of_not_mem ht' hnot, hrest t' ht'⟩
    · rintro ⟨hfree, hnodup, hrest⟩
      exact ⟨⟨fun ht => hrest t ht List.mem_cons_self, hnodup⟩, hfree,
        fun t' ht' hused => hrest t' ht' (List.mem_cons_of_mem t hused)⟩

theorem exists_of_mem_destinations {t : String} (h : t ∈ destinations destinationRoot used files) :
    ∃ file ∈ files, ∃ used', t = chosen used' (organizeDestination destinationRoot file) := by
  induction files generalizing used with
  | nil => exact absurd h List.not_mem_nil
  | cons file rest ih =>
    rw [destinations_cons] at h
    rcases List.mem_cons.mp h with rfl | h
    · exact ⟨file, List.mem_cons_self, used, rfl⟩
    · obtain ⟨file', hfile', used', ht⟩ := ih h
      exact ⟨file', List.mem_cons_of_mem file hfile', used', ht⟩

theorem exists_chosen_mem {file : SourceSetFile} (h : file ∈ files) :
    ∃ used', chosen used' (organizeDestination destinationRoot file) ∈ destinations destinationRoot used files := by
  induction files generalizing used with
  | nil => exact absurd h List.not_mem_nil
  | cons first rest ih =>
    rw [destinations_cons]
    rcases List.mem_cons.mp h with rfl | h
    · exact ⟨used, List.mem_cons_self⟩
    · obtain ⟨used', ht⟩ := ih h
      exact ⟨used', List.mem_cons_of_mem _ ht⟩

theorem numberedDestination_injective (destination : String) :
    Function.Injective (numberedDestination destination) := by
  intro i j h
  unfold numberedDestination at h
  exact toString_inj ((String.append_right_inj _).mp ((String.append_left_inj _).mp h))

theorem Crowded.length_le {destination : String} (h : Crowded used destination) : 9998 ≤ used.length := by
  have hnodup : ((List.range' 2 9998).map (numberedDestination destination)).Nodup :=
    (List.nodup_range' (s := 2)).map (numberedDestination_injective destination)
  have hsubset : (List.range' 2 9998).map (numberedDestination destination) ⊆ used := by
    intro t ht
    obtain ⟨index, hindex, rfl⟩ := List.mem_map.mp ht
    rw [List.mem_range'_1] at hindex
    exact h.2 index hindex.1 (by omega)
  have hlength := (List.subperm_of_subset hnodup hsubset).length_le
  rwa [List.length_map, List.length_range'] at hlength

theorem roomy_of_length (h : used.length + files.length ≤ 9998) : Roomy destinationRoot used files := by
  induction files generalizing used with
  | nil => trivial
  | cons file rest ih =>
    rw [List.length_cons] at h
    refine ⟨fun hcrowded => ?_, ih ?_⟩
    · have hlength := hcrowded.length_le
      omega
    · rw [List.length_cons]
      omega

end

/-! ## texts and places -/

section
variable {root N : Path} {F R group extension name t : String} {p : Path}

/-- the text of the directory of a name: `Path::parent` -/
def parentOf (F : String) : String := String.ofList (trimRight ('/' :: F.toList.reverse)).reverse

theorem parentText_eq (hname : '/' ∉ name.toList) : parentText (F ++ "/" ++ name) = parentOf F := by
  have hchars : (F ++ "/" ++ name).toList.reverse = name.toList.reverse ++ '/' :: F.toList.reverse := by
    simp only [String.toList_append, List.reverse_append]
    rfl
  have hkeep : ∀ c ∈ name.toList.reverse, decide (c ≠ '/') = true := fun c hc =>
    decide_eq_true (ne_of_mem_of_not_mem (List.mem_reverse.mp hc) hname)
  rw [parentText, hchars, List.dropWhile_append_of_pos hkeep, List.dropWhile_cons_of_neg (by decide), parentOf]

theorem getLast?_trimRight (l : List Char) : (trimRight l).getLast? = l.getLast? := by
  fun_induction trimRight l with
  | case1 => rfl
  | case2 rest hne ih =>
    rw [ih, List.getLast?_cons, List.getLast?_eq_some_getLast hne]
    rfl
  | case3 rest ih => exact ih
  | case4 l h1 h2 h3 => rfl

theorem components_trimRight (l : List Char) :
    components (String.ofList (trimRight l).reverse) = components (String.ofList l.reverse) := by
  have hslash (rest : List Char) (name : String) : components (String.ofList rest ++ "/" ++ name) =
      components (String.ofList rest) ++ components name := components_append _ _
  fun_induction trimRight l with
  | case1 => rfl
  | case2 rest hne ih =>
    have happend := hslash rest.reverse ""
    rw [String.append_empty, show components "" = [] by decide, List.append_nil] at happend
    rw [ih, List.reverse_cons, String.ofList_append, ← happend]
  | case3 rest ih =>
    have happend := hslash rest.reverse ""
    rw [String.append_empty] at happend
    have hdot := hslash rest.reverse "."
    rw [show components "." = components "" by decide, ← happend] at hdot
    rw [ih, List.reverse_cons, List.reverse_cons, List.reverse_cons, String.ofList_append, String.ofList_append,
      String.ofList_append]
    exact hdot.symm
  | case4 l h1 h2 h3 => rfl

theorem components_parentOf (F : String) : components (parentOf F) = components F := by
  have hempty := components_append F ""
  rw [String.append_empty, show components "" = [] by decide, List.append_nil] at hempty
  rw [parentOf, components_trimRight, List.reverse_cons, List.reverse_reverse, String.ofList_append,
    String.ofList_toList]
  exact hempty

theorem head?_parentOf (F : String) : (parentOf F).toList.head? = (F ++ "/").toList.head? := by
  have hchars : (F ++ "/").toList = ('/' :: F.toList.reverse).reverse := by
    rw [String.toList_append, List.reverse_cons, List.reverse_reverse]
    rfl
  rw [parentOf, String.toList_ofList, List.head?_reverse, getLast?_trimRight, hchars, List.head?_reverse]

theorem isAbsolute_parentOf (F name : String) : isAbsolute (parentOf F ++ "/" ++ name) = isAbsolute (F ++ "/") := by
  have hhead := head?_parentOf F
  have hsome : (F ++ "/").toList ≠ [] := by
    rw [String.toList_append]
    exact List.append_ne_nil_of_right_ne_nil _ (List.cons_ne_nil _ _)
  rw [List.head?_eq_some_head hsome] at hhead
  rw [isAbsolute, isAbsolute, String.append_assoc, String.toList_append, List.head?_append, hhead, Option.some_or,
    List.head?_eq_some_head hsome]

theorem parentOf_eq (hne : extension ≠ "") (hdot : '.' ∉ extension.toList) (hslash : '/' ∉ extension.toList) :
    parentOf (F ++ "/" ++ extension) = F ++ "/" ++ extension := by
  obtain ⟨front, d, hd⟩ : ∃ front d, extension.toList = front ++ [d] := by
    rcases List.eq_nil_or_concat extension.toList with hnil | ⟨front, d, hd⟩
    · exact absurd (String.toList_injective hnil) hne
    · exact ⟨front, d, hd.trans List.concat_eq_append⟩
  have hmem : d ∈ extension.toList := hd ▸ List.mem_append_right _ (List.mem_singleton_self d)
  obtain ⟨before, hbefore⟩ : ∃ before, (F ++ "/" ++ extension).toList.reverse = d :: before := by
    rw [String.toList_append, hd, ← List.append_assoc, List.reverse_append]
    exact ⟨_, rfl⟩
  apply String.toList_injective
  rw [parentOf, String.toList_ofList, hbefore]
  have hstop : trimRight ('/' :: d :: before) = d :: before := by
    rw [trimRight.eq_2 _ (List.cons_ne_nil _ _)]
    unfold trimRight
    split
    · next h => exact absurd ((List.cons.inj h).1 ▸ hmem) hslash
    · next h => exact absurd ((List.cons.inj h).1 ▸ hmem) hslash
    · next h => exact absurd ((List.cons.inj h).1 ▸ hmem) hdot
    · rfl
  rw [hstop, ← hbefore, List.reverse_reverse]

/-! ## where the guard puts a text -/

theorem components_of_no_slash (h : '/' ∉ name.toList) :
    components name = if name = "" ∨ name = "." then [] else [name] := by
  have hsplit : splitOn '/' name = [name] := by
    rw [splitOn, List.splitOn_eq_singleton h, List.map_singleton, String.ofList_toList]
  rw [components, hsplit]
  by_cases hname : name = "" ∨ name = "."
  · rw [if_pos hname, List.filter_cons_of_neg (by rcases hname with rfl | rfl <;> decide), List.filter_nil]
  · rw [not_or] at hname
    rw [if_neg (not_or.mpr hname), List.filter_cons_of_pos (by simp [hname.1, hname.2]), List.filter_nil]

theorem components_name (h : NormalName name) : components name = [name] := by
  rw [components_of_no_slash h.noSlash, if_neg (not_or.mpr ⟨h.nonempty, h.ne_dot⟩)]

/-- where a group and an extension lead from a directory -/
def walkFolders (N : Path) (group extension : String) : Path :=
  (components group ++ components extension).foldl stepInto N

theorem normalForm_append (names more : List String) :
    normalForm (names ++ more) = more.foldl stepInto (normalForm names) := by
  rw [normalForm, normalForm, List.foldl_append]

theorem walkFolders_eq (hgroup : '/' ∉ group.toList) (hnonempty : group ≠ "") (hextension : '/' ∉ extension.toList)
    (hdot : '.' ∉ extension.toList) (N : Path) : walkFolders N group extension =
      (if group = "." then N else if group = ".." then N.dropLast else N ++ [group]) ++
        (if extension = "" then [] else [extension]) := by
  have hne : extension ≠ "." ∧ extension ≠ ".." := by
    constructor <;> (rintro rfl; exact hdot (by decide))
  have hstep (path : Path) (name : String) (hname : name ≠ "..") : stepInto path name = path ++ [name] := if_neg hname
  have hlast (path : Path) : (components extension).foldl stepInto path =
      path ++ (if extension = "" then [] else [extension]) := by
    rw [components_of_no_slash hextension]
    by_cases hempty : extension = ""
    · rw [if_pos (Or.inl hempty), if_pos hempty, List.append_nil]
      rfl
    · rw [if_neg (not_or.mpr ⟨hempty, hne.1⟩), if_neg hempty, List.foldl_cons, List.foldl_nil, hstep _ _ hne.2]
  rw [walkFolders, List.foldl_append, hlast, components_of_no_slash hgroup]
  congr 1
  by_cases hone : group = "."
  · rw [if_pos (Or.inr hone), if_pos hone]
    rfl
  · rw [if_neg (not_or.mpr ⟨hnonempty, hone⟩), if_neg hone, List.foldl_cons, List.foldl_nil, stepInto]

theorem balancedFrom_walk (hgroup : '/' ∉ group.toList) (hextension : '/' ∉ extension.toList)
    (hdot : '.' ∉ extension.toList) (hname : name ≠ "..") : BalancedFrom N.length
      (components group ++ components extension ++ [name]) ↔ (group = ".." → N ≠ []) := by
  have hrest : ∀ c ∈ components extension ++ [name], c ≠ ".." := by
    intro c hc
    rcases List.mem_append.mp hc with hc | hc
    · rw [components_of_no_slash hextension] at hc
      split at hc
      · exact absurd hc List.not_mem_nil
      · obtain rfl := List.mem_singleton.mp hc
        rintro rfl
        exact hdot (by decide)
    · obtain rfl := List.mem_singleton.mp hc
      exact hname
  rw [List.append_assoc, components_of_no_slash hgroup]
  by_cases hup : group = ".."
  · rw [hup, if_neg (by decide), List.singleton_append]
    cases N with
    | nil => exact iff_of_false not_balancedFrom_up fun h => h rfl rfl
    | cons first more =>
      exact iff_of_true (balancedFrom_up.mpr (balancedFrom_names hrest)) fun _ => List.cons_ne_nil _ _
  · refine iff_of_true (balancedFrom_names fun c hc => ?_) fun h => absurd h hup
    rcases List.mem_append.mp hc with hc | hc
    · split at hc
      · exact absurd hc List.not_mem_nil
      · exact List.mem_singleton.mp hc ▸ hup
    · exact hrest c hc

end

/-! ## the places of a file -/

/-- the text before the name of a destination -/
def folderText (R : String) (file : SourceSetFile) : String :=
  R ++ "/" ++ organizeGroupForPath file.path ++ "/" ++ extensionFolder file

/-- the texts that the loop may choose for a file, each with the name at its end -/
def NamedAt (R : String) (file : SourceSetFile) (t name : String) : Prop :=
  t = folderText R file ++ "/" ++ name ∧ name = nameOf file ∨
    ∃ index, t = parentOf (folderText R file) ++ "/" ++ name ∧ name = numberedName (nameOf file) index

/-- the directory of a file, below the root of the workspace -/
def folderOf (R : String) (file : SourceSetFile) : Path :=
  walkFolders (normalForm (components R)) (organizeGroupForPath file.path) (extensionFolder file)

section
variable {root : Path} {R t name : String} {file : SourceSetFile} {p : Path}

theorem organizeDestination_eq (R : String) (file : SourceSetFile) :
    organizeDestination R file = folderText R file ++ "/" ++ nameOf file := rfl

theorem numberedDestination_eq {F : String} (h : NormalName name) (index : Nat) :
    numberedDestination (F ++ "/" ++ name) index = parentOf F ++ "/" ++ numberedName name index := by
  have hname : fileName (F ++ "/" ++ name) = some name := by
    rw [fileName, components_append, components_name h, List.getLast?_concat]
    exact Option.filter_some_pos (decide_eq_true h.ne_dots)
  have hstem : (fileStem (F ++ "/" ++ name)).getD "file" = stemOf name := by
    rw [fileStem, hname]
    rfl
  have hextension : (fileExtension (F ++ "/" ++ name)).getD "" = extensionOf name := by
    rw [fileExtension, hname]
    rfl
  rw [numberedDestination, hstem, hextension, parentText_eq h.noSlash, numberedName]
  simp only [String.append_assoc]

theorem exists_namedAt (h : Collected file) (used : List String) :
    ∃ name, NamedAt R file (chosen used (organizeDestination R file)) name := by
  rcases chosen_eq used (organizeDestination R file) with hsame | ⟨index, hindex⟩
  · exact ⟨_, Or.inl ⟨hsame, rfl⟩⟩
  · rw [organizeDestination_eq, numberedDestination_eq h.parts.1] at hindex
    exact ⟨_, Or.inr ⟨index, hindex, rfl⟩⟩

theorem NamedAt.namedAs (h : NamedAt R file t name) : NamedAs (nameOf file) name := by
  rcases h with ⟨-, hname⟩ | ⟨index, -, hname⟩
  · exact Or.inl hname
  · exact Or.inr ⟨index, hname⟩

theorem slash_not_mem_numberedName (h : '/' ∉ name.toList) (index : Nat) : '/' ∉ (numberedName name index).toList := by
  have hstem : '/' ∉ (stemOf name).toList := fun hmem => by
    obtain ⟨back, hback⟩ := exists_eq_stemOf name
    rw [hback, String.toList_append] at h
    exact h (List.mem_append_left _ hmem)
  have hextension : '/' ∉ (extensionOf name).toList := by
    unfold extensionOf
    cases hsplit : splitLastDot name with
    | none => decide
    | some parts =>
      obtain ⟨stem, x⟩ := parts
      rw [(eq_of_splitLastDot hsplit).1, String.toList_append] at h
      exact fun hmem => h (List.mem_append_right _ hmem)
  have hdigits : '/' ∉ (toString index).toList := fun hmem => absurd (isDigit_of_mem_toString hmem) (by decide)
  rw [toList_toString] at hdigits
  unfold numberedName
  split <;> simp [hstem, hextension, hdigits]

theorem normalName_numberedName (h : NormalName name) (index : Nat) : NormalName (numberedName name index) := by
  have hmark : '_' ∈ (numberedName name index).toList := by
    simp [numberedName]
  refine ⟨?_, ?_, ?_, slash_not_mem_numberedName h.noSlash index⟩
  · intro hempty
    rw [hempty] at hmark
    exact absurd hmark (by decide)
  · intro hdot
    rw [hdot] at hmark
    exact absurd hmark (by decide)
  · intro hdots
    rw [hdots] at hmark
    exact absurd hmark (by decide)

theorem NamedAt.normal (h : NamedAt R file t name) (hfile : Collected file) : NormalName name := by
  rcases h with ⟨-, rfl⟩ | ⟨index, -, rfl⟩
  · exact hfile.parts.1
  · exact normalName_numberedName hfile.parts.1 index

theorem slash_not_mem_group (path : String) : '/' ∉ (organizeGroupForPath path).toList := by
  rw [toList_organizeGroupForPath]
  exact slash_not_mem_groupName _

theorem group_ne_empty (path : String) : organizeGroupForPath path ≠ "" := by
  intro hempty
  have hchars := toList_organizeGroupForPath path
  obtain ⟨d, more, -, -, hgroup⟩ := exists_groupName ((fileStem (normalizePath path)).getD "misc").toList
  rw [hempty, hgroup] at hchars
  cases hchars

theorem NamedAt.components (h : NamedAt R file t name) (hfile : Collected file) : Workspace.components t =
    Workspace.components R ++ (Workspace.components (organizeGroupForPath file.path) ++
      Workspace.components (extensionFolder file) ++ [name]) := by
  have hfolder : Workspace.components (folderText R file) = Workspace.components R ++
      (Workspace.components (organizeGroupForPath file.path) ++ Workspace.components (extensionFolder file)) := by
    rw [folderText, components_append, components_append, List.append_assoc]
  have hname := components_name (h.normal hfile)
  rcases h with ⟨rfl, -⟩ | ⟨index, rfl, -⟩
  · rw [components_append, hfolder, hname, List.append_assoc]
  · rw [components_append, components_parentOf, hfolder, hname, List.append_assoc]

theorem isAbsolute_append_slash (s t : String) : isAbsolute (s ++ "/" ++ t) = isAbsolute (s ++ "/") := by
  rw [isAbsolute, isAbsolute, String.toList_append, List.head?_append]
  cases h : (s ++ "/").toList with
  | nil =>
    rw [String.toList_append] at h
    exact absurd (List.append_eq_nil_iff.mp h).2 (by decide)
  | cons c rest => rfl

theorem NamedAt.isAbsolute (h : NamedAt R file t name) : Workspace.isAbsolute t = Workspace.isAbsolute (R ++ "/") := by
  have hfolder : Workspace.isAbsolute (folderText R file ++ "/") = Workspace.isAbsolute (R ++ "/") := by
    have htext : folderText R file ++ "/" =
        R ++ "/" ++ (organizeGroupForPath file.path ++ "/" ++ extensionFolder file ++ "/") := by
      simp only [folderText, String.append_assoc]
    rw [htext, isAbsolute_append_slash]
  rcases h with ⟨rfl, -⟩ | ⟨index, rfl, -⟩
  · rw [isAbsolute_append_slash, hfolder]
  · rw [isAbsolute_parentOf, hfolder]

/-- **where the guard puts a destination** -/
theorem resolve_namedAt (h : NamedAt R file t name) (hfile : Collected file) :
    resolveWorkspacePath root t = .ok p ↔ Workspace.isAbsolute (R ++ "/") = false ∧
      Balanced (Workspace.components R) ∧ (organizeGroupForPath file.path = ".." →
        normalForm (Workspace.components R) ≠ []) ∧ p = root ++ (folderOf R file ++ [name]) := by
  obtain ⟨hdot, hslash, -⟩ := hfile.extensionFolder
  have hnormal := h.normal hfile
  have hbalanced (more : List String) : BalancedFrom 0 (Workspace.components R ++ more) ↔
      BalancedFrom 0 (Workspace.components R) ∧ BalancedFrom (normalForm (Workspace.components R)).length more :=
    @balancedFrom_append (Workspace.components R) [] more
  have hform : normalForm (Workspace.components t) = folderOf R file ++ [name] := by
    rw [h.components hfile, normalForm_append, List.foldl_append]
    exact if_neg hnormal.ne_dots
  rw [resolveWorkspacePath_ok_iff, h.isAbsolute, hform, Workspace.Balanced, h.components hfile, hbalanced]
  refine and_congr_right fun _ => ?_
  rw [and_assoc]
  refine and_congr_right fun _ => ?_
  exact and_congr_left fun _ => balancedFrom_walk (slash_not_mem_group _) hslash hdot hnormal.ne_dots

theorem folderOf_eq (hfile : Collected file) : folderOf R file =
    (if organizeGroupForPath file.path = "." then normalForm (Workspace.components R)
      else if organizeGroupForPath file.path = ".." then (normalForm (Workspace.components R)).dropLast
      else normalForm (Workspace.components R) ++ [organizeGroupForPath file.path]) ++
        (if extensionFolder file = "" then [] else [extensionFolder file]) :=
  walkFolders_eq (slash_not_mem_group file.path) (group_ne_empty file.path) hfile.extensionFolder.2.1
    hfile.extensionFolder.1 _

theorem prefix_folderOf_iff (hfile : Collected file)
    (hup : organizeGroupForPath file.path = ".." → normalForm (Workspace.components R) ≠ []) :
    normalForm (Workspace.components R) <+: folderOf R file ↔ (organizeGroupForPath file.path = ".." →
      extensionFolder file ≠ "" ∧ (normalForm (Workspace.components R)).getLast? = some (extensionFolder file)) := by
  rw [folderOf_eq hfile]
  generalize normalForm (Workspace.components R) = N at hup ⊢
  by_cases hgroup : organizeGroupForPath file.path = ".."
  · obtain ⟨front, last, rfl⟩ : ∃ front last, N = front ++ [last] := by
      rcases List.eq_nil_or_concat N with rfl | ⟨front, last, rfl⟩
      · exact absurd rfl (hup hgroup)
      · exact ⟨front, last, List.concat_eq_append⟩
    rw [hgroup, if_neg (by decide), if_pos rfl, List.dropLast_concat, List.prefix_append_right_inj]
    by_cases hempty : extensionFolder file = ""
    · rw [if_pos hempty, List.prefix_nil]
      exact iff_of_false (List.cons_ne_nil _ _) fun h => (h rfl).1 hempty
    · rw [if_neg hempty, List.getLast?_concat, List.cons_prefix_cons]
      constructor
      · rintro ⟨rfl, -⟩ -
        exact ⟨hempty, rfl⟩
      · intro h
        exact ⟨Option.some.inj (h rfl).2, List.nil_prefix⟩
  · rw [if_neg hgroup]
    refine iff_of_true ?_ fun h => absurd h hgroup
    split
    · exact List.prefix_append _ _
    · exact (List.prefix_append _ _).trans (List.prefix_append _ _)

theorem placedBelow_iff (h : NamedAt R file t name) (hfile : Collected file) :
    PlacedBelow root (normalForm (Workspace.components R)) (resolveWorkspacePath root t) ↔ StaysBelow R file := by
  have hbelow (N : Path) : root ++ N <+: root ++ (folderOf R file ++ [name]) ∧
      root ++ (folderOf R file ++ [name]) ≠ root ++ N ↔ N <+: folderOf R file := by
    rw [List.prefix_append_right_inj, Ne, List.append_cancel_left_eq, List.prefix_concat_iff]
    constructor
    · rintro ⟨hwhole | hprefix, hne⟩
      · exact absurd hwhole.symm hne
      · exact hprefix
    · intro hprefix
      refine ⟨Or.inr hprefix, fun hwhole => ?_⟩
      have hlength := hprefix.length_le
      rw [← hwhole, List.length_append, List.length_singleton] at hlength
      omega
  constructor
  · rintro ⟨path, hpath, hplaced⟩
    obtain ⟨hrelative, hbalanced, hup, rfl⟩ := (resolve_namedAt h hfile).mp hpath
    exact ⟨hrelative, hbalanced, (prefix_folderOf_iff hfile hup).mp ((hbelow _).mp hplaced)⟩
  · rintro ⟨hrelative, hbalanced, hstays⟩
    have hup : organizeGroupForPath file.path = ".." → normalForm (Workspace.components R) ≠ [] := by
      intro hgroup hnil
      have hlast := (hstays hgroup).2
      rw [hnil] at hlast
      cases hlast
    exact ⟨_, (resolve_namedAt h hfile).mpr ⟨hrelative, hbalanced, hup, rfl⟩,
      (hbelow _).mpr ((prefix_folderOf_iff hfile hup).mpr hstays)⟩

/-! ## one place, one text -/

/-- the names behind the root: a group that leads up and back adds nothing -/
def tailOf (file : SourceSetFile) : List String :=
  if organizeGroupForPath file.path = ".." then []
  else (if organizeGroupForPath file.path = "." then [] else [organizeGroupForPath file.path]) ++
    (if extensionFolder file = "" then [] else [extensionFolder file])

theorem StaysBelow.folderOf (h : StaysBelow R file) (hfile : Collected file) :
    Data.folderOf R file = normalForm (Workspace.components R) ++ tailOf file := by
  rw [folderOf_eq hfile, tailOf]
  by_cases hgroup : organizeGroupForPath file.path = ".."
  · obtain ⟨hne, hlast⟩ := h.2.2 hgroup
    obtain ⟨front, hfront⟩ := List.getLast?_eq_some_iff.mp hlast
    rw [hgroup, if_neg (by decide), if_pos rfl, if_pos rfl, if_neg hne, hfront, List.dropLast_concat, List.append_nil]
  · rw [if_neg hgroup, if_neg hgroup]
    split <;> simp

/-- two files that could meet although their groups and extensions differ: the first has an empty extension -/
def Cross (file file' : SourceSetFile) : Prop :=
  extensionFolder file = "" ∧ extensionFolder file' ≠ "" ∧
    (organizeGroupForPath file.path = "." ∧ organizeGroupForPath file'.path = ".." ∨
      '.' ∉ (organizeGroupForPath file.path).toList ∧ organizeGroupForPath file'.path = ".")

theorem Cross.ne {name' : String} {file' : SourceSetFile} (hcross : Cross file file') (hfile : Collected file)
    (hfile' : Collected file') (h : NamedAs (nameOf file) name) (h' : NamedAs (nameOf file') name') : name ≠ name' := by
  obtain ⟨hempty, hne, hgroups⟩ := hcross
  have hdot := hfile.extensionFolder.2.2.mp hempty
  have hdot' : ¬ EndsWithDot (nameOf file') := fun hends => hne (hfile'.extensionFolder.2.2.mpr hends)
  have hname := hfile.parts.1.ne_dot
  have hgroup := hfile.group
  have hgroup' := hfile'.group
  rcases hgroups with ⟨hone, htwo⟩ | ⟨hnot, hone⟩
  · rw [hone] at hgroup
    rw [htwo] at hgroup'
    exact ne_of_group_dots hdot hname hdot' h h' hgroup.symm hgroup'.symm
  · rw [hone] at hgroup'
    rw [hgroup] at hnot
    exact ne_of_group_dot hdot hname hdot' h h' hnot hgroup'.symm

theorem eq_of_optional {s s' : String} (h : (if s = "" then [] else [s]) = if s' = "" then [] else [s']) : s = s' := by
  split at h <;> split at h
  · next hs hs' => rw [hs, hs']
  · cases h
  · cases h
  · exact List.singleton_inj.mp h

theorem eq_of_optional_cons {s s' first : String} (h : (if s = "" then [] else [s]) =
    first :: if s' = "" then [] else [s']) :
    s ≠ "" ∧ s = first ∧ s' = "" := by
  split at h
  · cases h
  · next hne =>
    obtain ⟨rfl, hrest⟩ := List.cons.inj h
    refine ⟨hne, rfl, ?_⟩
    split at hrest
    · assumption
    · cases hrest

theorem folders_of_tailOf {file' : SourceSetFile} (hfile : Collected file) (hfile' : Collected file')
    (hstays : StaysBelow R file) (hstays' : StaysBelow R file') (h : tailOf file = tailOf file') :
    organizeGroupForPath file.path = organizeGroupForPath file'.path ∧ extensionFolder file = extensionFolder file' ∨
      Cross file file' ∨ Cross file' file := by
  have hdot := hfile.extensionFolder.1
  have hdot' := hfile'.extensionFolder.1
  have hnone : (if ("" : String) = "" then [] else [""]) = ([] : List String) := if_pos rfl
  unfold tailOf at h
  by_cases hup : organizeGroupForPath file.path = ".." <;> by_cases hup' : organizeGroupForPath file'.path = ".."
  · obtain ⟨-, hlast⟩ := hstays.2.2 hup
    obtain ⟨-, hlast'⟩ := hstays'.2.2 hup'
    exact Or.inl ⟨hup.trans hup'.symm, Option.some.inj (hlast.symm.trans hlast')⟩
  · rw [if_pos hup, if_neg hup'] at h
    obtain ⟨hgroup, hempty⟩ := List.append_eq_nil_iff.mp h.symm
    have hone : organizeGroupForPath file'.path = "." := by
      by_contra hne
      rw [if_neg hne] at hgroup
      cases hgroup
    exact Or.inr (Or.inr ⟨eq_of_optional (hempty.trans hnone.symm), (hstays.2.2 hup).1, Or.inl ⟨hone, hup⟩⟩)
  · rw [if_neg hup, if_pos hup'] at h
    obtain ⟨hgroup, hempty⟩ := List.append_eq_nil_iff.mp h
    have hone : organizeGroupForPath file.path = "." := by
      by_contra hne
      rw [if_neg hne] at hgroup
      cases hgroup
    exact Or.inr (Or.inl ⟨eq_of_optional (hempty.trans hnone.symm), (hstays'.2.2 hup').1, Or.inl ⟨hone, hup'⟩⟩)
  · rw [if_neg hup, if_neg hup'] at h
    by_cases hone : organizeGroupForPath file.path = "." <;> by_cases hone' : organizeGroupForPath file'.path = "."
    · rw [if_pos hone, if_pos hone', List.nil_append, List.nil_append] at h
      exact Or.inl ⟨hone.trans hone'.symm, eq_of_optional h⟩
    · rw [if_pos hone, if_neg hone', List.nil_append, List.singleton_append] at h
      obtain ⟨hne, hgroup, hempty⟩ := eq_of_optional_cons h
      exact Or.inr (Or.inr ⟨hempty, hne, Or.inr ⟨hgroup ▸ hdot, hone⟩⟩)
    · rw [if_neg hone, if_pos hone', List.nil_append, List.singleton_append] at h
      obtain ⟨hne, hgroup, hempty⟩ := eq_of_optional_cons h.symm
      exact Or.inr (Or.inl ⟨hempty, hne, Or.inr ⟨hgroup ▸ hdot', hone'⟩⟩)
    · rw [if_neg hone, if_neg hone', List.singleton_append, List.singleton_append] at h
      obtain ⟨hgroup, hrest⟩ := List.cons.inj h
      exact Or.inl ⟨hgroup, eq_of_optional hrest⟩

theorem NamedAt.text_eq {t' : String} {file' : SourceSetFile} (h : NamedAt R file t name) (h' : NamedAt R file' t' name)
    (hfile : Collected file) (hfolder : folderText R file = folderText R file')
    (hextension : extensionFolder file = extensionFolder file') (hfile' : Collected file') : t = t' := by
  obtain ⟨hdot, hslash, hends⟩ := hfile.extensionFolder
  have hends' := hfile'.extensionFolder.2.2
  have hparent (hne : extensionFolder file ≠ "") : parentOf (folderText R file) = folderText R file :=
    parentOf_eq hne hdot hslash
  rcases h with ⟨rfl, hname⟩ | ⟨index, rfl, hname⟩ <;> rcases h' with ⟨rfl, hname'⟩ | ⟨index', rfl, hname'⟩
  · rw [hfolder]
  · have hne : extensionFolder file ≠ "" := fun hempty => by
      have hdots := hends.mp hempty
      rw [← hname, hname'] at hdots
      exact not_endsWithDot_numberedName hdots
    rw [← hfolder, hparent hne]
  · have hne : extensionFolder file ≠ "" := fun hempty => by
      have hdots := hends'.mp (hextension ▸ hempty)
      rw [← hname', hname] at hdots
      exact not_endsWithDot_numberedName hdots
    rw [← hfolder, hparent hne]
  · rw [hfolder]

/-- **two destinations at one place have one text** -/
theorem namedAt_inj {t' name' : String} {file' : SourceSetFile} (h : NamedAt R file t name)
    (h' : NamedAt R file' t' name') (hfile : Collected file) (hfile' : Collected file') (hstays : StaysBelow R file)
    (hstays' : StaysBelow R file') (hplace : resolveWorkspacePath root t = resolveWorkspacePath root t') : t = t' := by
  obtain ⟨path, hpath, -⟩ := (@placedBelow_iff root _ _ _ _ h hfile).mpr hstays
  have hpath' := hplace.symm.trans hpath
  obtain ⟨-, -, -, rfl⟩ := (resolve_namedAt h hfile).mp hpath
  obtain ⟨-, -, -, hsame⟩ := (resolve_namedAt h' hfile').mp hpath'
  rw [hstays.folderOf hfile, hstays'.folderOf hfile', List.append_cancel_left_eq, List.append_assoc, List.append_assoc,
    List.append_cancel_left_eq] at hsame
  obtain ⟨htail, hname⟩ := List.append_inj' hsame rfl
  obtain rfl := List.singleton_inj.mp hname
  rcases folders_of_tailOf hfile hfile' hstays hstays' htail with ⟨hgroup, hextension⟩ | hcross | hcross
  · exact h.text_eq h' hfile (by rw [folderText, folderText, hgroup, hextension]) hextension hfile'
  · exact absurd rfl (hcross.ne hfile hfile' h.namedAs h'.namedAs)
  · exact absurd rfl (hcross.ne hfile' hfile h'.namedAs h.namedAs)

end

/-! ## plans -/

section
variable {root : Path} {files : List SourceSetFile} {destinationRoot : String}

/-- **the destinations of a plan differ and lie below its root exactly when** no group leads away and no file finds all
its names taken -/
theorem organized_iff (hfiles : ∀ file ∈ files, Collected file) : Organized root files destinationRoot ↔
    (∀ file ∈ files, StaysBelow (normalizeRel destinationRoot) file) ∧
      Roomy (normalizeRel destinationRoot) [] files := by
  have hplaces : plannedPlaces root files destinationRoot =
      (destinations (normalizeRel destinationRoot) [] files).map (resolveWorkspacePath root) := by
    rw [destinations, List.map_map]
    rfl
  have hroomy := @destinations_nodup_iff (normalizeRel destinationRoot) [] files
  rw [and_iff_left fun t _ => List.not_mem_nil] at hroomy
  have hbelow (file : SourceSetFile) (hfile : file ∈ files) (used : List String) :
      PlacedBelow root (normalForm (components (normalizeRel destinationRoot))) (resolveWorkspacePath root
        (chosen used (organizeDestination (normalizeRel destinationRoot) file))) ↔
          StaysBelow (normalizeRel destinationRoot) file := by
    obtain ⟨name, hname⟩ := exists_namedAt (hfiles file hfile) used
    exact placedBelow_iff hname (hfiles file hfile)
  rw [Organized, hplaces, ← hroomy, List.forall_mem_map]
  constructor
  · rintro ⟨hplaced, hnodup⟩
    refine ⟨fun file hfile => ?_, List.Nodup.of_map _ hnodup⟩
    obtain ⟨used, hmem⟩ := exists_chosen_mem hfile
    exact (hbelow file hfile used).mp (hplaced _ hmem)
  · rintro ⟨hstays, hnodup⟩
    constructor
    · intro t ht
      obtain ⟨file, hfile, used, rfl⟩ := exists_of_mem_destinations ht
      exact (hbelow file hfile used).mpr (hstays file hfile)
    · refine hnodup.map_on fun t ht t' ht' hplace => ?_
      obtain ⟨file, hfile, used, rfl⟩ := exists_of_mem_destinations ht
      obtain ⟨file', hfile', used', rfl⟩ := exists_of_mem_destinations ht'
      obtain ⟨name, hname⟩ := exists_namedAt (R := normalizeRel destinationRoot) (hfiles file hfile) used
      obtain ⟨name', hname'⟩ := exists_namedAt (R := normalizeRel destinationRoot) (hfiles file' hfile') used'
      exact namedAt_inj hname hname' (hfiles file hfile) (hfiles file' hfile') (hstays file hfile)
        (hstays file' hfile') hplace

theorem collected_of {names : List String} {size modified : Nat} (hne : names ≠ [])
    (hnames : ∀ c ∈ names, NormalName c) (hpath : normalizePath (join "/" names) = join "/" names) :
    Collected ⟨join "/" names, collectedExtension (join "/" names), size, modified⟩ where
  names := ⟨names, hne, hnames, rfl⟩
  scanned := ⟨join "/" names, hpath.symm, rfl⟩

theorem normalName_txt : NormalName "a.txt" ∧ NormalName "docs" ∧ NormalName "...txt" :=
  ⟨⟨by decide, by decide, by decide, by decide⟩, ⟨by decide, by decide, by decide, by decide⟩,
    ⟨by decide, by decide, by decide, by decide⟩⟩

/-- two files with one name -/
theorem organized_pair : Organized ["w"] [⟨"a.txt", ".txt", 1, 0⟩, ⟨"docs/a.txt", ".txt", 1, 0⟩] "sorted" := by
  refine (organized_iff fun file hfile => ?_).mpr ⟨?_, roomy_of_length (by decide)⟩
  · rcases List.mem_pair.mp hfile with rfl | rfl
    · exact @collected_of ["a.txt"] 1 0 (by decide) (by simp [normalName_txt]) (by decide)
    · exact @collected_of ["docs", "a.txt"] 1 0 (by decide) (by simp [normalName_txt]) (by decide)
  · intro file hfile
    rcases List.mem_pair.mp hfile with rfl | rfl
    · exact ⟨by decide, by decide, by decide⟩
    · exact ⟨by decide, by decide, by decide⟩

/-- the group of `...txt` is `..` -/
theorem leaves_sorted : (∀ file ∈ [(⟨"...txt", ".txt", 1, 0⟩ : SourceSetFile)], Collected file) ∧
    resolveWorkspacePath ["w"] "sorted" = .ok ["w", "sorted"] ∧
      plannedPlaces ["w"] [⟨"...txt", ".txt", 1, 0⟩] "sorted" = [.ok ["w", "txt", "...txt"]] ∧
        ¬ Organized ["w"] [⟨"...txt", ".txt", 1, 0⟩] "sorted" := by
  have hfiles : ∀ file ∈ [(⟨"...txt", ".txt", 1, 0⟩ : SourceSetFile)], Collected file := by
    intro file hfile
    obtain rfl := List.mem_singleton.mp hfile
    exact @collected_of ["...txt"] 1 0 (by decide) (by simp [normalName_txt]) (by decide)
  have hplaces : plannedPlaces ["w"] [⟨"...txt", ".txt", 1, 0⟩] "sorted" = [.ok ["w", "txt", "...txt"]] := by
    decide +kernel
  refine ⟨hfiles, by decide, hplaces, fun h => ?_⟩
  obtain ⟨path, hpath, hbelow, -⟩ := h.1 _ (hplaces ▸ List.mem_singleton_self _)
  obtain rfl := Except.ok.inj hpath
  exact absurd hbelow (by decide)

end

end Data

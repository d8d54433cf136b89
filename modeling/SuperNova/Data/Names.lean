import SuperNova.Data.Plans
import SuperNova.Workspace.Lengths

/-!
# Groups, extensions and numbered names

The folders of an organized file come from its name: the group is the first part of the stem that is not blank, and the
extension is what stands behind the last dot.

* `groupName`: the group of a stem, from its first characters that are not skipped (`lead`);
* `lead_of_group_dot`, `lead_of_group_dots`: stems with the groups `.` and `..`;
* `Collected`: a file as the scan of a directory records it, with the facts about its extension;
* `numberedName`: the names that are tried when a name is taken, and how they end.
-/

set_option linter.unusedSectionVars false

namespace Data

open Text Workspace Os

/-! ## the first part of a stem -/

/-- where `organize_group_for_path` splits a stem -/
def isBreak (c : Char) : Bool := c ∈ ['_', '-', ' ', '（', '(', '[']

/-- the stem without what is skipped before its first part -/
def lead (stem : List Char) : List Char := stem.dropWhile fun c => isBreak c || isWhitespace c

/-- the first part that is not blank, trimmed -/
def token (stem : List Char) : List Char :=
  if lead stem = [] then ['m', 'i', 's', 'c'] else ((lead stem).takeWhile (!isBreak ·)).rdropWhile isWhitespace

def safeChar (c : Char) : Char := if c ∈ ['/', '\\', ':', '*', '?', '"', '<', '>', '|'] then '_' else c

/-- the group of a stem -/
def groupName (stem : List Char) : List Char := ((token stem).take 24).map safeChar

section
variable {α : Type} {p w : α → Bool} {l : List α}

theorem splitOnP_eq_cons (p : α → Bool) (l : List α) : ∃ rest, l.splitOnP p = l.takeWhile (!p ·) :: rest := by
  induction l with
  | nil => exact ⟨[], rfl⟩
  | cons c l ih =>
    obtain ⟨rest, hrest⟩ := ih
    rw [List.splitOnP_cons_eq_if_modifyHead]
    cases hc : p c with
    | true =>
      rw [if_pos rfl, List.takeWhile_cons_of_neg (by rw [hc]; decide)]
      exact ⟨_, rfl⟩
    | false =>
      rw [if_neg Bool.false_ne_true, hrest, List.takeWhile_cons_of_pos (by rw [hc]; decide)]
      exact ⟨rest, rfl⟩

theorem find?_splitOnP (p w : α → Bool) (l : List α) :
    ((l.splitOnP p).find? fun piece => !piece.all w).map (·.dropWhile w) =
      if (l.dropWhile fun c => p c || w c) = [] then none
      else some ((l.dropWhile fun c => p c || w c).takeWhile (!p ·)) := by
  induction l with
  | nil => rfl
  | cons c l ih =>
    rw [List.splitOnP_cons_eq_if_modifyHead]
    cases hp : p c with
    | true =>
      rw [if_pos rfl, List.dropWhile_cons_of_pos (by rw [hp]; rfl), List.find?_cons_of_neg (by simp)]
      exact ih
    | false =>
      obtain ⟨rest, hrest⟩ := splitOnP_eq_cons p l
      rw [if_neg Bool.false_ne_true, hrest, List.modifyHead_cons]
      rw [hrest] at ih
      cases hw : w c with
      | true =>
        rw [List.dropWhile_cons_of_pos (by rw [hp, hw]; rfl), ← ih]
        cases hblank : (l.takeWhile (!p ·)).all w with
        | true => rw [List.find?_cons_of_neg (by simp [hblank, hw]), List.find?_cons_of_neg (by simp [hblank])]
        | false =>
          rw [List.find?_cons_of_pos (by simp [hblank, hw]), List.find?_cons_of_pos (by simp [hblank]),
            Option.map_some, Option.map_some, List.dropWhile_cons_of_pos hw]
      | false =>
        have hneg : ¬ w c = true := by
          rw [hw]
          exact Bool.false_ne_true
        rw [List.dropWhile_cons_of_neg (by rw [hp, hw]; decide), if_neg (List.cons_ne_nil _ _),
          List.find?_cons_of_pos (by simp [hw]), Option.map_some, List.dropWhile_cons_of_neg hneg,
          List.takeWhile_cons_of_pos (by rw [hp]; rfl)]

end

section
variable {stem rest : List Char} {c : Char} {s path : String}

theorem lead_append_of_ne_nil (h : lead stem ≠ []) (rest : List Char) : lead (stem ++ rest) = lead stem ++ rest := by
  unfold lead at *
  rw [List.dropWhile_append, if_neg (by rwa [List.isEmpty_iff])]

theorem lead_append_of_nil (h : lead stem = []) (rest : List Char) : lead (stem ++ rest) = lead rest := by
  unfold lead at *
  rw [List.dropWhile_append, if_pos (by rw [h]; rfl)]

theorem head_lead (h : lead stem = c :: rest) : isBreak c = false ∧ isWhitespace c = false := by
  have hne : lead stem ≠ [] := by
    rw [h]
    exact List.cons_ne_nil _ _
  have hhead := List.head_dropWhile_not (fun c => isBreak c || isWhitespace c) hne
  have hc : (lead stem).head hne = c := by simp only [h, List.head_cons]
  unfold lead at hc
  rw [hc] at hhead
  exact Bool.or_eq_false_iff.mp hhead

theorem toList_trim_find? (stem : List Char) :
    (trim ((((stem.splitOnP isBreak).map String.ofList).find? fun item => !blank item).getD "misc")).toList =
      token stem := by
  have hfind := find?_splitOnP isBreak isWhitespace stem
  have hblank : ((fun item => !blank item) ∘ String.ofList) = fun piece : List Char => !piece.all isWhitespace := by
    funext piece
    rw [Function.comp_apply, blank, String.toList_ofList]
  rw [List.find?_map, hblank, token, lead]
  split at hfind
  · next hnil =>
    rw [if_pos hnil, Option.map_eq_none_iff.mp hfind]
    decide
  · next hne =>
    obtain ⟨piece, hpiece, hdrop⟩ := Option.map_eq_some_iff.mp hfind
    rw [if_neg hne, hpiece, Option.map_some, Option.getD_some, toList_trim, String.toList_ofList, hdrop]

theorem token_eq_cons (h : lead stem = c :: rest) : ∃ more, token stem = c :: more := by
  obtain ⟨hbreak, hspace⟩ := head_lead h
  have htake : (lead stem).takeWhile (!isBreak ·) = [c] ++ rest.takeWhile (!isBreak ·) := by
    rw [h, List.takeWhile_cons_of_pos (by rw [hbreak]; rfl), List.singleton_append]
  rw [token, if_neg (by rw [h]; exact List.cons_ne_nil _ _), htake]
  have hbegins := List.rdropWhile_prefix isWhitespace (l := [c] ++ rest.takeWhile (!isBreak ·))
  cases hdrop : ([c] ++ rest.takeWhile (!isBreak ·)).rdropWhile isWhitespace with
  | nil =>
    have hall := List.rdropWhile_eq_nil_iff.mp hdrop c (List.mem_append_left _ (List.mem_singleton_self c))
    rw [hspace] at hall
    cases hall
  | cons d more =>
    rw [hdrop, List.singleton_append, List.cons_prefix_cons] at hbegins
    exact ⟨more, by rw [hbegins.1]⟩

theorem exists_token (stem : List Char) : ∃ d more, token stem = d :: more ∧ isWhitespace d = false := by
  cases h : lead stem with
  | nil => exact ⟨'m', ['i', 's', 'c'], by rw [token, if_pos h], by decide⟩
  | cons c rest =>
    obtain ⟨more, hmore⟩ := token_eq_cons h
    exact ⟨c, more, hmore, (head_lead h).2⟩

/-! ## groups -/

theorem isWhitespace_safeChar (h : isWhitespace c = false) : isWhitespace (safeChar c) = false := by
  unfold safeChar
  split
  · decide
  · exact h

theorem safeChar_eq_dot (h : safeChar c = '.') : c = '.' := by
  unfold safeChar at h
  split at h
  · exact absurd h (by decide)
  · exact h

theorem safeChar_ne_slash (c : Char) : safeChar c ≠ '/' := by
  unfold safeChar
  split
  · decide
  · rintro rfl
    exact absurd (show '/' ∈ ['/', '\\', ':', '*', '?', '"', '<', '>', '|'] by decide) ‹_›

theorem toList_safeComponent {value : String} (h : value.toList = c :: rest) (hspace : isWhitespace c = false) :
    (safeComponent value).toList = value.toList.map safeChar := by
  have hcleaned : (mapChars (fun c => if c ∈ ['/', '\\', ':', '*', '?', '"', '<', '>', '|'] then '_' else c)
      value).toList = value.toList.map safeChar := toList_mapChars _ _
  have hblank : blank (mapChars (fun c => if c ∈ ['/', '\\', ':', '*', '?', '"', '<', '>', '|'] then '_' else c)
      value) = false := by
    rw [blank, hcleaned, h, List.map_cons, List.all_cons, isWhitespace_safeChar hspace, Bool.false_and]
  rw [safeComponent, hblank, if_neg Bool.false_ne_true, hcleaned]

theorem toList_organizeGroupForPath (path : String) : (organizeGroupForPath path).toList =
    groupName ((fileStem (normalizePath path)).getD "misc").toList := by
  have htoken := toList_trim_find? ((fileStem (normalizePath path)).getD "misc").toList
  obtain ⟨d, more, hcons, hspace⟩ := exists_token ((fileStem (normalizePath path)).getD "misc").toList
  have hcut (item : String) (hitem : item.toList = d :: more) : (safeComponent
      (if item.toList.length > 24 then String.ofList (item.toList.take 24) else item)).toList =
        ((d :: more).take 24).map safeChar := by
    have hkept : (if item.toList.length > 24 then String.ofList (item.toList.take 24) else item).toList =
        (d :: more).take 24 := by
      rw [← hitem]
      split
      · exact String.toList_ofList
      · exact (List.take_of_length_le (by omega)).symm
    rw [toList_safeComponent hkept hspace, hkept]
  rw [groupName, hcons]
  unfold organizeGroupForPath
  exact hcut _ (htoken.trans hcons)

theorem exists_groupName (stem : List Char) : ∃ d more, token stem = d :: more ∧ isWhitespace d = false ∧
    groupName stem = safeChar d :: (more.take 23).map safeChar := by
  obtain ⟨d, more, hcons, hspace⟩ := exists_token stem
  exact ⟨d, more, hcons, hspace, by rw [groupName, hcons, List.take_succ_cons, List.map_cons]⟩

theorem slash_not_mem_groupName (stem : List Char) : '/' ∉ groupName stem := by
  intro h
  obtain ⟨c, -, hc⟩ := List.mem_map.mp h
  exact safeChar_ne_slash c hc

theorem lead_of_dot_not_mem (h : '.' ∉ groupName stem) (hlead : lead stem = c :: rest) : c ≠ '.' := by
  rintro rfl
  obtain ⟨more, hmore⟩ := token_eq_cons hlead
  have hdot : safeChar '.' = '.' := by decide
  rw [groupName, hmore, List.take_succ_cons, List.map_cons, hdot] at h
  exact h List.mem_cons_self

theorem token_of_groupName_dots {dots : List Char} (hdots : ∀ c ∈ dots, c = '.') (hlength : dots.length < 24)
    (h : groupName stem = dots) : token stem = dots := by
  have hshort : (token stem).length = dots.length := by
    have hlen := congrArg List.length h
    rw [groupName, List.length_map, List.length_take] at hlen
    omega
  rw [groupName, List.take_of_length_le (by omega)] at h
  refine List.ext_getElem hshort fun i hi hi' => ?_
  have hget : safeChar (token stem)[i] = dots[i] := by
    rw [← List.getElem_map safeChar (h := by rwa [List.length_map])]
    exact List.getElem_of_eq h _
  rw [hdots _ (List.getElem_mem hi')] at hget ⊢
  exact safeChar_eq_dot hget

theorem lead_of_token (h : token stem = c :: rest) (hc : c ≠ 'm') :
    lead stem ≠ [] ∧ ((lead stem).takeWhile (!isBreak ·)).rdropWhile isWhitespace = c :: rest := by
  unfold token at h
  split at h
  · exact absurd (List.cons.inj h).1.symm hc
  · exact ⟨‹_›, h⟩

theorem lead_of_group_dot (h : groupName stem = ['.']) : ∃ rest, lead stem = '.' :: rest ∧
    ∀ d ∈ rest.head?, d ≠ '.' := by
  obtain ⟨hne, htoken⟩ := lead_of_token (token_of_groupName_dots (by simp) (by decide) h) (by decide)
  have hkept : '.' :: ((lead stem).takeWhile (!isBreak ·)).rtakeWhile isWhitespace =
      (lead stem).takeWhile (!isBreak ·) := by
    have happend := @List.rdropWhile_append_rtakeWhile _ isWhitespace ((lead stem).takeWhile (!isBreak ·))
    rwa [htoken] at happend
  have hsplit := @List.takeWhile_append_dropWhile _ (!isBreak ·) (lead stem)
  rw [← hkept, List.cons_append] at hsplit
  refine ⟨_, hsplit.symm, fun d hd => ?_⟩
  rintro rfl
  rw [List.head?_append] at hd
  cases hblank : (((lead stem).takeWhile (!isBreak ·)).rtakeWhile isWhitespace).head? with
  | some e =>
    rw [hblank] at hd
    obtain rfl := Option.some.inj hd
    exact absurd (List.mem_rtakeWhile_imp (List.mem_of_mem_head? hblank)) (by decide)
  | none =>
    rw [hblank, Option.none_or] at hd
    have hnot := List.head?_dropWhile_not (!isBreak ·) (lead stem)
    rw [hd] at hnot
    exact absurd hnot (by decide)

theorem lead_of_group_dots (h : groupName stem = ['.', '.']) : ∃ rest, lead stem = '.' :: '.' :: rest := by
  obtain ⟨hne, htoken⟩ := lead_of_token (token_of_groupName_dots (by simp) (by decide) h) (by decide)
  have hbegins := (List.rdropWhile_prefix isWhitespace (l := (lead stem).takeWhile (!isBreak ·))).trans
    (List.takeWhile_prefix _)
  rw [htoken] at hbegins
  obtain ⟨rest, hrest⟩ := hbegins
  exact ⟨rest, hrest.symm⟩

end

/-! ## stems and extensions -/

/-- `file_stem` of a name -/
def stemOf (name : String) : String := ((splitLastDot name).map (·.1)).getD name

/-- `extension` of a name, empty if it has none -/
def extensionOf (name : String) : String := ((splitLastDot name).map (·.2)).getD ""

/-- the name that is tried with a number -/
def numberedName (name : String) (index : Nat) : String :=
  stemOf name ++ "_" ++ toString index ++ (if extensionOf name = "" then "" else "." ++ extensionOf name)

def EndsWithDot (name : String) : Prop := name.toList.getLast? = some '.'

section
variable {name s x : String} {index : Nat}

theorem eq_of_splitLastDot (h : splitLastDot name = some (s, x)) : name = s ++ "." ++ x ∧ '.' ∉ x.toList := by
  have hsplit := @List.takeWhile_append_dropWhile _ (· ≠ '.') name.toList.reverse
  unfold splitLastDot at h
  dsimp only at h
  split at h
  · cases h
  · cases h
  · next c before hne hdrop =>
    obtain ⟨rfl, rfl⟩ := Prod.mk.inj (Option.some.inj h)
    have hc : c = '.' := by
      have hnot := List.head?_dropWhile_not (fun d : Char => decide (d ≠ '.')) name.toList.reverse
      rw [hdrop, List.head?_cons] at hnot
      simpa using hnot
    constructor
    · apply String.toList_injective
      rw [hdrop, hc] at hsplit
      have hreverse := congrArg List.reverse hsplit
      rw [List.reverse_append, List.reverse_cons, List.reverse_reverse] at hreverse
      simp only [String.toList_append, String.toList_ofList]
      exact hreverse.symm
    · rw [String.toList_ofList, List.mem_reverse]
      intro hdot
      simpa using List.mem_takeWhile_imp hdot

theorem splitLastDot_of_endsWithDot (h : EndsWithDot name) (hne : name ≠ ".") :
    ∃ s, splitLastDot name = some (s, "") := by
  obtain ⟨front, hfront⟩ := List.getLast?_eq_some_iff.mp h
  have hreverse : name.toList.reverse = '.' :: front.reverse := by
    rw [hfront, List.reverse_append]
    rfl
  cases hbefore : front.reverse with
  | nil =>
    refine absurd (String.toList_injective ?_) hne
    rw [hfront, List.reverse_eq_nil_iff.mp hbefore]
    rfl
  | cons d before =>
    refine ⟨String.ofList (d :: before).reverse, ?_⟩
    rw [splitLastDot, hreverse, hbefore, List.dropWhile_cons_of_neg (by decide), List.takeWhile_cons_of_neg (by decide)]
    rfl

theorem endsWithDot_of_splitLastDot (h : splitLastDot name = some (s, "")) : EndsWithDot name := by
  rw [EndsWithDot, (eq_of_splitLastDot h).1, String.toList_append, String.toList_append]
  show (s.toList ++ ['.'] ++ []).getLast? = some '.'
  rw [List.append_nil, List.getLast?_concat]

theorem exists_eq_stemOf (name : String) : ∃ back, name = stemOf name ++ back := by
  unfold stemOf
  cases h : splitLastDot name with
  | none => exact ⟨"", (String.append_empty).symm⟩
  | some parts =>
    obtain ⟨hname, -⟩ := eq_of_splitLastDot (show splitLastDot name = some (parts.1, parts.2) from h)
    exact ⟨"." ++ parts.2, by rw [← String.append_assoc]; exact hname⟩

theorem dot_not_mem_extensionOf (name : String) : '.' ∉ (extensionOf name).toList := by
  unfold extensionOf
  cases h : splitLastDot name with
  | none => decide
  | some parts => exact (eq_of_splitLastDot (show splitLastDot name = some (parts.1, parts.2) from h)).2

theorem exists_digit (index : Nat) : ∃ front d, (toString index).toList = front ++ [d] ∧ d ≠ '.' := by
  rcases List.eq_nil_or_concat (toString index).toList with hnil | ⟨front, d, hd⟩
  · rw [toList_toString] at hnil
    exact absurd hnil (Nat.toDigits_ne_nil)
  · rw [List.concat_eq_append] at hd
    refine ⟨front, d, hd, ?_⟩
    rintro rfl
    have hdigit := isDigit_of_mem_toString (hd ▸ List.mem_append_right _ (List.mem_singleton_self '.'))
    exact absurd hdigit (by decide)

theorem not_endsWithDot_numberedName : ¬ EndsWithDot (numberedName name index) := by
  intro h
  unfold EndsWithDot numberedName at h
  by_cases hext : extensionOf name = ""
  · obtain ⟨front, d, hdigits, hd⟩ := exists_digit index
    rw [if_pos hext, String.append_empty, String.toList_append, hdigits, ← List.append_assoc,
      List.getLast?_concat] at h
    exact hd (Option.some.inj h)
  · have happend : (stemOf name ++ "_" ++ toString index ++ ("." ++ extensionOf name)).toList =
        (stemOf name ++ "_" ++ toString index ++ ".").toList ++ (extensionOf name).toList := by
      rw [← String.append_assoc, String.toList_append]
    rw [if_neg hext, happend] at h
    have hmem := dot_not_mem_extensionOf name
    rcases List.eq_nil_or_concat (extensionOf name).toList with hnil | ⟨front, d, hd⟩
    · exact hext (String.toList_injective hnil)
    · rw [List.concat_eq_append] at hd
      rw [hd, ← List.append_assoc, List.getLast?_concat] at h
      rw [hd, Option.some.inj h] at hmem
      exact hmem (List.mem_append_right _ (List.mem_singleton_self '.'))

end

/-! ## files of a scan -/

/-- the `extension` that `collect_source_files` records -/
def collectedExtension (path : String) : String :=
  ((fileExtension path).map fun value => "." ++ toAsciiLowercase value).getD ""

/-- a file as `collect_source_files` records it: its path has `/` for `\`, and proper names -/
structure Collected (file : SourceSetFile) : Prop where
  names : ∃ names, names ≠ [] ∧ (∀ c ∈ names, NormalName c) ∧ file.path = join "/" names
  scanned : ∃ original, file.path = normalizePath original ∧ file.extension = collectedExtension original

/-- the folder of an extension -/
def extensionFolder (file : SourceSetFile) : String :=
  if blank file.extension then "no_extension"
  else String.ofList (file.extension.toList.dropWhile (· == '.'))

/-- the last name of a file -/
def nameOf (file : SourceSetFile) : String := (fileName file.path).getD "file"

section
variable {names : List String} {original name s x : String} {file : SourceSetFile} {c : Char} {rest : List Char}

theorem getLast?_join (front : List String) (hname : name ≠ "") :
    (join "/" (front ++ [name])).toList.getLast? = name.toList.getLast? := by
  have hchars : name.toList ≠ [] := fun h => hname (String.toList_injective h)
  induction front with
  | nil => rfl
  | cons first front ih =>
    obtain ⟨second, rest, hrest⟩ := List.exists_cons_of_ne_nil (List.append_ne_nil_of_right_ne_nil front
      (List.cons_ne_nil name []))
    rw [hrest] at ih
    have hne : (join "/" (second :: rest)).toList ≠ [] := by
      intro hnil
      rw [hnil, List.getLast?_nil] at ih
      exact hchars (List.getLast?_eq_none_iff.mp ih.symm)
    rw [List.cons_append, hrest, join_cons_cons, String.toList_append, List.getLast?_append_of_ne_nil _ hne, ih]

theorem fileName_join (hnames : ∀ c ∈ names, NormalName c) : fileName (join "/" names) = names.getLast? := by
  rw [fileName, components_join hnames]
  cases hlast : names.getLast? with
  | none => rfl
  | some name => exact Option.filter_some_pos (decide_eq_true (hnames name (List.mem_of_mem_getLast? hlast)).ne_dots)

theorem normalName_of_mem_splitOn (hnames : ∀ c ∈ names, NormalName c) (hne : names ≠ [])
    (horiginal : normalizePath original = join "/" names) (h : name ∈ splitOn '/' original) : NormalName name := by
  have hsegments : splitOn '/' original ≠ [] := fun hnil => by
    rw [hnil] at h
    exact List.not_mem_nil h
  have hflat := @splitOn_normalizePath_join (splitOn '/' original) hsegments
  rw [join_splitOn, horiginal, splitOn_join (fun c hc => (hnames c hc).noSlash) hne] at hflat
  -- a piece that is no name would be left as it is
  have hkept (piece : String) (hpiece : name = piece) (hsame : splitOn '/' (normalizePath piece) = [piece]) :
      NormalName piece := by
    apply hnames
    rw [hflat]
    refine List.mem_flatMap.mpr ⟨name, h, ?_⟩
    rw [hpiece, hsame]
    exact List.mem_singleton_self piece
  obtain ⟨piece, hpiece, rfl⟩ := List.mem_map.mp h
  refine ⟨fun hempty => (hkept "" hempty (by decide)).nonempty rfl, fun hdot => (hkept "." hdot (by decide)).ne_dot rfl,
    fun hdots => (hkept ".." hdots (by decide)).ne_dots rfl, ?_⟩
  rw [String.toList_ofList]
  exact not_mem_splitOn hpiece

theorem getLast?_normalizePath (s : String) :
    (normalizePath s).toList.getLast? = some '.' ↔ s.toList.getLast? = some '.' := by
  rw [normalizePath, replaceChar, toList_mapChars, List.getLast?_map, Option.map_eq_some_iff]
  constructor
  · rintro ⟨c, hc, hdot⟩
    split at hdot
    · exact absurd hdot (by decide)
    · rwa [hdot] at hc
  · exact fun h => ⟨'.', h, by decide⟩

theorem Collected.parts (h : Collected file) : NormalName (nameOf file) ∧ fileName file.path = some (nameOf file) ∧
    ∃ original, NormalName original ∧ (EndsWithDot (nameOf file) ↔ EndsWithDot original) ∧
      file.extension = ((splitLastDot original).map fun parts => "." ++ toAsciiLowercase parts.2).getD "" := by
  obtain ⟨names, hne, hnames, hpath⟩ := h.names
  obtain ⟨scanned, hscanned, hextension⟩ := h.scanned
  obtain ⟨front, last, rfl⟩ : ∃ front last, names = front ++ [last] := by
    rcases List.eq_nil_or_concat names with rfl | ⟨front, last, rfl⟩
    · exact absurd rfl hne
    · exact ⟨front, last, List.concat_eq_append⟩
  have hlast : NormalName last := hnames last (List.mem_append_right _ (List.mem_singleton_self last))
  have hname : fileName file.path = some last := by
    rw [hpath, fileName_join hnames, List.getLast?_concat]
  have hnameOf : nameOf file = last := by
    rw [nameOf, hname, Option.getD_some]
  obtain ⟨before, original, hpieces⟩ : ∃ before original, splitOn '/' scanned = before ++ [original] := by
    rcases List.eq_nil_or_concat (splitOn '/' scanned) with hnil | ⟨before, original, h⟩
    · exact absurd (List.map_eq_nil_iff.mp hnil) (List.splitOn_ne_nil _ _)
    · exact ⟨before, original, h.trans List.concat_eq_append⟩
  have hproper : ∀ c ∈ before ++ [original], NormalName c := fun c hc =>
    normalName_of_mem_splitOn hnames hne (hscanned.symm.trans hpath) (hpieces ▸ hc)
  have hjoin : scanned = join "/" (before ++ [original]) := by
    rw [← hpieces, join_splitOn]
  have horiginal : NormalName original := hproper original (List.mem_append_right _ (List.mem_singleton_self _))
  rw [hnameOf]
  refine ⟨hlast, hname, original, horiginal, ?_, ?_⟩
  · rw [EndsWithDot, EndsWithDot, ← getLast?_join front hlast.nonempty, ← getLast?_join before horiginal.nonempty,
      ← hpath, ← hjoin, hscanned, getLast?_normalizePath]
  · rw [hextension, collectedExtension, fileExtension, hjoin, fileName_join hproper, List.getLast?_concat,
      Option.bind_some, Option.map_map]
    rfl

theorem toLower_eq {c d : Char} (h : c.toLower = d) (hd : d.isLower = false) : c = d := by
  unfold Char.toLower at h
  split at h
  · next hupper =>
    obtain ⟨hlow, hhigh⟩ := hupper
    rw [ge_iff_le, UInt32.le_iff_toNat_le] at hlow
    rw [UInt32.le_iff_toNat_le] at hhigh
    have hA : 'A'.val.toNat = 65 := rfl
    have hZ : 'Z'.val.toNat = 90 := rfl
    have hval : d.val.toNat = c.val.toNat + 32 := by
      rw [← h]
      show (c.val + 32).toNat = _
      rw [UInt32.toNat_add]
      show (c.val.toNat + 32) % 4294967296 = _
      omega
    unfold Char.isLower at hd
    simp only [Bool.and_eq_false_iff, decide_eq_false_iff_not, ge_iff_le, UInt32.le_iff_toNat_le, hval] at hd
    have ha : 'a'.val.toNat = 97 := rfl
    have hz : 'z'.val.toNat = 122 := rfl
    omega
  · exact h

theorem Collected.extensionFolder (h : Collected file) : '.' ∉ (extensionFolder file).toList ∧
    '/' ∉ (extensionFolder file).toList ∧ (Data.extensionFolder file = "" ↔ EndsWithDot (nameOf file)) := by
  obtain ⟨-, -, original, horiginal, hdot, hextension⟩ := h.parts
  rw [Data.extensionFolder, hextension, hdot]
  cases hsplit : splitLastDot original with
  | none =>
    have hends : ¬ EndsWithDot original := fun hends => by
      obtain ⟨s, hs⟩ := splitLastDot_of_endsWithDot hends horiginal.ne_dot
      rw [hsplit] at hs
      cases hs
    refine ⟨by decide, by decide, iff_of_false (by decide) hends⟩
  | some parts =>
    obtain ⟨stem, x⟩ := parts
    obtain ⟨hname, hdots⟩ := eq_of_splitLastDot hsplit
    have hslash : '/' ∉ x.toList := fun hmem => horiginal.noSlash (by
      rw [hname, String.toList_append]
      exact List.mem_append_right _ hmem)
    have hchars : ("." ++ toAsciiLowercase x).toList = '.' :: x.toList.map Char.toLower := by
      rw [String.toList_append, toAsciiLowercase, toList_mapChars]
      rfl
    have hlower : '.' ∉ x.toList.map Char.toLower := fun hmem => by
      obtain ⟨c, hc, hlow⟩ := List.mem_map.mp hmem
      exact hdots (toLower_eq hlow (by decide) ▸ hc)
    have hfolder : (if blank ("." ++ toAsciiLowercase x) then "no_extension" else String.ofList
        (("." ++ toAsciiLowercase x).toList.dropWhile (· == '.'))).toList = x.toList.map Char.toLower := by
      have hblank : blank ("." ++ toAsciiLowercase x) = false := by
        rw [blank, hchars]
        rfl
      rw [hblank, if_neg Bool.false_ne_true, String.toList_ofList, hchars, List.dropWhile_cons_of_pos (by decide)]
      refine List.dropWhile_eq_self_iff.mpr fun hlength hhead => hlower ?_
      rw [← beq_iff_eq.mp hhead]
      exact List.getElem_mem hlength
    rw [Option.map_some, Option.getD_some, hfolder]
    refine ⟨hlower, fun hmem => ?_, ?_⟩
    · obtain ⟨c, hc, hlow⟩ := List.mem_map.mp hmem
      exact hslash (toLower_eq hlow (by decide) ▸ hc)
    · constructor
      · intro hempty
        rw [hempty] at hfolder
        obtain rfl : x = "" := String.toList_injective (List.map_eq_nil_iff.mp hfolder.symm)
        exact endsWithDot_of_splitLastDot hsplit
      · intro hends
        obtain ⟨s, hs⟩ := splitLastDot_of_endsWithDot hends horiginal.ne_dot
        obtain ⟨rfl, rfl⟩ := Prod.mk.inj (Option.some.inj (hsplit.symm.trans hs))
        exact String.toList_injective hfolder

theorem Collected.group (h : Collected file) :
    (organizeGroupForPath file.path).toList = groupName (stemOf (nameOf file)).toList := by
  have hstem : (fileStem (normalizePath file.path)).getD "misc" = stemOf (nameOf file) := by
    obtain ⟨original, hscanned, -⟩ := h.scanned
    have hpath : normalizePath file.path = file.path := by
      rw [hscanned]
      apply String.toList_injective
      simp only [normalizePath, replaceChar, toList_mapChars, List.map_map]
      refine List.map_congr_left fun c _ => ?_
      rw [Function.comp_apply]
      split
      · decide
      · rfl
    rw [hpath, fileStem, h.parts.2.1]
    rfl
  rw [toList_organizeGroupForPath, hstem]

/-! ## names that differ -/

/-- the names under which a file may come to stand -/
def NamedAs (name t : String) : Prop := t = name ∨ ∃ index, t = numberedName name index

theorem NamedAs.stem {t : String} (h : NamedAs name t) : ∃ back, t = stemOf name ++ back := by
  rcases h with rfl | ⟨index, rfl⟩
  · exact exists_eq_stemOf t
  · exact ⟨_, by rw [numberedName, String.append_assoc, String.append_assoc]⟩

theorem NamedAs.lead_eq {t : String} (h : NamedAs name t) (hlead : lead (stemOf name).toList = c :: rest) :
    ∃ back, lead t.toList = c :: rest ++ back := by
  obtain ⟨back, rfl⟩ := h.stem
  refine ⟨back.toList, ?_⟩
  rw [String.toList_append, lead_append_of_ne_nil (by rw [hlead]; exact List.cons_ne_nil _ _), hlead]

theorem NamedAs.not_endsWithDot {t : String} (h : NamedAs name t) (hname : ¬ EndsWithDot name) : ¬ EndsWithDot t := by
  rcases h with rfl | ⟨index, rfl⟩
  · exact hname
  · exact not_endsWithDot_numberedName

theorem numberedName_of_endsWithDot {index : Nat} (h : EndsWithDot name) (hne : name ≠ ".") :
    (numberedName name index).toList = (stemOf name).toList ++ '_' :: (toString index).toList := by
  obtain ⟨s, hs⟩ := splitLastDot_of_endsWithDot h hne
  have hext : extensionOf name = "" := by
    rw [extensionOf, hs]
    rfl
  rw [numberedName, if_pos hext, String.append_empty, String.toList_append, String.toList_append, List.append_assoc]
  rfl

section
variable {other t t' : String} (hdot : EndsWithDot name) (hne : name ≠ ".") (hother : ¬ EndsWithDot other)
  (ht : NamedAs name t) (ht' : NamedAs other t')
include hdot hne hother ht ht'

theorem ne_of_group_dot (hgroup : '.' ∉ groupName (stemOf name).toList)
    (hgroup' : groupName (stemOf other).toList = ['.']) : t ≠ t' := by
  rintro rfl
  obtain ⟨rest', hlead', -⟩ := lead_of_group_dot hgroup'
  obtain ⟨back', hback'⟩ := ht'.lead_eq hlead'
  rcases ht with rfl | ⟨index, rfl⟩
  · exact ht'.not_endsWithDot hother hdot
  · rw [numberedName_of_endsWithDot hdot hne] at hback'
    cases hlead : lead (stemOf name).toList with
    | nil =>
      rw [lead_append_of_nil hlead, lead, List.dropWhile_cons_of_pos (by decide)] at hback'
      have hmem : '.' ∈ (toString index).toList := by
        apply (List.dropWhile_suffix fun c => isBreak c || isWhitespace c).subset
        rw [hback']
        exact List.mem_cons_self
      exact absurd (isDigit_of_mem_toString hmem) (by decide)
    | cons c rest =>
      rw [lead_append_of_ne_nil (by rw [hlead]; exact List.cons_ne_nil _ _), hlead] at hback'
      exact lead_of_dot_not_mem hgroup hlead (List.cons.inj hback').1

theorem ne_of_group_dots (hgroup : groupName (stemOf name).toList = ['.'])
    (hgroup' : groupName (stemOf other).toList = ['.', '.']) : t ≠ t' := by
  rintro rfl
  obtain ⟨rest, hlead, hrest⟩ := lead_of_group_dot hgroup
  obtain ⟨rest', hlead'⟩ := lead_of_group_dots hgroup'
  obtain ⟨back', hback'⟩ := ht'.lead_eq hlead'
  rcases ht with rfl | ⟨index, rfl⟩
  · exact ht'.not_endsWithDot hother hdot
  · rw [numberedName_of_endsWithDot hdot hne, lead_append_of_ne_nil (by rw [hlead]; exact List.cons_ne_nil _ _),
      hlead] at hback'
    have hsecond := (List.cons.inj hback').2
    cases rest with
    | nil => exact absurd (List.cons.inj hsecond).1 (by decide)
    | cons d rest => exact hrest d rfl (List.cons.inj hsecond).1

end

end

end Data

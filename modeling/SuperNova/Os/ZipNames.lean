import SuperNova.Os.Zip

/-!
# Names in archives

The name of an entry is the path of the file below the workspace, joined with `/` and with every `\` made
a `/`.

* `components_zipName`: a path without `\` comes back from its name;
* `length_utf8_components`: the components of a name are no longer than the name.
-/

set_option linter.unusedSectionVars false

namespace Os

open Workspace

/-- a component that is the name of something -/
structure NormalName (s : String) : Prop where
  nonempty : s ≠ ""
  ne_dot : s ≠ "."
  ne_dots : s ≠ ".."
  noSlash : '/' ∉ s.toList

section
variable {s t : String} {l names : List String} {root p : Path}

/-! ## joining and splitting -/

theorem toList_join (sep : String) (l : List String) :
    (Text.join sep l).toList = sep.toList.intercalate (l.map String.toList) := by
  induction l with
  | nil => rfl
  | cons a l ih =>
    cases l with
    | nil => exact (List.intercalate_singleton).symm
    | cons b l =>
      rw [Text.join_cons_cons, String.toList_append, String.toList_append, ih]
      simp [List.intercalate]

theorem join_splitOn (s : String) : Text.join "/" (Text.splitOn '/' s) = s := by
  apply String.toList_injective
  rw [toList_join, Text.splitOn, List.map_map]
  have hofList : (String.toList ∘ String.ofList) = id := by
    funext l
    exact String.toList_ofList
  rw [hofList, List.map_id]
  exact List.intercalate_splitOn '/'

theorem splitOn_join (hnames : ∀ c ∈ names, '/' ∉ c.toList) (hne : names ≠ []) :
    Text.splitOn '/' (Text.join "/" names) = names := by
  have hsplit : (['/'].intercalate (names.map String.toList)).splitOn '/' = names.map String.toList := by
    refine List.splitOn_intercalate '/' ?_ (by simpa using hne)
    intro l hl
    obtain ⟨c, hc, rfl⟩ := List.mem_map.mp hl
    exact hnames c hc
  have hslash : ("/" : String).toList = ['/'] := rfl
  have hofList : (String.ofList ∘ String.toList) = id := by
    funext c
    exact String.ofList_toList
  rw [Text.splitOn, toList_join, hslash, hsplit, List.map_map, hofList, List.map_id]

theorem components_join (hnames : ∀ c ∈ names, NormalName c) : components (Text.join "/" names) = names := by
  cases names with
  | nil => decide
  | cons c rest =>
    rw [components, splitOn_join (fun c hc => (hnames c hc).noSlash) (List.cons_ne_nil c rest)]
    refine List.filter_eq_self.mpr fun a ha => ?_
    simp [(hnames a ha).nonempty, (hnames a ha).ne_dot]

theorem isAbsolute_join (hnames : ∀ c ∈ names, NormalName c) : isAbsolute (Text.join "/" names) = false := by
  cases names with
  | nil => rfl
  | cons c rest =>
    have hc := hnames c List.mem_cons_self
    have hhead : ∀ d ∈ (Text.join "/" (c :: rest)).toList.head?, d ∈ c.toList := by
      cases hchars : c.toList with
      | nil => exact absurd (String.toList_inj.mp hchars) hc.nonempty
      | cons d cs =>
        intro d' hd'
        cases rest with
        | nil =>
          rw [show Text.join "/" [c] = c from rfl, hchars] at hd'
          exact Option.some.inj hd' ▸ List.mem_cons_self
        | cons b rest =>
          rw [Text.join_cons_cons, String.toList_append, String.toList_append, hchars] at hd'
          exact Option.some.inj hd' ▸ List.mem_cons_self
    unfold isAbsolute
    cases h : (Text.join "/" (c :: rest)).toList.head? with
    | none => rfl
    | some d =>
      have hd : d ≠ '/' := by
        rintro rfl
        exact hc.noSlash (hhead '/' h)
      simpa using hd

/-! ## lengths -/

theorem utf8_eq (s : String) : utf8 s = s.toList.flatMap String.utf8EncodeChar := by
  have hencode : s.toUTF8 = (s.toList.flatMap String.utf8EncodeChar).toByteArray :=
    String.utf8Encode_toList.symm
  rw [utf8, hencode, List.toList_data_toByteArray]

theorem utf8_append (s t : String) : utf8 (s ++ t) = utf8 s ++ utf8 t := by
  rw [utf8_eq, utf8_eq, utf8_eq, String.toList_append, List.flatMap_append]

theorem length_utf8_normalizePath (s : String) : (utf8 (normalizePath s)).length = (utf8 s).length := by
  have hchar : ∀ c : Char, (String.utf8EncodeChar (if c = '\\' then '/' else c)).length =
      (String.utf8EncodeChar c).length := by
    intro c
    by_cases hc : c = '\\'
    · rw [if_pos hc, hc]
      decide
    · rw [if_neg hc]
  rw [utf8_eq, utf8_eq, normalizePath, Text.replaceChar, Text.toList_mapChars]
  induction s.toList with
  | nil => rfl
  | cons c cs ih =>
    rw [List.map_cons, List.flatMap_cons, List.flatMap_cons, List.length_append, List.length_append, ih,
      hchar]

theorem length_utf8_join_cons (a : String) (l : List String) :
    (utf8 (Text.join "/" l)).length ≤ (utf8 (Text.join "/" (a :: l))).length ∧
      (utf8 (Text.join "/" (a :: l))).length ≤ (utf8 a).length + 1 + (utf8 (Text.join "/" l)).length := by
  have hslash : (utf8 "/").length = 1 := by decide
  cases l with
  | nil =>
    have hempty : (utf8 (Text.join "/" [])).length = 0 := by decide
    rw [hempty]
    exact ⟨Nat.zero_le _, Nat.le_add_right _ 1⟩
  | cons b l =>
    rw [Text.join_cons_cons, utf8_append, utf8_append, List.length_append, List.length_append, hslash]
    omega

theorem length_utf8_filter (f : String → Bool) (l : List String) :
    (utf8 (Text.join "/" (l.filter f))).length ≤ (utf8 (Text.join "/" l)).length := by
  induction l with
  | nil => exact Nat.le_refl _
  | cons a l ih =>
    by_cases ha : f a = true
    · rw [List.filter_cons_of_pos ha]
      have hslash : (utf8 "/").length = 1 := by decide
      cases l with
      | nil => exact Nat.le_refl _
      | cons b l =>
        rw [Text.join_cons_cons, utf8_append, utf8_append, List.length_append, List.length_append, hslash]
        have hcons := (length_utf8_join_cons a ((b :: l).filter f)).2
        omega
    · rw [List.filter_cons_of_neg ha]
      exact ih.trans (length_utf8_join_cons a l).1

theorem length_utf8_components (s : String) :
    (utf8 (Text.join "/" (components s))).length ≤ (utf8 s).length := by
  have hfilter := length_utf8_filter (fun c => c ≠ "" && c ≠ ".") (Text.splitOn '/' s)
  rw [join_splitOn] at hfilter
  exact hfilter

/-! ## names of entries -/

theorem zipName_eq (root p : Path) : zipName root (root ++ p) = normalizePath (Text.join "/" p) := by
  rw [zipName, if_pos (List.prefix_append root p), List.drop_left]

theorem mem_join_of_mem {c : String} {d : Char} (hc : c ∈ l) (hd : d ∈ c.toList) :
    d ∈ (Text.join "/" l).toList := by
  induction l with
  | nil => cases hc
  | cons a l ih =>
    cases l with
    | nil =>
      cases List.mem_singleton.mp hc
      exact hd
    | cons b l =>
      rw [Text.join_cons_cons, String.toList_append, List.mem_append]
      rcases List.mem_cons.mp hc with rfl | hc
      · exact Or.inl (String.toList_append ▸ List.mem_append_left _ hd)
      · exact Or.inr (ih hc)

theorem mem_of_mem_join {d : Char} (hd : d ∈ (Text.join "/" l).toList) : d = '/' ∨ ∃ c ∈ l, d ∈ c.toList := by
  induction l with
  | nil => cases hd
  | cons a l ih =>
    cases l with
    | nil => exact Or.inr ⟨a, List.mem_cons_self, hd⟩
    | cons b l =>
      rw [Text.join_cons_cons, String.toList_append, String.toList_append, List.mem_append,
        List.mem_append] at hd
      rcases hd with (hfirst | hslash) | hrest
      · exact Or.inr ⟨a, List.mem_cons_self, hfirst⟩
      · exact Or.inl (List.mem_singleton.mp hslash)
      · exact (ih hrest).imp_right fun ⟨c, hc, hmem⟩ => ⟨c, List.mem_cons_of_mem a hc, hmem⟩

theorem separated_components {c : String} (hc : c ∈ components (normalizePath s)) : Separated c := by
  intro hmem
  have hname := mem_join_of_mem (List.mem_of_mem_filter hc) hmem
  rw [join_splitOn, normalizePath, Text.replaceChar, Text.toList_mapChars] at hname
  obtain ⟨d, -, hd⟩ := List.mem_map.mp hname
  split at hd
  · exact absurd hd (by decide)
  · next hne => exact hne hd

theorem separated_join (hnames : ∀ c ∈ names, Separated c) : Separated (Text.join "/" names) := by
  intro hmem
  rcases mem_of_mem_join hmem with hslash | ⟨c, hc, hbackslash⟩
  · exact absurd hslash (by decide)
  · exact hnames c hc hbackslash

theorem components_zipName (hnormal : ∀ c ∈ p, NormalName c) (hseparated : ∀ c ∈ p, Separated c) :
    components (zipName root (root ++ p)) = p := by
  rw [zipName_eq, normalizePath_of_separated (separated_join hseparated), components_join hnormal]

end

end Os

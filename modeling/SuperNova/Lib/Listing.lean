import Mathlib.Algebra.Order.BigOperators.Group.List
import Mathlib.Algebra.Order.Group.Nat
import SuperNova.Lib.Lines

/-!
# Lists that cross a text file

A list of texts is written to a file, joined by line feeds; the reader takes the lines of the file, trims them, leaves
out blank ones, and keeps the first of those it does not tell apart.

* `readAllLines`, `distinctBy`, `readList`: the reader;
* `readList_join`: a list of texts that are told apart comes back;
* `readList_of_length`: a list whose length comes back was told apart, trimmed;
* `perm_of_counts`, `measure_eq_of_perm`: lists with the same members.
-/

namespace Text

/-! ## lines -/

/-- the lines, with what there is of the first one; `\r`, `\n` and `\r\n` end a line -/
def readLinesFrom : List Char → List Char → List String
  | [], line => if line = [] then [] else [String.ofList line]
  | '\r' :: '\n' :: rest, line => String.ofList line :: readLinesFrom rest []
  | c :: rest, line =>
    if c = '\r' ∨ c = '\n' then String.ofList line :: readLinesFrom rest [] else readLinesFrom rest (line ++ [c])

def byteOrderMark : Char := Char.ofNat 0xFEFF

def dropByteOrderMark (chars : List Char) : List Char :=
  if chars.head? = some byteOrderMark then chars.tail else chars

/-- `File.ReadAllLines` -/
def readAllLines (text : String) : List String := readLinesFrom (dropByteOrderMark text.toList) []

/-- `Distinct`: the first of those with the same key -/
def distinctBy {α κ : Type*} [DecidableEq κ] (key : α → κ) : List α → List α
  | [] => []
  | a :: l => a :: (distinctBy key l).filter fun b => key b ≠ key a

/-- the texts in a file of lines -/
def readList (key : String → String) (text : String) : List String :=
  distinctBy key (((readAllLines text).map trim).filter fun line => !blank line)

/-- a text that a line of a file can hold -/
structure FitsLine (s : String) : Prop where
  oneLine : OneLine s
  nonempty : s ≠ ""
  unmarked : s.toList.head? ≠ some byteOrderMark

section
variable {c : Char} {word rest line : List Char} {s text : String} {l : List String} {key : String → String}

theorem OneLine.char (h : OneLine s) (hc : c ∈ s.toList) : ¬ (c = '\r' ∨ c = '\n') := by
  rintro (rfl | rfl)
  · exact h.2 hc
  · exact h.1 hc

theorem readLinesFrom_char (hc : ¬ (c = '\r' ∨ c = '\n')) :
    readLinesFrom (c :: rest) line = readLinesFrom rest (line ++ [c]) := by
  have hne : c ≠ '\r' := fun h => hc (Or.inl h)
  rw [readLinesFrom, if_neg hc]
  intro more hmore
  exact absurd hmore hne

theorem readLinesFrom_append (h : ∀ c ∈ word, ¬ (c = '\r' ∨ c = '\n')) :
    readLinesFrom (word ++ rest) line = readLinesFrom rest (line ++ word) := by
  induction word generalizing line with
  | nil => rw [List.nil_append, List.append_nil]
  | cons c word ih =>
    have hword : ∀ d ∈ word, ¬ (d = '\r' ∨ d = '\n') := fun d hd => h d (List.mem_cons_of_mem c hd)
    rw [List.cons_append, readLinesFrom_char (h c List.mem_cons_self), ih hword, List.append_assoc,
      List.singleton_append]

theorem readLinesFrom_feed : readLinesFrom ('\n' :: rest) line = String.ofList line :: readLinesFrom rest [] := by
  rw [readLinesFrom, if_pos (Or.inr rfl)]
  intro more hmore
  exact absurd hmore (by decide)

theorem readLinesFrom_join (h : ∀ s ∈ l, OneLine s ∧ s ≠ "") : readLinesFrom (join "\n" l).toList [] = l := by
  induction l with
  | nil => rfl
  | cons first l ih =>
    obtain ⟨hline, hne⟩ := h first List.mem_cons_self
    have hchars : first.toList ≠ [] := fun hnil => hne (String.toList_injective hnil)
    cases l with
    | nil =>
      show readLinesFrom first.toList [] = [first]
      have hread := @readLinesFrom_append first.toList [] [] fun _ hc => hline.char hc
      rw [List.append_nil, List.nil_append] at hread
      rw [hread, readLinesFrom, if_neg hchars, String.ofList_toList]
    | cons second l =>
      have hjoin : (join "\n" (first :: second :: l)).toList =
          first.toList ++ '\n' :: (join "\n" (second :: l)).toList := by
        rw [join_cons_cons, String.toList_append, String.toList_append]
        simp
      rw [hjoin, readLinesFrom_append fun _ hc => hline.char hc, readLinesFrom_feed, List.nil_append,
        String.ofList_toList, ih fun s hs => h s (List.mem_cons_of_mem first hs)]

theorem head?_join (hne : s ≠ "") : (join "\n" (s :: l)).toList.head? = s.toList.head? := by
  cases l with
  | nil => rfl
  | cons second l =>
    obtain ⟨c, rest, hchars⟩ := List.exists_cons_of_ne_nil fun hnil => hne (String.toList_injective hnil)
    rw [join_cons_cons, String.toList_append, String.toList_append, hchars]
    rfl

theorem readAllLines_join (h : ∀ s ∈ l, FitsLine s) : readAllLines (join "\n" l) = l := by
  have hmark : (join "\n" l).toList.head? ≠ some byteOrderMark := by
    cases l with
    | nil => exact nofun
    | cons first l =>
      have hfirst := h first List.mem_cons_self
      rw [head?_join hfirst.nonempty]
      exact hfirst.unmarked
  rw [readAllLines, dropByteOrderMark, if_neg hmark]
  exact readLinesFrom_join fun s hs => ⟨(h s hs).oneLine, (h s hs).nonempty⟩

theorem oneLine_of_mem_readLinesFrom (chars line : List Char) (hline : ∀ c ∈ line, ¬ (c = '\r' ∨ c = '\n'))
    (h : s ∈ readLinesFrom chars line) : OneLine s := by
  have hdone {line : List Char} (hline : ∀ c ∈ line, ¬ (c = '\r' ∨ c = '\n')) : OneLine (String.ofList line) := by
    unfold OneLine
    rw [String.toList_ofList]
    exact ⟨fun hc => hline _ hc (Or.inr rfl), fun hc => hline _ hc (Or.inl rfl)⟩
  induction chars, line using readLinesFrom.induct with
  | case1 => exact absurd h List.not_mem_nil
  | case2 line hne =>
    rw [readLinesFrom, if_neg hne] at h
    obtain rfl := List.mem_singleton.mp h
    exact hdone hline
  | case3 rest line ih =>
    rw [readLinesFrom] at h
    rcases List.mem_cons.mp h with rfl | h
    · exact hdone hline
    · exact ih nofun h
  | case4 c rest line hreturn hbreak ih =>
    rw [readLinesFrom, if_pos hbreak] at h
    · rcases List.mem_cons.mp h with rfl | h
      · exact hdone hline
      · exact ih nofun h
    · exact hreturn
  | case5 c rest line hreturn hbreak ih =>
    rw [readLinesFrom, if_neg hbreak] at h
    · refine ih ?_ h
      intro d hd
      rcases List.mem_append.mp hd with hd | hd
      · exact hline d hd
      · obtain rfl := List.mem_singleton.mp hd
        exact hbreak
    · exact hreturn

theorem head?_readLinesFrom (chars line : List Char) (hc : ¬ (c = '\r' ∨ c = '\n'))
    (hhead : (line ++ chars).head? = some c) :
    ∃ first rest, readLinesFrom chars line = first :: rest ∧ first.toList.head? = some c := by
  induction chars, line using readLinesFrom.induct with
  | case1 => cases hhead
  | case2 line hne =>
    rw [List.append_nil] at hhead
    exact ⟨_, [], by rw [readLinesFrom, if_neg hne], by rwa [String.toList_ofList]⟩
  | case3 rest line ih =>
    refine ⟨_, _, by rw [readLinesFrom], ?_⟩
    rw [String.toList_ofList]
    cases line with
    | nil =>
      rw [List.nil_append, List.head?_cons, Option.some.injEq] at hhead
      exact absurd (Or.inl hhead.symm) hc
    | cons d line => exact hhead
  | case4 d rest line hreturn hbreak ih =>
    refine ⟨_, _, by rw [readLinesFrom, if_pos hbreak]; exact hreturn, ?_⟩
    rw [String.toList_ofList]
    cases line with
    | nil =>
      rw [List.nil_append, List.head?_cons, Option.some.injEq] at hhead
      exact absurd (hhead ▸ hbreak) hc
    | cons e line => exact hhead
  | case5 d rest line hreturn hbreak ih =>
    rw [readLinesFrom, if_neg hbreak]
    · refine ih ?_
      rwa [List.append_assoc, List.singleton_append]
    · exact hreturn

end

/-! ## what is told apart -/

section
variable {α κ : Type*} [DecidableEq κ] {key : α → κ} {l : List α}

theorem distinctBy_sublist (key : α → κ) (l : List α) : (distinctBy key l).Sublist l := by
  induction l with
  | nil => exact List.Sublist.refl []
  | cons a l ih => exact (List.filter_sublist.trans ih).cons_cons a

theorem distinctBy_eq_self_iff : distinctBy key l = l ↔ l.Pairwise fun a b => key a ≠ key b := by
  induction l with
  | nil => exact iff_of_true rfl List.Pairwise.nil
  | cons a l ih =>
    rw [distinctBy, List.pairwise_cons, ← ih, List.cons.injEq]
    constructor
    · rintro ⟨-, h⟩
      -- nothing is left out in either pass
      have hlength := (List.filter_sublist (p := fun b => decide (key b ≠ key a)) (l := distinctBy key l)).length_le
      rw [h] at hlength
      have hdistinct : distinctBy key l = l := (distinctBy_sublist key l).eq_of_length_le hlength
      refine ⟨fun b hb => ?_, hdistinct⟩
      rw [← h] at hb
      exact Ne.symm (of_decide_eq_true (List.mem_filter.mp hb).2)
    · rintro ⟨hne, hdistinct⟩
      refine ⟨rfl, ?_⟩
      rw [hdistinct]
      exact List.filter_eq_self.mpr fun b hb => decide_eq_true (Ne.symm (hne b hb))

end

section
variable {s text : String} {l : List String} {key : String → String} {c : Char}

theorem blank_of_head? (hhead : s.toList.head? = some c) (hc : isWhitespace c = false) : blank s = false := by
  rw [blank, List.all_eq_false]
  exact ⟨c, List.mem_of_mem_head? hhead, by rw [hc]; exact Bool.false_ne_true⟩

theorem toList_trim_sublist (s : String) : (trim s).toList.Sublist s.toList := by
  rw [toList_trim]
  exact (List.rdropWhile_prefix _ _).sublist.trans (List.dropWhile_suffix _).sublist

theorem mem_readList (h : s ∈ readList key text) : OneLine s ∧ trim s = s := by
  obtain ⟨hline, -⟩ := List.mem_filter.mp ((distinctBy_sublist _ _).subset h)
  obtain ⟨line, hmem, rfl⟩ := List.mem_map.mp hline
  have hone : OneLine line := oneLine_of_mem_readLinesFrom _ [] nofun hmem
  exact ⟨⟨fun hc => hone.1 (mem_of_mem_trim hc), fun hc => hone.2 (mem_of_mem_trim hc)⟩, trim_trim line⟩

theorem head?_readList (hhead : text.toList.head? = some c) (hspace : isWhitespace c = false)
    (hmark : c ≠ byteOrderMark) :
    ∃ s ∈ readList key text, s.toList.head? = some c := by
  have hbreak : ¬ (c = '\r' ∨ c = '\n') := by
    rintro (rfl | rfl) <;> exact absurd hspace (by decide)
  have hdrop : dropByteOrderMark text.toList = text.toList := by
    refine if_neg ?_
    rw [hhead, Option.some.injEq]
    exact hmark
  obtain ⟨first, rest, hlines, hfirst⟩ := head?_readLinesFrom text.toList [] hbreak hhead
  have htrim : (trim first).toList.head? = some c := head?_trim hfirst hspace
  refine ⟨trim first, ?_, htrim⟩
  rw [readList, readAllLines, hdrop, hlines, List.map_cons, List.filter_cons_of_pos, distinctBy]
  · exact List.mem_cons_self
  · rw [blank_of_head? htrim hspace]
    rfl

/-- **texts that are told apart come back** -/
theorem readList_join (hfits : ∀ s ∈ l, FitsLine s) (htrim : ∀ s ∈ l, trim s = s)
    (hdistinct : l.Pairwise fun a b => key a ≠ key b) : readList key (join "\n" l) = l := by
  have hmap : l.map trim = l := by
    rw [List.map_congr_left htrim]
    exact List.map_id' l
  have hfilter : l.filter (fun line => !blank line) = l := by
    refine List.filter_eq_self.mpr fun s hs => ?_
    rw [blank_of_trimmed (htrim s hs) (hfits s hs).nonempty]
    rfl
  rw [readList, readAllLines_join hfits, hmap, hfilter, distinctBy_eq_self_iff.mpr hdistinct]

/-- **a list whose length comes back was told apart**, trimmed -/
theorem readList_of_length (hfits : ∀ s ∈ l, FitsLine s) (hlength : (readList key (join "\n" l)).length = l.length) :
    readList key (join "\n" l) = l.map trim ∧ (l.map trim).Pairwise fun a b => key a ≠ key b := by
  rw [readList, readAllLines_join hfits] at hlength ⊢
  have hinner := distinctBy_sublist key ((l.map trim).filter fun line => !blank line)
  have houter := List.filter_sublist (p := fun line => !blank line) (l := l.map trim)
  have hall : (l.map trim).filter (fun line => !blank line) = l.map trim := by
    refine houter.eq_of_length_le ?_
    rw [List.length_map, ← hlength]
    exact hinner.length_le
  rw [hall] at hlength ⊢
  have hself : distinctBy key (l.map trim) = l.map trim := by
    refine (distinctBy_sublist _ _).eq_of_length ?_
    rw [hlength, List.length_map]
  exact ⟨hself, distinctBy_eq_self_iff.mp hself⟩

end

/-! ## the same members -/

section
variable {α β : Type*} {l l' : List α}

theorem perm_of_counts [DecidableEq α] (hcount : ∀ a ∈ l, l'.count a = l.count a) (hlength : l'.length = l.length) :
    l'.Perm l := by
  have hkept : (l'.filter (· ∈ l)).Perm l := by
    refine List.perm_iff_count.mpr fun a => ?_
    by_cases ha : a ∈ l
    · exact (List.count_filter (p := fun b => decide (b ∈ l)) (decide_eq_true ha)).trans (hcount a ha)
    · rw [List.count_eq_zero.mpr ha, List.count_eq_zero]
      intro hmem
      exact ha (of_decide_eq_true (List.mem_filter.mp hmem).2)
  have hall : l'.filter (· ∈ l) = l' := by
    refine List.filter_sublist.eq_of_length ?_
    rw [hkept.length_eq, hlength]
  rwa [hall] at hkept

theorem measure_eq_of_perm {f g : α → β} (μ : β → Nat) (hperm : (l.map f).Perm (l.map g))
    (hle : ∀ a ∈ l, μ (f a) ≤ μ (g a)) : ∀ a ∈ l, μ (f a) = μ (g a) := by
  by_contra hnot
  push Not at hnot
  obtain ⟨a, ha, hne⟩ := hnot
  have hlt : (l.map fun a => μ (f a)).sum < (l.map fun a => μ (g a)).sum :=
    List.sum_lt_sum _ _ hle ⟨a, ha, lt_of_le_of_ne (hle a ha) hne⟩
  have hsum := (hperm.map μ).sum_eq
  rw [List.map_map, List.map_map] at hsum
  exact absurd hsum (ne_of_lt hlt)

end

end Text

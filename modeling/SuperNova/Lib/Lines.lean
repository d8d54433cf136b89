import SuperNova.Lib.Text

/-!
# Lines and words

`str::lines` and `str::split_whitespace`, and what they make of text that was written line by line.

* `lines_unlines`: text of lines without line breaks has those lines;
* `splitWhitespace_trim`: white space at the ends makes no words.
-/

namespace Text

/-- `str::ends_with` -/
def hasEnding (s ending : String) : Bool := ending.toList <:+ s.toList

/-! ## lines -/

/-- a line without the carriage return before its line feed -/
def stripReturn (line : List Char) : List Char := if line.getLast? = some '\r' then line.dropLast else line

/-- the lines, with what there is of the first one -/
def linesFrom : List Char → List Char → List String
  | [], line => if line = [] then [] else [String.ofList line]
  | c :: rest, line =>
    if c = '\n' then String.ofList (stripReturn line) :: linesFrom rest [] else linesFrom rest (line ++ [c])

/-- `str::lines` -/
def lines (s : String) : List String := linesFrom s.toList []

/-- lines, each with its line feed -/
def unlines : List String → String
  | [] => ""
  | line :: rest => line ++ "\n" ++ unlines rest

/-- nothing in it ends a line -/
def OneLine (s : String) : Prop := '\n' ∉ s.toList ∧ '\r' ∉ s.toList

instance (s : String) : Decidable (OneLine s) := instDecidableAnd

theorem OneLine.append {s t : String} (hs : OneLine s) (ht : OneLine t) : OneLine (s ++ t) := by
  unfold OneLine at *
  simp only [String.toList_append, List.mem_append, not_or]
  exact ⟨⟨hs.1, ht.1⟩, hs.2, ht.2⟩

theorem linesFrom_line {word : List Char} (h : '\n' ∉ word) (rest line : List Char) :
    linesFrom (word ++ '\n' :: rest) line = String.ofList (stripReturn (line ++ word)) :: linesFrom rest [] := by
  induction word generalizing line with
  | nil => rw [List.nil_append, linesFrom, if_pos rfl, List.append_nil]
  | cons c word ih =>
    have hc : c ≠ '\n' := fun heq => h (heq ▸ List.mem_cons_self)
    have hword : '\n' ∉ word := fun hmem => h (List.mem_cons_of_mem c hmem)
    rw [List.cons_append, linesFrom, if_neg hc, ih hword, List.append_assoc, List.singleton_append]

theorem stripReturn_of_oneLine {s : String} (h : OneLine s) : stripReturn s.toList = s.toList := by
  refine if_neg fun hlast => h.2 ?_
  exact List.mem_of_getLast? hlast

theorem lines_unlines {ls : List String} (h : ∀ line ∈ ls, OneLine line) : lines (unlines ls) = ls := by
  induction ls with
  | nil => rfl
  | cons line rest ih =>
    have hline := h line List.mem_cons_self
    have hchars : (unlines (line :: rest)).toList = line.toList ++ '\n' :: (unlines rest).toList := by
      simp [unlines]
    have hrest : lines (unlines rest) = rest := ih fun l hl => h l (List.mem_cons_of_mem line hl)
    rw [lines, hchars, linesFrom_line hline.1, List.nil_append, stripReturn_of_oneLine hline, String.ofList_toList]
    exact congrArg (line :: ·) hrest

/-! ## words -/

/-- the words, with what there is of the first one -/
def wordsFrom : List Char → List Char → List String
  | [], word => if word = [] then [] else [String.ofList word]
  | c :: rest, word =>
    if isWhitespace c then
      if word = [] then wordsFrom rest [] else String.ofList word :: wordsFrom rest []
    else wordsFrom rest (word ++ [c])

/-- `str::split_whitespace` -/
def splitWhitespace (s : String) : List String := wordsFrom s.toList []

section
variable {spaces word : List Char}

theorem wordsFrom_word (h : ∀ c ∈ word, isWhitespace c = false) (rest before : List Char) :
    wordsFrom (word ++ rest) before = wordsFrom rest (before ++ word) := by
  induction word generalizing before with
  | nil => rw [List.nil_append, List.append_nil]
  | cons c word ih =>
    have hc : ¬ isWhitespace c = true := by simp [h c List.mem_cons_self]
    rw [List.cons_append, wordsFrom, if_neg hc, ih fun d hd => h d (List.mem_cons_of_mem c hd), List.append_assoc,
      List.singleton_append]

theorem wordsFrom_spaces (h : ∀ c ∈ spaces, isWhitespace c = true) (rest : List Char) :
    wordsFrom (spaces ++ rest) [] = wordsFrom rest [] := by
  induction spaces with
  | nil => rfl
  | cons c spaces ih =>
    rw [List.cons_append, wordsFrom, if_pos (h c List.mem_cons_self), if_pos rfl]
    exact ih fun d hd => h d (List.mem_cons_of_mem c hd)

theorem wordsFrom_trailing (h : ∀ c ∈ spaces, isWhitespace c = true) (l before : List Char) :
    wordsFrom (l ++ spaces) before = wordsFrom l before := by
  induction l generalizing before with
  | nil =>
    cases spaces with
    | nil => rfl
    | cons c spaces =>
      have hrest := wordsFrom_spaces (fun d hd => h d (List.mem_cons_of_mem c hd)) []
      rw [List.append_nil] at hrest
      rw [List.nil_append, wordsFrom, wordsFrom, if_pos (h c List.mem_cons_self), hrest]
      rfl
  | cons c l ih => rw [List.cons_append, wordsFrom, wordsFrom, ih, ih]

theorem splitWhitespace_trim (s : String) : splitWhitespace (trim s) = splitWhitespace s := by
  have hstart : wordsFrom (s.toList.dropWhile isWhitespace) [] = wordsFrom s.toList [] := by
    conv_rhs => rw [← List.takeWhile_append_dropWhile (p := isWhitespace) (l := s.toList)]
    exact (wordsFrom_spaces (fun c hc => List.mem_takeWhile_imp hc) _).symm
  have hend : ∀ l : List Char, wordsFrom (l.rdropWhile isWhitespace) [] = wordsFrom l [] := by
    intro l
    have hsplit : l = l.rdropWhile isWhitespace ++ (l.reverse.takeWhile isWhitespace).reverse := by
      rw [List.rdropWhile, ← List.reverse_append, List.takeWhile_append_dropWhile, List.reverse_reverse]
    conv_rhs => rw [hsplit]
    exact (wordsFrom_trailing (fun c hc => List.mem_takeWhile_imp (List.mem_reverse.mp hc)) _ _).symm
  rw [splitWhitespace, splitWhitespace, toList_trim, hend, hstart]

theorem head?_trim {s : String} {c : Char} (h : s.toList.head? = some c) (hc : isWhitespace c = false) :
    (trim s).toList.head? = some c := by
  obtain ⟨l, hl⟩ : ∃ l, s.toList = c :: l := by
    cases hchars : s.toList with
    | nil => simp [hchars] at h
    | cons d l =>
      rw [hchars, List.head?_cons, Option.some.injEq] at h
      exact ⟨l, by rw [h]⟩
  have hdrop : s.toList.dropWhile isWhitespace = c :: l := by
    rw [hl, List.dropWhile_cons_of_neg (by simp [hc])]
  rw [toList_trim, hdrop]
  cases hkept : (c :: l).rdropWhile isWhitespace with
  | nil =>
    have hall := List.rdropWhile_eq_nil_iff.mp hkept c List.mem_cons_self
    rw [hc] at hall
    cases hall
  | cons d kept =>
    have hstart : d :: kept <+: c :: l := hkept ▸ List.rdropWhile_prefix isWhitespace (c :: l)
    rw [(List.cons_prefix_cons.mp hstart).1, List.head?_cons]

theorem splitWhitespace_append {s t : String} (hword : ∀ c ∈ s.toList, isWhitespace c = false) (hne : s ≠ "") :
    splitWhitespace (s ++ "  " ++ t) = s :: splitWhitespace t := by
  have hchars : (s ++ "  " ++ t).toList = s.toList ++ ' ' :: (' ' :: t.toList) := by simp
  have hnil : s.toList ≠ [] := fun h => hne (String.toList_inj.mp h)
  have hspaces : wordsFrom ([' '] ++ t.toList) [] = wordsFrom t.toList [] :=
    wordsFrom_spaces (List.forall_mem_singleton.mpr (by decide)) t.toList
  rw [splitWhitespace, hchars, wordsFrom_word hword, List.nil_append, wordsFrom, if_pos (by decide), if_neg hnil,
    String.ofList_toList]
  exact congrArg (s :: ·) hspaces

end

end Text

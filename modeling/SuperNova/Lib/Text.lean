import Mathlib.Data.List.DropRight
import Mathlib.Data.List.Infix

/-!
# Text helpers

String operations with the meaning they have in Rust's standard library, on lists of characters
so that they evaluate.
-/

namespace Text

/-- the characters with the Unicode property `White_Space` -/
def isWhitespace (c : Char) : Bool :=
  let n := c.toNat
  (9 ≤ n && n ≤ 13) || n == 32 || n == 0x85 || n == 0xA0 || n == 0x1680 ||
    (0x2000 ≤ n && n ≤ 0x200A) || n == 0x2028 || n == 0x2029 || n == 0x202F || n == 0x205F ||
    n == 0x3000

def mapChars (f : Char → Char) (s : String) : String := String.ofList (s.toList.map f)

/-- `str::replace` of one character by another -/
def replaceChar (a b : Char) (s : String) : String := mapChars (fun c => if c = a then b else c) s

/-- drop characters from both ends -/
def trimMatches (f : Char → Bool) (s : String) : String :=
  String.ofList (((s.toList.dropWhile f).reverse.dropWhile f).reverse)

/-- `str::trim` -/
def trim (s : String) : String := trimMatches isWhitespace s

/-- `str::trim_end_matches` of one character -/
def trimEndMatches (c : Char) (s : String) : String := String.ofList (s.toList.rdropWhile (· == c))

/-- only white space -/
def blank (s : String) : Bool := s.toList.all isWhitespace

/-- drop every leading copy of a two-character pattern -/
def trimStartPair (a b : Char) : List Char → List Char
  | x :: y :: rest => if x = a ∧ y = b then trimStartPair a b rest else x :: y :: rest
  | l => l

/-- `str::contains` -/
def contains (s pat : String) : Bool := pat.toList <:+: s.toList

/-- `str::to_ascii_lowercase` -/
def toAsciiLowercase (s : String) : String := mapChars Char.toLower s

/-- `str::split` at one character -/
def splitOn (sep : Char) (s : String) : List String :=
  (s.toList.splitOn sep).map String.ofList

/-- `str::split_once` at one character -/
def splitOnce (sep : Char) (s : String) : Option (String × String) :=
  if sep ∈ s.toList then
    some (String.ofList (s.toList.takeWhile (· ≠ sep)), String.ofList ((s.toList.dropWhile (· ≠ sep)).drop 1))
  else none

/-- `[String]::join` -/
def join (sep : String) : List String → String
  | [] => ""
  | [a] => a
  | a :: l => a ++ sep ++ join sep l

theorem join_cons_cons (sep a b : String) (l : List String) :
    join sep (a :: b :: l) = a ++ sep ++ join sep (b :: l) := rfl

/-- `str::strip_prefix` -/
def stripPrefix (pre s : String) : Option String :=
  if pre.toList <+: s.toList then some (String.ofList (s.toList.drop pre.toList.length)) else none

theorem stripPrefix_append (pre s : String) : stripPrefix pre (pre ++ s) = some s := by
  rw [stripPrefix, String.toList_append, if_pos (List.prefix_append ..), List.drop_left,
    String.ofList_toList]

theorem eq_append_of_stripPrefix {pre s rest : String} (h : stripPrefix pre s = some rest) :
    s = pre ++ rest := by
  unfold stripPrefix at h
  split at h
  · rename_i hpre
    obtain ⟨tail, htail⟩ := hpre
    rw [← htail, List.drop_left, Option.some_inj] at h
    rw [← String.toList_inj, String.toList_append, ← h, String.toList_ofList, htail]
  · cases h

theorem append_ne_append {s s' : String} (c c' : Char) (h : s.toList.head? = some c)
    (h' : s'.toList.head? = some c') (hne : c ≠ c') (t t' : String) : s ++ t ≠ s' ++ t' := by
  intro e
  have e1 := congrArg (fun x : String => x.toList.head?) e
  simp only [String.toList_append, List.head?_append, h, h'] at e1
  exact hne (Option.some.inj e1)

theorem splitOn_append (sep : Char) (s t : String) :
    splitOn sep (s ++ String.ofList [sep] ++ t) = splitOn sep s ++ splitOn sep t := by
  have e : (s ++ String.ofList [sep] ++ t).toList = s.toList ++ sep :: t.toList := by simp
  rw [splitOn, e, List.splitOn_append_cons_self, List.map_append, splitOn, splitOn]

theorem splitOn_pair {sep : Char} {s t : String} (hs : sep ∉ s.toList) (ht : sep ∉ t.toList) :
    splitOn sep (s ++ String.ofList [sep] ++ t) = [s, t] := by
  rw [splitOn_append, splitOn, splitOn, List.splitOn_eq_singleton hs, List.splitOn_eq_singleton ht]
  simp

theorem splitOnce_eq_none {sep : Char} {s : String} : splitOnce sep s = none ↔ sep ∉ s.toList := by
  rw [splitOnce]
  split <;> simp_all

theorem splitOnce_append {sep : Char} {s : String} (t : String) (hs : sep ∉ s.toList) :
    splitOnce sep (s ++ String.ofList [sep] ++ t) = some (s, t) := by
  have hchars : (s ++ String.ofList [sep] ++ t).toList = s.toList ++ sep :: t.toList := by simp
  have hkeep : ∀ c ∈ s.toList, decide (c ≠ sep) = true := fun c hc =>
    decide_eq_true (ne_of_mem_of_not_mem hc hs)
  rw [splitOnce, hchars, if_pos (List.mem_append_right _ List.mem_cons_self),
    List.takeWhile_append_of_pos hkeep, List.dropWhile_append_of_pos hkeep]
  simp

theorem eq_of_splitOnce {sep : Char} {s a b : String} (h : splitOnce sep s = some (a, b)) :
    s = a ++ String.ofList [sep] ++ b ∧ sep ∉ a.toList := by
  have hmem : sep ∈ s.toList := by
    by_contra hnot
    rw [splitOnce_eq_none.mpr hnot] at h
    cases h
  obtain ⟨front, rest, hsplit, hfront⟩ := List.eq_append_cons_of_mem hmem
  have hs : s = String.ofList front ++ String.ofList [sep] ++ String.ofList rest := by
    apply String.toList_injective
    simp [hsplit]
  have hnot : sep ∉ (String.ofList front).toList := by rwa [String.toList_ofList]
  rw [hs, splitOnce_append _ hnot] at h
  obtain ⟨rfl, rfl⟩ := Prod.mk.inj (Option.some.inj h)
  exact ⟨hs, hnot⟩

@[simp] theorem toList_mapChars (f : Char → Char) (s : String) :
    (mapChars f s).toList = s.toList.map f := String.toList_ofList

theorem mapChars_of_fixed {f : Char → Char} {s : String} (h : ∀ c ∈ s.toList, f c = c) :
    mapChars f s = s := by
  have e : s.toList.map f = s.toList := by
    rw [List.map_congr_left h]
    exact List.map_id' _
  rw [mapChars, e]
  exact String.ofList_toList

/-! ## numbers in names -/

theorem toString_inj {m n : Nat} (h : toString m = toString n) : m = n := by
  have hdigits : Nat.toDigits 10 m = Nat.toDigits 10 n := by
    rw [Nat.toString_eq_ofList_toDigits, Nat.toString_eq_ofList_toDigits] at h
    rw [← String.toList_ofList (l := Nat.toDigits 10 m), h, String.toList_ofList]
  rw [← Nat.ofDigitChars_ten_toDigits (n := m), hdigits, Nat.ofDigitChars_ten_toDigits]

theorem append_left_inj {s t t' : String} (h : s ++ t = s ++ t') : t = t' := by
  have hlist := congrArg String.toList h
  rw [String.toList_append, String.toList_append] at hlist
  exact String.toList_injective (List.append_cancel_left hlist)

theorem toList_toString (n : Nat) : (toString n).toList = Nat.toDigits 10 n := by
  rw [Nat.toString_eq_ofList_toDigits, String.toList_ofList]

theorem isDigit_of_mem_toString {n : Nat} {c : Char} (h : c ∈ (toString n).toList) :
    c.isDigit = true := by
  rw [toList_toString] at h
  exact Nat.isDigit_of_mem_toDigits (by decide) (by decide) h

/-! ## trimming -/

theorem toList_trim (s : String) :
    (trim s).toList = (s.toList.dropWhile isWhitespace).rdropWhile isWhitespace := by
  show (String.ofList _).toList = _
  rw [String.toList_ofList]
  rfl

theorem mem_of_mem_trim {c : Char} {s : String} (h : c ∈ (trim s).toList) : c ∈ s.toList := by
  rw [toList_trim] at h
  have hdrop : c ∈ s.toList.dropWhile isWhitespace := (List.rdropWhile_prefix _ _).subset h
  exact (List.dropWhile_suffix _).subset hdrop

theorem dropWhile_rdropWhile (f : Char → Bool) (l : List Char) (h : l.dropWhile f = l) :
    (l.rdropWhile f).dropWhile f = l.rdropWhile f := by
  obtain ⟨tail, htail⟩ := List.rdropWhile_prefix f (l := l)
  cases hcut : l.rdropWhile f with
  | nil => rfl
  | cons c cut =>
    rw [hcut, List.cons_append] at htail
    rw [← htail] at h
    have hc : f c = false := by
      by_contra hne
      rw [List.dropWhile_cons_of_pos (Bool.of_not_eq_false hne)] at h
      have hlength := congrArg List.length h
      have hle := (List.dropWhile_suffix f (l := cut ++ tail)).length_le
      simp only [List.length_cons] at hlength
      omega
    rw [List.dropWhile_cons_of_neg (by simp [hc])]

theorem trim_trim (s : String) : trim (trim s) = trim s := by
  rw [← String.toList_inj, toList_trim, toList_trim]
  rw [dropWhile_rdropWhile _ _ (List.dropWhile_idempotent _ _), List.rdropWhile_idempotent]

theorem blank_iff {s : String} : blank s = true ↔ ∀ c ∈ s.toList, isWhitespace c = true :=
  List.all_eq_true

theorem trim_eq_empty {s : String} : trim s = "" ↔ blank s = true := by
  rw [← String.toList_inj, toList_trim, blank_iff]
  show _ = [] ↔ _
  rw [List.rdropWhile_eq_nil_iff]
  constructor
  · intro h
    apply List.dropWhile_eq_nil_iff.mp
    cases hdrop : s.toList.dropWhile isWhitespace with
    | nil => rfl
    | cons c rest =>
      have hc := List.head?_dropWhile_not isWhitespace s.toList
      rw [hdrop] at h hc
      exact absurd (h c List.mem_cons_self) (by simpa using hc)
  · exact fun h c hc => h c ((List.dropWhile_suffix _).subset hc)

theorem blank_of_trimmed {s : String} (htrim : trim s = s) (hne : s ≠ "") : blank s = false := by
  by_contra h
  exact hne (htrim ▸ trim_eq_empty.mpr (Bool.of_not_eq_false h))

end Text

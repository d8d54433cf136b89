import Mathlib.Data.List.Dedup
import Mathlib.Data.List.Infix
import Mathlib.Data.List.Sort
import SuperNova.Lib.Io

/-!
# A file tree

A path is the list of its components below a fixed top; `p <+: q` says that `q` is `p` or lies
below it.  Two facts carry most arguments about paths:

* `Apart p q`: neither path lies below the other (`Apart.append`: then nothing below one lies
  below the other);
* two prefixes of one path are comparable (`Apart.not_both`).

`Tree N β` is a finite map from paths to entries (a file with its content, or a directory) in
which every entry's parent is a directory: a tree with an orphan cannot be built.  The
operations are those of a POSIX file system; each is given by what it makes of every path
(`erase_entry`, `mkdirs_entry`, `put_entry`, `move_entry`), so that proofs about trees go
pointwise and never look at how a tree is stored.
-/

namespace Paths

variable {N : Type*}

/-- neither path lies at or below the other -/
def Apart (p q : List N) : Prop := ¬ p <+: q ∧ ¬ q <+: p

instance [DecidableEq N] (p q : List N) : Decidable (Apart p q) :=
  inferInstanceAs (Decidable (_ ∧ _))

theorem Apart.symm {p q : List N} (h : Apart p q) : Apart q p := ⟨h.2, h.1⟩

theorem Apart.ne {p q : List N} (h : Apart p q) : p ≠ q := fun e => h.1 (e ▸ List.prefix_rfl)

theorem Apart.ne_nil {p q : List N} (h : Apart p q) : p ≠ [] := fun e => h.1 (e ▸ List.nil_prefix)

theorem Apart.not_both {p q r : List N} (h : Apart p q) (hp : p <+: r) : ¬ q <+: r := fun hq =>
  (List.prefix_or_prefix_of_prefix hp hq).elim h.1 h.2

theorem Apart.mono {p q p' q' : List N} (h : Apart p q) (hp : p <+: p') (hq : q <+: q') :
    Apart p' q' :=
  ⟨fun c => h.not_both (hp.trans c) hq, fun c => h.not_both hp (hq.trans c)⟩

theorem Apart.append {p q : List N} (h : Apart p q) (r s : List N) : Apart (p ++ r) (q ++ s) :=
  h.mono (List.prefix_append ..) (List.prefix_append ..)

theorem apart_append_left {p q r : List N} : Apart (r ++ p) (r ++ q) ↔ Apart p q := by
  simp [Apart, List.prefix_append_right_inj]

theorem apart_of_ne_head {x y : N} (h : x ≠ y) (p q : List N) : Apart (x :: p) (y :: q) := by
  constructor
  · intro c
    exact h (List.cons_prefix_cons.mp c).1
  · intro c
    exact h (List.cons_prefix_cons.mp c).1.symm

theorem not_prefix_of_length {p q : List N} (h : q.length < p.length) : ¬ p <+: q := fun c => by
  have := c.length_le
  omega

theorem apart_or (p q : List N) : Apart p q ∨ p <+: q ∨ q <+: p := by
  by_cases h : p <+: q
  · exact Or.inr (Or.inl h)
  · by_cases h' : q <+: p
    · exact Or.inr (Or.inr h')
    · exact Or.inl ⟨h, h'⟩

theorem exists_of_strict {p q : List N} (h : p <+: q) (hne : p ≠ q) :
    ∃ x r, q = p ++ x :: r := by
  obtain ⟨s, rfl⟩ := h
  cases s with
  | nil => exact absurd (List.append_nil p).symm hne
  | cons x r => exact ⟨x, r, rfl⟩

theorem prefix_concat_iff {p q : List N} {x : N} :
    q <+: p ++ [x] ↔ q = p ++ [x] ∨ q <+: p := List.prefix_concat_iff

theorem prefix_dropLast {p q : List N} (h : q <+: p) : q = p ∨ q <+: p.dropLast := by
  rcases List.eq_nil_or_concat p with rfl | ⟨p', x, rfl⟩
  · exact Or.inl (List.prefix_nil.mp h)
  · rw [List.concat_eq_append] at h ⊢
    rw [List.dropLast_concat]
    exact prefix_concat_iff.mp h

theorem dropLast_above (p : List N) : p.dropLast <+: p := List.dropLast_prefix p

end Paths

namespace FileTree

open Paths

variable {N β : Type}

/-- what a path holds -/
inductive Entry (β : Type) where
  | file (content : β)
  | dir
  deriving DecidableEq, Repr

/-- why an operation of the file system fails -/
inductive Fault where
  | notFound
  | notADirectory
  | isADirectory
  | directoryNotEmpty
  | alreadyExists
  | busy
  | nameTooLong
  | permissionDenied (message : String)
  | invalidInput (message : String)
  | invalidData (message : String)
  deriving DecidableEq, Repr

/-- a file tree: its entries, and a finite list of paths that covers them -/
structure Tree (N β : Type) where
  entry : List N → Option (Entry β)
  paths : List (List N)
  root : entry [] = some .dir
  covered : ∀ p, entry p ≠ none → p ∈ paths
  closed : ∀ p x, entry (p ++ [x]) ≠ none → entry p = some .dir

namespace Tree

/-- the tree with an empty top directory only -/
def empty [DecidableEq N] : Tree N β where
  entry p := if p = [] then some .dir else none
  paths := [[]]
  root := rfl
  covered p h := by
    by_cases e : p = []
    · simp [e]
    · simp [e] at h
  closed p x h := by simp at h

def isDir (t : Tree N β) (p : List N) : Bool :=
  match t.entry p with
  | some .dir => true
  | _ => false

def isFile (t : Tree N β) (p : List N) : Bool :=
  match t.entry p with
  | some (.file _) => true
  | _ => false

def «exists» (t : Tree N β) (p : List N) : Bool := (t.entry p).isSome

/-- the content of the file at `p` -/
def fileAt (t : Tree N β) (p : List N) : Option β :=
  match t.entry p with
  | some (.file c) => some c
  | _ => none

theorem isDir_iff {t : Tree N β} {p : List N} : t.isDir p = true ↔ t.entry p = some .dir := by
  unfold isDir
  split <;> simp_all

theorem isFile_iff {t : Tree N β} {p : List N} :
    t.isFile p = true ↔ ∃ c, t.entry p = some (.file c) := by
  unfold isFile
  split <;> simp_all

theorem exists_iff {t : Tree N β} {p : List N} : t.exists p = true ↔ t.entry p ≠ none := by
  unfold «exists»
  cases t.entry p <;> simp

theorem fileAt_eq_some {t : Tree N β} {p : List N} {c : β} :
    t.fileAt p = some c ↔ t.entry p = some (.file c) := by
  unfold fileAt
  split <;> simp_all

theorem fileAt_congr {t t' : Tree N β} {p : List N} (h : t.entry p = t'.entry p) :
    t.fileAt p = t'.fileAt p := by
  unfold fileAt
  rw [h]

theorem fileAt_of_dir {t : Tree N β} {p : List N} (h : t.entry p = some .dir) :
    t.fileAt p = none := by
  unfold fileAt
  rw [h]

theorem fileAt_of_none {t : Tree N β} {p : List N} (h : t.entry p = none) :
    t.fileAt p = none := by
  unfold fileAt
  rw [h]

theorem dir_above (t : Tree N β) {p : List N} (x : N) (r : List N)
    (h : t.entry (p ++ x :: r) ≠ none) : t.entry p = some .dir := by
  induction r using List.reverseRecOn with
  | nil => exact t.closed p x h
  | append_singleton r y ih =>
    have h1 : t.entry ((p ++ x :: r) ++ [y]) ≠ none := by simpa using h
    have h2 := t.closed _ _ h1
    exact ih (by rw [h2]; simp)

theorem dir_of_strict (t : Tree N β) {p q : List N} (hpq : p <+: q) (hne : p ≠ q)
    (h : t.entry q ≠ none) : t.entry p = some .dir := by
  obtain ⟨x, r, rfl⟩ := exists_of_strict hpq hne
  exact t.dir_above x r h

theorem none_below (t : Tree N β) {p q : List N} (hpq : p <+: q) (hne : p ≠ q)
    (h : t.entry p ≠ some .dir) : t.entry q = none := by
  by_contra c
  exact h (t.dir_of_strict hpq hne c)

theorem none_of_prefix (t : Tree N β) {p q : List N} (hpq : p <+: q) (h : t.entry p = none) :
    t.entry q = none := by
  by_cases e : p = q
  · exact e ▸ h
  · exact t.none_below hpq e (by rw [h]; simp)

/-- no file stands at `p` or above it -/
def NoFileTo (t : Tree N β) (p : List N) : Prop := ∀ q, q <+: p → t.fileAt q = none

/-- the check of `NoFileTo` -/
def noFileTo (t : Tree N β) (p : List N) : Bool := p.inits.all fun q => !t.isFile q

theorem not_isFile_iff {t : Tree N β} {p : List N} : t.isFile p = false ↔ t.fileAt p = none := by
  unfold isFile fileAt
  split <;> simp_all

theorem noFileTo_iff {t : Tree N β} {p : List N} : t.noFileTo p = true ↔ t.NoFileTo p := by
  simp [noFileTo, NoFileTo, List.mem_inits, not_isFile_iff]

theorem NoFileTo.mono {t : Tree N β} {p q : List N} (h : t.NoFileTo p) (hq : q <+: p) :
    t.NoFileTo q := fun r hr => h r (hr.trans hq)

theorem noFileTo_of_dir {t : Tree N β} {p : List N} (h : t.entry p = some .dir) :
    t.NoFileTo p := by
  intro q hq
  by_cases e : q = p
  · exact e ▸ fileAt_of_dir h
  · exact fileAt_of_dir (t.dir_of_strict hq e (by rw [h]; simp))

theorem noFileTo_dropLast {t : Tree N β} {p : List N} (h : t.entry p ≠ none) (hp : p ≠ []) :
    t.NoFileTo p.dropLast := by
  apply noFileTo_of_dir
  apply t.dir_of_strict (dropLast_above p) _ h
  intro e
  have h1 := congrArg List.length e
  have h2 := List.length_pos_iff.mpr hp
  rw [List.length_dropLast] at h1
  omega

/-! ## the operations on trees -/

/-- the tree without what lies at or below `p` (the top directory stays) -/
def erase [DecidableEq N] (t : Tree N β) (p : List N) : Tree N β where
  entry q := if p ≠ [] ∧ p <+: q then none else t.entry q
  paths := t.paths
  root := by
    have h : ¬ (p ≠ [] ∧ p <+: []) := fun h => h.1 (List.prefix_nil.mp h.2)
    rw [if_neg h, t.root]
  covered q h := by
    by_cases c : p ≠ [] ∧ p <+: q
    · rw [if_pos c] at h
      exact absurd rfl h
    · rw [if_neg c] at h
      exact t.covered q h
  closed q x h := by
    by_cases c : p ≠ [] ∧ p <+: q ++ [x]
    · rw [if_pos c] at h
      exact absurd rfl h
    · have c' : ¬ (p ≠ [] ∧ p <+: q) := fun d => c ⟨d.1, d.2.trans (List.prefix_append ..)⟩
      rw [if_neg c] at h
      rw [if_neg c', t.closed q x h]

theorem erase_entry [DecidableEq N] (t : Tree N β) (p q : List N) :
    (t.erase p).entry q = if p ≠ [] ∧ p <+: q then none else t.entry q := rfl

/-- the tree with a directory at `p` and above it -/
def mkdirs [DecidableEq N] (t : Tree N β) (p : List N) : Tree N β where
  entry q := if q <+: p then some .dir else t.entry q
  paths := p.inits ++ t.paths
  root := if_pos List.nil_prefix
  covered q hq := by
    by_cases c : q <+: p
    · exact List.mem_append_left _ ((List.mem_inits ..).mpr c)
    · rw [if_neg c] at hq
      exact List.mem_append_right _ (t.covered q hq)
  closed q x hq := by
    by_cases c : q <+: p
    · exact if_pos c
    · have c' : ¬ q ++ [x] <+: p := fun d => c ((List.prefix_append ..).trans d)
      rw [if_neg c'] at hq
      rw [if_neg c, t.closed q x hq]

theorem mkdirs_entry [DecidableEq N] (t : Tree N β) (p q : List N) :
    (t.mkdirs p).entry q = if q <+: p then some .dir else t.entry q := rfl

/-- the tree with the file `c` at `p`, whose parent is a directory -/
def put [DecidableEq N] (t : Tree N β) (p : List N) (c : β) (hp : p ≠ [])
    (hd : t.entry p.dropLast = some .dir) (hn : t.entry p ≠ some .dir) : Tree N β where
  entry q := if q = p then some (.file c) else t.entry q
  paths := p :: t.paths
  root := by rw [if_neg (Ne.symm hp), t.root]
  covered q hq := by
    by_cases e : q = p
    · exact e ▸ List.mem_cons_self
    · rw [if_neg e] at hq
      exact List.mem_cons_of_mem _ (t.covered q hq)
  closed q x hq := by
    have hne : q ≠ p := by
      rintro rfl
      have e : q ++ [x] ≠ q := by simp
      rw [if_neg e] at hq
      exact hn (t.closed q x hq)
    rw [if_neg hne]
    by_cases e : q ++ [x] = p
    · subst e
      rwa [List.dropLast_concat] at hd
    · rw [if_neg e] at hq
      exact t.closed q x hq

theorem put_entry [DecidableEq N] (t : Tree N β) (p : List N) (c : β) (hp : p ≠ [])
    (hd : t.entry p.dropLast = some .dir) (hn : t.entry p ≠ some .dir) (q : List N) :
    (t.put p c hp hd hn).entry q = if q = p then some (.file c) else t.entry q := rfl

/-- the tree with what lay below `src` moved to `dst` -/
def move [DecidableEq N] (t : Tree N β) (src dst : List N) (hs : ¬ src <+: dst)
    (hd : t.entry dst.dropLast = some .dir) (hdst : dst ≠ []) : Tree N β where
  entry q :=
    if dst <+: q then t.entry (src ++ q.drop dst.length)
    else if src <+: q then none else t.entry q
  paths := t.paths ++ t.paths.map fun q => dst ++ q.drop src.length
  root := by
    have h1 : ¬ dst <+: [] := fun c => hdst (List.prefix_nil.mp c)
    have h2 : ¬ src <+: [] := fun c => hs (List.prefix_nil.mp c ▸ List.nil_prefix)
    rw [if_neg h1, if_neg h2, t.root]
  covered q hq := by
    by_cases c : dst <+: q
    · rw [if_pos c] at hq
      obtain ⟨r, rfl⟩ := c
      rw [List.drop_left] at hq
      refine List.mem_append_right _ (List.mem_map.mpr ⟨_, t.covered _ hq, ?_⟩)
      rw [List.drop_left]
    · rw [if_neg c] at hq
      by_cases c' : src <+: q
      · rw [if_pos c'] at hq
        exact absurd rfl hq
      · rw [if_neg c'] at hq
        exact List.mem_append_left _ (t.covered q hq)
  closed q x hq := by
    by_cases c : dst <+: q
    · have c' : dst <+: q ++ [x] := c.trans (List.prefix_append ..)
      rw [if_pos c'] at hq
      rw [if_pos c]
      obtain ⟨r, rfl⟩ := c
      rw [List.append_assoc, List.drop_left, ← List.append_assoc] at hq
      rw [List.drop_left]
      exact t.closed _ _ hq
    · rw [if_neg c]
      by_cases c' : dst <+: q ++ [x]
      · have e : dst = q ++ [x] := (prefix_concat_iff.mp c').resolve_right c
        have hq' : t.entry q = some .dir := by rwa [e, List.dropLast_concat] at hd
        have hs' : ¬ src <+: q := fun d => hs (e ▸ d.trans (List.prefix_append ..))
        rw [if_neg hs', hq']
      · rw [if_neg c'] at hq
        by_cases d : src <+: q ++ [x]
        · rw [if_pos d] at hq
          exact absurd rfl hq
        · rw [if_neg d] at hq
          have d' : ¬ src <+: q := fun e => d (e.trans (List.prefix_append ..))
          rw [if_neg d', t.closed q x hq]

/-- the names directly below `p`, in order -/
def children [LinearOrder N] (t : Tree N β) (p : List N) : List N :=
  (((t.paths.filterMap fun q => if q.dropLast = p then q.getLast? else none).dedup).filter
    fun x => (t.entry (p ++ [x])).isSome).insertionSort (· ≤ ·)

theorem mem_children [LinearOrder N] {t : Tree N β} {p : List N} {x : N} :
    x ∈ t.children p ↔ t.entry (p ++ [x]) ≠ none := by
  rw [children, List.mem_insertionSort, List.mem_filter, List.mem_dedup, Option.isSome_iff_ne_none]
  constructor
  · exact fun h => h.2
  · intro h
    refine ⟨List.mem_filterMap.mpr ⟨p ++ [x], t.covered _ h, ?_⟩, h⟩
    rw [List.dropLast_concat, if_pos rfl, List.getLast?_concat]

theorem nodup_children [LinearOrder N] (t : Tree N β) (p : List N) : (t.children p).Nodup :=
  (List.perm_insertionSort _ _).nodup_iff.mpr ((List.nodup_dedup _).filter _)

/-- no entry lies deeper than this -/
def depth (t : Tree N β) : Nat := (t.paths.map List.length).foldr max 0

theorem length_le_depth (t : Tree N β) {p : List N} (h : t.entry p ≠ none) :
    p.length ≤ t.depth := by
  have key : ∀ l : List (List N), p ∈ l → p.length ≤ (l.map List.length).foldr max 0 := by
    intro l
    induction l with
    | nil => exact fun h => absurd h List.not_mem_nil
    | cons a l ih =>
      intro h
      rw [List.map_cons, List.foldr_cons]
      rcases List.mem_cons.mp h with rfl | h
      · exact le_max_left ..
      · exact (ih h).trans (le_max_right ..)
  exact key t.paths (t.covered p h)

end Tree

end FileTree

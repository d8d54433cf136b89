import SuperNova.Lib.FileTree

/-!
# The calls of a file system

Each call is a program over a tree: it fails as the POSIX call does and then leaves the tree
alone, or it succeeds and its `_ok` lemma says what every path holds afterwards.  The `_total`
lemmas say when a call succeeds.
-/

namespace FileTree

open Paths Io

variable {N β : Type}

/-- a program over a tree -/
abbrev Fs (N β α : Type) := EStateM Fault (Tree N β) α

section
variable [DecidableEq N]

/-- `mkdir -p`: fails where a file stands at the path or above it -/
def createDirAll (p : List N) : Fs N β Unit := step fun t =>
  if t.noFileTo p then .ok (t.mkdirs p)
  else .error (if t.isFile p then .alreadyExists else .notADirectory)

/-- create or replace the file `p`, in a directory that exists -/
def write (p : List N) (c : β) : Fs N β Unit := step fun t =>
  if h : p ≠ [] ∧ t.isDir p.dropLast = true ∧ t.isDir p = false then
    .ok (t.put p c h.1 (Tree.isDir_iff.mp h.2.1)
      (fun e => by rw [Tree.isDir_iff.mpr e] at h; exact absurd h.2.2 (by simp)))
  else .error (if t.isDir p then .isADirectory else .notFound)

def read (p : List N) : Fs N β β := fun t =>
  match t.entry p with
  | some (.file c) => .ok c t
  | some .dir => .error .isADirectory t
  | none => .error .notFound t

def removeFile (p : List N) : Fs N β Unit := step fun t =>
  if t.isFile p then .ok (t.erase p)
  else .error (if t.isDir p then .isADirectory else .notFound)

def removeDirAll (p : List N) : Fs N β Unit := step fun t =>
  if p = [] then .error .busy
  else if t.isDir p then .ok (t.erase p)
  else .error (if t.isFile p then .notADirectory else .notFound)

/-- copy a file's content: the destination is opened and truncated before the source is read -/
def copyFile [EmptyCollection β] (src dst : List N) : Fs N β Unit := do
  let _ ← read src
  write dst ∅
  let c ← read src
  write dst c

end

/-- `rename(2)` -/
def rename [LinearOrder N] (src dst : List N) : Fs N β Unit := step fun t =>
  if h : ¬ src <+: dst ∧ t.isDir dst.dropLast = true ∧ dst ≠ [] then
    match t.entry src, t.entry dst with
    | none, _ => .error .notFound
    | some (.file _), some .dir => .error .isADirectory
    | some .dir, some (.file _) => .error .notADirectory
    | some _, _ =>
      if t.children dst = [] then .ok (t.move src dst h.1 (Tree.isDir_iff.mp h.2.1) h.2.2)
      else .error .directoryNotEmpty
  else if !t.exists src then .error .notFound
  else if src = dst then .ok t
  else if src <+: dst then .error (.invalidInput "Invalid argument")
  else .error .notFound

/-! ## what the calls do -/

section
variable [DecidableEq N] {t t' : Tree N β}

theorem createDirAll_ok {p : List N} {u : Unit} :
    Ok (createDirAll p) t u t' ↔ t.NoFileTo p ∧ t' = t.mkdirs p := by
  rw [createDirAll, step_ok, ← Tree.noFileTo_iff]
  cases h : t.noFileTo p
  · simp
  · simp [eq_comm]

theorem createDirAll_err {p : List N} {e : Fault} (h : Err (createDirAll p) t e t') :
    ¬ t.NoFileTo p ∧ t' = t := by
  unfold Err createDirAll step at h
  by_cases c : t.noFileTo p = true
  · simp [c] at h
  · simp only [c] at h
    cases h
    exact ⟨fun d => c (Tree.noFileTo_iff.mpr d), rfl⟩

theorem write_ok {p : List N} {c : β} {u : Unit} (h : Ok (write p c) t u t') :
    p ≠ [] ∧ t.entry p.dropLast = some .dir ∧ t.entry p ≠ some .dir ∧
      ∀ q, t'.entry q = if q = p then some (.file c) else t.entry q := by
  rw [write, step_ok] at h
  by_cases hc : p ≠ [] ∧ t.isDir p.dropLast = true ∧ t.isDir p = false
  · rw [dif_pos hc] at h
    cases h
    refine ⟨hc.1, Tree.isDir_iff.mp hc.2.1, ?_, fun q => rfl⟩
    intro e
    rw [Tree.isDir_iff.mpr e] at hc
    exact absurd hc.2.2 (by simp)
  · rw [dif_neg hc] at h
    cases h

theorem write_total {p : List N} (c : β) (hp : p ≠ []) (hd : t.entry p.dropLast = some .dir)
    (hn : t.entry p ≠ some .dir) : ∃ t', Ok (write p c) t () t' := by
  have h2 : t.isDir p = false := by
    cases e : t.isDir p
    · rfl
    · exact absurd (Tree.isDir_iff.mp e) hn
  refine ⟨t.put p c hp hd hn, ?_⟩
  rw [write, step_ok, dif_pos ⟨hp, Tree.isDir_iff.mpr hd, h2⟩]

omit [DecidableEq N] in
theorem read_ok {p : List N} {c : β} :
    Ok (read p) t c t' ↔ t.entry p = some (.file c) ∧ t' = t := by
  unfold Ok read
  rcases t.entry p with _ | (c' | _)
  · simp
  · simp [eq_comm (b := t')]
  · simp

theorem removeFile_ok {p : List N} {u : Unit} :
    Ok (removeFile p) t u t' ↔ t.isFile p = true ∧ t' = t.erase p := by
  rw [removeFile, step_ok]
  cases t.isFile p
  · simp
  · simp [eq_comm (b := t')]

theorem removeDirAll_ok {p : List N} {u : Unit} :
    Ok (removeDirAll p) t u t' ↔ p ≠ [] ∧ t.isDir p = true ∧ t' = t.erase p := by
  rw [removeDirAll, step_ok]
  by_cases hp : p = []
  · simp [hp]
  · cases t.isDir p
    · simp [hp]
    · simp [hp, eq_comm ]

section
variable [EmptyCollection β]

theorem copyFile_ok {src dst : List N} {u : Unit} (hne : src ≠ dst)
    (h : Ok (copyFile src dst) t u t') :
    ∃ c, t.entry src = some (.file c) ∧ dst ≠ [] ∧ t.entry dst.dropLast = some .dir ∧
      t.entry dst ≠ some .dir ∧ ∀ q, t'.entry q = if q = dst then some (.file c) else t.entry q := by
  obtain ⟨c, _, h0, ha⟩ := bind_ok.mp h
  obtain ⟨hc, rfl⟩ := read_ok.mp h0
  obtain ⟨_, t1, h1, hb⟩ := bind_ok.mp ha
  obtain ⟨c', _, h2, h3⟩ := bind_ok.mp hb
  obtain ⟨hc', rfl⟩ := read_ok.mp h2
  obtain ⟨hp, hd, hn, e1⟩ := write_ok h1
  obtain ⟨-, -, -, e3⟩ := write_ok h3
  rw [e1, if_neg hne, hc] at hc'
  cases hc'
  refine ⟨c, hc, hp, hd, hn, fun q => ?_⟩
  rw [e3, e1]
  by_cases e : q = dst <;> simp [e]

theorem copyFile_total {src dst : List N} {c : β} (hne : src ≠ dst)
    (hs : t.entry src = some (.file c)) (hp : dst ≠ []) (hd : t.entry dst.dropLast = some .dir)
    (hn : t.entry dst ≠ some .dir) : ∃ t', Ok (copyFile src dst) t () t' := by
  obtain ⟨t1, h1⟩ := write_total (∅ : β) hp hd hn
  obtain ⟨-, -, -, e1⟩ := write_ok h1
  have hs1 : t1.entry src = some (.file c) := by rw [e1, if_neg hne, hs]
  have hd1 : t1.entry dst.dropLast = some .dir := by
    have e : dst.dropLast ≠ dst := fun e => by
      have h1 := congrArg List.length e
      have h2 := List.length_pos_iff.mpr hp
      rw [List.length_dropLast] at h1
      omega
    rw [e1, if_neg e, hd]
  have hn1 : t1.entry dst ≠ some .dir := by rw [e1, if_pos rfl]; simp
  obtain ⟨t2, h2⟩ := write_total c hp hd1 hn1
  refine ⟨t2, ?_⟩
  refine bind_ok.mpr ⟨c, t, read_ok.mpr ⟨hs, rfl⟩, ?_⟩
  refine bind_ok.mpr ⟨(), t1, h1, ?_⟩
  exact bind_ok.mpr ⟨c, t1, read_ok.mpr ⟨hs1, rfl⟩, h2⟩

end

end

section
variable [LinearOrder N] {t t' : Tree N β} {src dst : List N}

theorem rename_ok {u : Unit} (h : Ok (rename src dst) t u t') :
    t.entry src ≠ none ∧ ((src = dst ∧ t' = t) ∨
      (¬ src <+: dst ∧ t.entry dst.dropLast = some .dir ∧ dst ≠ [] ∧
        ∀ q, t'.entry q = if dst <+: q then t.entry (src ++ q.drop dst.length)
          else if src <+: q then none else t.entry q)) := by
  rw [rename, step_ok] at h
  by_cases hc : ¬ src <+: dst ∧ t.isDir dst.dropLast = true ∧ dst ≠ []
  · rw [dif_pos hc] at h
    have hm : ∀ q, (t.move src dst hc.1 (Tree.isDir_iff.mp hc.2.1) hc.2.2).entry q =
        if dst <+: q then t.entry (src ++ q.drop dst.length)
        else if src <+: q then none else t.entry q := fun q => rfl
    split at h
    · cases h
    · cases h
    · cases h
    · rename_i hs _ _
      by_cases hch : t.children dst = []
      · rw [if_pos hch] at h
        cases h
        refine ⟨by rw [hs]; simp, Or.inr ⟨hc.1, Tree.isDir_iff.mp hc.2.1, hc.2.2, hm⟩⟩
      · rw [if_neg hch] at h
        cases h
  · rw [dif_neg hc] at h
    split at h
    · cases h
    · rename_i hx
      have hx' : t.entry src ≠ none := Tree.exists_iff.mp (by simpa using hx)
      split at h
      · rename_i e
        cases h
        exact ⟨hx', Or.inl ⟨e, rfl⟩⟩
      · split at h <;> cases h

theorem rename_total (hs : t.entry src ≠ none) (hnp : ¬ src <+: dst)
    (hd : t.entry dst.dropLast = some .dir) (hdst : dst ≠ []) (hf : t.entry dst = none) :
    Ok (rename src dst) t () (t.move src dst hnp hd hdst) := by
  have hch : t.children dst = [] := by
    rw [List.eq_nil_iff_forall_not_mem]
    intro x hx
    exact Tree.mem_children.mp hx (t.none_of_prefix (List.prefix_append ..) hf)
  rw [rename, step_ok, dif_pos ⟨hnp, Tree.isDir_iff.mpr hd, hdst⟩]
  cases e : t.entry src with
  | none => exact absurd e hs
  | some v => cases v <;> simp [hf, hch]

end

end FileTree

import SuperNova.Os.Overlap

/-!
# What a copy leaves at its destination

`copy_path_recursive` creates the destination before it lists the source, so it recurses over a tree
it is changing.  A copy to a free path runs out of levels or ends: nothing in it can fail
(`copyLevels_ends`).  It never ends exactly when a directory is copied below itself.

* `copiesExactly_iff` (**main**): a copy between any two paths ends, and leaves an exact copy when it
  succeeds, except for a directory copied below itself;
* `nested_copy_endless`: a directory copied to a path below it.
-/

set_option linter.unusedSectionVars false

namespace Os

open Paths Io FileTree Workspace

/-- what `copy_like` does at the destination before it copies -/
def makeRoom (destination : Path) : DiskM Unit := do
  createDirAll destination.dropLast
  removeIfExists destination

/-- the copy ends within some number of levels -/
def Terminates (source destination : Path) (t : Disk) : Prop :=
  ∃ fuel, ∀ t', ¬ Err (copyLevels fuel source destination) t .nameTooLong t'

/-- a copy ends, and when it succeeds the destination is the source as it was before -/
structure CopiesExactly (source destination : Path) (t : Disk) : Prop where
  intro ::
  terminates : ∀ t1, Ok (makeRoom destination) t () t1 → Terminates source destination t1
  exact : ∀ t1 fuel t2, Ok (makeRoom destination) t () t1 →
    Ok (copyLevels fuel source destination) t1 () t2 → ∀ r, t2.entry (destination ++ r) = t.entry (source ++ r)

/-- the source is copied to a path below it, and no file is above that one: the source is a directory -/
def CopiedIntoItself (source destination : Path) (t : Disk) : Prop :=
  source <+: destination ∧ source ≠ destination ∧ t.NoFileTo destination.dropLast

section
variable {t t1 t2 t' : Disk} {source destination q : Path} {fuel : Nat}

/-! ## before the copy -/

theorem makeRoom_ok (h : Ok (makeRoom destination) t () t1) :
    t.NoFileTo destination.dropLast ∧ destination ≠ [] ∧ t1.entry destination = none ∧
      t1.NoFileTo destination.dropLast ∧
      ∀ q, t1.entry q = if destination <+: q then none else if q <+: destination then some .dir else t.entry q := by
  obtain ⟨_, t', h1, h2⟩ := bind_ok.mp h
  have hne : destination ≠ [] := by
    rintro rfl
    have hroot := removeIfExists_ok h2 []
    rw [if_pos List.prefix_rfl, t1.root] at hroot
    cases hroot
  obtain ⟨hno, hfree, hno1, he⟩ := prepared_ok h1 h2 hne
  exact ⟨hno, hne, hfree, hno1, he⟩

theorem makeRoom_total (hne : destination ≠ []) (hno : t.NoFileTo destination.dropLast) :
    ∃ t1, Ok (makeRoom destination) t () t1 := by
  have h1 : Ok (createDirAll destination.dropLast : DiskM Unit) t () _ :=
    createDirAll_ok.mpr ⟨hno, rfl⟩
  obtain ⟨t1, h2⟩ := removeIfExists_total (t.mkdirs destination.dropLast) hne
  exact ⟨t1, bind_ok.mpr ⟨(), _, h1, h2⟩⟩

/-! ## the levels of a copy -/

theorem copyLevels_mono (more : Nat) : ∀ (fuel : Nat) (t t' : Disk) (source destination : Path),
    Ok (copyLevels fuel source destination) t () t' → Ok (copyLevels (fuel + more) source destination) t () t' := by
  intro fuel
  induction fuel with
  | zero => exact fun t t' source destination h => by cases h
  | succ fuel ih =>
    intro t t' source destination h
    rw [Nat.add_right_comm]
    rcases e : t.entry source with _ | (c | _)
    · exact absurd h (copyLevels_none e)
    · exact (copyLevels_succ_file e).mpr ((copyLevels_succ_file e).mp h)
    · obtain ⟨hno, h⟩ := (copyLevels_succ_dir e).mp h
      refine (copyLevels_succ_dir e).mpr ⟨hno, forM_ok_mono _ (fun x _ s s' hx => ?_) h⟩
      exact ih s s' _ _ hx

theorem copyLevels_grafted (ha : Apart source destination) (hfree : t.entry destination = none)
    (hno : t.NoFileTo destination.dropLast) (h : Ok (copyLevels fuel source destination) t () t') :
    Grafted t t' source destination := by
  have hs : t.entry source ≠ none := fun e => copyLevels_none e h
  have hdeep : ∀ r, t.entry (source ++ r) ≠ none → r.length < fuel + (t.depth + 1) := by
    intro r hr
    have := t.length_le_depth hr
    rw [List.length_append] at this
    omega
  obtain ⟨t1, h1, hg⟩ := copyLevels_total _ t source destination ha hs hdeep hfree hno
  have hsame := (copyLevels_mono (t.depth + 1) fuel t t' source destination h).symm.trans h1
  cases hsame
  exact hg

/-- nothing but what is at the destination and the directories above it is changed -/
def SparesOthers (t t' : Disk) (destination : Path) : Prop :=
  ∀ q, ¬ destination <+: q → t'.entry q = if q <+: destination then some .dir else t.entry q

theorem sparesOthers_of_grafted (h : Grafted t t' source destination) : SparesOthers t t' destination :=
  fun q hq => by rw [h, if_neg hq]

/-- the state of the loop of a copy: only at the names in `done` is anything new -/
def AddedNames (t s : Disk) (destination : Path) (done : List String) : Prop :=
  ∀ q, (∀ x ∈ done, ¬ destination ++ [x] <+: q) → s.entry q = (t.mkdirs destination).entry q

section
variable {s s' : Disk} {done : List String} {x : String}

theorem AddedNames.step (h : AddedNames t s destination done) (hx : SparesOthers s s' (destination ++ [x])) :
    AddedNames t s' destination (done ++ [x]) := by
  intro q hq
  have hqx : ¬ destination ++ [x] <+: q := hq x (by simp)
  have hold := h q fun y hy => hq y (List.mem_append_left _ hy)
  rw [hx q hqx]
  by_cases hqd : q <+: destination ++ [x]
  · have habove : q <+: destination := (prefix_concat_iff.mp hqd).resolve_left fun e =>
      hqx (e ▸ List.prefix_rfl)
    rw [if_pos hqd, Tree.mkdirs_entry, if_pos habove]
  · rw [if_neg hqd, hold]

theorem AddedNames.dir (h : AddedNames t s destination done) : s.entry destination = some .dir := by
  rw [h destination fun x _ hx => not_prefix_of_length (by simp) hx, Tree.mkdirs_entry,
    if_pos List.prefix_rfl]

theorem AddedNames.free (h : AddedNames t s destination done) (hx : x ∉ done)
    (hfree : t.entry destination = none) : s.entry (destination ++ [x]) = none := by
  have hnot : ∀ y ∈ done, ¬ destination ++ [y] <+: destination ++ [x] := by
    intro y hy hyx
    rw [List.prefix_append_right_inj, List.cons_prefix_cons] at hyx
    exact hx (hyx.1 ▸ hy)
  have hbelow : ¬ destination ++ [x] <+: destination := not_prefix_of_length (by simp)
  rw [h _ hnot, Tree.mkdirs_entry, if_neg hbelow, t.none_of_prefix (List.prefix_append ..) hfree]

theorem AddedNames.listed (h : AddedNames t s destination done) (hs : t.entry source ≠ none)
    (hfree : t.entry destination = none) (hx : (t.mkdirs destination).entry (source ++ [x]) ≠ none) :
    s.entry (source ++ [x]) ≠ none := by
  have hnot : ∀ y ∈ done, ¬ destination ++ [y] <+: source ++ [x] := by
    intro y _ hyx
    have hbelow : destination <+: source := by
      have hle := hyx.length_le
      simp only [List.length_append, List.length_singleton] at hle
      exact List.prefix_of_prefix_length_le ((List.prefix_append ..).trans hyx) (List.prefix_append ..) (by omega)
    exact hs (t.none_of_prefix hbelow hfree)
  rwa [h _ hnot]

end

theorem AddedNames.spares {s : Disk} {done : List String} (h : AddedNames t s destination done) :
    SparesOthers t s destination := by
  intro q hq
  rw [h q fun x _ hx => hq ((List.prefix_append ..).trans hx), Tree.mkdirs_entry]

/-- **a copy to a free path ends well or runs out of levels** -/
theorem copyLevels_ends (fuel : Nat) : ∀ (t : Disk) (source destination : Path),
    t.entry source ≠ none → t.entry destination = none → t.NoFileTo destination.dropLast →
    (∃ t', Ok (copyLevels fuel source destination) t () t' ∧ SparesOthers t t' destination) ∨
      ∃ t', Err (copyLevels fuel source destination) t .nameTooLong t' := by
  induction fuel with
  | zero => exact fun t source destination _ _ _ => Or.inr ⟨t, rfl⟩
  | succ fuel ih =>
    intro t source destination hs hfree hno
    rcases e : t.entry source with _ | (c | _)
    · exact absurd e hs
    · have ha : Apart source destination := by
        rcases apart_or source destination with ha | hp | hp
        · exact ha
        · rcases prefix_dropLast hp with rfl | hp
          · exact absurd hfree hs
          · have hfile := hno source hp
            rw [Tree.fileAt_eq_some.mpr e] at hfile
            cases hfile
        · exact absurd (t.none_of_prefix hp hfree) hs
      obtain ⟨t', h, hg⟩ := copyFile_grafted ha e hfree
      exact Or.inl ⟨t', (copyLevels_succ_file e).mpr ⟨hno, h⟩, sparesOthers_of_grafted hg⟩
    · have hno' : t.NoFileTo destination := fun q hq => by
        rcases prefix_dropLast hq with rfl | hq
        · exact Tree.fileAt_of_none hfree
        · exact hno q hq
      have hloop := forM_ends (f := fun name => copyLevels fuel (source ++ [name]) (destination ++ [name]))
        (fun done s => AddedNames t s destination done) (.nameTooLong : Fault)
        ((t.mkdirs destination).children source) [] (t.mkdirs destination)
        (fun q _ => rfl) (by
          intro d x r s hdx hadded
          rw [List.nil_append] at hdx
          have hxd : x ∉ d := by
            have hnd := Tree.nodup_children (t.mkdirs destination) source
            rw [hdx, List.nodup_append] at hnd
            exact fun c => hnd.2.2 x c x List.mem_cons_self rfl
          have hlisted : (t.mkdirs destination).entry (source ++ [x]) ≠ none :=
            Tree.mem_children.mp (by rw [hdx]; simp)
          have hnox : s.NoFileTo (destination ++ [x]).dropLast := by
            rw [List.dropLast_concat]
            exact Tree.noFileTo_of_dir hadded.dir
          rcases ih s (source ++ [x]) (destination ++ [x]) (hadded.listed hs hfree hlisted)
            (hadded.free hxd hfree) hnox with ⟨s', h, hspares⟩ | herr
          · exact Or.inl ⟨s', h, hadded.step hspares⟩
          · exact Or.inr herr)
      rcases hloop with ⟨t', h, hadded⟩ | ⟨t', h⟩
      · exact Or.inl ⟨t', (copyLevels_succ_dir e).mpr ⟨hno', h⟩, hadded.spares⟩
      · exact Or.inr ⟨t', copyLevels_succ_dir_err e hno' h⟩

/-! ## exactness -/

theorem terminates_of_missing (hs : t.entry source = none) : Terminates source destination t := by
  refine ⟨t.depth + 1, fun t' h => ?_⟩
  cases (copyPathRecursive_missing hs).symm.trans h

theorem terminates_of_apart (ha : Apart source destination) (hfree : t.entry destination = none)
    (hno : t.NoFileTo destination.dropLast) : Terminates source destination t := by
  by_cases hs : t.entry source = none
  · exact terminates_of_missing hs
  · obtain ⟨t1, h1, -⟩ := copyPathRecursive_total ha hs hfree hno
    refine ⟨t.depth + 1, fun t' h => ?_⟩
    cases h1.symm.trans h

theorem not_terminates_of_nested (hs : t.entry source = some .dir) (hbelow : source <+: destination)
    (hne : source ≠ destination) (hfree : t.entry destination = none)
    (hno : t.NoFileTo destination.dropLast) : ¬ Terminates source destination t := by
  rintro ⟨fuel, hends⟩
  rcases copyLevels_ends fuel t source destination (by simp [hs]) hfree hno with ⟨t', h, -⟩ | ⟨t', h⟩
  · obtain ⟨x, r, rfl⟩ := exists_of_strict hbelow hne
    exact copyLevels_nested fuel t t' source x r () hs h
  · exact hends t' h

theorem makeRoom_source (ha : Apart source destination) (h : Ok (makeRoom destination) t () t1) (r : Path) :
    t1.entry (source ++ r) = t.entry (source ++ r) := by
  have ha' := ha.append r []
  rw [List.append_nil] at ha'
  rw [(makeRoom_ok h).2.2.2.2, if_neg ha'.2, if_neg ha'.1]

theorem copiesExactly_of_apart (ha : Apart source destination) : CopiesExactly source destination t := by
  refine ⟨fun t1 hroom => ?_, fun t1 fuel t2 hroom h r => ?_⟩
  · obtain ⟨-, -, hfree, hno, -⟩ := makeRoom_ok hroom
    exact terminates_of_apart ha hfree hno
  · obtain ⟨-, -, hfree, hno, -⟩ := makeRoom_ok hroom
    rw [(copyLevels_grafted ha hfree hno h).below, makeRoom_source ha hroom]

theorem copiesExactly_of_missing (hs : ∀ t1, Ok (makeRoom destination) t () t1 → t1.entry source = none) :
    CopiesExactly source destination t :=
  ⟨fun t1 hroom => terminates_of_missing (hs t1 hroom),
    fun t1 _ _ hroom h => absurd h (copyLevels_none (hs t1 hroom))⟩

theorem CopiedIntoItself.not_copiesExactly (h : CopiedIntoItself source destination t) :
    ¬ CopiesExactly source destination t := by
  obtain ⟨hbelow, hne, hno⟩ := h
  intro hexact
  have hroot : destination ≠ [] := by
    rintro rfl
    exact hne (List.prefix_nil.mp hbelow)
  obtain ⟨t1, hroom⟩ := makeRoom_total hroot hno
  obtain ⟨-, -, hfree, hno1, he⟩ := makeRoom_ok hroom
  have hnot : ¬ destination <+: source := fun h =>
    hne (hbelow.eq_of_length (Nat.le_antisymm hbelow.length_le h.length_le))
  have hs1 : t1.entry source = some .dir := by rw [he, if_neg hnot, if_pos hbelow]
  exact not_terminates_of_nested hs1 hbelow hne hfree hno1 (hexact.terminates t1 hroom)

/-- **a copy ends, exactly and completely when it succeeds, unless a directory is copied below
itself** -/
theorem copiesExactly_iff (source destination : Path) (t : Disk) :
    CopiesExactly source destination t ↔ ¬ CopiedIntoItself source destination t := by
  refine ⟨fun hexact h => h.not_copiesExactly hexact, fun hnot => ?_⟩
  rcases apart_or source destination with ha | hbelow | habove
  · exact copiesExactly_of_apart ha
  · apply copiesExactly_of_missing
    intro t1 hroom
    obtain ⟨hno, -, hfree, -, he⟩ := makeRoom_ok hroom
    by_cases hne : source = destination
    · rw [hne, hfree]
    · exact absurd ⟨hbelow, hne, hno⟩ hnot
  · apply copiesExactly_of_missing
    intro t1 hroom
    rw [(makeRoom_ok hroom).2.2.2.2, if_pos habove]

end

/-- a workspace with an empty directory -/
def oneDirectory : Disk := (Tree.empty : Disk).mkdirs ["a"]

/-- copying the directory to a path below it never ends -/
theorem nested_copy_endless : ¬ CopiesExactly ["a"] ["a", "b"] oneDirectory := by
  apply CopiedIntoItself.not_copiesExactly
  exact ⟨by decide, by decide, Tree.noFileTo_iff.mp (by decide +kernel)⟩

end Os

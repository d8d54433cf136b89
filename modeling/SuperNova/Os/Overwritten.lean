import SuperNova.Os.Extracted
import SuperNova.Os.RoundTrip

/-!
# What unpacking leaves

Entries are written one after another, whatever their targets are.

* `unpackAll_iff`: they are all written exactly when nothing stands in the way of them, nor they of each other;
* `fileAt_unpackAll`: at a target there is what was written there last;
* `readEntriesOn_ok`: a file system that takes some paths only unpacks what it takes.
-/

set_option linter.unusedSectionVars false

namespace Os

open Paths Io FileTree Workspace

section
variable {t t' : Disk} {p q archive destination : Path} {bytes content data : Bytes} {w : Path × Bytes}
  {writes : List (Path × Bytes)} {takes : Path → Bool} {n : Nat}

/-! ## writes in a row -/

theorem free_before (hfree : Free t p) (h : Ok (writeAt p data) t () t') (hlater : Free t' q) :
    Free t q ∧ (p = q ∨ Apart p q) := by
  obtain ⟨-, hno, -, he⟩ := writeAt_ok h
  have hfile : t'.fileAt p = some data := Tree.fileAt_eq_some.mpr (by rw [he, if_pos rfl])
  have hbelow : p <+: q → p = q := fun hpq => (prefix_dropLast hpq).resolve_right fun habove => by
    rw [hlater.1 p habove] at hfile
    cases hfile
  have habove : q <+: p → p = q := fun hqp => by
    by_contra hne
    exact hlater.2 (by rw [he, if_neg (Ne.symm hne), if_pos hqp])
  have happart : p = q ∨ Apart p q := by
    by_cases hsame : p = q
    · exact Or.inl hsame
    · exact Or.inr ⟨fun hpq => hsame (hbelow hpq), fun hqp => hsame (habove hqp)⟩
  refine ⟨⟨fun r hr => ?_, fun hdir => ?_⟩, happart⟩
  · -- what stands above `q` stood there before, or is a directory that the write made
    by_cases hrp : r <+: p
    · rcases prefix_dropLast hrp with rfl | hrp'
      · rw [hlater.1 r hr] at hfile
        cases hfile
      · exact hno r hrp'
    · have hne : r ≠ p := by
        rintro rfl
        exact hrp List.prefix_rfl
      rw [← hlater.1 r hr]
      exact Tree.fileAt_congr (by rw [he, if_neg hne, if_neg hrp])
  · rcases happart with rfl | hapart
    · exact hfree.2 hdir
    · exact hlater.2 (by rw [he, if_neg hapart.ne.symm, if_neg hapart.2, hdir])

theorem unpacks_of_ok (h : Ok (unpackAll writes) t () t') : Unpacks t writes := by
  induction writes generalizing t with
  | nil => exact ⟨fun _ hmem => absurd hmem List.not_mem_nil, List.Pairwise.nil⟩
  | cons w rest ih =>
    obtain ⟨t1, hwrite, hrest⟩ := forM_cons_ok.mp h
    have hfree : Free t w.1 := ⟨(writeAt_ok hwrite).2.1, (writeAt_ok hwrite).2.2.1⟩
    have hlater := ih hrest
    have hboth : ∀ later ∈ rest, Free t later.1 ∧ (w.1 = later.1 ∨ Apart w.1 later.1) := fun later hmem =>
      free_before hfree hwrite (hlater.free later hmem)
    refine ⟨fun later hmem => ?_, List.pairwise_cons.mpr ⟨fun later hmem => (hboth later hmem).2, hlater.apart⟩⟩
    rcases List.mem_cons.mp hmem with rfl | hmem
    · exact hfree
    · exact (hboth later hmem).1

/-- **writes succeed as a whole** where nothing stands in their way -/
theorem unpackAll_iff : (∃ t', Ok (unpackAll writes) t () t') ↔ Unpacks t writes :=
  ⟨fun ⟨_, h⟩ => unpacks_of_ok h, unpackAll_total writes⟩

theorem fileAt_kept (h : Ok (unpackAll writes) t () t') (hfile : t.fileAt p = some content)
    (hother : ∀ w ∈ writes, w.1 ≠ p) : t'.fileAt p = some content := by
  induction writes generalizing t with
  | nil =>
    cases h
    exact hfile
  | cons w rest ih =>
    obtain ⟨t1, hwrite, hrest⟩ := forM_cons_ok.mp h
    obtain ⟨-, hno, -, he⟩ := writeAt_ok hwrite
    have hne : p ≠ w.1 := (hother w List.mem_cons_self).symm
    have habove : ¬ p <+: w.1 := fun hpw => by
      have hgone := hno p ((prefix_dropLast hpw).resolve_left hne)
      rw [hfile] at hgone
      cases hgone
    refine ih hrest ?_ fun later hmem => hother later (List.mem_cons_of_mem _ hmem)
    rw [← hfile]
    exact Tree.fileAt_congr (by rw [he, if_neg hne, if_neg habove])

/-- **the last write counts** -/
theorem fileAt_unpackAll (h : Ok (unpackAll writes) t () t') (hw : w ∈ writes) :
    t'.fileAt w.1 = (writes.reverse.find? fun later => later.1 == w.1).map (·.2) := by
  induction writes generalizing t w with
  | nil => exact absurd hw List.not_mem_nil
  | cons first rest ih =>
    obtain ⟨t1, hwrite, hrest⟩ := forM_cons_ok.mp h
    rw [List.reverse_cons, List.find?_append]
    by_cases hlater : ∃ later ∈ rest, later.1 = w.1
    · obtain ⟨later, hmem, hsame⟩ := hlater
      have hfound := ih hrest hmem
      rw [hsame] at hfound
      rw [hfound]
      cases hfind : rest.reverse.find? fun later => later.1 == w.1 with
      | none => exact absurd (List.find?_eq_none.mp hfind later (List.mem_reverse.mpr hmem)) (by simp [hsame])
      | some last => rfl
    · have hnone : (rest.reverse.find? fun later => later.1 == w.1) = none := by
        refine List.find?_eq_none.mpr fun later hmem hsame => hlater ⟨later, List.mem_reverse.mp hmem, ?_⟩
        exact eq_of_beq hsame
      have hfirst : w = first := (List.mem_cons.mp hw).resolve_right fun hmem => hlater ⟨w, hmem, rfl⟩
      subst hfirst
      obtain ⟨-, -, -, he⟩ := writeAt_ok hwrite
      have hthere : t1.fileAt w.1 = some w.2 := Tree.fileAt_eq_some.mpr (by rw [he, if_pos rfl])
      rw [fileAt_kept hrest hthere fun later hmem hsame => hlater ⟨later, hmem, hsame⟩, hnone]
      simp

/-! ## a file system that takes some paths -/

/-- `fs::create_dir_all` -/
def createDirAllOn (takes : Path → Bool) (path : Path) : DiskM Unit :=
  if takes path then createDirAll path else throw (.invalidInput "file name contained an unexpected NUL byte")

/-- `fs::write` -/
def writeOn (takes : Path → Bool) (path : Path) (data : Bytes) : DiskM Unit :=
  if takes path then write path data else throw (.invalidInput "file name contained an unexpected NUL byte")

/-- `readEntries`, where the file system takes a path or not: with a null character it never does -/
def readEntriesOn (takes : Path → Bool) (bytes : Bytes) (destination : Path) : Nat → Nat → Nat → DiskM Nat
  | 0, _, count => pure count
  | fuel + 1, offset, count =>
    if offset + 4 ≤ bytes.length then
      match readEntry bytes offset with
      | .error e => throw e
      | .ok none => pure count
      | .ok (some (name, data, next)) =>
        match String.fromUTF8? ⟨name.toArray⟩ with
        | none => throw (.invalidData "invalid utf-8 sequence")
        | some name =>
          match resolveArchiveEntry destination name with
          | .error e => throw e
          | .ok target => do
            createDirAllOn takes target.dropLast
            writeOn takes target data
            readEntriesOn takes bytes destination fuel next (count + 1)
    else pure count

def readStoreZipOn (takes : Path → Bool) (archive destination : Path) : DiskM Nat := do
  let bytes ← read archive
  readEntriesOn takes bytes destination (bytes.length + 1) 0 0

theorem createDirAllOn_ok : Ok (createDirAllOn takes p) t () t' ↔ takes p = true ∧ Ok (createDirAll p) t () t' := by
  rw [createDirAllOn]
  split
  · next htakes => exact (and_iff_right htakes).symm
  · next htakes => exact ⟨nofun, fun h => absurd h.1 htakes⟩

theorem writeOn_ok : Ok (writeOn takes p data) t () t' ↔ takes p = true ∧ Ok (write p data) t () t' := by
  rw [writeOn]
  split
  · next htakes => exact (and_iff_right htakes).symm
  · next htakes => exact ⟨nofun, fun h => absurd h.1 htakes⟩

/-- the targets and what stands above them are paths that the file system takes -/
def Taken (takes : Path → Bool) (writes : List (Path × Bytes)) : Prop :=
  ∀ w ∈ writes, takes w.1.dropLast = true ∧ takes w.1 = true

/-- **what is taken is unpacked** as on a file system that takes all -/
theorem readEntriesOn_ok (fuel : Nat) {offset count : Nat} :
    Ok (readEntriesOn takes bytes destination fuel offset count) t n t' ↔
      Ok (readEntries bytes destination fuel offset count) t n t' ∧
        Taken takes (archiveEntries bytes destination fuel offset).1 := by
  have hnothing : Taken takes [] := fun _ hmem => absurd hmem List.not_mem_nil
  induction fuel generalizing offset count t with
  | zero => exact (and_iff_left hnothing).symm
  | succ fuel ih =>
    rw [readEntriesOn, readEntries, archiveEntries]
    split
    · rcases readEntry bytes offset with e1 | (_ | ⟨name, data, next⟩)
      · exact (and_iff_left hnothing).symm
      · exact (and_iff_left hnothing).symm
      · dsimp only
        cases String.fromUTF8? ⟨name.toArray⟩ with
        | none => exact (and_iff_left hnothing).symm
        | some name =>
          dsimp only
          cases resolveArchiveEntry destination name with
          | error e1 => exact (and_iff_left hnothing).symm
          | ok target =>
            dsimp only
            constructor
            · intro h
              obtain ⟨_, t1, h1, g1⟩ := bind_ok.mp h
              obtain ⟨_, t2, h2, g2⟩ := bind_ok.mp g1
              obtain ⟨habove, hdirs⟩ := createDirAllOn_ok.mp h1
              obtain ⟨htarget, hwrite⟩ := writeOn_ok.mp h2
              obtain ⟨hrest, htaken⟩ := ih.mp g2
              exact ⟨bind_ok.mpr ⟨_, t1, hdirs, bind_ok.mpr ⟨_, t2, hwrite, hrest⟩⟩,
                List.forall_mem_cons.mpr ⟨⟨habove, htarget⟩, htaken⟩⟩
            · rintro ⟨h, htaken⟩
              obtain ⟨⟨habove, htarget⟩, hrest⟩ := List.forall_mem_cons.mp htaken
              obtain ⟨_, t1, h1, g1⟩ := bind_ok.mp h
              obtain ⟨_, t2, h2, g2⟩ := bind_ok.mp g1
              exact bind_ok.mpr ⟨_, t1, createDirAllOn_ok.mpr ⟨habove, h1⟩,
                bind_ok.mpr ⟨_, t2, writeOn_ok.mpr ⟨htarget, h2⟩, ih.mpr ⟨g2, hrest⟩⟩⟩
    · exact (and_iff_left hnothing).symm

end

end Os

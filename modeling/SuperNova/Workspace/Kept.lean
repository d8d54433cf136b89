import SuperNova.Workspace.Disk

/-!
# Files that the helpers leave alone

What the calls of the file system and the helpers of the workspace do to one file, whether they
succeed or fail half way: a call leaves every file alone that does not lie at or below the path it
writes or removes, and a directory is never made in the place of a file.
-/

set_option linter.unusedSectionVars false

namespace Workspace

open Paths Io FileTree

/-- the program leaves the file at `q` (or that there is none) as it is, also when it fails -/
def KeepsFile {α : Type} (q : Path) (m : DiskM α) : Prop :=
  ∀ content, Keeps (fun t : Disk => t.fileAt q = content) m

section
variable {α β : Type} {p q source destination : Path} {t t' : Disk}

theorem KeepsFile.bind {m : DiskM α} {f : α → DiskM β} (hm : KeepsFile q m)
    (hf : ∀ a, KeepsFile q (f a)) : KeepsFile q (m >>= f) :=
  fun content => Keeps.bind (hm content) fun a => hf a content

theorem KeepsFile.pure (a : α) : KeepsFile q (pure a) := fun _ => Keeps.pure _ a

theorem KeepsFile.throw (e : Fault) : KeepsFile q (throw e : DiskM α) := fun _ => Keeps.throw _ e

theorem KeepsFile.get : KeepsFile q (get : DiskM Disk) := fun _ => Keeps.get _

theorem KeepsFile.ite {c : Prop} [Decidable c] {m m' : DiskM α} (hm : KeepsFile q m)
    (hm' : KeepsFile q m') : KeepsFile q (if c then m else m') :=
  fun content => Keeps.ite (hm content) (hm' content)

theorem KeepsFile.forM {f : α → DiskM PUnit} (l : List α) (h : ∀ a ∈ l, KeepsFile q (f a)) :
    KeepsFile q (l.forM f) :=
  fun content => Keeps.forM l fun a ha => h a ha content

theorem KeepsFile.of_ok {m : DiskM α} {a : α} (h : KeepsFile q m) (hm : Ok m t a t') :
    t'.fileAt q = t.fileAt q := (h _).of_ok hm rfl

theorem KeepsFile.of_err {m : DiskM α} {e : Fault} (h : KeepsFile q m) (hm : Err m t e t') :
    t'.fileAt q = t.fileAt q := (h _).of_err hm rfl

/-! ## calls of the file system -/

theorem fileAt_mkdirs (h : t.NoFileTo p) (q : Path) : (t.mkdirs p).fileAt q = t.fileAt q := by
  by_cases hq : q <+: p
  · rw [h q hq]
    exact Tree.fileAt_of_dir (by rw [Tree.mkdirs_entry, if_pos hq])
  · exact Tree.fileAt_congr (by rw [Tree.mkdirs_entry, if_neg hq])

theorem keepsFile_createDirAll (p : Path) : KeepsFile q (createDirAll p : DiskM Unit) := by
  refine fun content => Keeps.step fun t t' hstep hcontent => ?_
  obtain ⟨hno, rfl⟩ := createDirAll_ok.mp (step_ok (u := ()).mpr hstep)
  rw [fileAt_mkdirs hno, hcontent]

theorem keepsFile_read (p : Path) : KeepsFile q (read p : DiskM Bytes) := by
  intro content t hcontent
  unfold final FileTree.read
  rcases t.entry p with _ | (c | _) <;> exact hcontent

theorem keepsFile_write (h : q ≠ p) (bytes : Bytes) : KeepsFile q (write p bytes) := by
  refine fun content => Keeps.step fun t t' hstep hcontent => ?_
  obtain ⟨-, -, -, he⟩ := write_ok (step_ok (u := ()).mpr hstep)
  rw [← hcontent]
  exact Tree.fileAt_congr (by rw [he, if_neg h])

theorem keepsFile_copyFile (h : q ≠ destination) : KeepsFile q (copyFile source destination) :=
  KeepsFile.bind (keepsFile_read _) fun _ => KeepsFile.bind (keepsFile_write h _) fun _ =>
    KeepsFile.bind (keepsFile_read _) fun _ => keepsFile_write h _

theorem fileAt_erase (h : ¬ p <+: q) : (t.erase p).fileAt q = t.fileAt q :=
  Tree.fileAt_congr (by rw [Tree.erase_entry, if_neg fun c => h c.2])

theorem keepsFile_removeFile (h : ¬ p <+: q) : KeepsFile q (removeFile p : DiskM Unit) := by
  refine fun content => Keeps.step fun t t' hstep hcontent => ?_
  obtain ⟨-, rfl⟩ := removeFile_ok.mp (step_ok (u := ()).mpr hstep)
  rw [fileAt_erase h, hcontent]

theorem keepsFile_removeDirAll (h : ¬ p <+: q) : KeepsFile q (removeDirAll p : DiskM Unit) := by
  refine fun content => Keeps.step fun t t' hstep hcontent => ?_
  obtain ⟨-, -, rfl⟩ := removeDirAll_ok.mp (step_ok (u := ()).mpr hstep)
  rw [fileAt_erase h, hcontent]

/-! ## helpers -/

theorem keepsFile_removePathAny (h : ¬ p <+: q) : KeepsFile q (removePathAny p) :=
  KeepsFile.bind KeepsFile.get fun _ => KeepsFile.ite (keepsFile_removeDirAll h)
    (KeepsFile.ite (keepsFile_removeFile h) (KeepsFile.pure _))

theorem keepsFile_copyLevels (fuel : Nat) : ∀ source destination : Path, ¬ destination <+: q →
    KeepsFile q (copyLevels fuel source destination) := by
  induction fuel with
  | zero => exact fun _ _ _ => KeepsFile.throw _
  | succ fuel ih =>
    intro source destination h
    refine KeepsFile.bind KeepsFile.get fun t => KeepsFile.ite ?_ (KeepsFile.ite ?_
      (KeepsFile.throw _))
    · refine KeepsFile.bind (keepsFile_createDirAll _) fun _ => KeepsFile.bind KeepsFile.get
        fun _ => KeepsFile.forM _ fun name _ => ih _ _ ?_
      exact fun c => h ((List.prefix_append ..).trans c)
    · refine KeepsFile.bind (keepsFile_createDirAll _) fun _ => keepsFile_copyFile ?_
      rintro rfl
      exact h List.prefix_rfl

/-- **a copy leaves every file alone that does not lie at or below its destination** -/
theorem keepsFile_copyPathRecursive (h : ¬ destination <+: q) :
    KeepsFile q (copyPathRecursive source destination) :=
  KeepsFile.bind KeepsFile.get fun _ => keepsFile_copyLevels _ _ _ h

end

end Workspace

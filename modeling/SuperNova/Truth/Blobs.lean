import SuperNova.Workspace.Guard

/-!
# The names of blobs

A blob of a job is written to a file below the job's blobs, and its ref leads back to the file.

* `resolveBlobRef_blobRef` (**main**): the ref of a plain name resolves to the file that was written.
-/

namespace Truth

open Text Workspace

/-- the file of `write_blob`, below the blobs of the job -/
def blobPath (name : String) : Path := components name

/-- the ref that `write_blob` returns -/
def blobRef (jobId name : String) : String := "blob://" ++ jobId ++ "/" ++ normalizePath name

/-- `ProcessTruthStore::resolve_blob_ref`, below the blobs of the job -/
def resolveBlobRef (jobId blobRef : String) : Except String Path :=
  match stripPrefix ("blob://" ++ jobId ++ "/") blobRef with
  | none => .error "blob ref does not belong to this job"
  | some relative =>
    if relative = "" then .error "blob ref has no relative path"
    else if isAbsolute relative ∨ ".." ∈ components relative then
      .error "blob ref leaves blob store boundary"
    else .ok (components relative)

/-- a name that stays below the blobs of the job -/
structure Plain (name : String) : Prop where
  nonempty : name ≠ ""
  separated : Separated name
  relative : isAbsolute name = false
  below : ".." ∉ components name

/-- one component of a path -/
structure Component (s : String) : Prop where
  nonempty : s ≠ ""
  ne_dot : s ≠ "."
  ne_dots : s ≠ ".."
  noSlash : '/' ∉ s.toList
  noBackslash : '\\' ∉ s.toList

theorem resolveBlobRef_blobRef {name : String} (jobId : String) (h : Plain name) :
    resolveBlobRef jobId (blobRef jobId name) = .ok (blobPath name) := by
  have hnormal : normalizePath name = name := normalizePath_of_separated h.separated
  rw [resolveBlobRef, blobRef, hnormal, stripPrefix_append]
  have hbelow : ¬ (isAbsolute name = true ∨ ".." ∈ components name) := by
    rintro (habsolute | hdots)
    · rw [h.relative] at habsolute
      cases habsolute
    · exact h.below hdots
  dsimp only
  rw [if_neg h.nonempty, if_neg hbelow]
  rfl

theorem Component.components {s : String} (h : Component s) : components s = [s] := by
  have hsplit : splitOn '/' s = [s] := by
    rw [splitOn, List.splitOn_eq_singleton h.noSlash, List.map_singleton, String.ofList_toList]
  rw [Workspace.components, hsplit]
  simp [h.nonempty, h.ne_dot]

theorem Plain.append {name s : String} (h : Plain name) (hs : Component s) :
    Plain (name ++ "/" ++ s) where
  nonempty := by simp [hs.nonempty]
  separated := by
    have hname := h.separated
    have hslash := hs.noBackslash
    unfold Separated at hname ⊢
    simp [hname, hslash]
  relative := by
    have hrelative := h.relative
    unfold isAbsolute at hrelative ⊢
    cases hchars : name.toList with
    | nil => exact absurd (String.toList_inj.mp hchars) h.nonempty
    | cons c rest =>
      rw [hchars] at hrelative
      simpa [hchars] using hrelative
  below := by
    rw [components_append, hs.components, List.mem_append, List.mem_singleton]
    exact fun hor => hor.elim h.below hs.ne_dots.symm

theorem Component.plain {s : String} (h : Component s) : Plain s where
  nonempty := h.nonempty
  separated := h.noBackslash
  relative := by
    unfold isAbsolute
    cases hchars : s.toList with
    | nil => rfl
    | cons c rest =>
      have hslash := h.noSlash
      rw [hchars] at hslash
      simpa using Ne.symm (List.ne_of_not_mem_cons hslash)
  below := by
    rw [h.components, List.mem_singleton]
    exact h.ne_dots.symm

end Truth

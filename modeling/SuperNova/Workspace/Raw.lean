import SuperNova.Workspace.Disk

/-!
# Paths that are not resolved

A program may hand any path to the system: segments below a directory, empty ones, `.` and `..` among them.
The system walks along the segments, and every place on the way has to be a directory.

* `walk`: where a path leads;
* `walk_filter`: segments that stay where they are can be left out;
* `Raw.createDirAll`, `Raw.write`, `Raw.read`: the calls of the standard library on such a path.
-/

set_option linter.unusedSectionVars false

namespace Workspace

open Paths Io FileTree Text

/-- a path that is not resolved: segments below a directory -/
structure Raw where
  base : Path
  segments : List String

/-- an empty segment, or `.` -/
def stays (segment : String) : Bool := segment == "" || segment == "."

def advance (place : Path) (segment : String) : Path :=
  if stays segment then place else if segment = ".." then place.dropLast else place ++ [segment]

/-- where the segments lead -/
def placeAt (place : Path) (segments : List String) : Path := segments.foldl advance place

/-- the walk along the segments -/
def walk (t : Disk) : Path → List String → Except Fault Path
  | place, [] => .ok place
  | place, segment :: segments =>
    if t.isDir place then walk t (advance place segment) segments
    else .error (if t.isFile place then .notADirectory else .notFound)

/-- `create_dir_all` along the segments -/
def makeDirs : Path → List String → DiskM Unit
  | place, [] => createDirAll place
  | place, segment :: segments => do
    createDirAll place
    makeDirs (advance place segment) segments

namespace Raw

/-- no path of the system holds a NUL -/
def hasNul (r : Raw) : Bool := r.segments.any fun segment => segment.toList.contains (Char.ofNat 0)

/-- `Path::join` with a text -/
def join (r : Raw) (part : String) : Raw :=
  if isAbsolute part then ⟨[], splitOn '/' part⟩ else ⟨r.base, r.segments ++ splitOn '/' part⟩

/-- `Path::join` with normal components; without any, a separator is put at the end -/
def joinNames (r : Raw) (names : List String) : Raw :=
  ⟨r.base, r.segments ++ if names = [] then [""] else names⟩

/-- `Path::parent` -/
def parent (r : Raw) : Raw := ⟨r.base, (r.segments.rdropWhile stays).dropLast⟩

def nulError : Fault := .invalidInput "file name contained an unexpected NUL byte"

def createDirAll (r : Raw) : DiskM Unit :=
  if r.hasNul then throw nulError else makeDirs r.base r.segments

/-- create or replace the file that the last segment names -/
def write (r : Raw) (content : Bytes) : DiskM Unit := do
  if r.hasNul then throw nulError
  let t ← get
  match walk t r.base r.segments.dropLast, r.segments.getLast? with
  | .error e, _ => throw e
  | .ok _, none => throw .isADirectory
  | .ok place, some name =>
    if stays name || name == ".." then throw .isADirectory else FileTree.write (place ++ [name]) content

def read (r : Raw) : DiskM Bytes := do
  if r.hasNul then throw nulError
  let t ← get
  match walk t r.base r.segments with
  | .error e => throw e
  | .ok place => FileTree.read place

end Raw

/-! ## the walk -/

section
variable {t t' : Disk} {place p : Path} {segment name : String} {segments more names : List String}

theorem walk_eq (h : walk t place segments = .ok p) : p = placeAt place segments := by
  induction segments generalizing place with
  | nil => exact (Except.ok.inj h).symm
  | cons segment segments ih =>
    rw [walk] at h
    split at h
    · exact ih h
    · cases h

theorem walk_mono (hdirs : ∀ q, t.isDir q = true → t'.isDir q = true) (h : walk t place segments = .ok p) :
    walk t' place segments = .ok p := by
  induction segments generalizing place with
  | nil => exact h
  | cons segment segments ih =>
    rw [walk] at h ⊢
    split at h
    · next hdir =>
      rw [if_pos (hdirs place hdir)]
      exact ih h
    · cases h

theorem walk_append : walk t place (segments ++ more) = .ok p ↔
    ∃ q, walk t place segments = .ok q ∧ walk t q more = .ok p := by
  induction segments generalizing place with
  | nil =>
    constructor
    · exact fun h => ⟨place, rfl, h⟩
    · rintro ⟨q, hq, h⟩
      cases hq
      exact h
  | cons segment segments ih =>
    rw [List.cons_append, walk, walk]
    split
    · exact ih
    · constructor
      · intro h
        cases h
      · rintro ⟨q, hq, -⟩
        cases hq

theorem advance_stays (h : stays segment = true) : advance place segment = place := if_pos h

theorem advance_name (hstays : stays name = false) (hdots : name ≠ "..") : advance place name = place ++ [name] := by
  rw [advance, hstays, if_neg Bool.false_ne_true, if_neg hdots]

theorem walk_filter (h : walk t place segments = .ok p) :
    walk t place (segments.filter fun segment => !stays segment) = .ok p := by
  induction segments generalizing place with
  | nil => exact h
  | cons segment segments ih =>
    rw [walk] at h
    split at h
    · next hdir =>
      cases hstays : stays segment with
      | true =>
        rw [advance_stays hstays] at h
        rw [List.filter_cons_of_neg (by simp [hstays])]
        exact ih h
      | false =>
        rw [List.filter_cons_of_pos (by simp [hstays]), walk, if_pos hdir]
        exact ih h
    · cases h

theorem placeAt_append : placeAt place (segments ++ more) = placeAt (placeAt place segments) more :=
  List.foldl_append

theorem placeAt_filter : placeAt place (segments.filter fun segment => !stays segment) = placeAt place segments := by
  induction segments generalizing place with
  | nil => rfl
  | cons segment segments ih =>
    cases hstays : stays segment with
    | true =>
      rw [List.filter_cons_of_neg (by simp [hstays]), ih, placeAt, placeAt, List.foldl_cons,
        advance_stays hstays]
    | false =>
      rw [List.filter_cons_of_pos (by simp [hstays])]
      exact ih

theorem placeAt_names (hnames : ∀ name ∈ names, stays name = false ∧ name ≠ "..") :
    placeAt place names = place ++ names := by
  induction names generalizing place with
  | nil => exact (List.append_nil place).symm
  | cons name names ih =>
    obtain ⟨hstays, hdots⟩ := hnames name List.mem_cons_self
    rw [placeAt, List.foldl_cons, advance_name hstays hdots]
    exact (ih fun other hother => hnames other (List.mem_cons_of_mem _ hother)).trans
      (List.append_cons place name names).symm

/-! ## the calls -/

theorem isDir_mkdirs (q : Path) (h : t.isDir q = true) : (t.mkdirs p).isDir q = true := by
  rw [Tree.isDir_iff] at h ⊢
  rw [Tree.mkdirs_entry]
  split
  · rfl
  · exact h

theorem Raw.createDirAll_ok {r : Raw} {u : Unit} (h : Ok r.createDirAll t u t') :
    Ok (makeDirs r.base r.segments) t u t' := by
  rw [Raw.createDirAll] at h
  split at h
  · cases h
  · exact h

theorem Raw.write_ok {r : Raw} {content : Bytes} {u : Unit} : Ok (r.write content) t u t' ↔
    r.hasNul = false ∧ ∃ place name, walk t r.base r.segments.dropLast = .ok place ∧
      r.segments.getLast? = some name ∧ stays name = false ∧ name ≠ ".." ∧
      Ok (FileTree.write (place ++ [name]) content) t u t' := by
  rw [Raw.write]
  cases hnul : r.hasNul with
  | true =>
    constructor
    · intro h
      obtain ⟨_, _, hthrow, -⟩ := bind_ok.mp h
      cases hthrow
    · rintro ⟨hfalse, -⟩
      cases hfalse
  | false =>
    constructor
    · intro h
      obtain ⟨_, _, hget, hwrite⟩ := bind_ok.mp h
      cases hget
      refine ⟨rfl, ?_⟩
      cases hwalk : walk t r.base r.segments.dropLast with
      | error e =>
        rw [hwalk] at hwrite
        cases hwrite
      | ok place =>
        rw [hwalk] at hwrite
        cases hlast : r.segments.getLast? with
        | none =>
          rw [hlast] at hwrite
          cases hwrite
        | some name =>
          rw [hlast] at hwrite
          dsimp only at hwrite
          split at hwrite
          · cases hwrite
          · next hname =>
            rw [Bool.or_eq_true, not_or, Bool.not_eq_true, beq_iff_eq] at hname
            exact ⟨place, name, rfl, rfl, hname.1, hname.2, hwrite⟩
    · rintro ⟨-, place, name, hwalk, hlast, hstays, hdots, hwrite⟩
      refine bind_ok.mpr ⟨t, t, rfl, ?_⟩
      have hname : ¬ (stays name || name == "..") = true := by simp [hstays, hdots]
      rw [hwalk, hlast]
      dsimp only
      rw [if_neg hname]
      exact hwrite

theorem Raw.read_ok {r : Raw} {content : Bytes} : Ok r.read t content t' ↔
    t' = t ∧ r.hasNul = false ∧ ∃ place, walk t r.base r.segments = .ok place ∧
      t.entry place = some (.file content) := by
  rw [Raw.read]
  cases hnul : r.hasNul with
  | true =>
    constructor
    · intro h
      obtain ⟨_, _, hthrow, -⟩ := bind_ok.mp h
      cases hthrow
    · rintro ⟨-, hfalse, -⟩
      cases hfalse
  | false =>
    cases hwalk : walk t r.base r.segments with
    | error e =>
      constructor
      · intro h
        obtain ⟨_, _, hget, h⟩ := bind_ok.mp h
        cases hget
        rw [hwalk] at h
        cases h
      · rintro ⟨-, -, place, hplace, -⟩
        cases hplace
    | ok place =>
      have hread : Ok (FileTree.read place) t content t' ↔ t.entry place = some (.file content) ∧ t' = t :=
        FileTree.read_ok
      constructor
      · intro h
        obtain ⟨_, _, hget, h⟩ := bind_ok.mp h
        cases hget
        rw [hwalk] at h
        obtain ⟨hentry, hsame⟩ := hread.mp h
        exact ⟨hsame, rfl, place, rfl, hentry⟩
      · rintro ⟨hsame, -, q, hq, hentry⟩
        cases hq
        refine bind_ok.mpr ⟨t, t, rfl, ?_⟩
        rw [hwalk]
        exact hread.mpr ⟨hentry, hsame⟩

theorem Raw.joinNames_concat (r : Raw) (names : List String) (name : String) :
    (r.joinNames (names ++ [name])).segments = r.segments ++ names ++ [name] := by
  rw [Raw.joinNames, if_neg (List.concat_ne_nil name names), List.append_assoc]

theorem Raw.parent_joinNames (r : Raw) (names : List String) (hstays : stays name = false) :
    (r.joinNames (names ++ [name])).parent = ⟨r.base, r.segments ++ names⟩ := by
  rw [Raw.parent, Raw.joinNames_concat, List.rdropWhile_concat_neg _ _ _ (by simp [hstays]),
    List.dropLast_concat]
  rfl

theorem makeDirs_ok {u : Unit} (h : Ok (makeDirs place segments) t u t') :
    walk t' place segments = .ok (placeAt place segments) ∧ t'.isDir (placeAt place segments) = true ∧
      ∀ q, t.isDir q = true → t'.isDir q = true := by
  induction segments generalizing place t with
  | nil =>
    obtain ⟨-, rfl⟩ := createDirAll_ok.mp h
    refine ⟨rfl, ?_, isDir_mkdirs⟩
    rw [Tree.isDir_iff, Tree.mkdirs_entry]
    exact if_pos List.prefix_rfl
  | cons segment segments ih =>
    obtain ⟨_, t1, hfirst, hrest⟩ := bind_ok.mp h
    obtain ⟨-, rfl⟩ := createDirAll_ok.mp hfirst
    obtain ⟨hwalk, hdir, hkeep⟩ := ih hrest
    have hplace : (t.mkdirs place).isDir place = true := by
      rw [Tree.isDir_iff, Tree.mkdirs_entry]
      exact if_pos List.prefix_rfl
    refine ⟨?_, hdir, fun q hq => hkeep q (isDir_mkdirs q hq)⟩
    rw [walk, if_pos (hkeep place hplace)]
    exact hwalk

end

end Workspace

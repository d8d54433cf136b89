import SuperNova.Feed.Page
import SuperNova.Lib.Hex
import SuperNova.Lib.Table
import SuperNova.Os.Runtime
import Mathlib.Tactic.Tauto

/-!
# The registry of workspaces

A workspace is a directory, under the name that a hash of its path makes.  The table has the name as its primary
key, and the path is unique in it; a registration looks for the path, and counts on the name.

* `Workspaces`: the table, with both its keys;
* `register`, `list`, `archive`, `getByUid`: the statements on it;
* `WorkspaceService.create`, `Registration`: the two ways to register;
* `told_iff` (**main**): any registrations succeed, each directory under a name of its own, exactly when no two of
  the directories agree in the hash of their paths, lowered and with one kind of separator;
* `cases_told_apart`: two directories whose paths differ in case.
-/

set_option linter.unusedSectionVars false

namespace WorkspaceRegistry

open Feed Os Workspace

/-! ## paths -/

/-- a piece of a path of the platform: a character, or bytes that are none -/
inductive OsPiece where
  | char (c : Char)
  | invalid (bytes : Bytes)
  deriving DecidableEq

abbrev OsString := List OsPiece

def OsPiece.toChar? : OsPiece → Option Char
  | .char c => some c
  | .invalid _ => none

/-- `OsStr::to_str` -/
def toStr (s : OsString) : Option String := (s.mapM OsPiece.toChar?).map String.ofList

/-- `to_string_lossy` -/
def toStringLossy (s : OsString) : String :=
  String.ofList (s.map fun piece => piece.toChar?.getD (Char.ofNat 0xFFFD))

/-- `PathBuf::from` of a text -/
def ofText (s : String) : OsString := s.toList.map .char

/-- what the standard library does on the platform -/
structure Platform where
  /-- `str::to_lowercase` -/
  toLowercase : String → String
  /-- `Path::file_name` -/
  fileName : OsString → Option OsString
  /-- `Path::canonicalize` -/
  canonicalize : OsString → Except String OsString
  isDir : OsString → Bool

variable (platform : Platform)

/-! ## the name of a workspace -/

/-- the path that `workspace_uid` hashes -/
def normalized (workspaceRoot : OsString) : String :=
  platform.toLowercase (Text.replaceChar '\\' '/' (toStringLossy workspaceRoot))

def workspaceHash (workspaceRoot : OsString) : UInt64 := fnv1a64 (utf8 (normalized platform workspaceRoot))

def workspaceUid (workspaceRoot : OsString) : String :=
  "ws_" ++ hex16 (workspaceHash platform workspaceRoot).toNat

/-- below the state root of the application -/
def workspaceStateRoot (appStateRoot : Path) (workspaceUid : String) : Path :=
  appStateRoot ++ ["state", "workspaces", workspaceUid]

/-! ## the table -/

structure WorkspaceRow where
  workspaceRoot : String
  displayName : String
  createdAtMs : Int
  lastOpenedAtMs : Int
  archived : Bool
  deriving DecidableEq

structure WorkspaceRecord where
  workspaceUid : String
  workspaceRoot : String
  displayName : String
  createdAtMs : Nat
  lastOpenedAtMs : Nat
  archived : Bool
  deriving DecidableEq

/-- `row_to_workspace` -/
def rowToWorkspace (workspaceUid : String) (row : WorkspaceRow) : WorkspaceRecord where
  workspaceUid
  workspaceRoot := row.workspaceRoot
  displayName := row.displayName
  createdAtMs := asU128 row.createdAtMs
  lastOpenedAtMs := asU128 row.lastOpenedAtMs
  archived := row.archived

inductive RegistryError where
  | uniqueConstraintFailed (column : String)
  | queryReturnedNoRows
  | invalidParameterName (message : String)
  /-- the database cannot be opened, or a statement cannot be run -/
  | unavailable
  deriving DecidableEq

/-- the table `workspaces`, with `workspace_uid` as its primary key and `workspace_root` unique -/
structure Workspaces where
  rows : Table String WorkspaceRow
  root_unique : ∀ uid uid' row row', rows.get? uid = some row → rows.get? uid' = some row' →
    row.workspaceRoot = row'.workspaceRoot → uid = uid'

namespace Workspaces

def empty : Workspaces := ⟨Table.empty, fun _ _ _ _ h => absurd h.symm (Option.some_ne_none _)⟩

/-- change a row, but for its keys -/
def change (t : Workspaces) (uid : String) (f : WorkspaceRow → WorkspaceRow)
    (hf : ∀ row, (f row).workspaceRoot = row.workspaceRoot) : Workspaces where
  rows := t.rows.modify uid f
  root_unique := by
    have hold {k : String} {row : WorkspaceRow} (h : (t.rows.modify uid f).get? k = some row) :
        ∃ old, t.rows.get? k = some old ∧ old.workspaceRoot = row.workspaceRoot := by
      rw [Table.get?_modify] at h
      split at h
      · obtain ⟨old, hget, rfl⟩ := Option.map_eq_some_iff.mp h
        exact ⟨old, hget, (hf old).symm⟩
      · exact ⟨row, h, rfl⟩
    intro k k' row row' h h' hroot
    obtain ⟨old, hget, hsame⟩ := hold h
    obtain ⟨old', hget', hsame'⟩ := hold h'
    exact t.root_unique k k' old old' hget hget' (hsame.trans (hroot.trans hsame'.symm))

/-- the key of the row with a path -/
def uidAt (t : Workspaces) (workspaceRoot : String) : Option String :=
  (t.rows.entries.find? fun e => e.2.workspaceRoot == workspaceRoot).map (·.1)

section
variable {t : Workspaces} {uid k root : String} {row : WorkspaceRow}

theorem mem_entries : (k, row) ∈ t.rows.entries ↔ t.rows.get? k = some row := Table.mem_entries

theorem uidAt_some (h : t.uidAt root = some uid) :
    ∃ row, t.rows.get? uid = some row ∧ row.workspaceRoot = root := by
  obtain ⟨e, he, rfl⟩ := Option.map_eq_some_iff.mp h
  have hroot : e.2.workspaceRoot = root := by simpa using List.find?_some he
  exact ⟨e.2, mem_entries.mp (List.mem_of_find?_eq_some he), hroot⟩

theorem uidAt_none (h : t.uidAt root = none) (hget : t.rows.get? k = some row) : row.workspaceRoot ≠ root := by
  have hnone := List.find?_eq_none.mp (Option.map_eq_none_iff.mp h) _ (mem_entries.mpr hget)
  exact fun hroot => hnone (beq_iff_eq.mpr hroot)

end

/-- a row with a new path -/
def insert (t : Workspaces) (uid : String) (row : WorkspaceRow) (h : t.uidAt row.workspaceRoot = none) :
    Workspaces where
  rows := t.rows.insert uid row
  root_unique := by
    intro k k' old old' hget hget' hroot
    rw [Table.get?_insert] at hget hget'
    by_cases hk : k = uid
    · by_cases hk' : k' = uid
      · exact hk.trans hk'.symm
      · rw [if_pos hk] at hget
        rw [if_neg hk'] at hget'
        obtain rfl := Option.some.inj hget
        exact absurd hroot.symm (uidAt_none h hget')
    · rw [if_neg hk] at hget
      by_cases hk' : k' = uid
      · rw [if_pos hk'] at hget'
        obtain rfl := Option.some.inj hget'
        exact absurd hroot (uidAt_none h hget)
      · rw [if_neg hk'] at hget'
        exact t.root_unique k k' old old' hget hget' hroot

/-- `DO UPDATE` with the `excluded` row -/
def reopened (excluded old : WorkspaceRow) : WorkspaceRow :=
  { old with displayName := excluded.displayName, lastOpenedAtMs := excluded.lastOpenedAtMs, archived := false }

/-- `INSERT … ON CONFLICT(workspace_root)`; another row with the primary key is an error -/
def upsert (t : Workspaces) (uid : String) (row : WorkspaceRow) : Except RegistryError Workspaces :=
  match h : t.uidAt row.workspaceRoot with
  | some known => .ok (t.change known (reopened row) fun _ => rfl)
  | none =>
    if (t.rows.get? uid).isSome then .error (.uniqueConstraintFailed "workspaces.workspace_uid")
    else .ok (t.insert uid row h)

def getByUid (t : Workspaces) (uid : String) : Except RegistryError WorkspaceRecord :=
  match t.rows.get? uid with
  | some row => .ok (rowToWorkspace uid row)
  | none => .error .queryReturnedNoRows

section
variable {t : Workspaces} {uid known k : String} {row : WorkspaceRow}

theorem upsert_known (uid : String) (h : t.uidAt row.workspaceRoot = some known) :
    ∃ t', t.upsert uid row = .ok t' ∧
      ∀ k, t'.rows.get? k = if k = known then (t.rows.get? k).map (reopened row) else t.rows.get? k := by
  unfold upsert
  split
  · rename_i known' h'
    obtain rfl := Option.some.inj (h.symm.trans h')
    exact ⟨_, rfl, fun k => Table.get?_modify⟩
  · rename_i h'
    exact absurd (h'.symm.trans h).symm (Option.some_ne_none _)

theorem upsert_new (h : t.uidAt row.workspaceRoot = none) (hfree : t.rows.get? uid = none) :
    ∃ t', t.upsert uid row = .ok t' ∧
      ∀ k, t'.rows.get? k = if k = uid then some row else t.rows.get? k := by
  unfold upsert
  split
  · rename_i h'
    exact absurd (h.symm.trans h').symm (Option.some_ne_none _)
  · rename_i h'
    rw [if_neg (by rw [hfree]; exact Bool.false_ne_true)]
    exact ⟨_, rfl, fun k => Table.get?_insert⟩

theorem upsert_taken (h : t.uidAt row.workspaceRoot = none) (htaken : (t.rows.get? uid).isSome) :
    t.upsert uid row = .error (.uniqueConstraintFailed "workspaces.workspace_uid") := by
  unfold upsert
  split
  · rename_i h'
    exact absurd (h.symm.trans h').symm (Option.some_ne_none _)
  · exact if_pos htaken

end

end Workspaces

/-! ## registrations -/

variable (t : Workspaces)

def displayNameOf (workspaceRoot : OsString) (displayName : Option String) : String :=
  displayName.getD (((platform.fileName workspaceRoot).bind toStr).getD "Workspace")

def register (workspaceRoot : OsString) (displayName : Option String) (now : Int) :
    Workspaces × Except RegistryError WorkspaceRecord :=
  let uid := workspaceUid platform workspaceRoot
  match t.upsert uid { workspaceRoot := toStringLossy workspaceRoot
                       displayName := displayNameOf platform workspaceRoot displayName
                       createdAtMs := now
                       lastOpenedAtMs := now
                       archived := false } with
  | .ok t => (t, t.getByUid uid)
  | .error error => (t, .error error)

def canonicalWorkspaceRoot (raw : String) : Except RegistryError OsString :=
  let trimmed := Text.trim raw
  if trimmed = "" then .error (.invalidParameterName "workspace_root is required.")
  else
    match platform.canonicalize (ofText trimmed) with
    | .error err =>
      .error (.invalidParameterName ("workspace_root must be an existing local directory: " ++ err))
    | .ok canonical =>
      if platform.isDir canonical then .ok canonical
      else .error (.invalidParameterName "workspace_root must be an existing local directory.")

/-- the two ways to register a workspace -/
inductive Registration where
  /-- `WorkspaceService::create` -/
  | create (workspaceRoot : String) (displayName : Option String)
  /-- `Services::open` -/
  | servicesOpen (workspaceRoot : OsString)

def Registration.root : Registration → Except RegistryError OsString
  | .create workspaceRoot _ => canonicalWorkspaceRoot platform workspaceRoot
  | .servicesOpen workspaceRoot => .ok workspaceRoot

def Registration.displayName : Registration → Option String
  | .create _ displayName => displayName
  | .servicesOpen _ => none

def Registration.run (registration : Registration) (now : Int) :
    Workspaces × Except RegistryError WorkspaceRecord :=
  match registration.root platform with
  | .ok workspaceRoot => register platform t workspaceRoot registration.displayName now
  | .error error => (t, .error error)

/-- what a sequence of registrations, each at its time, returns -/
def runAll (t : Workspaces) : List (Registration × Int) → List (Except RegistryError WorkspaceRecord)
  | [] => []
  | (registration, now) :: rest =>
    (registration.run platform t now).2 :: runAll (registration.run platform t now).1 rest

/-- every registration succeeds, and the names tell the directories apart -/
structure Told (appStateRoot : Path) (dirs : List OsString)
    (outcomes : List (Except RegistryError WorkspaceRecord)) : Prop where
  succeeds : ∀ (i : Nat) dir, dirs[i]? = some dir → ∃ record, outcomes[i]? = some (.ok record)
  again : ∀ (i j : Nat) dir record record', dirs[i]? = some dir → dirs[j]? = some dir →
    outcomes[i]? = some (.ok record) → outcomes[j]? = some (.ok record') →
    record.workspaceUid = record'.workspaceUid
  separate : ∀ (i j : Nat) dir dir' record record', dirs[i]? = some dir → dirs[j]? = some dir' →
    outcomes[i]? = some (.ok record) → outcomes[j]? = some (.ok record') → dir ≠ dir' →
    record.workspaceUid ≠ record'.workspaceUid ∧
      workspaceStateRoot appStateRoot record.workspaceUid ≠ workspaceStateRoot appStateRoot record'.workspaceUid

/-- two texts with one hash -/
def Collide (s s' : String) : Prop := s ≠ s' ∧ fnv1a64 (utf8 s) = fnv1a64 (utf8 s')

/-- the paths of two directories differ in more than the hash takes in -/
def Distinguished (dirs : List OsString) : Prop :=
  ∀ dir ∈ dirs, ∀ dir' ∈ dirs, dir ≠ dir' →
    normalized platform dir ≠ normalized platform dir' ∧
      ¬ Collide (normalized platform dir) (normalized platform dir')

section
variable {platform} {t : Workspaces} {dir dir' workspaceRoot : OsString} {dirs done : List OsString}
  {displayName : Option String} {now : Int} {record : WorkspaceRecord} {uid uid' : String}
  {registrations : List (Registration × Int)} {i : Nat}

/-! ## the names -/

theorem hex16_inj {m n : Nat} (h : hex16 m = hex16 n) : m = n := by
  have hvalue (n : Nat) : Hex.ofDigits (hex16 n).toList = n := by
    rw [hex16, String.toList_ofList, Hex.ofDigits_zeros, Hex.ofDigits_toDigits]
  rw [← hvalue m, h, hvalue n]

theorem workspaceUid_inj : workspaceUid platform dir = workspaceUid platform dir' ↔
    workspaceHash platform dir = workspaceHash platform dir' := by
  constructor
  · intro h
    exact UInt64.toNat_inj.mp (hex16_inj (Text.append_left_inj h))
  · intro h
    rw [workspaceUid, h, workspaceUid]

theorem workspaceStateRoot_ne (appStateRoot : Path) (h : uid ≠ uid') :
    workspaceStateRoot appStateRoot uid ≠ workspaceStateRoot appStateRoot uid' := by
  intro hroot
  have htail := List.append_cancel_left hroot
  simp only [List.cons.injEq, and_true, true_and] at htail
  exact h htail

theorem distinguished_iff : Distinguished platform dirs ↔
    ∀ dir ∈ dirs, ∀ dir' ∈ dirs, workspaceUid platform dir = workspaceUid platform dir' → dir = dir' := by
  constructor
  · intro h dir hdir dir' hdir' huid
    by_contra hne
    obtain ⟨hdiffer, hcollide⟩ := h dir hdir dir' hdir' hne
    exact hcollide ⟨hdiffer, workspaceUid_inj.mp huid⟩
  · intro h dir hdir dir' hdir' hne
    have huid : workspaceUid platform dir ≠ workspaceUid platform dir' :=
      fun huid => hne (h dir hdir dir' hdir' huid)
    constructor
    · intro hsame
      apply huid
      rw [workspaceUid, workspaceHash, hsame]
      rfl
    · intro hcollide
      exact huid (workspaceUid_inj.mpr hcollide.2)

/-! ## one registration -/

/-- every row is the one of a directory -/
def Filled (platform : Platform) (dirs : List OsString) (t : Workspaces) : Prop :=
  ∀ uid row, t.rows.get? uid = some row →
    ∃ dir ∈ dirs, uid = workspaceUid platform dir ∧ row.workspaceRoot = toStringLossy dir

theorem getByUid_of_get? {row : WorkspaceRow} (h : t.rows.get? uid = some row) :
    t.getByUid uid = .ok (rowToWorkspace uid row) := by
  unfold Workspaces.getByUid
  rw [h]

theorem getByUid_ok (h : t.getByUid uid = .ok record) : record.workspaceUid = uid := by
  unfold Workspaces.getByUid at h
  split at h
  · obtain rfl := Except.ok.inj h
    rfl
  · cases h

theorem register_uid (h : (register platform t workspaceRoot displayName now).2 = .ok record) :
    record.workspaceUid = workspaceUid platform workspaceRoot := by
  unfold register at h
  dsimp only at h
  split at h
  · exact getByUid_ok h
  · cases h

theorem register_ok (displayName : Option String) (now : Int) (hfilled : Filled platform done t)
    (hown : ∀ d ∈ done, workspaceUid platform d = workspaceUid platform dir → d = dir) :
    (∃ record, (register platform t dir displayName now).2 = .ok record) ∧
      Filled platform (dir :: done) (register platform t dir displayName now).1 := by
  have hold {uid : String} {row : WorkspaceRow} (hget : t.rows.get? uid = some row) :
      ∃ d ∈ dir :: done, uid = workspaceUid platform d ∧ row.workspaceRoot = toStringLossy d := by
    obtain ⟨d, hd, hrow⟩ := hfilled uid row hget
    exact ⟨d, List.mem_cons_of_mem _ hd, hrow⟩
  unfold register
  dsimp only
  generalize hrow : WorkspaceRow.mk (toStringLossy dir) (displayNameOf platform dir displayName) now now false = row
  have hroot : row.workspaceRoot = toStringLossy dir := by rw [← hrow]
  cases hat : t.uidAt row.workspaceRoot with
  | some known =>
    -- the path is there, so it is there under this name
    obtain ⟨old, hget, hsame⟩ := Workspaces.uidAt_some hat
    obtain ⟨t', hupsert, hafter⟩ := Workspaces.upsert_known (workspaceUid platform dir) hat
    have hknown : known = workspaceUid platform dir := by
      obtain ⟨d, -, rfl, hd⟩ := hfilled known old hget
      have hlossy : toStringLossy d = toStringLossy dir := hd.symm.trans (hsame.trans hroot)
      rw [workspaceUid, workspaceHash, normalized, hlossy]
      rfl
    rw [hupsert]
    constructor
    · have hthere : t'.rows.get? (workspaceUid platform dir) = some (Workspaces.reopened row old) := by
        rw [hafter, if_pos hknown.symm, ← hknown, hget]
        rfl
      show ∃ record, t'.getByUid (workspaceUid platform dir) = .ok record
      exact ⟨_, getByUid_of_get? hthere⟩
    · intro uid found hfound
      have hfound := (hafter uid).symm.trans hfound
      split at hfound
      · obtain ⟨old', hget', rfl⟩ := Option.map_eq_some_iff.mp hfound
        have hdir := hold hget'
        exact hdir
      · exact hold hfound
  | none =>
    have hfree : t.rows.get? (workspaceUid platform dir) = none := by
      cases hget : t.rows.get? (workspaceUid platform dir) with
      | none => rfl
      | some old =>
        obtain ⟨d, hd, huid, hlossy⟩ := hfilled _ old hget
        obtain rfl := hown d hd huid.symm
        exact absurd (hlossy.trans hroot.symm) (Workspaces.uidAt_none hat hget)
    obtain ⟨t', hupsert, hafter⟩ := Workspaces.upsert_new hat hfree
    rw [hupsert]
    constructor
    · have hthere : t'.rows.get? (workspaceUid platform dir) = some row := by
        rw [hafter, if_pos rfl]
      show ∃ record, t'.getByUid (workspaceUid platform dir) = .ok record
      exact ⟨_, getByUid_of_get? hthere⟩
    · intro uid found hfound
      have hfound := (hafter uid).symm.trans hfound
      split at hfound
      · rename_i huid
        obtain rfl := Option.some.inj hfound
        exact ⟨dir, List.mem_cons_self, huid, hroot⟩
      · exact hold hfound

/-! ## all registrations -/

theorem run_eq {registration : Registration} (h : registration.root platform = .ok dir) :
    registration.run platform t now = register platform t dir registration.displayName now := by
  unfold Registration.run
  rw [h]

theorem runAll_uid (hdirs : registrations.map (fun r => r.1.root platform) = dirs.map .ok)
    (hi : dirs[i]? = some dir) (h : (runAll platform t registrations)[i]? = some (.ok record)) :
    record.workspaceUid = workspaceUid platform dir := by
  induction registrations generalizing t dirs i with
  | nil => exact absurd h.symm (Option.some_ne_none _)
  | cons registration rest ih =>
    cases dirs with
    | nil => exact absurd hi.symm (Option.some_ne_none _)
    | cons d dirs =>
      obtain ⟨hroot, hrest⟩ := List.cons.inj hdirs
      cases i with
      | zero =>
        obtain rfl : d = dir := Option.some.inj hi
        have h : (registration.1.run platform t registration.2).2 = .ok record := Option.some.inj h
        rw [run_eq hroot] at h
        exact register_uid h
      | succ i => exact ih hrest hi h

theorem runAll_ok (hdirs : registrations.map (fun r => r.1.root platform) = dirs.map .ok)
    (hfilled : Filled platform done t) (hapart : Distinguished platform (done ++ dirs))
    (hi : dirs[i]? = some dir) : ∃ record, (runAll platform t registrations)[i]? = some (.ok record) := by
  induction registrations generalizing t dirs done i with
  | nil =>
    obtain rfl := List.map_eq_nil_iff.mp hdirs.symm
    exact absurd hi.symm (Option.some_ne_none _)
  | cons registration rest ih =>
    cases dirs with
    | nil => exact absurd hi.symm (Option.some_ne_none _)
    | cons d dirs =>
      obtain ⟨hroot, hrest⟩ := List.cons.inj hdirs
      have hsame := distinguished_iff.mp hapart
      have hd : d ∈ done ++ d :: dirs := List.mem_append_right _ List.mem_cons_self
      have hstep := register_ok registration.1.displayName registration.2 hfilled
        fun d' hd' => hsame d' (List.mem_append_left _ hd') d hd
      rw [← run_eq hroot] at hstep
      cases i with
      | zero =>
        obtain ⟨⟨record, hrecord⟩, -⟩ := hstep
        exact ⟨record, congrArg some hrecord⟩
      | succ i =>
        refine ih hrest hstep.2 ?_ hi
        intro p hp q hq
        have hmem {p : OsString} (hp : p ∈ d :: done ++ dirs) : p ∈ done ++ d :: dirs := by
          rw [List.cons_append, List.mem_cons, List.mem_append] at hp
          rw [List.mem_append, List.mem_cons]
          tauto
        exact hapart p (hmem hp) q (hmem hq)

/-- **the names tell the directories apart** exactly when their paths do, as the hash takes them in -/
theorem told_iff (platform : Platform) (appStateRoot : Path) (registrations : List (Registration × Int))
    (dirs : List OsString) (hdirs : registrations.map (fun r => r.1.root platform) = dirs.map .ok) :
    Told appStateRoot dirs (runAll platform Workspaces.empty registrations) ↔ Distinguished platform dirs := by
  constructor
  · intro htold
    rw [distinguished_iff]
    intro dir hdir dir' hdir' huid
    obtain ⟨i, hi⟩ := List.mem_iff_getElem?.mp hdir
    obtain ⟨j, hj⟩ := List.mem_iff_getElem?.mp hdir'
    obtain ⟨record, hrecord⟩ := htold.succeeds i dir hi
    obtain ⟨record', hrecord'⟩ := htold.succeeds j dir' hj
    by_contra hne
    apply (htold.separate i j dir dir' record record' hi hj hrecord hrecord' hne).1
    rw [runAll_uid hdirs hi hrecord, runAll_uid hdirs hj hrecord', huid]
  · intro hapart
    have hempty : Filled platform [] Workspaces.empty := fun _ _ h => absurd h.symm (Option.some_ne_none _)
    constructor
    · exact fun i dir hi => runAll_ok hdirs hempty hapart hi
    · intro i j dir record record' hi hj hrecord hrecord'
      exact (runAll_uid hdirs hi hrecord).trans (runAll_uid hdirs hj hrecord').symm
    · intro i j dir dir' record record' hi hj hrecord hrecord' hne
      have huid : record.workspaceUid ≠ record'.workspaceUid := by
        rw [runAll_uid hdirs hi hrecord, runAll_uid hdirs hj hrecord']
        intro huid
        exact hne (distinguished_iff.mp hapart dir (List.mem_of_getElem? hi) dir' (List.mem_of_getElem? hj) huid)
      exact ⟨huid, workspaceStateRoot_ne appStateRoot huid⟩

end

/-! ## paths that differ in case -/

/-- the file name below the last `/` -/
def unixFileName (path : OsString) : Option OsString :=
  let name := (path.reverse.takeWhile (· ≠ .char '/')).reverse
  if name = [] then none else some name

/-- a platform with `/`, for paths that are written out and in ASCII -/
def unix : Platform := ⟨Text.toAsciiLowercase, unixFileName, .ok, fun _ => true⟩

def workApp : OsString := ofText "/work/App"

def workapp : OsString := ofText "/work/app"

theorem workApp_told : [(Registration.servicesOpen workApp, 7)].map (fun r => r.1.root unix) = [workApp].map .ok ∧
    (Told ["state"] [workApp] (runAll unix Workspaces.empty [(.servicesOpen workApp, 7)]) ↔
      Distinguished unix [workApp]) :=
  ⟨rfl, told_iff unix ["state"] _ _ rfl⟩

/-- **the second is refused**: the name is that of the first, and the path is not -/
theorem cases_told_apart :
    [(Registration.servicesOpen workApp, 7), (.servicesOpen workapp, 8)].map (fun r => r.1.root unix) =
        [workApp, workapp].map .ok ∧ workApp ≠ workapp ∧
      ¬ Told ["state"] [workApp, workapp]
        (runAll unix Workspaces.empty [(.servicesOpen workApp, 7), (.servicesOpen workapp, 8)]) := by
  refine ⟨rfl, by decide, fun htold => ?_⟩
  obtain ⟨record, hrecord⟩ := htold.succeeds 1 workapp rfl
  have hrefused : (runAll unix Workspaces.empty
      [(.servicesOpen workApp, 7), (.servicesOpen workapp, 8)])[1]? =
        some (.error (.uniqueConstraintFailed "workspaces.workspace_uid")) := by decide +kernel
  cases hrefused.symm.trans hrecord

end WorkspaceRegistry

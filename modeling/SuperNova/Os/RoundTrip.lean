import Mathlib.Data.Fintype.EquivFin
import SuperNova.Os.ZipFormat
import SuperNova.Os.ZipNames

/-!
# Archives that are read back

`write_store_zip` writes the files at and below its sources, and `read_store_zip` reads them back into an
empty directory.

* `mem_entries`: what is written;
* `roundTrips_iff` (**main**): every archive that is written is read back as it was exactly when no name has
  a `\` or is too long for its field, and no file is.
-/

set_option linter.unusedSectionVars false

namespace Os

open Paths Io FileTree Workspace

/-- a workspace and the sources of an archive in it -/
structure ZipSources where
  disk : Disk
  workspaceRoot : Path
  sources : List (String × Path)
  root_dir : disk.entry workspaceRoot = some .dir
  below : ∀ s ∈ sources, workspaceRoot <+: s.2
  normal : ∀ p, disk.entry (workspaceRoot ++ p) ≠ none → ∀ c ∈ p, NormalName c

/-- the file lies at or below a source and is not the runtime's -/
def ZipSources.Holds (z : ZipSources) (p : Path) (bytes : Bytes) : Prop :=
  ∃ s ∈ z.sources, s.2 <+: z.workspaceRoot ++ p ∧
    runtimeDirName ∉ (z.workspaceRoot ++ p).drop s.2.length ∧
    z.disk.entry (z.workspaceRoot ++ p) = some (.file bytes)

/-- nothing is in the directory -/
structure EmptyDir (t : Disk) (directory : Path) : Prop where
  dir : t.entry directory = some .dir
  empty : ∀ x p, t.entry (directory ++ x :: p) = none

/-- every archive that is written of the sources is read back as they were -/
def ZipSources.RoundTrips (z : ZipSources) : Prop :=
  ∀ archive n t', Ok (writeStoreZip z.workspaceRoot z.sources archive) z.disk n t' →
    ∀ u directory, u.fileAt archive = t'.fileAt archive → EmptyDir u directory →
      ∃ u', Ok (readStoreZip archive directory) u n u' ∧
        ∀ p bytes, u'.fileAt (directory ++ p) = some bytes ↔ z.Holds p bytes

/-- nothing of the file is changed or cut off in an archive -/
structure Storable (p : Path) (bytes : Bytes) : Prop where
  separated : ∀ c ∈ p, Separated c
  name : (utf8 (Text.join "/" p)).length < 2 ^ 16
  size : bytes.length < 2 ^ 32

section
variable {z : ZipSources} {t t' u u' : Disk} {root source directory p q archive : Path} {bytes : Bytes}
  {e e' : ZipEntry} {l : List ZipEntry}

/-! ## what is written -/

def entryOf (root q : Path) (bytes : Bytes) : ZipEntry := ⟨zipName root q, bytes, crc32 bytes⟩

theorem mem_collect (fuel : Nat) : e ∈ collectZipEntries t root fuel source ↔
    ∃ q bytes, source <+: q ∧ q.length < source.length + fuel ∧ runtimeDirName ∉ q.drop source.length ∧
      t.entry q = some (.file bytes) ∧ e = entryOf root q bytes := by
  induction fuel generalizing source with
  | zero =>
    refine ⟨fun h => absurd h List.not_mem_nil, ?_⟩
    rintro ⟨q, bytes, hq, hlt, -⟩
    have hle := hq.length_le
    omega
  | succ fuel ih =>
    rw [collectZipEntries]
    cases hentry : t.entry source with
    | none =>
      refine ⟨fun h => absurd h List.not_mem_nil, ?_⟩
      rintro ⟨q, bytes, hq, -, -, hfile, -⟩
      rw [t.none_of_prefix hq hentry] at hfile
      cases hfile
    | some entry =>
      cases entry with
      | file content =>
        constructor
        · intro h
          exact ⟨source, content, List.prefix_rfl, by omega, by simp, hentry, List.mem_singleton.mp h⟩
        · rintro ⟨q, bytes, hq, -, -, hfile, rfl⟩
          have hsame : source = q := by
            by_contra hne
            have hdir := t.dir_of_strict hq hne (by rw [hfile]; exact Option.some_ne_none _)
            rw [hentry] at hdir
            cases hdir
          subst hsame
          cases hentry.symm.trans hfile
          exact List.mem_singleton_self _
      | dir =>
        simp only [List.mem_flatMap, List.mem_filter, Tree.mem_children, decide_eq_true_eq, ih]
        constructor
        · rintro ⟨name, ⟨-, hname⟩, q, bytes, hq, hlt, hruntime, hfile, rfl⟩
          obtain ⟨rest, rfl⟩ := hq
          refine ⟨_, bytes, ?_, ?_, ?_, hfile, rfl⟩
          · exact (List.prefix_append source [name]).trans (List.prefix_append _ rest)
          · simp only [List.length_append, List.length_cons, List.length_nil] at hlt ⊢
            omega
          · rw [List.drop_left] at hruntime
            rw [List.append_assoc, List.drop_left, List.singleton_append, List.mem_cons, not_or]
            exact ⟨hname.symm, hruntime⟩
        · rintro ⟨q, bytes, hq, hlt, hruntime, hfile, rfl⟩
          have hne : source ≠ q := by
            rintro rfl
            cases hentry.symm.trans hfile
          obtain ⟨name, rest, rfl⟩ := exists_of_strict hq hne
          rw [List.drop_left, List.mem_cons, not_or] at hruntime
          have happend : source ++ name :: rest = (source ++ [name]) ++ rest := by simp
          refine ⟨name, ⟨?_, fun h => hruntime.1 h.symm⟩, _, bytes, ?_, ?_, ?_, hfile, rfl⟩
          · rw [happend] at hfile
            exact fun hnone => by
              rw [t.none_of_prefix (List.prefix_append _ rest) hnone] at hfile
              cases hfile
          · rw [happend]
            exact List.prefix_append _ _
          · simp only [List.length_append, List.length_cons, List.length_nil] at hlt ⊢
            omega
          · rw [happend, List.drop_left]
            exact hruntime.2

theorem dedup_subset : ∀ l : List ZipEntry, dedupByName l ⊆ l
  | [] => by rw [dedupByName]; exact List.Subset.refl _
  | [_] => by rw [dedupByName]; exact List.Subset.refl _
  | e :: e' :: rest => by
    rw [dedupByName]
    split
    · exact List.Subset.trans (dedup_subset (e :: rest))
        (List.cons_subset_cons e (List.subset_cons_self e' rest))
    · exact List.cons_subset_cons e (dedup_subset (e' :: rest))

theorem name_mem_dedup : ∀ l : List ZipEntry, ∀ e ∈ l, ∃ e' ∈ dedupByName l, e'.name = e.name
  | [], _, h => absurd h List.not_mem_nil
  | [a], e, h => by
    rw [dedupByName]
    exact ⟨a, List.mem_singleton_self a, congrArg ZipEntry.name (List.mem_singleton.mp h).symm⟩
  | a :: b :: rest, e, h => by
    rw [dedupByName]
    split
    · next hname =>
      rcases List.mem_cons.mp h with rfl | h
      · exact name_mem_dedup (e :: rest) e List.mem_cons_self
      · rcases List.mem_cons.mp h with rfl | h
        · obtain ⟨e', he', heq⟩ := name_mem_dedup (a :: rest) a List.mem_cons_self
          exact ⟨e', he', heq.trans hname⟩
        · exact name_mem_dedup (a :: rest) e (List.mem_cons_of_mem a h)
    · rcases List.mem_cons.mp h with rfl | h
      · exact ⟨e, List.mem_cons_self, rfl⟩
      · obtain ⟨e', he', heq⟩ := name_mem_dedup (b :: rest) e h
        exact ⟨e', List.mem_cons_of_mem a he', heq⟩

theorem nodup_dedup : ∀ l : List ZipEntry, l.Pairwise (fun a b => a.name ≤ b.name) →
    (dedupByName l).Pairwise fun a b => a.name < b.name
  | [], _ => by rw [dedupByName]; exact List.Pairwise.nil
  | [_], _ => by rw [dedupByName]; exact List.pairwise_singleton _ _
  | a :: b :: rest, h => by
    obtain ⟨ha, hrest⟩ := List.pairwise_cons.mp h
    rw [dedupByName]
    split
    · refine nodup_dedup (a :: rest) (List.pairwise_cons.mpr ⟨fun c hc => ?_, (List.pairwise_cons.mp hrest).2⟩)
      exact ha c (List.mem_cons_of_mem b hc)
    · next hne =>
      refine List.pairwise_cons.mpr ⟨fun c hc => ?_, nodup_dedup (b :: rest) hrest⟩
      have hab : a.name < b.name := lt_of_le_of_ne (ha b List.mem_cons_self) hne
      rcases List.mem_cons.mp (dedup_subset _ hc) with rfl | hc
      · exact hab
      · exact hab.trans_le ((List.pairwise_cons.mp hrest).1 c hc)

/-- the entries of the archive -/
def ZipSources.entries (z : ZipSources) : List ZipEntry :=
  dedupByName ((z.sources.flatMap fun s =>
    collectZipEntries z.disk z.workspaceRoot (z.disk.depth + 1) s.2).insertionSort fun a b => a.name ≤ b.name)

theorem writeStoreZip_iff {n : Nat} : Ok (writeStoreZip z.workspaceRoot z.sources archive) z.disk n t' ↔
    n = z.entries.length ∧ Ok (write archive (zipBytes z.entries)) z.disk () t' := by
  constructor
  · intro h
    obtain ⟨_, _, hget, h⟩ := bind_ok.mp h
    cases hget
    obtain ⟨_, t1, hwrite, h⟩ := bind_ok.mp h
    cases h
    exact ⟨rfl, hwrite⟩
  · rintro ⟨rfl, hwrite⟩
    exact bind_ok.mpr ⟨_, _, rfl, bind_ok.mpr ⟨_, _, hwrite, rfl⟩⟩

theorem mem_collected : (∃ s ∈ z.sources, e ∈ collectZipEntries z.disk z.workspaceRoot (z.disk.depth + 1) s.2) ↔
    ∃ p bytes, z.Holds p bytes ∧ e = entryOf z.workspaceRoot (z.workspaceRoot ++ p) bytes := by
  constructor
  · rintro ⟨s, hs, he⟩
    obtain ⟨q, bytes, hq, -, hruntime, hfile, rfl⟩ := (mem_collect _).mp he
    obtain ⟨p, rfl⟩ := (z.below s hs).trans hq
    exact ⟨p, bytes, ⟨s, hs, hq, hruntime, hfile⟩, rfl⟩
  · rintro ⟨p, bytes, ⟨s, hs, hq, hruntime, hfile⟩, rfl⟩
    refine ⟨s, hs, (mem_collect _).mpr ⟨_, bytes, hq, ?_, hruntime, hfile, rfl⟩⟩
    have hdepth := z.disk.length_le_depth (p := z.workspaceRoot ++ p) (by rw [hfile]; exact Option.some_ne_none _)
    omega

theorem mem_sorted : e ∈ (z.sources.flatMap fun s =>
      collectZipEntries z.disk z.workspaceRoot (z.disk.depth + 1) s.2).insertionSort (fun a b => a.name ≤ b.name) ↔
    ∃ p bytes, z.Holds p bytes ∧ e = entryOf z.workspaceRoot (z.workspaceRoot ++ p) bytes := by
  rw [List.mem_insertionSort, List.mem_flatMap, mem_collected]

theorem of_mem_entries (h : e ∈ z.entries) :
    ∃ p bytes, z.Holds p bytes ∧ e = entryOf z.workspaceRoot (z.workspaceRoot ++ p) bytes :=
  mem_sorted.mp (dedup_subset _ h)

theorem exists_entry (h : z.Holds p bytes) :
    ∃ e ∈ z.entries, e.name = zipName z.workspaceRoot (z.workspaceRoot ++ p) :=
  name_mem_dedup _ _ (mem_sorted.mpr ⟨p, bytes, h, rfl⟩)

theorem entries_sorted : z.entries.Pairwise fun a b => a.name < b.name := by
  refine nodup_dedup _ ?_
  exact List.pairwise_insertionSort (fun a b : ZipEntry => a.name ≤ b.name) _

theorem ZipSources.Holds.normal (h : z.Holds p bytes) : ∀ c ∈ p, NormalName c := by
  obtain ⟨s, -, -, -, hfile⟩ := h
  exact z.normal p (by rw [hfile]; exact Option.some_ne_none _)

theorem ZipSources.Holds.file (h : z.Holds p bytes) : z.disk.entry (z.workspaceRoot ++ p) = some (.file bytes) := by
  obtain ⟨s, -, -, -, hfile⟩ := h
  exact hfile

theorem ZipSources.Holds.ne_nil (h : z.Holds p bytes) : p ≠ [] := by
  rintro rfl
  have hfile := h.file
  rw [List.append_nil, z.root_dir] at hfile
  cases hfile

theorem ZipSources.Holds.apart {bytes' : Bytes} (h : z.Holds p bytes) (h' : z.Holds q bytes') (hne : p ≠ q) :
    Apart p q := by
  have hnot : ∀ {p q bytes bytes'}, z.Holds p bytes → z.Holds q bytes' → p ≠ q → ¬ p <+: q := by
    intro p q bytes bytes' h h' hne hpq
    obtain ⟨x, r, rfl⟩ := exists_of_strict hpq hne
    have hdir := z.disk.dir_above (p := z.workspaceRoot ++ p) x r (by
      rw [List.append_assoc, h'.file]
      exact Option.some_ne_none _)
    rw [h.file] at hdir
    cases hdir
  exact ⟨hnot h h' hne, hnot h' h hne.symm⟩

/-! ## what unpacking leaves -/

theorem of_unpackAll {entries : List (Path × Bytes)} (h : Ok (unpackAll entries) u () u')
    (hq : u'.fileAt q = some bytes) : (q, bytes) ∈ entries ∨ u.fileAt q = some bytes := by
  induction entries generalizing u with
  | nil =>
    cases h
    exact Or.inr hq
  | cons entry entries ih =>
    obtain ⟨u1, hwrite, hrest⟩ := forM_cons_ok.mp h
    rcases ih hrest with hmem | hfile
    · exact Or.inl (List.mem_cons_of_mem _ hmem)
    · obtain ⟨-, -, -, hentry⟩ := writeAt_ok hwrite
      rw [Tree.fileAt_eq_some, hentry] at hfile
      split at hfile
      · next hself =>
        cases hfile
        exact Or.inl (hself ▸ List.mem_cons_self)
      · split at hfile
        · cases hfile
        · exact Or.inr (Tree.fileAt_eq_some.mpr hfile)

theorem unpackAll_keeps {entries : List (Path × Bytes)} (h : Ok (unpackAll entries) u () u')
    (hapart : ∀ entry ∈ entries, Apart q entry.1) (hq : u.fileAt q = some bytes) :
    u'.fileAt q = some bytes := by
  induction entries generalizing u with
  | nil =>
    cases h
    exact hq
  | cons entry entries ih =>
    obtain ⟨u1, hwrite, hrest⟩ := forM_cons_ok.mp h
    obtain ⟨-, -, -, hentry⟩ := writeAt_ok hwrite
    have haway := hapart entry List.mem_cons_self
    refine ih hrest (fun later hlater => hapart later (List.mem_cons_of_mem _ hlater)) ?_
    rw [← hq]
    exact Tree.fileAt_congr (by rw [hentry, if_neg haway.ne, if_neg haway.1])

theorem unpackAll_mem {entries : List (Path × Bytes)} (h : Ok (unpackAll entries) u () u')
    (hapart : entries.Pairwise fun a b => Apart a.1 b.1) {entry : Path × Bytes} (hentry : entry ∈ entries) :
    u'.fileAt entry.1 = some entry.2 := by
  induction entries generalizing u with
  | nil => cases hentry
  | cons first entries ih =>
    obtain ⟨u1, hwrite, hrest⟩ := forM_cons_ok.mp h
    obtain ⟨hfirst, hlater⟩ := List.pairwise_cons.mp hapart
    rcases List.mem_cons.mp hentry with rfl | hmem
    · obtain ⟨-, -, -, hwritten⟩ := writeAt_ok hwrite
      refine unpackAll_keeps hrest hfirst (Tree.fileAt_eq_some.mpr ?_)
      rw [hwritten, if_pos rfl]
    · exact ih hrest hlater hmem

/-! ## an empty directory -/

theorem EmptyDir.fileAt (h : EmptyDir u directory) (p : Path) : u.fileAt (directory ++ p) = none := by
  cases p with
  | nil =>
    rw [List.append_nil]
    exact Tree.fileAt_of_dir h.dir
  | cons x p => exact Tree.fileAt_of_none (h.empty x p)

theorem EmptyDir.free (h : EmptyDir u directory) (hp : p ≠ []) : Free u (directory ++ p) := by
  constructor
  · intro q hq
    rcases List.prefix_or_prefix_of_prefix (hq.trans (dropLast_above _)) (List.prefix_append directory p) with
      habove | ⟨r, rfl⟩
    · exact Tree.noFileTo_of_dir h.dir q habove
    · exact h.fileAt r
  · cases p with
    | nil => exact absurd rfl hp
    | cons x r =>
      rw [h.empty x r]
      exact nofun

/-! ## reading back -/

theorem resolveArchiveEntry_iff {name : String} : resolveArchiveEntry directory name = .ok q ↔
    (isAbsolute name = false ∧ ".." ∉ components name) ∧ q = directory ++ components name := by
  unfold resolveArchiveEntry
  by_cases hbad : isAbsolute name = true ∨ ".." ∈ components name
  · rw [if_pos hbad]
    constructor
    · exact nofun
    · rintro ⟨⟨habsolute, hdots⟩, -⟩
      rcases hbad with hbad | hbad
      · rw [habsolute] at hbad
        cases hbad
      · exact absurd hbad hdots
  · rw [if_neg hbad]
    rw [not_or, Bool.not_eq_true] at hbad
    constructor
    · intro h
      cases h
      exact ⟨hbad, rfl⟩
    · rintro ⟨-, rfl⟩
      rfl

theorem archiveEntries_bounded {entry : Path × Bytes} (fuel offset : Nat)
    (h : entry ∈ (archiveEntries bytes directory fuel offset).1) :
    ∃ name, resolveArchiveEntry directory name = .ok entry.1 ∧ (utf8 name).length < 2 ^ 16 ∧
      entry.2.length < 2 ^ 32 := by
  induction fuel generalizing offset with
  | zero => exact absurd h List.not_mem_nil
  | succ fuel ih =>
    rw [archiveEntries] at h
    split at h
    · split at h
      · exact absurd h List.not_mem_nil
      · exact absurd h List.not_mem_nil
      · next name data next hread =>
        split at h
        · exact absurd h List.not_mem_nil
        · next text htext =>
          split at h
          · exact absurd h List.not_mem_nil
          · next target htarget =>
            rcases List.mem_cons.mp h with rfl | h
            · obtain ⟨hname, hdata⟩ := readEntry_bounded hread
              refine ⟨text, htarget, ?_, hdata⟩
              rwa [utf8_of_fromUTF8 htext]
            · exact ih _ h
    · exact absurd h List.not_mem_nil

/-! ## files that can be stored -/

theorem name_entryOf (h : z.Holds p bytes) (hstorable : Storable p bytes) :
    components (zipName z.workspaceRoot (z.workspaceRoot ++ p)) = p :=
  components_zipName h.normal hstorable.separated

theorem fits_entryOf (root : Path) (hstorable : Storable p bytes) : Fits (entryOf root (root ++ p) bytes) where
  name := by
    show (utf8 (zipName root (root ++ p))).length < 2 ^ 16
    rw [zipName_eq, length_utf8_normalizePath]
    exact hstorable.name
  size := hstorable.size

theorem resolve_entryOf (h : z.Holds p bytes) (hstorable : Storable p bytes) (directory : Path) :
    resolveArchiveEntry directory (zipName z.workspaceRoot (z.workspaceRoot ++ p)) = .ok (directory ++ p) := by
  have hname := name_entryOf h hstorable
  refine resolveArchiveEntry_iff.mpr ⟨⟨?_, ?_⟩, by rw [hname]⟩
  · rw [zipName_eq, normalizePath_of_separated (separated_join hstorable.separated)]
    exact isAbsolute_join h.normal
  · rw [hname]
    exact fun hdots => (h.normal _ hdots).ne_dots rfl

theorem length_le_locals (l : List ZipEntry) : l.length ≤ (locals l).length := by
  induction l with
  | nil => exact Nat.le_refl _
  | cons e l ih =>
    rw [locals_cons, List.length_cons, List.length_append, List.length_append, length_localHeader]
    omega

/-- **an archive of files that can be stored** is read back as it was -/
theorem roundTrips_of_storable (hstorable : ∀ p bytes, z.Holds p bytes → Storable p bytes) : z.RoundTrips := by
  intro archive n t' hwrite u directory hsame hempty
  obtain ⟨rfl, hput⟩ := writeStoreZip_iff.mp hwrite
  obtain ⟨-, -, -, hentry⟩ := write_ok hput
  have harchive : u.fileAt archive = some (zipBytes z.entries) := by
    rw [hsame, Tree.fileAt_eq_some, hentry, if_pos rfl]
  obtain ⟨tail, hbytes, htail⟩ := zipBytes_eq z.entries
  let files := z.entries.map fun e => (directory ++ components e.name, e.bytes)
  have hread : archiveEntries (zipBytes z.entries) directory ((zipBytes z.entries).length + 1) 0 =
      (files, true) := by
    have hfits : ∀ e ∈ z.entries, Fits e := by
      intro e he
      obtain ⟨p, bytes, hp, rfl⟩ := of_mem_entries he
      exact fits_entryOf z.workspaceRoot (hstorable p bytes hp)
    have hresolve : ∀ e ∈ z.entries, resolveArchiveEntry directory e.name =
        .ok (directory ++ components e.name) := by
      intro e he
      obtain ⟨p, bytes, hp, rfl⟩ := of_mem_entries he
      have hname := name_entryOf hp (hstorable p bytes hp)
      show _ = Except.ok (directory ++ components (zipName _ _))
      rw [hname]
      exact resolve_entryOf hp (hstorable p bytes hp) directory
    have hfuel : z.entries.length < (zipBytes z.entries).length + 1 := by
      have hle := length_le_locals z.entries
      rw [hbytes, List.length_append]
      omega
    have hall := @archiveEntries_locals [] z.entries directory hfits hresolve tail htail _ hfuel
    rwa [List.nil_append, ← hbytes] at hall
  -- each file is where it was
  have hmem : ∀ p bytes, (directory ++ p, bytes) ∈ files ↔ z.Holds p bytes := by
    intro p bytes
    constructor
    · intro h
      obtain ⟨e, he, heq⟩ := List.mem_map.mp h
      obtain ⟨p', bytes', hp', rfl⟩ := of_mem_entries he
      have hname := name_entryOf hp' (hstorable p' bytes' hp')
      change (directory ++ components (zipName _ _), bytes') = _ at heq
      rw [hname] at heq
      obtain ⟨hpath, rfl⟩ := Prod.mk.inj heq
      rwa [← List.append_cancel_left hpath]
    · intro h
      obtain ⟨e, he, hname⟩ := exists_entry h
      obtain ⟨p', bytes', hp', rfl⟩ := of_mem_entries he
      have hcomponents := congrArg components hname
      change components (zipName _ _) = _ at hcomponents
      rw [name_entryOf hp' (hstorable p' bytes' hp'), name_entryOf h (hstorable p bytes h)] at hcomponents
      subst hcomponents
      cases hp'.file.symm.trans h.file
      refine List.mem_map.mpr ⟨_, he, ?_⟩
      show (directory ++ components (zipName _ _), bytes) = _
      rw [name_entryOf h (hstorable _ bytes h)]
  have hapart : files.Pairwise fun a b => Apart a.1 b.1 := by
    refine List.pairwise_map.mpr (entries_sorted.imp_of_mem ?_)
    intro a b ha hb hlt
    obtain ⟨p, bytes, hp, rfl⟩ := of_mem_entries ha
    obtain ⟨q, bytes', hq, rfl⟩ := of_mem_entries hb
    show Apart (directory ++ components (zipName _ _)) (directory ++ components (zipName _ _))
    rw [name_entryOf hp (hstorable p bytes hp), name_entryOf hq (hstorable q bytes' hq), apart_append_left]
    refine hp.apart hq ?_
    rintro rfl
    exact absurd hlt (lt_irrefl _)
  have hunpacks : Unpacks u files := by
    refine ⟨fun entry hentry => ?_, hapart.imp fun h => Or.inr h⟩
    obtain ⟨e, he, rfl⟩ := List.mem_map.mp hentry
    obtain ⟨p, bytes, hp, rfl⟩ := of_mem_entries he
    have hname := name_entryOf hp (hstorable p bytes hp)
    show Free u (directory ++ components (zipName _ _))
    rw [hname]
    exact hempty.free hp.ne_nil
  obtain ⟨u', hunpack⟩ := unpackAll_total files hunpacks
  refine ⟨u', bind_ok.mpr ⟨_, u, read_ok.mpr ⟨Tree.fileAt_eq_some.mp harchive, rfl⟩, ?_⟩, fun p bytes => ?_⟩
  · refine (readEntries_ok _).mpr ?_
    rw [hread]
    exact ⟨rfl, by rw [Nat.zero_add, List.length_map], hunpack⟩
  · rw [← hmem p bytes]
    constructor
    · intro hfile
      rcases of_unpackAll hunpack hfile with hin | hbefore
      · exact hin
      · rw [hempty.fileAt] at hbefore
        cases hbefore
    · exact fun hin => unpackAll_mem hunpack hapart hin

/-! ## files that cannot -/

theorem entry_empty (hq : q ≠ []) : (Tree.empty : Disk).entry q = none := by
  show (if q = [] then some Entry.dir else none) = none
  exact if_neg hq

theorem exists_archive (z : ZipSources) : ∃ archive t', Ok (write archive (zipBytes z.entries)) z.disk () t' ∧
    ∃ u directory, u.fileAt archive = t'.fileAt archive ∧ EmptyDir u directory := by
  obtain ⟨x, hx⟩ := Infinite.exists_notMem_finset (z.disk.children []).toFinset
  have hfree : z.disk.entry [x] = none := by
    by_contra hne
    exact hx (List.mem_toFinset.mpr (Tree.mem_children.mpr hne))
  have hdir : z.disk.entry [x] ≠ some .dir := by
    rw [hfree]
    exact nofun
  obtain ⟨t', hwrite⟩ := write_total (zipBytes z.entries) (List.cons_ne_nil x []) z.disk.root hdir
  obtain ⟨-, -, -, hentry⟩ := write_ok hwrite
  -- the archive alone on a disk, and a new directory next to it
  have halone : (Tree.empty : Disk).entry [x] ≠ some .dir := by
    rw [entry_empty (List.cons_ne_nil x [])]
    exact nofun
  obtain ⟨u, hput⟩ := write_total (zipBytes z.entries) (List.cons_ne_nil x []) (Tree.empty : Disk).root halone
  obtain ⟨-, -, -, hu⟩ := write_ok hput
  have hne : x ++ "_" ≠ x := by
    intro h
    have hlength := congrArg (fun s : String => s.toList.length) h
    simp at hlength
  have hnot : ¬ [x] <+: [x ++ "_"] := fun h => hne (List.cons_prefix_cons.mp h).1.symm
  refine ⟨[x], t', hwrite, u.mkdirs [x ++ "_"], [x ++ "_"], ?_, ?_, fun y p => ?_⟩
  · refine Tree.fileAt_congr ?_
    rw [Tree.mkdirs_entry, if_neg hnot, hu, hentry, if_pos rfl, if_pos rfl]
  · rw [Tree.mkdirs_entry, if_pos List.prefix_rfl]
  · have hlonger : ¬ [x ++ "_"] ++ y :: p <+: [x ++ "_"] := fun h => by simpa using h.length_le
    have hother : [x ++ "_"] ++ y :: p ≠ [x] := fun h => by simp at h
    rw [Tree.mkdirs_entry, if_neg hlonger, hu, if_neg hother]
    exact entry_empty (List.cons_ne_nil _ _)

theorem storable_of_roundTrips (h : z.RoundTrips) : ∀ p bytes, z.Holds p bytes → Storable p bytes := by
  obtain ⟨archive, t', hwrite, u, directory, hsame, hempty⟩ := exists_archive z
  obtain ⟨u', hread, hfiles⟩ := h archive _ t' (writeStoreZip_iff.mpr ⟨rfl, hwrite⟩) u directory hsame hempty
  obtain ⟨-, -, -, hentry⟩ := write_ok hwrite
  have harchive : t'.fileAt archive = some (zipBytes z.entries) := by
    rw [Tree.fileAt_eq_some, hentry, if_pos rfl]
  obtain ⟨content, u1, hcontent, hloop⟩ := bind_ok.mp hread
  obtain ⟨hbytes, rfl⟩ := read_ok.mp hcontent
  rw [← Tree.fileAt_eq_some, hsame, harchive] at hbytes
  cases hbytes
  obtain ⟨-, -, hunpack⟩ := (readEntries_ok _).mp hloop
  -- every file of the sources was read
  have hread : ∀ p bytes, z.Holds p bytes → (directory ++ p, bytes) ∈
      (archiveEntries (zipBytes z.entries) directory ((zipBytes z.entries).length + 1) 0).1 := by
    intro p bytes hp
    rcases of_unpackAll hunpack ((hfiles p bytes).mpr hp) with hin | hbefore
    · exact hin
    · rw [hempty.fileAt] at hbefore
      cases hbefore
  have hshort : ∀ p bytes, z.Holds p bytes →
      (utf8 (Text.join "/" p)).length < 2 ^ 16 ∧ bytes.length < 2 ^ 32 := by
    intro p bytes hp
    obtain ⟨name, hresolve, hname, hsize⟩ := archiveEntries_bounded _ _ (hread p bytes hp)
    have hcomponents := List.append_cancel_left (resolveArchiveEntry_iff.mp hresolve).2
    refine ⟨?_, hsize⟩
    rw [hcomponents]
    exact (length_utf8_components name).trans_lt hname
  have hfits : ∀ e ∈ z.entries, Fits e := by
    intro e he
    obtain ⟨p, bytes, hp, rfl⟩ := of_mem_entries he
    obtain ⟨hname, hsize⟩ := hshort p bytes hp
    refine ⟨?_, hsize⟩
    show (utf8 (zipName _ _)).length < 2 ^ 16
    rw [zipName_eq, length_utf8_normalizePath]
    exact hname
  obtain ⟨tail, htail, hends⟩ := zipBytes_eq z.entries
  intro p bytes hp
  obtain ⟨hname, hsize⟩ := hshort p bytes hp
  refine ⟨fun c hc => ?_, hname, hsize⟩
  have hmem := hread p bytes hp
  have hwritten := @mem_archiveEntries [] z.entries hfits tail hends directory
    ((zipBytes z.entries).length + 1) (directory ++ p, bytes)
  rw [List.nil_append, ← htail] at hwritten
  obtain ⟨e, he, hresolve, -⟩ := hwritten hmem
  obtain ⟨p', bytes', hp', rfl⟩ := of_mem_entries he
  have hcomponents := List.append_cancel_left (resolveArchiveEntry_iff.mp hresolve).2
  change p = components (zipName _ _) at hcomponents
  rw [zipName_eq] at hcomponents
  rw [hcomponents] at hc
  exact separated_components hc

end

/-- **every archive that is written is read back as it was, exactly when no name has a `\` or 2^16 bytes and
no file has 2^32 bytes** -/
theorem roundTrips_iff (z : ZipSources) : z.RoundTrips ↔ ∀ p bytes, z.Holds p bytes → Storable p bytes :=
  ⟨storable_of_roundTrips, roundTrips_of_storable⟩

/-- one file whose name has a `\` -/
def backslashSources : ZipSources where
  disk := (Tree.empty : Disk).put ["a\\b"] [] (by decide) (by decide) (by decide)
  workspaceRoot := []
  sources := [("a/b", ["a\\b"])]
  root_dir := rfl
  below := fun _ _ => List.nil_prefix
  normal := by
    intro p hp c hc
    rw [List.nil_append, Tree.put_entry] at hp
    by_cases hself : p = ["a\\b"]
    · rw [hself, List.mem_singleton] at hc
      subst hc
      exact ⟨by decide, by decide, by decide, by decide⟩
    · rw [if_neg hself] at hp
      cases p with
      | nil => cases hc
      | cons x p => exact absurd (entry_empty (List.cons_ne_nil x p)) hp

theorem backslash_changes : ¬ ∀ z : ZipSources, z.RoundTrips := by
  intro h
  have hholds : backslashSources.Holds ["a\\b"] [] := by
    refine ⟨_, List.mem_cons_self, List.prefix_rfl, by decide, ?_⟩
    rfl
  have hstorable := storable_of_roundTrips (h backslashSources) _ _ hholds
  exact absurd (hstorable.separated _ List.mem_cons_self) (by decide)

end Os

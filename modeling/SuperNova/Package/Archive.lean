import SuperNova.Os.RoundTrip
import SuperNova.Package.Verify

/-!
# Archives that are verified

What `verify_store_zip_file` makes of an archive that `write_store_zip` wrote.

* `verifyStoreZip_iff`: it accepts exactly the archives with an entry, when every entry fits its fields;
* `stored_of_mem`: each entry is stored under its name.
-/

set_option linter.unusedSectionVars false

namespace Package

open Io FileTree Workspace Os

/-! ## what is stored -/

/-- the content is stored under the name at or after an offset -/
inductive StoredFrom (archive : Bytes) (name : String) (content : Bytes) : Nat → Prop where
  | here {offset next : Nat} :
    readEntry archive offset = .ok (some (utf8 name, content, next)) → StoredFrom archive name content offset
  | later {offset next : Nat} {other data : Bytes} :
    readEntry archive offset = .ok (some (other, data, next)) → StoredFrom archive name content next →
    StoredFrom archive name content offset

section
variable {bytes front tail name data content : Bytes} {e : ZipEntry} {entries : List ZipEntry}
  {offset next count fuel n : Nat} {t t' : Disk} {root destination archive p source : Path}
  {sources : List (String × Path)}

theorem stored_of_mem (hfits : ∀ e ∈ entries, Fits e) (he : e ∈ entries) :
    StoredFrom (front ++ (locals entries ++ tail)) e.name e.bytes front.length := by
  induction entries generalizing front with
  | nil => cases he
  | cons a entries ih =>
    have hread := @readEntry_local front (locals entries ++ tail) a (hfits a List.mem_cons_self)
    have happend : front ++ (locals (a :: entries) ++ tail) =
        front ++ (localHeader a ++ (a.bytes ++ (locals entries ++ tail))) := by
      rw [locals_cons, List.append_assoc, List.append_assoc]
    rw [happend]
    rcases List.mem_cons.mp he with rfl | he
    · exact StoredFrom.here hread
    · have hrest := @ih (front ++ (localHeader a ++ a.bytes)) (fun b hb => hfits b (List.mem_cons_of_mem a hb)) he
      have hshift : front ++ (localHeader a ++ a.bytes) ++ (locals entries ++ tail) =
          front ++ (localHeader a ++ (a.bytes ++ (locals entries ++ tail))) := by
        simp only [List.append_assoc]
      rw [hshift, List.length_append] at hrest
      exact StoredFrom.later hread hrest

/-! ## the loop of the verifier -/

theorem toOption_verifyEntry :
    (verifyEntry bytes offset).toOption = (readEntry bytes offset).toOption.map (Option.map (·.2.2)) := by
  rw [verifyEntry, readEntry]
  unfold readHeader
  cases readLe 4 bytes offset with
  | error e => rfl
  | ok signature =>
    show (ite _ _ _ : Except Fault (Option Nat)).toOption = Option.map _ (ite _ _ _ : Except Fault _).toOption
    split
    · rfl
    split
    · rfl
    cases readLe 2 bytes (offset + 8) with
    | error e => rfl
    | ok method =>
      show (ite _ _ _ : Except Fault (Option Nat)).toOption = Option.map _ (ite _ _ _ : Except Fault _).toOption
      split
      · rfl
      cases readLe 4 bytes (offset + 18) with
      | error e => rfl
      | ok size =>
        cases readLe 2 bytes (offset + 26) with
        | error e => rfl
        | ok nameLen =>
          cases readLe 2 bytes (offset + 28) with
          | error e => rfl
          | ok extraLen =>
            show (ite _ _ _ : Except Fault (Option Nat)).toOption = Option.map _ (ite _ _ _ : Except Fault _).toOption
            split
            · rfl
            · rfl

theorem ok_iff_toOption {α : Type} {x : Except Fault α} {a : α} : x = .ok a ↔ x.toOption = some a := by
  cases x with
  | error e => exact ⟨nofun, nofun⟩
  | ok b => exact ⟨fun h => by cases h; rfl, fun h => congrArg Except.ok (Option.some.inj h)⟩

theorem verifyEntry_some : verifyEntry bytes offset = .ok (some next) ↔
    ∃ name data, readEntry bytes offset = .ok (some (name, data, next)) := by
  rw [ok_iff_toOption, toOption_verifyEntry]
  rcases readEntry bytes offset with e | (_ | ⟨name, data, next'⟩)
  · exact ⟨nofun, nofun⟩
  · exact ⟨nofun, nofun⟩
  · constructor
    · intro h
      cases h
      exact ⟨name, data, rfl⟩
    · rintro ⟨name', data', h⟩
      cases h
      rfl

theorem verifyEntry_none : verifyEntry bytes offset = .ok none ↔ readEntry bytes offset = .ok none := by
  rw [ok_iff_toOption, toOption_verifyEntry]
  rcases readEntry bytes offset with e | (_ | ⟨name, data, next'⟩)
  · exact ⟨nofun, nofun⟩
  · exact ⟨fun _ => rfl, fun _ => rfl⟩
  · exact ⟨nofun, nofun⟩

theorem verifyEntries_locals (hfits : ∀ e ∈ entries, Fits e) (hends : Ends tail) (hfuel : entries.length < fuel) :
    verifyEntries (front ++ (locals entries ++ tail)) fuel front.length count = .ok (count + entries.length) := by
  induction entries generalizing front count fuel with
  | nil =>
    cases fuel with
    | zero => cases hfuel
    | succ fuel =>
      have hempty : locals [] ++ tail = tail := rfl
      rw [hempty, verifyEntries, verifyEntry_none.mpr (readEntry_ends hends)]
      split <;> rfl
  | cons e entries ih =>
    cases fuel with
    | zero => cases hfuel
    | succ fuel =>
      have hmore : front.length + 4 ≤ (front ++ (localHeader e ++ (e.bytes ++ (locals entries ++ tail)))).length := by
        simp only [List.length_append, length_localHeader]
        omega
      have hshift : front ++ (localHeader e ++ (e.bytes ++ (locals entries ++ tail))) =
          front ++ (localHeader e ++ e.bytes) ++ (locals entries ++ tail) := by
        simp only [List.append_assoc]
      have happend : front ++ (locals (e :: entries) ++ tail) =
          front ++ (localHeader e ++ (e.bytes ++ (locals entries ++ tail))) := by
        rw [locals_cons, List.append_assoc, List.append_assoc]
      have hrest := @ih (front ++ (localHeader e ++ e.bytes)) (count + 1) fuel
        (fun b hb => hfits b (List.mem_cons_of_mem e hb)) (Nat.lt_of_succ_lt_succ hfuel)
      rw [happend, verifyEntries, if_pos hmore,
        verifyEntry_some.mpr ⟨_, _, readEntry_local (hfits e List.mem_cons_self)⟩]
      show verifyEntries _ fuel _ (count + 1) = _
      rw [hshift, ← List.length_append, hrest, List.length_cons]
      exact congrArg Except.ok (by omega)

theorem verifyStoreZip_iff (hfile : t.fileAt archive = some (zipBytes entries)) (hfits : ∀ e ∈ entries, Fits e) :
    (∃ n, verifyStoreZipFile t archive = .ok n ∧ n ≠ 0) ↔ entries ≠ [] := by
  obtain ⟨tail, hbytes, hends⟩ := zipBytes_eq entries
  have hread : readFile t archive = .ok (zipBytes entries) := by
    rw [readFile, Tree.fileAt_eq_some.mp hfile]
  have hcount : verifyEntries (zipBytes entries) ((zipBytes entries).length + 1) 0 0 = .ok entries.length := by
    have hfuel : entries.length < (zipBytes entries).length + 1 := by
      have hle := length_le_locals entries
      rw [hbytes, List.length_append]
      omega
    have hloop := @verifyEntries_locals [] tail entries 0 _ hfits hends hfuel
    rw [List.nil_append, ← hbytes, Nat.zero_add] at hloop
    exact hloop
  have hverify : verifyStoreZipFile t archive =
      if entries.length = 0 then .error (.invalidData "no local zip entries found") else .ok entries.length := by
    rw [verifyStoreZipFile, hread]
    show (verifyEntries (zipBytes entries) ((zipBytes entries).length + 1) 0 0 >>= _) = _
    rw [hcount]
    rfl
  rw [hverify]
  constructor
  · rintro ⟨n, hn, -⟩ rfl
    cases hn
  · intro hne
    have hlength : entries.length ≠ 0 := fun h => hne (List.length_eq_zero_iff.mp h)
    exact ⟨_, if_neg hlength, hlength⟩

/-! ## what is written -/

/-- the entries of an archive of the sources -/
def packed (t : Disk) (root : Path) (sources : List (String × Path)) : List ZipEntry :=
  dedupByName ((sources.flatMap fun s => collectZipEntries t root (t.depth + 1) s.2).insertionSort
    fun a b => a.name ≤ b.name)

theorem writeStoreZip_packed (h : Ok (writeStoreZip root sources destination) t n t') :
    Ok (write destination (zipBytes (packed t root sources))) t () t' := by
  obtain ⟨_, _, hget, h⟩ := bind_ok.mp h
  cases hget
  obtain ⟨_, t1, hwrite, h⟩ := bind_ok.mp h
  cases h
  exact hwrite

theorem collect_file (h : t.fileAt source = some content) (fuel : Nat) :
    collectZipEntries t root (fuel + 1) source = [entryOf root source content] := by
  rw [collectZipEntries, Tree.fileAt_eq_some.mp h]
  rfl

theorem of_mem_packed (hfiles : ∀ s ∈ sources, ∃ content, t.fileAt s.2 = some content)
    (he : e ∈ packed t root sources) :
    ∃ s ∈ sources, ∃ content, t.fileAt s.2 = some content ∧ e = entryOf root s.2 content := by
  have hmem := dedup_subset _ he
  rw [List.mem_insertionSort, List.mem_flatMap] at hmem
  obtain ⟨s, hs, he⟩ := hmem
  obtain ⟨content, hcontent⟩ := hfiles s hs
  rw [collect_file hcontent, List.mem_singleton] at he
  exact ⟨s, hs, content, hcontent, he⟩

theorem exists_packed {s : String × Path} (hs : s ∈ sources) (hfile : t.fileAt s.2 = some content) :
    ∃ e ∈ packed t root sources, e.name = zipName root s.2 := by
  have hmem : entryOf root s.2 content ∈ sources.flatMap fun s => collectZipEntries t root (t.depth + 1) s.2 := by
    refine List.mem_flatMap.mpr ⟨s, hs, ?_⟩
    rw [collect_file hfile]
    exact List.mem_singleton_self _
  exact name_mem_dedup _ _ (List.mem_insertionSort _ |>.mpr hmem)

end

end Package

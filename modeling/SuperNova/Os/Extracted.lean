import SuperNova.Os.ZipFormat
import SuperNova.Workspace.Kept

/-!
# Archives of any bytes

What `read_store_zip` makes of bytes that nobody vouches for.

* `StoredEntry`: a stored entry with its local header, whatever the fields that the reader skips hold;
* `readEntry_sound`, `readEntry_complete`: the reader takes exactly the stored entries;
* `ReadsSafely`: the loop ends, stays within the bytes and below the destination, and accepts only entries with a
  directory behind them;
* `reads_safely_iff` (**main**): this holds exactly of the archives that are not cut short behind an entry.
-/

set_option linter.unusedSectionVars false

namespace Os

open Paths Io FileTree Workspace

/-! ## stored entries -/

/-- a stored entry, with the fields of its header that the reader skips -/
structure StoredEntry where
  versionAndFlags : Nat
  timesAndCrc : Nat
  uncompressedSize : Nat
  name : Bytes
  extra : Bytes
  data : Bytes
  nameFits : name.length < 2 ^ 16
  extraFits : extra.length < 2 ^ 16
  dataFits : data.length < 2 ^ 32

namespace StoredEntry

def header (e : StoredEntry) : Bytes :=
  u32Le 0x04034b50 ++ (u32Le e.versionAndFlags ++ (u16Le 0 ++ (littleEndian 8 e.timesAndCrc ++
    (u32Le e.data.length ++ (u32Le e.uncompressedSize ++ (u16Le e.name.length ++ u16Le e.extra.length))))))

def bytes (e : StoredEntry) : Bytes := e.header ++ (e.name ++ (e.extra ++ e.data))

/-- the file that is written for the entry -/
def write? (destination : Path) (e : StoredEntry) : Option (Path × Bytes) :=
  (String.fromUTF8? ⟨e.name.toArray⟩).bind fun name =>
    (resolveArchiveEntry destination name).toOption.map fun target => (target, e.data)

end StoredEntry

section
variable {bytes rest rest' front : Bytes} {e e' : StoredEntry} {entries entries' : List StoredEntry}
  {offset next n v : Nat} {name data : Bytes} {archive destination q : Path} {t t' : Disk}

@[simp] theorem length_header (e : StoredEntry) : e.header.length = 30 := by
  simp [StoredEntry.header, u32Le, u16Le]

theorem length_stored (e : StoredEntry) :
    e.bytes.length = 30 + (e.name.length + (e.extra.length + e.data.length)) := by
  simp [StoredEntry.bytes]

theorem littleEndian_foldr (bytes : Bytes) :
    littleEndian bytes.length (bytes.foldr (fun b v => b.toNat + 256 * v) 0) = bytes := by
  induction bytes with
  | nil => rfl
  | cons b bytes ih =>
    have hbyte : b.toNat < 256 := b.toNat_lt
    have hlow : UInt8.ofNat (b.toNat + 256 * bytes.foldr (fun b v => b.toNat + 256 * v) 0) = b := by
      apply UInt8.toNat_inj.mp
      rw [UInt8.toNat_ofNat']
      omega
    have hhigh : (b.toNat + 256 * bytes.foldr (fun b v => b.toNat + 256 * v) 0) / 256 =
        bytes.foldr (fun b v => b.toNat + 256 * v) 0 := by omega
    rw [List.foldr_cons, List.length_cons, littleEndian, hlow, hhigh, ih]

theorem take_of_readLe (h : readLe n bytes offset = .ok v) : (bytes.drop offset).take n = littleEndian n v := by
  unfold readLe at h
  split at h
  · rename_i hfits
    cases h
    have hlength : ((bytes.drop offset).take n).length = n := by
      rw [List.length_take, List.length_drop]
      omega
    have hback := littleEndian_foldr ((bytes.drop offset).take n)
    rw [hlength] at hback
    exact hback.symm
  · cases h

theorem readLe_drop (hoffset : offset ≤ bytes.length) (k : Nat) :
    readLe n bytes (offset + k) = readLe n (bytes.drop offset) k := by
  have hfits : offset + k + n ≤ bytes.length ↔ k + n ≤ (bytes.drop offset).length := by
    rw [List.length_drop]
    omega
  unfold readLe
  rw [List.drop_drop]
  by_cases h : offset + k + n ≤ bytes.length
  · rw [if_pos h, if_pos (hfits.mp h)]
  · rw [if_neg h, if_neg fun h' => h (hfits.mpr h')]

/-! ## one entry -/

/-- the slices of an entry lie within the bytes, and have the lengths that its header gives -/
structure InBounds (bytes : Bytes) (offset : Nat) (name data : Bytes) (next : Nat) : Prop where
  nameLen : readLe 2 bytes (offset + 26) = .ok name.length
  size : readLe 4 bytes (offset + 18) = .ok data.length
  extraLen : ∃ extraLen, readLe 2 bytes (offset + 28) = .ok extraLen ∧
    next = offset + 30 + name.length + extraLen + data.length
  within : next ≤ bytes.length

theorem readEntry_some (h : readEntry bytes offset = .ok (some (name, data, next))) :
    readLe 4 bytes offset = .ok 0x04034b50 ∧ readLe 2 bytes (offset + 8) = .ok 0 ∧
      ∃ nameLen extraLen size, readLe 2 bytes (offset + 26) = .ok nameLen ∧
        readLe 2 bytes (offset + 28) = .ok extraLen ∧ readLe 4 bytes (offset + 18) = .ok size ∧
        name = (bytes.drop (offset + 30)).take nameLen ∧
        data = (bytes.drop (offset + 30 + nameLen + extraLen)).take size ∧
        next = offset + 30 + nameLen + extraLen + size ∧ next ≤ bytes.length := by
  obtain ⟨signature, hsignature, h⟩ := result_bind_ok.mp h
  split at h
  · cases h
  split at h
  · cases h
  rename_i hlocal
  obtain ⟨method, hmethod, h⟩ := result_bind_ok.mp h
  split at h
  · cases h
  rename_i hstored
  obtain ⟨size, hsize, h⟩ := result_bind_ok.mp h
  obtain ⟨nameLen, hnameLen, h⟩ := result_bind_ok.mp h
  obtain ⟨extraLen, hextraLen, h⟩ := result_bind_ok.mp h
  simp only at h
  split at h
  · cases h
  rename_i hwithin
  cases h
  rw [not_not.mp hlocal] at hsignature
  rw [not_not.mp hstored] at hmethod
  exact ⟨hsignature, hmethod, nameLen, extraLen, size, hnameLen, hextraLen, hsize, rfl, rfl, rfl,
    Nat.le_of_not_lt hwithin⟩

theorem readEntry_inBounds (h : readEntry bytes offset = .ok (some (name, data, next))) :
    InBounds bytes offset name data next := by
  obtain ⟨-, -, nameLen, extraLen, size, hnameLen, hextraLen, hsize, rfl, rfl, rfl, hwithin⟩ := readEntry_some h
  have hname : ((bytes.drop (offset + 30)).take nameLen).length = nameLen := by
    rw [List.length_take, List.length_drop]
    omega
  have hdata : ((bytes.drop (offset + 30 + nameLen + extraLen)).take size).length = size := by
    rw [List.length_take, List.length_drop]
    omega
  exact ⟨by rw [hname, hnameLen], by rw [hdata, hsize], ⟨extraLen, hextraLen, by rw [hname, hdata]⟩, hwithin⟩

theorem drop_eq_slice (bytes : Bytes) (n m : Nat) :
    bytes.drop n = (bytes.drop n).take m ++ bytes.drop (n + m) := by
  rw [← List.drop_drop, List.take_append_drop]

/-- **an entry that is taken stands there** -/
theorem readEntry_sound (h : readEntry bytes offset = .ok (some (name, data, next))) :
    ∃ e : StoredEntry, bytes.drop offset = e.bytes ++ bytes.drop next ∧ e.name = name ∧ e.data = data ∧
      next = offset + e.bytes.length ∧ next ≤ bytes.length := by
  obtain ⟨hsignature, hmethod, nameLen, extraLen, size, hnameLen, hextraLen, hsize, hname, hdata, hnext, hwithin⟩ :=
    readEntry_some h
  have hraw (k width : Nat) (hk : k + width ≤ 30) : ∃ v, (bytes.drop (offset + k)).take width =
      littleEndian width v := by
    have hlength : ((bytes.drop (offset + k)).take width).length = width := by
      rw [List.length_take, List.length_drop]
      omega
    have hback := littleEndian_foldr ((bytes.drop (offset + k)).take width)
    rw [hlength] at hback
    exact ⟨_, hback.symm⟩
  obtain ⟨versionAndFlags, hversion⟩ := hraw 4 4 (by decide)
  obtain ⟨timesAndCrc, htimes⟩ := hraw 10 8 (by decide)
  obtain ⟨uncompressedSize, hfull⟩ := hraw 22 4 (by decide)
  have hlenName : name.length = nameLen := by
    rw [hname, List.length_take, List.length_drop]
    omega
  have hlenExtra : ((bytes.drop (offset + 30 + nameLen)).take extraLen).length = extraLen := by
    rw [List.length_take, List.length_drop]
    omega
  have hlenData : data.length = size := by
    rw [hdata, List.length_take, List.length_drop]
    omega
  let e : StoredEntry :=
    { versionAndFlags, timesAndCrc, uncompressedSize, name, data
      extra := (bytes.drop (offset + 30 + nameLen)).take extraLen
      nameFits := hlenName ▸ readLe_lt hnameLen
      extraFits := by
        rw [hlenExtra]
        exact readLe_lt hextraLen
      dataFits := hlenData ▸ readLe_lt hsize }
  have hbytes : bytes.drop offset = e.bytes ++ bytes.drop next := by
    rw [drop_eq_slice bytes offset 4, drop_eq_slice bytes (offset + 4) 4, drop_eq_slice bytes (offset + 8) 2,
      drop_eq_slice bytes (offset + 10) 8, drop_eq_slice bytes (offset + 18) 4, drop_eq_slice bytes (offset + 22) 4,
      drop_eq_slice bytes (offset + 26) 2, drop_eq_slice bytes (offset + 28) 2, drop_eq_slice bytes
        (offset + 30) nameLen,
      drop_eq_slice bytes (offset + 30 + nameLen) extraLen,
      drop_eq_slice bytes (offset + 30 + nameLen + extraLen) size, take_of_readLe hsignature, hversion,
      take_of_readLe hmethod, htimes, take_of_readLe hsize, hfull, take_of_readLe hnameLen, take_of_readLe hextraLen,
      ← hname, ← hdata, ← hnext]
    simp only [e, StoredEntry.bytes, StoredEntry.header, u32Le, u16Le, hlenName, hlenExtra, hlenData, List.append_assoc]
  refine ⟨e, hbytes, rfl, rfl, ?_, hwithin⟩
  rw [length_stored, hnext, hlenName, hlenExtra, hlenData]
  omega

/-- **an entry that stands there is taken** -/
theorem readEntry_complete (hoffset : offset ≤ bytes.length) (h : bytes.drop offset = e.bytes ++ rest) :
    readEntry bytes offset = .ok (some (e.name, e.data, offset + e.bytes.length)) := by
  have hparts : bytes.drop offset = e.header ++ (e.name ++ (e.extra ++ (e.data ++ rest))) := by
    rw [h, StoredEntry.bytes]
    simp only [List.append_assoc]
  have hfield (k width : Nat) : readLe width bytes (offset + k) =
      readLe width (e.header ++ (e.name ++ (e.extra ++ (e.data ++ rest)))) k := by
    rw [readLe_drop hoffset, hparts]
  have hsignature := hfield 0 4
  have hmethod := hfield 8 2
  have hsize := hfield 18 4
  have hname := hfield 26 2
  have hextra := hfield 28 2
  simp only [StoredEntry.header, u32Le, u16Le, List.append_assoc] at hsignature hmethod hsize hname hextra
  simp (disch := decide) only [readLe_field, readLe_littleEndian, Nat.reduceSub, Nat.reducePow,
    Nat.reduceMod, Nat.add_zero] at hsignature hmethod hsize hname hextra
  rw [Nat.mod_eq_of_lt (show e.data.length < 4294967296 from e.dataFits)] at hsize
  rw [Nat.mod_eq_of_lt (show e.name.length < 65536 from e.nameFits)] at hname
  rw [Nat.mod_eq_of_lt (show e.extra.length < 65536 from e.extraFits)] at hextra
  have hlength : bytes.length = offset + (e.bytes.length + rest.length) := by
    have h' := congrArg List.length h
    rw [List.length_drop, List.length_append] at h'
    omega
  have hbounds : ¬ offset + 30 + e.name.length + e.extra.length + e.data.length > bytes.length := by
    rw [hlength, length_stored]
    omega
  have hdropName : bytes.drop (offset + 30) = e.name ++ (e.extra ++ (e.data ++ rest)) := by
    rw [← List.drop_drop, hparts, List.drop_left' (length_header e)]
  have hdropData : bytes.drop (offset + 30 + e.name.length + e.extra.length) = e.data ++ rest := by
    rw [Nat.add_assoc (offset + 30), ← List.drop_drop, hdropName, ← List.append_assoc,
      List.drop_left' (List.length_append)]
  have hnext : offset + 30 + e.name.length + e.extra.length + e.data.length = offset + e.bytes.length := by
    rw [length_stored]
    omega
  unfold readEntry
  simp only [hsignature, hmethod, hsize, hname, hextra, hbounds, bind, Except.bind]
  rw [hdropName, hdropData, List.take_left, List.take_left, hnext]
  rfl

theorem readEntry_none (hoffset : offset ≤ bytes.length) :
    readEntry bytes offset = .ok none ↔ Ends (bytes.drop offset) := by
  constructor
  · intro h
    obtain ⟨signature, hsignature, h⟩ := result_bind_ok.mp h
    split at h
    · rename_i hdirectory
      refine ⟨signature, bytes.drop (offset + 4), ?_, hdirectory⟩
      rw [drop_eq_slice bytes offset 4, take_of_readLe hsignature, u32Le]
    split at h
    · cases h
    obtain ⟨method, -, h⟩ := result_bind_ok.mp h
    split at h
    · cases h
    obtain ⟨size, -, h⟩ := result_bind_ok.mp h
    obtain ⟨nameLen, -, h⟩ := result_bind_ok.mp h
    obtain ⟨extraLen, -, h⟩ := result_bind_ok.mp h
    simp only at h
    split at h
    · cases h
    · cases h
  · rintro ⟨signature, rest, hrest, hdirectory⟩
    have hread : readLe 4 bytes offset = .ok signature := by
      have hdrop := @readLe_drop bytes offset 4 hoffset 0
      rw [Nat.add_zero, hrest, u32Le, readLe_littleEndian] at hdrop
      rw [hdrop]
      rcases hdirectory with rfl | rfl
      · rfl
      · rfl
    rw [readEntry, hread]
    show (if signature = 0x02014b50 ∨ signature = 0x06054b50 then _ else _) = _
    rw [if_pos hdirectory]
    rfl

/-! ## entries in a row -/

/-- nothing that the reader takes for an entry: a directory, or less than a signature -/
def Terminal (rest : Bytes) : Prop := rest.length < 4 ∨ Ends rest

theorem Terminal.not_stored (h : Terminal rest) : rest ≠ e.bytes ++ rest' := by
  rintro rfl
  rcases h with h | h
  · rw [List.length_append, length_stored] at h
    omega
  · have hnone := (@readEntry_none (e.bytes ++ rest') 0 (Nat.zero_le _)).mpr h
    rw [@readEntry_complete (e.bytes ++ rest') rest' e 0 (Nat.zero_le _) rfl] at hnone
    cases hnone

theorem Terminal.stops (h : Terminal (bytes.drop offset)) (hoffset : offset ≤ bytes.length) :
    ¬ offset + 4 ≤ bytes.length ∨ offset + 4 ≤ bytes.length ∧ readEntry bytes offset = .ok none := by
  rcases h with hshort | hends
  · rw [List.length_drop] at hshort
    exact Or.inl (by omega)
  · have hlength := hends.length
    rw [List.length_drop] at hlength
    exact Or.inr ⟨by omega, (readEntry_none hoffset).mpr hends⟩

theorem stored_next (hoffset : offset ≤ bytes.length) (h : bytes.drop offset = e.bytes ++ rest) :
    offset + 4 ≤ bytes.length ∧ offset < offset + e.bytes.length ∧ offset + e.bytes.length ≤ bytes.length ∧
      bytes.drop (offset + e.bytes.length) = rest := by
  have hall := congrArg List.length h
  rw [List.length_drop, List.length_append] at hall
  have hlength := length_stored e
  exact ⟨by omega, by omega, by omega, by rw [← List.drop_drop, h, List.drop_left]⟩

theorem stored_inj (h : e.bytes ++ rest = e'.bytes ++ rest') :
    (e.name, e.data) = (e'.name, e'.data) ∧ rest = rest' := by
  have hread := @readEntry_complete (e.bytes ++ rest) rest e 0 (Nat.zero_le _) rfl
  rw [@readEntry_complete (e.bytes ++ rest) rest' e' 0 (Nat.zero_le _) h] at hread
  simp only [Except.ok.injEq, Option.some.injEq, Prod.mk.injEq, Nat.zero_add] at hread
  exact ⟨by rw [hread.1, hread.2.1], (List.append_inj h hread.2.2.symm).2⟩

theorem stored_unique (h : entries.flatMap StoredEntry.bytes ++ rest = entries'.flatMap StoredEntry.bytes ++ rest')
    (hrest : Terminal rest) (hrest' : Terminal rest') :
    entries.map (fun e => (e.name, e.data)) = entries'.map (fun e => (e.name, e.data)) ∧ rest = rest' := by
  induction entries generalizing entries' with
  | nil =>
    cases entries' with
    | nil => exact ⟨rfl, h⟩
    | cons e' entries' =>
      rw [List.flatMap_nil, List.nil_append, List.flatMap_cons, List.append_assoc] at h
      exact absurd h hrest.not_stored
  | cons e entries ih =>
    rw [List.flatMap_cons, List.append_assoc] at h
    cases entries' with
    | nil =>
      rw [List.flatMap_nil, List.nil_append] at h
      exact absurd h.symm hrest'.not_stored
    | cons e' entries' =>
      rw [List.flatMap_cons, List.append_assoc] at h
      obtain ⟨hsame, hback⟩ := stored_inj h
      obtain ⟨hmap, hend⟩ := ih hback
      exact ⟨by rw [List.map_cons, List.map_cons, hsame, hmap], hend⟩

/-- **what is read to the end is entries in a row**, and nothing after them that is taken for one -/
theorem archiveEntries_sound (fuel : Nat) {offset : Nat} (hfuel : bytes.length < offset + fuel)
    (hoffset : offset ≤ bytes.length) (h : (archiveEntries bytes destination fuel offset).2 = true) :
    ∃ (entries : List StoredEntry) (rest : Bytes),
      bytes.drop offset = entries.flatMap StoredEntry.bytes ++ rest ∧ Terminal rest ∧
        entries.mapM (StoredEntry.write? destination) =
        some (archiveEntries bytes destination fuel offset).1 := by
  induction fuel generalizing offset with
  | zero => omega
  | succ fuel ih =>
    rw [archiveEntries] at h ⊢
    by_cases hmore : offset + 4 ≤ bytes.length
    · rw [if_pos hmore] at h ⊢
      rcases hread : readEntry bytes offset with e1 | (_ | ⟨name, data, next⟩)
      · rw [hread] at h
        cases h
      · exact ⟨[], bytes.drop offset, rfl, Or.inr ((readEntry_none hoffset).mp hread), rfl⟩
      · rw [hread] at h
        dsimp only at h ⊢
        obtain ⟨e, hbytes, rfl, rfl, hnext, hwithin⟩ := readEntry_sound hread
        cases hname : String.fromUTF8? ⟨e.name.toArray⟩ with
        | none =>
          rw [hname] at h
          cases h
        | some name =>
          rw [hname] at h
          dsimp only at h ⊢
          cases htarget : resolveArchiveEntry destination name with
          | error e1 =>
            rw [htarget] at h
            cases h
          | ok target =>
            rw [htarget] at h
            have hlength := length_stored e
            obtain ⟨entries, rest, hrest, hterminal, hwrites⟩ := ih (by omega) hwithin h
            have hwrite : e.write? destination = some (target, e.data) := by
              rw [StoredEntry.write?, hname, Option.bind_some, htarget]
              rfl
            refine ⟨e :: entries, rest, ?_, hterminal, ?_⟩
            · rw [hbytes, hrest, List.flatMap_cons, List.append_assoc]
            · rw [List.mapM_cons, hwrite, hwrites]
              rfl
    · rw [if_neg hmore]
      refine ⟨[], bytes.drop offset, rfl, Or.inl ?_, rfl⟩
      rw [List.length_drop]
      omega

/-- **entries in a row are read to the end** -/
theorem archiveEntries_complete {writes : List (Path × Bytes)} (fuel : Nat) {offset : Nat}
    (hfuel : bytes.length < offset + fuel) (hoffset : offset ≤ bytes.length)
    (h : bytes.drop offset = entries.flatMap StoredEntry.bytes ++ rest) (hrest : Terminal rest)
    (hwrites : entries.mapM (StoredEntry.write? destination) = some writes) :
    archiveEntries bytes destination fuel offset = (writes, true) := by
  induction entries generalizing offset fuel writes with
  | nil =>
    obtain rfl := Option.some.inj hwrites
    obtain ⟨fuel, rfl⟩ : ∃ n, fuel = n + 1 := ⟨fuel - 1, by omega⟩
    rw [List.flatMap_nil, List.nil_append] at h
    rw [archiveEntries]
    rcases Terminal.stops (h.symm ▸ hrest) hoffset with hshort | ⟨hmore, hread⟩
    · rw [if_neg hshort]
      rfl
    · rw [if_pos hmore, hread]
      rfl
  | cons e entries ih =>
    obtain ⟨fuel, rfl⟩ : ∃ n, fuel = n + 1 := ⟨fuel - 1, by omega⟩
    rw [List.flatMap_cons, List.append_assoc] at h
    obtain ⟨hmore, hforward, hwithin, hafter⟩ := stored_next hoffset h
    rw [List.mapM_cons] at hwrites
    obtain ⟨write, hwrite, hwrites⟩ := Option.bind_eq_some_iff.mp hwrites
    obtain ⟨more, hrestWrites, hwrites⟩ := Option.bind_eq_some_iff.mp hwrites
    obtain rfl := Option.some.inj hwrites
    have hrec := ih fuel (by omega) hwithin hafter hrestWrites
    unfold StoredEntry.write? at hwrite
    obtain ⟨name, hname, hwrite⟩ := Option.bind_eq_some_iff.mp hwrite
    obtain ⟨target, htarget, rfl⟩ := Option.map_eq_some_iff.mp hwrite
    have hresolve : resolveArchiveEntry destination name = .ok target := by
      cases hcases : resolveArchiveEntry destination name with
      | ok target' =>
        rw [hcases] at htarget
        exact congrArg Except.ok (Option.some.inj htarget)
      | error e1 =>
        rw [hcases] at htarget
        cases htarget
    rw [archiveEntries, if_pos hmore, readEntry_complete hoffset h]
    dsimp only
    rw [hname]
    dsimp only
    rw [hresolve]
    dsimp only
    rw [hrec]

theorem length_of_mapM {writes : List (Path × Bytes)} (h : entries.mapM (StoredEntry.write? destination) =
    some writes) :
    entries.length = writes.length := by
  induction entries generalizing writes with
  | nil =>
    obtain rfl := Option.some.inj h
    rfl
  | cons e entries ih =>
    rw [List.mapM_cons] at h
    obtain ⟨write, -, h⟩ := Option.bind_eq_some_iff.mp h
    obtain ⟨more, hmore, h⟩ := Option.bind_eq_some_iff.mp h
    obtain rfl := Option.some.inj h
    rw [List.length_cons, List.length_cons, ih hmore]

/-! ## the loop -/

/-- **the loop comes to its end**: it makes no difference how often it may go round, beyond the length of the bytes -/
theorem readEntries_fuel (fuel more : Nat) {offset : Nat} (hfuel : bytes.length < offset + fuel)
    (hoffset : offset ≤ bytes.length) (count : Nat) : readEntries bytes destination (fuel + more) offset count =
      readEntries bytes destination fuel offset count := by
  induction fuel generalizing offset count with
  | zero => omega
  | succ fuel ih =>
    rw [Nat.succ_add, readEntries, readEntries]
    rcases hread : readEntry bytes offset with e1 | (_ | ⟨name, data, next⟩)
    · rfl
    · rfl
    · have hnext : offset < next ∧ next ≤ bytes.length := by
        obtain ⟨e, -, -, -, hnext, hwithin⟩ := readEntry_sound hread
        have hlength := length_stored e
        exact ⟨by omega, hwithin⟩
      simp only [ih (show bytes.length < next + fuel by omega) hnext.2]

theorem keeps_readEntries {P : Disk → Prop} (hmkdirs : ∀ p, Keeps P (createDirAll p : DiskM Unit))
    (hwrite : ∀ p data, destination <+: p → Keeps P (write p data : DiskM Unit)) (fuel offset count : Nat) :
    Keeps P (readEntries bytes destination fuel offset count) := by
  induction fuel generalizing offset count with
  | zero => exact Keeps.pure _ _
  | succ fuel ih =>
    rw [readEntries]
    refine Keeps.ite ?_ (Keeps.pure _ _)
    rcases readEntry bytes offset with e1 | (_ | ⟨name, data, next⟩)
    · exact Keeps.throw _ e1
    · exact Keeps.pure _ _
    · dsimp only
      cases String.fromUTF8? ⟨name.toArray⟩ with
      | none => exact Keeps.throw _ _
      | some name =>
        dsimp only
        cases htarget : resolveArchiveEntry destination name with
        | error e1 => exact Keeps.throw _ e1
        | ok target =>
          exact Keeps.bind (hmkdirs _) fun _ =>
            Keeps.bind (hwrite target data (resolveArchiveEntry_below htarget)) fun _ => ih next (count + 1)

theorem keepsFile_readEntries (hq : ¬ destination <+: q) (fuel offset count : Nat) :
    KeepsFile q (readEntries bytes destination fuel offset count) := by
  refine fun content => keeps_readEntries (fun p => keepsFile_createDirAll p content) (fun p data hbelow => ?_) _ _ _
  refine keepsFile_write ?_ data content
  rintro rfl
  exact hq hbelow

theorem keepsDir_readEntries (fuel offset count : Nat) :
    Keeps (fun t : Disk => t.entry q = some .dir) (readEntries bytes destination fuel offset count) := by
  refine keeps_readEntries (fun p => Keeps.step fun t t' hstep hdir => ?_)
    (fun p data _ => Keeps.step fun t t' hstep hdir => ?_) _ _ _
  · obtain ⟨-, rfl⟩ := createDirAll_ok.mp (step_ok.mpr hstep : Ok _ t () t')
    rw [Tree.mkdirs_entry, hdir, ite_self]
  · obtain ⟨-, -, hp, he⟩ := write_ok (step_ok.mpr hstep : Ok _ t () t')
    have hne : q ≠ p := by
      rintro rfl
      exact hp hdir
    rw [he, if_neg hne, hdir]

/-! ## what is to hold -/

/-- the loop ends, stays within the bytes and below the destination, and accepts only entries in a row with a
directory behind them -/
structure ReadsSafely (archive destination : Path) (t : Disk) : Prop where
  comesToEnd : ∀ bytes, t.fileAt archive = some bytes → ∀ fuel, bytes.length < fuel →
    readEntries bytes destination fuel 0 0 t = readStoreZip archive destination t
  inBounds : ∀ bytes, t.fileAt archive = some bytes → ∀ offset name data next,
    readEntry bytes offset = .ok (some (name, data, next)) → InBounds bytes offset name data next
  below : ∀ q, (final (readStoreZip archive destination) t).fileAt q ≠ t.fileAt q →
    destination <+: q ∧ (t.entry destination = some .dir → q ≠ destination)
  accepts : ∀ n t', Ok (readStoreZip archive destination) t n t' → ∃ (entries : List StoredEntry) (rest : Bytes),
    t.fileAt archive = some (entries.flatMap StoredEntry.bytes ++ rest) ∧ entries.length = n ∧ Ends rest

/-- the archive is cut short behind an entry: it is entries in a row with less than a signature behind them, and
nothing stands in the way of their files -/
def CutShort (archive destination : Path) (t : Disk) : Prop :=
  ∃ (entries : List StoredEntry) (rest : Bytes) (writes : List (Path × Bytes)) (t' : Disk),
    t.fileAt archive = some (entries.flatMap StoredEntry.bytes ++ rest) ∧ rest.length < 4 ∧
      entries.mapM (StoredEntry.write? destination) = some writes ∧ Ok (unpackAll writes) t () t'

theorem readStoreZip_eq (hbytes : t.fileAt archive = some bytes) :
    readStoreZip archive destination t = readEntries bytes destination (bytes.length + 1) 0 0 t :=
  bind_of_ok (read_ok.mpr ⟨Tree.fileAt_eq_some.mp hbytes, rfl⟩)

theorem fileAt_of_read {n : Nat} (h : Ok (readStoreZip archive destination) t n t') :
    ∃ bytes, t.fileAt archive = some bytes := by
  obtain ⟨bytes, t1, hread, -⟩ := bind_ok.mp h
  exact ⟨bytes, Tree.fileAt_eq_some.mpr (read_ok.mp hread).1⟩

theorem CutShort.not_safe (h : CutShort archive destination t) : ¬ ReadsSafely archive destination t := by
  obtain ⟨entries, rest, writes, t', hbytes, hshort, hwrites, hunpack⟩ := h
  intro hsafe
  have hentries := @archiveEntries_complete _ rest entries destination writes
    ((entries.flatMap StoredEntry.bytes ++ rest).length + 1) 0 (by omega) (Nat.zero_le _) rfl (Or.inl hshort) hwrites
  have hrun : Ok (readStoreZip archive destination) t (0 + writes.length) t' := by
    unfold Ok
    rw [readStoreZip_eq hbytes]
    refine (readEntries_ok _).mpr ⟨?_, ?_, ?_⟩
    · rw [hentries]
    · rw [hentries]
    · rw [hentries]
      exact hunpack
  obtain ⟨entries', rest', hbytes', -, hends⟩ := hsafe.accepts _ t' hrun
  have hsame : rest = rest' :=
    (stored_unique (Option.some.inj (hbytes.symm.trans hbytes')) (Or.inl hshort) (Or.inr hends)).2
  have hlength := hends.length
  rw [← hsame] at hlength
  omega

/-- **the reader is safe exactly on the archives that are not cut short behind an entry** -/
theorem reads_safely_iff (archive destination : Path) (t : Disk) :
    ReadsSafely archive destination t ↔ ¬ CutShort archive destination t := by
  refine ⟨fun hsafe hcut => hcut.not_safe hsafe, fun hcut => ⟨?_, ?_, ?_, ?_⟩⟩
  · intro bytes hbytes fuel hfuel
    obtain ⟨more, rfl⟩ : ∃ more, fuel = bytes.length + 1 + more := ⟨fuel - (bytes.length + 1), by omega⟩
    rw [readStoreZip_eq hbytes, readEntries_fuel (bytes.length + 1) more (by omega) (Nat.zero_le _)]
  · exact fun bytes _ offset name data next hread => readEntry_inBounds hread
  · intro q hchanged
    have hkeeps : ¬ destination <+: q → (final (readStoreZip archive destination) t).fileAt q = t.fileAt q := fun hq =>
      KeepsFile.bind (keepsFile_read archive) (fun bytes => keepsFile_readEntries hq (bytes.length + 1) 0 0) _ t rfl
    refine ⟨by_contra fun hq => hchanged (hkeeps hq), ?_⟩
    rintro hdir rfl
    have hstays : (final (readStoreZip archive q) t).entry q = some .dir := by
      have hread : Keeps (fun t : Disk => t.entry q = some .dir) (FileTree.read archive : DiskM Bytes) := by
        intro t ht
        have hsame : final (FileTree.read archive : DiskM Bytes) t = t := by
          unfold final FileTree.read
          rcases t.entry archive with _ | (content | _)
          · rfl
          · rfl
          · rfl
        rw [hsame]
        exact ht
      exact Keeps.bind hread (fun bytes => keepsDir_readEntries (bytes.length + 1) 0 0) t hdir
    exact hchanged (Tree.fileAt_congr (hstays.trans hdir.symm))
  · intro n t' hrun
    obtain ⟨bytes, hbytes⟩ := fileAt_of_read hrun
    have hloop : Ok (readEntries bytes destination (bytes.length + 1) 0 0) t n t' := by
      unfold Ok at hrun ⊢
      rw [← readStoreZip_eq hbytes]
      exact hrun
    obtain ⟨hcomplete, hn, hunpack⟩ := (readEntries_ok _).mp hloop
    obtain ⟨entries, rest, hparts, hterminal, hwrites⟩ :=
      archiveEntries_sound (bytes.length + 1) (by omega) (Nat.zero_le _) hcomplete
    rw [List.drop_zero] at hparts
    have hlength : entries.length = n := by
      have hsame := length_of_mapM hwrites
      omega
    rcases hterminal with hshort | hends
    · exact absurd ⟨entries, rest, _, t', hparts ▸ hbytes, hshort, hwrites, hunpack⟩ hcut
    · exact ⟨entries, rest, hparts ▸ hbytes, hlength, hends⟩

end

/-- an entry with one byte of content -/
def oneByte : StoredEntry where
  versionAndFlags := 20
  timesAndCrc := 0
  uncompressedSize := 1
  name := [110]
  extra := []
  data := [1]
  nameFits := by decide
  extraFits := by decide
  dataFits := by decide

/-- an archive that was cut behind its first entry -/
def cutArchive : Disk := (Tree.empty : Disk).put ["a.zip"] oneByte.bytes (by decide) (by decide) (by decide)

theorem cut_archive_accepted : ¬ ReadsSafely ["a.zip"] ["out"] cutArchive := by
  apply CutShort.not_safe
  have hno : cutArchive.NoFileTo ["out"] := Tree.noFileTo_iff.mp (by decide +kernel)
  have hdir : (cutArchive.mkdirs ["out"]).entry ["out"] = some .dir := by decide +kernel
  obtain ⟨t', hwrite⟩ := @write_total _ _ _ (cutArchive.mkdirs ["out"]) ["out", "n"] [1] (by decide) hdir
    (by decide +kernel)
  refine ⟨[oneByte], [], [(["out", "n"], [1])], t', by decide +kernel, by decide, by decide +kernel, ?_⟩
  exact forM_cons_ok.mpr ⟨t', bind_ok.mpr ⟨(), _, createDirAll_ok.mpr ⟨hno, rfl⟩, hwrite⟩, rfl⟩

end Os

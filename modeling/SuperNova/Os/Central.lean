import Mathlib.Algebra.GroupWithZero.Nat
import Mathlib.Data.List.Find
import SuperNova.Lib.Decoder
import SuperNova.Os.Extracted
import SuperNova.Os.RoundTrip

/-!
# The directory of an archive

`zip_central_directory_entries` finds the end record from the back and walks the directory that it names, from header
to header.  `read_store_zip` walks the entries from the front.

* `zipCentralDirectoryEntries`: the listing, whatever reads beyond the bytes give;
* `listing_ends` (**main**): it comes to an end for all bytes, and no read is beyond them;
* `listing_written`: what it makes of an archive that was written;
* `zip_listings` (**main**): both walks find the same names exactly when the offsets fit their fields, and no name is
  trimmed or refused.
-/

set_option linter.unusedSectionVars false

namespace Os

open Paths Io FileTree Workspace Text Decoding

/-! ## the listing -/

/-- `read_u16_le`, `read_u32_le`; `miss` is what a read beyond the bytes gives -/
def fieldAt (miss : Option Nat) (width : Nat) (bytes : Bytes) (offset : Nat) : Option Nat :=
  match readLe width bytes offset with
  | .ok v => some v
  | .error _ => miss

/-- `&bytes[start..stop]`, which panics beyond the bytes -/
def sliceAt (bytes : Bytes) (start stop : Nat) : Option Bytes :=
  if start ≤ stop ∧ stop ≤ bytes.length then some ((bytes.drop start).take (stop - start)) else none

/-- `String::from_utf8_lossy` -/
def fromUtf8Lossy (bytes : Bytes) : String :=
  let decoded := (TextDecoder.between true).decode bytes
  String.ofList (decoded.2 ++ decoded.1.flush)

def listedName (name : Bytes) : String := trimMatches (· == '/') (replaceChar '\\' '/' (fromUtf8Lossy name))

def findZipEocd (miss : Option Nat) (bytes : Bytes) : Option Nat :=
  if bytes.length < 22 then none
  else
    let searchStart := bytes.length - 65557
    (List.range' searchStart (bytes.length - 22 + 1 - searchStart)).reverse.find?
      fun idx => fieldAt miss 4 bytes idx == some 0x06054b50

/-- the loop of `zip_central_directory_entries`; nothing comes of it when the fuel runs out -/
def centralLoop (miss : Option Nat) (bytes : Bytes) (entryCount directoryEnd : Nat) :
    Nat → Nat → List String → Option (List String)
  | 0, _, _ => none
  | fuel + 1, offset, entries =>
    if offset + 46 ≤ directoryEnd ∧ entries.length < max entryCount 1000 then do
      let signature ← fieldAt miss 4 bytes offset
      if signature ≠ 0x02014b50 then some entries
      else
        let nameLen ← fieldAt miss 2 bytes (offset + 28)
        let extraLen ← fieldAt miss 2 bytes (offset + 30)
        let commentLen ← fieldAt miss 2 bytes (offset + 32)
        let nameStart := offset + 46
        let nameEnd := nameStart + nameLen
        if nameEnd > bytes.length then some entries
        else
          let name ← sliceAt bytes nameStart nameEnd
          centralLoop miss bytes entryCount directoryEnd fuel (nameEnd + extraLen + commentLen)
            (if listedName name = "" then entries else entries ++ [listedName name])
    else some entries

def zipCentralDirectoryEntriesWith (miss : Option Nat) (bytes : Bytes) : Option (List String) :=
  match findZipEocd miss bytes with
  | none => some []
  | some eocd =>
    if eocd + 22 > bytes.length then some []
    else do
      let entryCount ← fieldAt miss 2 bytes (eocd + 10)
      let directorySize ← fieldAt miss 4 bytes (eocd + 12)
      let directoryOffset ← fieldAt miss 4 bytes (eocd + 16)
      centralLoop miss bytes entryCount (min (directoryOffset + directorySize) bytes.length) (bytes.length + 1)
        directoryOffset []

/-- `zip_central_directory_entries`: reads beyond the bytes give zero -/
def zipCentralDirectoryEntries (bytes : Bytes) : Option (List String) := zipCentralDirectoryEntriesWith (some 0) bytes

/-- the names that `readEntries` finds before it stops, and whether no error stopped it -/
def extractedNames (bytes : Bytes) (destination : Path) : Nat → Nat → List String × Bool
  | 0, _ => ([], true)
  | fuel + 1, offset =>
    if offset + 4 ≤ bytes.length then
      match readEntry bytes offset with
      | .error _ => ([], false)
      | .ok none => ([], true)
      | .ok (some (name, _, next)) =>
        match String.fromUTF8? ⟨name.toArray⟩ with
        | none => ([], false)
        | some name =>
          match resolveArchiveEntry destination name with
          | .error _ => ([], false)
          | .ok _ =>
            let rest := extractedNames bytes destination fuel next
            (name :: rest.1, rest.2)
    else ([], true)

/-- both walks come to their ends with the same names -/
def ListsAlike (bytes : Bytes) : Prop :=
  ∀ destination, ∃ names, zipCentralDirectoryEntries bytes = some names ∧
    extractedNames bytes destination (bytes.length + 1) 0 = (names, true)

/-- the length of the name fits its field -/
def ShortName (name : String) : Prop := (utf8 name).length < 2 ^ 16

/-- a name that is neither trimmed nor refused -/
structure Listable (name : String) : Prop where
  relative : isAbsolute name = false
  below : ".." ∉ components name
  closed : name.toList.getLast? ≠ some '/'

/-! ## reads -/

section
variable {miss : Option Nat} {bytes front back : Bytes} {width offset entryCount directoryEnd fuel start stop : Nat}
  {entries names : List String} {destination : Path}

/-- the number at an offset -/
def valueAt (width : Nat) (bytes : Bytes) (offset : Nat) : Nat :=
  ((bytes.drop offset).take width).foldr (fun b v => b.toNat + 256 * v) 0

theorem fieldAt_of_le (h : offset + width ≤ bytes.length) :
    fieldAt miss width bytes offset = some (valueAt width bytes offset) := by
  rw [fieldAt, readLe, if_pos h]
  rfl

theorem sliceAt_of_le (hstart : start ≤ stop) (hstop : stop ≤ bytes.length) :
    sliceAt bytes start stop = some ((bytes.drop start).take (stop - start)) := if_pos ⟨hstart, hstop⟩

theorem centralLoop_ends (hend : directoryEnd ≤ bytes.length) (hpos : 0 < fuel)
    (hfuel : directoryEnd < offset + fuel) :
    ∃ names, ∀ miss, centralLoop miss bytes entryCount directoryEnd fuel offset entries = some names := by
  induction fuel generalizing offset entries with
  | zero => cases hpos
  | succ fuel ih =>
    simp only [centralLoop]
    by_cases hmore : offset + 46 ≤ directoryEnd ∧ entries.length < max entryCount 1000
    swap
    · exact ⟨entries, fun miss => if_neg hmore⟩
    have hread (n m : Nat) (h : n + m ≤ 46) (miss : Option Nat) :
        fieldAt miss m bytes (offset + n) = some (valueAt m bytes (offset + n)) := fieldAt_of_le (by omega)
    have hsignature (miss : Option Nat) : fieldAt miss 4 bytes offset = some (valueAt 4 bytes offset) :=
      fieldAt_of_le (by omega)
    simp only [if_pos hmore, hread 28 2 (by decide), hread 30 2 (by decide), hread 32 2 (by decide), hsignature,
      Option.bind_eq_bind, Option.bind_some]
    by_cases hheader : valueAt 4 bytes offset ≠ 0x02014b50
    · exact ⟨entries, fun miss => if_pos hheader⟩
    simp only [if_neg hheader]
    by_cases hname : offset + 46 + valueAt 2 bytes (offset + 28) > bytes.length
    · exact ⟨entries, fun miss => if_pos hname⟩
    simp only [if_neg hname, sliceAt_of_le (Nat.le_add_right _ _) (Nat.le_of_not_lt hname), Option.bind_some]
    exact ih (by omega) (by omega)

theorem findZipEocd_ends (bytes : Bytes) : ∃ eocd, ∀ miss, findZipEocd miss bytes = eocd := by
  unfold findZipEocd
  by_cases hshort : bytes.length < 22
  · exact ⟨none, fun miss => if_pos hshort⟩
  simp only [if_neg hshort]
  refine ⟨_, fun miss => @List.find?_congr _ _ (fun idx => some (valueAt 4 bytes idx) == some 0x06054b50) _ ?_⟩
  intro idx hidx
  have hbound := List.mem_range'_1.mp (List.mem_reverse.mp hidx)
  have hread : fieldAt miss 4 bytes idx = some (valueAt 4 bytes idx) := fieldAt_of_le (by omega)
  rw [hread]

/-- **the listing comes to an end for all bytes, and does not depend on what reads beyond them give** -/
theorem listing_ends (bytes : Bytes) : ∃ names, ∀ miss, zipCentralDirectoryEntriesWith miss bytes = some names := by
  obtain ⟨eocd, hfind⟩ := findZipEocd_ends bytes
  simp only [zipCentralDirectoryEntriesWith, hfind]
  cases eocd with
  | none => exact ⟨[], fun miss => rfl⟩
  | some eocd =>
    by_cases hend : eocd + 22 > bytes.length
    · exact ⟨[], fun miss => if_pos hend⟩
    have hread (n m : Nat) (h : n + m ≤ 22) (miss : Option Nat) :
        fieldAt miss m bytes (eocd + n) = some (valueAt m bytes (eocd + n)) := fieldAt_of_le (by omega)
    simp only [if_neg hend, hread 10 2 (by decide), hread 12 4 (by decide), hread 16 4 (by decide),
      Option.bind_eq_bind, Option.bind_some]
    exact centralLoop_ends (Nat.min_le_right _ _) (Nat.succ_pos _) (by omega)

/-! ## the end record -/

/-- the end record after `front` -/
def endRecord (count size offset : Nat) : Bytes :=
  u32Le 0x06054b50 ++ (u16Le 0 ++ (u16Le 0 ++ (u16Le count ++ (u16Le count ++ (u32Le size ++
    (u32Le offset ++ u16Le 0))))))

theorem length_endRecord (count size offset : Nat) : (endRecord count size offset).length = 22 := by
  simp [endRecord, u32Le, u16Le]

theorem fieldAt_eq {v : Nat} (h : readLe width bytes offset = .ok v) : fieldAt miss width bytes offset = some v := by
  rw [fieldAt, h]

theorem findZipEocd_endRecord (count size offset : Nat) :
    findZipEocd miss (front ++ endRecord count size offset) = some front.length := by
  have hlength : (front ++ endRecord count size offset).length = front.length + 22 := by
    rw [List.length_append, length_endRecord]
  have hsignature : fieldAt miss 4 (front ++ endRecord count size offset) front.length = some 0x06054b50 := by
    apply fieldAt_eq
    rw [readLe_skip (Nat.le_refl _), Nat.sub_self, endRecord, u32Le, readLe_littleEndian]
    rfl
  have hsteps : front.length + 22 - 22 + 1 - (front.length + 22 - 65557) =
      front.length - (front.length + 22 - 65557) + 1 := by omega
  have hlast : front.length + 22 - 65557 + (front.length - (front.length + 22 - 65557)) = front.length := by omega
  rw [findZipEocd, hlength, if_neg (by omega)]
  dsimp only
  rw [hsteps, List.range'_1_concat, List.reverse_append, List.reverse_singleton, List.singleton_append, hlast]
  exact List.find?_cons_of_pos (beq_iff_eq.mpr hsignature)

theorem listing_endRecord (count size offset : Nat) :
    zipCentralDirectoryEntriesWith miss (front ++ endRecord count size offset) =
      centralLoop miss (front ++ endRecord count size offset) (count % 2 ^ 16)
        (min (offset % 2 ^ 32 + size % 2 ^ 32) (front ++ endRecord count size offset).length)
          ((front ++ endRecord count size offset).length + 1) (offset % 2 ^ 32) [] := by
  have hcount := @readLe_skip 2 (front.length + 10) front (endRecord count size offset) (Nat.le_add_right _ _)
  have hsize := @readLe_skip 4 (front.length + 12) front (endRecord count size offset) (Nat.le_add_right _ _)
  have hoffset := @readLe_skip 4 (front.length + 16) front (endRecord count size offset) (Nat.le_add_right _ _)
  rw [Nat.add_sub_cancel_left] at hcount hsize hoffset
  conv_rhs at hcount => simp only [endRecord, u32Le, u16Le]
  conv_rhs at hsize => simp only [endRecord, u32Le, u16Le]
  conv_rhs at hoffset => simp only [endRecord, u32Le, u16Le]
  simp (disch := decide) only [readLe_field, readLe_littleEndian, Nat.reduceSub] at hcount hsize hoffset
  have hend : ¬ front.length + 22 > (front ++ endRecord count size offset).length := by
    rw [List.length_append, length_endRecord]
    exact Nat.lt_irrefl _
  rw [zipCentralDirectoryEntriesWith, findZipEocd_endRecord]
  dsimp only
  rw [if_neg hend, fieldAt_eq hcount, fieldAt_eq hsize, fieldAt_eq hoffset]
  rfl

end

/-! ## the directory -/

section
variable {miss : Option Nat} {bytes front back : Bytes} {entryCount directoryEnd fuel offset : Nat} {e : ZipEntry}
  {written rest : List (ZipEntry × Nat)} {entries : List String} {name : String} {destination : Path}

/-- the fields of a central header before the name -/
def centralFields (e : ZipEntry) (localOffset : Nat) : Bytes :=
  u32Le 0x02014b50 ++ (u16Le 20 ++ (u16Le 20 ++ (u16Le 0x0800 ++ (u16Le 0 ++ (u16Le 0 ++ (u16Le 0 ++
    (u32Le e.crc.toNat ++ (u32Le e.bytes.length ++ (u32Le e.bytes.length ++
      (u16Le (utf8 e.name).length ++ (u16Le 0 ++ (u16Le 0 ++ (u16Le 0 ++ (u16Le 0 ++ (u32Le 0 ++
        u32Le localOffset)))))))))))))))

theorem centralHeader_eq (e : ZipEntry) (localOffset : Nat) :
    centralHeader e localOffset = centralFields e localOffset ++ utf8 e.name := by
  unfold centralHeader centralFields
  simp only [List.append_assoc]

theorem length_centralFields (e : ZipEntry) (localOffset : Nat) : (centralFields e localOffset).length = 46 := by
  simp [centralFields, u32Le, u16Le]

theorem length_centralHeader (e : ZipEntry) (localOffset : Nat) :
    (centralHeader e localOffset).length = 46 + (utf8 e.name).length := by
  rw [centralHeader_eq, List.length_append, length_centralFields]

/-- the headers of written entries -/
def directory (written : List (ZipEntry × Nat)) : Bytes := (written.map fun w => centralHeader w.1 w.2).flatten

theorem directory_cons (w : ZipEntry × Nat) (rest : List (ZipEntry × Nat)) :
    directory (w :: rest) = centralHeader w.1 w.2 ++ directory rest := by
  rw [directory, List.map_cons, List.flatten_cons]
  rfl

/-- a name that is listed comes behind the others -/
def listName (entries : List String) (name : String) : List String :=
  let listed := trimMatches (· == '/') (normalizePath name)
  if listed = "" then entries else entries ++ [listed]

theorem listedName_utf8 (name : String) : listedName (utf8 name) = trimMatches (· == '/') (normalizePath name) := by
  have hflush : (TextDecoder.between true).flush = [] := rfl
  have hdecode := decode_encoded name.toList
  rw [encoded, ← utf8_eq] at hdecode
  rw [listedName, fromUtf8Lossy, hdecode]
  dsimp only
  rw [hflush, List.append_nil, String.ofList_toList]
  rfl

theorem centralLoop_header (localOffset : Nat) (hname : (utf8 e.name).length < 2 ^ 16)
    (hmore : front.length + 46 ≤ directoryEnd ∧ entries.length < max entryCount 1000) :
    centralLoop miss (front ++ (centralHeader e localOffset ++ back)) entryCount directoryEnd (fuel + 1) front.length
        entries =
      centralLoop miss (front ++ (centralHeader e localOffset ++ back)) entryCount directoryEnd fuel
        (front ++ centralHeader e localOffset).length (listName entries e.name) := by
  have hskip (n k : Nat) : readLe n (front ++ (centralHeader e localOffset ++ back)) (front.length + k) =
      readLe n (centralFields e localOffset ++ (utf8 e.name ++ back)) k := by
    rw [readLe_skip (Nat.le_add_right _ _), Nat.add_sub_cancel_left, centralHeader_eq, List.append_assoc]
  have hsignature := hskip 4 0
  have hnameLen := hskip 2 28
  have hextra := hskip 2 30
  have hcomment := hskip 2 32
  simp only [centralFields, u32Le, u16Le, List.append_assoc] at hsignature hnameLen hextra hcomment
  simp (disch := decide) only [readLe_field, readLe_littleEndian, Nat.reduceSub, Nat.reducePow,
    Nat.reduceMod, Nat.add_zero] at hsignature hnameLen hextra hcomment
  rw [Nat.mod_eq_of_lt (show (utf8 e.name).length < 65536 from hname)] at hnameLen
  have hnameEnd : front.length + 46 + (utf8 e.name).length = (front ++ centralHeader e localOffset).length := by
    rw [List.length_append, length_centralHeader, Nat.add_assoc]
  have hbounds : ¬ (front ++ centralHeader e localOffset).length >
      (front ++ (centralHeader e localOffset ++ back)).length := by
    simp only [List.length_append]
    omega
  have hslice : sliceAt (front ++ (centralHeader e localOffset ++ back)) (front.length + 46)
      (front ++ centralHeader e localOffset).length = some (utf8 e.name) := by
    rw [sliceAt_of_le (by rw [← hnameEnd]; exact Nat.le_add_right _ _) (Nat.le_of_not_lt hbounds), ← hnameEnd,
      Nat.add_sub_cancel_left, centralHeader_eq, List.append_assoc, ← length_centralFields e localOffset, drop_after,
      List.take_left]
  rw [centralLoop, if_pos hmore, fieldAt_eq hsignature, fieldAt_eq hnameLen, fieldAt_eq hextra, fieldAt_eq hcomment]
  simp only [Option.bind_eq_bind, Option.bind_some, ne_eq, not_true_eq_false, if_false, hnameEnd, hbounds, hslice,
    listedName_utf8, Nat.add_zero]
  rfl

theorem length_listName : (listName entries name).length ≤ entries.length + 1 := by
  unfold listName
  dsimp only
  split
  · exact Nat.le_succ _
  · exact Nat.le_of_eq List.length_append

theorem centralLoop_stop (h : ¬ (offset + 46 ≤ directoryEnd ∧ entries.length < max entryCount 1000)) :
    centralLoop miss bytes entryCount directoryEnd (fuel + 1) offset entries = some entries := by
  rw [centralLoop, if_neg h]

theorem centralLoop_directory (hnames : ∀ w ∈ written, (utf8 w.1.name).length < 2 ^ 16)
    (hcount : entries.length + written.length ≤ max entryCount 1000)
    (hend : directoryEnd = front.length + (directory written).length) (hfuel : written.length < fuel) :
    centralLoop miss (front ++ (directory written ++ back)) entryCount directoryEnd fuel front.length entries =
      some ((written.map (·.1.name)).foldl listName entries) := by
  induction written generalizing front fuel entries with
  | nil =>
    obtain ⟨fuel, rfl⟩ : ∃ n, fuel = n + 1 := ⟨fuel - 1, by omega⟩
    refine centralLoop_stop fun hmore => ?_
    have hlength : (directory []).length = 0 := rfl
    omega
  | cons w written ih =>
    obtain ⟨fuel, rfl⟩ : ∃ n, fuel = n + 1 := ⟨fuel - 1, by omega⟩
    rw [directory_cons, List.length_append, length_centralHeader] at hend
    rw [List.length_cons] at hcount hfuel
    have hfront : (front ++ centralHeader w.1 w.2).length = front.length + (46 + (utf8 w.1.name).length) := by
      rw [List.length_append, length_centralHeader]
    have hlisted := @length_listName entries w.1.name
    have hrest : centralLoop miss ((front ++ centralHeader w.1 w.2) ++ (directory written ++ back)) entryCount
        directoryEnd fuel (front ++ centralHeader w.1 w.2).length (listName entries w.1.name) =
          some ((written.map (·.1.name)).foldl listName (listName entries w.1.name)) :=
      ih (fun other hother => hnames other (List.mem_cons_of_mem w hother)) (by omega) (by omega) (by omega)
    rw [List.append_assoc] at hrest
    rw [directory_cons, List.append_assoc, centralLoop_header w.2 (hnames w List.mem_cons_self) (by omega), hrest,
      List.map_cons, List.foldl_cons]

theorem centralLoop_cut (hnames : ∀ w ∈ written, (utf8 w.1.name).length < 2 ^ 16) (hne : written ≠ [])
    (hend : directoryEnd + 2 ^ 17 ≤ front.length + (directory written).length) (hfuel : written.length < fuel) :
    ∃ names, centralLoop miss (front ++ (directory written ++ back)) entryCount directoryEnd fuel front.length entries =
      some names ∧ names.length < entries.length + written.length := by
  induction written generalizing front fuel entries with
  | nil => exact absurd rfl hne
  | cons w written ih =>
    obtain ⟨fuel, rfl⟩ : ∃ n, fuel = n + 1 := ⟨fuel - 1, by omega⟩
    by_cases hmore : front.length + 46 ≤ directoryEnd ∧ entries.length < max entryCount 1000
    swap
    · exact ⟨entries, centralLoop_stop hmore, Nat.lt_add_of_pos_right (Nat.succ_pos _)⟩
    have hname := hnames w List.mem_cons_self
    rw [directory_cons, List.length_append, length_centralHeader] at hend
    rw [List.length_cons] at hfuel
    have hfront : (front ++ centralHeader w.1 w.2).length = front.length + (46 + (utf8 w.1.name).length) := by
      rw [List.length_append, length_centralHeader]
    have hrestNe : written ≠ [] := by
      rintro rfl
      have hlength : (directory []).length = 0 := rfl
      omega
    obtain ⟨names, hrest, hlength⟩ : ∃ names, centralLoop miss ((front ++ centralHeader w.1 w.2) ++
        (directory written ++ back)) entryCount directoryEnd fuel (front ++ centralHeader w.1 w.2).length
          (listName entries w.1.name) = some names ∧
            names.length < (listName entries w.1.name).length + written.length :=
      ih (fun other hother => hnames other (List.mem_cons_of_mem w hother)) hrestNe (by omega) (by omega)
    have hlisted := @length_listName entries w.1.name
    rw [List.append_assoc] at hrest
    refine ⟨names, ?_, by rw [List.length_cons]; omega⟩
    rw [directory_cons, List.append_assoc, centralLoop_header w.2 hname hmore, hrest]

/-! ## archives that were written -/

theorem writeEntries_snd (entries : List ZipEntry) (output : Bytes) (written : List (ZipEntry × Nat)) :
    (writeEntries entries output written).2.map Prod.fst = written.map Prod.fst ++ entries := by
  induction entries generalizing output written with
  | nil => exact (List.append_nil _).symm
  | cons e entries ih =>
    rw [writeEntries, ih, List.map_append, List.append_assoc]
    rfl

/-- the bytes of the directory -/
def directorySize (entries : List ZipEntry) : Nat := (entries.map fun e => 46 + (utf8 e.name).length).sum

theorem length_directory (written : List (ZipEntry × Nat)) :
    (directory written).length = directorySize (written.map Prod.fst) := by
  induction written with
  | nil => rfl
  | cons w written ih =>
    rw [directory_cons, List.length_append, length_centralHeader, ih]
    rfl

theorem zipBytes_parts (l : List ZipEntry) : ∃ written : List (ZipEntry × Nat), written.map Prod.fst = l ∧
    zipBytes l = locals l ++ (directory written ++
      endRecord l.length (directorySize l) (locals l).length) := by
  have hwritten : (writeEntries l [] []).2.map Prod.fst = l := writeEntries_snd l [] []
  have hlength : (writeEntries l [] []).2.length = l.length := by rw [← hwritten, List.length_map, hwritten]
  refine ⟨(writeEntries l [] []).2, hwritten, ?_⟩
  have hsize := length_directory (writeEntries l [] []).2
  rw [hwritten] at hsize
  unfold zipBytes
  dsimp only
  rw [writeEntries_fst, List.nil_append, hlength, ← hsize, List.append_assoc]
  unfold endRecord directory
  simp only [List.append_assoc]

end

section
variable {l : List ZipEntry} {destination : Path} {front tail bytes : Bytes} {fuel : Nat} {name : String}

theorem length_le_directorySize (l : List ZipEntry) : l.length ≤ directorySize l := by
  induction l with
  | nil => exact Nat.le_refl _
  | cons e l ih =>
    rw [directorySize, List.map_cons, List.sum_cons, List.length_cons, ← directorySize]
    omega

theorem length_zipBytes (l : List ZipEntry) : (zipBytes l).length = (locals l).length + (directorySize l + 22) := by
  obtain ⟨written, hwritten, hbytes⟩ := zipBytes_parts l
  rw [hbytes, List.length_append, List.length_append, length_endRecord, length_directory, hwritten]

theorem listing_start (l : List ZipEntry) : zipCentralDirectoryEntries (zipBytes l) =
    centralLoop (some 0) (zipBytes l) (l.length % 2 ^ 16)
      (min ((locals l).length % 2 ^ 32 + directorySize l % 2 ^ 32) (zipBytes l).length) ((zipBytes l).length + 1)
        ((locals l).length % 2 ^ 32) [] := by
  obtain ⟨written, -, hbytes⟩ := zipBytes_parts l
  rw [hbytes, ← List.append_assoc]
  exact listing_endRecord _ _ _

theorem listing_written (hcount : l.length < 2 ^ 16) (hnames : ∀ e ∈ l, (utf8 e.name).length < 2 ^ 16)
    (hlocals : (locals l).length < 2 ^ 32) (hdirectory : directorySize l < 2 ^ 32) :
    zipCentralDirectoryEntries (zipBytes l) = some ((l.map (·.name)).foldl listName []) := by
  obtain ⟨written, hwritten, hbytes⟩ := zipBytes_parts l
  have hlength := length_zipBytes l
  have hsize : (directory written).length = directorySize l := by rw [length_directory, hwritten]
  have hwrittenLength : written.length = l.length := by rw [← hwritten, List.length_map]
  have hfew := length_le_directorySize l
  rw [listing_start, Nat.mod_eq_of_lt hcount, Nat.mod_eq_of_lt hlocals, Nat.mod_eq_of_lt hdirectory,
    Nat.min_eq_left (by omega)]
  generalize hfuel : (zipBytes l).length + 1 = fuel
  rw [hbytes, @centralLoop_directory _ _ _ _ _ _ written _ ?_ ?_ ?_ ?_]
  · rw [← hwritten, List.map_map]
    rfl
  · exact fun w hw => hnames w.1 (hwritten ▸ List.mem_map_of_mem hw)
  · rw [hwrittenLength, List.length_nil]
    omega
  · rw [hsize]
  · omega

theorem listing_cut (hnames : ∀ e ∈ l, (utf8 e.name).length < 2 ^ 16) (hlocals : (locals l).length < 2 ^ 32)
    (hdirectory : 2 ^ 32 ≤ directorySize l) :
    ∃ names, zipCentralDirectoryEntries (zipBytes l) = some names ∧ names.length < l.length := by
  obtain ⟨written, hwritten, hbytes⟩ := zipBytes_parts l
  have hlength := length_zipBytes l
  have hsize : (directory written).length = directorySize l := by rw [length_directory, hwritten]
  have hwrittenLength : written.length = l.length := by rw [← hwritten, List.length_map]
  have hfew := length_le_directorySize l
  have hcut : directorySize l % 2 ^ 32 + 2 ^ 32 ≤ directorySize l := by omega
  have hne : written ≠ [] := by
    rintro rfl
    have hempty : (directory []).length = 0 := rfl
    omega
  rw [listing_start, Nat.mod_eq_of_lt hlocals, Nat.min_eq_left (by omega)]
  generalize hfuel : (zipBytes l).length + 1 = fuel
  have hloop := @centralLoop_cut (some 0) (locals l) (endRecord l.length (directorySize l) (locals l).length)
    (l.length % 2 ^ 16) ((locals l).length + directorySize l % 2 ^ 32) fuel written []
    (fun w hw => hnames w.1 (hwritten ▸ List.mem_map_of_mem hw)) hne (by omega) (by omega)
  rwa [List.length_nil, Nat.zero_add, hwrittenLength, ← hbytes] at hloop

theorem listing_wrapped (hheader : readLe 4 (zipBytes l) ((locals l).length % 2 ^ 32) ≠ .ok 0x02014b50) :
    zipCentralDirectoryEntries (zipBytes l) = some [] := by
  rw [listing_start, centralLoop]
  split
  · next hmore =>
    have hread : fieldAt (some 0) 4 (zipBytes l) ((locals l).length % 2 ^ 32) =
        some (valueAt 4 (zipBytes l) ((locals l).length % 2 ^ 32)) := fieldAt_of_le (by omega)
    have hvalue : readLe 4 (zipBytes l) ((locals l).length % 2 ^ 32) =
        .ok (valueAt 4 (zipBytes l) ((locals l).length % 2 ^ 32)) := if_pos (by omega)
    have hother : valueAt 4 (zipBytes l) ((locals l).length % 2 ^ 32) ≠ 0x02014b50 :=
      fun h => hheader (by rw [hvalue, h])
    rw [hread]
    exact if_pos hother
  · rfl

/-! ## what is extracted -/

/-- the name does not lead out of the destination -/
def staysInside (name : String) : Bool := decide (isAbsolute name = false ∧ ".." ∉ components name)

theorem extractedNames_ends (h : Ends tail) (destination : Path) (fuel : Nat) :
    extractedNames (front ++ tail) destination (fuel + 1) front.length = ([], true) := by
  have hmore : front.length + 4 ≤ (front ++ tail).length := by
    rw [List.length_append]
    exact Nat.add_le_add_left h.length _
  rw [extractedNames, if_pos hmore, readEntry_ends h]

theorem extractedNames_locals (hfits : ∀ e ∈ l, Fits e) (htail : Ends tail) (hfuel : l.length < fuel) :
    extractedNames (front ++ (locals l ++ tail)) destination fuel front.length =
      ((l.map (·.name)).takeWhile staysInside, (l.map (·.name)).all staysInside) := by
  induction l generalizing front fuel with
  | nil =>
    obtain ⟨fuel, rfl⟩ : ∃ n, fuel = n + 1 := ⟨fuel - 1, by omega⟩
    exact extractedNames_ends htail destination fuel
  | cons e l ih =>
    obtain ⟨fuel, rfl⟩ : ∃ n, fuel = n + 1 := ⟨fuel - 1, by omega⟩
    have hrest : extractedNames ((front ++ (localHeader e ++ e.bytes)) ++ (locals l ++ tail)) destination fuel
        (front ++ (localHeader e ++ e.bytes)).length = _ :=
      ih (fun e' he' => hfits e' (List.mem_cons_of_mem e he')) (Nat.lt_of_succ_lt_succ hfuel)
    rw [← shift, List.length_append] at hrest
    have hmore : front.length + 4 ≤ (front ++ (localHeader e ++ (e.bytes ++ (locals l ++ tail)))).length := by
      simp only [List.length_append, length_localHeader]
      omega
    rw [locals_cons, List.append_assoc, List.append_assoc, extractedNames, if_pos hmore,
      readEntry_local (hfits e List.mem_cons_self)]
    dsimp only
    rw [fromUTF8_utf8]
    dsimp only
    rw [hrest, List.map_cons, List.takeWhile_cons, List.all_cons]
    cases hresolve : resolveArchiveEntry destination e.name with
    | error err =>
      have hout : staysInside e.name = false := by
        rw [staysInside, decide_eq_false_iff_not]
        intro hin
        rw [resolveArchiveEntry_iff.mpr ⟨hin, rfl⟩] at hresolve
        cases hresolve
      rw [hout]
      rfl
    | ok target =>
      have hin : staysInside e.name = true := decide_eq_true (resolveArchiveEntry_iff.mp hresolve).1
      rw [hin]
      rfl

theorem extractedNames_ne (hne : l ≠ []) : extractedNames (zipBytes l) destination (fuel + 1) 0 ≠ ([], true) := by
  obtain ⟨e, rest, rfl⟩ := List.exists_cons_of_ne_nil hne
  obtain ⟨tail, hbytes, -⟩ := zipBytes_eq (e :: rest)
  have hsignature : readLe 4 (zipBytes (e :: rest)) 0 = .ok 0x04034b50 := by
    rw [hbytes, locals_cons, localHeader_eq, headerFields]
    simp only [List.append_assoc, u32Le]
    exact readLe_littleEndian
  have hmore : 0 + 4 ≤ (zipBytes (e :: rest)).length := by
    rw [length_zipBytes]
    omega
  have hentry : readEntry (zipBytes (e :: rest)) 0 ≠ .ok none := by
    rw [readEntry, hsignature]
    intro hnone
    obtain ⟨signature, hfirst, hnone⟩ := result_bind_ok.mp hnone
    obtain rfl := Except.ok.inj hfirst
    rw [if_neg (by decide), if_neg (by decide)] at hnone
    obtain ⟨method, -, hnone⟩ := result_bind_ok.mp hnone
    split at hnone
    · cases hnone
    obtain ⟨size, -, hnone⟩ := result_bind_ok.mp hnone
    obtain ⟨nameLen, -, hnone⟩ := result_bind_ok.mp hnone
    obtain ⟨extraLen, -, hnone⟩ := result_bind_ok.mp hnone
    dsimp only at hnone
    split at hnone <;> cases hnone
  rw [extractedNames, if_pos hmore]
  rcases hread : readEntry (zipBytes (e :: rest)) 0 with err | (_ | ⟨name, data, next⟩)
  · exact fun h => absurd (congrArg Prod.snd h) Bool.false_ne_true
  · exact absurd hread hentry
  · dsimp only
    cases String.fromUTF8? ⟨name.toArray⟩ with
    | none => exact fun h => absurd (congrArg Prod.snd h) Bool.false_ne_true
    | some name =>
      dsimp only
      cases resolveArchiveEntry destination name with
      | error err => exact fun h => absurd (congrArg Prod.snd h) Bool.false_ne_true
      | ok target => exact fun h => absurd (congrArg Prod.fst h) (List.cons_ne_nil _ _)

/-! ## both walks -/

theorem foldl_listName (names entries : List String) : names.foldl listName entries =
    entries ++ (names.map fun name => trimMatches (· == '/') (normalizePath name)).filter (· ≠ "") := by
  induction names generalizing entries with
  | nil => exact (List.append_nil _).symm
  | cons name names ih =>
    rw [List.foldl_cons, ih, listName, List.map_cons]
    split
    · next hempty => rw [List.filter_cons_of_neg (by simpa using hempty)]
    · next hkept =>
      rw [List.filter_cons_of_pos (by simpa using hkept), List.append_assoc]
      rfl

theorem trim_slashes_iff (name : String) : trimMatches (· == '/') name = name ↔
    isAbsolute name = false ∧ name.toList.getLast? ≠ some '/' := by
  have hlist : (trimMatches (· == '/') name).toList = (name.toList.dropWhile (· == '/')).rdropWhile (· == '/') :=
    String.toList_ofList
  rw [← String.toList_inj, hlist, isAbsolute, beq_eq_false_iff_ne]
  cases hchars : name.toList with
  | nil => simp
  | cons c rest =>
    have hlast : (c :: rest).getLast? = some ((c :: rest).getLast (List.cons_ne_nil c rest)) :=
      List.getLast?_eq_some_getLast _
    have hkeep (hne : c ≠ '/') : (c :: rest).dropWhile (· == '/') = c :: rest :=
      List.dropWhile_cons_of_neg (by simpa using hne)
    rw [List.head?_cons, hlast, Ne, Ne, Option.some_inj, Option.some_inj]
    constructor
    · intro h
      have hhead : c ≠ '/' := by
        rintro rfl
        have hcut : ('/' :: rest).dropWhile (· == '/') = rest.dropWhile (· == '/') := List.dropWhile_cons_of_pos rfl
        have hshort := (List.rdropWhile_prefix (· == '/') (l := ('/' :: rest).dropWhile (· == '/'))).length_le
        have hless := (List.dropWhile_suffix (· == '/') (l := rest)).length_le
        rw [h, hcut, List.length_cons] at hshort
        omega
      rw [hkeep hhead, List.rdropWhile_eq_self_iff] at h
      exact ⟨hhead, by simpa using h (List.cons_ne_nil c rest)⟩
    · rintro ⟨hhead, hend⟩
      rw [hkeep hhead, List.rdropWhile_eq_self_iff]
      exact fun _ => by simpa using hend

theorem length_le_locals_of_mem {e : ZipEntry} (he : e ∈ l) : e.bytes.length ≤ (locals l).length := by
  induction l with
  | nil => exact absurd he List.not_mem_nil
  | cons e' l ih =>
    rw [locals_cons, List.length_append, List.length_append]
    rcases List.mem_cons.mp he with rfl | he
    · omega
    · have hrest := ih he
      omega

theorem filter_map_eq_self_iff {α : Type} {f : α → α} {p : α → Bool} {items : List α} :
    (items.map f).filter p = items ↔ ∀ x ∈ items, f x = x ∧ p x = true := by
  constructor
  · intro h
    have hlength : ((items.map f).filter p).length = (items.map f).length := by rw [h, List.length_map]
    have hall := List.length_filter_eq_length_iff.mp hlength
    rw [List.filter_eq_self.mpr hall] at h
    have hfixed : ∀ x ∈ items, f x = x := List.map_inj_left.mp (h.trans (List.map_id items).symm)
    exact fun x hx => ⟨hfixed x hx, hfixed x hx ▸ hall (f x) (List.mem_map_of_mem hx)⟩
  · intro h
    rw [List.map_congr_left fun x hx => (h x hx).1, List.map_id', List.filter_eq_self]
    exact fun x hx => (h x hx).2

/-- **both walks find the same names exactly when** the offsets fit their fields, and no name is trimmed or refused -/
theorem listsAlike_iff (hcount : l.length < 2 ^ 16) (hnames : ∀ e ∈ l, (utf8 e.name).length < 2 ^ 16)
    (hnormal : ∀ e ∈ l, Separated e.name ∧ e.name ≠ "")
    (hheader : (locals l).length < 2 ^ 32 ∨
      readLe 4 (zipBytes l) ((locals l).length % 2 ^ 32) ≠ .ok 0x02014b50) :
    ListsAlike (zipBytes l) ↔
      (locals l).length < 2 ^ 32 ∧ directorySize l < 2 ^ 32 ∧ ∀ e ∈ l, Listable e.name := by
  by_cases hlocals : (locals l).length < 2 ^ 32
  swap
  · refine iff_of_false (fun halike => ?_) fun h => hlocals h.1
    obtain ⟨names, hlisted, hextracted⟩ := halike []
    rw [listing_wrapped (hheader.resolve_left hlocals)] at hlisted
    obtain rfl := Option.some.inj hlisted
    refine extractedNames_ne ?_ hextracted
    rintro rfl
    exact hlocals (by decide)
  have hfits : ∀ e ∈ l, Fits e := fun e he => ⟨hnames e he, (length_le_locals_of_mem he).trans_lt hlocals⟩
  obtain ⟨tail, hbytes, htail⟩ := zipBytes_eq l
  have hextracted (destination : Path) : extractedNames (zipBytes l) destination ((zipBytes l).length + 1) 0 =
      ((l.map (·.name)).takeWhile staysInside, (l.map (·.name)).all staysInside) := by
    have hfuel : l.length < (zipBytes l).length + 1 := by
      have hfew := length_le_directorySize l
      rw [length_zipBytes]
      omega
    generalize (zipBytes l).length + 1 = fuel at hfuel ⊢
    rw [hbytes]
    exact @extractedNames_locals l destination [] tail fuel hfits htail hfuel
  by_cases hdirectory : directorySize l < 2 ^ 32
  swap
  · refine iff_of_false (fun halike => ?_) fun h => hdirectory h.2.1
    obtain ⟨names, hlisted, hnamesEq⟩ := halike []
    obtain ⟨names', hlisted', hless⟩ := listing_cut hnames hlocals (Nat.le_of_not_lt hdirectory)
    obtain rfl := Option.some.inj (hlisted.symm.trans hlisted')
    rw [hextracted, Prod.mk.injEq] at hnamesEq
    rw [← hnamesEq.1, List.takeWhile_eq_self_iff.mpr (List.all_eq_true.mp hnamesEq.2), List.length_map] at hless
    exact Nat.lt_irrefl _ hless
  rw [and_iff_right hlocals, and_iff_right hdirectory]
  have hlisted := listing_written hcount hnames hlocals hdirectory
  rw [foldl_listName, List.nil_append] at hlisted
  constructor
  · intro halike
    obtain ⟨names, hnamesListed, hnamesExtracted⟩ := halike []
    rw [hextracted, Prod.mk.injEq] at hnamesExtracted
    have hall := List.all_eq_true.mp hnamesExtracted.2
    rw [List.takeWhile_eq_self_iff.mpr hall] at hnamesExtracted
    rw [hlisted, ← hnamesExtracted.1, Option.some_inj, filter_map_eq_self_iff] at hnamesListed
    intro e he
    have hmem : e.name ∈ l.map (·.name) := List.mem_map_of_mem he
    have htrim := (hnamesListed _ hmem).1
    rw [normalizePath_of_separated (hnormal e he).1, trim_slashes_iff] at htrim
    exact ⟨htrim.1, (of_decide_eq_true (hall _ hmem)).2, htrim.2⟩
  · intro hlistable destination
    refine ⟨l.map (·.name), ?_, ?_⟩
    · rw [hlisted, Option.some_inj, filter_map_eq_self_iff]
      intro name hname
      obtain ⟨e, he, rfl⟩ := List.mem_map.mp hname
      rw [normalizePath_of_separated (hnormal e he).1, trim_slashes_iff]
      exact ⟨⟨(hlistable e he).relative, (hlistable e he).closed⟩, decide_eq_true (hnormal e he).2⟩
    · have hall : ∀ name ∈ l.map (·.name), staysInside name = true := by
        intro name hname
        obtain ⟨e, he, rfl⟩ := List.mem_map.mp hname
        exact decide_eq_true ⟨(hlistable e he).relative, (hlistable e he).below⟩
      rw [hextracted, List.takeWhile_eq_self_iff.mpr hall, List.all_eq_true.mpr hall]

end

section
variable {z : ZipSources} {e : ZipEntry} {archive destination p : Path} {t t' : Disk} {bytes : Bytes} {n : Nat}

theorem normal_of_mem_entries (he : e ∈ z.entries) : Separated e.name ∧ e.name ≠ "" := by
  obtain ⟨p, bytes, hp, rfl⟩ := of_mem_entries he
  have hname : (entryOf z.workspaceRoot (z.workspaceRoot ++ p) bytes).name = normalizePath (Text.join "/" p) :=
    zipName_eq _ _
  rw [hname]
  constructor
  · intro hmem
    rw [normalizePath, replaceChar, toList_mapChars] at hmem
    obtain ⟨c, -, hc⟩ := List.mem_map.mp hmem
    split at hc
    · exact absurd hc (by decide)
    · next hne => exact hne hc
  · intro hempty
    have hlist := congrArg String.toList hempty
    rw [normalizePath, replaceChar, toList_mapChars, show ("" : String).toList = [] from rfl,
      List.map_eq_nil_iff] at hlist
    have hjoin : Text.join "/" p = "" := String.toList_inj.mp hlist
    have hcomponents := components_join hp.normal
    rw [hjoin] at hcomponents
    exact hp.ne_nil (hcomponents.symm.trans (by decide))

/-- **the listing comes to an end for all bytes, with all reads in them; of an archive that was written, both walks find
the same names exactly when** its entries and its directory fit 32 bits, and no name is trimmed or refused -/
theorem zip_listings (z : ZipSources) (archive : Path) (n : Nat) (t' : Disk) :
    (∀ bytes, ∃ names, ∀ miss, zipCentralDirectoryEntriesWith miss bytes = some names) ∧
      (Ok (writeStoreZip z.workspaceRoot z.sources archive) z.disk n t' → n < 2 ^ 16 →
        (∀ e ∈ z.entries, ShortName e.name) → ∃ bytes, t'.fileAt archive = some bytes ∧
          ((locals z.entries).length < 2 ^ 32 ∨
              readLe 4 bytes ((locals z.entries).length % 2 ^ 32) ≠ .ok 0x02014b50 →
            (ListsAlike bytes ↔ (locals z.entries).length < 2 ^ 32 ∧ directorySize z.entries < 2 ^ 32 ∧
              ∀ e ∈ z.entries, Listable e.name))) := by
  refine ⟨listing_ends, fun hwrite hcount hnames => ?_⟩
  obtain ⟨rfl, hput⟩ := writeStoreZip_iff.mp hwrite
  obtain ⟨-, -, -, hentry⟩ := write_ok hput
  refine ⟨zipBytes z.entries, Tree.fileAt_eq_some.mpr ((hentry archive).trans (if_pos rfl)), fun hheader => ?_⟩
  exact listsAlike_iff hcount hnames (fun e he => normal_of_mem_entries he) hheader

end

/-! ## one file -/

/-- the sources of an archive of one file -/
def oneFile (name : String) (bytes : Bytes) (h : NormalName name) : ZipSources where
  disk := (Tree.empty : Disk).put [name] bytes (List.cons_ne_nil _ _) (by rw [List.dropLast_singleton, Tree.root])
    (by rw [entry_empty (List.cons_ne_nil _ _)]; exact nofun)
  workspaceRoot := []
  sources := [(name, [name])]
  root_dir := rfl
  below := fun _ _ => List.nil_prefix
  normal := by
    intro p hp c hc
    rw [List.nil_append, Tree.put_entry] at hp
    by_cases hself : p = [name]
    · rw [hself, List.mem_singleton] at hc
      exact hc ▸ h
    · rw [if_neg hself] at hp
      cases p with
      | nil => cases hc
      | cons x p => exact absurd (entry_empty (List.cons_ne_nil x p)) hp

theorem entries_oneFile (name : String) (bytes : Bytes) (h : NormalName name) :
    (oneFile name bytes h).entries = [⟨normalizePath name, bytes, crc32 bytes⟩] := by
  have hentry : (oneFile name bytes h).disk.entry [name] = some (.file bytes) := if_pos rfl
  have hcollect : collectZipEntries (oneFile name bytes h).disk [] ((oneFile name bytes h).disk.depth + 1) [name] =
      [⟨zipName [] [name], bytes, crc32 bytes⟩] := by
    rw [collectZipEntries, hentry]
  show dedupByName (([(name, [name])].flatMap fun s =>
    collectZipEntries (oneFile name bytes h).disk [] ((oneFile name bytes h).disk.depth + 1) s.2).insertionSort _) = _
  rw [List.flatMap_cons, List.flatMap_nil, List.append_nil, hcollect, List.insertionSort_cons, List.insertionSort_nil,
    List.orderedInsert_nil, dedupByName]
  exact congrArg (fun entry => [(⟨entry, bytes, crc32 bytes⟩ : ZipEntry)]) (zipName_eq [] [name])

theorem normalName_a : NormalName "a" := ⟨by decide, by decide, by decide, by decide⟩

theorem normalName_backslash : NormalName "a\\" := ⟨by decide, by decide, by decide, by decide⟩

theorem length_locals_singleton (e : ZipEntry) :
    (locals [e]).length = 30 + (utf8 e.name).length + e.bytes.length := by
  rw [locals_cons, List.length_append, List.length_append, length_localHeader]
  rfl

theorem forall_names {P : String → Prop} {name : String} (bytes : Bytes) (crc : UInt32) (h : P name) :
    ∀ e ∈ [(⟨name, bytes, crc⟩ : ZipEntry)], P e.name := List.forall_mem_singleton.mpr h

/-- the walks of an archive of one small file -/
theorem zip_listings_one_file : ∃ t', Ok (writeStoreZip [] [("a", ["a"])] ["a.zip"])
    (oneFile "a" [1, 2, 3] normalName_a).disk 1 t' ∧
      ∃ bytes, t'.fileAt ["a.zip"] = some bytes ∧ ListsAlike bytes := by
  have hentries := entries_oneFile "a" [1, 2, 3] normalName_a
  rw [show normalizePath "a" = "a" by decide] at hentries
  have hshort : (utf8 "a").length = 1 := by decide +kernel
  have hlocals : (locals (oneFile "a" [1, 2, 3] normalName_a).entries).length = 34 := by
    rw [hentries, length_locals_singleton, hshort]
    rfl
  obtain ⟨t', hput⟩ := write_total (t := (oneFile "a" [1, 2, 3] normalName_a).disk) (p := ["a.zip"])
    (zipBytes (oneFile "a" [1, 2, 3] normalName_a).entries) (List.cons_ne_nil _ _) (by decide) (by decide)
  have hwrite : Ok (writeStoreZip [] [("a", ["a"])] ["a.zip"]) (oneFile "a" [1, 2, 3] normalName_a).disk 1 t' :=
    (writeStoreZip_iff (z := oneFile "a" [1, 2, 3] normalName_a)).mpr ⟨by rw [hentries]; rfl, hput⟩
  obtain ⟨bytes, hbytes, hiff⟩ := (zip_listings (oneFile "a" [1, 2, 3] normalName_a) ["a.zip"] 1 t').2 hwrite
    (by decide) (by rw [hentries]; exact forall_names (P := ShortName) _ _ (by rw [ShortName, hshort]; decide))
  refine ⟨t', hwrite, bytes, hbytes, (hiff (Or.inl (by rw [hlocals]; decide))).mpr ⟨by rw [hlocals]; decide, ?_, ?_⟩⟩
  · rw [hentries, directorySize, List.map_singleton, List.sum_singleton, hshort]
    decide
  · rw [hentries]
    exact forall_names _ _ ⟨by decide, by decide, by decide⟩

/-- the name `a/` of a file `a\` is listed as `a`, and of a file of 2^32 bytes nothing is listed -/
theorem listings_differ : ¬ ListsAlike (zipBytes (oneFile "a\\" [] normalName_backslash).entries) ∧
    ¬ ListsAlike (zipBytes (oneFile "a" (List.replicate (2 ^ 32) 0) normalName_a).entries) := by
  have hshort : (utf8 "a").length = 1 ∧ (utf8 "a/").length = 2 := by decide +kernel
  constructor
  · rw [entries_oneFile, show normalizePath "a\\" = "a/" by decide]
    have hlocals : (locals [⟨"a/", [], crc32 []⟩]).length < 2 ^ 32 := by
      rw [length_locals_singleton, hshort.2]
      decide
    intro halike
    have hlistable := (listsAlike_iff (by decide)
      (forall_names (P := ShortName) _ _ (by rw [ShortName, hshort.2]; decide))
      (forall_names (P := fun name => Separated name ∧ name ≠ "") _ _ (by decide)) (Or.inl hlocals)).mp halike
    exact absurd (hlistable.2.2 _ List.mem_cons_self).closed (by decide)
  · rw [entries_oneFile, show normalizePath "a" = "a" by decide]
    let zeros (n : Nat) : Bytes := List.replicate n 0
    let entry : ZipEntry := ⟨"a", zeros (2 ^ 32), crc32 (zeros (2 ^ 32))⟩
    have hlength : (locals [entry]).length = 2 ^ 32 + 31 := by
      rw [length_locals_singleton]
      show 30 + (utf8 "a").length + (zeros (2 ^ 32)).length = _
      rw [hshort.1, List.length_replicate, Nat.add_comm]
    have hread : readLe 4 (zipBytes [entry]) ((2 ^ 32 + 31) % 2 ^ 32) = .ok 0 := by
      obtain ⟨tail, hbytes, -⟩ := zipBytes_eq [entry]
      have hheader : (localHeader entry).length = 31 := by
        rw [length_localHeader]
        exact congrArg (30 + ·) hshort.1
      have hzeros : entry.bytes = littleEndian 4 0 ++ zeros (2 ^ 32 - 4) := by
        show zeros (4 + (2 ^ 32 - 4)) = _
        exact List.replicate_add 4 (2 ^ 32 - 4) 0
      rw [hbytes, locals_cons, List.append_assoc, readLe_skip (by rw [hheader]; decide), hheader, hzeros,
        List.append_assoc, List.append_assoc]
      exact readLe_littleEndian
    intro halike
    have hfits := (listsAlike_iff (l := [entry]) (by decide)
      (forall_names (P := ShortName) _ _ (by rw [ShortName, hshort.1]; decide))
      (forall_names (P := fun name => Separated name ∧ name ≠ "") _ _ (by decide))
      (Or.inr (by rw [hlength, hread]; exact nofun))).mp halike
    rw [hlength] at hfits
    omega

end Os

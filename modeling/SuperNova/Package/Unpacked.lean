import SuperNova.Os.Overwritten
import SuperNova.Package.Archive

/-!
# Verified archives that are unpacked

`verify_store_zip_file` and `read_store_zip` walk the same local headers; the one looks at the lengths, the other at
the names too, and neither at the checksums.

* `verifyStoreZip_ok`: the verifier accepts entries in a row, and counts them;
* `Unpackable`: the names lie below the destination and not in each other, and the contents have their checksums;
* `verified_unpacks_iff` (**main**): a verified archive is unpacked with its checksums exactly when its entries are so.
-/

set_option linter.unusedSectionVars false

namespace Package

open Paths Io FileTree Workspace Os

/-! ## checksums of entries -/

/-- the CRC-32 in the header of an entry -/
def storedCrc (e : StoredEntry) : UInt32 := UInt32.ofNat (e.timesAndCrc / 2 ^ 32)

/-- where an entry goes -/
def target? (destination : Path) (e : StoredEntry) : Option Path := (e.write? destination).map (·.1)

section
variable {bytes rest : Bytes} {e : StoredEntry} {entries : List StoredEntry} {destination archive : Path} {t t' : Disk}
  {target : Path} {writes : List (Path × Bytes)} {takes : Path → Bool} {n offset next count : Nat} {name data : Bytes}

theorem littleEndian_split (n m v : Nat) :
    littleEndian (n + m) v = littleEndian n v ++ littleEndian m (v / 256 ^ n) := by
  induction n generalizing v with
  | zero => rw [Nat.zero_add, Nat.pow_zero, Nat.div_one, littleEndian, List.nil_append]
  | succ n ih =>
    rw [Nat.succ_add, littleEndian, ih, littleEndian, List.cons_append, Nat.div_div_eq_div_mul, Nat.pow_succ']

theorem readLe_storedCrc : readLe 4 (e.bytes ++ rest) 14 = .ok (storedCrc e).toNat := by
  have hvalue : (storedCrc e).toNat = e.timesAndCrc / 256 ^ 4 % 256 ^ 4 := UInt32.toNat_ofNat'
  rw [hvalue, StoredEntry.bytes, StoredEntry.header, littleEndian_split 4 4]
  simp only [u32Le, u16Le, List.append_assoc]
  simp (disch := decide) only [readLe_field, readLe_littleEndian, Nat.reduceSub]

theorem storedCrc_inj {e' : StoredEntry} {rest' : Bytes} (h : e.bytes ++ rest = e'.bytes ++ rest') :
    storedCrc e = storedCrc e' := by
  have hread : readLe 4 (e.bytes ++ rest) 14 = .ok (storedCrc e).toNat := readLe_storedCrc
  rw [h, readLe_storedCrc] at hread
  exact (UInt32.toNat_inj.mp (Except.ok.inj hread)).symm

/-! ## the two loops -/

theorem verifyEntries_row (fuel : Nat) (hfuel : bytes.length < offset + fuel) (hoffset : offset ≤ bytes.length)
    (h : bytes.drop offset = entries.flatMap StoredEntry.bytes ++ rest) (hrest : Terminal rest) :
    verifyEntries bytes fuel offset count = .ok (count + entries.length) := by
  induction entries generalizing offset fuel count with
  | nil =>
    obtain ⟨fuel, rfl⟩ : ∃ n, fuel = n + 1 := ⟨fuel - 1, by omega⟩
    rw [List.flatMap_nil, List.nil_append] at h
    rw [verifyEntries]
    rcases Terminal.stops (h.symm ▸ hrest) hoffset with hshort | ⟨hmore, hread⟩
    · rw [if_neg hshort]
      rfl
    · rw [if_pos hmore, verifyEntry_none.mpr hread]
      rfl
  | cons e entries ih =>
    obtain ⟨fuel, rfl⟩ : ∃ n, fuel = n + 1 := ⟨fuel - 1, by omega⟩
    rw [List.flatMap_cons, List.append_assoc] at h
    obtain ⟨hmore, hforward, hwithin, hafter⟩ := stored_next hoffset h
    rw [verifyEntries, if_pos hmore, verifyEntry_some.mpr ⟨_, _, readEntry_complete hoffset h⟩]
    show verifyEntries bytes fuel (offset + e.bytes.length) (count + 1) = _
    rw [ih fuel (by omega) hwithin hafter, List.length_cons]
    exact congrArg Except.ok (by omega)

theorem row_of_verifyEntries (fuel : Nat) (hfuel : bytes.length < offset + fuel) (hoffset : offset ≤ bytes.length)
    (h : verifyEntries bytes fuel offset count = .ok n) : ∃ (entries : List StoredEntry) (rest : Bytes),
      bytes.drop offset = entries.flatMap StoredEntry.bytes ++ rest ∧ Terminal rest ∧ n = count + entries.length := by
  induction fuel generalizing offset count with
  | zero => omega
  | succ fuel ih =>
    rw [verifyEntries] at h
    split at h
    · rcases hverify : verifyEntry bytes offset with e1 | (_ | next)
      · rw [hverify] at h
        cases h
      · rw [hverify] at h
        cases h
        exact ⟨[], bytes.drop offset, rfl, Or.inr ((readEntry_none hoffset).mp (verifyEntry_none.mp hverify)), rfl⟩
      · rw [hverify] at h
        obtain ⟨name, data, hread⟩ := verifyEntry_some.mp hverify
        obtain ⟨e, hbytes, -, -, hnext, hwithin⟩ := readEntry_sound hread
        have hlength := length_stored e
        obtain ⟨entries, rest, hrow, hrest, hcount⟩ := ih (by omega) hwithin h
        refine ⟨e :: entries, rest, ?_, hrest, ?_⟩
        · rw [hbytes, hrow, List.flatMap_cons, List.append_assoc]
        · rw [hcount, List.length_cons]
          omega
    · next hshort =>
      cases h
      refine ⟨[], bytes.drop offset, rfl, Or.inl ?_, rfl⟩
      rw [List.length_drop]
      omega

/-- **what the verifier accepts**: entries in a row, as many as it says and at least one -/
theorem verifyStoreZip_ok : verifyStoreZipFile t archive = .ok n ↔ ∃ (entries : List StoredEntry) (rest : Bytes),
    t.fileAt archive = some (entries.flatMap StoredEntry.bytes ++ rest) ∧ Terminal rest ∧ entries ≠ [] ∧
      n = entries.length := by
  constructor
  · intro h
    obtain ⟨bytes, hread, h⟩ := result_bind_ok.mp h
    obtain ⟨count, hcount, h⟩ := result_bind_ok.mp h
    split at h
    · cases h
    next hsome =>
      cases h
      have hbytes : t.fileAt archive = some bytes := by
        rw [readFile] at hread
        split at hread
        · next content hentry =>
          cases hread
          exact Tree.fileAt_eq_some.mpr hentry
        · cases hread
        · cases hread
      obtain ⟨entries, rest, hrow, hrest, hn⟩ := row_of_verifyEntries _ (by omega) (Nat.zero_le _) hcount
      rw [List.drop_zero] at hrow
      rw [Nat.zero_add] at hn
      refine ⟨entries, rest, hrow ▸ hbytes, hrest, ?_, hn⟩
      rintro rfl
      exact hsome hn
  · rintro ⟨entries, rest, hbytes, hrest, hne, rfl⟩
    have hread : readFile t archive = .ok (entries.flatMap StoredEntry.bytes ++ rest) := by
      rw [readFile, Tree.fileAt_eq_some.mp hbytes]
    have hcount : verifyEntries (entries.flatMap StoredEntry.bytes ++ rest)
        ((entries.flatMap StoredEntry.bytes ++ rest).length + 1) 0 0 = .ok (0 + entries.length) :=
      verifyEntries_row _ (by omega) (Nat.zero_le _) rfl hrest
    rw [Nat.zero_add] at hcount
    refine result_bind_ok.mpr ⟨_, hread, result_bind_ok.mpr ⟨_, hcount, ?_⟩⟩
    rw [if_neg fun hzero => hne (List.length_eq_zero_iff.mp hzero)]
    rfl

/-! ## the entries as writes -/

/-- what is written for an entry whose name lies below the destination -/
def writeOf (destination : Path) (e : StoredEntry) : Path × Bytes := ((target? destination e).getD [], e.data)

theorem write?_iff {w : Path × Bytes} :
    e.write? destination = some w ↔ target? destination e = some w.1 ∧ w.2 = e.data := by
  unfold target? StoredEntry.write?
  cases String.fromUTF8? ⟨e.name.toArray⟩ with
  | none => exact ⟨nofun, fun h => nomatch h.1⟩
  | some name =>
    rw [Option.bind_some, Option.map_map]
    cases resolveArchiveEntry destination name with
    | error e1 => exact ⟨nofun, fun h => nomatch h.1⟩
    | ok target =>
      constructor
      · intro h
        cases h
        exact ⟨rfl, rfl⟩
      · rintro ⟨htarget, hdata⟩
        obtain ⟨path, content⟩ := w
        cases htarget
        cases hdata
        rfl

theorem writeOf_of_target (h : target? destination e = some target) : writeOf destination e = (target, e.data) := by
  rw [writeOf, h, Option.getD_some]

theorem mapM_write? : entries.mapM (StoredEntry.write? destination) = some writes ↔
    (∀ e ∈ entries, ∃ target, target? destination e = some target) ∧ writes = entries.map (writeOf destination) := by
  induction entries generalizing writes with
  | nil =>
    rw [List.mapM_nil, List.map_nil]
    exact ⟨fun h => ⟨fun _ hmem => absurd hmem List.not_mem_nil, (Option.some.inj h).symm⟩, fun h => h.2 ▸ rfl⟩
  | cons e entries ih =>
    rw [List.mapM_cons, List.map_cons, List.forall_mem_cons]
    constructor
    · intro h
      obtain ⟨w, hwrite, h⟩ := Option.bind_eq_some_iff.mp h
      obtain ⟨more, hmore, h⟩ := Option.bind_eq_some_iff.mp h
      obtain rfl := Option.some.inj h
      obtain ⟨htarget, hdata⟩ := write?_iff.mp hwrite
      obtain ⟨hnamed, rfl⟩ := ih.mp hmore
      refine ⟨⟨⟨_, htarget⟩, hnamed⟩, ?_⟩
      rw [writeOf_of_target htarget, ← hdata]
    · rintro ⟨⟨⟨target, htarget⟩, hnamed⟩, rfl⟩
      refine Option.bind_eq_some_iff.mpr ⟨writeOf destination e, write?_iff.mpr ?_,
        Option.bind_eq_some_iff.mpr ⟨_, ih.mpr ⟨hnamed, rfl⟩, rfl⟩⟩
      rw [writeOf_of_target htarget]
      exact ⟨htarget, rfl⟩

/-- **what the reader does to entries in a row** -/
theorem readStoreZipOn_ok (hbytes : t.fileAt archive = some (entries.flatMap StoredEntry.bytes ++ rest))
    (hrest : Terminal rest) : Ok (readStoreZipOn takes archive destination) t n t' ↔
      n = entries.length ∧ (∀ e ∈ entries, ∃ target, target? destination e = some target) ∧
        Taken takes (entries.map (writeOf destination)) ∧
          Ok (unpackAll (entries.map (writeOf destination))) t () t' := by
  let bytes := entries.flatMap StoredEntry.bytes ++ rest
  have hread : Ok (readStoreZipOn takes archive destination) t n t' ↔
      Ok (readEntriesOn takes bytes destination (bytes.length + 1) 0 0) t n t' := by
    unfold Ok
    rw [readStoreZipOn, bind_of_ok (read_ok.mpr ⟨Tree.fileAt_eq_some.mp hbytes, rfl⟩)]
  rw [hread, readEntriesOn_ok, readEntries_ok]
  constructor
  · rintro ⟨⟨hall, hn, hunpack⟩, htaken⟩
    obtain ⟨entries', rest', hrow, hrest', hwrites⟩ :=
      archiveEntries_sound (bytes.length + 1) (by omega) (Nat.zero_le _) hall
    -- the bytes are entries in a row in one way only
    have hsame := (stored_unique hrow hrest hrest').1
    have hmapM : entries.mapM (StoredEntry.write? destination) = entries'.mapM (StoredEntry.write? destination) := by
      let f := fun named : Bytes × Bytes => (String.fromUTF8? ⟨named.1.toArray⟩).bind fun name =>
        (resolveArchiveEntry destination name).toOption.map fun target => (target, named.2)
      have hleft : (entries.map fun e => (e.name, e.data)).mapM f = entries.mapM (StoredEntry.write? destination) :=
        List.mapM_map
      have hright : (entries'.map fun e => (e.name, e.data)).mapM f = entries'.mapM (StoredEntry.write? destination) :=
        List.mapM_map
      rw [← hleft, ← hright, hsame]
    obtain ⟨hnamed, hmap⟩ := mapM_write?.mp (hmapM.trans hwrites)
    rw [hmap] at hn hunpack htaken
    rw [List.length_map, Nat.zero_add] at hn
    exact ⟨hn, hnamed, htaken, hunpack⟩
  · rintro ⟨hn, hnamed, htaken, hunpack⟩
    have hentries : archiveEntries bytes destination (bytes.length + 1) 0 =
        (entries.map (writeOf destination), true) :=
      archiveEntries_complete (bytes.length + 1) (by omega) (Nat.zero_le _) rfl hrest (mapM_write?.mpr ⟨hnamed, rfl⟩)
    rw [hentries]
    refine ⟨⟨rfl, ?_, hunpack⟩, htaken⟩
    rw [hn, List.length_map, Nat.zero_add]

/-! ## archives that are unpacked intact -/

/-- the archive is unpacked as a whole, and the content of each entry has the checksum of its header, in the archive
and where it was unpacked -/
def Intact (takes : Path → Bool) (archive destination : Path) (t : Disk) (n : Nat) : Prop :=
  ∃ t', Ok (readStoreZipOn takes archive destination) t n t' ∧ ∀ (entries : List StoredEntry) (rest : Bytes),
    t.fileAt archive = some (entries.flatMap StoredEntry.bytes ++ rest) → Terminal rest → ∀ e ∈ entries,
      crc32 e.data = storedCrc e ∧ ∃ target content, target? destination e = some target ∧
        t'.fileAt target = some content ∧ crc32 content = storedCrc e

/-- the names are those of files below the destination that the file system takes, two of them lie apart or are the
same under one checksum, and the contents have their checksums -/
structure Unpackable (takes : Path → Bool) (destination : Path) (entries : List StoredEntry) : Prop where
  named : ∀ e ∈ entries, ∃ target, target? destination e = some target ∧ target ≠ destination ∧
    takes target.dropLast = true ∧ takes target = true
  apart : ∀ e ∈ entries, ∀ later ∈ entries, ∀ p q, target? destination e = some p →
    target? destination later = some q → (p = q ∧ storedCrc e = storedCrc later) ∨ Apart p q
  checked : ∀ e ∈ entries, crc32 e.data = storedCrc e

theorem target?_below (h : target? destination e = some target) : ∃ p, target = destination ++ p := by
  obtain ⟨⟨path, content⟩, hwrite, rfl⟩ := Option.map_eq_some_iff.mp h
  obtain ⟨name, -, hmap⟩ := Option.bind_eq_some_iff.mp hwrite
  obtain ⟨resolved, hresolved, hpath⟩ := Option.map_eq_some_iff.mp hmap
  cases hpath
  rw [← ok_iff_toOption] at hresolved
  exact ⟨_, (resolveArchiveEntry_iff.mp hresolved).2⟩

theorem Intact.unpackable (h : Intact takes archive destination t n) (hdir : t.entry destination = some .dir)
    (hbytes : t.fileAt archive = some (entries.flatMap StoredEntry.bytes ++ rest)) (hrest : Terminal rest) :
    Unpackable takes destination entries := by
  obtain ⟨t', hrun, hchecked⟩ := h
  obtain ⟨-, hnamed, htaken, hunpack⟩ := (readStoreZipOn_ok hbytes hrest).mp hrun
  have hunpacks := unpacks_of_ok hunpack
  have hwritten : ∀ e ∈ entries, ∀ p, target? destination e = some p →
      (p, e.data) ∈ entries.map (writeOf destination) :=
    fun e hmem p htarget => List.mem_map.mpr ⟨e, hmem, writeOf_of_target htarget⟩
  refine ⟨fun e hmem => ?_, fun e hmem later hlater p q hp hq => ?_, fun e hmem =>
    (hchecked entries rest hbytes hrest e hmem).1⟩
  · obtain ⟨target, htarget⟩ := hnamed e hmem
    have hwrite := hwritten e hmem target htarget
    refine ⟨target, htarget, ?_, htaken _ hwrite⟩
    rintro rfl
    exact (hunpacks.free _ hwrite).2 hdir
  · have hflip : (entries.map (writeOf destination)).Pairwise fun later entry =>
        entry.1 = later.1 ∨ Apart entry.1 later.1 := hunpacks.apart.imp fun h => h.imp Eq.symm And.symm
    have hapart : p = q ∨ Apart p q :=
      List.Pairwise.forall_of_forall_of_flip
        (R := fun entry later : Path × Bytes => entry.1 = later.1 ∨ Apart entry.1 later.1)
        (fun _ _ => Or.inl rfl) hunpacks.apart hflip (hwritten e hmem p hp) (hwritten later hlater q hq)
    refine hapart.imp_left fun hsame => ⟨hsame, ?_⟩
    obtain ⟨-, p', content, hp', hcontent, hcrc⟩ := hchecked entries rest hbytes hrest e hmem
    obtain ⟨-, q', content', hq', hcontent', hcrc'⟩ := hchecked entries rest hbytes hrest later hlater
    obtain rfl := Option.some.inj (hp.symm.trans hp')
    obtain rfl := Option.some.inj (hq.symm.trans hq')
    subst hsame
    obtain rfl := Option.some.inj (hcontent.symm.trans hcontent')
    exact hcrc.symm.trans hcrc'

theorem Unpackable.unpacks (h : Unpackable takes destination entries) (hempty : EmptyDir t destination)
    (hbytes : t.fileAt archive = some (entries.flatMap StoredEntry.bytes ++ rest)) (hrest : Terminal rest) :
    ∃ t', Ok (readStoreZipOn takes archive destination) t entries.length t' := by
  have hnamed : ∀ e ∈ entries, ∃ target, target? destination e = some target := fun e hmem =>
    (h.named e hmem).imp fun _ htarget => htarget.1
  have hunpacks : Unpacks t (entries.map (writeOf destination)) := by
    refine ⟨List.forall_mem_map.mpr fun e hmem => ?_, List.pairwise_map.mpr ?_⟩
    · obtain ⟨target, htarget, hne, -⟩ := h.named e hmem
      obtain ⟨p, rfl⟩ := target?_below htarget
      rw [writeOf_of_target htarget]
      exact hempty.free fun hnil => hne (by rw [hnil, List.append_nil])
    · refine List.pairwise_of_forall_mem_list fun e hmem later hlater => ?_
      obtain ⟨p, hp⟩ := hnamed e hmem
      obtain ⟨q, hq⟩ := hnamed later hlater
      rw [writeOf_of_target hp, writeOf_of_target hq]
      exact (h.apart e hmem later hlater p q hp hq).imp_left And.left
  have htaken : Taken takes (entries.map (writeOf destination)) := List.forall_mem_map.mpr fun e hmem => by
    obtain ⟨target, htarget, -, htakes⟩ := h.named e hmem
    rw [writeOf_of_target htarget]
    exact htakes
  obtain ⟨t', hunpack⟩ := unpackAll_iff.mpr hunpacks
  exact ⟨t', (readStoreZipOn_ok hbytes hrest).mpr ⟨rfl, hnamed, htaken, hunpack⟩⟩

theorem Unpackable.content (h : Unpackable takes destination entries)
    (hrun : Ok (unpackAll (entries.map (writeOf destination))) t () t') (hmem : e ∈ entries) :
    ∃ target content, target? destination e = some target ∧ t'.fileAt target = some content ∧
      crc32 content = storedCrc e := by
  obtain ⟨target, htarget, -⟩ := h.named e hmem
  have hfile := fileAt_unpackAll hrun (List.mem_map.mpr ⟨e, hmem, rfl⟩)
  rw [writeOf_of_target htarget, ← List.map_reverse, List.find?_map, Option.map_map] at hfile
  obtain ⟨last, hlast⟩ : ∃ last, entries.reverse.find? ((fun later => later.1 == target) ∘ writeOf destination) =
      some last :=
    Option.isSome_iff_exists.mp (List.find?_isSome.mpr
      ⟨e, List.mem_reverse.mpr hmem, by rw [Function.comp, writeOf_of_target htarget, beq_self_eq_true]⟩)
  rw [hlast] at hfile
  have hthere := List.mem_reverse.mp (List.mem_of_find?_eq_some hlast)
  obtain ⟨place, hplace, -⟩ := h.named last hthere
  have hsame : place = target := by
    have hbeq := List.find?_some hlast
    rw [Function.comp, writeOf_of_target hplace] at hbeq
    exact eq_of_beq hbeq
  subst hsame
  have hstored : storedCrc e = storedCrc last :=
    ((h.apart e hmem last hthere place place htarget hplace).resolve_right fun hapart => hapart.1 List.prefix_rfl).2
  exact ⟨place, last.data, htarget, hfile, (h.checked last hthere).trans hstored.symm⟩

/-- **a verified archive is unpacked intact** into an empty directory exactly when the names of its entries are those of
files below it and their contents have their checksums -/
theorem verified_unpacks_iff (hempty : EmptyDir t destination) :
    (∀ n, verifyStoreZipFile t archive = .ok n → Intact takes archive destination t n) ↔
      ∀ (entries : List StoredEntry) (rest : Bytes), t.fileAt archive =
        some (entries.flatMap StoredEntry.bytes ++ rest) →
        Terminal rest → entries ≠ [] → Unpackable takes destination entries := by
  constructor
  · intro h entries rest hbytes hrest hne
    exact (h _ (verifyStoreZip_ok.mpr ⟨entries, rest, hbytes, hrest, hne, rfl⟩)).unpackable hempty.dir hbytes hrest
  · intro h n hverify
    obtain ⟨entries, rest, hbytes, hrest, hne, rfl⟩ := verifyStoreZip_ok.mp hverify
    obtain ⟨t', hrun⟩ := (h entries rest hbytes hrest hne).unpacks hempty hbytes hrest
    refine ⟨t', hrun, fun entries' rest' hbytes' hrest' e hmem => ?_⟩
    have hunpackable := h entries' rest' hbytes' hrest' (List.ne_nil_of_mem hmem)
    obtain ⟨-, -, -, hunpack⟩ := (readStoreZipOn_ok hbytes' hrest').mp hrun
    exact ⟨hunpackable.checked e hmem, hunpackable.content hunpack hmem⟩

end

/-- a file system takes no null characters -/
def withoutNul (path : Path) : Bool := path.all fun c => !c.toList.contains (Char.ofNat 0)

/-- an entry without content -/
def noByte : StoredEntry where
  versionAndFlags := 20
  timesAndCrc := 0
  uncompressedSize := 0
  name := [110]
  extra := []
  data := []
  nameFits := oneByte.nameFits
  extraFits := oneByte.extraFits
  dataFits := by decide

theorem archive_ne : (["a.zip"] : Path) ≠ [] := by decide

theorem archive_parent : (Tree.empty : Disk).entry (["a.zip"] : Path).dropLast = some .dir := by decide

theorem archive_free : (Tree.empty : Disk).entry ["a.zip"] ≠ some .dir := by decide

/-- an archive of the entry, and a directory next to it -/
def nextTo (e : StoredEntry) : Disk :=
  ((Tree.empty : Disk).put ["a.zip"] e.bytes archive_ne archive_parent archive_free).mkdirs ["out"]

theorem nextTo_emptyDir (e : StoredEntry) : EmptyDir (nextTo e) ["out"] := by
  refine ⟨(Tree.mkdirs_entry _ _ _).trans (if_pos List.prefix_rfl), fun x p => ?_⟩
  have hbelow : ¬ (["out"] ++ x :: p) <+: ["out"] := fun h => by
    have hle := h.length_le
    simp at hle
  have hother : ["out"] ++ x :: p ≠ ["a.zip"] := fun h => absurd (List.cons.inj h).1 (by decide)
  rw [nextTo, Tree.mkdirs_entry, if_neg hbelow, Tree.put_entry, if_neg hother]
  rfl

theorem nextTo_archive (e : StoredEntry) :
    (nextTo e).fileAt ["a.zip"] = some ([e].flatMap StoredEntry.bytes ++ []) := by
  have hbelow : ¬ ["a.zip"] <+: ["out"] := by decide
  rw [Tree.fileAt_eq_some, nextTo, Tree.mkdirs_entry, if_neg hbelow, Tree.put_entry, if_pos rfl, List.flatMap_singleton,
    List.append_nil]

/-- an archive of an empty file is unpacked intact -/
theorem verified_unpacks_iff_empty : verifyStoreZipFile (nextTo noByte) ["a.zip"] = .ok 1 ∧
    Intact withoutNul ["a.zip"] ["out"] (nextTo noByte) 1 := by
  have hverify : verifyStoreZipFile (nextTo noByte) ["a.zip"] = .ok 1 :=
    verifyStoreZip_ok.mpr ⟨[noByte], [], nextTo_archive noByte, Or.inl (by decide), by decide, rfl⟩
  refine ⟨hverify, (verified_unpacks_iff (nextTo_emptyDir noByte)).mpr
    (fun entries rest hbytes hrest _ => ?_) 1 hverify⟩
  have hsame := Option.some.inj (hbytes.symm.trans (nextTo_archive noByte))
  have hmap := (stored_unique hsame hrest (Or.inl (by decide))).1
  obtain ⟨e, rfl⟩ : ∃ e, entries = [e] := List.length_eq_one_iff.mp (by simpa using congrArg List.length hmap)
  obtain ⟨hname, hdata⟩ := Prod.mk.inj (List.singleton_inj.mp hmap)
  rw [List.flatMap_singleton, List.flatMap_singleton] at hsame
  have hcrc : storedCrc e = 0 := (storedCrc_inj hsame).trans (by decide)
  have htarget : target? ["out"] e = some ["out", "n"] := by
    rw [target?, StoredEntry.write?, hname, hdata]
    decide +kernel
  refine ⟨List.forall_mem_singleton.mpr ⟨_, htarget, by decide, by decide, by decide⟩, ?_, ?_⟩
  · refine List.forall_mem_singleton.mpr (List.forall_mem_singleton.mpr fun p q hp hq => Or.inl ⟨?_, rfl⟩)
    exact Option.some.inj (hp.symm.trans hq)
  · refine List.forall_mem_singleton.mpr ?_
    rw [hcrc, hdata]
    decide

/-- **the checksum is looked at by nobody**: a verified archive of a byte whose header gives another checksum -/
theorem verified_with_another_checksum : EmptyDir (nextTo oneByte) ["out"] ∧
    verifyStoreZipFile (nextTo oneByte) ["a.zip"] = .ok 1 ∧
      ∀ takes, ¬ Intact takes ["a.zip"] ["out"] (nextTo oneByte) 1 := by
  refine ⟨nextTo_emptyDir oneByte, verifyStoreZip_ok.mpr ⟨[oneByte], [], nextTo_archive oneByte, Or.inl (by decide),
    by decide, rfl⟩, ?_⟩
  rintro takes ⟨t', -, hchecked⟩
  have hcrc := (hchecked [oneByte] [] (nextTo_archive oneByte) (Or.inl (by decide)) oneByte List.mem_cons_self).1
  exact absurd hcrc (by decide +kernel)

end Package

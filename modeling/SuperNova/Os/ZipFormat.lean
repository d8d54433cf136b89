import SuperNova.Os.Unpack

/-!
# Reading what was written

The local headers of an archive are read back with the widths of their fields.

* `readEntry_local`: an entry whose name and content fit their fields is read as it was written;
* `readEntry_bounded`: no entry that is read is longer than its fields can say;
* `readEntries_ok`: the loop writes what `archiveEntries` reads.
-/

set_option linter.unusedSectionVars false

namespace Os

open Paths Io FileTree Workspace

/-! ## numbers -/

section
variable {n m v offset : Nat} {bytes front part l : Bytes}

@[simp] theorem length_littleEndian (n v : Nat) : (littleEndian n v).length = n := by
  induction n generalizing v with
  | zero => rfl
  | succ n ih => rw [littleEndian, List.length_cons, ih]

theorem foldr_littleEndian (n v : Nat) :
    (littleEndian n v).foldr (fun b v => b.toNat + 256 * v) 0 = v % 256 ^ n := by
  induction n generalizing v with
  | zero => exact (Nat.mod_one v).symm
  | succ n ih =>
    have hbyte : (UInt8.ofNat v).toNat = v % 256 := UInt8.toNat_ofNat'
    rw [littleEndian, List.foldr_cons, ih, hbyte, Nat.pow_succ', Nat.mod_mul]

theorem readLe_littleEndian : readLe n (littleEndian n v ++ l) 0 = .ok (v % 256 ^ n) := by
  have hlen : 0 + n ≤ (littleEndian n v ++ l).length := by simp
  rw [readLe, if_pos hlen, List.drop_zero, List.take_left' (length_littleEndian n v),
    foldr_littleEndian]

theorem readLe_skip (h : part.length ≤ offset) :
    readLe n (part ++ l) offset = readLe n l (offset - part.length) := by
  have hdrop : (part ++ l).drop offset = l.drop (offset - part.length) := by
    rw [List.drop_append, List.drop_eq_nil_of_le h, List.nil_append]
  have hlen : offset + n ≤ (part ++ l).length ↔ offset - part.length + n ≤ l.length := by
    rw [List.length_append]
    omega
  unfold readLe
  rw [hdrop]
  by_cases hfits : offset + n ≤ (part ++ l).length
  · rw [if_pos hfits, if_pos (hlen.mp hfits)]
  · rw [if_neg hfits, if_neg fun h => hfits (hlen.mpr h)]

theorem readLe_field (h : m ≤ offset) :
    readLe n (littleEndian m v ++ l) offset = readLe n l (offset - m) := by
  have hskip := @readLe_skip n offset (littleEndian m v) l (by rwa [length_littleEndian])
  rwa [length_littleEndian] at hskip

theorem foldr_bytes_lt (bytes : Bytes) :
    bytes.foldr (fun b v => b.toNat + 256 * v) 0 < 256 ^ bytes.length := by
  induction bytes with
  | nil => exact Nat.one_pos
  | cons b bytes ih =>
    have hbyte : b.toNat < 256 := b.toNat_lt
    rw [List.foldr_cons, List.length_cons, Nat.pow_succ]
    omega

theorem readLe_lt (h : readLe n bytes offset = .ok v) : v < 256 ^ n := by
  unfold readLe at h
  split at h
  · cases h
    refine (foldr_bytes_lt _).trans_le (Nat.pow_le_pow_right (by decide) ?_)
    exact List.length_take_le _ _
  · cases h

end

/-! ## entries -/

section
variable {bytes front back tail : Bytes} {e : ZipEntry} {offset next : Nat} {name data : Bytes}

/-- what the fields of a local header can say -/
structure Fits (e : ZipEntry) : Prop where
  name : (utf8 e.name).length < 2 ^ 16
  size : e.bytes.length < 2 ^ 32

/-- the fields before the name -/
def headerFields (e : ZipEntry) : Bytes :=
  u32Le 0x04034b50 ++ (u16Le 20 ++ (u16Le 0x0800 ++ (u16Le 0 ++ (u16Le 0 ++ (u16Le 0 ++
    (u32Le e.crc.toNat ++ (u32Le e.bytes.length ++ (u32Le e.bytes.length ++
      (u16Le (utf8 e.name).length ++ u16Le 0)))))))))

theorem localHeader_eq (e : ZipEntry) : localHeader e = headerFields e ++ utf8 e.name := by
  unfold localHeader headerFields
  simp only [List.append_assoc]

theorem length_headerFields (e : ZipEntry) : (headerFields e).length = 30 := by
  simp [headerFields, u32Le, u16Le]

theorem length_localHeader (e : ZipEntry) : (localHeader e).length = 30 + (utf8 e.name).length := by
  rw [localHeader_eq, List.length_append, length_headerFields]

theorem readLe_header {n k : Nat} (rest : Bytes) :
    readLe n (front ++ (localHeader e ++ rest)) (front.length + k) =
      readLe n (headerFields e ++ (utf8 e.name ++ rest)) k := by
  rw [readLe_skip (Nat.le_add_right _ _), Nat.add_sub_cancel_left, localHeader_eq, List.append_assoc]

theorem drop_after (front part l : Bytes) : (front ++ (part ++ l)).drop (front.length + part.length) = l := by
  rw [← List.append_assoc, ← List.length_append, List.drop_left]

theorem readEntry_local (h : Fits e) :
    readEntry (front ++ (localHeader e ++ (e.bytes ++ back))) front.length =
      .ok (some (utf8 e.name, e.bytes, front.length + (localHeader e ++ e.bytes).length)) := by
  have hsignature := @readLe_header front e 4 0 (e.bytes ++ back)
  have hmethod := @readLe_header front e 2 8 (e.bytes ++ back)
  have hsize := @readLe_header front e 4 18 (e.bytes ++ back)
  have hname := @readLe_header front e 2 26 (e.bytes ++ back)
  have hextra := @readLe_header front e 2 28 (e.bytes ++ back)
  simp only [headerFields, u32Le, u16Le, List.append_assoc] at hsignature hmethod hsize hname hextra
  simp (disch := decide) only [readLe_field, readLe_littleEndian, Nat.reduceSub, Nat.reducePow,
    Nat.reduceMod, Nat.add_zero] at hsignature hmethod hsize hname hextra
  rw [Nat.mod_eq_of_lt (show e.bytes.length < 4294967296 from h.size)] at hsize
  rw [Nat.mod_eq_of_lt (show (utf8 e.name).length < 65536 from h.name)] at hname
  have hdata : front.length + 30 + (utf8 e.name).length + 0 = front.length + (localHeader e).length := by
    rw [length_localHeader]
    omega
  have hbounds : ¬ front.length + 30 + (utf8 e.name).length + 0 + e.bytes.length >
      (front ++ (localHeader e ++ (e.bytes ++ back))).length := by
    simp only [hdata, List.length_append]
    omega
  have hdropName : (front ++ (localHeader e ++ (e.bytes ++ back))).drop (front.length + 30) =
      utf8 e.name ++ (e.bytes ++ back) := by
    rw [localHeader_eq, List.append_assoc, ← length_headerFields e, drop_after]
  unfold readEntry
  simp only [hsignature, hmethod, hsize, hname, hextra, hbounds, bind, Except.bind]
  rw [hdropName, hdata, drop_after, List.take_left, List.take_left, List.length_append, Nat.add_assoc]
  rfl

theorem readEntry_bounded (h : readEntry bytes offset = .ok (some (name, data, next))) :
    name.length < 2 ^ 16 ∧ data.length < 2 ^ 32 := by
  obtain ⟨signature, -, h⟩ := result_bind_ok.mp h
  split at h
  · cases h
  split at h
  · cases h
  obtain ⟨method, -, h⟩ := result_bind_ok.mp h
  split at h
  · cases h
  obtain ⟨size, hsize, h⟩ := result_bind_ok.mp h
  obtain ⟨nameLen, hnameLen, h⟩ := result_bind_ok.mp h
  obtain ⟨extraLen, -, h⟩ := result_bind_ok.mp h
  simp only at h
  split at h
  · cases h
  cases h
  have hname : nameLen < 256 ^ 2 := readLe_lt hnameLen
  have hdata : size < 256 ^ 4 := readLe_lt hsize
  exact ⟨(List.length_take_le _ _).trans_lt hname, (List.length_take_le _ _).trans_lt hdata⟩

/-! ## the loop -/

theorem readEntries_ok {destination : Path} (fuel : Nat) : ∀ {offset count n : Nat} {t t' : Disk},
    Ok (readEntries bytes destination fuel offset count) t n t' ↔
      (archiveEntries bytes destination fuel offset).2 = true ∧
      n = count + (archiveEntries bytes destination fuel offset).1.length ∧
      Ok (unpackAll (archiveEntries bytes destination fuel offset).1) t () t' := by
  induction fuel with
  | zero =>
    intro offset count n t t'
    constructor
    · intro h
      cases h
      exact ⟨rfl, rfl, rfl⟩
    · rintro ⟨-, rfl, h⟩
      cases h
      rfl
  | succ fuel ih =>
    intro offset count n t t'
    have hstop : ∀ {m : DiskM Nat}, m = pure count → (Ok m t n t' ↔
        true = true ∧ n = count + 0 ∧ Ok (unpackAll []) t () t') := by
      rintro m rfl
      constructor
      · intro h
        cases h
        exact ⟨rfl, rfl, rfl⟩
      · rintro ⟨-, rfl, h⟩
        cases h
        rfl
    rw [readEntries, archiveEntries]
    by_cases hmore : offset + 4 ≤ bytes.length
    swap
    · rw [if_neg hmore, if_neg hmore]
      exact hstop rfl
    rw [if_pos hmore, if_pos hmore]
    rcases readEntry bytes offset with e1 | (_ | ⟨name, data, next⟩)
    · exact iff_of_false (fun h => by cases h) fun h => Bool.false_ne_true h.1
    · exact hstop rfl
    · dsimp only
      cases String.fromUTF8? ⟨name.toArray⟩ with
      | none => exact iff_of_false (fun h => by cases h) fun h => Bool.false_ne_true h.1
      | some name =>
        dsimp only
        cases resolveArchiveEntry destination name with
        | error e1 => exact iff_of_false (fun h => by cases h) fun h => Bool.false_ne_true h.1
        | ok target =>
          dsimp only
          constructor
          · intro h
            obtain ⟨_, t1, h1, g1⟩ := bind_ok.mp h
            obtain ⟨_, t2, h2, g2⟩ := bind_ok.mp g1
            obtain ⟨hcomplete, hn, hrest⟩ := ih.mp g2
            refine ⟨hcomplete, ?_, forM_cons_ok.mpr ⟨t2, bind_ok.mpr ⟨_, t1, h1, h2⟩, hrest⟩⟩
            rw [hn, List.length_cons]
            omega
          · rintro ⟨hcomplete, hn, hall⟩
            obtain ⟨t2, hwrite, hrest⟩ := forM_cons_ok.mp hall
            obtain ⟨_, t1, h1, h2⟩ := bind_ok.mp hwrite
            refine bind_ok.mpr ⟨_, t1, h1, bind_ok.mpr ⟨_, t2, h2, ih.mpr ⟨hcomplete, ?_, hrest⟩⟩⟩
            rw [hn, List.length_cons]
            omega

/-! ## archives -/

theorem fromUTF8_utf8 (s : String) : String.fromUTF8? ⟨(utf8 s).toArray⟩ = some s := by
  have hbytes : (⟨(utf8 s).toArray⟩ : ByteArray) = s.toUTF8 := rfl
  have hvalid : s.toUTF8.IsValidUTF8 := s.isValidUTF8
  rw [hbytes, String.fromUTF8?, dif_pos hvalid]
  rfl

theorem utf8_of_fromUTF8 {s : String} (h : String.fromUTF8? ⟨name.toArray⟩ = some s) : utf8 s = name := by
  unfold String.fromUTF8? at h
  split at h
  · cases h
    rfl
  · cases h

/-- the entries of an archive, each after its header -/
def locals (entries : List ZipEntry) : Bytes := (entries.map fun e => localHeader e ++ e.bytes).flatten

theorem locals_cons (e : ZipEntry) (entries : List ZipEntry) :
    locals (e :: entries) = localHeader e ++ (e.bytes ++ locals entries) := by
  unfold locals
  rw [List.map_cons, List.flatten_cons, List.append_assoc]

theorem writeEntries_fst (entries : List ZipEntry) (output : Bytes) (written : List (ZipEntry × Nat)) :
    (writeEntries entries output written).1 = output ++ locals entries := by
  induction entries generalizing output written with
  | nil => exact (List.append_nil _).symm
  | cons e entries ih => rw [writeEntries, ih, locals_cons, List.append_assoc, List.append_assoc]

/-- what follows the entries starts with a header that ends the loop -/
def Ends (tail : Bytes) : Prop :=
  ∃ signature rest, tail = u32Le signature ++ rest ∧ (signature = 0x02014b50 ∨ signature = 0x06054b50)

theorem zipBytes_eq (entries : List ZipEntry) : ∃ tail, zipBytes entries = locals entries ++ tail ∧ Ends tail := by
  have hlocals : (writeEntries entries [] []).1 = locals entries := writeEntries_fst entries [] []
  unfold zipBytes
  simp only [hlocals, List.append_assoc]
  refine ⟨_, rfl, ?_⟩
  cases (writeEntries entries [] []).2 with
  | nil => exact ⟨0x06054b50, _, rfl, Or.inr rfl⟩
  | cons w written =>
    obtain ⟨rest, hrest⟩ : ∃ rest, centralHeader w.1 w.2 = u32Le 0x02014b50 ++ rest := by
      unfold centralHeader
      simp only [List.append_assoc]
      exact ⟨_, rfl⟩
    rw [List.map_cons, List.flatten_cons, hrest, List.append_assoc, List.append_assoc]
    exact ⟨0x02014b50, _, rfl, Or.inl rfl⟩

theorem Ends.length (h : Ends tail) : 4 ≤ tail.length := by
  obtain ⟨signature, rest, rfl, -⟩ := h
  simp [u32Le]

theorem readEntry_ends (h : Ends tail) : readEntry (front ++ tail) front.length = .ok none := by
  obtain ⟨signature, rest, rfl, hsignature⟩ := h
  have hread : readLe 4 (front ++ (u32Le signature ++ rest)) front.length = .ok signature := by
    rw [readLe_skip (Nat.le_refl _), Nat.sub_self, u32Le, readLe_littleEndian]
    rcases hsignature with rfl | rfl <;> rfl
  rw [readEntry, hread]
  show (if signature = 0x02014b50 ∨ signature = 0x06054b50 then _ else _) = _
  rw [if_pos hsignature]
  rfl

theorem archiveEntries_ends (h : Ends tail) (destination : Path) (fuel : Nat) :
    archiveEntries (front ++ tail) destination (fuel + 1) front.length = ([], true) := by
  have hmore : front.length + 4 ≤ (front ++ tail).length := by
    rw [List.length_append]
    exact Nat.add_le_add_left h.length _
  rw [archiveEntries, if_pos hmore, readEntry_ends h]

theorem archiveEntries_cons (h : Fits e) (destination : Path) (fuel : Nat) :
    archiveEntries (front ++ (localHeader e ++ (e.bytes ++ back))) destination (fuel + 1) front.length =
      match resolveArchiveEntry destination e.name with
      | .error _ => ([], false)
      | .ok target =>
        let rest := archiveEntries (front ++ (localHeader e ++ (e.bytes ++ back))) destination fuel
          (front.length + (localHeader e ++ e.bytes).length)
        ((target, e.bytes) :: rest.1, rest.2) := by
  have hmore : front.length + 4 ≤ (front ++ (localHeader e ++ (e.bytes ++ back))).length := by
    simp only [List.length_append, length_localHeader]
    omega
  rw [archiveEntries, if_pos hmore, readEntry_local h]
  cases hresolve : resolveArchiveEntry destination e.name with
  | error => simp only [fromUTF8_utf8, hresolve]
  | ok => simp only [fromUTF8_utf8, hresolve]

theorem shift (front back : Bytes) (e : ZipEntry) :
    front ++ (localHeader e ++ (e.bytes ++ back)) = (front ++ (localHeader e ++ e.bytes)) ++ back := by
  simp only [List.append_assoc]

theorem mem_archiveEntries {entries : List ZipEntry} (hfits : ∀ e ∈ entries, Fits e) {tail : Bytes}
    (htail : Ends tail) (destination : Path) (fuel : Nat) :
    ∀ x ∈ (archiveEntries (front ++ (locals entries ++ tail)) destination fuel front.length).1,
      ∃ e ∈ entries, resolveArchiveEntry destination e.name = .ok x.1 ∧ x.2 = e.bytes := by
  induction fuel generalizing entries front with
  | zero => exact fun x hx => absurd hx List.not_mem_nil
  | succ fuel ih =>
    intro x hx
    cases entries with
    | nil =>
      have hends := @archiveEntries_ends front tail htail destination fuel
      rw [show locals [] = [] from rfl, List.nil_append, hends] at hx
      exact absurd hx List.not_mem_nil
    | cons e entries =>
      rw [locals_cons, List.append_assoc, List.append_assoc,
        archiveEntries_cons (hfits e List.mem_cons_self)] at hx
      cases hresolve : resolveArchiveEntry destination e.name with
      | error err =>
        rw [hresolve] at hx
        exact absurd hx List.not_mem_nil
      | ok target =>
        rw [hresolve] at hx
        rcases List.mem_cons.mp hx with rfl | hrest
        · exact ⟨e, List.mem_cons_self, hresolve, rfl⟩
        · rw [shift, ← List.length_append] at hrest
          obtain ⟨e', he', hx'⟩ := ih (fun e' he' => hfits e' (List.mem_cons_of_mem _ he')) x hrest
          exact ⟨e', List.mem_cons_of_mem _ he', hx'⟩

theorem archiveEntries_locals {entries : List ZipEntry} {destination : Path} (hfits : ∀ e ∈ entries, Fits e)
    (hresolve : ∀ e ∈ entries, resolveArchiveEntry destination e.name = .ok (destination ++ components e.name))
    {tail : Bytes} (htail : Ends tail) (fuel : Nat) (hfuel : entries.length < fuel) :
    archiveEntries (front ++ (locals entries ++ tail)) destination fuel front.length =
      (entries.map fun e => (destination ++ components e.name, e.bytes), true) := by
  induction entries generalizing front fuel with
  | nil =>
    obtain ⟨fuel, rfl⟩ : ∃ n, fuel = n + 1 := ⟨fuel - 1, by simp at hfuel; omega⟩
    rw [show locals [] = [] from rfl, List.nil_append, archiveEntries_ends htail]
    rfl
  | cons e entries ih =>
    obtain ⟨fuel, rfl⟩ : ∃ n, fuel = n + 1 := ⟨fuel - 1, by simp at hfuel; omega⟩
    have hrest := @ih (front ++ (localHeader e ++ e.bytes))
      (fun e' he' => hfits e' (List.mem_cons_of_mem _ he'))
      (fun e' he' => hresolve e' (List.mem_cons_of_mem _ he')) fuel (Nat.lt_of_succ_lt_succ hfuel)
    rw [locals_cons, List.append_assoc, List.append_assoc,
      archiveEntries_cons (hfits e List.mem_cons_self), hresolve e List.mem_cons_self, shift,
      ← List.length_append, hrest]
    rfl

end

end Os

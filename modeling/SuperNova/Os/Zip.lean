import SuperNova.Os.Kernel

/-!
# Store-method zip archives

`writeStoreZip` collects the files below its sources and writes one archive of stored entries;
`readStoreZip` walks the local headers of an archive and writes every entry below a directory.
Integers of the format are little-endian and truncated to their width.
-/

namespace Os

open Paths Io FileTree Workspace

def runtimeDirName : String := ".supernova_v2"

/-- the low `n` bytes of a number, least significant first -/
def littleEndian : Nat → Nat → Bytes
  | 0, _ => []
  | n + 1, v => UInt8.ofNat v :: littleEndian n (v / 256)

def u16Le (v : Nat) : Bytes := littleEndian 2 v

def u32Le (v : Nat) : Bytes := littleEndian 4 v

/-- the number that `width` bytes at an offset stand for -/
def readLe (width : Nat) (bytes : Bytes) (offset : Nat) : Except Fault Nat :=
  if offset + width ≤ bytes.length then
    .ok (((bytes.drop offset).take width).foldr (fun b v => b.toNat + 256 * v) 0)
  else .error (.invalidData "unexpected end of zip data")

def crcBit (crc : UInt32) : UInt32 :=
  if crc &&& 1 = 1 then (crc >>> 1) ^^^ 0xedb88320 else crc >>> 1

def crcByte (crc : UInt32) (b : UInt8) : UInt32 :=
  crcBit (crcBit (crcBit (crcBit (crcBit (crcBit (crcBit (crcBit (crc ^^^ b.toUInt32))))))))

def crc32 (bytes : Bytes) : UInt32 := ~~~ (bytes.foldl crcByte 0xffffffff)

/-- `ZipEntryData`, its offset assigned when it is written -/
structure ZipEntry where
  name : String
  bytes : Bytes
  crc : UInt32

def utf8 (s : String) : Bytes := s.toUTF8.data.toList

def localHeader (e : ZipEntry) : Bytes :=
  u32Le 0x04034b50 ++ u16Le 20 ++ u16Le 0x0800 ++ u16Le 0 ++ u16Le 0 ++ u16Le 0 ++
    u32Le e.crc.toNat ++ u32Le e.bytes.length ++ u32Le e.bytes.length ++
    u16Le (utf8 e.name).length ++ u16Le 0 ++ utf8 e.name

def centralHeader (e : ZipEntry) (localOffset : Nat) : Bytes :=
  u32Le 0x02014b50 ++ u16Le 20 ++ u16Le 20 ++ u16Le 0x0800 ++ u16Le 0 ++ u16Le 0 ++ u16Le 0 ++
    u32Le e.crc.toNat ++ u32Le e.bytes.length ++ u32Le e.bytes.length ++
    u16Le (utf8 e.name).length ++ u16Le 0 ++ u16Le 0 ++ u16Le 0 ++ u16Le 0 ++ u32Le 0 ++
    u32Le localOffset ++ utf8 e.name

/-- the entries one after another, with the offset each starts at -/
def writeEntries : List ZipEntry → Bytes → List (ZipEntry × Nat) → Bytes × List (ZipEntry × Nat)
  | [], output, written => (output, written)
  | e :: rest, output, written =>
    writeEntries rest (output ++ localHeader e ++ e.bytes) (written ++ [(e, output.length)])

def zipBytes (entries : List ZipEntry) : Bytes :=
  let (output, written) := writeEntries entries [] []
  let central := (written.map fun w => centralHeader w.1 w.2).flatten
  output ++ central ++ (u32Le 0x06054b50 ++ u16Le 0 ++ u16Le 0 ++ u16Le written.length ++
    u16Le written.length ++ u32Le central.length ++ u32Le output.length ++ u16Le 0)

/-- the name of a source in the archive: its path below the workspace -/
def zipName (workspaceRoot source : Path) : String :=
  normalizePath (Text.join "/" (if workspaceRoot <+: source then source.drop workspaceRoot.length
    else source))

/-- `collect_zip_entries`, at most `fuel` levels deep -/
def collectZipEntries (t : Disk) (workspaceRoot : Path) : Nat → Path → List ZipEntry
  | 0, _ => []
  | fuel + 1, source =>
    match t.entry source with
    | some (.file bytes) => [⟨zipName workspaceRoot source, bytes, crc32 bytes⟩]
    | some .dir =>
      ((t.children source).filter (· ≠ runtimeDirName)).flatMap fun name =>
        collectZipEntries t workspaceRoot fuel (source ++ [name])
    | none => []

/-- drop every entry whose name is that of the entry before it -/
def dedupByName : List ZipEntry → List ZipEntry
  | [] => []
  | [e] => [e]
  | e :: e' :: rest =>
    if e.name = e'.name then dedupByName (e :: rest) else e :: dedupByName (e' :: rest)

def writeStoreZip (workspaceRoot : Path) (sources : List (String × Path)) (destination : Path) :
    DiskM Nat := do
  let t ← get
  let entries := sources.flatMap fun s => collectZipEntries t workspaceRoot (t.depth + 1) s.2
  let entries := dedupByName (entries.insertionSort fun a b => a.name ≤ b.name)
  write destination (zipBytes entries)
  pure entries.length

def resolveArchiveEntry (destination : Path) (name : String) : Except Fault Path :=
  if isAbsolute name ∨ ".." ∈ components name then
    .error (.invalidData "zip entry path leaves destination boundary")
  else .ok (destination ++ components name)

/-- one local header: the name, the content and the offset after it; none at the end -/
def readEntry (bytes : Bytes) (offset : Nat) : Except Fault (Option (Bytes × Bytes × Nat)) := do
  let signature ← readLe 4 bytes offset
  if signature = 0x02014b50 ∨ signature = 0x06054b50 then pure none
  else if signature ≠ 0x04034b50 then throw (.invalidData "unsupported zip local header")
  else do
    let method ← readLe 2 bytes (offset + 8)
    if method ≠ 0 then throw (.invalidData "only store-method zip entries are supported")
    else do
      let size ← readLe 4 bytes (offset + 18)
      let nameLen ← readLe 2 bytes (offset + 26)
      let extraLen ← readLe 2 bytes (offset + 28)
      let nameStart := offset + 30
      let dataStart := nameStart + nameLen + extraLen
      if dataStart + size > bytes.length then
        throw (.invalidData "zip entry exceeds archive bounds")
      else
        pure (some ((bytes.drop nameStart).take nameLen, (bytes.drop dataStart).take size,
          dataStart + size))

/-- the loop of `read_store_zip`; every round moves the offset, so `fuel` is the length -/
def readEntries (bytes : Bytes) (destination : Path) : Nat → Nat → Nat → DiskM Nat
  | 0, _, count => pure count
  | fuel + 1, offset, count =>
    if offset + 4 ≤ bytes.length then
      match readEntry bytes offset with
      | .error e => throw e
      | .ok none => pure count
      | .ok (some (name, data, next)) =>
        match String.fromUTF8? ⟨name.toArray⟩ with
        | none => throw (.invalidData "invalid utf-8 sequence")
        | some name =>
          match resolveArchiveEntry destination name with
          | .error e => throw e
          | .ok target => do
            createDirAll target.dropLast
            write target data
            readEntries bytes destination fuel next (count + 1)
    else pure count

def readStoreZip (archive destination : Path) : DiskM Nat := do
  let bytes ← read archive
  readEntries bytes destination (bytes.length + 1) 0 0

theorem writeStoreZip_ok {t t' : Disk} {workspaceRoot destination : Path}
    {sources : List (String × Path)} {n : Nat}
    (h : Ok (writeStoreZip workspaceRoot sources destination) t n t') :
    ∃ bytes, Ok (write destination bytes) t () t' := by
  obtain ⟨_, _, hg, h⟩ := bind_ok.mp h
  cases hg
  obtain ⟨_, t1, h1, h⟩ := bind_ok.mp h
  cases h
  exact ⟨_, h1⟩

end Os

import SuperNova.Package.Archive
import SuperNova.Package.Ledger

/-!
# Packages that are verified

`artifact.verify_typed` runs on what `package.build_zip` has written.

* `package_verified_iff` (**main**): both verifiers accept, and each checksum is that of what is stored under its
  name, exactly when a file was selected for each typed verifier and the first word of each path names a file with the
  same checksum.
-/

set_option linter.unusedSectionVars false

namespace Package

open Io FileTree Workspace Os Text

/-! ## the statement -/

/-- where a call puts its outputs: the archive is not written over, nor are the checksums, and the two are named for
their own verifier or for none -/
structure Outputs (rt : Runtime) (call : BuildZipCall) where
  destination : Path
  manifest : Path
  checksums : Path
  perfNotes : Path
  destination_eq : resolveWorkspacePath rt.workspaceRoot call.destinationZipPath = .ok destination
  manifest_eq : resolveWorkspacePath rt.workspaceRoot call.manifest = .ok manifest
  checksums_eq : resolveWorkspacePath rt.workspaceRoot call.checksums = .ok checksums
  perfNotes_eq : resolveWorkspacePath rt.workspaceRoot call.perfNotes = .ok perfNotes
  destination_apart : destination ∉ [manifest, checksums, perfNotes]
  checksums_apart : checksums ≠ perfNotes
  destination_named : expectedTypedVerifierForPath call.destinationZipPath ∈
    ["zip_verifier", "generic_artifact_verifier"]
  checksums_named : expectedTypedVerifierForPath call.checksums ∈ ["checksum_verifier", "generic_artifact_verifier"]

def Outputs.all {rt : Runtime} {call : BuildZipCall} (o : Outputs rt call) : List Path :=
  [o.destination, o.manifest, o.checksums, o.perfNotes]

/-- a readable file of a source set, with its path as the scan writes it: no output, and on one line, and not longer
than an entry can say -/
structure Scanned (rt : Runtime) (t : Disk) (outputs : List Path) (path : String) (source : Path)
    (content : Bytes) : Prop where
  resolved : resolveWorkspacePath rt.workspaceRoot path = .ok source
  name : zipName rt.workspaceRoot source = path
  file : t.fileAt source = some content
  spared : source ∉ outputs
  wordSpared : ∀ word rest p, splitWhitespace path = word :: rest →
    resolveWorkspacePath rt.workspaceRoot word = .ok p → p ∉ outputs
  oneLine : OneLine path
  nameFits : (utf8 path).length < 2 ^ 16
  sizeFits : content.length < 2 ^ 32

/-- the first word of the path of a selected file names a file with its checksum -/
def FirstWordsAgree (rt : Runtime) (t : Disk) (files : List Data.SourceSetFile) : Prop :=
  ∀ file ∈ files, ∀ source content, resolveWorkspacePath rt.workspaceRoot file.path = .ok source →
    t.fileAt source = some content → FirstWordAgrees t rt.workspaceRoot file.path content

/-- `artifact.verify_typed` succeeds on the path -/
def Verifies (host : Host) (rt : Runtime) (k : Kernel) (path : String) : Prop :=
  ∃ receipt k', Ok (verifyTypedArtifact host rt path) k receipt k' ∧ receipt.status = "success"

/-- each line of the checksum file, after its header, is the checksum of what the archive stores under its name -/
def LinesStored (t : Disk) (ledger archive : Path) : Prop :=
  ∃ text bytes, readToString t ledger = .ok text ∧ t.fileAt archive = some bytes ∧
    ∀ line ∈ lines text, line ∈ checksumsHeader ∨
      ∃ name content, line = checksumLine (digest content) name ∧ StoredFrom bytes name content 0

section
variable {host : Host} {rt verifier : Runtime} {call : BuildZipCall} {sourceSet : SourceSet} {k k' : Kernel}
  {receipt : Receipt} {t t' : Disk} {path content : String} {root p q : Path} {files : List Data.SourceSetFile}
  {sources : List (String × Path)} {ls : List String} {n : Nat} {u : Unit}

/-! ## what is built -/

/-- the sources with their contents -/
def contents (t : Disk) (sources : List (String × Path)) : List (String × Bytes) :=
  sources.map fun s => (s.1, (t.fileAt s.2).getD [])

theorem contents_cons {s : String × Path} {bytes : Bytes} (h : t.fileAt s.2 = some bytes) :
    contents t (s :: sources) = (s.1, bytes) :: contents t sources := by
  rw [contents, List.map_cons, h]
  rfl

theorem contents_congr (h : ∀ s ∈ sources, t.fileAt s.2 = t'.fileAt s.2) :
    contents t sources = contents t' sources := by
  refine List.map_congr_left fun s hs => ?_
  rw [h s hs]

theorem contents_ne_nil : contents t sources ≠ [] ↔ sources ≠ [] := not_congr List.map_eq_nil_iff

theorem writeArtifactText_ok (h : Ok (writeArtifactText rt path content) k u k')
    (hp : resolveWorkspacePath rt.workspaceRoot path = .ok p) :
    ∀ q, k'.disk.fileAt q = if q = p then some (utf8 content) else k.disk.fileAt q := by
  obtain ⟨p', k1, hresolve, h⟩ := bind_ok.mp h
  obtain ⟨hp', rfl⟩ := resolvePath_ok.mp hresolve
  cases hp.symm.trans hp'
  obtain ⟨_, k2, hdirs, hrest⟩ := bind_ok.mp h
  obtain ⟨t1, hmade, rfl⟩ := onDisk_ok.mp hdirs
  obtain ⟨t2, hwrite, rfl⟩ := onDisk_ok.mp hrest
  obtain ⟨hfree, rfl⟩ := createDirAll_ok.mp hmade
  obtain ⟨-, -, -, hentry⟩ := write_ok hwrite
  intro q
  show t2.fileAt q = _
  by_cases hq : q = p
  · rw [if_pos hq, Tree.fileAt_eq_some, hentry, if_pos hq]
  · rw [if_neg hq, Tree.fileAt_congr ((hentry q).trans (if_neg hq))]
    exact fileAt_mkdirs hfree q

theorem resolveSources_ok (h : Ok (resolveSources rt files) k sources k') :
    k' = k ∧ sources.map Prod.fst = files.map (·.path) ∧
      ∀ s ∈ sources, resolveWorkspacePath rt.workspaceRoot s.1 = .ok s.2 := by
  induction files generalizing sources k' with
  | nil =>
    cases h
    exact ⟨rfl, rfl, by simp⟩
  | cons file files ih =>
    obtain ⟨p, k1, hresolve, h1⟩ := bind_ok.mp h
    obtain ⟨hp, rfl⟩ := resolvePath_ok.mp hresolve
    obtain ⟨rest, k2, hrest, h2⟩ := bind_ok.mp h1
    obtain ⟨rfl, hpaths, hall⟩ := ih hrest
    cases h2
    refine ⟨rfl, ?_, List.forall_mem_cons.mpr ⟨hp, hall⟩⟩
    rw [List.map_cons, List.map_cons, hpaths]

theorem checksumLines_ok (h : Ok (checksumLines sources) t ls t') : t' = t ∧ ls = fileLines (contents t sources) := by
  induction sources generalizing ls t' with
  | nil =>
    cases h
    exact ⟨rfl, rfl⟩
  | cons s sources ih =>
    obtain ⟨hash, t1, hhash, h1⟩ := bind_ok.mp h
    obtain ⟨bytes, t2, hread, hdigest⟩ := bind_ok.mp hhash
    obtain ⟨hfile, rfl⟩ := read_ok.mp hread
    cases hdigest
    obtain ⟨rest, t3, hrest, h2⟩ := bind_ok.mp h1
    obtain ⟨rfl, rfl⟩ := ih hrest
    cases h2
    refine ⟨rfl, ?_⟩
    rw [contents_cons (Tree.fileAt_eq_some.mpr hfile), fileLines_cons]
    rfl

theorem writePackage_ok (o : Outputs rt call)
    (h : Ok (writePackage host rt call sourceSet o.destination sources) k n k')
    (hspared : ∀ s ∈ sources, s.2 ∉ o.all) :
    k'.disk.fileAt o.destination = some (zipBytes (packed k.disk rt.workspaceRoot sources)) ∧
      k'.disk.fileAt o.checksums =
        some (utf8 (unlines (checksumsHeader ++ fileLines (contents k.disk sources)))) ∧
      ∀ q, q ∉ o.all → k'.disk.fileAt q = k.disk.fileAt q := by
  obtain ⟨_, k1, hzip, h1⟩ := bind_ok.mp h
  obtain ⟨t1, hzip', rfl⟩ := onDisk_ok.mp hzip
  obtain ⟨-, -, -, hentry⟩ := write_ok (writeStoreZip_packed hzip')
  obtain ⟨text, k2, hchecksums, h2⟩ := bind_ok.mp h1
  obtain ⟨t2, hchecksums', rfl⟩ := onDisk_ok.mp hchecksums
  obtain ⟨ls, t3, hlines, htext⟩ := bind_ok.mp hchecksums'
  obtain ⟨ht3, rfl⟩ := checksumLines_ok hlines
  cases htext
  obtain rfl := ht3.symm
  obtain ⟨_, k3, hmanifest, h3⟩ := bind_ok.mp h2
  obtain ⟨_, k4, hledger, h4⟩ := bind_ok.mp h3
  obtain ⟨_, k5, hnotes, h5⟩ := bind_ok.mp h4
  cases h5
  have hzipped : ∀ q, t1.fileAt q = if q = o.destination then
      some (zipBytes (packed k.disk rt.workspaceRoot sources)) else k.disk.fileAt q := by
    intro q
    by_cases hq : q = o.destination
    · rw [if_pos hq, Tree.fileAt_eq_some, hentry, if_pos hq]
    · rw [if_neg hq]
      exact Tree.fileAt_congr ((hentry q).trans (if_neg hq))
  have hfirst := writeArtifactText_ok hmanifest o.manifest_eq
  have hsecond := writeArtifactText_ok hledger o.checksums_eq
  have hthird := writeArtifactText_ok hnotes o.perfNotes_eq
  have hcontents : contents t1 sources = contents k.disk sources := by
    refine contents_congr fun s hs => ?_
    rw [hzipped, if_neg]
    exact fun heq => hspared s hs (heq ▸ List.mem_cons_self)
  rw [hcontents] at hsecond
  have hapart := o.destination_apart
  simp only [List.mem_cons, List.not_mem_nil, or_false, not_or] at hapart
  refine ⟨?_, ?_, fun q hq => ?_⟩
  · rw [hthird, if_neg hapart.2.2, hsecond, if_neg hapart.2.1, hfirst, if_neg hapart.1]
    exact (hzipped _).trans (if_pos rfl)
  · rw [hthird, if_neg o.checksums_apart, hsecond, if_pos rfl]
  · simp only [Outputs.all, List.mem_cons, List.not_mem_nil, or_false, not_or] at hq
    rw [hthird, if_neg hq.2.2.2, hsecond, if_neg hq.2.2.1, hfirst, if_neg hq.2.1]
    exact (hzipped q).trans (if_neg hq.1)

theorem buildZip_ok (o : Outputs rt call) (h : Ok (buildZip host rt call) k receipt k')
    (hstatus : receipt.status = "success") (hset : Ok (Data.readParsed rt SourceSet.ofJson call.sourceSetRef) k sourceSet k) :
    ∃ k1 k2 sources n, Ok (writePackage host rt call sourceSet o.destination sources) k1 n k2 ∧
      (∀ q, k1.disk.fileAt q = k.disk.fileAt q) ∧ k'.disk = k2.disk ∧
      sources.map Prod.fst = (call.selected sourceSet).map (·.path) ∧
      ∀ s ∈ sources, resolveWorkspacePath rt.workspaceRoot s.1 = .ok s.2 := by
  rw [buildZip] at h
  split at h
  · obtain ⟨_, _, -, hreceipt⟩ := bind_ok.mp h
    cases hreceipt
    exact absurd hstatus (show ("blocked" : String) ≠ "success" by decide)
  · obtain ⟨sourceSet', k1, hset', h1⟩ := bind_ok.mp h
    obtain ⟨-, hk1⟩ := Data.readParsed_ok.mp hset'
    subst hk1
    cases hset.symm.trans hset'
    obtain ⟨destination, k2, hdestination, h2⟩ := bind_ok.mp h1
    obtain ⟨heq, hk2⟩ := resolvePath_ok.mp hdestination
    subst hk2
    cases o.destination_eq.symm.trans heq
    obtain ⟨_, k3, hdirs, h3⟩ := bind_ok.mp h2
    obtain ⟨t3, hmade, rfl⟩ := onDisk_ok.mp hdirs
    obtain ⟨hfree, rfl⟩ := createDirAll_ok.mp hmade
    obtain ⟨sources, k4, hsources, h4⟩ := bind_ok.mp h3
    obtain ⟨hk4, hpaths, hresolved⟩ := resolveSources_ok hsources
    subst hk4
    obtain ⟨n, k5, hwritten, h5⟩ := bind_ok.mp h4
    obtain ⟨fingerprint, k6, hprint, h6⟩ := bind_ok.mp h5
    obtain ⟨t6, hprint', rfl⟩ := onDisk_ok.mp hprint
    obtain ⟨_, t7, hreadBack, hfingerprint⟩ := bind_ok.mp hprint'
    obtain ⟨-, ht7⟩ := read_ok.mp hreadBack
    cases hfingerprint
    subst ht7
    obtain ⟨_, k7, hemitted, h7⟩ := bind_ok.mp h6
    cases h7
    cases hemitted
    exact ⟨_, k5, sources, n, hwritten, fun q => fileAt_mkdirs hfree q, rfl, hpaths, hresolved⟩

/-! ## what is verified -/

theorem artifactReceipt_total (rt : Runtime) (capabilityId status : String) (data : Json) (k : Kernel) :
    ∃ k', Ok (artifactReceipt rt capabilityId status data) k ⟨capabilityId, rt.jobId, rt.pid, status, data⟩ k' := by
  obtain ⟨k1, h1⟩ := emitReceipt_total rt "capability_receipt" ⟨capabilityId, rt.jobId, rt.pid, status, data⟩ k
  obtain ⟨k2, h2⟩ := emitReceipt_total rt "artifact_review_receipt" ⟨capabilityId, rt.jobId, rt.pid, status, data⟩ k1
  exact ⟨k2, bind_ok.mpr ⟨_, k1, h1, bind_ok.mpr ⟨_, k2, h2, rfl⟩⟩⟩

theorem verifies_iff (hgranted : "artifact.verify_typed" ∈ verifier.capabilities)
    (hp : resolveWorkspacePath verifier.workspaceRoot path = .ok p) :
    Verifies host verifier k path ↔ (findings host k.disk verifier.workspaceRoot p
      (expectedTypedVerifierForPath path)).blockingIssues = [] := by
  have hrun : ∃ data k', Ok (verifyTypedArtifact host verifier path) k
      ⟨"artifact.verify_typed", verifier.jobId, verifier.pid,
        if (findings host k.disk verifier.workspaceRoot p
          (expectedTypedVerifierForPath path)).blockingIssues.isEmpty then "success" else "failed", data⟩ k' := by
    rw [verifyTypedArtifact, if_neg (not_not.mpr hgranted)]
    obtain ⟨k', hreceipt⟩ := artifactReceipt_total verifier "artifact.verify_typed" _ _ k
    exact ⟨_, k', bind_ok.mpr ⟨p, k, resolvePath_ok.mpr ⟨hp, rfl⟩, bind_ok.mpr ⟨k, k, rfl, hreceipt⟩⟩⟩
  obtain ⟨data, k1, hrun⟩ := hrun
  constructor
  · rintro ⟨receipt, k2, hok, hstatus⟩
    cases hrun.symm.trans hok
    by_contra hne
    have hempty : (findings host k.disk verifier.workspaceRoot p
        (expectedTypedVerifierForPath path)).blockingIssues.isEmpty = false := by
      cases hissues : (findings host k.disk verifier.workspaceRoot p
        (expectedTypedVerifierForPath path)).blockingIssues with
      | nil => exact absurd hissues hne
      | cons issue rest => rfl
    rw [hempty] at hstatus
    exact absurd hstatus (show ("failed" : String) ≠ "success" by decide)
  · intro hnil
    refine ⟨_, k1, hrun, ?_⟩
    show (if List.isEmpty _ = true then _ else _) = "success"
    rw [hnil]
    rfl

theorem zip_findings_iff (hfile : t.isFile p = true) :
    (findings host t root p "zip_verifier").blockingIssues = [] ↔ ∃ n, verifyStoreZipFile t p = .ok n ∧ n ≠ 0 := by
  rw [findings, if_neg (not_not.mpr hfile), if_pos rfl]
  cases hverify : verifyStoreZipFile t p with
  | error e => simp [zipFindings]
  | ok n => by_cases hn : n = 0 <;> simp [zipFindings, hn]

theorem checksum_findings_iff (hfile : t.isFile p = true) :
    (findings host t root p "checksum_verifier").blockingIssues = [] ↔
      ∃ v, verifySha256sumLedger t root p = .ok v := by
  rw [findings, if_neg (not_not.mpr hfile), if_neg (by decide), if_pos rfl]
  cases hverify : verifySha256sumLedger t root p with
  | error e => simp [findingsOf]
  | ok v => simp [findingsOf]

theorem generic_findings (hfile : t.isFile p = true) :
    (findings host t root p "generic_artifact_verifier").blockingIssues = [] := by
  rw [findings, if_neg (not_not.mpr hfile), if_neg (by decide), if_neg (by decide), if_neg (by decide),
    if_neg (by decide)]

/-! ## sources that were scanned -/

section
variable {outputs : List Path} (hscanned : ∀ s ∈ sources, ∃ content, Scanned rt t outputs s.1 s.2 content)
include hscanned

theorem packed_fits : ∀ e ∈ packed t rt.workspaceRoot sources, Fits e := by
  intro e he
  have hfiles : ∀ s ∈ sources, ∃ content, t.fileAt s.2 = some content := fun s hs =>
    (hscanned s hs).imp fun _ h => h.file
  obtain ⟨s, hs, content, hcontent, rfl⟩ := of_mem_packed hfiles he
  obtain ⟨content', hs'⟩ := hscanned s hs
  cases hcontent.symm.trans hs'.file
  refine ⟨?_, hs'.sizeFits⟩
  show (utf8 (zipName rt.workspaceRoot s.2)).length < 2 ^ 16
  rw [hs'.name]
  exact hs'.nameFits

theorem mem_packed {s : String × Path} {bytes : Bytes} (hs : s ∈ sources) (hbytes : t.fileAt s.2 = some bytes) :
    ∃ e ∈ packed t rt.workspaceRoot sources, e.name = s.1 ∧ e.bytes = bytes := by
  have hfiles : ∀ s ∈ sources, ∃ content, t.fileAt s.2 = some content := fun s hs =>
    (hscanned s hs).imp fun _ h => h.file
  obtain ⟨content, hsource⟩ := hscanned s hs
  obtain ⟨e, he, hname⟩ : ∃ e ∈ packed t rt.workspaceRoot sources, e.name = zipName rt.workspaceRoot s.2 :=
    exists_packed hs hbytes
  obtain ⟨s', hs', content', hcontent', rfl⟩ := of_mem_packed hfiles he
  obtain ⟨_, hsource'⟩ := hscanned s' hs'
  have hpath : s'.1 = s.1 := by
    rw [← hsource'.name, ← hsource.name]
    exact hname
  have hplace : s'.2 = s.2 := by
    have hresolved := hsource'.resolved
    rw [hpath, hsource.resolved] at hresolved
    exact (Except.ok.inj hresolved).symm
  refine ⟨_, he, hname.trans hsource.name, ?_⟩
  show content' = bytes
  rw [hplace, hbytes] at hcontent'
  exact (Option.some.inj hcontent').symm

theorem packed_ne_nil : packed t rt.workspaceRoot sources ≠ [] ↔ sources ≠ [] := by
  constructor
  · rintro hne rfl
    refine hne ?_
    show dedupByName [] = []
    rw [dedupByName]
  · intro hne hnil
    obtain ⟨s, hs⟩ := List.exists_mem_of_ne_nil sources hne
    obtain ⟨content, hsource⟩ := hscanned s hs
    obtain ⟨e, he, -⟩ := mem_packed hscanned hs hsource.file
    rw [hnil] at he
    cases he

theorem mem_contents {f : String × Bytes} : f ∈ contents t sources ↔
    ∃ s ∈ sources, s.1 = f.1 ∧ t.fileAt s.2 = some f.2 := by
  rw [contents, List.mem_map]
  constructor
  · rintro ⟨s, hs, rfl⟩
    obtain ⟨content, hsource⟩ := hscanned s hs
    exact ⟨s, hs, rfl, by rw [hsource.file]; rfl⟩
  · rintro ⟨s, hs, hpath, hfile⟩
    refine ⟨s, hs, ?_⟩
    rw [hfile, hpath]
    rfl

theorem contents_oneLine : ∀ f ∈ contents t sources, OneLine f.1 := by
  intro f hf
  obtain ⟨s, hs, hpath, -⟩ := (mem_contents hscanned).mp hf
  obtain ⟨content, hsource⟩ := hscanned s hs
  exact hpath ▸ hsource.oneLine

theorem linesStored_of_scanned {ledger archive : Path}
    (hledger : t'.fileAt ledger = some (utf8 (unlines (checksumsHeader ++ fileLines (contents t sources)))))
    (harchive : t'.fileAt archive = some (zipBytes (packed t rt.workspaceRoot sources))) :
    LinesStored t' ledger archive := by
  have hone := oneLine_lines (contents_oneLine hscanned)
  refine ⟨_, _, readToString_utf8 hledger, harchive, fun line hline => ?_⟩
  rw [lines_unlines hone] at hline
  rcases List.mem_append.mp hline with hheader | hentry
  · exact Or.inl hheader
  · obtain ⟨f, hf, rfl⟩ := List.mem_map.mp hentry
    obtain ⟨s, hs, hpath, hfile⟩ := (mem_contents hscanned).mp hf
    obtain ⟨e, he, hname, hbytes⟩ := mem_packed hscanned hs hfile
    obtain ⟨tail, hzip, -⟩ := zipBytes_eq (packed t rt.workspaceRoot sources)
    have hstored := @stored_of_mem [] tail _ _ (packed_fits hscanned) he
    rw [List.nil_append, ← hzip, hname, hbytes, hpath] at hstored
    exact Or.inr ⟨f.1, f.2, rfl, hstored⟩

theorem firstWordAgrees_congr (h : ∀ q, q ∉ outputs → t'.fileAt q = t.fileAt q) {s : String × Path} (hs : s ∈ sources)
    {bytes : Bytes} : FirstWordAgrees t' rt.workspaceRoot s.1 bytes ↔ FirstWordAgrees t rt.workspaceRoot s.1 bytes := by
  obtain ⟨content, hsource⟩ := hscanned s hs
  constructor
  · rintro ⟨word, rest, p, other, hwords, hp, hfile, hsame⟩
    rw [h p (hsource.wordSpared word rest p hwords hp)] at hfile
    exact ⟨word, rest, p, other, hwords, hp, hfile, hsame⟩
  · rintro ⟨word, rest, p, other, hwords, hp, hfile, hsame⟩
    rw [← h p (hsource.wordSpared word rest p hwords hp)] at hfile
    exact ⟨word, rest, p, other, hwords, hp, hfile, hsame⟩

theorem firstWordsAgree_iff (h : ∀ q, q ∉ outputs → t'.fileAt q = t.fileAt q)
    (hpaths : sources.map Prod.fst = files.map (·.path))
    (hresolved : ∀ s ∈ sources, resolveWorkspacePath rt.workspaceRoot s.1 = .ok s.2) :
    (∀ f ∈ contents t sources, FirstWordAgrees t' rt.workspaceRoot f.1 f.2) ↔ FirstWordsAgree rt t files := by
  constructor
  · intro hall file hfile source content hsource hcontent
    have hmem : file.path ∈ sources.map Prod.fst := hpaths ▸ List.mem_map_of_mem hfile
    obtain ⟨s, hs, hpath⟩ := List.mem_map.mp hmem
    have hplace := hresolved s hs
    rw [hpath, hsource] at hplace
    cases hplace
    have hagrees := hall (s.1, content) ((mem_contents hscanned).mpr ⟨s, hs, rfl, hcontent⟩)
    rw [← hpath]
    exact (firstWordAgrees_congr hscanned h hs).mp hagrees
  · intro hall f hf
    obtain ⟨s, hs, hpath, hcontent⟩ := (mem_contents hscanned).mp hf
    have hmem : s.1 ∈ files.map (·.path) := hpaths ▸ List.mem_map_of_mem hs
    obtain ⟨file, hfile, hsame⟩ := List.mem_map.mp hmem
    have hagrees := hall file hfile s.2 f.2 (hsame ▸ hresolved s hs) hcontent
    rw [hsame] at hagrees
    rw [← hpath]
    exact (firstWordAgrees_congr hscanned h hs).mpr hagrees

theorem scanned_congr (h : ∀ q, t'.fileAt q = t.fileAt q) :
    ∀ s ∈ sources, ∃ content, Scanned rt t' outputs s.1 s.2 content := by
  intro s hs
  obtain ⟨content, hsource⟩ := hscanned s hs
  exact ⟨content, { hsource with file := (h s.2).trans hsource.file }⟩

end

/-- **both verifiers accept the package, and each checksum is that of what is stored under its name, exactly when a
file was selected for each typed verifier and the first word of each path names a file with the same checksum** -/
theorem package_verified_iff (o : Outputs rt call) (hbuild : Ok (buildZip host rt call) k receipt k')
    (hstatus : receipt.status = "success")
    (hset : Ok (Data.readParsed rt SourceSet.ofJson call.sourceSetRef) k sourceSet k)
    (hfiles : ∀ file ∈ call.selected sourceSet, ∃ source content, Scanned rt k.disk o.all file.path source content)
    (hroot : verifier.workspaceRoot = rt.workspaceRoot) (hgranted : "artifact.verify_typed" ∈ verifier.capabilities) :
    (Verifies host verifier k' call.destinationZipPath ∧ Verifies host verifier k' call.checksums ∧
      LinesStored k'.disk o.checksums o.destination) ↔
    (expectedTypedVerifierForPath call.destinationZipPath = "zip_verifier" → call.selected sourceSet ≠ []) ∧
      (expectedTypedVerifierForPath call.checksums = "checksum_verifier" →
        call.selected sourceSet ≠ [] ∧ FirstWordsAgree rt k.disk (call.selected sourceSet)) := by
  obtain ⟨k1, k2, sources, n, hwritten, hbefore, hafter, hpaths, hresolved⟩ := buildZip_ok o hbuild hstatus hset
  have hscanned : ∀ s ∈ sources, ∃ content, Scanned rt k.disk o.all s.1 s.2 content := by
    intro s hs
    have hmem : s.1 ∈ (call.selected sourceSet).map (·.path) := hpaths ▸ List.mem_map_of_mem hs
    obtain ⟨file, hfile, hpath⟩ := List.mem_map.mp hmem
    obtain ⟨source, content, hsource⟩ := hfiles file hfile
    rw [hpath] at hsource
    cases (hresolved s hs).symm.trans hsource.resolved
    exact ⟨content, hsource⟩
  have hscanned1 := scanned_congr hscanned hbefore
  have hspared : ∀ s ∈ sources, s.2 ∉ o.all := fun s hs => (hscanned s hs).elim fun _ h => h.spared
  obtain ⟨harchive, hledger, hothers⟩ := writePackage_ok o hwritten hspared
  rw [← hafter] at harchive hledger hothers
  have hselected : sources ≠ [] ↔ call.selected sourceSet ≠ [] := by
    have hlength := congrArg List.length hpaths
    rw [List.length_map, List.length_map] at hlength
    rw [← List.length_pos_iff, ← List.length_pos_iff, hlength]
  have hcontents : contents k1.disk sources = contents k.disk sources := contents_congr fun s _ => hbefore s.2
  have hwords : (∀ f ∈ contents k.disk sources, FirstWordAgrees k'.disk rt.workspaceRoot f.1 f.2) ↔
      FirstWordsAgree rt k.disk (call.selected sourceSet) :=
    firstWordsAgree_iff hscanned (fun q hq => (hothers q hq).trans (hbefore q)) hpaths hresolved
  have hlines : LinesStored k'.disk o.checksums o.destination := linesStored_of_scanned hscanned1 hledger harchive
  have hzip : Verifies host verifier k' call.destinationZipPath ↔
      (expectedTypedVerifierForPath call.destinationZipPath = "zip_verifier" → call.selected sourceSet ≠ []) := by
    have hp : resolveWorkspacePath verifier.workspaceRoot call.destinationZipPath = .ok o.destination :=
      hroot.symm ▸ o.destination_eq
    have hisFile : k'.disk.isFile o.destination = true := Tree.isFile_iff.mpr ⟨_, Tree.fileAt_eq_some.mp harchive⟩
    rw [verifies_iff hgranted hp]
    rcases List.mem_cons.mp o.destination_named with hnamed | hnamed
    · rw [hnamed, zip_findings_iff hisFile, verifyStoreZip_iff harchive (packed_fits hscanned1),
        packed_ne_nil hscanned1, hselected]
      exact (imp_iff_right rfl).symm
    · rw [List.mem_singleton.mp hnamed]
      exact iff_of_true (generic_findings hisFile) (fun h => absurd h (by decide))
  have hchecksums : Verifies host verifier k' call.checksums ↔
      (expectedTypedVerifierForPath call.checksums = "checksum_verifier" →
        call.selected sourceSet ≠ [] ∧ FirstWordsAgree rt k.disk (call.selected sourceSet)) := by
    have hp : resolveWorkspacePath verifier.workspaceRoot call.checksums =
        .ok o.checksums := hroot.symm ▸ o.checksums_eq
    have hisFile : k'.disk.isFile o.checksums = true := Tree.isFile_iff.mpr ⟨_, Tree.fileAt_eq_some.mp hledger⟩
    rw [verifies_iff hgranted hp]
    rcases List.mem_cons.mp o.checksums_named with hnamed | hnamed
    · rw [hnamed, checksum_findings_iff hisFile, ledger_verified_iff hledger (contents_oneLine hscanned1), hroot,
        hcontents, hwords, contents_ne_nil, hselected]
      exact (imp_iff_right rfl).symm
    · rw [List.mem_singleton.mp hnamed]
      exact iff_of_true (generic_findings hisFile) (fun h => absurd h (by decide))
  rw [hzip, hchecksums]
  exact and_congr_right fun _ => and_iff_left hlines

end

/-! ## a package of one file -/

/-- pretty printing and errors as they are for the package below, which took no time -/
def sampleHost : Host where
  pretty := fun _ => "\x7b\n  \"capability\": \"package.build_zip\",\n  \"checksum_algorithm\": \"sha256\",\n  \"destination_zip_path\": \"out/package.zip\",\n  \"elapsed_ms\": 0,\n  \"entry_count\": 1,\n  \"excluded_count\": 0,\n  \"included_count\": 1,\n  \"source_set_ref\": \"blob://job/source_sets/s.json\"\n\x7d"
  parse := fun _ => .error "expected value at line 1 column 1"
  describe := fun e => match e with
    | .invalidData message => message
    | .permissionDenied message => message
    | _ => "entity not found"
  elapsedMs := 0

def packageRuntime : Runtime :=
  { sampleRuntime with capabilities := ["package.build_zip", "artifact.verify_typed"] }

def packageCall : BuildZipCall := ⟨"blob://job/source_sets/s.json", "out/package.zip", none, none, none, []⟩

/-- a source set of one file of five bytes -/
def oneFile (path : String) : SourceSet :=
  ⟨"s", ".", [], [], [], 1, 5, [⟨path, ".txt", 5, 0⟩], 0, ⟨1, 0, 0, 0, 0⟩⟩

def oneFileJson (path : String) : Json :=
  .obj [("source_set_id", .str "s"), ("root_path", .str "."), ("include_extensions", .arr []),
    ("include_globs", .arr []), ("exclude_globs", .arr []), ("file_count", .num 1), ("total_bytes", .num 5),
    ("files", .arr [.obj [("path", .str path), ("extension", .str ".txt"), ("size_bytes", .num 5),
      ("modified_ms", .num 0)]]),
    ("excluded_count", .num 0), ("scan_diagnostics", .obj [("scanned_file_count", .num 1),
      ("excluded_by_explicit_exclude", .num 0), ("excluded_by_extension", .num 0),
      ("excluded_by_include_glob", .num 0), ("skipped_by_depth", .num 0)])]

/-- the file and its source set -/
def packageKernel (path : String) : Kernel :=
  { kernelOf [(["ws", path], utf8 "hello")] with
    blobs := fun name => if name = "source_sets/s.json" then some (oneFileJson path) else none }

def packageOutputs : Outputs packageRuntime packageCall where
  destination := ["ws", "out", "package.zip"]
  manifest := ["ws", "PACK_MANIFEST.md"]
  checksums := ["ws", "SHA256SUMS.txt"]
  perfNotes := ["ws", "PERF_NOTES.json"]
  destination_eq := by decide +kernel
  manifest_eq := by decide +kernel
  checksums_eq := by decide +kernel
  perfNotes_eq := by decide +kernel
  destination_apart := by decide
  checksums_apart := by decide
  destination_named := by decide +kernel
  checksums_named := by decide +kernel

theorem packageKernel_set (path : String) :
    Ok (Data.readParsed packageRuntime SourceSet.ofJson packageCall.sourceSetRef) (packageKernel path) (oneFile path)
      (packageKernel path) := by
  refine Data.readParsed_ok.mpr ⟨⟨oneFileJson path, ?_, rfl⟩, rfl⟩
  have hname : Data.resolveBlobRef packageRuntime packageCall.sourceSetRef = .ok "source_sets/s.json" := by
    decide +kernel
  rw [Data.readBlob, hname]
  rfl

theorem package_verified_notes : ∃ receipt k', Ok (buildZip sampleHost packageRuntime packageCall)
      (packageKernel "notes.txt") receipt k' ∧
    Verifies sampleHost packageRuntime k' "out/package.zip" ∧ Verifies sampleHost packageRuntime k' "SHA256SUMS.txt" ∧
    LinesStored k'.disk ["ws", "SHA256SUMS.txt"] ["ws", "out", "package.zip"] := by
  have hbuilt : okWith (fun receipt _ => receipt.status == "success")
      (buildZip sampleHost packageRuntime packageCall) (packageKernel "notes.txt") = true := by decide +kernel
  have hselected : packageCall.selected (oneFile "notes.txt") = [⟨"notes.txt", ".txt", 5, 0⟩] := rfl
  have hresolved : resolveWorkspacePath packageRuntime.workspaceRoot "notes.txt" = .ok ["ws", "notes.txt"] := by
    decide +kernel
  have hfile : (packageKernel "notes.txt").disk.fileAt ["ws", "notes.txt"] = some (utf8 "hello") := by decide +kernel
  have hwords : splitWhitespace "notes.txt" = ["notes.txt"] := by decide +kernel
  have hscanned : Scanned packageRuntime (packageKernel "notes.txt").disk packageOutputs.all "notes.txt"
      ["ws", "notes.txt"] (utf8 "hello") := by
    refine ⟨hresolved, by decide +kernel, hfile, by decide, ?_, by decide, by decide +kernel, by decide +kernel⟩
    intro word rest p hword hp
    rw [hwords] at hword
    obtain ⟨rfl, -⟩ := List.cons.inj hword
    cases hp.symm.trans hresolved
    decide
  obtain ⟨receipt, k', hrun, hsuccess⟩ := okWith_iff.mp hbuilt
  refine ⟨receipt, k', hrun, (package_verified_iff packageOutputs hrun (eq_of_beq hsuccess)
    (packageKernel_set "notes.txt") ?_ rfl (by decide)).mpr ⟨fun _ => ?_, fun _ => ⟨?_, ?_⟩⟩⟩
  · rw [hselected]
    exact List.forall_mem_singleton.mpr ⟨_, _, hscanned⟩
  · rw [hselected]
    exact List.cons_ne_nil _ _
  · rw [hselected]
    exact List.cons_ne_nil _ _
  · rw [hselected]
    refine List.forall_mem_singleton.mpr fun source content hsource hcontent => ?_
    cases hsource.symm.trans hresolved
    exact ⟨"notes.txt", [], _, content, hwords, hresolved, hcontent, rfl⟩

/-- a space in the name of a file and the checksum verifier fails on what was built -/
theorem space_in_name : ∃ receipt k', Ok (buildZip sampleHost packageRuntime packageCall)
      (packageKernel "my notes.txt") receipt k' ∧ receipt.status = "success" ∧
    (packageKernel "my notes.txt").disk.fileAt ["ws", "my notes.txt"] = some (utf8 "hello") ∧
    ["ws", "my notes.txt"] ∉ packageOutputs.all ∧ ¬ Verifies sampleHost packageRuntime k' "SHA256SUMS.txt" := by
  have hbuilt : okWith (fun receipt k' => receipt.status == "success" &&
        !(findings sampleHost k'.disk ["ws"] ["ws", "SHA256SUMS.txt"] "checksum_verifier").blockingIssues.isEmpty)
      (buildZip sampleHost packageRuntime packageCall) (packageKernel "my notes.txt") = true := by decide +kernel
  obtain ⟨receipt, k', hrun, hchecked⟩ := okWith_iff.mp hbuilt
  rw [Bool.and_eq_true] at hchecked
  refine ⟨receipt, k', hrun, eq_of_beq hchecked.1, by decide +kernel, by decide, fun hverifies => ?_⟩
  have hnamed : expectedTypedVerifierForPath "SHA256SUMS.txt" = "checksum_verifier" := by decide +kernel
  have hissues := (verifies_iff (by decide) packageOutputs.checksums_eq).mp hverifies
  have hempty : (findings sampleHost k'.disk ["ws"] ["ws", "SHA256SUMS.txt"] "checksum_verifier").blockingIssues =
      [] :=
    hnamed ▸ hissues
  rw [hempty] at hchecked
  exact absurd hchecked.2 (by decide)

end Package

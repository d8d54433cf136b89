import SuperNova.Os.ZipNames
import SuperNova.Package.Verify

/-!
# Checksum files that are verified

What `verify_sha256sum_ledger` makes of a checksum file that `package_checksums_text` rendered.  A line of the file
names a whole path, and the verifier reads its first word.

* `ledger_verified_iff`: it accepts exactly the files with an entry whose paths each begin with a word that names a
  file with the same checksum.
-/

set_option linter.unusedSectionVars false

namespace Package

open Io FileTree Workspace Os Text

/-- the text of the SHA-256 of a content -/
def digest (content : Bytes) : String := hexLower (sha256Bytes content)

/-- the first word of the path names a file with the checksum of the content -/
def FirstWordAgrees (t : Disk) (root : Path) (path : String) (content : Bytes) : Prop :=
  ∃ word rest p other, splitWhitespace path = word :: rest ∧ resolveWorkspacePath root word = .ok p ∧
    t.fileAt p = some other ∧ digest other = digest content

/-- the lines of files, each a path and a content -/
def fileLines (files : List (String × Bytes)) : List String := files.map fun f => checksumLine (digest f.2) f.1

section
variable {t : Disk} {root ledger : Path} {path line : String} {content : Bytes} {rest : List String}
  {files : List (String × Bytes)} {f : String × Bytes} {checked mismatches : Nat} {r : Nat × Nat}

theorem fileLines_cons : fileLines (f :: files) = checksumLine (digest f.2) f.1 :: fileLines files := rfl

/-! ## the text of a checksum -/

theorem length_digest : (digest content).toList.length = 64 := by
  rw [digest, length_hexLower, length_sha256Bytes]

theorem digest_ne_empty : digest content ≠ "" := by
  intro h
  have hlength := @length_digest content
  rw [h] at hlength
  cases hlength

theorem forall_digest {P : Char → Prop} [DecidablePred P] (h : hexDigits.all (fun c => P c) = true) :
    ∀ c ∈ (digest content).toList, P c :=
  fun c hc => of_decide_eq_true (List.all_eq_true.mp h c (mem_hexDigits hc))

theorem isWhitespace_digest : ∀ c ∈ (digest content).toList, isWhitespace c = false := forall_digest (by decide)

theorem isHexDigit_digest : (digest content).toList.all isHexDigit = true :=
  List.all_eq_true.mpr (forall_digest (by decide))

theorem toAsciiLowercase_digest : toAsciiLowercase (digest content) = digest content :=
  mapChars_of_fixed (forall_digest (by decide))

theorem utf8ByteSize_digest : (digest content).utf8ByteSize = 64 := by
  have hone : ∀ c ∈ (digest content).toList, c.utf8Size = 1 := forall_digest (by decide)
  have hbytes : ∀ l : List Char, (∀ c ∈ l, c.utf8Size = 1) → (l.flatMap String.utf8EncodeChar).length = l.length := by
    intro l hl
    induction l with
    | nil => rfl
    | cons c l ih =>
      rw [List.flatMap_cons, List.length_append, String.length_utf8EncodeChar, hl c List.mem_cons_self,
        ih fun d hd => hl d (List.mem_cons_of_mem c hd), List.length_cons, Nat.add_comm]
  show (utf8 (digest content)).length = 64
  rw [utf8_eq, hbytes _ hone, length_digest]

theorem oneLine_digest : OneLine (digest content) := by
  refine ⟨fun h => ?_, fun h => ?_⟩
  · exact absurd (mem_hexDigits h) (by decide)
  · exact absurd (mem_hexDigits h) (by decide)

theorem oneLine_checksumLine (h : OneLine path) : OneLine (checksumLine (digest content) path) :=
  (oneLine_digest.append (by decide)).append h

/-! ## a line -/

theorem splitWhitespace_checksumLine :
    splitWhitespace (trim (checksumLine (digest content) path)) = digest content :: splitWhitespace path := by
  rw [splitWhitespace_trim, checksumLine, splitWhitespace_append isWhitespace_digest digest_ne_empty]

theorem trim_checksumLine_kept :
    ¬ (trim (checksumLine (digest content) path) = "" ∨
      (trim (checksumLine (digest content) path)).toList.head? = some '#') := by
  obtain ⟨c, l, hchars⟩ : ∃ c l, (digest content).toList = c :: l := by
    cases hchars : (digest content).toList with
    | nil => exact absurd (String.toList_inj.mp hchars) digest_ne_empty
    | cons c l => exact ⟨c, l, rfl⟩
  have hfirst : c ∈ (hexLower (sha256Bytes content)).toList := hchars ▸ List.mem_cons_self
  have hmem : c ∈ hexDigits := mem_hexDigits hfirst
  have hhead : (checksumLine (digest content) path).toList.head? = some c := by
    rw [checksumLine, String.toList_append, String.toList_append, hchars]
    rfl
  have htrim := head?_trim hhead (isWhitespace_digest c (hchars ▸ List.mem_cons_self))
  rintro (hempty | hcomment)
  · rw [hempty] at htrim
    cases htrim
  · rw [htrim, Option.some.injEq] at hcomment
    rw [hcomment] at hmem
    exact absurd hmem (by decide)

theorem verifyLine_agrees (h : FirstWordAgrees t root path content) :
    verifyLedgerLines t root (checksumLine (digest content) path :: rest) checked mismatches =
      verifyLedgerLines t root rest (checked + 1) mismatches := by
  obtain ⟨word, words, p, other, hwords, hp, hfile, hsame⟩ := h
  have hequal : eqIgnoreAsciiCase (hexLower (sha256Bytes other)) (digest content) = true := by
    show (toAsciiLowercase (digest other) == _) = true
    rw [hsame]
    exact beq_self_eq_true _
  have hdigest : ¬ ((digest content).utf8ByteSize ≠ 64 ∨ ¬ (digest content).toList.all isHexDigit = true) := by
    rw [not_or, not_not, not_not]
    exact ⟨utf8ByteSize_digest, isHexDigit_digest⟩
  rw [verifyLedgerLines]
  simp only [if_neg trim_checksumLine_kept, splitWhitespace_checksumLine, hwords, if_neg hdigest, hp, hfile, hequal,
    if_true]

theorem verifyLine_differs (h : ¬ FirstWordAgrees t root path content)
    (hok : verifyLedgerLines t root (checksumLine (digest content) path :: rest) checked mismatches = .ok r) :
    ∃ checked', verifyLedgerLines t root rest checked' (mismatches + 1) = .ok r := by
  have hdigest : ¬ ((digest content).utf8ByteSize ≠ 64 ∨ ¬ (digest content).toList.all isHexDigit = true) := by
    rw [not_or, not_not, not_not]
    exact ⟨utf8ByteSize_digest, isHexDigit_digest⟩
  rw [verifyLedgerLines] at hok
  simp only [if_neg trim_checksumLine_kept, splitWhitespace_checksumLine] at hok
  cases hwords : splitWhitespace path with
  | nil => simp [hwords] at hok
  | cons word words =>
    simp only [hwords, if_neg hdigest] at hok
    cases hp : resolveWorkspacePath root word with
    | error e => simp [hp] at hok
    | ok p =>
      cases hfile : t.fileAt p with
      | none =>
        simp only [hp, hfile] at hok
        exact ⟨_, hok⟩
      | some other =>
        have hdiffer : eqIgnoreAsciiCase (hexLower (sha256Bytes other)) (digest content) = false := by
          refine beq_eq_false_iff_ne.mpr fun hsame => h ⟨word, words, p, other, hwords, hp, hfile, ?_⟩
          rw [toAsciiLowercase_digest] at hsame
          exact toAsciiLowercase_digest.symm.trans hsame
        simp only [hp, hfile, hdiffer, Bool.false_eq_true, if_false] at hok
        exact ⟨_, hok⟩

/-! ## the file -/

theorem mismatches_le {lines : List String} (h : verifyLedgerLines t root lines checked mismatches = .ok r) :
    mismatches ≤ r.2 := by
  induction lines generalizing checked mismatches with
  | nil =>
    cases h
    exact Nat.le_refl _
  | cons line lines ih =>
    rw [verifyLedgerLines] at h
    split at h
    · exact ih h
    · split at h
      · cases h
      · cases h
      · split at h
        · cases h
        · split at h
          · cases h
          · split at h
            · exact (Nat.le_succ _).trans (ih h)
            · have hle := ih h
              split at hle
              · exact hle
              · exact (Nat.le_succ _).trans hle

theorem verifyLines_iff : verifyLedgerLines t root (fileLines files) checked mismatches = .ok (r.1, mismatches) ↔
    r.1 = checked + files.length ∧ ∀ f ∈ files, FirstWordAgrees t root f.1 f.2 := by
  induction files generalizing checked with
  | nil =>
    show Except.ok (checked, mismatches) = _ ↔ _
    simp [eq_comm]
  | cons f files ih =>
    rw [fileLines_cons, List.forall_mem_cons]
    by_cases hf : FirstWordAgrees t root f.1 f.2
    · have hlength : checked + 1 + files.length = checked + (f :: files).length := by
        rw [List.length_cons]
        omega
      rw [verifyLine_agrees hf, @ih (checked + 1), hlength]
      exact and_congr_right fun _ => (and_iff_right hf).symm
    · constructor
      · intro h
        obtain ⟨checked', hrest⟩ := verifyLine_differs hf h
        exact absurd (mismatches_le hrest) (by simp)
      · rintro ⟨-, hall, -⟩
        exact absurd hall hf

theorem verifyLedgerLines_header {ls : List String} :
    verifyLedgerLines t root (checksumsHeader ++ ls) checked mismatches =
      verifyLedgerLines t root ls checked mismatches := by
  have hcomment : ∀ line ∈ checksumsHeader, trim line = "" ∨ (trim line).toList.head? = some '#' := by decide +kernel
  show verifyLedgerLines t root ("# SHA256SUMS" :: "# algorithm=sha256" :: ls) checked mismatches = _
  rw [verifyLedgerLines, if_pos (hcomment _ List.mem_cons_self), verifyLedgerLines,
    if_pos (hcomment _ (List.mem_cons_of_mem _ List.mem_cons_self))]

theorem readToString_utf8 {text : String} (hfile : t.fileAt ledger = some (utf8 text)) :
    readToString t ledger = .ok text := by
  rw [readToString, readFile, Tree.fileAt_eq_some.mp hfile]
  dsimp only [bind, Except.bind]
  rw [fromUTF8_utf8]
  rfl

theorem oneLine_lines (h : ∀ f ∈ files, OneLine f.1) : ∀ line ∈ checksumsHeader ++ fileLines files, OneLine line := by
  intro line hline
  rcases List.mem_append.mp hline with hheader | hentry
  · exact (show ∀ line ∈ checksumsHeader, OneLine line by decide) line hheader
  · obtain ⟨f, hf, rfl⟩ := List.mem_map.mp hentry
    exact oneLine_checksumLine (h f hf)

/-- **the verifier accepts a checksum file of files exactly when there are some and the first words agree** -/
theorem ledger_verified_iff (hfile : t.fileAt ledger = some (utf8 (unlines (checksumsHeader ++ fileLines files))))
    (hlines : ∀ f ∈ files, OneLine f.1) :
    (∃ v, verifySha256sumLedger t root ledger = .ok v) ↔
      files ≠ [] ∧ ∀ f ∈ files, FirstWordAgrees t root f.1 f.2 := by
  have hone := oneLine_lines hlines
  have hverify : verifySha256sumLedger t root ledger =
      (verifyLedgerLines t root (fileLines files) 0 0).bind fun r =>
        if r.1 = 0 then .error (.invalidData "checksum ledger has no file entries")
        else if r.2 ≠ 0 then .error (.invalidData ("checksum mismatches: " ++ toString r.2))
        else .ok (.obj [("checked_entries", .num r.1), ("algorithm", .str "sha256")]) := by
    rw [verifySha256sumLedger, readToString_utf8 hfile]
    show (verifyLedgerLines t root (lines (unlines (checksumsHeader ++ fileLines files))) 0 0).bind _ = _
    rw [lines_unlines hone, verifyLedgerLines_header]
    rfl
  rw [hverify]
  constructor
  · rintro ⟨v, hv⟩
    cases hr : verifyLedgerLines t root (fileLines files) 0 0 with
    | error e => simp [hr, Except.bind] at hv
    | ok r =>
      obtain ⟨checked, mismatches⟩ := r
      have hcounts : checked ≠ 0 ∧ mismatches = 0 := by
        rw [hr] at hv
        by_cases hchecked : checked = 0
        · simp [Except.bind, hchecked] at hv
        · by_cases hmismatches : mismatches = 0
          · exact ⟨hchecked, hmismatches⟩
          · simp [Except.bind, hchecked, hmismatches] at hv
      rw [hcounts.2] at hr
      obtain ⟨hlength, hall⟩ := (@verifyLines_iff t root files 0 0 (checked, 0)).mp hr
      refine ⟨fun hnil => hcounts.1 (hlength.trans ?_), hall⟩
      rw [hnil]
      rfl
  · rintro ⟨hne, hall⟩
    have hr := (@verifyLines_iff t root files 0 0 (files.length, 0)).mpr ⟨(Nat.zero_add _).symm, hall⟩
    have hlength : files.length ≠ 0 := fun h => hne (List.length_eq_zero_iff.mp h)
    rw [hr]
    exact ⟨_, if_neg hlength⟩

end

end Package

import Mathlib.Algebra.GroupWithZero.Nat
import SuperNova.Lib.Json
import SuperNova.Lib.Lines
import SuperNova.Workspace.Resolved

/-!
# The text of a draft

The kernel writes the draft of a write into the preview that a user approves, below a heading and inside a
fence.  The product cuts it out of the preview again, to show and to edit it.

* `writeIntentPreviewMarkdown`: what the kernel writes;
* `extractDraftContent`, `approvalPreviewMarkdown`: what the product reads;
* `extractDraftContent_preview` (**main**): the draft comes back up to its first line that opens a fence.
-/

set_option linter.unusedSectionVars false

namespace Drafts

open Text Workspace

/-! ## the preview that the kernel writes -/

def maxDraftChars : Nat := 12000

def truncationText : String :=
  "_Preview truncated at 12000 characters; approve only if the visible draft is sufficient for this operation._"

def truncationNote : String := "\n\n" ++ truncationText

def targetLines (targetPaths : List String) : String :=
  if targetPaths = [] then "- target path not resolved from arguments"
  else join "\n" (targetPaths.map fun path => "- `" ++ path ++ "`")

/-- the preview above the draft -/
def previewHeader (capabilityId : String) (targetPaths : List String) (reason : String) : String :=
  "# Provider Native Write Preview\n\nCapability: `" ++ capabilityId ++ "`\n\nTarget paths:\n" ++
    targetLines targetPaths ++ "\n\nReason:\n" ++ reason ++ "\n"

def visibleDraft (draftText : String) : String := String.ofList (draftText.toList.take maxDraftChars)

/-- what follows a draft that was cut -/
def suffix (draftText : String) : String :=
  if draftText.toList.length > maxDraftChars then truncationNote else ""

def draftPreview : Option String → String
  | some text => "\n\n## Draft content\n\n```text\n" ++ visibleDraft text ++ "\n```" ++ suffix text
  | none => "\n\n## Draft content\n\nNo inline draft content was supplied with this write intent."

/-- `provider_native_write_intent_preview_markdown` -/
def writeIntentPreviewMarkdown (capabilityId : String) (targetPaths : List String) (reason : String)
    (draftText : Option String) : String :=
  previewHeader capabilityId targetPaths reason ++ draftPreview draftText

/-! ## the draft that the product reads -/

/-- `str::replace("\r\n", "\n")` -/
def lineFeeds : List Char → List Char
  | '\r' :: '\n' :: rest => '\n' :: lineFeeds rest
  | c :: rest => c :: lineFeeds rest
  | [] => []

def isDraftHeading (line : List Char) : Bool :=
  toAsciiLowercase (trim (String.ofList line)) == "## draft content"

/-- the text behind the first line that is the heading; `line` is what there is of the line -/
def afterHeading : List Char → List Char → Option (List Char)
  | [], line => if isDraftHeading line then some [] else none
  | c :: rest, line =>
    if c = '\n' then if isDraftHeading line then some rest else afterHeading rest []
    else afterHeading rest (line ++ [c])

def opensFence (fence line : String) : Bool := fence.toList.isPrefixOf (line.toList.dropWhile isWhitespace)

/-- the lines before the one that closes the fence -/
def closedBlock (fence : String) (rest : List String) : Option String :=
  if rest.any (opensFence fence) then some (join "\n" (rest.takeWhile fun line => !opensFence fence line)) else none

def stripFencedBlock (value : String) : Option String :=
  match lines value with
  | [] => none
  | first :: rest =>
    if opensFence "```" first then closedBlock "```" rest
    else if opensFence "~~~" first then closedBlock "~~~" rest
    else none

def nonempty (value : String) : Option String := if value = "" then none else some value

/-- `extract_draft_content_from_preview_markdown` -/
def extractDraftContent (markdown : String) : Option String :=
  (afterHeading (lineFeeds markdown.toList) []).bind fun rest =>
    let after := trim (String.ofList rest)
    if after = "" then none else nonempty (trim ((stripFencedBlock after).getD after))

def cleanPreviewMarkdown (value : String) : String := (extractDraftContent value).getD value

def operationArgumentText (arguments : Json) : Option String :=
  ["content", "text", "markdown", "draft_content", "body"].findSome? arguments.strAt?

def previewOperationDraftContent (value : Json) : Option String :=
  (((((value.get? "executable_operations").bind Json.asArr?).getD []).filterMap
    (·.get? "arguments")).findSome? operationArgumentText).bind fun text => nonempty (trim text)

def providerPreviewMarkdown (value : Json) : Option String :=
  value.strAt? "human_preview_markdown" <|> (value.get? "preview").bind (·.strAt? "human_preview_markdown")

def approvalPreviewMarkdown (value : Json) : Option String :=
  (previewOperationDraftContent value <|> (value.get? "preview").bind previewOperationDraftContent <|>
    (providerPreviewMarkdown value).map cleanPreviewMarkdown <|>
    (value.strAt? "content").map cleanPreviewMarkdown <|>
    (value.strAt? "text").map cleanPreviewMarkdown).bind fun text => nonempty (trim text)

/-! ## line by line -/

/-- lines, each with its line feed -/
def fed (ls : List (List Char)) : List Char := ls.flatMap (· ++ ['\n'])

/-- the lines of a text, each without the carriage return before its line feed -/
def linesOf (chars : List Char) : List (List Char) := (chars.splitOn '\n').map stripReturn

variable {line rest chars : List Char} {ls : List (List Char)}

theorem lineFeeds_line (h : '\n' ∉ line) : lineFeeds (line ++ '\n' :: rest) = stripReturn line ++ '\n' :: lineFeeds rest := by
  induction line with
  | nil =>
    rw [List.nil_append, lineFeeds]
    · rfl
    · rintro _ ⟨⟩
  | cons c line ih =>
    have hc : c ≠ '\n' := fun heq => h (heq ▸ List.mem_cons_self)
    have hline : '\n' ∉ line := fun hmem => h (List.mem_cons_of_mem c hmem)
    cases line with
    | nil =>
      by_cases hreturn : c = '\r'
      · subst hreturn
        rw [List.singleton_append, lineFeeds]
        rfl
      · have hstrip : stripReturn [c] = [c] := if_neg (by simp [hreturn])
        rw [List.singleton_append, lineFeeds, hstrip, List.singleton_append, lineFeeds]
        · rintro _ ⟨⟩
        · rintro _ rfl
          exact absurd rfl hreturn
    | cons d line =>
      have hd : d ≠ '\n' := fun heq => hline (heq ▸ List.mem_cons_self)
      have hstrip : stripReturn (c :: d :: line) = c :: stripReturn (d :: line) := by
        rw [stripReturn, stripReturn, List.getLast?_cons_cons]
        split <;> rfl
      rw [List.cons_append, lineFeeds, ih hline, hstrip, List.cons_append]
      rintro _ - heq
      exact hd (by simpa using congrArg List.head? heq)

theorem lineFeeds_fed (h : ∀ line ∈ ls, '\n' ∉ line) :
    lineFeeds (fed ls ++ rest) = fed (ls.map stripReturn) ++ lineFeeds rest := by
  induction ls with
  | nil => rfl
  | cons line ls ih =>
    have hrest := ih fun l hl => h l (List.mem_cons_of_mem line hl)
    have hfed : fed (line :: ls) ++ rest = line ++ '\n' :: (fed ls ++ rest) := by simp [fed]
    rw [hfed, lineFeeds_line (h line List.mem_cons_self), hrest]
    simp [fed]

theorem fed_splitOn (chars : List Char) : fed (chars.splitOn '\n') = chars ++ ['\n'] := by
  induction chars with
  | nil => rfl
  | cons c chars ih =>
    rw [List.splitOn_cons_eq_if_modifyHead]
    split
    next hc =>
      rw [beq_iff_eq.mp hc]
      simp [fed, ← ih]
    next hc =>
      cases hsplit : chars.splitOn '\n' with
      | nil => exact absurd hsplit (List.splitOn_ne_nil '\n' chars)
      | cons first more =>
        rw [hsplit] at ih
        rw [List.modifyHead_cons, List.cons_append, ← ih]
        simp [fed]

theorem lineFeeds_text (chars rest : List Char) :
    lineFeeds (chars ++ '\n' :: rest) = fed (linesOf chars) ++ lineFeeds rest := by
  have hsplit : chars ++ '\n' :: rest = fed (chars.splitOn '\n') ++ rest := by
    rw [fed_splitOn, List.append_assoc, List.singleton_append]
  rw [hsplit, lineFeeds_fed fun line hline => not_mem_splitOn hline, linesOf]

theorem not_mem_linesOf (h : line ∈ linesOf chars) : '\n' ∉ line := by
  obtain ⟨l, hl, rfl⟩ := List.mem_map.mp h
  intro hmem
  refine not_mem_splitOn hl ?_
  rw [stripReturn] at hmem
  split at hmem
  · exact List.mem_of_mem_dropLast hmem
  · exact hmem

theorem afterHeading_line (h : '\n' ∉ line) (before : List Char) : afterHeading (line ++ '\n' :: rest) before =
    if isDraftHeading (before ++ line) then some rest else afterHeading rest [] := by
  induction line generalizing before with
  | nil => rw [List.nil_append, afterHeading, if_pos rfl, List.append_nil]
  | cons c line ih =>
    have hc : c ≠ '\n' := fun heq => h (heq ▸ List.mem_cons_self)
    rw [List.cons_append, afterHeading, if_neg hc, ih fun hmem => h (List.mem_cons_of_mem c hmem),
      List.append_assoc, List.singleton_append]

theorem afterHeading_fed (h : ∀ line ∈ ls, '\n' ∉ line ∧ isDraftHeading line = false) :
    afterHeading (fed ls ++ rest) [] = afterHeading rest [] := by
  induction ls with
  | nil => rfl
  | cons line ls ih =>
    obtain ⟨hline, hheading⟩ := h line List.mem_cons_self
    have hfed : fed (line :: ls) ++ rest = line ++ '\n' :: (fed ls ++ rest) := by simp [fed]
    rw [hfed, afterHeading_line hline, List.nil_append, hheading, if_neg Bool.false_ne_true]
    exact ih fun l hl => h l (List.mem_cons_of_mem line hl)

theorem linesFrom_fed (h : ∀ line ∈ ls, '\n' ∉ line) :
    linesFrom (fed ls ++ rest) [] = (ls.map fun line => String.ofList (stripReturn line)) ++ linesFrom rest [] := by
  induction ls with
  | nil => rfl
  | cons line ls ih =>
    have hfed : fed (line :: ls) ++ rest = line ++ '\n' :: (fed ls ++ rest) := by simp [fed]
    rw [hfed, linesFrom_line (h line List.mem_cons_self), List.nil_append,
      ih fun l hl => h l (List.mem_cons_of_mem line hl)]
    rfl

/-! ## the draft in the preview -/

/-- what stands behind the draft -/
def closing (text : String) : List Char := "```".toList ++ (suffix text).toList

theorem toList_truncationNote : truncationNote.toList = '\n' :: '\n' :: truncationText.toList := by
  rw [truncationNote, String.toList_append]
  rfl

/-- the line that opens the fence of the draft -/
def fenceLine : List Char := "```text".toList

/-- the lines of the draft as the product reads them -/
def draftLines (text : String) : List String :=
  (linesOf (visibleDraft text).toList).map fun line => String.ofList (stripReturn line)

theorem lineFeeds_of_not_mem (h : '\r' ∉ chars) : lineFeeds chars = chars := by
  induction chars with
  | nil => rfl
  | cons c chars ih =>
    have hc : c ≠ '\r' := fun heq => h (heq ▸ List.mem_cons_self)
    rw [lineFeeds, ih fun hmem => h (List.mem_cons_of_mem c hmem)]
    rintro _ rfl
    exact absurd rfl hc

theorem suffix_cases (text : String) : suffix text = truncationNote ∨ suffix text = "" := by
  rw [suffix]
  split
  · exact .inl rfl
  · exact .inr rfl

theorem not_mem_closing (text : String) : '\r' ∉ closing text := by
  have hnote : '\r' ∉ truncationText.toList := by decide
  rw [closing, List.mem_append, not_or]
  refine ⟨by decide, ?_⟩
  obtain h | h := suffix_cases text
  · rw [h, toList_truncationNote]
    simpa using hnote
  · rw [h]
    exact List.not_mem_nil

theorem getLast?_closing (text : String) : ∃ c, (closing text).getLast? = some c ∧ isWhitespace c = false := by
  have hnote : truncationText.toList.getLast? = some '_' := by decide
  obtain h | h := suffix_cases text
  · refine ⟨'_', ?_, by decide⟩
    rw [closing, h, toList_truncationNote, List.getLast?_append, List.getLast?_cons_cons, List.getLast?_cons, hnote]
    rfl
  · refine ⟨'`', ?_, by decide⟩
    rw [closing, h]
    rfl

theorem linesFrom_closing (text : String) : ∃ more, linesFrom (closing text) [] = "```" :: more := by
  obtain h | h := suffix_cases text
  · refine ⟨linesFrom ('\n' :: truncationText.toList) [], ?_⟩
    rw [closing, h, toList_truncationNote, linesFrom_line (by decide)]
    rfl
  · refine ⟨[], ?_⟩
    rw [closing, h]
    rfl

theorem draftPreview_some (text : String) : draftPreview (some text) =
    "\n\n## Draft content\n\n```text\n" ++ visibleDraft text ++ "\n```" ++ suffix text := rfl

theorem toList_preview (capabilityId : String) (targetPaths : List String) (reason text : String) :
    (writeIntentPreviewMarkdown capabilityId targetPaths reason (some text)).toList =
      (previewHeader capabilityId targetPaths reason).toList ++ '\n' ::
        (fed [[], "## Draft content".toList, [], fenceLine] ++
          ((visibleDraft text).toList ++ '\n' :: closing text)) := by
  have hblock : fed [[], "## Draft content".toList, [], fenceLine] = "\n## Draft content\n\n```text\n".toList := by
    decide
  have hheading : "\n\n## Draft content\n\n```text\n".toList =
      '\n' :: "\n## Draft content\n\n```text\n".toList := by
    decide
  have hfence : "\n```".toList = '\n' :: "```".toList := by decide
  rw [writeIntentPreviewMarkdown, draftPreview_some, closing, hblock]
  simp only [String.toList_append, hheading, hfence, List.append_assoc, List.cons_append]

theorem dropEnd_append {l tail : List Char} {c : Char} (htail : tail.getLast? = some c) (hc : isWhitespace c = false) :
    (l ++ tail).rdropWhile isWhitespace = l ++ tail := by
  obtain ⟨front, rfl⟩ : ∃ front, tail = front ++ [c] := List.getLast?_eq_some_iff.mp htail
  rw [← List.append_assoc, List.rdropWhile_concat_neg _ _ _ (by rw [hc]; exact Bool.false_ne_true)]

theorem takeWhile_closed {p : String → Bool} {fence : String} {l more : List String} (h : p fence = false) :
    (l ++ fence :: more).takeWhile p = l.takeWhile p := by
  rw [List.takeWhile_append, List.takeWhile_cons_of_neg (by rw [h]; exact Bool.false_ne_true), List.append_nil]
  split
  next hlength => exact ((List.takeWhile_prefix p).eq_of_length hlength).symm
  next => rfl

/-- **the draft of a preview**: its lines up to the first one that opens a fence -/
theorem extractDraftContent_preview (capabilityId : String) (targetPaths : List String) (reason text : String)
    (h : ∀ line ∈ linesOf (previewHeader capabilityId targetPaths reason).toList, isDraftHeading line = false) :
    extractDraftContent (writeIntentPreviewMarkdown capabilityId targetPaths reason (some text)) =
      nonempty (trim (join "\n" ((draftLines text).takeWhile fun line => !opensFence "```" line))) := by
  have hheader : ∀ line ∈ linesOf (previewHeader capabilityId targetPaths reason).toList ++ [[]],
      '\n' ∉ line ∧ isDraftHeading line = false := by
    intro line hline
    obtain hline | hline := List.mem_append.mp hline
    · exact ⟨not_mem_linesOf hline, h line hline⟩
    · rw [List.mem_singleton.mp hline]
      decide
  have hblock : fed [[], fenceLine] ++ (fed (linesOf (visibleDraft text).toList) ++ closing text) =
      '\n' :: (fed (fenceLine :: linesOf (visibleDraft text).toList) ++ closing text) := by
    simp [fed]
  have hafter : afterHeading (lineFeeds
      (writeIntentPreviewMarkdown capabilityId targetPaths reason (some text)).toList) [] =
      some ('\n' :: (fed (fenceLine :: linesOf (visibleDraft text).toList) ++ closing text)) := by
    have hfeeds : lineFeeds (fed [[], "## Draft content".toList, [], fenceLine] ++
        ((visibleDraft text).toList ++ '\n' :: closing text)) =
        fed ([[], "## Draft content".toList, [], fenceLine].map stripReturn) ++
          lineFeeds ((visibleDraft text).toList ++ '\n' :: closing text) :=
      lineFeeds_fed (by decide)
    have hstripped : fed ([[], "## Draft content".toList, [], fenceLine].map stripReturn) =
        fed [[]] ++ ("## Draft content".toList ++ '\n' :: fed [[], fenceLine]) := by decide
    have hjoin : fed (linesOf (previewHeader capabilityId targetPaths reason).toList) ++
        (fed [[]] ++ ("## Draft content".toList ++ '\n' :: (fed [[], fenceLine] ++
          (fed (linesOf (visibleDraft text).toList) ++ closing text)))) =
        fed (linesOf (previewHeader capabilityId targetPaths reason).toList ++ [[]]) ++
          ("## Draft content".toList ++ '\n' :: (fed [[], fenceLine] ++
            (fed (linesOf (visibleDraft text).toList) ++ closing text))) := by
      simp [fed]
    rw [toList_preview, lineFeeds_text, hfeeds, hstripped, lineFeeds_text,
      lineFeeds_of_not_mem (not_mem_closing text)]
    simp only [List.append_assoc, List.cons_append]
    rw [hjoin, afterHeading_fed hheader, afterHeading_line (by decide), List.nil_append, if_pos (by decide), hblock]
  obtain ⟨c, hlast, hc⟩ := getLast?_closing text
  obtain ⟨more, hmore⟩ := linesFrom_closing text
  have htrim : trim (String.ofList ('\n' :: (fed (fenceLine :: linesOf (visibleDraft text).toList) ++
      closing text))) =
      String.ofList (fed (fenceLine :: linesOf (visibleDraft text).toList) ++ closing text) := by
    rw [← String.toList_inj, toList_trim, String.toList_ofList, String.toList_ofList,
      List.dropWhile_cons_of_pos (by decide)]
    have hstart : fed (fenceLine :: linesOf (visibleDraft text).toList) ++ closing text =
        '`' :: ("``text\n".toList ++ (fed (linesOf (visibleDraft text).toList) ++ closing text)) := by
      simp [fed, fenceLine]
    rw [hstart, List.dropWhile_cons_of_neg (by decide), ← hstart, dropEnd_append hlast hc]
  have hnotFence : (fun line => !opensFence "```" line) "```" = false := by decide
  have hlines : lines (String.ofList (fed (fenceLine :: linesOf (visibleDraft text).toList) ++ closing text)) =
      "```text" :: (draftLines text ++ "```" :: more) := by
    rw [lines, String.toList_ofList, linesFrom_fed, hmore]
    · rfl
    · intro line hline
      obtain rfl | hline := List.mem_cons.mp hline
      · decide
      · exact not_mem_linesOf hline
  have hstrip : stripFencedBlock (String.ofList (fed (fenceLine :: linesOf (visibleDraft text).toList) ++
      closing text)) = some (join "\n" ((draftLines text).takeWhile fun line => !opensFence "```" line)) := by
    have hany : (draftLines text ++ "```" :: more).any (opensFence "```") = true :=
      List.any_eq_true.mpr ⟨"```", List.mem_append_right _ List.mem_cons_self, by decide⟩
    rw [stripFencedBlock, hlines]
    dsimp only
    rw [if_pos (by decide), closedBlock, if_pos hany, takeWhile_closed hnotFence]
  have hne : String.ofList (fed (fenceLine :: linesOf (visibleDraft text).toList) ++ closing text) ≠ "" := by
    intro heq
    have hnil := congrArg String.toList heq
    rw [String.toList_ofList] at hnil
    simp [fed] at hnil
  rw [extractDraftContent, hafter, Option.bind_some]
  dsimp only
  rw [htrim, if_neg hne, hstrip, Option.getD_some]

/-! ## when the whole draft comes back -/

/-- the characters that are no white space -/
def marks (chars : List Char) : Nat := chars.countP fun c => !isWhitespace c

theorem marks_dropWhile (chars : List Char) : marks (chars.dropWhile isWhitespace) = marks chars := by
  induction chars with
  | nil => rfl
  | cons c chars ih =>
    cases hc : isWhitespace c with
    | true => rw [List.dropWhile_cons_of_pos hc, ih, marks, marks, List.countP_cons_of_neg (by simp [hc])]
    | false => rw [List.dropWhile_cons_of_neg (by rw [hc]; exact Bool.false_ne_true)]

theorem marks_trim (s : String) : marks (trim s).toList = marks s.toList := by
  have hreverse : ∀ l : List Char, marks l.reverse = marks l := fun l => List.countP_reverse
  rw [toList_trim, List.rdropWhile, hreverse, marks_dropWhile, hreverse, marks_dropWhile]

theorem marks_append (l l' : List Char) : marks (l ++ l') = marks l + marks l' := List.countP_append

theorem marks_join (l : List String) : marks (join "\n" l).toList = (l.map fun line => marks line.toList).sum := by
  induction l with
  | nil => rfl
  | cons line l ih =>
    cases l with
    | nil => rw [join, List.map_cons, List.map_nil, List.sum_cons, List.sum_nil, Nat.add_zero]
    | cons line' l =>
      have hfeed : marks "\n".toList = 0 := by decide
      rw [join_cons_cons, String.toList_append, String.toList_append, marks_append, marks_append, ih, hfeed,
        Nat.add_zero]
      rfl

theorem marks_of_opensFence {line : String} (h : opensFence "```" line = true) : 0 < marks line.toList := by
  have hprefix : "```".toList <+: line.toList.dropWhile isWhitespace := List.isPrefixOf_iff_prefix.mp h
  rw [← marks_dropWhile]
  exact List.countP_pos_iff.mpr ⟨'`', hprefix.subset List.mem_cons_self, by decide⟩

theorem nonempty_inj {a b : String} (h : nonempty a = nonempty b) : a = b := by
  rw [nonempty, nonempty] at h
  by_cases ha : a = ""
  · by_cases hb : b = ""
    · rw [ha, hb]
    · rw [if_pos ha, if_neg hb] at h
      exact absurd h.symm (Option.some_ne_none b)
  · by_cases hb : b = ""
    · rw [if_neg ha, if_pos hb] at h
      exact absurd h (Option.some_ne_none a)
    · rw [if_neg ha, if_neg hb] at h
      exact Option.some.inj h

theorem stripReturn_of_not_mem {l : List Char} (h : '\r' ∉ l) : stripReturn l = l :=
  if_neg fun hlast => h (List.mem_of_getLast? hlast)

theorem not_mem_of_mem_splitOn {line : List Char} (h : '\r' ∉ chars) (hline : line ∈ chars.splitOn '\n') :
    '\r' ∉ line := by
  intro hmem
  have hfed : '\r' ∈ fed (chars.splitOn '\n') :=
    List.mem_flatMap.mpr ⟨line, hline, List.mem_append_left _ hmem⟩
  rw [fed_splitOn, List.mem_append] at hfed
  obtain hfed | hfed := hfed
  · exact h hfed
  · exact absurd hfed (by decide)

theorem draftLines_of_short {text : String} (hreturn : '\r' ∉ text.toList)
    (hlength : text.toList.length ≤ maxDraftChars) : draftLines text = splitOn '\n' text := by
  have hvisible : visibleDraft text = text := by
    rw [visibleDraft, List.take_of_length_le hlength, String.ofList_toList]
  rw [draftLines, hvisible, linesOf, List.map_map, splitOn]
  refine List.map_congr_left fun line hline => ?_
  have hline' := not_mem_of_mem_splitOn hreturn hline
  rw [Function.comp_apply, stripReturn_of_not_mem hline', stripReturn_of_not_mem hline']

theorem join_splitOn (text : String) : join "\n" (splitOn '\n' text) = text := by
  have hofList : (String.toList ∘ String.ofList) = id := funext fun l => String.toList_ofList
  rw [← String.toList_inj, Os.toList_join, splitOn, List.map_map, hofList, List.map_id]
  exact List.intercalate_splitOn '\n'

theorem marks_takeWhile_lt {l : List String} (h : ∃ line ∈ l, opensFence "```" line = true) :
    marks (join "\n" (l.takeWhile fun line => !opensFence "```" line)).toList < marks (join "\n" l).toList := by
  rw [marks_join, marks_join]
  induction l with
  | nil =>
    obtain ⟨line, hline, -⟩ := h
    exact absurd hline List.not_mem_nil
  | cons first l ih =>
    cases hfirst : opensFence "```" first with
    | true =>
      have hpos := marks_of_opensFence hfirst
      rw [List.takeWhile_cons_of_neg (by simp [hfirst]), List.map_nil, List.sum_nil, List.map_cons, List.sum_cons]
      omega
    | false =>
      obtain ⟨line, hline, hfence⟩ := h
      obtain rfl | hline := List.mem_cons.mp hline
      · rw [hfirst] at hfence
        exact absurd hfence Bool.false_ne_true
      · have hrest := ih ⟨line, hline, hfence⟩
        rw [List.takeWhile_cons_of_pos (by simp [hfirst]), List.map_cons, List.sum_cons, List.map_cons, List.sum_cons]
        omega

/-- **the draft that comes back**: its lines up to the first one that opens a fence; a short text with line
feeds only comes back whole exactly when it opens no fence -/
theorem draft_returns (capabilityId : String) (targetPaths : List String) (reason text : String)
    (h : ∀ line ∈ linesOf (previewHeader capabilityId targetPaths reason).toList, isDraftHeading line = false) :
    extractDraftContent (writeIntentPreviewMarkdown capabilityId targetPaths reason (some text)) =
        nonempty (trim (join "\n" ((draftLines text).takeWhile fun line => !opensFence "```" line))) ∧
      ('\r' ∉ text.toList → text.toList.length ≤ maxDraftChars →
        (extractDraftContent (writeIntentPreviewMarkdown capabilityId targetPaths reason (some text)) =
            nonempty (trim text) ↔
          ∀ line ∈ splitOn '\n' text, opensFence "```" line = false)) := by
  have hdraft := extractDraftContent_preview capabilityId targetPaths reason text h
  refine ⟨hdraft, fun hreturn hlength => ?_⟩
  rw [hdraft, draftLines_of_short hreturn hlength]
  constructor
  · intro hwhole line hline
    by_contra hfence
    rw [Bool.not_eq_false] at hfence
    have hmarks := congrArg (fun s : String => marks s.toList) (nonempty_inj hwhole)
    have hlost := marks_takeWhile_lt ⟨line, hline, hfence⟩
    rw [marks_trim, marks_trim] at hmarks
    rw [join_splitOn, hmarks] at hlost
    exact absurd hlost (Nat.lt_irrefl _)
  · intro hnone
    rw [List.takeWhile_eq_self_iff.mpr fun line hline => by rw [hnone line hline]; rfl, join_splitOn]

theorem draft_returns_note :
    extractDraftContent (writeIntentPreviewMarkdown "os.write_file" ["notes.md"] "Save the notes" (some "# Notes")) =
      nonempty (trim "# Notes") := by
  have hheader : ∀ line ∈ linesOf (previewHeader "os.write_file" ["notes.md"] "Save the notes").toList,
      isDraftHeading line = false := by
    decide +kernel
  have hreturns := (draft_returns "os.write_file" ["notes.md"] "Save the notes" "# Notes" hheader).2 (by decide)
    (by decide)
  exact hreturns.mpr (by decide)

end Drafts

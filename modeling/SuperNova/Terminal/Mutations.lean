import SuperNova.Terminal.Command
import SuperNova.Workspace.Resolved

/-!
# Commands that mutate

`run_command` looks for commands that mutate in the line that the arguments make, and refuses such a line when it finds
a path that leaves the workspace.  Both are searches for texts, and a word at an end of the line is easily missed.

* `Escapes`: an argument that is absolute or leaves the workspace;
* `bareParent_of_overlooked`: the only arguments that the second search may miss are spellings of `..`;
* `confined_iff` (**main**): a command that mutates runs with such an argument exactly when one of the searches misses.
-/

set_option linter.unusedSectionVars false

namespace Terminal

open Text Workspace

/-! ## the property -/

/-- the commands of the list of patterns -/
def mutationCommands : List String :=
  ["remove-item", "rm", "del", "erase", "move-item", "copy-item", "rename-item", "new-item", "set-content",
    "add-content",
    "out-file", "mkdir", "rmdir", "touch"]

/-- the program or an argument is such a command -/
def NamesMutation (argv : List String) : Prop := ∃ word ∈ argv, toAsciiLowercase word ∈ mutationCommands

instance (argv : List String) : Decidable (NamesMutation argv) := List.decidableBEx _ _

/-- `run_command_with_approval` -/
def directCall (argv : List String) (timeoutMs : Nat) (approval : TerminalApproval) : CommandCall where
  argv
  timeoutMs
  approval
  shellKind := "direct"
  script := none

/-- an absolute path, or a relative one that leaves the workspace -/
def Escapes (arg : String) : Prop := isAbsolute arg = true ∨ ¬ Balanced (components arg)

instance (arg : String) : Decidable (Escapes arg) := instDecidableOr

/-- if the call is not refused although it names a command that mutates, then no argument escapes -/
def Confined (token : CommandToken) (call : CommandCall) : Prop :=
  refusal token call = none → NamesMutation call.argv → ∀ arg ∈ call.argv.drop 1, ¬ Escapes arg

/-- nothing but the workspace boundary speaks against the call -/
structure Admissible (token : CommandToken) (call : CommandCall) : Prop where
  granted : "terminal.run_command" ∈ token.capabilities
  nonempty : call.argv ≠ []
  timeout : call.timeoutMs ≠ 0
  command : serviceCommandDetected call.argv = false

/-- `..`, with steps to the same place before it -/
def BareParent (arg : String) : Prop := components arg = [".."] ∧ contains arg "../" = false

/-- what the searches miss: the command, or a bare `..` where nothing else on the line looks like a boundary -/
def Missed (argv : List String) : Prop :=
  isMutationCommand argv = false ∨
    (∀ arg ∈ argv.drop 1, Escapes arg → BareParent arg) ∧ commandBoundaryViolation argv none = none

/-! ## the line -/

section
variable {argv words : List String} {word arg pattern : String}

theorem infix_join (h : word ∈ words) : word.toList <:+: (join " " words).toList := by
  induction words with
  | nil => exact absurd h List.not_mem_nil
  | cons first rest ih =>
    cases rest with
    | nil =>
      obtain rfl := List.mem_singleton.mp h
      exact List.infix_rfl
    | cons second rest =>
      rw [join_cons_cons, String.toList_append, String.toList_append]
      rcases List.mem_cons.mp h with rfl | h
      · exact (List.prefix_append _ _).isInfix.trans (List.prefix_append _ _).isInfix
      · exact (ih h).trans (List.suffix_append _ _).isInfix

theorem contains_lower {text line : String} (h : text.toList <:+: line.toList) :
    contains (toAsciiLowercase line) (toAsciiLowercase text) = true := by
  unfold contains toAsciiLowercase
  rw [decide_eq_true_eq, toList_mapChars, toList_mapChars]
  exact h.map _

theorem contains_line (hword : word ∈ words) (hpattern : toAsciiLowercase pattern = pattern)
    (h : contains word pattern = true) : contains (toAsciiLowercase (join " " words)) pattern = true := by
  have hfound := contains_lower ((of_decide_eq_true h).trans (infix_join hword))
  rwa [hpattern] at hfound

/-! ## arguments that escape -/

theorem balanced_concat (hnames : ∀ c ∈ words, c ≠ "..") (hne : words ≠ []) : Balanced (words ++ [".."]) := by
  intro front hfront
  rcases List.prefix_concat_iff.mp ((List.mem_inits _ _).mp hfront) with rfl | hfront
  · have hfilter : words.filter (· ≠ "..") = words := List.filter_eq_self.mpr fun c hc => decide_eq_true (hnames c hc)
    have hlength := List.length_pos_of_ne_nil hne
    rw [List.count_append, List.count_eq_zero.mpr fun h => hnames ".." h rfl, List.filter_append, hfilter,
      List.length_append, List.count_singleton_self]
    omega
  · rw [List.count_eq_zero.mpr fun h => hnames ".." (hfront.subset h) rfl]
    exact Nat.zero_le _

theorem infix_intercalate {sep : Char} {segment last : List Char} {front : List (List Char)} (h : segment ∈ front) :
    segment ++ [sep] <:+: [sep].intercalate (front ++ [last]) := by
  induction front with
  | nil => exact absurd h List.not_mem_nil
  | cons first front ih =>
    rw [List.cons_append, List.intercalate_cons_of_ne_nil (by simp)]
    rcases List.mem_cons.mp h with rfl | h
    · exact (List.prefix_append _ _).isInfix
    · exact (ih h).trans (List.suffix_append _ _).isInfix

theorem bareParent_of_escapes (hrelative : isAbsolute arg = false) (h : Escapes arg)
    (hparent : contains arg "../" = false) : BareParent arg := by
  have hunbalanced : ¬ Balanced (components arg) := h.resolve_left (by rw [hrelative]; exact Bool.false_ne_true)
  refine ⟨?_, hparent⟩
  obtain ⟨front, last, hsplit⟩ : ∃ front last, arg.toList.splitOn '/' = front ++ [last] := by
    rcases List.eq_nil_or_concat (arg.toList.splitOn '/') with hnil | ⟨front, last, hsplit⟩
    · exact absurd hnil (List.splitOn_ne_nil _ _)
    · exact ⟨front, last, by rw [hsplit, List.concat_eq_append]⟩
  have hfront : ['.', '.'] ∉ front := fun hmem => by
    have hinfix := @infix_intercalate '/' _ last _ hmem
    rw [← hsplit, List.intercalate_splitOn] at hinfix
    exact absurd (decide_eq_true hinfix) (by rw [contains] at hparent; simpa using hparent)
  have hcomponents : components arg = ((front.map String.ofList).filter fun c => c ≠ "" && c ≠ ".") ++
      ([String.ofList last].filter fun c => c ≠ "" && c ≠ ".") := by
    rw [components, splitOn, hsplit, List.map_append, List.filter_append]
    rfl
  have hnames : ∀ c ∈ (front.map String.ofList).filter fun c => c ≠ "" && c ≠ ".", c ≠ ".." := by
    intro c hc hdots
    obtain ⟨segment, hsegment, rfl⟩ := List.mem_map.mp (List.mem_of_mem_filter hc)
    have hchars : segment = ['.', '.'] := by
      rw [← String.toList_ofList (l := segment), hdots]
      rfl
    exact hfront (hchars ▸ hsegment)
  by_cases hlast : String.ofList last = ".."
  · have hkept : ([".."].filter fun c : String => c ≠ "" && c ≠ ".") = [".."] := by decide
    rw [hcomponents, hlast, hkept] at hunbalanced ⊢
    by_cases hnil : ((front.map String.ofList).filter fun c => c ≠ "" && c ≠ ".") = []
    · rw [hnil, List.nil_append]
    · exact absurd (balanced_concat hnames hnil) hunbalanced
  · refine absurd (balanced_names fun c hc => ?_) hunbalanced
    rw [hcomponents] at hc
    rcases List.mem_append.mp hc with hc | hc
    · exact hnames c hc
    · obtain rfl := List.mem_singleton.mp (List.mem_of_mem_filter hc)
      exact hlast

/-! ## the boundary -/

theorem head_trimMatches {f : Char → Bool} {text : String} {c : Char} (h : text.toList.head? = some c)
    (hkept : f c = false) : (trimMatches f text).toList.head? = some c := by
  obtain ⟨rest, hchars⟩ := List.head?_eq_some_iff.mp h
  have hneg : ¬ f c = true := by
    rw [hkept]
    exact Bool.false_ne_true
  rw [trimMatches, String.toList_ofList, hchars, List.dropWhile_cons_of_neg hneg, List.reverse_cons,
    List.dropWhile_append]
  split
  · rw [List.dropWhile_cons_of_neg hneg]
    rfl
  · rw [List.reverse_append]
    rfl

theorem looks_of_absolute (h : isAbsolute arg = true) : looksLikeAbsoluteOrParentPath arg = true := by
  have hslash := @head_trimMatches (· == '\'') _ _ (@head_trimMatches (· == '"') _ _ (beq_iff_eq.mp h) rfl) rfl
  simp only [looksLikeAbsoluteOrParentPath, hslash, beq_self_eq_true, Bool.or_true, Bool.true_or]

theorem bareParent_of_overlooked (h : commandBoundaryViolation argv none = none) (hmem : arg ∈ argv.drop 1)
    (hescapes : Escapes arg) : BareParent arg := by
  unfold commandBoundaryViolation at h
  dsimp only at h
  split at h
  · cases h
  · next hparent =>
    split at h
    · cases h
    · split at h
      · cases h
      · next hlooks =>
        have hrelative : isAbsolute arg = false := by
          by_contra habsolute
          rw [Bool.not_eq_false] at habsolute
          exact hlooks (List.any_eq_true.mpr ⟨arg, hmem, looks_of_absolute habsolute⟩)
        refine bareParent_of_escapes hrelative hescapes ?_
        by_contra hfound
        rw [Bool.not_eq_false] at hfound
        have hline := contains_line (List.mem_of_mem_drop hmem) (by decide) hfound
        exact hparent (List.any_eq_true.mpr ⟨"../", by decide, hline⟩)

theorem refusal_eq_none_iff {token : CommandToken} {argv : List String} {timeoutMs : Nat}
    {approval : TerminalApproval} :
    refusal token (directCall argv timeoutMs approval) = none ↔ Admissible token (directCall argv timeoutMs approval) ∧
      (isMutationCommand argv = false ∨ commandBoundaryViolation argv none = none) := by
  constructor
  · intro h
    unfold refusal directCall at h
    split at h
    · cases h
    · next hgranted =>
      split at h
      · cases h
      · next hnonempty =>
        split at h
        · cases h
        · next htimeout =>
          split at h
          · cases h
          · next hcommand =>
            refine ⟨⟨not_not.mp hgranted, hnonempty, htimeout, Bool.not_eq_true _ ▸ hcommand⟩, ?_⟩
            split at h
            · exact Or.inr (Option.map_eq_none_iff.mp h)
            · next hmutation => exact Or.inl (Bool.not_eq_true _ ▸ hmutation)
  · rintro ⟨hadmissible, hpassed⟩
    unfold refusal
    rw [if_neg (not_not.mpr hadmissible.granted), if_neg hadmissible.nonempty, if_neg hadmissible.timeout,
      hadmissible.command, if_neg Bool.false_ne_true]
    rcases hpassed with hunseen | hnone
    · rw [directCall, hunseen, if_neg Bool.false_ne_true]
    · rw [directCall, hnone, Option.map_none, ite_self]

/-- **a command that mutates runs with an argument that escapes exactly when** nothing else speaks against the call and
one of the two searches misses -/
theorem confined_iff (token : CommandToken) (argv : List String) (timeoutMs : Nat) (approval : TerminalApproval) :
    Confined token (directCall argv timeoutMs approval) ↔
      ¬ (Admissible token (directCall argv timeoutMs approval) ∧ NamesMutation argv ∧
        (∃ arg ∈ argv.drop 1, Escapes arg) ∧ Missed argv) := by
  constructor
  · rintro hconfined ⟨hadmissible, hnames, ⟨arg, hmem, hescapes⟩, hmissed⟩
    refine hconfined (refusal_eq_none_iff.mpr ⟨hadmissible, ?_⟩) hnames arg hmem hescapes
    exact hmissed.imp_right And.right
  · intro hnot hrefusal hnames arg hmem hescapes
    obtain ⟨hadmissible, hpassed⟩ := refusal_eq_none_iff.mp hrefusal
    refine hnot ⟨hadmissible, hnames, ⟨arg, hmem, hescapes⟩, ?_⟩
    exact hpassed.imp_right fun hnone => ⟨fun arg' hmem' => bareParent_of_overlooked hnone hmem', hnone⟩

/-- `rm` at the start of the line is not seen -/
theorem removes_outside : ¬ Confined buildToken (directCall ["rm", "/etc/passwd"] 1000 ⟨none, none⟩) := by
  intro hconfined
  exact hconfined (by decide +kernel) (by decide) "/etc/passwd" (by decide) (by decide)

end

end Terminal

import SuperNova.Data.Runtime

/-!
# Organizing keeps files where destinations are free

`apply_organize_tx` removes whatever stands at a destination before it moves a source there, and it
moves one file after another on a changing tree.  `OrganizeSafe` is what a call needs of the tree it
starts from: when an operation's source is there, no file stands at or below its destination, and
the source is not a path an earlier operation moved to.  `organize_runs_keep`: in a run of such
calls no file is lost.  A second run over an organized file is not such a call, and loses it
(`organize_twice_loses`).
-/

set_option linter.unusedSectionVars false

namespace Data

open Paths Io FileTree Workspace Os Text

variable {rt : Runtime} {k k' : Kernel}

/-! ## the condition -/

/-- the operations, one after another on the layout, never move over a file nor move a file twice;
`done` are the destinations so far.  A call stops at an operation that does not resolve or whose
destination lies below a file. -/
def OrganizeSafe (rt : Runtime) : Layout → List Path → List WorkspaceMutationOp → Prop
  | _, _, [] => True
  | f, done, op :: rest =>
    ∀ s t, resolves rt op.sourcePath = .ok s → resolves rt op.destinationPath = .ok t →
      (f s = none → OrganizeSafe rt f done rest) ∧
      (f s ≠ none → (∀ q, q <+: t.dropLast → f.fileAt q = none) →
        (∀ r, f.fileAt (t ++ r) = none) ∧ (∀ t' ∈ done, Apart s t') ∧
          OrganizeSafe rt (f.move s t) (t :: done) rest)

/-- an operation of the plan moves `s` to `t` -/
def Planned (rt : Runtime) (ops : List WorkspaceMutationOp) (s t : Path) : Prop :=
  ∃ op ∈ ops, resolves rt op.sourcePath = .ok s ∧ resolves rt op.destinationPath = .ok t

theorem Planned.tail {op : WorkspaceMutationOp} {rest : List WorkspaceMutationOp} {s t : Path}
    (h : Planned rt rest s t) : Planned rt (op :: rest) s t := by
  obtain ⟨op', hop, hs, ht⟩ := h
  exact ⟨op', List.mem_cons_of_mem op hop, hs, ht⟩

/-- every file of `d` is still in `d'`, at its old path or where the plan moves it -/
def FilesKept (rt : Runtime) (ops : List WorkspaceMutationOp) (d d' : Disk) : Prop :=
  ∀ q c, d.fileAt q = some c → d'.fileAt q = some c ∨
    ∃ s t r, Planned rt ops s t ∧ q = s ++ r ∧ d'.fileAt (t ++ r) = some c

theorem FilesKept.refl (rt : Runtime) (ops : List WorkspaceMutationOp) (d : Disk) :
    FilesKept rt ops d d := fun _ _ h => Or.inl h

/-! ## the loop -/

theorem applyOperations_cons_ok {op : WorkspaceMutationOp} {rest : List WorkspaceMutationOp}
    {b : Bool} (h : Ok (applyOperation rt op) k b k') :
    (final (applyOperations rt (op :: rest)) k).disk =
      (final (applyOperations rt rest) k').disk := by
  rw [applyOperations, final_bind_of_ok h]
  cases hr : applyOperations rt rest k' with
  | ok l k2 =>
    rw [final_bind_of_ok hr, final_of_ok hr]
    rfl
  | error e k2 => rw [final_bind_of_err hr, final_of_err hr]

theorem applyOperations_cons_err {op : WorkspaceMutationOp} {rest : List WorkspaceMutationOp}
    {e : Fault} (h : Err (applyOperation rt op) k e k') :
    final (applyOperations rt (op :: rest)) k = k' := by
  rw [applyOperations, final_bind_of_err h]

theorem moveAt_ok_layout {s t : Path} {d d' : Disk} {u : Unit} (h : Ok (moveAt s t) d u d') :
    Apart s t ∧ (∀ q, q <+: t.dropLast → Layout.fileAt d.entry q = none) ∧
      d'.entry = Layout.move d.entry s t := by
  obtain ⟨ha, hno, he⟩ := moveAt_ok h
  refine ⟨ha, fun q hq => ?_, he⟩
  rw [fileAt_entry]
  exact hno q hq

/-- what the loop does to one file: it stays at a destination reached earlier; anywhere else it
stays or goes where the remaining plan moves it -/
theorem applyOperations_file (ops : List WorkspaceMutationOp) : ∀ (k : Kernel) (done : List Path),
    OrganizeSafe rt k.disk.entry done ops → ∀ q c, k.disk.fileAt q = some c →
      ((∃ t ∈ done, t <+: q) → (final (applyOperations rt ops) k).disk.fileAt q = some c) ∧
      ((final (applyOperations rt ops) k).disk.fileAt q = some c ∨
        ∃ s t r, Planned rt ops s t ∧ q = s ++ r ∧
          (final (applyOperations rt ops) k).disk.fileAt (t ++ r) = some c) := by
  induction ops with
  | nil => exact fun k done _ q c hq => ⟨fun _ => hq, Or.inl hq⟩
  | cons op rest ih =>
    intro k done hsafe q c hq
    cases hr : applyOperation rt op k with
    | error e k' =>
      -- the call stops here
      rw [applyOperations_cons_err hr]
      have hstay : k'.disk.fileAt q = some c := by
        rcases applyOperation_err hr with rfl | ⟨s, t, d, hs, ht, hx, hm, rfl⟩
        · exact hq
        · by_cases hno : ∀ p, p <+: t.dropLast → Layout.fileAt k.disk.entry p = none
          · obtain ⟨hfree, -, -⟩ := (hsafe s t hs ht).2 hx hno
            refine moveAt_err_keeps hm ?_ hq
            rintro ⟨r, rfl⟩
            have := hfree r
            rw [fileAt_entry, hq] at this
            cases this
          · have hno' : ¬ k.disk.NoFileTo t.dropLast := fun c => hno fun p hp => by
              rw [fileAt_entry]
              exact c p hp
            rw [moveAt_err_blocked hno' hm]
            exact hq
      exact ⟨fun _ => hstay, Or.inl hstay⟩
    | ok b k' =>
      rw [applyOperations_cons_ok hr]
      obtain ⟨s, t, hs, ht, hcase⟩ := applyOperation_ok hr
      rcases hcase with ⟨-, hn, rfl⟩ | ⟨-, hx, d, hm, rfl⟩
      · obtain ⟨h1, h2⟩ := ih k' done ((hsafe s t hs ht).1 hn) q c hq
        refine ⟨h1, h2.imp_right ?_⟩
        rintro ⟨s', t', r, hp, e, hf⟩
        exact ⟨s', t', r, hp.tail, e, hf⟩
      · obtain ⟨ha, hno, he⟩ := moveAt_ok_layout hm
        obtain ⟨hfree, hdone, hrest⟩ := (hsafe s t hs ht).2 hx hno
        rw [← he] at hrest
        have hnt : ¬ t <+: q := by
          rintro ⟨r, rfl⟩
          have := hfree r
          rw [fileAt_entry, hq] at this
          cases this
        have hstay : ¬ s <+: q → d.fileAt q = some c := fun hns => by
          rw [← fileAt_entry, he, Layout.move_fileAt hnt hns hno, fileAt_entry, hq]
        constructor
        · rintro ⟨t', ht', hq'⟩
          have hns : ¬ s <+: q := fun c' => (hdone t' ht').not_both c' hq'
          exact (ih { k with disk := d } (t :: done) hrest q c (hstay hns)).1
            ⟨t', List.mem_cons_of_mem t ht', hq'⟩
        · by_cases hsq : s <+: q
          · obtain ⟨r, rfl⟩ := hsq
            have hmoved : d.fileAt (t ++ r) = some c := by
              rw [← fileAt_entry, he, Layout.fileAt_congr (Layout.move_below _ s t r),
                fileAt_entry, hq]
            exact Or.inr ⟨s, t, r, ⟨op, List.mem_cons_self, hs, ht⟩, rfl,
              (ih { k with disk := d } (t :: done) hrest (t ++ r) c hmoved).1
                ⟨t, List.mem_cons_self, List.prefix_append ..⟩⟩
          · refine (ih { k with disk := d } (t :: done) hrest q c (hstay hsq)).2.imp_right ?_
            rintro ⟨s', t', r, hp, e, hf⟩
            exact ⟨s', t', r, hp.tail, e, hf⟩

theorem applyOperation_self {op : WorkspaceMutationOp} {s : Path}
    (hs : resolves rt op.sourcePath = .ok s) (ht : resolves rt op.destinationPath = .ok s)
    (hx : k.disk.entry s ≠ none) (hne : s ≠ []) :
    ∃ e d, Err (applyOperation rt op) k e { k with disk := d } ∧ d.entry s = none := by
  obtain ⟨e, d, hm, hd⟩ := moveAt_self hx hne
  refine ⟨e, d, ?_, hd⟩
  refine bind_err.mpr (Or.inr ⟨s, k, resolvePath_ok.mpr ⟨hs, rfl⟩, ?_⟩)
  refine bind_err.mpr (Or.inr ⟨s, k, resolvePath_ok.mpr ⟨ht, rfl⟩, ?_⟩)
  refine bind_err.mpr (Or.inr ⟨k, k, rfl, ?_⟩)
  rw [if_pos (Tree.exists_iff.mpr hx)]
  exact bind_err.mpr (Or.inl (onDisk_err.mpr ⟨d, hm, rfl⟩))

/-! ## one call -/

/-- `plan_organize` followed by `apply_organize_tx` of the plan it stored -/
def organize (rt : Runtime) (sourceSetRef destinationRoot : String) : KernelM Receipt := do
  let planned ← planOrganize rt sourceSetRef destinationRoot
  match planned.data.strAt? "organize_plan_ref" with
  | some ref => applyOrganizeTx rt ref
  | none => pure planned

/-- the operations planned for a stored source set -/
def plannedOperations (rt : Runtime) (sourceSetRef destinationRoot : String) (k : Kernel) :
    List WorkspaceMutationOp :=
  match readBlob rt sourceSetRef k with
  | .ok v => match sourceSetFiles v with
    | some files => planOperations files destinationRoot
    | none => []
  | .error _ => []

theorem plannedOperations_of_read {sourceSetRef destinationRoot : String} {v : Json}
    {files : List SourceSetFile} (h : readBlob rt sourceSetRef k = .ok v)
    (hv : sourceSetFiles v = some files) :
    plannedOperations rt sourceSetRef destinationRoot k = planOperations files destinationRoot := by
  rw [plannedOperations, h]
  simp only [hv]

theorem planOrganize_ok {sourceSetRef destinationRoot ref : String} {r : Receipt}
    (h : Ok (planOrganize rt sourceSetRef destinationRoot) k r k')
    (href : r.data.strAt? "organize_plan_ref" = some ref) :
    k'.disk = k.disk ∧ ∃ plan : WorkspaceOrganizePlan,
      plan.operations = plannedOperations rt sourceSetRef destinationRoot k ∧
      readBlob rt ref k' = .ok plan.toJson := by
  unfold planOrganize withCapability at h
  split at h
  · obtain ⟨files, k1, h1, g1⟩ := bind_ok.mp h
    obtain ⟨⟨v, hv, hfiles⟩, e1⟩ := readParsed_ok.mp h1
    subst e1
    obtain ⟨_, _, hg, g2⟩ := bind_ok.mp g1
    cases hg
    obtain ⟨planRef, k2, h2, g3⟩ := bind_ok.mp g2
    obtain ⟨previewRef, k3, h3, g4⟩ := bind_ok.mp g3
    obtain ⟨_, k4, h4, g5⟩ := bind_ok.mp g4
    cases g5
    obtain ⟨d2, b2⟩ := writeBlob_ok h2
    obtain ⟨d3, b3⟩ := writeBlob_ok h3
    obtain ⟨d4, b4⟩ := emitReceipt_ok h4
    let plan : WorkspaceOrganizePlan := ⟨"organize_plan_" ++ toString k1.clock, sourceSetRef,
      normalizeRel destinationRoot, planOperations files destinationRoot⟩
    refine ⟨d4.trans (d3.trans d2), plan, (plannedOperations_of_read hv hfiles).symm, ?_⟩
    rw [← Option.some.inj href]
    exact readBlob_stored (safeName_append (by decide) (safeName_toString _)) h2 h3 b4
  · obtain ⟨-, hdata, -, -⟩ := blockedReceipt_ok h
    rw [hdata] at href
    cases href

theorem applyOrganizeTx_disk {ref : String} {plan : WorkspaceOrganizePlan}
    (hcap : "workspace.apply_organize_tx" ∈ rt.capabilities)
    (hread : readBlob rt ref k = .ok plan.toJson) :
    ∃ k1 : Kernel, k1.disk = k.disk ∧ (final (applyOrganizeTx rt ref) k).disk =
      (final (applyOperations rt plan.operations) k1).disk := by
  have h1 : Ok (readParsed rt WorkspaceOrganizePlan.ofJson ref) k plan k :=
    readParsed_ok.mpr ⟨⟨_, hread, WorkspaceOrganizePlan.ofJson_toJson plan⟩, rfl⟩
  obtain ⟨txId, k1, h2⟩ := newTxId_total "workspace_organize" k
  refine ⟨k1, (newTxId_ok h2).2.1, ?_⟩
  rw [applyOrganizeTx, withCapability_of_mem hcap, final_bind_of_ok h1, final_bind_of_ok h2]
  refine final_bind_disk (fun l d => ?_) k1
  exact Keeps.bind (keepsDisk_recordBatch _ _ _ d) fun _ =>
    Keeps.bind (keepsDisk_emitEvent _ _ d) fun _ => Keeps.pure _ _

theorem organize_disk {sourceSetRef destinationRoot ref : String} {planned : Receipt} {k1 : Kernel}
    (hp : Ok (planOrganize rt sourceSetRef destinationRoot) k planned k1)
    (href : planned.data.strAt? "organize_plan_ref" = some ref)
    (hcap : "workspace.apply_organize_tx" ∈ rt.capabilities) :
    ∃ k2 : Kernel, k2.disk = k.disk ∧ (final (organize rt sourceSetRef destinationRoot) k).disk =
      (final (applyOperations rt (plannedOperations rt sourceSetRef destinationRoot k)) k2).disk := by
  obtain ⟨hd, plan, hops, hread⟩ := planOrganize_ok hp href
  obtain ⟨k2, hk2, he⟩ := applyOrganizeTx_disk hcap hread
  refine ⟨k2, hk2.trans hd, ?_⟩
  rw [organize, final_bind_of_ok hp, ← hops, ← he]
  simp only [href]

/-- **a safe call loses no file** -/
theorem organize_keeps {sourceSetRef destinationRoot : String}
    (hsafe : OrganizeSafe rt k.disk.entry []
      (plannedOperations rt sourceSetRef destinationRoot k)) :
    FilesKept rt (plannedOperations rt sourceSetRef destinationRoot k) k.disk
      (final (organize rt sourceSetRef destinationRoot) k).disk := by
  have hkeep : ∀ {d : Disk}, d = k.disk →
      FilesKept rt (plannedOperations rt sourceSetRef destinationRoot k) k.disk d := by
    rintro d rfl
    exact FilesKept.refl _ _ _
  cases hp : planOrganize rt sourceSetRef destinationRoot k with
  | error e k1 =>
    apply hkeep
    rw [organize, final_bind_of_err hp]
    exact (keepsDisk_planOrganize sourceSetRef destinationRoot _).of_err hp rfl
  | ok planned k1 =>
    have hd : k1.disk = k.disk := (keepsDisk_planOrganize sourceSetRef destinationRoot _).of_ok hp rfl
    cases href : planned.data.strAt? "organize_plan_ref" with
    | none =>
      apply hkeep
      rw [organize, final_bind_of_ok hp, ← hd]
      simp only [href]
      rfl
    | some ref =>
      by_cases hcap : "workspace.apply_organize_tx" ∈ rt.capabilities
      · obtain ⟨k2, hk2, he⟩ := organize_disk hp href hcap
        rw [he]
        intro q c hq
        rw [← hk2] at hq hsafe
        exact (applyOperations_file _ k2 [] hsafe q c hq).2
      · apply hkeep
        have he : applyOrganizeTx rt ref = blockedReceipt rt "workspace.apply_organize_tx"
            ("workspace.apply_organize_tx" ++ " not granted") := if_neg hcap
        rw [organize, final_bind_of_ok hp]
        simp only [href, he]
        exact (keepsDisk_blockedReceipt _ _ _ k1 rfl).trans hd

/-! ## runs -/

/-- one call of a run, between the states before and after it -/
structure OrganizeStep where
  before : Kernel
  sourceSetRef : String
  destinationRoot : String
  after : Kernel

/-- the operations the step's plan has -/
def OrganizeStep.operations (rt : Runtime) (st : OrganizeStep) : List WorkspaceMutationOp :=
  plannedOperations rt st.sourceSetRef st.destinationRoot st.before

/-- the steps of a run of calls, each at its time; a failed call does not end the run -/
def organizeTrace (rt : Runtime) : List (Nat × String × String) → Kernel → List OrganizeStep
  | [], _ => []
  | (now, sourceSetRef, destinationRoot) :: rest, k =>
    let before := { k with clock := now }
    let after := final (organize rt sourceSetRef destinationRoot) before
    ⟨before, sourceSetRef, destinationRoot, after⟩ :: organizeTrace rt rest after

/-- **in a run of safe calls no file is lost**: each call keeps every file of the tree it started
from, and every content there at the start of the run is there after every call -/
theorem organize_runs_keep (rt : Runtime) (calls : List (Nat × String × String)) (k : Kernel)
    (hsafe : ∀ st ∈ organizeTrace rt calls k,
      OrganizeSafe rt st.before.disk.entry [] (st.operations rt)) :
    ∀ st ∈ organizeTrace rt calls k,
      FilesKept rt (st.operations rt) st.before.disk st.after.disk ∧
      ∀ q c, k.disk.fileAt q = some c → ∃ q', st.after.disk.fileAt q' = some c := by
  induction calls generalizing k with
  | nil => exact fun st h => absurd h List.not_mem_nil
  | cons call rest ih =>
    obtain ⟨now, sourceSetRef, destinationRoot⟩ := call
    rw [organizeTrace] at hsafe ⊢
    have hfirst := organize_keeps (hsafe _ List.mem_cons_self)
    have hcontent : ∀ q c, k.disk.fileAt q = some c → ∃ q', (final (organize rt sourceSetRef
        destinationRoot) { k with clock := now }).disk.fileAt q' = some c := by
      intro q c hq
      rcases hfirst q c hq with h | ⟨s, t, r, -, -, h⟩
      · exact ⟨q, h⟩
      · exact ⟨t ++ r, h⟩
    intro st hst
    rcases List.mem_cons.mp hst with rfl | hst
    · exact ⟨hfirst, hcontent⟩
    · obtain ⟨h1, h2⟩ := ih _ (fun st h => hsafe st (List.mem_cons_of_mem _ h)) st hst
      refine ⟨h1, fun q c hq => ?_⟩
      obtain ⟨q', hq'⟩ := hcontent q c hq
      exact h2 q' c hq'

/-! ## a workspace with one file -/

/-- the stored form of a source set with one file -/
def sourceSetOf (path extension : String) : Json :=
  .obj [("files", .arr [.obj [("path", .str path), ("extension", .str extension),
    ("size_bytes", .num 1), ("modified_ms", .num 0)]])]

/-- a workspace with one file and a source set of it -/
def organizeKernel (path : Path) (relativePath extension : String) : Kernel :=
  { kernelOf [(path, [1])] with
    blobs := fun name => if name = "source_sets/s.json" then
      some (sourceSetOf relativePath extension) else none }

def organizeRuntime : Runtime :=
  { sampleRuntime with
    capabilities := ["workspace.plan_organize", "workspace.apply_organize_tx"] }

theorem organize_runs_keep_one :
    ∃ st ∈ organizeTrace organizeRuntime [(5, "blob://job/source_sets/s.json", "out")]
        (organizeKernel ["ws", "a.txt"] "a.txt" ".txt"),
      FilesKept organizeRuntime (st.operations organizeRuntime) st.before.disk st.after.disk ∧
      ∀ q c, (organizeKernel ["ws", "a.txt"] "a.txt" ".txt").disk.fileAt q = some c →
        ∃ q', st.after.disk.fileAt q' = some c := by
  refine ⟨_, List.mem_cons_self, organize_runs_keep organizeRuntime
    [(5, "blob://job/source_sets/s.json", "out")] _ (fun st hst => ?_) _ List.mem_cons_self⟩
  rw [organizeTrace, organizeTrace, List.mem_singleton] at hst
  subst hst
  have hops : OrganizeStep.operations organizeRuntime ⟨{ organizeKernel ["ws", "a.txt"] "a.txt"
      ".txt" with clock := 5 }, "blob://job/source_sets/s.json", "out", final (organize
      organizeRuntime "blob://job/source_sets/s.json" "out") { organizeKernel ["ws", "a.txt"]
      "a.txt" ".txt" with clock := 5 }⟩ = [⟨"a.txt", "out/a/txt/a.txt", "move"⟩] := by decide
  rw [hops]
  intro s t hs ht
  have hs' : resolves organizeRuntime "a.txt" = .ok ["ws", "a.txt"] := by decide
  have ht' : resolves organizeRuntime "out/a/txt/a.txt" = .ok ["ws", "out", "a", "txt", "a.txt"] :=
    by decide
  cases Except.ok.inj (hs'.symm.trans hs)
  cases Except.ok.inj (ht'.symm.trans ht)
  refine ⟨fun _ => trivial, fun _ _ => ⟨fun r => ?_, fun _ h => absurd h List.not_mem_nil,
    trivial⟩⟩
  rw [fileAt_entry]
  apply Tree.fileAt_of_none
  refine Tree.none_of_prefix _ (List.prefix_append _ r) ?_
  decide

/-- organizing a file that already stands at its destination loses it -/
theorem organize_twice_loses :
    ¬ FilesKept organizeRuntime
        (plannedOperations organizeRuntime "blob://job/source_sets/s.json" "out"
          (organizeKernel ["ws", "out", "a", "txt", "a.txt"] "out/a/txt/a.txt" ".txt"))
        (organizeKernel ["ws", "out", "a", "txt", "a.txt"] "out/a/txt/a.txt" ".txt").disk
        (final (organize organizeRuntime "blob://job/source_sets/s.json" "out")
          (organizeKernel ["ws", "out", "a", "txt", "a.txt"] "out/a/txt/a.txt" ".txt")).disk := by
  have hops : plannedOperations organizeRuntime "blob://job/source_sets/s.json" "out"
      (organizeKernel ["ws", "out", "a", "txt", "a.txt"] "out/a/txt/a.txt" ".txt") =
      [⟨"out/a/txt/a.txt", "out/a/txt/a.txt", "move"⟩] := by decide
  have hplan : okWith (fun r _ => (r.data.strAt? "organize_plan_ref").isSome)
      (planOrganize organizeRuntime "blob://job/source_sets/s.json" "out")
      (organizeKernel ["ws", "out", "a", "txt", "a.txt"] "out/a/txt/a.txt" ".txt") = true := by decide
  have hfile : (organizeKernel ["ws", "out", "a", "txt", "a.txt"] "out/a/txt/a.txt" ".txt").disk.fileAt
      ["ws", "out", "a", "txt", "a.txt"] = some [1] := by decide
  have hs : resolves organizeRuntime "out/a/txt/a.txt" = .ok ["ws", "out", "a", "txt", "a.txt"] := by
    decide
  obtain ⟨planned, k1, hp, hplan⟩ := okWith_iff.mp hplan
  obtain ⟨ref, href⟩ := Option.isSome_iff_exists.mp hplan
  obtain ⟨k2, hk2, he⟩ := organize_disk hp href (List.mem_cons_of_mem _ List.mem_cons_self)
  rw [hops] at he ⊢
  rw [← hk2] at hfile
  have hx : k2.disk.entry ["ws", "out", "a", "txt", "a.txt"] ≠ none := by
    rw [Tree.fileAt_eq_some.mp hfile]
    exact fun h => Option.some_ne_none _ h
  obtain ⟨e, d, herr, hgone⟩ := @applyOperation_self organizeRuntime k2
    ⟨"out/a/txt/a.txt", "out/a/txt/a.txt", "move"⟩ _ hs hs hx (List.cons_ne_nil _ _)
  rw [applyOperations_cons_err herr] at he
  intro hkept
  rw [he, ← hk2] at hkept
  rcases hkept _ _ hfile with h | ⟨s, t, r, ⟨op, hop, hs', ht'⟩, e, h⟩
  · rw [Tree.fileAt_of_none hgone] at h
    cases h
  · rw [List.mem_singleton] at hop
    subst hop
    cases Except.ok.inj (hs.symm.trans hs')
    cases Except.ok.inj (hs.symm.trans ht')
    rw [← e, Tree.fileAt_of_none hgone] at h
    cases h

end Data

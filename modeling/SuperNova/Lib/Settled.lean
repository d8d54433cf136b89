import SuperNova.Lib.Answers

/-!
# Logs in which every request is settled

A protocol over requests and answers: no id is requested twice, an answer is to an id that is open, and
in the end no id is open.

* `Settles.append`: what a settled log says about its two parts;
* `Settles.suffix` (**main**): a part of a settled log that answers nothing from before it is settled.
-/

set_option linter.unusedSectionVars false

namespace Answers

variable {ι : Type} [DecidableEq ι]

/-- the log settles all ids, when the ids of `opened` are open at its start and those of `closed` are
answered -/
def Settles : List ι → List ι → List (Mark ι) → Prop
  | opened, _, [] => opened = []
  | opened, closed, .request ids :: log =>
    ids.Nodup ∧ (∀ id ∈ ids, id ∉ opened ∧ id ∉ closed) ∧ Settles (opened ++ ids) closed log
  | opened, closed, .answer id :: log =>
    id ∈ opened ∧ Settles (opened.filter (· ≠ id)) (closed ++ [id]) log
  | opened, closed, .other :: log => Settles opened closed log

def Requested (id : ι) (log : List (Mark ι)) : Prop := ∃ ids, .request ids ∈ log ∧ id ∈ ids

section
variable {opened closed : List ι} {log l r : List (Mark ι)} {id : ι}

theorem requested_cons {m : Mark ι} :
    Requested id (m :: log) ↔ (∃ ids, m = .request ids ∧ id ∈ ids) ∨ Requested id log := by
  constructor
  · rintro ⟨ids, hmem, hid⟩
    rcases List.mem_cons.mp hmem with h | h
    · exact .inl ⟨ids, h.symm, hid⟩
    · exact .inr ⟨ids, h, hid⟩
  · rintro (⟨ids, rfl, hid⟩ | ⟨ids, hmem, hid⟩)
    · exact ⟨ids, List.mem_cons_self, hid⟩
    · exact ⟨ids, List.mem_cons_of_mem m hmem, hid⟩

theorem Settles.answered (h : Settles opened closed log) (hid : id ∈ opened) : .answer id ∈ log := by
  induction log generalizing opened closed with
  | nil =>
    have hnil : opened = [] := h
    rw [hnil] at hid
    exact absurd hid List.not_mem_nil
  | cons m log ih =>
    refine List.mem_cons.mpr ?_
    cases m with
    | request ids => exact .inr (ih h.2.2 (List.mem_append_left ids hid))
    | other => exact .inr (ih h hid)
    | answer id' =>
      by_cases hne : id = id'
      · exact .inl (congrArg Mark.answer hne)
      · exact .inr (ih h.2 (List.mem_filter.mpr ⟨hid, decide_eq_true hne⟩))

theorem Settles.weaken {closed' : List ι} (h : Settles opened closed log)
    (hsub : ∀ id ∈ closed', id ∈ closed) : Settles opened closed' log := by
  induction log generalizing opened closed closed' with
  | nil => exact h
  | cons m log ih =>
    cases m with
    | request ids =>
      obtain ⟨hnodup, hnew, hlog⟩ := h
      exact ⟨hnodup, fun id hid => ⟨(hnew id hid).1, fun hc => (hnew id hid).2 (hsub id hc)⟩,
        ih hlog hsub⟩
    | other => exact ih h hsub
    | answer id =>
      refine ⟨h.1, ih h.2 fun id' hid' => ?_⟩
      rcases List.mem_append.mp hid' with hold | hnew
      · exact List.mem_append_left _ (hsub id' hold)
      · exact List.mem_append_right _ hnew

theorem Settles.not_requested (h : Settles opened closed log) (hid : id ∈ opened ∨ id ∈ closed) :
    ¬ Requested id log := by
  induction log generalizing opened closed with
  | nil => exact fun ⟨ids, hmem, _⟩ => List.not_mem_nil hmem
  | cons m log ih =>
    rw [requested_cons]
    rintro (⟨ids, rfl, hmem⟩ | hlater)
    · have hnew := h.2.1 id hmem
      exact hid.elim hnew.1 hnew.2
    · cases m with
      | request ids => exact ih h.2.2 (hid.imp_left (List.mem_append_left ids)) hlater
      | other => exact ih h hid hlater
      | answer id' =>
        refine ih h.2 ?_ hlater
        by_cases hne : id = id'
        · exact .inr (List.mem_append_right _ (List.mem_singleton.mpr hne))
        · exact hid.imp (fun ho => List.mem_filter.mpr ⟨ho, decide_eq_true hne⟩)
            (List.mem_append_left _)

theorem Settles.append (h : Settles opened closed (l ++ r)) : ∃ opened' closed',
    Settles opened' closed' r ∧ (∀ id ∈ opened', id ∈ opened ∨ Requested id l) ∧
      (∀ id, id ∈ opened ∨ id ∈ closed ∨ Requested id l → id ∈ opened' ∨ id ∈ closed') ∧
      ∀ id, id ∈ closed ∨ .answer id ∈ l → id ∈ closed' := by
  induction l generalizing opened closed with
  | nil =>
    refine ⟨opened, closed, h, fun id => .inl, fun id hid => ?_, fun id hid => ?_⟩
    · rcases hid with ho | hc | ⟨ids, hmem, -⟩
      · exact .inl ho
      · exact .inr hc
      · exact absurd hmem List.not_mem_nil
    · exact hid.elim (fun hc => hc) fun hmem => absurd hmem List.not_mem_nil
  | cons m l ih =>
    rw [List.cons_append] at h
    cases m with
    | other =>
      obtain ⟨opened', closed', hr, ho, hrest, hc⟩ := ih h
      refine ⟨opened', closed', hr, fun id hid => ?_, fun id hid => ?_, fun id hid => ?_⟩
      · exact (ho id hid).imp_right fun hl => requested_cons.mpr (.inr hl)
      · refine hrest id (hid.imp_right (Or.imp_right fun hl => ?_))
        exact (requested_cons.mp hl).resolve_left fun ⟨ids, heq, _⟩ => nomatch heq
      · exact hc id (hid.imp_right fun hmem => by simpa using hmem)
    | request ids =>
      obtain ⟨opened', closed', hr, ho, hrest, hc⟩ := ih h.2.2
      refine ⟨opened', closed', hr, fun id hid => ?_, fun id hid => ?_, fun id hid => ?_⟩
      · rcases ho id hid with hid' | hl
        · rcases List.mem_append.mp hid' with hopen | hnew
          · exact .inl hopen
          · exact .inr ⟨ids, List.mem_cons_self, hnew⟩
        · exact .inr (requested_cons.mpr (.inr hl))
      · rcases hid with hopen | hclosed | hl
        · exact hrest id (.inl (List.mem_append_left _ hopen))
        · exact hrest id (.inr (.inl hclosed))
        · rcases requested_cons.mp hl with ⟨ids', heq, hid'⟩ | hl
          · cases heq
            exact hrest id (.inl (List.mem_append_right _ hid'))
          · exact hrest id (.inr (.inr hl))
      · exact hc id (hid.imp_right fun hmem => by simpa using hmem)
    | answer a =>
      obtain ⟨opened', closed', hr, ho, hrest, hc⟩ := ih h.2
      have ha : a ∈ closed' := hc a (.inl (List.mem_append_right _ (List.mem_singleton_self a)))
      refine ⟨opened', closed', hr, fun id hid => ?_, fun id hid => ?_, fun id hid => ?_⟩
      · exact (ho id hid).imp (fun hmem => (List.mem_filter.mp hmem).1) fun hl =>
          requested_cons.mpr (.inr hl)
      · by_cases hne : id = a
        · exact .inr (hne ▸ ha)
        · refine hrest id ?_
          rcases hid with hopen | hclosed | hl
          · exact .inl (List.mem_filter.mpr ⟨hopen, decide_eq_true hne⟩)
          · exact .inr (.inl (List.mem_append_left _ hclosed))
          · exact .inr (.inr ((requested_cons.mp hl).resolve_left fun ⟨ids, heq, _⟩ => nomatch heq))
      · rcases hid with hclosed | hmem
        · exact hc id (.inl (List.mem_append_left _ hclosed))
        · rcases List.mem_cons.mp hmem with heq | hmem
          · cases heq
            exact ha
          · exact hc id (.inr hmem)

theorem Settles.requested_of_answer (h : Settles opened closed (l ++ r)) (hid : .answer id ∈ l) :
    id ∈ opened ∨ Requested id l := by
  induction l generalizing opened closed with
  | nil => exact absurd hid List.not_mem_nil
  | cons m l ih =>
    rw [List.cons_append] at h
    rw [requested_cons]
    cases m with
    | other => exact (ih h (by simpa using hid)).imp_right .inr
    | request ids =>
      rcases ih h.2.2 (by simpa using hid) with hmem | hl
      · exact (List.mem_append.mp hmem).imp_right fun hnew => .inl ⟨ids, rfl, hnew⟩
      · exact .inr (.inr hl)
    | answer a =>
      rcases List.mem_cons.mp hid with heq | hmem
      · cases heq
        exact .inl h.1
      · exact (ih h.2 hmem).imp (fun hopen => (List.mem_filter.mp hopen).1) .inr

/-- **a suffix of a settled log** that answers no id requested before it is settled by itself -/
theorem Settles.suffix (h : Settles [] [] (l ++ r)) (hr : ∀ id, Requested id l → .answer id ∉ r) :
    Settles [] [] r := by
  obtain ⟨opened', closed', hsettles, hopened, -, -⟩ := h.append
  have hnil : opened' = [] := by
    refine List.eq_nil_iff_forall_not_mem.mpr fun id hid => ?_
    have hreq : Requested id l := (hopened id hid).resolve_left List.not_mem_nil
    exact hr id hreq (hsettles.answered hid)
  rw [hnil] at hsettles
  exact hsettles.weaken fun id hid => absurd hid List.not_mem_nil

theorem Settles.not_requested_after (h : Settles [] [] (l ++ r))
    (hl : Requested id l ∨ .answer id ∈ l) : ¬ Requested id r := by
  obtain ⟨opened', closed', hsettles, -, hrest, hclosed⟩ := h.append
  refine hsettles.not_requested ?_
  rcases hl with hreq | hans
  · exact hrest id (.inr (.inr hreq))
  · exact .inr (hclosed id (.inr hans))

end

end Answers

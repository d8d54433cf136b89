import Mathlib.Data.List.Infix

/-!
# Fallible programs that keep their state after an error

Programs are `EStateM ε σ α`: a failing program still returns the state it left behind.  The
rules used by every proof about such programs:

* `bind_ok`, `bind_err`: a sequence succeeds when both parts do, and it leaves the state of the
  part that failed (`result_bind_ok` is the rule for results without a state);
* `forM_total`: a loop over a list with an invariant on the part already done;
* `forM_ok_induct`: what each successful round keeps, a successful loop keeps;
* `Keeps`: a property of the state that a program keeps even when it fails, with one rule for each
  way to build a program;
* `Ends`: what holds after a success and what after an error, with the rule for sequences.
-/

namespace Io

variable {ε σ α β : Type}

/-- the program ends without an error, in state `s'` with value `a` -/
abbrev Ok (m : EStateM ε σ α) (s : σ) (a : α) (s' : σ) : Prop := m s = .ok a s'

/-- the program ends with error `e` and leaves state `s'` -/
abbrev Err (m : EStateM ε σ α) (s : σ) (e : ε) (s' : σ) : Prop := m s = .error e s'

/-- the state a program leaves, whether it fails or not -/
def final (m : EStateM ε σ α) (s : σ) : σ :=
  match m s with
  | .ok _ s' => s'
  | .error _ s' => s'

/-- whether the program ends without an error and its value and state pass a check -/
def okWith (p : α → σ → Bool) (m : EStateM ε σ α) (s : σ) : Bool :=
  match m s with
  | .ok a s' => p a s'
  | .error _ _ => false

/-- a partial step on the state as a program: an error leaves the state alone -/
def step (f : σ → Except ε σ) : EStateM ε σ Unit := fun s =>
  match f s with
  | .ok s' => .ok () s'
  | .error e => .error e s

/-- a result that does not depend on the state -/
def lift (r : Except ε α) : EStateM ε σ α := fun s =>
  match r with
  | .ok a => .ok a s
  | .error e => .error e s

/-- a value in place of an error; what the program did stays -/
def unwrapOr (m : EStateM ε σ α) (a : α) : EStateM ε σ α := fun s =>
  match m s with
  | .ok b s' => .ok b s'
  | .error _ s' => .ok a s'

@[simp] theorem pure_apply (a : α) (s : σ) : (pure a : EStateM ε σ α) s = .ok a s := rfl

@[simp] theorem throw_apply (e : ε) (s : σ) : (throw e : EStateM ε σ α) s = .error e s := rfl

@[simp] theorem get_apply (s : σ) : (get : EStateM ε σ σ) s = .ok s s := rfl

@[simp] theorem modify_apply (f : σ → σ) (s : σ) :
    (modify f : EStateM ε σ PUnit) s = .ok ⟨⟩ (f s) := rfl

theorem bind_apply (x : EStateM ε σ α) (f : α → EStateM ε σ β) (s : σ) :
    (x >>= f) s = match x s with
      | .ok a s' => f a s'
      | .error e s' => .error e s' := rfl

theorem bind_of_ok {x : EStateM ε σ α} {f : α → EStateM ε σ β} {s s' : σ} {a : α}
    (h : Ok x s a s') : (x >>= f) s = f a s' := by
  rw [bind_apply, h]

theorem bind_of_err {x : EStateM ε σ α} {f : α → EStateM ε σ β} {s s' : σ} {e : ε}
    (h : Err x s e s') : (x >>= f) s = .error e s' := by
  rw [bind_apply, h]

theorem okWith_iff {p : α → σ → Bool} {m : EStateM ε σ α} {s : σ} :
    okWith p m s = true ↔ ∃ a s', Ok m s a s' ∧ p a s' = true := by
  unfold okWith
  constructor
  · intro h
    cases hm : m s with
    | ok a s' => exact ⟨a, s', hm, by rwa [hm] at h⟩
    | error e s' =>
      rw [hm] at h
      cases h
  · rintro ⟨a, s', hm, h⟩
    rw [hm]
    exact h

theorem bind_ok {x : EStateM ε σ α} {f : α → EStateM ε σ β} {s s'' : σ} {b : β} :
    Ok (x >>= f) s b s'' ↔ ∃ a s', Ok x s a s' ∧ Ok (f a) s' b s'' := by
  constructor
  · intro h
    cases hx : x s with
    | ok a s' => exact ⟨a, s', hx, by rwa [Ok, bind_of_ok hx] at h⟩
    | error e s' => rw [Ok, bind_of_err hx] at h; cases h
  · rintro ⟨a, s', hx, hf⟩
    rw [Ok, bind_of_ok hx]
    exact hf

theorem bind_err {x : EStateM ε σ α} {f : α → EStateM ε σ β} {s s'' : σ} {e : ε} :
    Err (x >>= f) s e s'' ↔ Err x s e s'' ∨ ∃ a s', Ok x s a s' ∧ Err (f a) s' e s'' := by
  constructor
  · intro h
    cases hx : x s with
    | ok a s' => exact Or.inr ⟨a, s', hx, by rwa [Err, bind_of_ok hx] at h⟩
    | error e' s' =>
      rw [Err, bind_of_err hx] at h
      cases h
      exact Or.inl hx
  · rintro (hx | ⟨a, s', hx, hf⟩)
    · exact bind_of_err hx
    · rw [Err, bind_of_ok hx]
      exact hf

@[simp] theorem step_ok {f : σ → Except ε σ} {s s' : σ} {u : Unit} :
    Ok (step f) s u s' ↔ f s = .ok s' := by
  unfold Ok step
  cases f s <;> simp

theorem step_err {f : σ → Except ε σ} {s s' : σ} {e : ε} (h : Err (step f) s e s') : s' = s := by
  unfold Err step at h
  cases hf : f s with
  | ok s1 =>
    rw [hf] at h
    cases h
  | error e1 =>
    rw [hf] at h
    cases h
    rfl

theorem step_of_ok {f : σ → Except ε σ} {s s' : σ} (h : f s = .ok s') :
    step f s = .ok () s' := by
  rw [step, h]

theorem step_of_error {f : σ → Except ε σ} {s : σ} {e : ε} (h : f s = .error e) :
    step f s = .error e s := by
  rw [step, h]

@[simp] theorem lift_ok {r : Except ε α} {s s' : σ} {a : α} :
    Ok (lift r) s a s' ↔ r = .ok a ∧ s' = s := by
  unfold Ok lift
  cases r <;> simp [eq_comm]

@[simp] theorem lift_err {r : Except ε α} {s s' : σ} {e : ε} :
    Err (lift r) s e s' ↔ r = .error e ∧ s' = s := by
  unfold Err lift
  cases r <;> simp [eq_comm]

theorem result_bind_ok {x : Except ε α} {f : α → Except ε β} {b : β} :
    x >>= f = .ok b ↔ ∃ a, x = .ok a ∧ f a = .ok b := by
  cases x with
  | error e => exact iff_of_false (fun h => nomatch h) fun ⟨_, h, _⟩ => nomatch h
  | ok a => exact ⟨fun h => ⟨a, rfl, h⟩, fun ⟨_, ha, h⟩ => Except.ok.inj ha ▸ h⟩

theorem final_of_ok {m : EStateM ε σ α} {s s' : σ} {a : α} (h : Ok m s a s') :
    final m s = s' := by
  rw [final, h]

theorem final_of_err {m : EStateM ε σ α} {s s' : σ} {e : ε} (h : Err m s e s') :
    final m s = s' := by
  rw [final, h]

theorem final_bind_of_ok {x : EStateM ε σ α} {f : α → EStateM ε σ β} {s s' : σ} {a : α}
    (h : Ok x s a s') : final (x >>= f) s = final (f a) s' := by
  rw [final, bind_of_ok h, final]

theorem final_bind_of_err {x : EStateM ε σ α} {f : α → EStateM ε σ β} {s s' : σ} {e : ε}
    (h : Err x s e s') : final (x >>= f) s = s' := by
  rw [final, bind_of_err h]

theorem unwrapOr_ok (m : EStateM ε σ α) (a : α) (s : σ) :
    ∃ b, Ok (unwrapOr m a) s b (final m s) := by
  unfold Ok unwrapOr final
  cases m s with
  | ok b s' => exact ⟨b, rfl⟩
  | error e s' => exact ⟨a, rfl⟩

/-! ## loops over a list -/

theorem forM_cons (f : α → EStateM ε σ PUnit) (a : α) (l : List α) :
    (a :: l).forM f = f a >>= fun _ => l.forM f := rfl

theorem forM_cons_ok {f : α → EStateM ε σ PUnit} {a : α} {l : List α} {s s'' : σ} {u : PUnit} :
    Ok ((a :: l).forM f) s u s'' ↔ ∃ s', Ok (f a) s ⟨⟩ s' ∧ Ok (l.forM f) s' u s'' := by
  rw [forM_cons, bind_ok]
  constructor
  · rintro ⟨u', s', h1, h2⟩
    exact ⟨s', h1, h2⟩
  · rintro ⟨s', h1, h2⟩
    exact ⟨⟨⟩, s', h1, h2⟩

theorem forM_ends {f : α → EStateM ε σ PUnit} (I : List α → σ → Prop) (e : ε) (todo : List α) :
    ∀ (done : List α) (s : σ), I done s →
      (∀ d x r s, done ++ todo = d ++ x :: r → I d s →
        (∃ s', Ok (f x) s ⟨⟩ s' ∧ I (d ++ [x]) s') ∨ ∃ s', Err (f x) s e s') →
      (∃ s', Ok (todo.forM f) s ⟨⟩ s' ∧ I (done ++ todo) s') ∨ ∃ s', Err (todo.forM f) s e s' := by
  induction todo with
  | nil => exact fun done s h _ => Or.inl ⟨s, rfl, by rwa [List.append_nil]⟩
  | cons x r ih =>
    intro done s h hstep
    rcases hstep done x r s rfl h with ⟨s1, h1, i1⟩ | ⟨s1, h1⟩
    · have e : done ++ x :: r = (done ++ [x]) ++ r := by simp
      rcases ih (done ++ [x]) s1 i1 (fun d y r' s e' => hstep d y r' s (e ▸ e')) with ⟨s2, h2, i2⟩ | ⟨s2, h2⟩
      · exact Or.inl ⟨s2, forM_cons_ok.mpr ⟨s1, h1, h2⟩, e ▸ i2⟩
      · exact Or.inr ⟨s2, bind_err.mpr (Or.inr ⟨_, s1, h1, h2⟩)⟩
    · exact Or.inr ⟨s1, bind_err.mpr (Or.inl h1)⟩

theorem forM_total {f : α → EStateM ε σ PUnit} (I : List α → σ → Prop) (todo : List α) :
    ∀ (done : List α) (s : σ), I done s →
      (∀ d x r s, done ++ todo = d ++ x :: r → I d s →
        ∃ s', Ok (f x) s ⟨⟩ s' ∧ I (d ++ [x]) s') →
      ∃ s', Ok (todo.forM f) s ⟨⟩ s' ∧ I (done ++ todo) s' := by
  induction todo with
  | nil => exact fun done s h _ => ⟨s, rfl, by rwa [List.append_nil]⟩
  | cons x r ih =>
    intro done s h hstep
    obtain ⟨s1, h1, i1⟩ := hstep done x r s rfl h
    have e : done ++ x :: r = (done ++ [x]) ++ r := by simp
    obtain ⟨s2, h2, i2⟩ := ih (done ++ [x]) s1 i1 (fun d y r' s e' => hstep d y r' s (e ▸ e'))
    exact ⟨s2, forM_cons_ok.mpr ⟨s1, h1, h2⟩, e ▸ i2⟩

theorem forM_ok_mono {f g : α → EStateM ε σ PUnit} (l : List α)
    (hstep : ∀ x ∈ l, ∀ s s', Ok (f x) s ⟨⟩ s' → Ok (g x) s ⟨⟩ s') :
    ∀ {s s' : σ}, Ok (l.forM f) s ⟨⟩ s' → Ok (l.forM g) s ⟨⟩ s' := by
  induction l with
  | nil => exact fun h => h
  | cons a l ih =>
    intro s s' h
    obtain ⟨s1, h1, h2⟩ := forM_cons_ok.mp h
    exact forM_cons_ok.mpr ⟨s1, hstep a List.mem_cons_self s s1 h1,
      ih (fun x hx => hstep x (List.mem_cons_of_mem a hx)) h2⟩

theorem forM_ok_induct {f : α → EStateM ε σ PUnit} {P : σ → Prop} (l : List α)
    (hstep : ∀ x ∈ l, ∀ s s', Ok (f x) s ⟨⟩ s' → P s → P s') :
    ∀ {s s' : σ}, Ok (l.forM f) s ⟨⟩ s' → P s → P s' := by
  induction l with
  | nil =>
    intro s s' h hp
    cases h
    exact hp
  | cons a l ih =>
    intro s s' h hp
    obtain ⟨s1, h1, h2⟩ := forM_cons_ok.mp h
    exact ih (fun x hx => hstep x (List.mem_cons_of_mem a hx)) h2
      (hstep a List.mem_cons_self s s1 h1 hp)

theorem forM_ok_mem {f : α → EStateM ε σ PUnit} {P : σ → Prop} (l : List α)
    (hstep : ∀ x ∈ l, ∀ s s', Ok (f x) s ⟨⟩ s' → P s → P s') {x : α} (hx : x ∈ l) :
    ∀ {s s' : σ}, Ok (l.forM f) s ⟨⟩ s' → P s → ∃ s1 s2, P s1 ∧ Ok (f x) s1 ⟨⟩ s2 := by
  induction l with
  | nil => exact absurd hx List.not_mem_nil
  | cons a l ih =>
    intro s s' h hp
    obtain ⟨s1, h1, h2⟩ := forM_cons_ok.mp h
    rcases List.mem_cons.mp hx with rfl | hx
    · exact ⟨s, s1, hp, h1⟩
    · exact ih (fun x hx => hstep x (List.mem_cons_of_mem a hx)) hx h2
        (hstep a List.mem_cons_self s s1 h1 hp)

/-! ## what a program keeps, whether it fails or not -/

/-- the program keeps `P`, also when it fails -/
def Keeps (P : σ → Prop) (m : EStateM ε σ α) : Prop := ∀ s, P s → P (final m s)

theorem Keeps.pure (P : σ → Prop) (a : α) : Keeps P (pure a : EStateM ε σ α) := fun _ h => h

theorem Keeps.throw (P : σ → Prop) (e : ε) : Keeps P (throw e : EStateM ε σ α) := fun _ h => h

theorem Keeps.get (P : σ → Prop) : Keeps P (get : EStateM ε σ σ) := fun _ h => h

theorem Keeps.lift {P : σ → Prop} (r : Except ε α) : Keeps P (lift r : EStateM ε σ α) := by
  intro s h
  cases r with
  | ok a => exact h
  | error e => exact h

theorem Keeps.modify {P : σ → Prop} {f : σ → σ} (h : ∀ s, P s → P (f s)) :
    Keeps P (modify f : EStateM ε σ PUnit) := h

theorem Keeps.step {P : σ → Prop} {f : σ → Except ε σ} (h : ∀ s s', f s = .ok s' → P s → P s') :
    Keeps P (step f) := by
  intro s hp
  cases hf : f s with
  | ok s' =>
    rw [final_of_ok (step_of_ok hf)]
    exact h s s' hf hp
  | error e =>
    rw [final_of_err (step_of_error hf)]
    exact hp

theorem Keeps.bind {P : σ → Prop} {x : EStateM ε σ α} {f : α → EStateM ε σ β} (hx : Keeps P x)
    (hf : ∀ a, Keeps P (f a)) : Keeps P (x >>= f) := by
  intro s hp
  have h1 := hx s hp
  cases hr : x s with
  | ok a s' =>
    rw [final_of_ok hr] at h1
    rw [final_bind_of_ok hr]
    exact hf a s' h1
  | error e s' =>
    rw [final_of_err hr] at h1
    rw [final_bind_of_err hr]
    exact h1

theorem Keeps.forM {P : σ → Prop} {f : α → EStateM ε σ PUnit} (l : List α)
    (h : ∀ x ∈ l, Keeps P (f x)) : Keeps P (l.forM f) := by
  induction l with
  | nil => exact fun _ hp => hp
  | cons a l ih =>
    rw [forM_cons]
    exact Keeps.bind (h a List.mem_cons_self) fun _ =>
      ih fun x hx => h x (List.mem_cons_of_mem a hx)

theorem Keeps.ite {P : σ → Prop} {c : Prop} [Decidable c] {x y : EStateM ε σ α} (hx : Keeps P x)
    (hy : Keeps P y) : Keeps P (if c then x else y) := by
  split
  · exact hx
  · exact hy

theorem Keeps.of_ok {P : σ → Prop} {m : EStateM ε σ α} (h : Keeps P m) {s s' : σ} {a : α}
    (hm : Ok m s a s') (hp : P s) : P s' := by
  have := h s hp
  rwa [final_of_ok hm] at this

theorem Keeps.of_err {P : σ → Prop} {m : EStateM ε σ α} (h : Keeps P m) {s s' : σ} {e : ε}
    (hm : Err m s e s') (hp : P s) : P s' := by
  have := h s hp
  rwa [final_of_err hm] at this

/-! ## what holds at the end -/

/-- from `s` the program ends in a success with `Q`, or in an error with `E` -/
def Ends (m : EStateM ε σ α) (s : σ) (Q : α → σ → Prop) (E : σ → Prop) : Prop :=
  match m s with
  | .ok a s' => Q a s'
  | .error _ s' => E s'

theorem Ends.of_ok {m : EStateM ε σ α} {s s' : σ} {a : α} {Q : α → σ → Prop} {E : σ → Prop}
    (h : Ok m s a s') (hq : Q a s') : Ends m s Q E := by
  rw [Ends, h]
  exact hq

theorem Ends.of_err {m : EStateM ε σ α} {s s' : σ} {e : ε} {Q : α → σ → Prop} {E : σ → Prop}
    (h : Err m s e s') (he : E s') : Ends m s Q E := by
  rw [Ends, h]
  exact he

theorem Ends.ok {m : EStateM ε σ α} {s s' : σ} {a : α} {Q : α → σ → Prop} {E : σ → Prop}
    (h : Ends m s Q E) (hm : Ok m s a s') : Q a s' := by
  rwa [Ends, hm] at h

theorem Ends.err {m : EStateM ε σ α} {s s' : σ} {e : ε} {Q : α → σ → Prop} {E : σ → Prop}
    (h : Ends m s Q E) (hm : Err m s e s') : E s' := by
  rwa [Ends, hm] at h

theorem Ends.of_keeps {m : EStateM ε σ α} {s : σ} {P : σ → Prop} (h : Keeps P m) (hs : P s) :
    Ends m s (fun _ => P) P := by
  cases hm : m s with
  | ok a s' => exact Ends.of_ok hm (h.of_ok hm hs)
  | error e s' => exact Ends.of_err hm (h.of_err hm hs)

theorem Ends.pure {a : α} {s : σ} {Q : α → σ → Prop} {E : σ → Prop} (h : Q a s) :
    Ends (pure a : EStateM ε σ α) s Q E := h

theorem Ends.throw {e : ε} {s : σ} {Q : α → σ → Prop} {E : σ → Prop} (h : E s) :
    Ends (throw e : EStateM ε σ α) s Q E := h

theorem Ends.bind {x : EStateM ε σ α} {f : α → EStateM ε σ β} {s : σ} {Q : α → σ → Prop}
    {R : β → σ → Prop} {E : σ → Prop} (hx : Ends x s Q E)
    (hf : ∀ a s', Q a s' → Ends (f a) s' R E) : Ends (x >>= f) s R E := by
  cases hr : x s with
  | ok a s' =>
    have := hf a s' (hx.ok hr)
    rwa [Ends, bind_of_ok hr]
  | error e s' =>
    rw [Ends, bind_of_err hr]
    exact hx.err hr

theorem Ends.bind_run {x : EStateM ε σ α} {f : α → EStateM ε σ β} {s : σ} {R : β → σ → Prop}
    {E : σ → Prop} (herr : ∀ e s', Err x s e s' → E s')
    (hok : ∀ a s', Ok x s a s' → Ends (f a) s' R E) : Ends (x >>= f) s R E := by
  cases hr : x s with
  | ok a s' => rw [Ends, bind_of_ok hr]; exact hok a s' hr
  | error e s' => rw [Ends, bind_of_err hr]; exact herr e s' hr

theorem Ends.get_bind {f : σ → EStateM ε σ β} {s : σ} {R : β → σ → Prop} {E : σ → Prop}
    (h : Ends (f s) s R E) : Ends (get >>= f) s R E := h

theorem Ends.set {s s' : σ} {Q : PUnit → σ → Prop} {E : σ → Prop} (h : Q ⟨⟩ s') :
    Ends (set s' : EStateM ε σ PUnit) s Q E := h

theorem Ends.set_bind {m : EStateM ε σ β} {s s' : σ} {R : β → σ → Prop} {E : σ → Prop}
    (h : Ends m s' R E) : Ends (do MonadStateOf.set s'; m) s R E := h

theorem Ends.lift {r : Except ε α} {s : σ} {Q : α → σ → Prop} {E : σ → Prop}
    (hok : ∀ a, r = .ok a → Q a s) (herr : ∀ e, r = .error e → E s) : Ends (lift r) s Q E := by
  cases r with
  | ok a => exact hok a rfl
  | error e => exact herr e rfl

theorem Ends.final {m : EStateM ε σ α} {s : σ} {E : σ → Prop} (h : Ends m s (fun _ => E) E) :
    E (final m s) := by
  unfold Ends at h
  unfold Io.final
  cases hm : m s <;> rw [hm] at h <;> exact h

theorem Ends.mono {m : EStateM ε σ α} {s : σ} {Q R : α → σ → Prop} {E F : σ → Prop}
    (h : Ends m s Q E) (hq : ∀ a s', Q a s' → R a s') (he : ∀ s', E s' → F s') : Ends m s R F := by
  cases hm : m s with
  | ok a s' => exact Ends.of_ok hm (hq a s' (h.ok hm))
  | error e s' => exact Ends.of_err hm (he s' (h.err hm))

theorem Ends.forM {f : α → EStateM ε σ PUnit} {I E : σ → Prop} (l : List α)
    (hstep : ∀ x ∈ l, ∀ s, I s → Ends (f x) s (fun _ => I) E) :
    ∀ {s : σ}, I s → Ends (l.forM f) s (fun _ => I) E := by
  induction l with
  | nil => exact fun h => h
  | cons a l ih =>
    intro s h
    rw [forM_cons]
    exact Ends.bind (hstep a List.mem_cons_self s h) fun _ s' h' =>
      ih (fun x hx => hstep x (List.mem_cons_of_mem a hx)) h'

end Io

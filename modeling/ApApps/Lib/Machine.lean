import Mathlib

/- State machines whose steps are computations that may raise.

   A computation is an `EStateM ε σ α`: it returns a value or raises an error, and
   has changed the state in both cases. `Within R B` bounds what a computation does:
   if it returns, the states before and after are related by `R`; if it raises `e`,
   it got as far as a state that satisfies `B e`. With a reflexive and transitive `R`
   the bound is closed under sequencing (`within_bind`), so the bound of a program is
   put together from the bounds of its atomic steps.

   `runAll` runs a list of inputs, `Along Q` says that `Q` holds at every step that
   is taken. `run_invariant` and `run_error` are the two rules for one run, and
   `runAll_filter` compares a run with the one that leaves some of the inputs out. -/
namespace Exec

universe u v w

/-! ## Sequencing -/

section Sequencing
variable {ε σ α β : Type u}

theorem bind_of_ok {x : EStateM ε σ α} {f : α → EStateM ε σ β} {s s' : σ} {a : α}
    (h : x s = .ok a s') : (x >>= f) s = f a s' := by
  show EStateM.bind x f s = f a s'
  simp only [EStateM.bind, h]

theorem bind_of_error {x : EStateM ε σ α} {f : α → EStateM ε σ β} {s s' : σ} {e : ε}
    (h : x s = .error e s') : (x >>= f) s = .error e s' := by
  show EStateM.bind x f s = .error e s'
  simp only [EStateM.bind, h]

/-- A first part that does from `s` what another one does from `s1`. -/
theorem bind_of_eq {x y : EStateM ε σ α} {s s1 : σ} (h : x s = y s1) (f : α → EStateM ε σ β) :
    (x >>= f) s = (y >>= f) s1 := by
  show EStateM.bind x f s = EStateM.bind y f s1
  simp only [EStateM.bind, h]

/-- A sequence returns if both of its parts do. -/
theorem bind_eq_ok {x : EStateM ε σ α} {f : α → EStateM ε σ β} {s s' : σ} {b : β} :
    (x >>= f) s = .ok b s' ↔ ∃ a s1, x s = .ok a s1 ∧ f a s1 = .ok b s' := by
  cases h : x s with
  | ok a s1 =>
    rw [bind_of_ok h]
    constructor
    · intro hf
      exact ⟨a, s1, rfl, hf⟩
    · rintro ⟨a', s1', heq, hf⟩
      cases heq
      exact hf
  | error e s1 =>
    rw [bind_of_error h]
    constructor
    · intro hf
      cases hf
    · rintro ⟨a', s1', heq, _⟩
      cases heq

/-- A sequence raises in its first part or, after that, in its second. -/
theorem bind_eq_error {x : EStateM ε σ α} {f : α → EStateM ε σ β} {s s' : σ} {e : ε} :
    (x >>= f) s = .error e s' ↔
      x s = .error e s' ∨ ∃ a s1, x s = .ok a s1 ∧ f a s1 = .error e s' := by
  cases h : x s with
  | ok a s1 =>
    rw [bind_of_ok h]
    constructor
    · intro hf
      exact .inr ⟨a, s1, rfl, hf⟩
    · rintro (heq | ⟨a', s1', heq, hf⟩)
      · cases heq
      · cases heq
        exact hf
  | error e' s1 =>
    rw [bind_of_error h]
    constructor
    · intro hf
      cases hf
      exact .inl rfl
    · rintro (heq | ⟨a', s1', heq, _⟩)
      · cases heq
        rfl
      · cases heq

/-- Two ways to go on that agree where they are taken. -/
theorem bind_congr_ok {x : EStateM ε σ α} {f g : α → EStateM ε σ β} {s : σ}
    (h : ∀ a s1, x s = .ok a s1 → f a s1 = g a s1) : (x >>= f) s = (x >>= g) s := by
  cases hx : x s with
  | ok a s1 => rw [bind_of_ok hx, bind_of_ok hx, h a s1 hx]
  | error e s1 => rw [bind_of_error hx, bind_of_error hx]

/-- The state a computation leaves behind, whether it returns or raises. -/
def finalState : EStateM.Result ε σ α → σ
  | .ok _ s => s
  | .error _ s => s

/-- The value a computation returns, if it returns. -/
def returned : EStateM.Result ε σ α → Option α
  | .ok a _ => some a
  | .error _ _ => none

theorem eq_ok_of_returned {r : EStateM.Result ε σ α} {a : α} (h : returned r = some a) :
    r = .ok a (finalState r) := by
  cases r with
  | ok b s =>
    cases h
    rfl
  | error e s => cases h

theorem get_ok {ε σ : Type u} (s : σ) : (get : EStateM ε σ σ) s = .ok s s := rfl

theorem modify_ok {ε σ : Type} (f : σ → σ) (s : σ) : (modify f : EStateM ε σ Unit) s = .ok () (f s) := rfl

end Sequencing

/-! ## Bounds on what a computation does -/

section Bounds
variable {ε σ α β : Type u}

/-- From `s`, `x` returns in a state related to `s` by `R`, or raises an error `e`
after a state related to `s` that satisfies `B e`. -/
def WithinAt (R : σ → σ → Prop) (B : ε → σ → Prop) (x : EStateM ε σ α) (s : σ) : Prop :=
  (∀ a s', x s = .ok a s' → R s s') ∧ (∀ e s', x s = .error e s' → ∃ s1, R s s1 ∧ B e s1)

/-- `WithinAt` from every state. -/
def Within (R : σ → σ → Prop) (B : ε → σ → Prop) (x : EStateM ε σ α) : Prop :=
  ∀ s, WithinAt R B x s

variable {R : σ → σ → Prop} {B : ε → σ → Prop}

theorem withinAt_of_ok {x : EStateM ε σ α} {s s' : σ} {a : α} (h : x s = .ok a s') (hR : R s s') :
    WithinAt R B x s := by
  refine ⟨fun a' s1 h1 => ?_, fun e s1 h1 => ?_⟩
  · rw [h] at h1
    cases h1
    exact hR
  · rw [h] at h1
    cases h1

theorem withinAt_of_error {x : EStateM ε σ α} {s s1 s' : σ} {e : ε} (h : x s = .error e s')
    (hR : R s s1) (hB : B e s1) : WithinAt R B x s := by
  refine ⟨fun a' s2 h2 => ?_, fun e' s2 h2 => ?_⟩
  · rw [h] at h2
    cases h2
  · rw [h] at h2
    cases h2
    exact ⟨s1, hR, hB⟩

theorem within_pure (hrefl : ∀ s, R s s) (a : α) : Within R B (pure a : EStateM ε σ α) :=
  fun s => withinAt_of_ok rfl (hrefl s)

/-- A step to `s1` and then a bound from there. -/
theorem WithinAt.after {x : EStateM ε σ α} {y : EStateM ε σ α} {s s1 : σ}
    (htrans : ∀ ⦃s1 s2 s3⦄, R s1 s2 → R s2 s3 → R s1 s3) (hR : R s s1) (hxy : x s = y s1)
    (hy : WithinAt R B y s1) : WithinAt R B x s := by
  refine ⟨fun a s' h => htrans hR (hy.1 a s' (hxy ▸ h)), fun e s' h => ?_⟩
  obtain ⟨s2, h2, hB⟩ := hy.2 e s' (hxy ▸ h)
  exact ⟨s2, htrans hR h2, hB⟩

theorem WithinAt.bind (htrans : ∀ ⦃s1 s2 s3⦄, R s1 s2 → R s2 s3 → R s1 s3)
    {x : EStateM ε σ α} {f : α → EStateM ε σ β} {s : σ} (hx : WithinAt R B x s)
    (hf : ∀ a s1, x s = .ok a s1 → WithinAt R B (f a) s1) : WithinAt R B (x >>= f) s := by
  cases h : x s with
  | ok a s1 =>
    have hfa := hf a s1 h
    have hR := hx.1 a s1 h
    rw [WithinAt, bind_of_ok h]
    refine ⟨fun b s' hb => htrans hR (hfa.1 b s' hb), fun e s' he => ?_⟩
    obtain ⟨s2, h2, hB⟩ := hfa.2 e s' he
    exact ⟨s2, htrans hR h2, hB⟩
  | error e s1 =>
    obtain ⟨s2, h2, hB⟩ := hx.2 e s1 h
    exact withinAt_of_error (bind_of_error h) h2 hB

theorem within_bind (htrans : ∀ ⦃s1 s2 s3⦄, R s1 s2 → R s2 s3 → R s1 s3)
    {x : EStateM ε σ α} {f : α → EStateM ε σ β} (hx : Within R B x) (hf : ∀ a, Within R B (f a)) :
    Within R B (x >>= f) := fun s => (hx s).bind htrans (fun a s1 _ => hf a s1)

/-- A bound may be widened. -/
theorem WithinAt.mono {R' : σ → σ → Prop} {B' : ε → σ → Prop} (hR : ∀ ⦃s1 s2⦄, R s1 s2 → R' s1 s2)
    (hB : ∀ ⦃e s⦄, B e s → B' e s) {x : EStateM ε σ α} {s : σ} (h : WithinAt R B x s) :
    WithinAt R' B' x s := by
  refine ⟨fun a s' hx => hR (h.1 a s' hx), fun e s' hx => ?_⟩
  obtain ⟨s1, h1, h2⟩ := h.2 e s' hx
  exact ⟨s1, hR h1, hB h2⟩

end Bounds

/-! ## Runs -/

section Runs
variable {ε σ : Type} {ι : Type v}

/-- Take the steps of the inputs one after the other. -/
def runAll (step : ι → EStateM ε σ Unit) : List ι → EStateM ε σ Unit
  | [] => pure ()
  | i :: is => step i >>= fun _ => runAll step is

/-- `Q` holds of every input and the state it is handled in, as far as the run gets. -/
def Along (step : ι → EStateM ε σ Unit) (Q : σ → ι → Prop) : σ → List ι → Prop
  | _, [] => True
  | s, i :: is => Q s i ∧ ∀ s', step i s = .ok () s' → Along step Q s' is

variable {step : ι → EStateM ε σ Unit} {Q : σ → ι → Prop}

theorem runAll_cons_ok {i : ι} {is : List ι} {s s' : σ} :
    runAll step (i :: is) s = .ok () s' ↔
      ∃ s1, step i s = .ok () s1 ∧ runAll step is s1 = .ok () s' := by
  rw [runAll, bind_eq_ok]
  constructor
  · rintro ⟨⟨⟩, s1, h1, h2⟩
    exact ⟨s1, h1, h2⟩
  · rintro ⟨s1, h1, h2⟩
    exact ⟨(), s1, h1, h2⟩

theorem runAll_append_ok {is js : List ι} {s s' : σ} :
    runAll step (is ++ js) s = .ok () s' ↔
      ∃ s1, runAll step is s = .ok () s1 ∧ runAll step js s1 = .ok () s' := by
  induction is generalizing s with
  | nil =>
    constructor
    · intro h
      exact ⟨s, rfl, h⟩
    · rintro ⟨s1, h1, h2⟩
      cases h1
      exact h2
  | cons i is ih =>
    rw [List.cons_append, runAll_cons_ok]
    constructor
    · rintro ⟨s1, h1, h2⟩
      obtain ⟨s2, h3, h4⟩ := ih.mp h2
      exact ⟨s2, runAll_cons_ok.mpr ⟨s1, h1, h3⟩, h4⟩
    · rintro ⟨s2, h3, h4⟩
      obtain ⟨s1, h1, h2⟩ := runAll_cons_ok.mp h3
      exact ⟨s1, h1, ih.mpr ⟨s2, h2, h4⟩⟩

/-- A run that raises does so in one of its steps. -/
theorem run_error {is : List ι} {s s' : σ} {e : ε} (h : runAll step is s = .error e s') :
    ∃ pre i post s1, is = pre ++ i :: post ∧ runAll step pre s = .ok () s1 ∧
      step i s1 = .error e s' := by
  induction is generalizing s with
  | nil => cases h
  | cons i is ih =>
    rw [runAll] at h
    rcases bind_eq_error.mp h with hstep | ⟨⟨⟩, s1, hstep, hrest⟩
    · exact ⟨[], i, is, s, rfl, rfl, hstep⟩
    · obtain ⟨pre, j, post, s2, rfl, hpre, hj⟩ := ih hrest
      exact ⟨i :: pre, j, post, s2, rfl, runAll_cons_ok.mpr ⟨s1, hstep, hpre⟩, hj⟩

theorem along_true (is : List ι) {s : σ} : Along step (fun _ _ => True) s is := by
  induction is generalizing s with
  | nil => trivial
  | cons i is ih => exact ⟨trivial, fun _ _ => ih⟩

/-- The inputs of a run are in its list of inputs. -/
theorem along_mem (is : List ι) {s : σ} : Along step (fun _ i => i ∈ is) s is := by
  have hsub : ∀ (js : List ι) (s : σ), (∀ j ∈ js, j ∈ is) → Along step (fun _ i => i ∈ is) s js := by
    intro js
    induction js with
    | nil => exact fun s _ => trivial
    | cons j js ih =>
      intro s hjs
      obtain ⟨hj, hjs⟩ := List.forall_mem_cons.mp hjs
      exact ⟨hj, fun s' _ => ih s' hjs⟩
  exact hsub is s fun j hj => hj

theorem Along.mono {Q' : σ → ι → Prop} (hQ : ∀ s i, Q s i → Q' s i) {is : List ι} {s : σ}
    (h : Along step Q s is) : Along step Q' s is := by
  induction is generalizing s with
  | nil => trivial
  | cons i is ih => exact ⟨hQ s i h.1, fun s' hs => ih (h.2 s' hs)⟩

theorem Along.and {Q' : σ → ι → Prop} {is : List ι} {s : σ} (h : Along step Q s is)
    (h' : Along step Q' s is) : Along step (fun s i => Q s i ∧ Q' s i) s is := by
  induction is generalizing s with
  | nil => trivial
  | cons i is ih => exact ⟨⟨h.1, h'.1⟩, fun s' hs => ih (h.2 s' hs) (h'.2 s' hs)⟩

/-- What holds along a run holds at each of its steps. -/
theorem Along.at_step {pre : List ι} {i : ι} {post : List ι} {s s1 : σ}
    (h : Along step Q s (pre ++ i :: post)) (hpre : runAll step pre s = .ok () s1) : Q s1 i := by
  induction pre generalizing s with
  | nil =>
    cases hpre
    exact h.1
  | cons j pre ih =>
    obtain ⟨s2, hj, hrest⟩ := runAll_cons_ok.mp hpre
    exact ih (h.2 s2 hj) hrest

/-- What holds along a run holds along the rest of it. -/
theorem Along.after {pre post : List ι} {s s1 : σ} (h : Along step Q s (pre ++ post))
    (hpre : runAll step pre s = .ok () s1) : Along step Q s1 post := by
  induction pre generalizing s with
  | nil =>
    cases hpre
    exact h
  | cons j pre ih =>
    obtain ⟨s2, hj, hrest⟩ := runAll_cons_ok.mp hpre
    exact ih (h.2 s2 hj) hrest

theorem Along.prefix {pre post : List ι} {s : σ} (h : Along step Q s (pre ++ post)) :
    Along step Q s pre := by
  induction pre generalizing s with
  | nil => trivial
  | cons j pre ih => exact ⟨h.1, fun s' hs => ih (h.2 s' hs)⟩

/-- `Along`, computed. -/
def alongCheck (step : ι → EStateM ε σ Unit) (p : σ → ι → Bool) : σ → List ι → Bool
  | _, [] => true
  | s, i :: is => p s i &&
    match step i s with
    | .ok () s' => alongCheck step p s' is
    | .error _ _ => true

theorem along_of_check {p : σ → ι → Bool} {is : List ι} {s : σ} (h : alongCheck step p s is = true) :
    Along step (fun s i => p s i = true) s is := by
  induction is generalizing s with
  | nil => trivial
  | cons i is ih =>
    rw [alongCheck, Bool.and_eq_true] at h
    refine ⟨h.1, fun s' hs' => ih ?_⟩
    have hrest := h.2
    rw [hs'] at hrest
    exact hrest

/-- **An invariant of every step is an invariant of every run.** -/
theorem run_invariant {I : σ → Prop}
    (hstep : ∀ s i s', I s → Q s i → step i s = .ok () s' → I s') {is : List ι} {s s' : σ}
    (h0 : I s) (hQ : Along step Q s is) (h : runAll step is s = .ok () s') : I s' := by
  induction is generalizing s with
  | nil =>
    cases h
    exact h0
  | cons i is ih =>
    obtain ⟨s1, hi, hrest⟩ := runAll_cons_ok.mp h
    exact ih (hstep s i s1 h0 hQ.1 hi) (hQ.2 s1 hi) hrest

/-- Two properties of a step that say the same wherever the invariant holds say the same of
every run. -/
theorem along_iff {I : σ → Prop} {P P' : σ → ι → Prop}
    (hstep : ∀ s i s', I s → Q s i → step i s = .ok () s' → I s')
    (hiff : ∀ s i, I s → Q s i → (P s i ↔ P' s i)) {is : List ι} {s : σ} (h0 : I s)
    (hQ : Along step Q s is) : Along step P s is ↔ Along step P' s is := by
  induction is generalizing s with
  | nil => rfl
  | cons i is ih =>
    refine and_congr (hiff s i h0 hQ.1) (forall_congr' fun s1 => ?_)
    constructor
    · intro h hi
      exact (ih (hstep s i s1 h0 hQ.1 hi) (hQ.2 s1 hi)).mp (h hi)
    · intro h hi
      exact (ih (hstep s i s1 h0 hQ.1 hi) (hQ.2 s1 hi)).mpr (h hi)

/-! ## What holds whether a run returns or raises -/

section Always
variable {α β : Type} {I : σ → Prop}

theorem always_of_error {x : EStateM ε σ α} {s s' : σ} {e : ε} (h : x s = .error e s') (hI : I s') :
    I (finalState (x s)) := by
  rw [h]
  exact hI

/-- A sequence leaves what its first part leaves if that raises, and what its second part leaves
if not. -/
theorem always_bind {x : EStateM ε σ α} {f : α → EStateM ε σ β} {s : σ} (hx : I (finalState (x s)))
    (hf : ∀ a s1, x s = .ok a s1 → I (finalState (f a s1))) : I (finalState ((x >>= f) s)) := by
  cases h : x s with
  | ok a s1 =>
    rw [bind_of_ok h]
    exact hf a s1 h
  | error e s1 =>
    rw [h] at hx
    exact always_of_error (bind_of_error h) hx

/-- What every step keeps, returning or raising, holds at the end of every run. -/
theorem always_run (hstep : ∀ s i, I s → Q s i → I (finalState (step i s))) {is : List ι} {s : σ}
    (h0 : I s) (hQ : Along step Q s is) : I (finalState (runAll step is s)) := by
  induction is generalizing s with
  | nil => exact h0
  | cons i is ih =>
    have hnext := hstep s i h0 hQ.1
    refine always_bind hnext fun _ s1 hs1 => ?_
    rw [hs1] at hnext
    exact ih hnext (hQ.2 s1 hs1)

end Always

/-! ## Runs without some of their inputs -/

theorem finalState_cons_ok {i : ι} {is : List ι} {s s1 : σ} (h : step i s = .ok () s1) :
    finalState (runAll step (i :: is) s) = finalState (runAll step is s1) := by
  rw [runAll, bind_of_ok h]

theorem finalState_cons_error {i : ι} {is : List ι} {s s1 : σ} {e : ε} (h : step i s = .error e s1) :
    finalState (runAll step (i :: is) s) = s1 := by
  rw [runAll, bind_of_error h, finalState]

/-- What a step never undoes holds at the end if it ever holds. -/
theorem along_persistent {α : Type} {I : σ → Prop} {p : α → σ → Prop}
    (hI : ∀ s i s', I s → Q s i → step i s = .ok () s' → I s')
    (hp : ∀ s i a, I s → Q s i → p a s → p a (finalState (step i s))) {is : List ι} {s : σ}
    (h0 : I s) (hQ : Along step Q s is) :
    (∀ a, p a s → p a (finalState (runAll step is s))) ∧
      Along step (fun s1 i => Q s1 i ∧
        ∀ a, p a (finalState (step i s1)) → p a (finalState (runAll step is s))) s is := by
  induction is generalizing s with
  | nil => exact ⟨fun a ha => ha, trivial⟩
  | cons i is ih =>
    cases hi : step i s with
    | error e s1 =>
      have hend : finalState (step i s) = s1 := by rw [hi, finalState]
      rw [finalState_cons_error hi]
      refine ⟨fun a ha => hend ▸ hp s i a h0 hQ.1 ha, ⟨hQ.1, fun a ha => hend ▸ ha⟩, ?_⟩
      intro s' hs'
      rw [hi] at hs'
      cases hs'
    | ok u s1 =>
      have hend : finalState (step i s) = s1 := by rw [hi, finalState]
      obtain ⟨hlast, halong⟩ := ih (hI s i s1 h0 hQ.1 hi) (hQ.2 s1 hi)
      rw [finalState_cons_ok hi]
      refine ⟨fun a ha => hlast a (hend ▸ hp s i a h0 hQ.1 ha),
        ⟨hQ.1, fun a ha => hlast a (hend ▸ ha)⟩, ?_⟩
      intro s' hs'
      rw [hi] at hs'
      cases hs'
      exact halong

/-- **Two runs, one without the inputs that are not kept.** `R` relates the states of
the two runs: a kept input keeps it on both sides, or ends both runs in states related
by `F`; any other input keeps it on the first side alone. -/
theorem runAll_filter {keep : ι → Bool} {R F : σ → σ → Prop} (hRF : ∀ s s', R s s' → F s s')
    (hkeep : ∀ s s' i, R s s' → Q s i → keep i = true →
      (∃ s1 s1', step i s = .ok () s1 ∧ step i s' = .ok () s1' ∧ R s1 s1') ∨
        ∃ e e' s1 s1', step i s = .error e s1 ∧ step i s' = .error e' s1' ∧ F s1 s1')
    (hdrop : ∀ s s' i, R s s' → Q s i → keep i = false → ∃ s1, step i s = .ok () s1 ∧ R s1 s')
    {is : List ι} {s s' : σ} (h : R s s') (hQ : Along step Q s is) :
    F (finalState (runAll step is s)) (finalState (runAll step (is.filter keep) s')) := by
  induction is generalizing s s' with
  | nil => exact hRF s s' h
  | cons i is ih =>
    cases hk : keep i with
    | true =>
      rw [List.filter_cons_of_pos hk]
      rcases hkeep s s' i h hQ.1 hk with ⟨s1, s1', h1, h1', hR⟩ | ⟨e, e', s1, s1', h1, h1', hF⟩
      · rw [finalState_cons_ok h1, finalState_cons_ok h1']
        exact ih hR (hQ.2 s1 h1)
      · rw [finalState_cons_error h1, finalState_cons_error h1']
        exact hF
    | false =>
      rw [List.filter_cons_of_neg (by simp [hk])]
      obtain ⟨s1, h1, hR⟩ := hdrop s s' i h hQ.1 hk
      rw [finalState_cons_ok h1]
      exact ih hR (hQ.2 s1 h1)

end Runs

end Exec

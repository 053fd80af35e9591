import Mathlib

/- Resumable scanners and the loop that drives one over a growing buffer.

   A scanner reads a prefix of a buffer and answers `done` with what it read and
   the rest of the buffer, `incomplete` when the buffer ends too early, or
   `invalid`. It is `Stable` when bytes that arrive later never change a verdict
   already given. Stability is closed under sequencing (`stable_bind`), so a
   scanner built from stable pieces is stable.

   `drain` is the loop of a receiver: as long as a whole frame is in the buffer,
   take it off and hand it to the state. `drain_append` says that for stable
   verdicts the way the stream is cut into reads does not matter. -/
namespace Incremental

universe u v

/-- The verdict of a scanner. -/
inductive Scan (α : Type u) where
  | done (a : α)
  | incomplete
  | invalid
  deriving DecidableEq, Repr

namespace Scan

/-- Go on with what has been read; the other two verdicts end the scan. -/
def bind {α : Type u} {β : Type v} (x : Scan α) (f : α → Scan β) : Scan β :=
  match x with
  | .done a => f a
  | .incomplete => .incomplete
  | .invalid => .invalid

@[simp] theorem bind_done {α : Type u} {β : Type v} (a : α) (f : α → Scan β) :
    (Scan.done a).bind f = f a := rfl

@[simp] theorem bind_incomplete {α : Type u} {β : Type v} (f : α → Scan β) :
    (Scan.incomplete : Scan α).bind f = .incomplete := rfl

@[simp] theorem bind_invalid {α : Type u} {β : Type v} (f : α → Scan β) :
    (Scan.invalid : Scan α).bind f = .invalid := rfl

theorem bind_eq_done {α : Type u} {β : Type v} {x : Scan α} {f : α → Scan β} {b : β} :
    x.bind f = .done b ↔ ∃ a, x = .done a ∧ f a = .done b := by
  cases x <;> simp

theorem bind_eq_invalid {α : Type u} {β : Type v} {x : Scan α} {f : α → Scan β} :
    x.bind f = .invalid ↔ x = .invalid ∨ ∃ a, x = .done a ∧ f a = .invalid := by
  cases x <;> simp

end Scan

section Stability
variable {α : Type u} {β : Type v} {γ : Type u}

/-- A scanner's verdicts `done` and `invalid` stand whatever follows, and what it
leaves is an end of what it was given. -/
structure Stable (f : List β → Scan (α × List β)) : Prop where
  done_append : ∀ {s a r}, f s = .done (a, r) → ∀ t, f (s ++ t) = .done (a, r ++ t)
  invalid_append : ∀ {s}, f s = .invalid → ∀ t, f (s ++ t) = .invalid
  rest_suffix : ∀ {s a r}, f s = .done (a, r) → r <:+ s

theorem stable_done (a : α) : Stable (fun s : List β => Scan.done (a, s)) where
  done_append := by
    intro s a' r h t
    simp only [Scan.done.injEq, Prod.mk.injEq] at h ⊢
    exact ⟨h.1, by rw [h.2]⟩
  invalid_append := by
    intro s h
    cases h
  rest_suffix := by
    intro s a' r h
    simp only [Scan.done.injEq, Prod.mk.injEq] at h
    rw [h.2]

theorem stable_incomplete : Stable (fun _ : List β => (Scan.incomplete : Scan (α × List β))) where
  done_append := by
    intro s a r h
    cases h
  invalid_append := by
    intro s h
    cases h
  rest_suffix := by
    intro s a r h
    cases h

theorem stable_invalid : Stable (fun _ : List β => (Scan.invalid : Scan (α × List β))) where
  done_append := by
    intro s a r h
    cases h
  invalid_append := fun _ _ => rfl
  rest_suffix := by
    intro s a r h
    cases h

/-- Running one stable scanner after another is stable. -/
theorem stable_bind {f : List β → Scan (α × List β)} {g : α → List β → Scan (γ × List β)}
    (hf : Stable f) (hg : ∀ a, Stable (g a)) :
    Stable (fun s => (f s).bind fun p => g p.1 p.2) where
  done_append := by
    intro s b r h t
    obtain ⟨⟨a, q⟩, hfs, hgs⟩ := Scan.bind_eq_done.mp h
    rw [hf.done_append hfs t]
    exact (hg a).done_append hgs t
  invalid_append := by
    intro s h t
    rcases Scan.bind_eq_invalid.mp h with hfs | ⟨⟨a, q⟩, hfs, hgs⟩
    · rw [hf.invalid_append hfs t]
      rfl
    · rw [hf.done_append hfs t]
      exact (hg a).invalid_append hgs t
  rest_suffix := by
    intro s b r h
    obtain ⟨⟨a, q⟩, hfs, hgs⟩ := Scan.bind_eq_done.mp h
    exact ((hg a).rest_suffix hgs).trans (hf.rest_suffix hfs)

/-- A scanner that needs one symbol and goes on stably after it. -/
theorem stable_cons {f : List β → Scan (α × List β)} (h0 : f [] = .incomplete)
    {g : β → List β → Scan (α × List β)} (hf : ∀ c s, f (c :: s) = g c s)
    (hg : ∀ c, Stable (g c)) : Stable f where
  done_append := by
    intro s a r h t
    cases s with
    | nil => rw [h0] at h; cases h
    | cons c s =>
      rw [hf] at h
      rw [List.cons_append, hf]
      exact (hg c).done_append h t
  invalid_append := by
    intro s h t
    cases s with
    | nil => rw [h0] at h; cases h
    | cons c s =>
      rw [hf] at h
      rw [List.cons_append, hf]
      exact (hg c).invalid_append h t
  rest_suffix := by
    intro s a r h
    cases s with
    | nil => rw [h0] at h; cases h
    | cons c s =>
      rw [hf] at h
      exact ((hg c).rest_suffix h).trans (List.suffix_cons c s)

/-- A scanner that looks at the next symbol and then reads from it on. -/
theorem stable_peek {f : List β → Scan (α × List β)} (h0 : f [] = .incomplete)
    {g : β → List β → Scan (α × List β)} (hf : ∀ c s, f (c :: s) = g c (c :: s))
    (hg : ∀ c, Stable (g c)) : Stable f where
  done_append := by
    intro s a r h t
    cases s with
    | nil => rw [h0] at h; cases h
    | cons c s =>
      rw [hf] at h
      rw [List.cons_append, hf]
      exact (hg c).done_append h t
  invalid_append := by
    intro s h t
    cases s with
    | nil => rw [h0] at h; cases h
    | cons c s =>
      rw [hf] at h
      rw [List.cons_append, hf]
      exact (hg c).invalid_append h t
  rest_suffix := by
    intro s a r h
    cases s with
    | nil => rw [h0] at h; cases h
    | cons c s =>
      rw [hf] at h
      exact (hg c).rest_suffix h

/-- The choice between two stable scanners that does not depend on the buffer. -/
theorem stable_ite {c : Prop} [Decidable c] {f g : List β → Scan (α × List β)}
    (hf : Stable f) (hg : Stable g) : Stable (fun s => if c then f s else g s) := by
  by_cases h : c
  · simpa only [h, if_true] using hf
  · simpa only [h, if_false] using hg

end Stability

/-! ## The receive loop -/

/-- What handling one frame does: go on in a new state, or stop. -/
inductive Flow (σ : Type u) (ρ : Type v) where
  | next (s : σ)
  | stop (r : ρ)

/-- How the receive loop ends: waiting for more input with some of it unread, at a
frame that is no frame, or stopped by the handler. -/
inductive Drained (σ : Type u) (ρ : Type v) (β : Type) where
  | waiting (s : σ) (rest : List β)
  | broken (s : σ) (rest : List β)
  | stopped (r : ρ) (rest : List β)

/-- Verdicts on a buffer: `done p` means that its first `p` symbols are a frame. A
frame is not empty, and no verdict on a non-empty buffer changes as it grows. -/
structure StableVerdict {β : Type} (v : List β → Scan Nat) : Prop where
  ready_pos : ∀ {s p}, v s = .done p → 0 < p
  ready_le : ∀ {s p}, v s = .done p → p ≤ s.length
  ready_append : ∀ {s p}, v s = .done p → ∀ t, v (s ++ t) = .done p
  invalid_append : ∀ {s}, s ≠ [] → v s = .invalid → ∀ t, v (s ++ t) = .invalid

/-- Before the last symbol of a frame has arrived there is no verdict. -/
theorem StableVerdict.incomplete_of_done {β : Type} {v : List β → Scan Nat} (hv : StableVerdict v) {s t : List β}
    {p : Nat} (hs : s ≠ []) (h : v (s ++ t) = .done p) (hp : s.length < p) : v s = .incomplete := by
  cases hvs : v s with
  | incomplete => rfl
  | invalid =>
    have hinvalid := hv.invalid_append hs hvs t
    rw [h] at hinvalid
    cases hinvalid
  | done p' =>
    have hdone := hv.ready_append hvs t
    rw [h] at hdone
    cases hdone
    have hle := hv.ready_le hvs
    omega

section Drain
variable {σ : Type u} {ρ : Type v} {β : Type}

/-- Handle the frames of the buffer, at most `fuel` of them. -/
def drain (v : List β → Scan Nat) (handle : σ → List β → Flow σ ρ) :
    Nat → σ → List β → Drained σ ρ β
  | 0, s, buf => .waiting s buf
  | fuel + 1, s, buf =>
    match buf with
    | [] => .waiting s []
    | b :: bs =>
      match v (b :: bs) with
      | .incomplete => .waiting s (b :: bs)
      | .invalid => .broken s (b :: bs)
      | .done p =>
        match handle s ((b :: bs).take p) with
        | .next s' => drain v handle fuel s' ((b :: bs).drop p)
        | .stop r => .stopped r ((b :: bs).drop p)

variable {v : List β → Scan Nat} {handle : σ → List β → Flow σ ρ}

/-- A buffer longer than its fuel is never needed: every frame takes a symbol. -/
theorem drain_fuel (hv : StableVerdict v) : ∀ (fuel fuel' : Nat) (s : σ) (buf : List β),
    buf.length ≤ fuel → buf.length ≤ fuel' →
    drain v handle fuel s buf = drain v handle fuel' s buf := by
  intro fuel
  induction fuel with
  | zero =>
    intro fuel' s buf h _
    have hb : buf = [] := List.eq_nil_of_length_eq_zero (by omega)
    subst hb
    cases fuel' <;> rfl
  | succ fuel ih =>
    intro fuel' s buf h h'
    cases buf with
    | nil => cases fuel' <;> rfl
    | cons b bs =>
      obtain ⟨fuel', rfl⟩ : ∃ n, fuel' = n + 1 := by
        cases fuel' with
        | zero => simp at h'
        | succ n => exact ⟨n, rfl⟩
      simp only [drain]
      cases hb : v (b :: bs) with
      | incomplete => rfl
      | invalid => rfl
      | done p =>
        have hp := hv.ready_pos hb
        simp only
        cases handle s ((b :: bs).take p) with
        | stop r => rfl
        | next s' =>
          apply ih
          · simp only [List.length_drop]; omega
          · simp only [List.length_drop]; omega

/-- The whole receive loop on a buffer. -/
def drainAll (v : List β → Scan Nat) (handle : σ → List β → Flow σ ρ) (s : σ) (buf : List β) :
    Drained σ ρ β :=
  drain v handle buf.length s buf

theorem drainAll_nil (s : σ) : drainAll v handle s [] = .waiting s [] := rfl

/-- One turn of the loop. -/
theorem drainAll_step (hv : StableVerdict v) (s : σ) {buf : List β} (hb : buf ≠ []) :
    drainAll v handle s buf =
      match v buf with
      | .incomplete => .waiting s buf
      | .invalid => .broken s buf
      | .done p =>
        match handle s (buf.take p) with
        | .next s' => drainAll v handle s' (buf.drop p)
        | .stop r => .stopped r (buf.drop p) := by
  cases buf with
  | nil => exact absurd rfl hb
  | cons b bs =>
    simp only [drainAll, List.length_cons, drain]
    cases h : v (b :: bs) with
    | incomplete => rfl
    | invalid => rfl
    | done p =>
      have hp := hv.ready_pos h
      simp only
      cases handle s ((b :: bs).take p) with
      | stop r => rfl
      | next s' =>
        apply drain_fuel hv
        · simp only [List.length_drop, List.length_cons]; omega
        · exact Nat.le_refl _

end Drain

end Incremental

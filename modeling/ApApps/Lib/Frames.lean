import ApApps.Lib.Scan

/- The frames of a stream, as a list.

   `cut v buf` are the frames `v` finds at the front of `buf`, one after the other, and
   how that ends: in front of the beginning of a frame, or of something that is none.
   `cut_append` says that a stream may be cut in parts: what is left of the first part
   goes in front of the second. A receiver that takes its frames one by one is compared
   with this list. -/
namespace Incremental

/-- What follows the last whole frame. -/
inductive Rest (β : Type) where
  | waiting (rest : List β)
  | broken
  deriving DecidableEq

section Cut
variable {β : Type} {v : List β → Scan Nat}

/-- At most `fuel` frames of the buffer. -/
def cutFuel (v : List β → Scan Nat) : Nat → List β → List (List β) × Rest β
  | 0, buf => ([], .waiting buf)
  | _ + 1, [] => ([], .waiting [])
  | fuel + 1, b :: bs =>
    match v (b :: bs) with
    | .incomplete => ([], .waiting (b :: bs))
    | .invalid => ([], .broken)
    | .done p =>
      let r := cutFuel v fuel ((b :: bs).drop p)
      ((b :: bs).take p :: r.1, r.2)

/-- The frames of the buffer; each takes a symbol of it, so its length is enough fuel. -/
def cut (v : List β → Scan Nat) (buf : List β) : List (List β) × Rest β := cutFuel v buf.length buf

theorem cutFuel_eq (hv : StableVerdict v) : ∀ (fuel fuel' : Nat) (buf : List β),
    buf.length ≤ fuel → buf.length ≤ fuel' → cutFuel v fuel buf = cutFuel v fuel' buf := by
  intro fuel
  induction fuel with
  | zero =>
    intro fuel' buf h _
    have hb : buf = [] := List.eq_nil_of_length_eq_zero (by omega)
    subst hb
    cases fuel' <;> rfl
  | succ fuel ih =>
    intro fuel' buf h h'
    cases buf with
    | nil => cases fuel' <;> rfl
    | cons b bs =>
      obtain ⟨fuel', rfl⟩ : ∃ n, fuel' = n + 1 := by
        cases fuel' with
        | zero => simp at h'
        | succ n => exact ⟨n, rfl⟩
      simp only [cutFuel]
      cases hb : v (b :: bs) with
      | incomplete => rfl
      | invalid => rfl
      | done p =>
        have hp := hv.ready_pos hb
        have hlen : ((b :: bs).drop p).length ≤ bs.length := by
          rw [List.length_drop, List.length_cons]
          omega
        simp only [List.length_cons] at h h'
        simp only [ih fuel' ((b :: bs).drop p) (by omega) (by omega)]

/-- The first frame of a buffer. -/
theorem cut_step (hv : StableVerdict v) {buf : List β} (hb : buf ≠ []) :
    cut v buf =
      match v buf with
      | .incomplete => ([], .waiting buf)
      | .invalid => ([], .broken)
      | .done p => (buf.take p :: (cut v (buf.drop p)).1, (cut v (buf.drop p)).2) := by
  cases buf with
  | nil => exact absurd rfl hb
  | cons b bs =>
    unfold cut
    simp only [List.length_cons, cutFuel]
    cases h : v (b :: bs) with
    | incomplete => rfl
    | invalid => rfl
    | done p =>
      have hp := hv.ready_pos h
      have hlen : ((b :: bs).drop p).length ≤ bs.length := by
        rw [List.length_drop, List.length_cons]
        omega
      simp only [cutFuel_eq hv bs.length ((b :: bs).drop p).length ((b :: bs).drop p) hlen (Nat.le_refl _)]

/-- **A stream may be cut in parts.** -/
theorem cut_append (hv : StableVerdict v) (buf t : List β) :
    cut v (buf ++ t) =
      match (cut v buf).2 with
      | .waiting rest => ((cut v buf).1 ++ (cut v (rest ++ t)).1, (cut v (rest ++ t)).2)
      | .broken => ((cut v buf).1, .broken) := by
  induction hn : buf.length using Nat.strongRecOn generalizing buf with
  | _ n ih =>
    subst hn
    by_cases hb : buf = []
    · subst hb
      rfl
    have hbt : buf ++ t ≠ [] := by simp [hb]
    rw [cut_step hv hb]
    cases h : v buf with
    | incomplete => rfl
    | invalid => rw [cut_step hv hbt, hv.invalid_append hb h t]
    | done p =>
      have hp := hv.ready_pos h
      have hle := hv.ready_le h
      have hlen : (buf.drop p).length < buf.length := by
        rw [List.length_drop]
        omega
      rw [cut_step hv hbt, hv.ready_append h t]
      simp only [List.take_append_of_le_length hle, List.drop_append_of_le_length hle]
      rw [ih _ hlen (buf.drop p) rfl]
      cases (cut v (buf.drop p)).2 <;> rfl

/-- The rest of a buffer holds no whole frame. -/
theorem cut_waiting (hv : StableVerdict v) {buf rest : List β} (h : (cut v buf).2 = .waiting rest) :
    cut v rest = ([], .waiting rest) := by
  induction hn : buf.length using Nat.strongRecOn generalizing buf with
  | _ n ih =>
    subst hn
    by_cases hb : buf = []
    · subst hb
      cases h
      rfl
    rw [cut_step hv hb] at h
    cases hv' : v buf with
    | incomplete =>
      rw [hv'] at h
      cases h
      rw [cut_step hv hb, hv']
    | invalid =>
      rw [hv'] at h
      cases h
    | done p =>
      rw [hv'] at h
      have hp := hv.ready_pos hv'
      have hle := hv.ready_le hv'
      have hlen : (buf.drop p).length < buf.length := by
        rw [List.length_drop]
        omega
      exact ih _ hlen h rfl

end Cut

end Incremental

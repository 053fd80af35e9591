import Mathlib

/- Lists of assignments to the points of a function, carried out one after the other.

   The order does not matter as long as no point is assigned two values
   (`Consistent`): the result is the value of the assignment at the points that have
   one (`assign_of_mem`) and the old value elsewhere (`assign_of_notMem`). -/
namespace Assignments

universe u v

variable {K : Type u} {W : Type v}

/-- No point is assigned two values. -/
def Consistent (l : List (K × W)) : Prop :=
  ∀ ⦃k w w'⦄, (k, w) ∈ l → (k, w') ∈ l → w = w'

/-- Assignments to different points. -/
theorem Consistent.of_nodup {l : List (K × W)} (h : (l.map Prod.fst).Nodup) : Consistent l := by
  intro k w w' hw hw'
  have hinj := List.inj_on_of_nodup_map h hw hw' rfl
  exact congrArg Prod.snd hinj

variable [DecidableEq K]

/-- `f` after the assignments of `l`. -/
def assign (f : K → W) (l : List (K × W)) : K → W :=
  l.foldl (fun f e => Function.update f e.1 e.2) f

@[simp] theorem assign_nil (f : K → W) : assign f [] = f := rfl

theorem assign_cons (f : K → W) (e : K × W) (l : List (K × W)) :
    assign f (e :: l) = assign (Function.update f e.1 e.2) l := rfl

theorem assign_append (f : K → W) (l l' : List (K × W)) :
    assign f (l ++ l') = assign (assign f l) l' := List.foldl_append

/-- A point without an assignment keeps its value. -/
theorem assign_of_notMem {f : K → W} {l : List (K × W)} {k : K} (h : ∀ w, (k, w) ∉ l) : assign f l k = f k := by
  induction l generalizing f with
  | nil => rfl
  | cons e l ih =>
    have hne : k ≠ e.1 := by
      rintro rfl
      exact h e.2 List.mem_cons_self
    rw [assign_cons, ih (fun w hw => h w (List.mem_cons_of_mem _ hw)), Function.update_of_ne hne]

/-- A point keeps its value, or gets the one of an assignment to it. -/
theorem assign_cases (f : K → W) (l : List (K × W)) (k : K) :
    (assign f l k = f k ∧ ∀ w, (k, w) ∉ l) ∨ (k, assign f l k) ∈ l := by
  induction l generalizing f with
  | nil => exact .inl ⟨rfl, fun _ h => nomatch h⟩
  | cons e l ih =>
    rw [assign_cons]
    rcases ih (Function.update f e.1 e.2) with ⟨heq, hno⟩ | hmem
    · by_cases hk : k = e.1
      · subst hk
        rw [heq, Function.update_self]
        exact .inr List.mem_cons_self
      · rw [heq, Function.update_of_ne hk]
        refine .inl ⟨rfl, fun w hw => ?_⟩
        rcases List.mem_cons.mp hw with rfl | hw
        · exact hk rfl
        · exact hno w hw
    · exact .inr (List.mem_cons_of_mem _ hmem)

/-- A point with an assignment gets its value. -/
theorem assign_of_mem {f : K → W} {l : List (K × W)} (hc : Consistent l) {k : K} {w : W} (h : (k, w) ∈ l) :
    assign f l k = w := by
  induction l generalizing f with
  | nil => cases h
  | cons e l ih =>
    have hc' : Consistent l := fun k w w' hw hw' => hc (List.mem_cons_of_mem _ hw) (List.mem_cons_of_mem _ hw')
    rw [assign_cons]
    by_cases hl : ∃ w', (k, w') ∈ l
    · obtain ⟨w', hw'⟩ := hl
      have hww : w = w' := hc h (List.mem_cons_of_mem _ hw')
      subst hww
      exact ih hc' hw'
    · rw [assign_of_notMem (not_exists.mp hl)]
      rcases List.mem_cons.mp h with rfl | hin
      · exact Function.update_self ..
      · exact absurd ⟨w, hin⟩ hl

/-- **The order of consistent assignments does not matter.** -/
theorem assign_congr {f : K → W} {l l' : List (K × W)} (hc : Consistent l) (h : ∀ e, e ∈ l ↔ e ∈ l') :
    assign f l = assign f l' := by
  have hc' : Consistent l' := fun k w w' hw hw' => hc ((h _).mpr hw) ((h _).mpr hw')
  funext k
  by_cases hk : ∃ w, (k, w) ∈ l
  · obtain ⟨w, hw⟩ := hk
    rw [assign_of_mem hc hw, assign_of_mem hc' ((h _).mp hw)]
  · rw [assign_of_notMem (not_exists.mp hk),
      assign_of_notMem (fun w hw => hk ⟨w, (h _).mpr hw⟩)]

end Assignments

import Mathlib

/- An election by the smallest key, decided by every node for itself.

   In every round a node hears the keys of the candidates. It is a candidate in the next
   round if it heard nobody, or if the smallest key it heard is its own. From no candidate
   all nodes become candidates; from some candidates the one with the smallest key stays
   (`next_of_nonempty`), and it stays alone for ever (`run_settles`). -/
namespace Election

universe u v

variable {ι : Type u} {K : Type v} [LinearOrder K]

/-- The candidates of the next round. -/
def next (key : ι → K) (E : Set ι) : Set ι := {i | E = ∅ ∨ IsLeast (key '' E) (key i)}

/-- The node every later round agrees on: the smallest of the candidates, or of all nodes if
there are none. -/
def IsWinner (key : ι → K) (E : Set ι) (w : ι) : Prop :=
  (E.Nonempty → w ∈ E ∧ ∀ j ∈ E, key w ≤ key j) ∧ (E = ∅ → ∀ j, key w ≤ key j)

theorem next_empty (key : ι → K) : next key ∅ = Set.univ := by simp [next]

/-- The smallest candidate stays, alone. -/
theorem next_of_least {key : ι → K} (hinj : Function.Injective key) {E : Set ι} {w : ι} (hw : w ∈ E)
    (hleast : ∀ j ∈ E, key w ≤ key j) : next key E = {w} := by
  have hL : IsLeast (key '' E) (key w) := by
    refine ⟨Set.mem_image_of_mem key hw, ?_⟩
    rintro _ ⟨j, hj, rfl⟩
    exact hleast j hj
  ext i
  rw [Set.mem_singleton_iff]
  constructor
  · rintro (hE | hi)
    · rw [hE] at hw
      exact absurd hw (Set.notMem_empty w)
    · exact hinj (hi.unique hL)
  · rintro rfl
    exact .inr hL

theorem exists_least [Finite ι] (key : ι → K) {E : Set ι} (hE : E.Nonempty) :
    ∃ w ∈ E, ∀ j ∈ E, key w ≤ key j := by
  obtain ⟨w, hw, hmin⟩ := E.toFinite.exists_minimalFor key E hE
  exact ⟨w, hw, fun j hj => (le_total (key w) (key j)).elim id (hmin hj)⟩

theorem next_of_nonempty [Finite ι] {key : ι → K} (hinj : Function.Injective key) {E : Set ι}
    (hE : E.Nonempty) : ∃ w ∈ E, (∀ j ∈ E, key w ≤ key j) ∧ next key E = {w} := by
  obtain ⟨w, hw, hleast⟩ := exists_least key hE
  exact ⟨w, hw, hleast, next_of_least hinj hw hleast⟩

theorem next_singleton {key : ι → K} (hinj : Function.Injective key) (w : ι) : next key {w} = {w} :=
  next_of_least hinj (Set.mem_singleton w) fun j hj => by rw [Set.mem_singleton_iff.mp hj]

/-- Candidates never die out. -/
theorem next_nonempty [Finite ι] {key : ι → K} (hinj : Function.Injective key) {E : Set ι}
    (hE : E.Nonempty) : (next key E).Nonempty := by
  obtain ⟨w, _, _, heq⟩ := next_of_nonempty hinj hE
  exact heq ▸ Set.singleton_nonempty w

/-- What is alone once is alone for ever. -/
theorem run_alone {key : ι → K} (hinj : Function.Injective key) {E : ℕ → Set ι}
    (hrun : ∀ k, E (k + 1) = next key (E k)) {w : ι} {n : ℕ} (hn : E n = {w}) : ∀ k, n ≤ k → E k = {w} := by
  intro k hk
  induction k, hk using Nat.le_induction with
  | base => exact hn
  | succ k _ ih => rw [hrun, ih, next_singleton hinj]

/-- **After two rounds the winner is the only candidate, in every later round too.** -/
theorem run_settles [Finite ι] [Nonempty ι] {key : ι → K} (hinj : Function.Injective key) {E : ℕ → Set ι}
    (hrun : ∀ k, E (k + 1) = next key (E k)) : ∃ w, IsWinner key (E 0) w ∧ ∀ k, 2 ≤ k → E k = {w} := by
  rcases (E 0).eq_empty_or_nonempty with hE | hE
  · have h1 : E 1 = Set.univ := by rw [hrun, hE, next_empty]
    obtain ⟨w, hw, hleast, heq⟩ := next_of_nonempty hinj (E := (Set.univ : Set ι)) Set.univ_nonempty
    refine ⟨w, ⟨fun h => absurd hE h.ne_empty, fun _ j => hleast j (Set.mem_univ j)⟩, ?_⟩
    exact run_alone hinj hrun (by rw [hrun, h1, heq])
  · obtain ⟨w, hw, hleast, heq⟩ := next_of_nonempty hinj hE
    refine ⟨w, ⟨fun _ => ⟨hw, hleast⟩, fun h => absurd h hE.ne_empty⟩, fun k hk => ?_⟩
    exact run_alone hinj hrun (n := 1) (by rw [hrun, heq]) k (by omega)

end Election

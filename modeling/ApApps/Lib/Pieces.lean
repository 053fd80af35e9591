import Mathlib

/- Searching a stream that arrives in pieces.

   `findAt pat s` is the place of the first occurrence of `pat` in `s`. `collect look`
   goes through the pieces of a stream one by one and decides in each one whether it
   completes what is wanted, with what is still wanted as the state. Two instances: a
   number of symbols (`collect_count`), which does not depend on the pieces, and a
   pattern searched in one piece at a time (`collect_find`), which finds the pattern of the
   stream exactly if its first occurrence lies inside one piece. -/
namespace Pieces

universe u v

section Find
variable {α : Type u} [DecidableEq α]

/-- The place of the first occurrence. -/
def findAt (pat : List α) : List α → Option Nat
  | [] => if pat = [] then some 0 else none
  | a :: s => if pat <+: a :: s then some 0 else (findAt pat s).map (· + 1)

/-- What is found is there, and nowhere before. -/
theorem findAt_eq_some {pat s : List α} {i : Nat} :
    findAt pat s = some i ↔ pat <+: s.drop i ∧ i ≤ s.length ∧ ∀ j < i, ¬ pat <+: s.drop j := by
  induction s generalizing i with
  | nil =>
    simp only [findAt, List.drop_nil, List.prefix_nil, List.length_nil, Nat.le_zero]
    split
    · next h =>
      subst h
      simp only [Option.some.injEq, true_and, not_true_eq_false]
      constructor
      · rintro rfl
        simp
      · intro h
        exact h.1.symm
    · next h => simp [h]
  | cons a s ih =>
    simp only [findAt]
    split
    · next h =>
      simp only [Option.some.injEq]
      constructor
      · rintro rfl
        exact ⟨h, Nat.zero_le _, fun j hj => absurd hj (by omega)⟩
      · rintro ⟨_, _, hno⟩
        by_contra hi
        exact hno 0 (by omega) h
    · next h =>
      cases i with
      | zero => simp [h]
      | succ i =>
        simp only [Option.map_eq_some_iff, Nat.add_right_cancel_iff, exists_eq_right, ih, List.drop_succ_cons,
          List.length_cons, Nat.add_le_add_iff_right]
        constructor
        · rintro ⟨hp, hi, hno⟩
          refine ⟨hp, hi, fun j hj => ?_⟩
          cases j with
          | zero => exact h
          | succ j => exact hno j (by omega)
        · rintro ⟨hp, hi, hno⟩
          exact ⟨hp, hi, fun j hj => hno (j + 1) (by omega)⟩

/-- Nothing is found exactly if there is nothing. -/
theorem findAt_eq_none {pat s : List α} :
    findAt pat s = none ↔ ∀ j ≤ s.length, ¬ pat <+: s.drop j := by
  induction s with
  | nil => simp [findAt]
  | cons a s ih =>
    simp only [findAt]
    split
    · next h =>
      simp only [reduceCtorEq, false_iff]
      intro hno
      exact hno 0 (Nat.zero_le _) h
    · next h =>
      simp only [Option.map_eq_none_iff, ih, List.length_cons]
      constructor
      · intro hno j hj
        cases j with
        | zero => exact h
        | succ j => exact hno j (by omega)
      · intro hno j hj
        exact hno (j + 1) (by omega)

/-- An occurrence ends inside the list. -/
theorem findAt_le {pat s : List α} {i : Nat} (h : findAt pat s = some i) :
    i + pat.length ≤ s.length := by
  obtain ⟨hp, hi, _⟩ := findAt_eq_some.mp h
  have hlen := hp.length_le
  rw [List.length_drop] at hlen
  omega

/-- What is found in the front part is found in the whole. -/
theorem findAt_append {pat s : List α} {i : Nat} (h : findAt pat s = some i) (t : List α) :
    findAt pat (s ++ t) = some i := by
  have hle := findAt_le h
  obtain ⟨hp, hi, hno⟩ := findAt_eq_some.mp h
  apply findAt_eq_some.mpr
  refine ⟨?_, ?_, fun j hj hpj => hno j hj ?_⟩
  · rw [List.drop_append_of_le_length hi]
    exact hp.trans (List.prefix_append _ t)
  · rw [List.length_append]
    omega
  · rw [List.drop_append_of_le_length (by omega)] at hpj
    refine List.prefix_of_prefix_length_le hpj (List.prefix_append _ t) ?_
    rw [List.length_drop]
    omega

/-- An occurrence in the front part would have been found there. -/
theorem findAt_front {pat s t : List α} {i : Nat} (hs : findAt pat s = none)
    (h : findAt pat (s ++ t) = some i) : s.length < i + pat.length := by
  by_contra hle
  obtain ⟨hp, _, _⟩ := findAt_eq_some.mp h
  rw [List.drop_append_of_le_length (by omega)] at hp
  refine findAt_eq_none.mp hs i (by omega) (List.prefix_of_prefix_length_le hp (List.prefix_append _ t) ?_)
  rw [List.length_drop]
  omega

/-- If the first occurrence is behind the front part, it is the first one there. -/
theorem findAt_behind {pat s t : List α} {i : Nat} (h : findAt pat (s ++ t) = some i)
    (hi : s.length ≤ i) : findAt pat t = some (i - s.length) := by
  obtain ⟨hp, hle, hno⟩ := findAt_eq_some.mp h
  apply findAt_eq_some.mpr
  have hdrop : ∀ j, (s ++ t).drop (s.length + j) = t.drop j := fun j => by
    rw [List.drop_append, List.drop_eq_nil_of_le (by omega)]
    simp
  refine ⟨?_, ?_, fun j hj => ?_⟩
  · rw [← hdrop]
    rwa [show s.length + (i - s.length) = i by omega]
  · rw [List.length_append] at hle
    omega
  · have hj' := hno (s.length + j) (by omega)
    rwa [hdrop] at hj'

/-- What is nowhere in the whole is nowhere in the back part. -/
theorem findAt_none_of_append {pat s t : List α} (h : findAt pat (s ++ t) = none) :
    findAt pat t = none := by
  apply findAt_eq_none.mpr
  intro j hj hp
  refine findAt_eq_none.mp h (s.length + j) ?_ ?_
  · rw [List.length_append]
    omega
  · rwa [List.drop_append, List.drop_eq_nil_of_le (by omega), List.nil_append,
      show s.length + j - s.length = j by omega]

/-- A pattern whose first symbol does not occur before it. -/
theorem findAt_of_not_mem {c : α} {pat s t : List α} (h : c ∉ s) :
    findAt (c :: pat) (s ++ (c :: pat ++ t)) = some s.length := by
  induction s with
  | nil =>
    rw [List.nil_append, List.cons_append, findAt, if_pos]
    · rfl
    · exact List.prefix_append (c :: pat) t
  | cons a s ih =>
    have hs : c ∉ s := fun hc => h (List.mem_cons_of_mem a hc)
    rw [List.cons_append, findAt, if_neg, ih hs]
    · rfl
    · intro hp
      obtain ⟨rfl, _⟩ := List.cons_prefix_cons.mp hp
      exact h List.mem_cons_self

/-- **The prefix up to the end of the first occurrence is the shortest one that ends
with the pattern.** -/
theorem findAt_shortest {pat s : List α} {i : Nat} (h : findAt pat s = some i) :
    pat <:+ s.take (i + pat.length) ∧
      ∀ t, t <+: s → pat <:+ t → i + pat.length ≤ t.length := by
  obtain ⟨hp, hi, hno⟩ := findAt_eq_some.mp h
  constructor
  · obtain ⟨t, ht⟩ := hp
    refine ⟨s.take i, ?_⟩
    rw [List.take_add, ← ht, List.take_left]
  · rintro t ⟨u, rfl⟩ ⟨v, rfl⟩
    by_contra hlt
    rw [List.length_append] at hlt
    refine hno v.length (by omega) ?_
    rw [List.append_assoc, List.drop_left]
    exact List.prefix_append pat u

end Find

section Collect
variable {α : Type u} {σ : Type v}

/-- How many symbols of the stream are taken: `look` says of a piece that some of its
symbols complete what is wanted, or what is wanted after it. -/
def collect (look : σ → List α → Nat ⊕ σ) : σ → List (List α) → Option Nat
  | _, [] => none
  | x, p :: ps =>
    match look x p with
    | .inl k => some k
    | .inr x' => (collect look x' ps).map (· + p.length)

/-- What is left of the pieces when `k` symbols are taken. -/
def dropPieces (k : Nat) : List (List α) → List (List α)
  | [] => []
  | p :: ps => if k ≤ p.length then p.drop k :: ps else dropPieces (k - p.length) ps

theorem flatten_dropPieces (k : Nat) (ps : List (List α)) :
    (dropPieces k ps).flatten = ps.flatten.drop k := by
  induction ps generalizing k with
  | nil => simp [dropPieces]
  | cons p ps ih =>
    simp only [dropPieces, List.flatten_cons]
    split
    · next h => rw [List.flatten_cons, List.drop_append_of_le_length h]
    · next h =>
      have hle : p.length ≤ k := by omega
      rw [ih, List.drop_append, List.drop_eq_nil_of_le hle, List.nil_append]

/-- Taking twice is taking the sum. -/
theorem dropPieces_dropPieces (j k : Nat) (ps : List (List α)) :
    dropPieces j (dropPieces k ps) = dropPieces (k + j) ps := by
  induction ps generalizing k with
  | nil => rfl
  | cons p ps ih =>
    rw [dropPieces.eq_2 k, dropPieces.eq_2 (k + j)]
    by_cases hk : k ≤ p.length
    · rw [if_pos hk, dropPieces, List.length_drop, List.drop_drop]
      by_cases hj : k + j ≤ p.length
      · rw [if_pos (by omega), if_pos hj]
      · rw [if_neg (by omega), if_neg hj, show j - (p.length - k) = k + j - p.length by omega]
    · rw [if_neg hk, if_neg (by omega), ih, show k - p.length + j = k + j - p.length by omega]

/-- A number of symbols that is wanted. -/
def lookCount (n : Nat) (p : List α) : Nat ⊕ Nat := if n ≤ p.length then .inl n else .inr (n - p.length)

/-- **A number of symbols is found, if the stream has as many.** -/
theorem collect_count (n : Nat) (ps : List (List α)) (hn : 0 < n) :
    collect lookCount n ps = if n ≤ ps.flatten.length then some n else none := by
  induction ps generalizing n with
  | nil =>
    rw [if_neg (by simp only [List.flatten_nil, List.length_nil]; omega)]
    rfl
  | cons p ps ih =>
    simp only [collect, lookCount, List.flatten_cons, List.length_append]
    by_cases h : n ≤ p.length
    · rw [if_pos h, if_pos (by omega)]
    · rw [if_neg h]
      simp only [ih (n - p.length) (by omega)]
      by_cases hr : n - p.length ≤ ps.flatten.length
      · rw [if_pos hr, if_pos (by omega), Option.map_some, Nat.sub_add_cancel (by omega)]
      · rw [if_neg hr, if_neg (by omega), Option.map_none]

/-- The `m` symbols at `i` lie inside one piece. -/
def Inside (i m : Nat) : List (List α) → Prop
  | [] => False
  | p :: ps => i + m ≤ p.length ∨ (p.length ≤ i ∧ Inside (i - p.length) m ps)

theorem Inside.le {i m : Nat} {ps : List (List α)} (h : Inside i m ps) : i + m ≤ ps.flatten.length := by
  induction ps generalizing i with
  | nil => exact h.elim
  | cons p ps ih =>
    rw [List.flatten_cons, List.length_append]
    rcases h with hle | ⟨hi, hin⟩
    · omega
    · have := ih hin
      omega

variable [DecidableEq α]

/-- A pattern that is wanted. -/
def lookFind (pat : List α) (_ : Unit) (p : List α) : Nat ⊕ Unit :=
  match findAt pat p with
  | some i => .inl (i + pat.length)
  | none => .inr ()

/-- What is found by searching in the pieces lies inside one of them. -/
theorem collect_find_inside {pat : List α} {ps : List (List α)} {k : Nat}
    (h : collect (lookFind pat) () ps = some k) : ∃ i, k = i + pat.length ∧ Inside i pat.length ps := by
  induction ps generalizing k with
  | nil => cases h
  | cons p ps ih =>
    simp only [collect, lookFind] at h
    cases hp : findAt pat p with
    | some i =>
      rw [hp] at h
      cases h
      exact ⟨i, rfl, .inl (findAt_le hp)⟩
    | none =>
      rw [hp] at h
      obtain ⟨k', hk', rfl⟩ := Option.map_eq_some_iff.mp h
      obtain ⟨i, rfl, hi⟩ := ih hk'
      refine ⟨i + p.length, by omega, .inr ⟨by omega, ?_⟩⟩
      rwa [Nat.add_sub_cancel]

/-- **Searching in the pieces is searching in the stream exactly if the first occurrence
lies inside one piece.** -/
theorem collect_find (pat : List α) (ps : List (List α)) :
    collect (lookFind pat) () ps = (findAt pat ps.flatten).map (· + pat.length) ↔
      ∀ i, findAt pat ps.flatten = some i → Inside i pat.length ps := by
  constructor
  · intro h i hi
    rw [hi, Option.map_some] at h
    obtain ⟨j, hj, hin⟩ := collect_find_inside h
    rwa [show i = j by omega]
  · intro h
    induction ps with
    | nil =>
      cases h0 : findAt pat ([] : List (List α)).flatten with
      | none => rfl
      | some i => exact (h i h0).elim
    | cons p ps ih =>
      simp only [collect, lookFind, List.flatten_cons] at h ⊢
      cases hp : findAt pat p with
      | some i =>
        rw [findAt_append hp]
        rfl
      | none =>
        cases hall : findAt pat (p ++ ps.flatten) with
        | none =>
          have hrest := findAt_none_of_append hall
          simp only [ih (fun i hi => by rw [hrest] at hi; cases hi), hrest, Option.map_none]
        | some i =>
          -- the first occurrence lies behind this piece, where it is the first one again
          have hbehind : p.length ≤ i ∧ Inside (i - p.length) pat.length ps := by
            rcases h i hall with hle | hbehind
            · exact absurd (findAt_front hp hall) (by omega)
            · exact hbehind
          have hrest := findAt_behind hall hbehind.1
          have hih := ih fun j hj => by
            rw [hrest] at hj
            cases hj
            exact hbehind.2
          have hi := hbehind.1
          simp only [hih, hrest, Option.map_some, Option.some.injEq]
          omega

end Collect

/-! ## Patterns that no piece tears -/

section Untorn
variable {α : Type u} {pat : List α} {ps : List (List α)}

/-- Every occurrence of the pattern in the stream lies inside one piece. -/
def Untorn (pat : List α) (ps : List (List α)) : Prop :=
  ∀ i, pat <+: ps.flatten.drop i → i ≤ ps.flatten.length → Inside i pat.length ps

theorem Inside.dropPieces {k i m : Nat} (h : Inside (k + i) m ps) (hm : 0 < m) : Inside i m (dropPieces k ps) := by
  induction ps generalizing k with
  | nil => exact h.elim
  | cons p ps ih =>
    simp only [Pieces.dropPieces]
    by_cases hk : k ≤ p.length
    · rw [if_pos hk]
      rcases h with hle | ⟨hge, hin⟩
      · refine .inl ?_
        rw [List.length_drop]
        omega
      · refine .inr ⟨?_, ?_⟩
        · rw [List.length_drop]
          omega
        · rwa [List.length_drop, show i - (p.length - k) = k + i - p.length by omega]
    · rw [if_neg hk]
      rcases h with hle | ⟨-, hin⟩
      · omega
      · apply ih
        rwa [show k - p.length + i = k + i - p.length by omega]

/-- What is left of a stream is not torn either. -/
theorem Untorn.dropPieces (h : Untorn pat ps) (hpat : pat ≠ []) {k : Nat} (hk : k ≤ ps.flatten.length) :
    Untorn pat (dropPieces k ps) := by
  intro i hi hle
  rw [flatten_dropPieces, List.drop_drop] at hi
  rw [flatten_dropPieces, List.length_drop] at hle
  exact (h (k + i) hi (by omega)).dropPieces (List.length_pos_of_ne_nil hpat)

/-- Nothing is torn in one piece. -/
theorem untorn_single (hpat : pat ≠ []) (s : List α) : Untorn pat [s] := by
  intro i hi hle
  have hpos := List.length_pos_of_ne_nil hpat
  have hlen := hi.length_le
  rw [List.flatten_cons, List.flatten_nil, List.append_nil, List.length_drop] at hlen
  exact .inl (by omega)

/-- Nor by an empty piece in front. -/
theorem Untorn.cons_nil (h : Untorn pat ps) : Untorn pat ([] :: ps) :=
  fun i hi hle => .inr ⟨Nat.zero_le i, h i hi hle⟩

instance decidableInside (i m : Nat) : (ps : List (List α)) → Decidable (Inside i m ps)
  | [] => .isFalse id
  | p :: ps =>
    have := decidableInside (i - p.length) m ps
    inferInstanceAs (Decidable (i + m ≤ p.length ∨ p.length ≤ i ∧ Inside (i - p.length) m ps))

instance [DecidableEq α] (pat : List α) (ps : List (List α)) : Decidable (Untorn pat ps) :=
  decidable_of_iff (∀ i < ps.flatten.length + 1, pat <+: ps.flatten.drop i → Inside i pat.length ps)
    ⟨fun h i hi hle => h i (by omega) hi, fun h i hlt hi => h i hi (by omega)⟩

/-- Searching piece by piece finds what is in the stream. -/
theorem Untorn.collect_find [DecidableEq α] (h : Untorn pat ps) :
    collect (lookFind pat) () ps = (findAt pat ps.flatten).map (· + pat.length) := by
  rw [Pieces.collect_find]
  intro i hi
  obtain ⟨hp, hle, -⟩ := findAt_eq_some.mp hi
  exact h i hp hle

end Untorn

end Pieces

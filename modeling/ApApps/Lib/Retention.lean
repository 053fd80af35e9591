import Mathlib

/- Keeping the newest few of a set.

   Each element has a key, and its rank is the number of elements with a larger one. `k` are
   kept: those of rank below `k`. Sorting a list by the key, the largest first, and leaving
   out the first `k` yields the others (`mem_drop_sorted`). Two keys keep the same ones if
   and only if no element that one of them drops is above one it keeps by the other
   (`keeps_same_iff`). -/
namespace Retention

universe u v w

variable {α : Type u} {K : Type v} {L : Type w} [LinearOrder K] [LinearOrder L]

/-- How many elements of `s` have a larger key. -/
def rank (key : α → K) (s : Finset α) (a : α) : Nat := (s.filter fun b => key a < key b).card

section Rank
variable {key : α → K} {s : Finset α} {a b : α}

theorem rank_lt_rank (hb : b ∈ s) (h : key a < key b) : rank key s b < rank key s a := by
  apply Finset.card_lt_card
  rw [Finset.ssubset_iff_of_subset]
  · exact ⟨b, Finset.mem_filter.mpr ⟨hb, h⟩, fun hmem => lt_irrefl _ (Finset.mem_filter.mp hmem).2⟩
  · intro c hc
    obtain ⟨hc, hbc⟩ := Finset.mem_filter.mp hc
    exact Finset.mem_filter.mpr ⟨hc, h.trans hbc⟩

/-- At most `k` elements have a rank below `k`. -/
theorem card_kept_le [DecidableEq α] (hinj : Set.InjOn key s) (k : Nat) :
    (s.filter fun a => rank key s a < k).card ≤ k := by
  set kept := s.filter fun a => rank key s a < k
  rcases kept.eq_empty_or_nonempty with hnone | hsome
  · simp [hnone]
  -- all the others are above the smallest of them
  obtain ⟨m, hm, hmin⟩ := Finset.exists_min_image kept key hsome
  obtain ⟨hms, hrank⟩ := Finset.mem_filter.mp hm
  have habove : kept.erase m ⊆ s.filter fun b => key m < key b := by
    intro b hb
    obtain ⟨hne, hb⟩ := Finset.mem_erase.mp hb
    have hbs := (Finset.mem_filter.mp hb).1
    refine Finset.mem_filter.mpr ⟨hbs, lt_of_le_of_ne (hmin b hb) fun heq => hne ?_⟩
    exact (hinj hms hbs heq).symm
  have hcard := Finset.card_le_card habove
  rw [Finset.card_erase_of_mem hm] at hcard
  unfold rank at hrank
  omega

/-- If an element has a rank of `k` or more, at least `k` have a rank below. -/
theorem le_card_kept {k : Nat} (ha : a ∈ s) (h : k ≤ rank key s a) :
    k ≤ (s.filter fun a => rank key s a < k).card := by
  -- what is above the largest of the others
  have hsome : (s.filter fun a => k ≤ rank key s a).Nonempty := ⟨a, Finset.mem_filter.mpr ⟨ha, h⟩⟩
  obtain ⟨m, hm, hmax⟩ := Finset.exists_max_image _ key hsome
  obtain ⟨hms, hrank⟩ := Finset.mem_filter.mp hm
  refine hrank.trans (Finset.card_le_card ?_)
  intro b hb
  obtain ⟨hbs, hmb⟩ := Finset.mem_filter.mp hb
  refine Finset.mem_filter.mpr ⟨hbs, ?_⟩
  by_contra hlow
  exact absurd hmb (not_lt.mpr (hmax b (Finset.mem_filter.mpr ⟨hbs, not_lt.mp hlow⟩)))

end Rank

/-- The two keys keep the same `k` elements if and only if, by the first key, every
element that the second keeps is above every one that it drops. -/
theorem keeps_same_iff [DecidableEq α] {key : α → K} {other : α → L} {s : Finset α}
    (hkey : Set.InjOn key s) (hother : Set.InjOn other s) (k : Nat) :
    (∀ a ∈ s, rank key s a < k ↔ rank other s a < k) ↔
    ∀ a ∈ s, ∀ b ∈ s, rank other s a < k → k ≤ rank other s b → key b < key a := by
  constructor
  · intro hsame a ha b hb hkept hdropped
    by_contra hle
    rcases (not_lt.mp hle).lt_or_eq with hlt | heq
    · -- then the element dropped is kept as well
      have hrank := rank_lt_rank hb hlt
      have hakept := (hsame a ha).mpr hkept
      have hbkept := (hsame b hb).mp (hrank.trans hakept)
      omega
    · rw [hkey ha hb heq] at hkept
      omega
  · intro h a ha
    set kept := s.filter fun a => rank other s a < k
    constructor
    · intro hrank
      by_contra hdropped
      -- all that the second key keeps is above `a`
      have habove : kept ⊆ s.filter fun b => key a < key b := by
        intro b hb
        obtain ⟨hbs, hbkept⟩ := Finset.mem_filter.mp hb
        exact Finset.mem_filter.mpr ⟨hbs, h b hbs a ha hbkept (not_lt.mp hdropped)⟩
      have hmany : k ≤ kept.card := le_card_kept ha (not_lt.mp hdropped)
      have hcard := Finset.card_le_card habove
      unfold rank at hrank
      omega
    · intro hkept
      -- what is above `a` is kept, and `a` is too
      have habove : (s.filter fun b => key a < key b) ⊆ kept.erase a := by
        intro b hb
        obtain ⟨hbs, hab⟩ := Finset.mem_filter.mp hb
        refine Finset.mem_erase.mpr ⟨fun heq => lt_irrefl _ (heq ▸ hab), Finset.mem_filter.mpr ⟨hbs, ?_⟩⟩
        by_contra hdropped
        exact lt_asymm hab (h a ha b hbs hkept (not_lt.mp hdropped))
      have hmem : a ∈ kept := Finset.mem_filter.mpr ⟨ha, hkept⟩
      have hcard := Finset.card_le_card habove
      have hfew : kept.card ≤ k := card_kept_le hother k
      have hpos := Finset.card_pos.mpr ⟨a, hmem⟩
      rw [Finset.card_erase_of_mem hmem] at hcard
      unfold rank
      omega

/-! ## Sorted lists -/

/-- In a list sorted by the key, the largest first, the elements after the first `k` are those of
rank at least `k`. -/
theorem mem_drop_of_sorted [DecidableEq α] {key : α → K} {l : List α}
    (h : l.Pairwise fun a b => key b < key a) (k : Nat) (a : α) :
    a ∈ l.drop k ↔ a ∈ l ∧ k ≤ rank key l.toFinset a := by
  induction l generalizing k with
  | nil => simp
  | cons x l ih =>
    obtain ⟨hx, hl⟩ := List.pairwise_cons.mp h
    cases k with
    | zero => simp
    | succ k =>
      have hnot : x ∉ l := fun hmem => lt_irrefl _ (hx x hmem)
      rw [List.drop_succ_cons, ih hl]
      have hrank : ∀ b, key b < key x → rank key (x :: l).toFinset b = rank key l.toFinset b + 1 := by
        intro b hb
        unfold rank
        rw [List.toFinset_cons, Finset.filter_insert, if_pos hb, Finset.card_insert_of_notMem]
        intro hmem
        exact hnot (List.mem_toFinset.mp (Finset.mem_filter.mp hmem).1)
      constructor
      · rintro ⟨ha, hk⟩
        rw [hrank a (hx a ha)]
        exact ⟨List.mem_cons_of_mem _ ha, by omega⟩
      · rintro ⟨ha, hk⟩
        rcases List.mem_cons.mp ha with rfl | ha
        · -- the first element has rank 0
          exfalso
          have hzero : rank key (a :: l).toFinset a = 0 := by
            rw [rank, Finset.card_eq_zero, Finset.filter_eq_empty_iff]
            intro b hb
            rcases List.mem_cons.mp (List.mem_toFinset.mp hb) with rfl | hb
            · exact lt_irrefl _
            · exact (hx b hb).asymm
          omega
        · rw [hrank a (hx a ha)] at hk
          exact ⟨ha, by omega⟩

/-- `l` sorted by the key, the largest first. -/
def sorted (key : α → K) (l : List α) : List α := l.insertionSort fun a b => key b ≤ key a

theorem mem_drop_sorted [DecidableEq α] {key : α → K} {l : List α} (hnodup : l.Nodup)
    (hinj : Set.InjOn key {a | a ∈ l}) (k : Nat) (a : α) :
    a ∈ (sorted key l).drop k ↔ a ∈ l ∧ k ≤ rank key l.toFinset a := by
  have htotal : Std.Total fun a b : α => key b ≤ key a := ⟨fun a b => le_total _ _⟩
  have htrans : IsTrans α fun a b => key b ≤ key a := ⟨fun a b c hab hbc => hbc.trans hab⟩
  have hperm : (sorted key l).Perm l := List.perm_insertionSort _ l
  have hle : (sorted key l).Pairwise fun a b => key b ≤ key a := List.pairwise_insertionSort _ l
  have hlt : (sorted key l).Pairwise fun a b => key b < key a := by
    refine (hle.and (hperm.nodup_iff.mpr hnodup)).imp_of_mem ?_
    rintro a b ha hb ⟨hba, hne⟩
    exact lt_of_le_of_ne hba fun heq => hne (hinj (hperm.mem_iff.mp ha) (hperm.mem_iff.mp hb) heq.symm)
  rw [mem_drop_of_sorted hlt, hperm.mem_iff, List.toFinset_eq_of_perm _ _ hperm]

end Retention

import ApApps.Lib.Election
import ApApps.Beacon.Watch

/- The election of the access point that broadcasts.

   A round of all access points is an election round (`Election.next`): what a node has
   heard is the set of the contents of the enabled ones, its first string in sorted order
   is the smallest of them, and the node compares it with its own content. -/
namespace ApApps.Beacon
open ApApps.Cjson

/-! ## What a node has heard -/

theorem mem_receive (broad : BroadMap) (r : Option Bytes) (s : Bytes) :
    s ∈ (broad.receive r).map ↔ s ∈ broad.map ∨ r = some s := by
  cases r with
  | none => simp [BroadMap.receive]
  | some t =>
    simp only [BroadMap.receive]
    by_cases ht : t ∈ broad.map
    · rw [if_pos ht]
      constructor
      · exact .inl
      · rintro (h | h)
        · exact h
        · cases h
          exact ht
    · rw [if_neg ht, List.mem_cons, Option.some.injEq, eq_comm, or_comm]

theorem count_receive {broad : BroadMap} (h : broad.count = broad.map.length) (r : Option Bytes) :
    (broad.receive r).count = (broad.receive r).map.length := by
  cases r with
  | none => exact h
  | some t =>
    simp only [BroadMap.receive]
    split
    · exact h
    · simp [h]

/-- The keys of `broad_map.map` are the messages of the round, and `count` is their number. -/
theorem listen_spec (received : List (Option Bytes)) :
    (∀ s, s ∈ (listen received).map ↔ some s ∈ received) ∧
      (listen received).count = (listen received).map.length := by
  have key : ∀ broad : BroadMap, broad.count = broad.map.length →
      (∀ s, s ∈ (received.foldl BroadMap.receive broad).map ↔ s ∈ broad.map ∨ some s ∈ received) ∧
        (received.foldl BroadMap.receive broad).count = (received.foldl BroadMap.receive broad).map.length := by
    induction received with
    | nil => exact fun broad h => ⟨by simp, h⟩
    | cons r received ih =>
      intro broad h
      obtain ⟨hmem, hcount⟩ := ih (broad.receive r) (count_receive h r)
      refine ⟨fun s => ?_, hcount⟩
      rw [List.foldl_cons, hmem, mem_receive, List.mem_cons, or_assoc]
      simp only [eq_comm]
  obtain ⟨hmem, hcount⟩ := key ⟨0, []⟩ rfl
  exact ⟨fun s => (hmem s).trans (by simp), hcount⟩

/-! ## The smallest string -/

theorem strKey_injective : Function.Injective strKey :=
  List.map_injective_iff.mpr fun _ _ h => UInt8.toNat_inj.mp h

/-- The first string in sorted order is the least one. -/
theorem sortStrings_head {arr : List Bytes} {s : Bytes} :
    (sortStrings arr).head? = some s ↔ s ∈ arr ∧ ∀ t ∈ arr, strKey s ≤ strKey t := by
  have hperm : (sortStrings arr).Perm arr := List.perm_insertionSort _ arr
  have hsorted : (sortStrings arr).Pairwise fun a b => strKey a ≤ strKey b := by
    unfold sortStrings
    exact List.pairwise_insertionSort _ arr
  cases hs : sortStrings arr with
  | nil =>
    rw [hs] at hperm
    have harr : arr = [] := hperm.symm.eq_nil
    simp [harr]
  | cons a rest =>
    rw [hs] at hperm hsorted
    have hle : ∀ t ∈ arr, strKey a ≤ strKey t := by
      intro t ht
      rcases List.mem_cons.mp (hperm.mem_iff.mpr ht) with rfl | ht
      · exact le_refl _
      · exact List.rel_of_pairwise_cons hsorted ht
    have ha : a ∈ arr := hperm.mem_iff.mp List.mem_cons_self
    rw [List.head?_cons, Option.some.injEq]
    constructor
    · rintro rfl
      exact ⟨ha, hle⟩
    · rintro ⟨hmem, hleast⟩
      exact strKey_injective (le_antisymm (hle s hmem) (hleast a ha))

/-! ## Rounds -/

section Rounds
variable {ι : Type} (fp : FpConv)

/-- The enabled access points. -/
def enabled (aps : ι → Ap) : Set ι := {i | (aps i).enableBroadcast = true}

/-- A listening round of all access points: every one of them hears exactly what is
broadcast in it, in any order and any number of times. -/
def Round (aps aps' : ι → Ap) : Prop :=
  ∀ i, ∃ (received : List (Option Bytes)) (pairs : List Bytes → List Bytes),
    (∀ l, (pairs l).Perm l) ∧ (∀ m, some m ∈ received ↔ ∃ j, beacon fp (aps j) = some m) ∧
      aps' i = watch fp pairs received (aps i)

/-- The access points are connected and have the given contents. -/
def Contents (content : ι → Bytes) (aps : ι → Ap) : Prop :=
  ∀ i, (aps i).ins.isconnect = true ∧ (aps i).ins.getContent fp = some (content i)

variable {fp}

theorem watch_ins (pairs : List Bytes → List Bytes) (received : List (Option Bytes)) (ap : Ap) :
    (watch fp pairs received ap).ins = ap.ins := by
  unfold watch
  simp only
  split <;> rfl

theorem Contents.round {content : ι → Bytes} {aps aps' : ι → Ap} (hc : Contents fp content aps)
    (hr : Round fp aps aps') : Contents fp content aps' := by
  intro i
  obtain ⟨received, pairs, _, _, heq⟩ := hr i
  rw [heq, watch_ins]
  exact hc i

/-- What is broadcast are the contents of the enabled access points. -/
theorem Contents.beacon_iff {content : ι → Bytes} {aps : ι → Ap} (hc : Contents fp content aps) {m : Bytes} :
    (∃ j, beacon fp (aps j) = some m) ↔ ∃ j ∈ enabled aps, content j = m := by
  constructor
  · rintro ⟨j, hj⟩
    unfold beacon at hj
    rw [(hc j).1, (hc j).2, Bool.true_and] at hj
    split at hj
    · rename_i hen
      exact ⟨j, hen, Option.some.inj hj⟩
    · cases hj
  · rintro ⟨j, hen, rfl⟩
    refine ⟨j, ?_⟩
    unfold beacon
    rw [(hc j).1, (hc j).2, Bool.true_and, if_pos (show (aps j).enableBroadcast = true from hen)]

/-- **A round is a round of the election.** -/
theorem enabled_round {content : ι → Bytes} {aps aps' : ι → Ap} (hc : Contents fp content aps)
    (hr : Round fp aps aps') :
    enabled aps' = Election.next (fun i => strKey (content i)) (enabled aps) := by
  ext i
  obtain ⟨received, pairs, hperm, hheard, heq⟩ := hr i
  obtain ⟨hmem, hcount⟩ := listen_spec received
  have hmsg : ∀ m, m ∈ (listen received).map ↔ ∃ j ∈ enabled aps, content j = m :=
    fun m => (hmem m).trans ((hheard m).trans hc.beacon_iff)
  have hempty : (listen received).count = 0 ↔ enabled aps = ∅ := by
    rw [hcount, List.length_eq_zero_iff]
    constructor
    · intro hnil
      rw [Set.eq_empty_iff_forall_notMem]
      intro j hj
      have := (hmsg (content j)).mpr ⟨j, hj, rfl⟩
      rw [hnil] at this
      exact List.not_mem_nil this
    · intro hE
      rw [List.eq_nil_iff_forall_not_mem]
      intro m hm
      obtain ⟨j, hj, _⟩ := (hmsg m).mp hm
      rw [hE] at hj
      exact Set.notMem_empty j hj
  show (aps' i).enableBroadcast = true ↔ enabled aps = ∅ ∨ _
  rw [heq]
  unfold watch
  by_cases h0 : (listen received).count = 0
  · simp [h0, hempty.mp h0]
  · have hE : enabled aps ≠ ∅ := fun h => h0 (hempty.mpr h)
    simp only [if_neg h0, decide_eq_true_iff]
    rw [(hc i).2, sortStrings_head, or_iff_right hE]
    constructor
    · rintro ⟨hin, hleast⟩
      obtain ⟨j, hj, hji⟩ := (hmsg _).mp ((hperm _).mem_iff.mp hin)
      refine ⟨⟨j, hj, by simp only [hji]⟩, ?_⟩
      rintro _ ⟨j', hj', rfl⟩
      exact hleast _ ((hperm _).mem_iff.mpr ((hmsg _).mpr ⟨j', hj', rfl⟩))
    · rintro ⟨⟨j, hj, hji⟩, hleast⟩
      refine ⟨(hperm _).mem_iff.mpr ((hmsg _).mpr ⟨j, hj, strKey_injective hji⟩), ?_⟩
      intro t ht
      obtain ⟨j', hj', rfl⟩ := (hmsg t).mp ((hperm _).mem_iff.mp ht)
      exact hleast ⟨j', hj', rfl⟩

/-- **The election converges and never loses its last beacon.** -/
theorem election_converges [Finite ι] [Nonempty ι] (fp : FpConv) (content : ι → Bytes)
    (hinj : Function.Injective content) (aps : ℕ → ι → Ap) (hc : Contents fp content (aps 0))
    (hround : ∀ k, Round fp (aps k) (aps (k + 1))) :
    (∀ k, (enabled (aps k)).Nonempty → (enabled (aps (k + 1))).Nonempty) ∧
      ∃ w, Election.IsWinner (fun i => strKey (content i)) (enabled (aps 0)) w ∧
        ∀ k, 2 ≤ k → enabled (aps k) = {w} := by
  have hkey : Function.Injective fun i => strKey (content i) := strKey_injective.comp hinj
  have hcontents : ∀ k, Contents fp content (aps k) := by
    intro k
    induction k with
    | zero => exact hc
    | succ k ih => exact ih.round (hround k)
  have hrun : ∀ k, enabled (aps (k + 1)) = Election.next (fun i => strKey (content i)) (enabled (aps k)) :=
    fun k => enabled_round (hcontents k) (hround k)
  refine ⟨fun k hk => ?_, Election.run_settles (E := fun k => enabled (aps k)) hkey hrun⟩
  rw [hrun]
  exact Election.next_nonempty hkey hk

end Rounds

/-- Two connected access points with the ids 1 and 2, neither of them enabled. -/
def twoAps (i : Fin 2) : Ap :=
  ⟨⟨fun field =>
      if field = ascii "connecting" then some (.bool true)
      else if field = ascii "apid" then some (.str (if i = 0 then ascii "1" else ascii "2"))
      else some (.str (ascii "x")), some (ascii "y")⟩, false, []⟩

/-- What they hear: the contents of the enabled ones, in the order of their ids. -/
def heardBy (fp : FpConv) (aps : Fin 2 → Ap) : List (Option Bytes) := [beacon fp (aps 0), beacon fp (aps 1)]

/-- The rounds they go through. -/
def twoApsRun (fp : FpConv) : ℕ → Fin 2 → Ap
  | 0 => twoAps
  | k + 1 => fun i => watch fp id (heardBy fp (twoApsRun fp k)) (twoApsRun fp k i)

/-- The C library of the example converts no numbers. -/
def noNumbers : FpConv := ⟨fun _ => none, fun _ => []⟩

/-- The content of each of them. -/
def twoContents (i : Fin 2) : Bytes := ((twoAps i).ins.getContent noNumbers).getD []

theorem election_converges_two :
    (∀ k, (enabled (twoApsRun noNumbers k)).Nonempty → (enabled (twoApsRun noNumbers (k + 1))).Nonempty) ∧
      ∃ w, Election.IsWinner (fun i => strKey (twoContents i)) (enabled (twoApsRun noNumbers 0)) w ∧
        ∀ k, 2 ≤ k → enabled (twoApsRun noNumbers k) = {w} := by
  refine election_converges noNumbers twoContents ?_ (twoApsRun noNumbers) ?_ fun k i => ?_
  · show ∀ i j, twoContents i = twoContents j → i = j
    decide +kernel
  · intro i
    fin_cases i
    · exact ⟨by decide +kernel, by decide +kernel⟩
    · exact ⟨by decide +kernel, by decide +kernel⟩
  · refine ⟨heardBy noNumbers (twoApsRun noNumbers k), id, fun l => List.Perm.refl l, fun m => ?_, rfl⟩
    simp [heardBy, Fin.exists_fin_two, eq_comm]

end ApApps.Beacon

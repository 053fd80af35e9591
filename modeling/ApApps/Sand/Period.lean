import ApApps.Sand.Runs

/- The period of the keepalive timer, in exact arithmetic.

   `cmd_map.cn` checks a lower bound of the keepalive, `uv.timer_start` takes an
   integer of 64 bits. A double is a fraction with a power of two below the line
   (`dyadic_of_round`), and 2100 has two factors of two: the period `kp * 2.1 * 1000`
   is an integer exactly if the keepalive is a multiple of a quarter. -/
namespace ApApps

/-! ## Doubles as fractions -/

/-- A fraction over a power of two. -/
def Dyadic (q : ℚ) : Prop := ∃ (k : Nat) (m : Int), q * 2 ^ k = m

/-- The exact value of a number, if it is finite. -/
def LuaNum.exact : LuaNum → Option ℚ
  | .int i => some i
  | .flt (.fin q) => some q
  | .flt _ => none

theorem dyadic_int (i : Int) : Dyadic i := ⟨0, i, by simp⟩

theorem Dyadic.neg {q : ℚ} (h : Dyadic q) : Dyadic (-q) := by
  obtain ⟨k, m, hq⟩ := h
  exact ⟨k, -m, by rw [neg_mul, hq, Int.cast_neg]⟩

theorem dyadic_scale (r e : Int) : Dyadic ((r : ℚ) * scale 2 e) := by
  unfold scale
  split
  · refine ⟨0, r * 2 ^ e.toNat, ?_⟩
    rw [Rat.mkRat_one]
    push_cast
    ring
  · refine ⟨(-e).toNat, r, ?_⟩
    have h2 : ((2 : ℚ) ^ (-e).toNat) ≠ 0 := pow_ne_zero _ (by norm_num)
    rw [Rat.mkRat_eq_div]
    push_cast
    field_simp

/-- **A double is a fraction over a power of two.** -/
theorem dyadic_of_round {q r : ℚ} (h : Flt.round q = .fin r) : Dyadic r := by
  unfold Flt.round at h
  split at h
  · cases h
    exact ⟨0, 0, by simp⟩
  · simp only at h
    split at h
    · split at h <;> cases h
    · have hd := dyadic_scale (roundHalfEven (|q| / scale 2 (lastBit |q|))) (lastBit |q|)
      injection h with h
      rw [← h]
      split
      · exact hd.neg
      · exact hd

/-- What `strtod` reads is rounded. -/
theorem str2d_round {s : Bytes} {f : Flt} (h : str2d s = some f) : ∃ q, f = Flt.round q := by
  unfold str2d at h
  split at h
  · cases h
  · simp only at h
    split at h
    all_goals
      split at h
      · cases h
      · split at h
        · cases h
        · split at h
          · cases h
          · injection h with h
            exact ⟨_, h.symm⟩

theorem exact_dyadic {s : Bytes} {v : LuaNum} {x : ℚ} (h : tonumber s = some v) (hx : v.exact = some x) :
    Dyadic x := by
  unfold tonumber at h
  split at h
  · cases h
    cases hx
    exact dyadic_int _
  · cases hf : str2d s with
    | none =>
      rw [hf] at h
      cases h
    | some f =>
      rw [hf] at h
      cases h
      obtain ⟨q, rfl⟩ := str2d_round hf
      cases hr : Flt.round q with
      | fin r =>
        rw [hr] at hx
        cases hx
        exact dyadic_of_round hr
      | inf | ninf | nan =>
        rw [hr] at hx
        cases hx

end ApApps

namespace ApApps.Sand

/-- `kp * 2.1 * 1000`, in exact arithmetic. -/
def exactPeriod (kp : LuaNum) : Option ℚ := kp.exact.map fun x => x * mkRat 21 10 * 1000

/-- The exact period is an integer of 64 bits. -/
def ValidPeriod (kp : LuaNum) : Prop :=
  ∃ p ∈ exactPeriod kp, ∃ n : Int, p = n ∧ -2 ^ 63 ≤ n ∧ n < 2 ^ 63

/-- A finite multiple of a quarter, below `2 ^ 63 / 2100`. -/
def QuarterSeconds (kp : LuaNum) : Prop :=
  ∃ x ∈ kp.exact, (∃ m : Int, 4 * x = m) ∧ x < 2 ^ 63 / 2100

/-- 2100 has two factors of two: more of them cannot be below the line. -/
theorem quarter_of_dyadic {x : ℚ} (hx : Dyadic x) {n : Int} (hn : 2100 * x = n) : ∃ m : Int, 4 * x = m := by
  obtain ⟨k, m, hm⟩ := hx
  have hcop : IsCoprime (525 : Int) (2 ^ k) := IsCoprime.pow_right (by norm_num)
  obtain ⟨a, b, hab⟩ := hcop
  have habq : (a : ℚ) * 525 + b * 2 ^ k = 1 := by exact_mod_cast hab
  refine ⟨a * n + 4 * b * m, ?_⟩
  push_cast
  calc 4 * x = (a * 525 + b * 2 ^ k) * (4 * x) := by rw [habq, one_mul]
    _ = a * (2100 * x) + 4 * b * (x * 2 ^ k) := by ring
    _ = a * n + 4 * b * m := by rw [hn, hm]

theorem period_eq (x : ℚ) : x * mkRat 21 10 * 1000 = 2100 * x := by
  rw [Rat.mkRat_eq_div]
  push_cast
  ring

/-- An accepted keepalive is a finite number from 5 on, or infinite. -/
theorem five_le_exact {kp : LuaNum} (h5 : (LuaNum.int 5).le kp = true) {x : ℚ} (hx : kp.exact = some x) :
    5 ≤ x := by
  have h5' : Flt.round ((5 : Int) : ℚ) = .fin 5 := by decide +kernel
  cases kp with
  | int i =>
    cases hx
    have hi : (5 : Int) ≤ i := by simpa only [LuaNum.le, decide_eq_true_eq] using h5
    exact_mod_cast hi
  | flt f =>
    cases f with
    | fin q =>
      cases hx
      simpa only [LuaNum.le, LuaNum.toFlt, h5', Flt.le, decide_eq_true_eq] using h5
    | inf | ninf | nan => cases hx

/-- The period of a numeral is valid exactly for the quarters of a second in range. -/
theorem validPeriod_iff_quarter {s : Bytes} {kp : LuaNum} (hkp : tonumber s = some kp)
    (h5 : (LuaNum.int 5).le kp = true) : ValidPeriod kp ↔ QuarterSeconds kp := by
  constructor
  · rintro ⟨p, hp, n, rfl, _, hlt⟩
    obtain ⟨x, hx, hxn⟩ := Option.mem_map.mp hp
    rw [period_eq] at hxn
    refine ⟨x, hx, quarter_of_dyadic (exact_dyadic hkp hx) hxn, ?_⟩
    have hnq : (n : ℚ) < 2 ^ 63 := by exact_mod_cast hlt
    rw [lt_div_iff₀ (by norm_num)]
    linarith
  · rintro ⟨x, hx, ⟨m, hm⟩, hlt⟩
    have hx5 := five_le_exact h5 hx
    have hp : x * mkRat 21 10 * 1000 = ((525 * m : Int) : ℚ) := by
      rw [period_eq]
      push_cast
      linarith
    refine ⟨_, Option.mem_map_of_mem _ hx, 525 * m, hp, ?_, ?_⟩
    · have : (0 : ℚ) ≤ ((525 * m : Int) : ℚ) := by rw [← hp, period_eq]; linarith
      have h0 : (0 : Int) ≤ 525 * m := by exact_mod_cast this
      omega
    · rw [lt_div_iff₀ (by norm_num)] at hlt
      have : ((525 * m : Int) : ℚ) < 2 ^ 63 := by rw [← hp, period_eq]; linarith
      exact_mod_cast this

/-- **Which keepalives give a valid timer.** The keepalive of a cn command that passes
the check is a number; its period is an integer of 64 bits exactly if the keepalive is a
multiple of a quarter below `2 ^ 63 / 2100`. -/
theorem keepalive_period {map : Fields} (hok : validParam map (kpOf map) = true) :
    ∃ kp, kpOf map = some kp ∧ (ValidPeriod kp ↔ QuarterSeconds kp) := by
  cases hkp : kpOf map with
  | none =>
    rw [hkp] at hok
    simp [validParam] at hok
  | some kp =>
    refine ⟨kp, rfl, ?_⟩
    obtain ⟨s, _, hs⟩ := Option.bind_eq_some_iff.mp hkp
    refine validPeriod_iff_quarter hs ?_
    rw [hkp] at hok
    simp only [validParam, Bool.and_eq_true] at hok
    exact hok.1.2

/-- The fields of a cn command with the keepalive `kp`. -/
def keepaliveFields (kp : String) : Fields :=
  [("cd", ascii "x"), ("vv", ascii "v0.1"), ("un", brokerUser), ("pw", brokerPassword), ("kp", ascii kp),
    ("tp", ascii "a")].foldl (fun m kv => m.set (ascii kv.1) kv.2) .empty

/-- Seven and a quarter seconds. -/
theorem keepalive_period_quarter :
    ∃ kp, kpOf (keepaliveFields "0x1.dp2") = some kp ∧ (ValidPeriod kp ↔ QuarterSeconds kp) :=
  keepalive_period (by decide +kernel)

/-- A period that is valid has nothing below the line. -/
theorem ValidPeriod.den_eq_one {kp : LuaNum} (h : ValidPeriod kp) : (exactPeriod kp).map Rat.den = some 1 := by
  obtain ⟨p, hp, n, rfl, _, _⟩ := h
  rw [Option.mem_def.mp hp, Option.map_some, Rat.den_intCast]

/-- A keepalive of 5.0001 is accepted; its period is no integer, and the broker ends. -/
theorem keepalive_fraction :
    validParam (keepaliveFields "5.0001") (kpOf (keepaliveFields "5.0001")) = true ∧
      (¬ ∃ kp, kpOf (keepaliveFields "5.0001") = some kp ∧ ValidPeriod kp) ∧
      ∃ s, run .calm [.accept 0 5, .chunk 0 (cnFrame "x" "5.0001" "a" [])] =
        .error (.badArgument "timer_start") s := by
  refine ⟨by decide +kernel, ?_, exists_of_raises (by decide +kernel)⟩
  rintro ⟨kp, hkp, hvalid⟩
  have hden : ((kpOf (keepaliveFields "5.0001")).bind exactPeriod).map Rat.den ≠ some 1 := by decide +kernel
  rw [hkp, Option.bind_some] at hden
  exact hden hvalid.den_eq_one

end ApApps.Sand

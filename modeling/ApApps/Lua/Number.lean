import ApApps.Lua.Basic

/- Lua 5.3.1 numbers: a 64-bit integer or a double. Doubles are exact rationals
   rounded after every operation to the nearest representable value, ties to even
   (`Flt.round`); `tonumber` is the scanner of `lobject.c` (`l_str2int`, then
   `l_str2d`, which is the C library's `strtod` with `inf` and `nan` refused). -/
namespace ApApps

/-- A double; the sign of zero is not kept. -/
inductive Flt where
  | fin (q : ℚ)
  | inf
  | ninf
  | nan
  deriving DecidableEq

/-- `base ^ e` for an integer exponent. -/
def scale (base : Nat) (e : Int) : ℚ :=
  if 0 ≤ e then mkRat (base ^ e.toNat : Nat) 1 else mkRat 1 (base ^ (-e).toNat)

/-- The nearest integer, ties to even. -/
def roundHalfEven (x : ℚ) : Int :=
  let f := x.floor
  let d := x - f
  if d < 1 / 2 then f else if 1 / 2 < d then f + 1 else if f % 2 = 0 then f else f + 1

/-- The exponent of the last mantissa bit of the double nearest to a positive `q`:
53 bits of mantissa, and none below `2 ^ -1074`. -/
def lastBit (q : ℚ) : Int :=
  let e : Int := (Nat.log2 q.num.natAbs : Int) - (Nat.log2 q.den : Int)
  let e := if q < scale 2 e then e - 1 else e
  max (e - 52) (-1074)

/-- The double nearest to `q`. -/
def Flt.round (q : ℚ) : Flt :=
  if q = 0 then .fin 0
  else
    let e := lastBit |q|
    let r := (roundHalfEven (|q| / scale 2 e) : ℚ) * scale 2 e
    if scale 2 1024 ≤ r then (if q < 0 then .ninf else .inf)
    else .fin (if q < 0 then -r else r)

/-- The sign of a double, as a factor. -/
def Flt.sign : Flt → Int
  | .fin q => if q < 0 then -1 else if q = 0 then 0 else 1
  | .inf => 1
  | .ninf => -1
  | .nan => 0

def Flt.mul : Flt → Flt → Flt
  | .fin a, .fin b => Flt.round (a * b)
  | a, b =>
    if a = .nan ∨ b = .nan then .nan
    else if a.sign * b.sign = 0 then .nan
    else if a.sign * b.sign = 1 then .inf else .ninf

/-- `a <= b` on doubles. -/
def Flt.le : Flt → Flt → Bool
  | .nan, _ => false
  | _, .nan => false
  | .ninf, _ => true
  | _, .inf => true
  | .fin a, .fin b => a ≤ b
  | _, _ => false

/-- A Lua number. -/
inductive LuaNum where
  | int (i : Int)
  | flt (f : Flt)
  deriving DecidableEq

def LuaNum.toFlt : LuaNum → Flt
  | .int i => Flt.round i
  | .flt f => f

/-- `a * b`. -/
def LuaNum.mul : LuaNum → LuaNum → LuaNum
  | .int a, .int b => .int (luaInteger (a * b))
  | a, b => .flt (a.toFlt.mul b.toFlt)

/-- `a <= b`. -/
def LuaNum.le : LuaNum → LuaNum → Bool
  | .int a, .int b => a ≤ b
  | a, b => a.toFlt.le b.toFlt

/-- `luaL_checkinteger`: an integer, or a float with an exact 64-bit integer value. -/
def LuaNum.toInteger : LuaNum → Option Int
  | .int i => some i
  | .flt (.fin q) =>
    if q.den = 1 ∧ -2 ^ 63 ≤ q.num ∧ q.num < 2 ^ 63 then some q.num else none
  | .flt _ => none

/-- `a == b`: an integer and a float are equal if the float has the value of the integer. -/
def LuaNum.eq : LuaNum → LuaNum → Bool
  | .int a, .int b => a = b
  | .flt a, .flt b => a = b && a ≠ .nan
  | .int a, .flt b => (LuaNum.flt b).toInteger = some a
  | .flt a, .int b => (LuaNum.flt a).toInteger = some b

/-- The numeral `2.1` of the source. -/
def twoPointOne : LuaNum := .flt (Flt.round (mkRat 21 10))

/-! ## tonumber -/

/-- `isspace` in the C locale. -/
def isSpace (c : UInt8) : Bool := c = 32 || (9 ≤ c && c ≤ 13)

def isXDigit (c : UInt8) : Bool :=
  isDigit c || (97 ≤ c && c ≤ 102) || (65 ≤ c && c ≤ 70)

/-- `luaO_hexavalue`; for a decimal digit it is the digit. -/
def hexaValue (c : UInt8) : Nat :=
  if isDigit c then c.toNat - 48 else if 97 ≤ c then c.toNat - 87 else c.toNat - 55

def skipSpaces (s : Bytes) : Bytes := s.dropWhile isSpace

/-- An optional sign: whether it is `-`, and what follows it. -/
def isNeg : Bytes → Bool × Bytes
  | [] => (false, [])
  | c :: s =>
    if c = ch '-' then (true, s) else if c = ch '+' then (false, s) else (false, c :: s)

/-- A `0x` or `0X` in front, removed. -/
def hexPrefix : Bytes → Option Bytes
  | c :: x :: s => if c = ch '0' ∧ (x = ch 'x' ∨ x = ch 'X') then some s else none
  | _ => none

/-- The value of a run of digits. -/
def digitsVal (base : Nat) (ds : Bytes) : Nat :=
  ds.foldl (fun a c => a * base + hexaValue c) 0

/-- `l_str2int`: the integer wraps around at 64 bits. -/
def str2int (s : Bytes) : Option Int :=
  let (neg, s) := isNeg (skipSpaces s)
  let (base, ds, rest) := match hexPrefix s with
    | some h => (16, h.takeWhile isXDigit, h.dropWhile isXDigit)
    | none => (10, s.takeWhile isDigit, s.dropWhile isDigit)
  let a : Int := digitsVal base ds
  if ds = [] ∨ skipSpaces rest ≠ [] then none
  else some (luaInteger (if neg then -a else a))

/-- An exponent part introduced by `mark` or `Mark`, if there is one. -/
def exponent (mark markUpper : UInt8) : Bytes → Option (Int × Bytes)
  | [] => some (0, [])
  | c :: s =>
    if c = mark ∨ c = markUpper then
      let (neg, s) := isNeg s
      let ds := s.takeWhile isDigit
      let e : Int := digitsVal 10 ds
      if ds = [] then none else some (if neg then -e else e, s.dropWhile isDigit)
    else some (0, c :: s)

/-- The digits before and after an optional point, and what follows them. -/
def mantissa (digit : UInt8 → Bool) (s : Bytes) : Bytes × Bytes × Bytes :=
  let whole := s.takeWhile digit
  match s.dropWhile digit with
  | [] => (whole, [], [])
  | c :: r =>
    if c = ch '.' then (whole, r.takeWhile digit, r.dropWhile digit) else (whole, [], c :: r)

/-- `l_str2d`: a decimal or hexadecimal numeral of `strtod`, blanks around it. -/
def str2d (s : Bytes) : Option Flt :=
  if ch 'n' ∈ s ∨ ch 'N' ∈ s then none
  else
    let (neg, s) := isNeg (skipSpaces s)
    let read (base ebase digits : Nat) (digit : UInt8 → Bool) (mark Mark : UInt8) (s : Bytes) :
        Option Flt :=
      let (whole, frac, rest) := mantissa digit s
      if whole ++ frac = [] then none
      else match exponent mark Mark rest with
        | none => none
        | some (e, rest) =>
          if skipSpaces rest ≠ [] then none
          else
            let v := (digitsVal base (whole ++ frac) : ℚ) *
              scale ebase (e - (digits * frac.length : Nat))
            some (Flt.round (if neg then -v else v))
    match hexPrefix s with
    | some h => read 16 2 4 isXDigit (ch 'p') (ch 'P') h
    | none => read 10 10 1 isDigit (ch 'e') (ch 'E') s

/-- `tonumber` of a string. -/
def tonumber (s : Bytes) : Option LuaNum :=
  match str2int s with
  | some i => some (.int i)
  | none => (str2d s).map .flt

/-! ## Equality -/

theorem LuaNum.eq_fin_of_toInteger {x : Flt} {i : Int} (h : (LuaNum.flt x).toInteger = some i) :
    x = .fin i := by
  cases x with
  | fin q =>
    simp only [LuaNum.toInteger] at h
    split at h
    · rename_i hq
      obtain rfl := Option.some.inj h
      exact congrArg Flt.fin (Rat.den_eq_one_iff q |>.mp hq.1).symm
    · cases h
  | inf => cases h
  | ninf => cases h
  | nan => cases h

theorem LuaNum.eq_symm {x y : LuaNum} (h : x.eq y = true) : y.eq x = true := by
  cases x with
  | int i =>
    cases y with
    | int j => simpa [LuaNum.eq, eq_comm] using h
    | flt g => exact h
  | flt f =>
    cases y with
    | int j => exact h
    | flt g =>
      simp only [LuaNum.eq, Bool.and_eq_true, decide_eq_true_eq] at h ⊢
      exact ⟨h.1.symm, h.1 ▸ h.2⟩

theorem LuaNum.eq_trans {x y z : LuaNum} (h : x.eq y = true) (h' : y.eq z = true) : x.eq z = true := by
  cases x with
  | int i =>
    cases y with
    | int j =>
      obtain rfl : i = j := by simpa [LuaNum.eq] using h
      exact h'
    | flt g =>
      have hg : (LuaNum.flt g).toInteger = some i := by simpa [LuaNum.eq] using h
      cases z with
      | int k =>
        have hk : (LuaNum.flt g).toInteger = some k := by simpa [LuaNum.eq] using h'
        simpa [LuaNum.eq] using Option.some.inj (hg.symm.trans hk)
      | flt f =>
        simp only [LuaNum.eq, Bool.and_eq_true, decide_eq_true_eq] at h'
        simpa [LuaNum.eq, ← h'.1] using hg
  | flt f =>
    cases y with
    | int j =>
      have hf : (LuaNum.flt f).toInteger = some j := by simpa [LuaNum.eq] using h
      cases z with
      | int k =>
        obtain rfl : j = k := by simpa [LuaNum.eq] using h'
        exact h
      | flt g =>
        have hg : (LuaNum.flt g).toInteger = some j := by simpa [LuaNum.eq] using h'
        -- both are the integer
        rw [LuaNum.eq_fin_of_toInteger hf, LuaNum.eq_fin_of_toInteger hg]
        simp [LuaNum.eq]
    | flt g =>
      simp only [LuaNum.eq, Bool.and_eq_true, decide_eq_true_eq] at h
      obtain ⟨rfl, _⟩ := h
      exact h'

/-! ## Decimals -/

theorem ch_digit {c : Char} (h : c.isDigit) : isDigit (ch c) = true ∧ hexaValue (ch c) = c.toNat - 48 := by
  have hle : 48 ≤ c.toNat ∧ c.toNat ≤ 57 := by
    simp only [Char.isDigit, Bool.and_eq_true, decide_eq_true_eq] at h
    exact h
  have hall : ∀ n : Fin 58, 48 ≤ n.val →
      isDigit n.val.toUInt8 = true ∧ hexaValue n.val.toUInt8 = n.val - 48 := by decide
  exact hall ⟨c.toNat, by omega⟩ hle.1

/-- A number is printed in digits, perhaps behind a sign. -/
theorem mem_toString_int {i : Int} {c : Char} (h : c ∈ (toString i).toList) : c.isDigit = true ∨ c = '-' := by
  have hnat : ∀ n : Nat, c ∈ (toString n).toList → c.isDigit = true := by
    intro n hn
    rw [Nat.toString_eq_repr, Nat.repr, String.toList_ofList] at hn
    exact Nat.isDigit_of_mem_toDigits (by decide) (by decide) hn
  cases i with
  | ofNat n => exact .inl (hnat n h)
  | negSucc n =>
    have h : c ∈ ("-" ++ toString (n + 1)).toList := h
    rw [String.toList_append, List.mem_append] at h
    rcases h with h | h
    · exact .inr (by simpa using h)
    · exact .inl (hnat _ h)

theorem mem_ascii_int {i : Int} {b : UInt8} (h : b ∈ ascii (toString i)) : isDigit b = true ∨ b = ch '-' := by
  obtain ⟨c, hc, rfl⟩ := List.mem_map.mp h
  rcases mem_toString_int hc with hdigit | rfl
  · exact .inl (ch_digit hdigit).1
  · exact .inr rfl

theorem ascii_int_ne_nil (i : Int) : ascii (toString i) ≠ [] := by
  have hne : (toString i).toList ≠ [] := by
    cases i with
    | ofNat n =>
      have h : (toString (Int.ofNat n)).toList = Nat.toDigits 10 n := by
        show (Nat.repr n).toList = _
        rw [Nat.repr, String.toList_ofList]
      rw [h]
      exact Nat.toDigits_ne_nil
    | negSucc n =>
      have h : (toString (Int.negSucc n)).toList = ("-" ++ toString (n + 1)).toList := rfl
      rw [h, String.toList_append]
      simp
  simpa [ascii] using hne

theorem ascii_inj {s t : String} (hs : ∀ c ∈ s.toList, c.toNat < 256) (ht : ∀ c ∈ t.toList, c.toNat < 256)
    (h : ascii s = ascii t) : s = t := by
  have hback : ∀ s : String, (∀ c ∈ s.toList, c.toNat < 256) →
      (ascii s).map (fun b => Char.ofNat b.toNat) = s.toList := by
    intro s hs
    rw [ascii, List.map_map]
    refine (List.map_congr_left fun c hc => ?_).trans (List.map_id _)
    have hlt := hs c hc
    simp only [Function.comp_apply, Nat.toUInt8, UInt8.toNat_ofNat', id_eq]
    rw [Nat.mod_eq_of_lt (by omega), Char.ofNat_toNat]
  have hlist := congrArg (List.map fun b => Char.ofNat b.toNat) h
  rw [hback s hs, hback t ht] at hlist
  exact String.toList_inj.mp hlist

/-- Different numbers are printed differently. -/
theorem ascii_int_inj {i j : Int} (h : ascii (toString i) = ascii (toString j)) : i = j := by
  have hsmall : ∀ i : Int, ∀ c ∈ (toString i).toList, c.toNat < 256 := by
    intro i c hc
    rcases mem_toString_int hc with hdigit | rfl
    · simp only [Char.isDigit, Bool.and_eq_true, decide_eq_true_eq] at hdigit
      have hle : c.toNat ≤ 57 := hdigit.2
      omega
    · decide
  exact Int.repr_injective (ascii_inj (hsmall i) (hsmall j) h)

end ApApps

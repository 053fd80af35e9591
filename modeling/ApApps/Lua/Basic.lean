import Mathlib

/- Lua 5.3.1 as the programs of this repository use it: byte strings and their
   literals, the `%s` directive of `string.format`, the splitting and joining of a
   tab-separated list, the errors a Lua function can raise, and two's-complement
   wrap-around of the C integers that count bytes. -/
namespace ApApps

/-- A Lua string is a byte string; it may contain any byte, NUL included. -/
abbrev Bytes := List UInt8

/-- Comparing strings byte by byte is equality. -/
instance lawfulBEqBytes : LawfulBEq Bytes := inferInstance

/-- The bytes of a literal of the source (all of them ASCII). -/
def ascii (s : String) : Bytes := s.toList.map (fun c => c.toNat.toUInt8)

/-- The byte of a character constant of the source. -/
def ch (c : Char) : UInt8 := c.toNat.toUInt8

def NUL : UInt8 := 0
def TAB : UInt8 := 9
def LF : UInt8 := 10
def CR : UInt8 := 13

/-- `'0' <= c && c <= '9'`. -/
def isDigit (c : UInt8) : Bool := 48 ≤ c && c ≤ 57

/-- `c - '0'` for a digit. -/
def digitVal (c : UInt8) : Nat := c.toNat - 48

/-- What a Lua function raises instead of returning. -/
inductive LuaError where
  /-- a failed `assert` in the function `site` -/
  | assertFailed (site : String)
  /-- `t[nil] = v` -/
  | nilKey
  /-- a field or method of nil -/
  | nilIndexed
  /-- the library function `fn` is given a value of the wrong type -/
  | badArgument (fn : String)
  /-- `error` or `luaL_error` with this text -/
  | message (text : String)
  deriving DecidableEq, Repr

/-- What `%s` puts into the result of `string.format` for the string `v`: a
string of 100 bytes or more is added as it is, a shorter one goes through
`sprintf` and ends at its first NUL. -/
def formatS (v : Bytes) : Bytes :=
  if 100 ≤ v.length then v else v.takeWhile (· ≠ NUL)

/-- The parts `(s .. "\t"):gmatch("(.-)\t")` yields: `s` cut at every tab. -/
def splitTabs (s : Bytes) : List Bytes := s.splitOn TAB

/-- `table.concat(parts, "\t")`. -/
def concatTabs (parts : List Bytes) : Bytes := [TAB].intercalate parts

/-- The value a signed C integer of `bits` bits holds after a computation whose
exact result is `x` (two's-complement wrap-around). -/
def wrapInt (bits : Nat) (x : Int) : Int := Int.bmod x (2 ^ bits)

/-- The value of an `int`. -/
abbrev cInt (x : Int) : Int := wrapInt 32 x

/-- The value of a `lua_Integer`, 64 bits on every target. -/
abbrev luaInteger (x : Int) : Int := wrapInt 64 x

/-- The machine the C code is built for, as far as its results depend on it: how many
bits an `ssize_t` has. -/
class Target where
  ssizeBits : Nat
  one_lt_ssizeBits : 1 < ssizeBits

/-- The value of an `ssize_t`. -/
abbrev cSsize [Target] (x : Int) : Int := wrapInt Target.ssizeBits x

/-- A 64-bit machine. What is built over the C code is read on it. -/
instance lp64 : Target := ⟨64, by decide⟩

/-- A 32-bit machine, such as the access points with a mipsel processor. -/
abbrev ilp32 : Target := ⟨32, by decide⟩

/-! ## Lemmas -/

theorem length_formatS_le (v : Bytes) : (formatS v).length ≤ v.length := by
  unfold formatS
  split
  · exact Nat.le_refl _
  · exact (List.takeWhile_sublist _).length_le

/-- A string without NUL is formatted as it is. -/
theorem formatS_of_no_nul {v : Bytes} (h : NUL ∉ v) : formatS v = v := by
  unfold formatS
  split
  · rfl
  · rw [List.takeWhile_eq_self_iff]
    intro c hc
    simp only [decide_eq_true_eq]
    rintro rfl
    exact h hc

/-- A value that fits is not wrapped. -/
theorem wrapInt_of_fits {bits : Nat} {x : Int} (h0 : 0 ≤ x) (h : 2 * x < 2 ^ bits) :
    wrapInt bits x = x := by
  unfold wrapInt
  have hx : x < 2 ^ bits := by omega
  have hm : x % ((2 ^ bits : Nat) : Int) = x := by
    rw [Int.emod_eq_of_lt h0]
    push_cast
    exact hx
  rw [Int.bmod_def, hm]
  split
  · rfl
  · rename_i hn
    push_cast at hn
    omega

end ApApps

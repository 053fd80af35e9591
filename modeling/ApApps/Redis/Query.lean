import ApApps.Redis.Agree

/- `redis_build_query` of redis-parser.c, and that the parsers read back what it
   writes (`redisBuildQuery_frame`). Lengths are `Nat`: the length of a Lua string
   always fits the `int64_t` and the `size_t` they are printed from. -/
namespace ApApps.Redis
open Incremental

/-- An entry of the table given to `build_query`. -/
inductive QueryArg where
  /-- a string, or a number as the text `lua_tolstring` makes of it -/
  | text (s : Bytes)
  | bool (b : Bool)
  /-- `redis.parser.null` -/
  | null
  | other
  deriving DecidableEq

/-- `do { i = i / 10; n++; } while (i > 0);` -/
def numSizeLoop : Nat → Nat → Nat → Nat
  | 0, _, n => n
  | fuel + 1, i, n => if 0 < i / 10 then numSizeLoop fuel (i / 10) (n + 1) else n + 1

def getNumSize (i : Nat) : Nat := numSizeLoop (i + 1) i 0

/-- `do { *--p = ui64 % 10 + '0'; } while (ui64 /= 10);` -/
def sprintfNumLoop : Nat → Nat → Bytes → Bytes
  | 0, _, p => p
  | fuel + 1, ui64, p =>
    let p := (ui64 % 10 + 48).toUInt8 :: p
    if ui64 / 10 = 0 then p else sprintfNumLoop fuel (ui64 / 10) p

def sprintfNum (ui64 : Nat) : Bytes := sprintfNumLoop (ui64 + 1) ui64 []

/-- What the entry adds to `total`. -/
def QueryArg.size : QueryArg → Nat
  | .text s => 1 + getNumSize s.length + 2 + s.length + 2
  | .bool _ => 7
  | .null => 5
  | .other => 0

/-- What the entry writes into the buffer. -/
def QueryArg.bytes : QueryArg → Bytes
  | .text s => ch '$' :: (sprintfNum s.length ++ [CR, LF] ++ s ++ [CR, LF])
  | .bool b => ascii "$1\r\n" ++ [if b then ch '1' else ch '0', CR, LF]
  | .null => ascii "$-1\r\n"
  | .other => []

def redisBuildQuery (args : List QueryArg) : Except LuaError Bytes :=
  if args = [] then .error (.message "empty input param table")
  else if .other ∈ args then
    .error (.message ("parameter " ++ toString (args.findIdx (· = .other) + 1) ++
      " is not a string, number, redis.parser.null, or boolean value"))
  else
    let total := 1 + getNumSize args.length + 2 + (args.map QueryArg.size).sum
    let buf := ch '*' :: (sprintfNum args.length ++ [CR, LF] ++ (args.map QueryArg.bytes).flatten)
    if buf.length ≠ total then .error (.message "buffer error") else .ok buf

/-! ## Printing a number -/

theorem numSizeLoop_add (fuel i n : Nat) : numSizeLoop fuel i n = numSizeLoop fuel i 0 + n := by
  induction fuel generalizing i n with
  | zero => simp [numSizeLoop]
  | succ fuel ih =>
    simp only [numSizeLoop]
    split
    · rw [ih (i / 10) (n + 1), ih (i / 10) (0 + 1)]
      omega
    · omega

theorem decimalFrom_append (n : Nat) (ds : Bytes) (c : UInt8) :
    decimalFrom n (ds ++ [c]) = decimalFrom n ds * 10 + digitVal c := by
  simp only [decimalFrom, List.foldl_append, List.foldl_cons, List.foldl_nil]

/-- The byte `x % 10 + '0'` is the digit of `x % 10`. -/
theorem digit_byte (x : Nat) :
    isDigit (x % 10 + 48).toUInt8 = true ∧ digitVal (x % 10 + 48).toUInt8 = x % 10 := by
  have hlt : x % 10 < 10 := Nat.mod_lt _ (by decide)
  generalize x % 10 = d at hlt ⊢
  revert d
  decide

/-- The printed digits, before what the buffer already holds: they are as many as
`get_num_size` counts and read back as the number. -/
theorem sprintfNumLoop_spec {fuel x : Nat} (p : Bytes) (h : x < fuel) :
    ∃ ds, sprintfNumLoop fuel x p = ds ++ p ∧ (∀ c ∈ ds, isDigit c = true) ∧
      decimalFrom 0 ds = x ∧ ds.length = numSizeLoop fuel x 0 := by
  induction fuel generalizing x p with
  | zero => omega
  | succ fuel ih =>
    obtain ⟨hdig, hval⟩ := digit_byte x
    simp only [sprintfNumLoop, numSizeLoop]
    by_cases hx : x / 10 = 0
    · refine ⟨[(x % 10 + 48).toUInt8], ?_, ?_, ?_, ?_⟩
      · rw [if_pos hx]
        rfl
      · intro c hc
        rw [List.mem_singleton.mp hc]
        exact hdig
      · rw [← List.nil_append [_], decimalFrom_append, hval]
        show 0 * 10 + x % 10 = x
        omega
      · rw [if_neg (by omega)]
        rfl
    · obtain ⟨ds, hds, hall, hdec, hlen⟩ := ih ((x % 10 + 48).toUInt8 :: p) (x := x / 10) (by omega)
      refine ⟨ds ++ [(x % 10 + 48).toUInt8], ?_, ?_, ?_, ?_⟩
      · rw [if_neg hx, hds]
        simp
      · intro c hc
        rcases List.mem_append.mp hc with hc | hc
        · exact hall c hc
        · rw [List.mem_singleton.mp hc]
          exact hdig
      · rw [decimalFrom_append, hdec, hval]
        omega
      · rw [if_pos (by omega), numSizeLoop_add, List.length_append, hlen]
        rfl

theorem sprintfNum_spec (x : Nat) : (∀ c ∈ sprintfNum x, isDigit c = true) ∧
    decimalFrom 0 (sprintfNum x) = x ∧ (sprintfNum x).length = getNumSize x := by
  obtain ⟨ds, hds, hall, hdec, hlen⟩ := sprintfNumLoop_spec [] (Nat.lt_succ_self x)
  rw [List.append_nil] at hds
  rw [sprintfNum, hds]
  exact ⟨hall, hdec, hlen⟩

/-! ## The query is a frame -/

/-- The buffer is exactly as long as it was made, so "buffer error" is never raised. -/
theorem QueryArg.length_bytes {a : QueryArg} (h : a ≠ .other) : a.bytes.length = a.size := by
  cases a with
  | text s =>
    simp only [QueryArg.bytes, QueryArg.size, List.length_cons, List.length_append,
      List.length_nil, (sprintfNum_spec s.length).2.2]
    omega
  | bool b => cases b <;> decide
  | null => decide
  | other => exact absurd rfl h

theorem length_queryBytes {args : List QueryArg} (h : .other ∉ args) :
    (args.map QueryArg.bytes).flatten.length = (args.map QueryArg.size).sum := by
  induction args with
  | nil => rfl
  | cons a args ih =>
    simp only [List.mem_cons, not_or] at h
    rw [List.map_cons, List.flatten_cons, List.length_append, List.map_cons, List.sum_cons,
      ih h.2, QueryArg.length_bytes (fun ha => h.1 ha.symm)]

/-- What `build_query` gives for a non-empty table of valid entries. -/
theorem redisBuildQuery_eq (args : List QueryArg) (hne : args ≠ []) (h : .other ∉ args) :
    redisBuildQuery args =
      .ok (ch '*' :: (sprintfNum args.length ++ [CR, LF] ++ (args.map QueryArg.bytes).flatten)) := by
  unfold redisBuildQuery
  rw [if_neg hne, if_neg h]
  simp only
  rw [if_neg]
  rw [not_not, List.length_cons, List.length_append, List.length_append,
    (sprintfNum_spec args.length).2.2, length_queryBytes h]
  simp only [List.length_cons, List.length_nil]
  omega

/-- A string as a bulk element. -/
def bulkElement (v : Bytes) (h : v.length < 2 ^ 63) : Element :=
  .bulk (sprintfNum v.length) v (sprintfNum_spec v.length).1 (by
    obtain ⟨_, hdec, _⟩ := sprintfNum_spec v.length
    have := foldl_wrap_of_fits 64 0 (sprintfNum v.length)
      (by rw [hdec]; omega)
    rw [hdec] at this
    exact this)

/-- The elements of a query. -/
def queryElements : (vs : List Bytes) → (∀ v ∈ vs, v.length < 2 ^ 63) → List Element
  | [], _ => []
  | v :: vs, h => bulkElement v (h v (by simp)) :: queryElements vs (fun w hw => h w (by simp [hw]))

theorem queryElements_text {vs : List Bytes} (h : ∀ v ∈ vs, v.length < 2 ^ 63) :
    (queryElements vs h).map Element.text = vs := by
  induction vs with
  | nil => rfl
  | cons v vs ih => simp only [queryElements, List.map_cons, ih, bulkElement, Element.text]

theorem queryElements_bytes {vs : List Bytes} (h : ∀ v ∈ vs, v.length < 2 ^ 63) :
    elementsBytes (queryElements vs h) = ((vs.map QueryArg.text).map QueryArg.bytes).flatten := by
  induction vs with
  | nil => rfl
  | cons v vs ih =>
    have ih := ih (fun w hw => h w (by simp [hw]))
    simp only [elementsBytes] at ih
    simp only [queryElements, elementsBytes, List.map_cons, List.flatten_cons, ih, bulkElement,
      Element.bytes, QueryArg.bytes]

/-- **A query of strings is a frame of those strings.** -/
theorem redisBuildQuery_frame {vs : List Bytes} (hne : vs ≠ []) (hn : vs.length < 2 ^ 31)
    (hlen : ∀ v ∈ vs, v.length < 2 ^ 63) :
    ∃ f : Frame, redisBuildQuery (vs.map .text) = .ok f.bytes ∧ f.reply = .arr (vs.map some) := by
  obtain ⟨hdig, hdec, _⟩ := sprintfNum_spec vs.length
  have hval : headerValue cInt (sprintfNum vs.length) = vs.length := by
    rw [headerValue_of_fits (by rw [hdec]; exact hn), hdec]
  have hpos : 0 < vs.length := List.length_pos_iff.mpr hne
  have hel : (queryElements vs hlen).length = vs.length := by
    rw [← List.length_map (f := Element.text), queryElements_text hlen]
  let f : Frame := ⟨sprintfNum vs.length, queryElements vs hlen, hdig, by rw [hval]; omega,
    by rw [hval, hel]; omega⟩
  refine ⟨f, ?_, ?_⟩
  · rw [redisBuildQuery_eq _ (by simpa using hne) (by simp)]
    simp only [f, Frame.bytes, queryElements_bytes, List.length_map]
  · rw [Frame.reply_texts (show headerValue cInt (sprintfNum vs.length) ≠ -1 by omega)]
    show Reply.arr (((queryElements vs hlen).map Element.text).map some) = .arr (vs.map some)
    rw [queryElements_text hlen]

end ApApps.Redis

import ApApps.Nredis.Reply

/- What `redis_format` writes, `redis_parse` reads back.

   A text is made of lines, which are read up to their CRLF, and of other bytes, which are
   counted. `Takes x t v`: in front of `t`, in any pieces that leave the line ends whole, `x`
   returns `v` and leaves exactly what comes after; and if the stream ends inside of `t`, it
   returns the error the stream ends with and the reader has failed. That is closed under
   sequencing (`Takes.bind`), so a reader function is followed along the text it is given.
   `Resp` are the replies the protocol knows, and each is taken (`resp_takes`). What
   `redis_format` writes for a `Sendable` object, one whose strings survive `%s` and end where
   they should, is such a reply; `parse_format` is the round trip. -/
namespace ApApps.Nredis
open Exec Pieces ApApps.Bufio ApApps.Redis

/-! ## Reading a given text -/

/-- `x` reads `text`, and nothing after it, as `v`. -/
def Reads {α : Type} (x : M α) (text : Bytes) (v : α) : Prop :=
  ∀ (r : Reader) (rest e : Bytes), r.At (text ++ rest) [] e → ∃ r', x r = .ok v r' ∧ r'.At rest [] e

theorem Reads.pure {α : Type} (v : α) : Reads (pure v) [] v := fun r _ _ h => ⟨r, rfl, h⟩

theorem Reads.bind {α β : Type} {x : M α} {f : α → M β} {t u : Bytes} {a : α} {b : β} (hx : Reads x t a)
    (hf : Reads (f a) u b) : Reads (x >>= f) (t ++ u) b := by
  intro r rest e h
  rw [List.append_assoc] at h
  obtain ⟨r1, hr1, h1⟩ := hx r (u ++ rest) e h
  obtain ⟨r2, hr2, h2⟩ := hf r1 rest e h1
  exact ⟨r2, by rw [bind_of_ok hr1, hr2], h2⟩

/-- Nothing is read after the first part. -/
theorem Reads.bind_pure {α β : Type} {x : M α} {f : α → M β} {t : Bytes} {a : α} {b : β} (hx : Reads x t a)
    (hf : f a = Pure.pure b) : Reads (x >>= f) t b := by
  have h := hx.bind (f := f) (u := []) (b := b) (hf ▸ Reads.pure b)
  rwa [List.append_nil] at h

/-- A text, and where the CRLFs of its lines are. -/
structure Text where
  bytes : Bytes
  ends : List Nat

namespace Text

/-- Bytes that are counted. -/
def data (s : Bytes) : Text := ⟨s, []⟩

/-- A line. -/
def line (s : Bytes) : Text := ⟨s ++ [CR, LF], [s.length]⟩

instance : Append Text where
  append t u := ⟨t.bytes ++ u.bytes, t.ends ++ u.ends.map (t.bytes.length + ·)⟩

/-- One text after the other. -/
def concat (ts : List Text) : Text := ts.foldr (· ++ ·) (data [])

@[simp] theorem bytes_data (s : Bytes) : (data s).bytes = s := rfl

@[simp] theorem bytes_line (s : Bytes) : (line s).bytes = s ++ [CR, LF] := rfl

@[simp] theorem bytes_append (t u : Text) : (t ++ u).bytes = t.bytes ++ u.bytes := rfl

@[simp] theorem bytes_concat_cons (t : Text) (ts : List Text) : (concat (t :: ts)).bytes = t.bytes ++ (concat ts).bytes :=
  rfl

theorem append_data_nil (t : Text) : t ++ data [] = t := by
  show (⟨t.bytes ++ [], t.ends ++ []⟩ : Text) = t
  rw [List.append_nil, List.append_nil]

/-- No piece ends inside a line end that has come. -/
def Unsplit (t : Text) (ps : List Bytes) : Prop := ∀ i ∈ t.ends, i + 2 ≤ ps.flatten.length → Inside i 2 ps

theorem unsplit_single (t : Text) (s : Bytes) : t.Unsplit [s] := by
  intro i _ hle
  rw [List.flatten_cons, List.flatten_nil, List.append_nil] at hle
  exact .inl hle

/-- An empty piece in front makes no difference. -/
theorem Unsplit.cons_nil {t : Text} {ps : List Bytes} (h : t.Unsplit ps) : t.Unsplit ([] :: ps) :=
  fun i hi hle => .inr ⟨Nat.zero_le i, h i hi hle⟩

theorem Unsplit.left {t u : Text} {ps : List Bytes} (h : (t ++ u).Unsplit ps) : t.Unsplit ps :=
  fun i hi => h i (List.mem_append_left _ hi)

/-- What is left after the first text has no piece that ends inside a line end of the
second. -/
theorem Unsplit.right {t u : Text} {ps : List Bytes} (h : (t ++ u).Unsplit ps)
    (hle : t.bytes.length ≤ ps.flatten.length) : u.Unsplit (dropPieces t.bytes.length ps) := by
  intro i hi hlen
  rw [flatten_dropPieces, List.length_drop] at hlen
  exact (h (t.bytes.length + i) (List.mem_append_right _ (List.mem_map_of_mem hi)) (by omega)).dropPieces Nat.two_pos

end Text

/-- `x` reads the text as `v`, and nothing after it. If the stream ends inside of the text, `x`
returns the error it ends with, and so does the reader from then on. -/
structure Takes {α : Type} (x : M (Result α)) (t : Text) (v : α) : Prop where
  whole : ∀ (r : Reader) (p : Bytes) (ps : List Bytes) (rest e : Bytes), r.At p ps e →
    (p :: ps).flatten = t.bytes ++ rest → t.Unsplit (p :: ps) →
      ∃ r' q qs, x r = .ok (.ok v) r' ∧ dropPieces t.bytes.length (p :: ps) = q :: qs ∧ r'.At q qs e
  cut : ∀ (r : Reader) (p : Bytes) (ps : List Bytes) (e : Bytes), r.At p ps e →
    (p :: ps).flatten <+: t.bytes → (p :: ps).flatten.length < t.bytes.length → t.Unsplit (p :: ps) →
      ∃ r', x r = .ok (.error (some e)) r' ∧ r'.err = some e

/-- In one piece. -/
theorem Takes.reads {α : Type} {x : M (Result α)} {t : Text} {v : α} (h : Takes x t v) : Reads x t.bytes (.ok v) := by
  intro r rest e hat
  obtain ⟨r', q, qs, hr', hdrop, hat'⟩ := h.whole r _ [] rest e hat (by simp) (Text.unsplit_single t _)
  rw [dropPieces, if_pos (by simp), List.drop_left] at hdrop
  obtain ⟨rfl, rfl⟩ := List.cons.inj hdrop
  exact ⟨r', hr', hat'⟩

theorem Takes.pure {α : Type} (v : α) : Takes (Pure.pure (.ok v)) (.data []) v where
  whole r p ps _ _ h _ _ := ⟨r, p, ps, rfl, by rw [Text.bytes_data, List.length_nil, dropPieces, if_pos (Nat.zero_le _), List.drop_zero], h⟩
  cut _ _ _ _ _ _ hlt := absurd hlt (Nat.not_lt_zero _)

/-- An error of the first reader is passed on. -/
theorem Takes.bind {α β : Type} {x : M (Result α)} {f : Result α → M (Result β)} {t u : Text} {a : α} {b : β}
    (hx : Takes x t a) (herr : ∀ err, f (.error err) = Pure.pure (.error err)) (hf : Takes (f (.ok a)) u b) :
    Takes (x >>= f) (t ++ u) b where
  whole r p ps rest e h hps hun := by
    rw [Text.bytes_append, List.append_assoc] at hps
    have hun' := hun.right (by rw [hps, List.length_append]; omega)
    obtain ⟨r1, q, qs, hr1, hdrop, h1⟩ := hx.whole r p ps (u.bytes ++ rest) e h hps hun.left
    have hqs : (q :: qs).flatten = u.bytes ++ rest := by
      rw [← hdrop, flatten_dropPieces, hps, List.drop_left]
    obtain ⟨r2, q', qs', hr2, hdrop', h2⟩ := hf.whole r1 q qs rest e h1 hqs (hdrop ▸ hun')
    refine ⟨r2, q', qs', by rw [bind_of_ok hr1, hr2], ?_, h2⟩
    rw [Text.bytes_append, List.length_append, ← dropPieces_dropPieces, hdrop, hdrop']
  cut r p ps e h hps hlt hun := by
    rw [Text.bytes_append] at hps hlt
    by_cases hlen : (p :: ps).flatten.length < t.bytes.length
    · -- the first text is cut
      have hpt := List.prefix_of_prefix_length_le hps (List.prefix_append t.bytes u.bytes) (Nat.le_of_lt hlen)
      obtain ⟨r1, hr1, herr1⟩ := hx.cut r p ps e h hpt hlen hun.left
      exact ⟨r1, by rw [bind_of_ok hr1, herr]; rfl, herr1⟩
    · -- the first text is whole, the second one is cut
      have hun' := hun.right (by omega)
      obtain ⟨v, hv⟩ : t.bytes <+: (p :: ps).flatten :=
        List.prefix_of_prefix_length_le (List.prefix_append t.bytes u.bytes) hps (by omega)
      rw [← hv, List.prefix_append_right_inj] at hps
      rw [← hv, List.length_append, List.length_append] at hlt
      obtain ⟨r1, q, qs, hr1, hdrop, h1⟩ := hx.whole r p ps v e h hv.symm hun.left
      have hqs : (q :: qs).flatten = v := by rw [← hdrop, flatten_dropPieces, ← hv, List.drop_left]
      obtain ⟨r2, hr2, herr2⟩ := hf.cut r1 q qs e h1 (hqs ▸ hps) (by rw [hqs]; omega) (hdrop ▸ hun')
      exact ⟨r2, by rw [bind_of_ok hr1, hr2], herr2⟩

/-- Nothing is read after the first part. -/
theorem Takes.bind_pure {α β : Type} {x : M (Result α)} {f : Result α → M (Result β)} {t : Text} {a : α} {b : β}
    (hx : Takes x t a) (herr : ∀ err, f (.error err) = Pure.pure (.error err))
    (hf : f (.ok a) = Pure.pure (.ok b)) : Takes (x >>= f) t b := by
  have h := hx.bind herr (hf ▸ Takes.pure b)
  rwa [Text.append_data_nil] at h

theorem takes_bytes {s : Bytes} {n : Nat} (hn : s.length = n) (hpos : 0 < n) : Takes (readerRead n) (.data s) s where
  whole r p ps rest e h hps _ := by
    rw [Text.bytes_data] at hps
    have hanswers := readerRead_answers h hpos
    rw [if_pos (by rw [hps, List.length_append]; omega)] at hanswers
    obtain ⟨r', q, qs, hres, hdrop, h'⟩ := hanswers
    have htake : (p :: ps).flatten.take n = s := by rw [hps, ← hn, List.take_left]
    rw [List.nil_append, htake] at hres
    exact ⟨r', q, qs, hres, by rwa [Text.bytes_data, hn], h'⟩
  cut r p ps e h _ hlt _ := by
    rw [Text.bytes_data] at hlt
    have hanswers := readerRead_answers h hpos
    rwa [if_neg (by omega)] at hanswers

theorem takes_line {s : Bytes} (hs : CR ∉ s) :
    Takes (readerReadUntil [CR, LF]) (.line s) (s ++ [CR, LF]) where
  whole r p ps rest e h hps hun := by
    rw [Text.bytes_line, List.append_assoc] at hps
    have hfind : findAt [CR, LF] (p :: ps).flatten = some s.length := by
      rw [hps]
      exact findAt_of_not_mem hs
    have hcollect : collect (lookFind [CR, LF]) () (p :: ps) = some (s.length + 2) := by
      rw [(collect_find _ _).mpr fun i hi => ?_, hfind]
      · rfl
      · rw [hfind] at hi
        cases hi
        refine hun s.length List.mem_cons_self ?_
        rw [hps]
        simp
    have hanswers := readerReadUntil_answers h (show ([CR, LF] : Bytes) ≠ [] by decide)
    rw [hcollect] at hanswers
    obtain ⟨r', q, qs, hres, hdrop, h'⟩ := hanswers
    have htake : (s ++ ([CR, LF] ++ rest)).take (s.length + 2) = s ++ [CR, LF] := by
      rw [List.take_length_add_append]
      rfl
    rw [List.nil_append, hps, htake] at hres
    refine ⟨r', q, qs, hres, ?_, h'⟩
    rw [Text.bytes_line, List.length_append]
    exact hdrop
  cut r p ps e h hps hlt _ := by
    rw [Text.bytes_line] at hps hlt
    have hnone : findAt [CR, LF] (p :: ps).flatten = none := by
      rw [Option.eq_none_iff_forall_ne_some]
      intro i hi
      obtain ⟨w, hw⟩ := hps
      -- it would be the one at the end of the line
      have hfind : findAt [CR, LF] (s ++ [CR, LF]) = some s.length := findAt_of_not_mem (t := []) hs
      rw [← hw, findAt_append hi w] at hfind
      have hle := findAt_le hi
      rw [Option.some.inj hfind] at hle
      simp only [List.length_append, List.length_cons, List.length_nil] at hle hlt
      omega
    have hcollect : collect (lookFind [CR, LF]) () (p :: ps) = none := by
      rw [(collect_find _ _).mpr fun i hi => ?_, hnone]
      · rfl
      · rw [hnone] at hi
        cases hi
    have hanswers := readerReadUntil_answers h (show ([CR, LF] : Bytes) ≠ [] by decide)
    rwa [hcollect] at hanswers

theorem chomp_append (line : Bytes) : chomp (line ++ [CR, LF]) = line := by
  rw [chomp, List.length_append]
  exact List.take_left

/-! ## Numbers -/

/-- A digit is no blank and no sign, and no `x` either. -/
theorem digit_facts : ∀ c : UInt8, isDigit c = true →
    isSpace c = false ∧ c ≠ ch '-' ∧ c ≠ ch '+' ∧ c ≠ ch 'x' ∧ c ≠ ch 'X' ∧ c ≠ CR ∧ hexaValue c = digitVal c := by
  decide +kernel

theorem digitsVal_eq {ds : Bytes} (h : ∀ c ∈ ds, isDigit c = true) : digitsVal 10 ds = decimalFrom 0 ds := by
  unfold digitsVal decimalFrom
  generalize (0 : Nat) = a
  induction ds generalizing a with
  | nil => rfl
  | cons d ds ih =>
    obtain ⟨_, _, _, _, _, _, hval⟩ := digit_facts d (h d List.mem_cons_self)
    rw [List.foldl_cons, List.foldl_cons, hval]
    exact ih (fun c hc => h c (List.mem_cons_of_mem d hc)) _

theorem hexPrefix_digits {ds : Bytes} (h : ∀ c ∈ ds, isDigit c = true) : hexPrefix ds = none := by
  match ds, h with
  | [], _ => rfl
  | [_], _ => rfl
  | c :: x :: ds, h =>
    obtain ⟨_, _, _, hx, hX, _⟩ := digit_facts x (h x (by simp))
    rw [hexPrefix, if_neg]
    rintro ⟨_, rfl | rfl⟩
    · exact hx rfl
    · exact hX rfl

/-- Digits behind a sign are that number. -/
theorem str2int_digits {s ds : Bytes} {neg : Bool} (hs : isNeg (skipSpaces s) = (neg, ds)) (hne : ds ≠ [])
    (h : ∀ c ∈ ds, isDigit c = true) :
    str2int s = some (luaInteger (if neg then -(decimalFrom 0 ds : Int) else decimalFrom 0 ds)) := by
  have htake : ds.takeWhile isDigit = ds := List.takeWhile_eq_self_iff.mpr h
  have hdrop : ds.dropWhile isDigit = [] := List.dropWhile_eq_nil_iff.mpr h
  have hskip : ¬ (ds = [] ∨ skipSpaces [] ≠ []) := by
    rintro (hds | hsk)
    · exact hne hds
    · exact hsk rfl
  simp only [str2int, hs, hexPrefix_digits h, htake, hdrop, digitsVal_eq h]
  rw [if_neg hskip]

theorem sprintfNum_ne_nil (x : Nat) : sprintfNum x ≠ [] := by
  intro h
  have hlen := (sprintfNum_spec x).2.2
  rw [h, List.length_nil, getNumSize, numSizeLoop] at hlen
  split at hlen
  · rw [numSizeLoop_add] at hlen
    omega
  · omega

theorem luaInteger_of_range {i : Int} (h0 : -2 ^ 63 ≤ i) (h1 : i < 2 ^ 63) : luaInteger i = i := by
  unfold luaInteger wrapInt
  exact Int.bmod_eq_of_le (by omega) (by omega)

/-- **`tonumber` reads back what `%d` writes.** -/
theorem tonumber_formatD {i : Int} (h0 : -2 ^ 63 ≤ i) (h1 : i < 2 ^ 63) : tonumber (formatD i) = some (.int i) := by
  obtain ⟨hdig, hdec, _⟩ := sprintfNum_spec i.natAbs
  have hne := sprintfNum_ne_nil i.natAbs
  have hint : str2int (formatD i) = some i := by
    unfold formatD
    by_cases hi : i < 0
    · have hneg : isNeg (skipSpaces (ch '-' :: sprintfNum i.natAbs)) = (true, sprintfNum i.natAbs) := rfl
      rw [if_pos hi, str2int_digits hneg hne hdig, hdec, if_pos rfl, show -(i.natAbs : Int) = i by omega,
        luaInteger_of_range h0 h1]
    · rw [if_neg hi]
      have hneg : isNeg (skipSpaces (sprintfNum i.natAbs)) = (false, sprintfNum i.natAbs) := by
        cases hds : sprintfNum i.natAbs with
        | nil => exact absurd hds hne
        | cons d ds =>
          obtain ⟨hsp, hminus, hplus, _⟩ := digit_facts d (hdig d (by simp [hds]))
          rw [skipSpaces, List.dropWhile_cons_of_neg (by simp [hsp]), isNeg, if_neg hminus, if_neg hplus]
      rw [str2int_digits hneg hne hdig, hdec]
      simp only [Bool.false_eq_true, if_false]
      rw [show (i.natAbs : Int) = i by omega, luaInteger_of_range h0 h1]
  rw [tonumber, hint]

theorem formatD_no_cr (i : Int) : CR ∉ formatD i := by
  obtain ⟨hdig, _⟩ := sprintfNum_spec i.natAbs
  have hno : CR ∉ sprintfNum i.natAbs := fun hc => (digit_facts CR (hdig CR hc)).2.2.2.2.2.1 rfl
  unfold formatD
  split
  · intro hc
    rcases List.mem_cons.mp hc with hm | hc
    · exact absurd hm (by decide)
    · exact hno hc
  · exact hno

theorem takes_number {i : Int} (h0 : -2 ^ 63 ≤ i) (h1 : i < 2 ^ 63) :
    Takes redisReadNumber (.line (formatD i)) (.int i) := by
  refine (takes_line (formatD_no_cr i)).bind_pure (fun _ => rfl) ?_
  simp only [chomp_append, tonumber_formatD h0 h1]

/-! ## Replies -/

/-- The replies of the protocol, each with the object it is read as: a status and an error on
a line of their own, an integer, a string of any bytes behind its length, the two kinds of
null, and an array. The lengths are those a Lua string or table can have. -/
inductive Resp : Obj → Text → Prop where
  | status {s : Bytes} (no_cr : CR ∉ s) : Resp (.status s) (.data (ascii "+") ++ .line s)
  | error {s : Bytes} (no_cr : CR ∉ s) : Resp (.error s) (.data (ascii "-") ++ .line s)
  | num {i : Int} (lower : -2 ^ 63 ≤ i) (upper : i < 2 ^ 63) :
    Resp (.num (.int i)) (.data (ascii ":") ++ .line (formatD i))
  | str {s : Bytes} (length : s.length + 2 < 2 ^ 63) :
    Resp (.str s) (.data (ascii "$") ++ (.line (formatD s.length) ++ .data (s ++ [CR, LF])))
  | nullStr : Resp (.bool false) (.data (ascii "$") ++ .line (formatD (-1)))
  | nullArr : Resp (.bool false) (.data (ascii "*") ++ .line (formatD (-1)))
  | arr {elems : List (Obj × Text)} (length : elems.length < 2 ^ 63) (all : ∀ x ∈ elems, Resp x.1 x.2) :
    Resp (.arr (elems.map Prod.fst))
      (.data (ascii "*") ++ (.line (formatD elems.length) ++ .concat (elems.map Prod.snd)))

theorem isNegative_int (i : Int) : isNegative (.int i) = decide (i < 0) := by
  show (!decide (0 ≤ i)) = _
  rw [← decide_not]
  congr 1
  exact propext Int.not_le

theorem takes_status {make : Bytes → Obj} {s : Bytes} (h : CR ∉ s) : Takes (readLine make) (.line s) (make s) := by
  refine (takes_line h).bind_pure (fun _ => rfl) ?_
  simp only [chomp_append]

/-- A string of its announced length. -/
theorem takes_string {s : Bytes} (h : s.length + 2 < 2 ^ 63) :
    Takes redisReadString (.line (formatD s.length) ++ .data (s ++ [CR, LF])) (.str s) := by
  refine (takes_number (by omega) (by omega)).bind (fun _ => rfl) ?_
  have hneg : ¬ ((s.length : Int) < 0) := by omega
  have htwo : readNum (plusTwo (.int s.length)) = readerRead (s.length + 2) := by
    show readerRead (luaInteger (s.length + 2)).toNat = _
    rw [luaInteger_of_range (by omega) (by omega)]
    congr 1
  simp only [isNegative_int, hneg, decide_false, Bool.false_eq_true, if_false, htwo]
  refine (takes_bytes (by simp) (by omega)).bind_pure (fun _ => rfl) ?_
  have hend : (s ++ [CR, LF]).drop ((s ++ [CR, LF]).length - 2) = [CR, LF] := by
    rw [List.length_append]
    exact List.drop_left
  simp only [hend, chomp_append, ne_eq, not_true_eq_false, if_false]

/-- Of a negative length there is nothing to read. -/
theorem takes_null : Takes redisReadString (.line (formatD (-1))) (.bool false) :=
  (takes_number (by decide) (by decide)).bind_pure (fun _ => rfl) rfl

theorem takes_null_array (readObject : M (Result Obj)) :
    Takes (redisReadArray readObject) (.line (formatD (-1))) (.bool false) :=
  (takes_number (by decide) (by decide)).bind_pure (fun _ => rfl) rfl

/-- The elements of an array, by induction on them. -/
theorem takes_elems {readObject : M (Result Obj)} {elems : List (Obj × Text)}
    (h : ∀ x ∈ elems, Takes readObject x.2 x.1) (arr : List Obj) :
    Takes (readElems readObject elems.length arr) (.concat (elems.map Prod.snd))
      (.arr (arr ++ elems.map Prod.fst)) := by
  induction elems generalizing arr with
  | nil =>
    rw [List.map_nil, List.map_nil, List.append_nil]
    exact Takes.pure _
  | cons x elems ih =>
    have hrest := ih (fun y hy => h y (List.mem_cons_of_mem x hy)) (arr ++ [x.1])
    rw [List.append_assoc] at hrest
    exact (h x List.mem_cons_self).bind (fun _ => rfl) hrest

/-- The prefix decides how the rest is read. -/
theorem takes_prefixed {c : UInt8} {body : Text} {fuel : Nat} {x : Obj}
    (hfuel : (Text.data [c] ++ body).bytes.length ≤ fuel)
    (h : ∀ n, body.bytes.length ≤ n → Takes (readAfter (redisReadObject n) [c]) body x) :
    Takes (redisReadObject fuel) (.data [c] ++ body) x := by
  rw [Text.bytes_append, List.length_append] at hfuel
  have hone : (Text.data [c]).bytes.length = 1 := rfl
  obtain ⟨n, rfl⟩ : ∃ n, fuel = n + 1 := ⟨fuel - 1, by omega⟩
  have hread : Takes (readerRead 1) (.data [c]) [c] := takes_bytes rfl Nat.one_pos
  exact hread.bind (fun _ => rfl) (h n (by omega))

theorem length_le_concat {t : Text} {ts : List Text} (h : t ∈ ts) :
    t.bytes.length ≤ (Text.concat ts).bytes.length := by
  induction ts with
  | nil => cases h
  | cons u ts ih =>
    rw [Text.bytes_concat_cons, List.length_append]
    rcases List.mem_cons.mp h with rfl | h
    · omega
    · have := ih h
      omega

/-- **Every reply of the protocol is taken**, by induction on it: the fuel bounds its
nesting. -/
theorem resp_takes {x : Obj} {t : Text} (h : Resp x t) :
    ∀ fuel, t.bytes.length ≤ fuel → Takes (redisReadObject fuel) t x := by
  induction h with
  | status no_cr => exact fun fuel hfuel => takes_prefixed hfuel fun _ _ => takes_status no_cr
  | error no_cr => exact fun fuel hfuel => takes_prefixed hfuel fun _ _ => takes_status no_cr
  | num lower upper =>
    exact fun fuel hfuel => takes_prefixed hfuel fun _ _ =>
      (takes_number lower upper).bind_pure (fun _ => rfl) rfl
  | str length => exact fun fuel hfuel => takes_prefixed hfuel fun _ _ => takes_string length
  | nullStr => exact fun fuel hfuel => takes_prefixed hfuel fun _ _ => takes_null
  | nullArr => exact fun fuel hfuel => takes_prefixed hfuel fun n _ => takes_null_array (redisReadObject n)
  | @arr elems length all ih =>
    refine fun fuel hfuel => takes_prefixed hfuel fun n hn => ?_
    refine (takes_number (by omega) (by omega)).bind (fun _ => rfl) ?_
    have hneg : ¬ ((elems.length : Int) < 0) := by omega
    simp only [isNegative_int, hneg, decide_false, Bool.false_eq_true, if_false]
    rw [Text.bytes_append, List.length_append] at hn
    refine takes_elems (fun y hy => ih y hy n ?_) []
    have := length_le_concat (List.mem_map_of_mem (f := Prod.snd) hy)
    omega

/-! ## Objects -/

/-- A string that ends up in the text as it is, and ends where it should. -/
structure PlainLine (s : Bytes) : Prop where
  no_nul : NUL ∉ s
  no_cr : CR ∉ s
  no_lf : LF ∉ s

/-- The objects that survive the round trip: integers, strings without NUL, `false`, the two
kinds of status, and arrays of these. The lengths are those a Lua string or table can
have. -/
inductive Sendable : Obj → Prop where
  | num {i : Int} (lower : -2 ^ 63 ≤ i) (upper : i < 2 ^ 63) : Sendable (.num (.int i))
  | str {s : Bytes} (no_nul : NUL ∉ s) (length : s.length + 2 < 2 ^ 63) : Sendable (.str s)
  | null : Sendable (.bool false)
  | status {s : Bytes} (plain : PlainLine s) : Sendable (.status s)
  | error {s : Bytes} (plain : PlainLine s) : Sendable (.error s)
  | arr {elems : List Obj} (length : elems.length < 2 ^ 63) (all : ∀ x ∈ elems, Sendable x) : Sendable (.arr elems)

/-- What the elements are formatted as, one text for each. -/
theorem formatElems_texts {elems : List Obj} (h : ∀ x ∈ elems, ∃ t, redisFormat x = .ok t.bytes ∧ Resp x t) :
    ∃ pairs : List (Obj × Text), pairs.map Prod.fst = elems ∧
      formatElems elems = .ok (Text.concat (pairs.map Prod.snd)).bytes ∧ ∀ x ∈ pairs, Resp x.1 x.2 := by
  induction elems with
  | nil => exact ⟨[], rfl, rfl, fun x hx => absurd hx List.not_mem_nil⟩
  | cons x elems ih =>
    obtain ⟨t, ht, hx⟩ := h x List.mem_cons_self
    obtain ⟨pairs, hfst, hformat, hall⟩ := ih fun y hy => h y (List.mem_cons_of_mem x hy)
    refine ⟨(x, t) :: pairs, by rw [List.map_cons, hfst], ?_, fun y hy => ?_⟩
    · rw [formatElems, ht, hformat]
      rfl
    · rcases List.mem_cons.mp hy with rfl | hy
      · exact hx
      · exact hall y hy

/-- **What is written for a sendable object is a reply that is read as it**, by induction on
it. -/
theorem sendable_resp {x : Obj} (h : Sendable x) : ∃ t, redisFormat x = .ok t.bytes ∧ Resp x t := by
  induction h with
  | num lower upper => exact ⟨_, rfl, .num lower upper⟩
  | @str s no_nul length =>
    refine ⟨_, ?_, .str length⟩
    rw [redisFormat, formatS_of_no_nul no_nul]
    simp
  | null => exact ⟨_, rfl, .nullStr⟩
  | status plain =>
    refine ⟨_, ?_, .status plain.no_cr⟩
    rw [redisFormat, formatS_of_no_nul plain.no_nul]
    rfl
  | error plain =>
    refine ⟨_, ?_, .error plain.no_cr⟩
    rw [redisFormat, formatS_of_no_nul plain.no_nul]
    rfl
  | arr length all ih =>
    obtain ⟨pairs, rfl, hformat, hall⟩ := formatElems_texts ih
    rw [List.length_map] at length
    refine ⟨_, ?_, .arr length hall⟩
    rw [redisFormat, hformat, List.length_map]
    rfl

/-- What one object of the text is read as, with enough fuel for its nesting. -/
theorem sendable_reads {x : Obj} (h : Sendable x) :
    ∃ text, redisFormat x = .ok text ∧ ∀ fuel, text.length ≤ fuel → Reads (redisReadObject fuel) text (.ok x) := by
  obtain ⟨t, ht, hresp⟩ := sendable_resp h
  exact ⟨t.bytes, ht, fun fuel hfuel => (resp_takes hresp fuel hfuel).reads⟩

/-- The strings of a command, one text after the other. -/
theorem foldl_strings {args : List Bytes} (h : ∀ a ∈ args, formatS a = a) (start : Bytes) :
    args.foldl (fun cmd a => cmd ++ (ascii "$" ++ formatD a.length ++ [CR, LF] ++ formatS a ++ [CR, LF])) start =
      start ++ (Text.concat (args.map fun a =>
        .data (ascii "$") ++ (.line (formatD a.length) ++ .data (a ++ [CR, LF])))).bytes := by
  induction args generalizing start with
  | nil => exact (List.append_nil start).symm
  | cons a args ih =>
    rw [List.foldl_cons, ih fun b hb => h b (List.mem_cons_of_mem a hb), h a List.mem_cons_self]
    simp

/-- **A command is sent as the array of its strings**, if none of them is cut. -/
theorem resp_command {args : List Bytes} (h : ∀ a ∈ args, formatS a = a)
    (hlength : ∀ a ∈ args, a.length + 2 < 2 ^ 63) (hargs : args.length < 2 ^ 63) :
    ∃ t, redisFormatCommand args = t.bytes ∧ Resp (.arr (args.map .str)) t := by
  let elems : List (Obj × Text) :=
    args.map fun a => (.str a, .data (ascii "$") ++ (.line (formatD a.length) ++ .data (a ++ [CR, LF])))
  have hfst : elems.map Prod.fst = args.map .str := by rw [List.map_map]; rfl
  refine ⟨.data (ascii "*") ++ (.line (formatD elems.length) ++ .concat (elems.map Prod.snd)), ?_, ?_⟩
  · rw [redisFormatCommand, foldl_strings h, List.map_map, List.length_map]
    simp only [Text.bytes_append, Text.bytes_data, Text.bytes_line, List.append_assoc]
    rfl
  · rw [← hfst]
    refine .arr (by rw [List.length_map]; exact hargs) fun x hx => ?_
    obtain ⟨a, ha, rfl⟩ := List.mem_map.mp hx
    exact .str (hlength a ha)

/-- **Parsing undoes formatting**, and takes nothing of what follows. -/
theorem parse_format {x : Obj} (h : Sendable x) :
    ∃ text, redisFormat x = .ok text ∧
      ∀ rest, ∃ r', redisParse (text ++ rest) = .ok (.ok x) r' ∧ r'.Open rest := by
  obtain ⟨text, htext, hreads⟩ := sendable_reads h
  refine ⟨text, htext, fun rest => ?_⟩
  have hat : (readerNew (-1) (text ++ rest) [] []).At (text ++ rest) [] (ascii "EOF") :=
    ⟨open_readerNew _ _ _ _, rfl, rfl⟩
  obtain ⟨r', hr', hat'⟩ := hreads ((text ++ rest).length + 1) (by simp; omega) _ rest _ hat
  exact ⟨r', hr', hat'.opened⟩

/-- `false` between two strings: the array goes on, and the last one is still read. -/
theorem parse_format_false :
    ∃ text, redisFormat (.arr [.str (ascii "a"), .bool false, .str (ascii "b")]) = .ok text ∧
      ∀ rest, ∃ r', redisParse (text ++ rest) =
        .ok (.ok (.arr [.str (ascii "a"), .bool false, .str (ascii "b")])) r' ∧ r'.Open rest := by
  apply parse_format
  refine .arr (by decide) fun x hx => ?_
  simp only [List.mem_cons, List.not_mem_nil, or_false] at hx
  rcases hx with rfl | rfl | rfl
  · exact .str (by decide) (by decide)
  · exact .null
  · exact .str (by decide) (by decide)

end ApApps.Nredis

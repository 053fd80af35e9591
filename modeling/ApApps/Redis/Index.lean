import ApApps.Redis.Agree

/- The readiness check once more, with the pointers of redis-parser.c as indices.

   `Redis.Parser` gives a pointer as the bytes from it on, so nothing outside the
   buffer can be looked at. Here a pointer is an index, every `*p` goes through
   `deref`, which fails outside the buffer, and the tests against `last` stand where
   the source has them. `redisParseReadyAt_eq` says that no `deref` fails and that the
   verdict is the one of `redisParseReady`.

   `header_not_misread` then says which numerals are read as written. That depends on
   the `Target`: a size of `2 ^ 32 + 1` is misread where an `ssize_t` has 32 bits. -/
namespace ApApps.Redis
open Incremental

/-- A byte at `index` is looked at, and that is no byte of the buffer. -/
structure Outside where
  index : Int

/-- `*p`. -/
def deref (s : Bytes) (p : Int) : Except Outside UInt8 :=
  if p < 0 then .error ⟨p⟩
  else match s[p.toNat]? with
    | some c => .ok c
    | none => .error ⟨p⟩

/-- Go on with what has been read. -/
def andThen {α β : Type} (x : Except Outside (Scan α)) (f : α → Except Outside (Scan β)) :
    Except Outside (Scan β) :=
  match x with
  | .ok (.done a) => f a
  | .ok .incomplete => .ok .incomplete
  | .ok .invalid => .ok .invalid
  | .error e => .error e

/-! ## The scanners -/

/-- `while (p != last)` of `parse_single_line_reply`: `dst_len`. -/
def singleLineAt (s : Bytes) (src : Nat) (seen_cr : Bool) (p : Nat) : Except Outside Int :=
  if p = s.length then .ok (-2)
  else match h : s[p]? with
    | none => .error ⟨p⟩
    | some c =>
      if c = CR then singleLineAt s src true (p + 1)
      else if seen_cr ∧ c = LF then .ok ((p : Int) - src - 1)
      else singleLineAt s src false (p + 1)
termination_by s.length - p
decreasing_by
  all_goals
    have := (List.getElem?_eq_some_iff.mp h).1
    omega

/-- `while (*p != '\r')` of a header, and the `p++` after it. -/
def lengthLoopAt (wrap : Int → Int) (s : Bytes) (n : Int) (p : Nat) : Except Outside (Scan (Int × Nat)) :=
  match h : s[p]? with
  | none => .error ⟨p⟩
  | some c =>
    if c = CR then .ok (.done (n, p + 1))
    else if isDigit c = false then .ok .invalid
    else if s.length ≤ p + 1 then .ok .incomplete
    else lengthLoopAt wrap s (wrap (wrap (n * 10) + digitVal c)) (p + 1)
termination_by s.length - p
decreasing_by
  have := (List.getElem?_eq_some_iff.mp h).1
  omega

/-- `if (p >= last) return 1; if (*p++ != '\n') return -1;` -/
def expectLFAt (s : Bytes) (p : Nat) : Except Outside (Scan (Unit × Nat)) :=
  if s.length ≤ p then .ok .incomplete
  else do
    let c ← deref s p
    return if c = LF then .done ((), p + 1) else .invalid

/-- The data of a bulk: `dst_len` and `dst`. The size and the rest of the buffer are
compared as `size_t`. -/
def bulkDataAt (s : Bytes) (size : Int) (p : Nat) : Except Outside (Scan (Int × Nat)) :=
  if size + 2 < 0 ∨ (s.length : Int) - p < size + 2 then .ok .incomplete
  else do
    let c ← deref s (p + size)
    if c ≠ CR then return .invalid
    else do
      let c ← deref s (p + size + 1)
      return if c ≠ LF then .invalid else .done (size, p)

/-- `parse_bulk_reply2`. -/
def parseBulkReply2At [Target] (s : Bytes) (p : Nat) : Except Outside (Scan (Int × Nat)) :=
  if s.length ≤ p then .ok .incomplete
  else do
    let c ← deref s p
    if c = ch '-' then return .invalid
    else andThen (lengthLoopAt cSsize s 0 p) fun (size, p) =>
      andThen (expectLFAt s p) fun (_, p) => bulkDataAt s size p

/-- The `switch` of the element loop: `dst_len` and `dst`. -/
def elementAt [Target] (s : Bytes) (p : Nat) : Except Outside (Scan (Int × Nat)) := do
  let c ← deref s p
  if isLineMark c then do
    let dst_len ← singleLineAt s (p + 1) false (p + 1)
    return .done (dst_len, p + 1)
  else if c = ch '$' then parseBulkReply2At s (p + 1)
  else return .invalid

/-- `for (i = 1; i <= count; i++)` of `parse_multi_bulk_reply2`. -/
def readyLoopAt [Target] (s : Bytes) : Nat → Nat → Except Outside (Scan (Unit × Nat))
  | 0, p => .ok (.done ((), p))
  | n + 1, p =>
    if s.length ≤ p then .ok .incomplete
    else andThen (elementAt s p) fun (dst_len, dst) =>
      if dst_len = -2 then .ok .incomplete
      else if dst_len = -1 then readyLoopAt s n (dst + 2)
      else readyLoopAt s n (dst + (dst_len + 2).toNat)

/-- `parse_multi_bulk_reply2`. -/
def parseMultiBulkReply2At [Target] (s : Bytes) (p : Nat) : Except Outside (Scan (Unit × Nat)) :=
  if s.length ≤ p then .ok .incomplete
  else andThen (lengthLoopAt cInt s 0 p) fun (count, p) =>
    if count = 0 then .ok .invalid
    else andThen (expectLFAt s p) fun (_, p) => readyLoopAt s count.toNat p

/-- `redis_parse_ready`. The first byte is looked at without a test: Lua puts a NUL
after every string. -/
def redisParseReadyAt [Target] (s : Bytes) : Except Outside (Scan Nat) := do
  let c ← deref (s ++ [NUL]) 0
  if c ≠ ch '*' then return .invalid
  else andThen (parseMultiBulkReply2At s 1) fun (_, p) =>
    .ok (if s.length < p then .incomplete else .done p)

/-! ## Agreement with the scanners over suffixes

A pointer into `u ++ t` that stands at `t` is the index `u.length`. -/

/-- The verdict of a scanner over suffixes of `s`, with its pointer as an index. -/
def placed {α : Type} (s : Bytes) : Scan (α × Bytes) → Scan (α × Nat)
  | .done (a, r) => .done (a, s.length - r.length)
  | .incomplete => .incomplete
  | .invalid => .invalid

theorem bind_placed {α β : Type} {s : Bytes} {x : Except Outside (Scan (α × Nat))} {y : Scan (α × Bytes)}
    {f : α × Nat → Except Outside (Scan (β × Nat))} {g : α × Bytes → Scan (β × Bytes)} (hx : x = .ok (placed s y))
    (hf : ∀ a r, y = .done (a, r) → f (a, s.length - r.length) = .ok (placed s (g (a, r)))) :
    andThen x f = .ok (placed s (y.bind g)) := by
  rw [hx]
  cases y with
  | done p => exact hf p.1 p.2 rfl
  | incomplete => rfl
  | invalid => rfl

theorem getElem?_at (u t : Bytes) (k : Nat) : (u ++ t)[u.length + k]? = t[k]? := by
  rw [List.getElem?_append_right (by omega)]
  congr 1
  omega

theorem deref_at (u t : Bytes) {p : Int} {k : Nat} (hp : p = (u.length + k : Nat)) {c : UInt8}
    (hc : t[k]? = some c) : deref (u ++ t) p = .ok c := by
  have hp0 : ¬p < 0 := by omega
  have hpn : p.toNat = u.length + k := by omega
  unfold deref
  rw [if_neg hp0, hpn, getElem?_at, hc]

theorem getElem?_head (u : Bytes) (c : UInt8) (t : Bytes) : (u ++ c :: t)[u.length]? = some c :=
  getElem?_at u (c :: t) 0

theorem singleLineAt_eq (u v t : Bytes) (seen_cr : Bool) :
    singleLineAt (u ++ v ++ t) u.length seen_cr (u ++ v).length = .ok (singleLine seen_cr v.length t) := by
  induction t generalizing v seen_cr with
  | nil => rw [singleLineAt, if_pos (by simp), singleLine]
  | cons c t ih =>
    have hnext : ∀ b, singleLineAt (u ++ v ++ c :: t) u.length b ((u ++ v).length + 1) =
        .ok (singleLine b (v.length + 1) t) := by
      intro b
      have h := ih (v ++ [c]) b
      rwa [show u ++ (v ++ [c]) ++ t = u ++ v ++ c :: t by simp,
        show (u ++ (v ++ [c])).length = (u ++ v).length + 1 by simp [Nat.add_assoc],
        show (v ++ [c]).length = v.length + 1 by simp] at h
    rw [singleLineAt, if_neg (by simp)]
    split
    · rename_i hn
      rw [getElem?_head] at hn
      cases hn
    · rename_i d hd
      rw [getElem?_head] at hd
      cases hd
      simp only [singleLine, hnext]
      split
      · rfl
      · split
        · congr 1
          simp only [List.length_append]
          push_cast
          omega
        · rfl

theorem lengthLoopAt_eq (wrap : Int → Int) (u : Bytes) (c : UInt8) (t : Bytes) (n : Int) :
    lengthLoopAt wrap (u ++ c :: t) n u.length = .ok (placed (u ++ c :: t) (lengthLoop wrap n (c :: t))) := by
  induction t generalizing u c n with
  | nil =>
    rw [lengthLoopAt]
    split
    · rename_i hn
      rw [getElem?_head] at hn
      cases hn
    · rename_i d hd
      rw [getElem?_head] at hd
      cases hd
      simp only [lengthLoop]
      split
      · simp [placed]
      · split
        · rfl
        · rw [if_pos (by simp)]
          rfl
  | cons d t ih =>
    have hcat : u ++ c :: d :: t = (u ++ [c]) ++ d :: t := by simp
    have hlen : u.length + 1 = (u ++ [c]).length := by simp
    rw [lengthLoopAt]
    split
    · rename_i hn
      rw [getElem?_head] at hn
      cases hn
    · rename_i e he
      rw [getElem?_head] at he
      cases he
      rw [lengthLoop]
      split
      · simp only [placed, List.length_append, List.length_cons]
        congr 3
        omega
      · split
        · rfl
        · rw [if_neg (by simp), hlen, hcat]
          exact ih _ _ _

theorem expectLFAt_eq (u t : Bytes) :
    expectLFAt (u ++ t) u.length = .ok (placed (u ++ t) (expectLF t)) := by
  unfold expectLFAt
  cases t with
  | nil => rw [if_pos (by simp)]; rfl
  | cons c t =>
    have hc : deref (u ++ c :: t) u.length = .ok c := deref_at u (c :: t) (k := 0) rfl rfl
    rw [if_neg (by simp), hc]
    simp only [expectLF]
    show Except.ok (if c = LF then Scan.done ((), u.length + 1) else .invalid) = _
    split
    · simp only [placed, List.length_append, List.length_cons]
      congr 3
      omega
    · rfl

theorem exists_two {l : Bytes} (h : 2 ≤ l.length) : ∃ a b q, l = a :: b :: q := by
  match l, h with
  | a :: b :: q, _ => exact ⟨a, b, q, rfl⟩

theorem bulkDataAt_eq (u p : Bytes) (size : Int) :
    bulkDataAt (u ++ ([CR, LF] ++ p)) size (u.length + 2) =
      .ok (placed (u ++ ([CR, LF] ++ p)) (bulkData size p)) := by
  unfold bulkDataAt bulkData
  by_cases hs : tooShort p size = true
  · have hs' : size + 2 < 0 ∨ ((u ++ ([CR, LF] ++ p)).length : Int) - (u.length + 2 : Nat) < size + 2 := by
      simpa [tooShort, add_assoc] using hs
    rw [if_pos hs', if_pos hs]
    rfl
  · have hs' : ¬(size + 2 < 0 ∨ ((u ++ ([CR, LF] ++ p)).length : Int) - (u.length + 2 : Nat) < size + 2) := by
      simpa [tooShort, add_assoc] using hs
    rw [if_neg hs', if_neg hs]
    -- the two bytes after the data
    have hroom := bulkData_room (Bool.eq_false_iff.mpr hs)
    obtain ⟨a, b, q, hq⟩ := exists_two (l := ([CR, LF] ++ p).drop (size + 2).toNat) (by
      rw [List.length_drop]
      omega)
    have ha : ([CR, LF] ++ p)[(size + 2).toNat]? = some a := by
      rw [← List.head?_drop, hq, List.head?_cons]
    have hb : ([CR, LF] ++ p)[(size + 2).toNat + 1]? = some b := by
      rw [← List.getElem?_drop, hq]
      rfl
    rw [deref_at u _ (k := (size + 2).toNat) (by push_cast; omega) ha,
      deref_at u _ (k := (size + 2).toNat + 1) (by push_cast; omega) hb, hq]
    by_cases hCR : a = CR
    · by_cases hLF : b = LF
      · rw [if_pos (by rw [hCR, hLF]; rfl)]
        simp only [placed, List.length_append, List.length_cons, List.length_nil]
        have hpos : u.length + (0 + 1 + 1 + p.length) - p.length = u.length + 2 := by omega
        rw [hpos, hCR, hLF]
        rfl
      · rw [if_neg (by simp [atCRLF, hLF]), hCR]
        show Except.ok (if b ≠ LF then Scan.invalid else .done (size, u.length + 2)) = _
        rw [if_pos hLF]
        rfl
    · rw [if_neg (by simp [atCRLF, hCR])]
      show (if a ≠ CR then Except.ok Scan.invalid else _) = _
      rw [if_pos hCR]
      rfl

theorem expectLF_eq_done {r p : Bytes} (h : expectLF r = .done ((), p)) : r = LF :: p := by
  cases r with
  | nil => cases h
  | cons c r =>
    rw [expectLF] at h
    split at h
    · rename_i hc
      cases h
      rw [hc]
    · cases h

/-- After the header `u` the pointer stands at its length. -/
theorem index_after (u r : Bytes) : (u ++ r).length - r.length = u.length := by
  rw [List.length_append, Nat.add_sub_cancel]

theorem parseBulkReply2At_eq [Target] (u t : Bytes) :
    parseBulkReply2At (u ++ t) u.length = .ok (placed (u ++ t) (parseBulkReply2 t)) := by
  unfold parseBulkReply2At
  cases t with
  | nil => rw [if_pos (by simp)]; rfl
  | cons c t =>
    have hc : deref (u ++ c :: t) u.length = .ok c := deref_at u (c :: t) (k := 0) rfl rfl
    rw [if_neg (by simp), hc]
    simp only [parseBulkReply2]
    show (if c = ch '-' then Except.ok Scan.invalid else _) = _
    split
    · rfl
    · refine bind_placed (lengthLoopAt_eq cSsize u c t 0) ?_
      intro size r hr
      obtain ⟨ds, _, hsrc, _⟩ := lengthLoop_eq_done hr
      have hcat : u ++ c :: t = (u ++ ds ++ [CR]) ++ r := by rw [hsrc]; simp
      rw [hcat, index_after]
      refine bind_placed (expectLFAt_eq _ r) ?_
      intro _ p hp
      have hlf : r = LF :: p := expectLF_eq_done hp
      have hcat' : u ++ ds ++ [CR] ++ r = (u ++ ds) ++ ([CR, LF] ++ p) := by
        rw [hlf]
        simp
      have hpos : (u ++ ds ++ ([CR, LF] ++ p)).length - p.length = (u ++ ds).length + 2 := by
        simp only [List.length_append, List.length_cons, List.length_nil]
        omega
      rw [hcat', hpos]
      exact bulkDataAt_eq (u ++ ds) p size

/-- What the `switch` of the element loop reads: `dst_len` and `dst`. -/
def elementOf [Target] (c : UInt8) (t : Bytes) : Scan (Int × Bytes) :=
  if isLineMark c then .done (parseSingleLineReply t, t)
  else if c = ch '$' then parseBulkReply2 t
  else .invalid

theorem readyElement_cons [Target] (c : UInt8) (t : Bytes) :
    readyElement (c :: t) = (elementOf c t).bind fun p => finishElement p.1 p.2 := by
  simp only [readyElement, elementOf]
  split
  · rfl
  · split <;> rfl

/-- An element that has been read is in the buffer, with its CR LF. -/
theorem elementOf_room [Target] {c : UInt8} {t dst : Bytes} {dst_len : Int} (h : elementOf c t = .done (dst_len, dst))
    (hne : dst_len ≠ -2) : 0 ≤ dst_len ∧ dst_len + 2 ≤ dst.length := by
  unfold elementOf at h
  split at h
  · cases h
    have hfound := parseSingleLineReply_found hne
    exact ⟨hfound.1, hfound.2.1⟩
  · split at h
    · obtain ⟨ds, v, q, _, _, rfl, rfl, _⟩ := parseBulkReply2_split h hne
      refine ⟨Int.natCast_nonneg _, ?_⟩
      simp only [List.length_append, List.length_cons, List.length_nil]
      push_cast
      omega
    · cases h

theorem elementOf_suffix [Target] {c : UInt8} {t dst : Bytes} {dst_len : Int} (h : elementOf c t = .done (dst_len, dst)) :
    dst <:+ t := by
  unfold elementOf at h
  split at h
  · cases h
    exact List.suffix_rfl
  · split at h
    · exact stable_parseBulkReply2.rest_suffix h
    · cases h

theorem elementAt_eq [Target] (u : Bytes) (c : UInt8) (t : Bytes) :
    elementAt (u ++ c :: t) u.length = .ok (placed (u ++ c :: t) (elementOf c t)) := by
  have hc : deref (u ++ c :: t) u.length = .ok c := deref_at u (c :: t) (k := 0) rfl rfl
  have hcat : u ++ c :: t = (u ++ [c]) ++ t := by simp
  have hlen : u.length + 1 = (u ++ [c]).length := by simp
  unfold elementAt elementOf
  rw [hc]
  show (if isLineMark c = true then _ else _) = _
  split
  · have hline := singleLineAt_eq (u ++ [c]) [] t false
    rw [List.append_nil] at hline
    rw [hcat, hlen, hline]
    show Except.ok (Scan.done (parseSingleLineReply t, (u ++ [c]).length)) = _
    rw [placed, index_after]
  · split
    · rw [hcat, hlen]
      exact parseBulkReply2At_eq (u ++ [c]) t
    · rfl

theorem bind_bind {α β γ : Type} (x : Scan α) (f : α → Scan β) (g : β → Scan γ) :
    (x.bind f).bind g = x.bind fun a => (f a).bind g := by
  cases x <;> rfl

theorem readyLoopAt_eq [Target] (n : Nat) (u t : Bytes) :
    readyLoopAt (u ++ t) n u.length = .ok (placed (u ++ t) (readyLoop n t)) := by
  induction n generalizing u t with
  | zero => rw [readyLoopAt, readyLoop, placed, index_after]
  | succ n ih =>
    cases t with
    | nil => rw [readyLoopAt, if_pos (by simp)]; rfl
    | cons c t =>
      rw [readyLoopAt, if_neg (by simp), readyLoop, readyElement_cons, bind_bind]
      refine bind_placed (elementAt_eq u c t) ?_
      intro dst_len dst hel
      obtain ⟨w, hw⟩ := elementOf_suffix hel
      have hcat : u ++ c :: t = (u ++ c :: w) ++ dst := by rw [← hw]; simp
      simp only [finishElement]
      by_cases h2 : dst_len = -2
      · rw [if_pos h2, if_pos h2]
        rfl
      · obtain ⟨h0, hroom⟩ := elementOf_room hel h2
        have h1 : dst_len ≠ -1 := by omega
        rw [if_neg h2, if_neg h2, if_neg h1, if_neg h1, advance, if_neg (by omega), Scan.bind_done]
        have hbuf : u ++ c :: w ++ dst =
            (u ++ c :: w ++ dst.take (dst_len + 2).toNat) ++ dst.drop (dst_len + 2).toNat := by
          rw [List.append_assoc (u ++ c :: w), List.take_append_drop]
        have hnext : (u ++ c :: w).length + (dst_len + 2).toNat =
            (u ++ c :: w ++ dst.take (dst_len + 2).toNat).length := by
          rw [@List.length_append _ (u ++ c :: w), List.length_take, Nat.min_eq_left (by omega)]
        rw [hcat, index_after, hnext, hbuf]
        exact ih _ _

theorem parseMultiBulkReply2At_eq [Target] (u t : Bytes) :
    parseMultiBulkReply2At (u ++ t) u.length = .ok (placed (u ++ t) (parseMultiBulkReply2 t)) := by
  unfold parseMultiBulkReply2At
  cases t with
  | nil => rw [if_pos (by simp)]; rfl
  | cons c t =>
    rw [if_neg (by simp)]
    refine bind_placed (lengthLoopAt_eq cInt u c t 0) ?_
    intro count r hr
    obtain ⟨ds, _, hsrc, _⟩ := lengthLoop_eq_done hr
    have hcat : u ++ c :: t = (u ++ ds ++ [CR]) ++ r := by rw [hsrc]; simp
    rw [hcat, index_after]
    simp only [readyBody]
    split
    · rfl
    · refine bind_placed (expectLFAt_eq _ r) ?_
      intro _ p hp
      have hlf : r = LF :: p := expectLF_eq_done hp
      have hcat' : u ++ ds ++ [CR] ++ r = (u ++ ds ++ [CR, LF]) ++ p := by
        rw [hlf]
        simp
      rw [hcat', index_after]
      exact readyLoopAt_eq _ _ _

/-- **No index outside the buffer is looked at**, and the verdict is that of the
scanners over suffixes. -/
theorem redisParseReadyAt_eq [Target] (s : Bytes) : redisParseReadyAt s = .ok (redisParseReady s) := by
  unfold redisParseReadyAt
  cases s with
  | nil => rfl
  | cons c t =>
    have hc : deref (c :: t ++ [NUL]) 0 = .ok c := rfl
    rw [hc]
    simp only [redisParseReady]
    show (if c ≠ ch '*' then Except.ok Scan.invalid else _) = _
    by_cases hstar : c = ch '*'
    · rw [if_neg (not_not.mpr hstar), if_pos hstar]
      have hmulti := parseMultiBulkReply2At_eq [c] t
      have hbuf : [c] ++ t = c :: t := rfl
      rw [hbuf] at hmulti
      have hone : [c].length = 1 := rfl
      rw [hone] at hmulti
      rw [hmulti]
      cases parseMultiBulkReply2 t with
      | done p =>
        show Except.ok (if (c :: t).length < (c :: t).length - p.2.length then _ else _) = _
        rw [if_neg (by omega)]
        rfl
      | incomplete => rfl
      | invalid => rfl
    · rw [if_pos hstar, if_neg hstar]

/-! ## The frame at the front of a buffer is unique -/

theorem digits_unique {ds ds' r r' : Bytes} (h : ∀ c ∈ ds, isDigit c = true) (h' : ∀ c ∈ ds', isDigit c = true)
    (heq : ds ++ [CR, LF] ++ r = ds' ++ [CR, LF] ++ r') : ds = ds' ∧ r = r' := by
  have hspan : ∀ (d t : Bytes), (∀ c ∈ d, isDigit c = true) → (d ++ [CR, LF] ++ t).takeWhile isDigit = d := by
    intro d t hd
    rw [List.append_assoc, List.takeWhile_append_of_pos hd]
    simp [isDigit_cr]
  have hds : ds = ds' := by rw [← hspan ds r h, heq, hspan ds' r' h']
  subst hds
  exact ⟨rfl, List.append_cancel_left heq⟩

theorem Element.unique [Target] {e e' : Element} {q q' : Bytes} (h : e.bytes ++ q = e'.bytes ++ q') : e = e' ∧ q = q' := by
  cases e with
  | line mark text hmark htext =>
    cases e' with
    | line mark' text' hmark' htext' =>
      simp only [Element.bytes, List.cons_append, List.cons.injEq] at h
      obtain ⟨rfl, h⟩ := h
      have hfound := (parseSingleLineReply_found (s := text ++ [CR, LF]) (by rw [htext]; omega)).2.2 q
      have hfound' := (parseSingleLineReply_found (s := text' ++ [CR, LF]) (by rw [htext']; omega)).2.2 q'
      have hlen : text.length = text'.length := by
        rw [h, hfound', htext, htext'] at hfound
        omega
      rw [List.append_assoc, List.append_assoc] at h
      obtain ⟨rfl, hq⟩ := List.append_inj h hlen
      exact ⟨rfl, List.append_cancel_left hq⟩
    | bulk ds v hds hsize =>
      simp only [Element.bytes, List.cons_append, List.cons.injEq] at h
      rw [h.1, isLineMark_dollar] at hmark
      cases hmark
  | bulk ds v hds hsize =>
    cases e' with
    | line mark text hmark htext =>
      simp only [Element.bytes, List.cons_append, List.cons.injEq] at h
      rw [← h.1, isLineMark_dollar] at hmark
      cases hmark
    | bulk ds' v' hds' hsize' =>
      simp only [Element.bytes, List.cons_append, List.cons.injEq, true_and] at h
      rw [List.append_assoc, List.append_assoc, List.append_assoc (ds' ++ [CR, LF]),
        List.append_assoc (ds' ++ [CR, LF])] at h
      obtain ⟨rfl, hv⟩ := digits_unique hds hds' h
      simp only [List.append_assoc] at hv
      have hlen : v.length = v'.length := by
        rw [hsize] at hsize'
        omega
      obtain ⟨rfl, hq⟩ := List.append_inj hv hlen
      exact ⟨rfl, List.append_cancel_left hq⟩

theorem elements_unique [Target] {es es' : List Element} {q q' : Bytes} (hlen : es.length = es'.length)
    (h : elementsBytes es ++ q = elementsBytes es' ++ q') : es = es' := by
  induction es generalizing es' with
  | nil => exact (List.eq_nil_of_length_eq_zero hlen.symm).symm
  | cons e es ih =>
    cases es' with
    | nil => cases hlen
    | cons e' es' =>
      rw [elementsBytes_cons, elementsBytes_cons] at h
      obtain ⟨rfl, hrest⟩ := Element.unique h
      rw [ih (Nat.succ.inj hlen) hrest]

/-- **A buffer begins with one frame at most.** -/
theorem Frame.unique [Target] {f f' : Frame} {q q' : Bytes} (h : f.bytes ++ q = f'.bytes ++ q') : f = f' := by
  obtain ⟨ds, es, hds, hnz, hcount⟩ := f
  obtain ⟨ds', es', hds', hnz', hcount'⟩ := f'
  simp only [Frame.bytes, List.cons_append, List.cons.injEq, true_and] at h
  rw [List.append_assoc, List.append_assoc (ds' ++ [CR, LF])] at h
  obtain ⟨rfl, hrest⟩ := digits_unique hds hds' h
  have hes : es = es' := elements_unique (hcount.trans hcount'.symm) hrest
  subst hes
  rfl

/-! ## Headers as written -/

/-- The header of a bulk says how long its data is. -/
def Element.Announced [Target] : Element → Prop
  | .line _ _ _ _ => True
  | .bulk digits data _ _ => decimalFrom 0 digits = data.length

/-- The headers of a frame say how many elements it has and how long they are. -/
def Frame.Announced [Target] (f : Frame) : Prop :=
  decimalFrom 0 f.digits = f.elems.length ∧ ∀ e ∈ f.elems, e.Announced

/-- The size written in the header is a positive `ssize_t`. -/
def Element.Fits [Target] : Element → Prop
  | .line _ _ _ _ => True
  | .bulk digits _ _ _ => decimalFrom 0 digits < 2 ^ (Target.ssizeBits - 1)

/-- The numerals of a frame fit the types they are read into. -/
def Frame.Fits [Target] (f : Frame) : Prop := decimalFrom 0 f.digits < 2 ^ 31 ∧ ∀ e ∈ f.elems, e.Fits

theorem wrapInt_lt {bits : Nat} (hb : 0 < bits) (x : Int) : 2 * wrapInt bits x < 2 ^ bits := by
  unfold wrapInt
  obtain ⟨k, rfl⟩ : ∃ k, bits = k + 1 := ⟨bits - 1, by omega⟩
  have h := Int.bmod_lt (x := x) (m := 2 ^ (k + 1)) (by positivity)
  push_cast at h ⊢
  rw [pow_succ] at h ⊢
  omega

theorem headerValue_lt {bits : Nat} (hb : 1 < bits) (ds : Bytes) :
    2 * headerValue (wrapInt bits) ds < 2 ^ bits := by
  unfold headerValue
  induction ds using List.reverseRecOn with
  | nil =>
    rw [List.foldl_nil]
    positivity
  | append_singleton ds c _ =>
    rw [List.foldl_append, List.foldl_cons, List.foldl_nil]
    exact wrapInt_lt (by omega) _

/-- Half the values of an `ssize_t` are positive or zero. -/
theorem two_mul_halfRange [Target] : 2 * 2 ^ (Target.ssizeBits - 1) = 2 ^ Target.ssizeBits := by
  have := Target.one_lt_ssizeBits
  rw [← pow_succ', Nat.sub_add_cancel (by omega)]

theorem Element.announced_iff [Target] (e : Element) : e.Announced ↔ e.Fits := by
  cases e with
  | line => exact Iff.rfl
  | bulk ds v hds hsize =>
    have hlt : 2 * headerValue cSsize ds < 2 ^ Target.ssizeBits :=
      headerValue_lt Target.one_lt_ssizeBits ds
    have hhalf := two_mul_halfRange
    constructor
    · intro h
      have h : decimalFrom 0 ds = v.length := h
      show decimalFrom 0 ds < 2 ^ (Target.ssizeBits - 1)
      rw [hsize] at hlt
      have hlt : 2 * v.length < 2 ^ Target.ssizeBits := by exact_mod_cast hlt
      omega
    · intro h
      have h : decimalFrom 0 ds < 2 ^ (Target.ssizeBits - 1) := h
      have hval : headerValue cSsize ds = decimalFrom 0 ds :=
        foldl_wrap_of_fits Target.ssizeBits 0 ds (by omega)
      show decimalFrom 0 ds = v.length
      omega

theorem Frame.announced_iff [Target] (f : Frame) : f.Announced ↔ f.Fits := by
  have helems : (∀ e ∈ f.elems, e.Announced) ↔ ∀ e ∈ f.elems, e.Fits :=
    forall₂_congr fun e _ => e.announced_iff
  have hlt : 2 * headerValue cInt f.digits < 2 ^ 32 := headerValue_lt (by norm_num) f.digits
  have hcount := f.hcount
  unfold Frame.Announced Frame.Fits
  rw [helems]
  constructor
  · rintro ⟨h, hes⟩
    exact ⟨by omega, hes⟩
  · rintro ⟨h, hes⟩
    have hval := headerValue_of_fits h
    exact ⟨by omega, hes⟩

/-- The check looks at no byte outside the buffer, and what it accepts is a frame of
`p` bytes whose headers say what it has. -/
def NotMisread [Target] (s : Bytes) : Prop :=
  ∃ v, redisParseReadyAt s = .ok v ∧
    ∀ p, v = .done p → 1 ≤ p ∧ p ≤ s.length ∧
      ∃ (f : Frame) (q : Bytes), s = f.bytes ++ q ∧ p = f.bytes.length ∧ f.Announced

theorem misread_of_not_fits [Target] {f : Frame} (h : ¬f.Fits) (q : Bytes) : ¬NotMisread (f.bytes ++ q) := by
  rintro ⟨v, hv, hdone⟩
  rw [redisParseReadyAt_eq, redisParseReady_frame] at hv
  cases hv
  obtain ⟨_, _, f', q', heq, _, hann⟩ := hdone _ rfl
  rw [Frame.unique heq] at h
  exact h (f'.announced_iff.mp hann)

/-- **When no header is misread.** Of every string no byte outside is looked at; its
headers are read as written exactly if the numerals of the frame it begins with, if it
begins with one, fit their types. -/
theorem header_not_misread [Target] (s : Bytes) :
    NotMisread s ↔ ∀ (f : Frame) (q : Bytes), s = f.bytes ++ q → f.Fits := by
  constructor
  · rintro h f q rfl
    by_contra hfits
    exact misread_of_not_fits hfits q h
  · intro hfits
    refine ⟨_, redisParseReadyAt_eq s, ?_⟩
    intro p hp
    obtain ⟨f, q, hs, hlen⟩ := redisParseReady_eq_done_iff.mp hp
    exact ⟨stableVerdict_redisParseReady.ready_pos hp, stableVerdict_redisParseReady.ready_le hp, f, q, hs, hlen,
      f.announced_iff.mpr (hfits f q hs)⟩

/-- A count of `2 ^ 32 + 1`, and one element. -/
def wrappedCount : Frame where
  digits := ascii "4294967297"
  elems := [.line (ch '+') (ascii "a") (by decide +kernel) (by decide +kernel)]
  hdigits := by decide +kernel
  hnonzero := by decide +kernel
  hcount := by decide +kernel

/-- A size of `2 ^ 64 + 1`, and one byte. -/
def wrappedSize : Frame where
  digits := ascii "1"
  elems := [.bulk (ascii "18446744073709551617") (ascii "a") (by decide +kernel) (by decide +kernel)]
  hdigits := by decide +kernel
  hnonzero := by decide +kernel
  hcount := by decide +kernel

/-- A size of `2 ^ 32 + 1`, and one byte, where an `ssize_t` has 32 bits. -/
def wrappedSize32 : @Frame ilp32 :=
  @Frame.mk ilp32 (ascii "1")
    [@Element.bulk ilp32 (ascii "4294967297") (ascii "a") (by decide +kernel) (by decide +kernel)]
    (by decide +kernel) (by decide +kernel) (by decide +kernel)

/-- All three are accepted, and misread. -/
theorem header_wraps :
    ¬NotMisread (ascii "*4294967297\r\n+a\r\n") ∧
      ¬NotMisread (ascii "*1\r\n$18446744073709551617\r\na\r\n") ∧
      ¬@NotMisread ilp32 (ascii "*1\r\n$4294967297\r\na\r\n") := by
  refine ⟨?_, ?_, ?_⟩
  · have h : ¬wrappedCount.Fits := fun h => absurd h.1 (by decide +kernel)
    have hbytes : ascii "*4294967297\r\n+a\r\n" = wrappedCount.bytes ++ [] := by decide +kernel
    rw [hbytes]
    exact misread_of_not_fits h []
  · have h : ¬wrappedSize.Fits := fun h => absurd (h.2 _ List.mem_cons_self) (by
      show ¬decimalFrom 0 (ascii "18446744073709551617") < 2 ^ 63
      decide +kernel)
    have hbytes : ascii "*1\r\n$18446744073709551617\r\na\r\n" = wrappedSize.bytes ++ [] := by decide +kernel
    rw [hbytes]
    exact misread_of_not_fits h []
  · have h : ¬@Frame.Fits ilp32 wrappedSize32 := fun h => absurd (h.2 _ List.mem_cons_self) (by
      show ¬decimalFrom 0 (ascii "4294967297") < 2 ^ 31
      decide +kernel)
    have hbytes : ascii "*1\r\n$4294967297\r\na\r\n" = @Frame.bytes ilp32 wrappedSize32 ++ [] := by
      decide +kernel
    rw [hbytes]
    exact @misread_of_not_fits ilp32 _ h []

end ApApps.Redis

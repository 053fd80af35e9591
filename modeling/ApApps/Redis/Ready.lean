import ApApps.Redis.Parser

/- The readiness check of redis-parser.c.

   Every scanner of the check is stable (`stable_parseMultiBulkReply2`), so
   `redisParseReady` gives stable verdicts (`stableVerdict_redisParseReady`): what
   arrives after a verdict never changes it. No size or count has to fit its C type
   for that; only the agreement of the header with the number of elements needs it
   (`lengthLoop_of_fits`). -/
namespace ApApps.Redis
open Incremental

/-! ## Headers -/

/-- The digits of a header, read as a decimal number after the digits that gave `n`. -/
def decimalFrom (n : Nat) (ds : Bytes) : Nat := ds.foldl (fun a c => a * 10 + digitVal c) n

theorem decimalFrom_cons (n : Nat) (c : UInt8) (ds : Bytes) :
    decimalFrom n (c :: ds) = decimalFrom (n * 10 + digitVal c) ds := by
  simp only [decimalFrom, List.foldl_cons]

theorem le_decimalFrom (n : Nat) (ds : Bytes) : n ≤ decimalFrom n ds := by
  induction ds generalizing n with
  | nil => exact Nat.le_refl _
  | cons c ds ih =>
    rw [decimalFrom_cons]
    have := ih (n * 10 + digitVal c)
    omega

theorem isDigit_cr : isDigit CR = false := by decide

/-- What the header loop reads: digits and a CR. -/
theorem lengthLoop_eq_done {wrap : Int → Int} {n m : Int} {s r : Bytes}
    (h : lengthLoop wrap n s = .done (m, r)) :
    ∃ ds, (∀ c ∈ ds, isDigit c = true) ∧ s = ds ++ CR :: r ∧
      m = ds.foldl (fun a c => wrap (wrap (a * 10) + digitVal c)) n := by
  induction s generalizing n with
  | nil => cases h
  | cons c s ih =>
    simp only [lengthLoop] at h
    split at h
    · rename_i hc
      simp only [Scan.done.injEq, Prod.mk.injEq] at h
      obtain ⟨rfl, rfl⟩ := h
      exact ⟨[], by simp, by rw [hc]; rfl, rfl⟩
    · split at h
      · cases h
      · rename_i hd
        obtain ⟨ds, hds, rfl, rfl⟩ := ih h
        refine ⟨c :: ds, ?_, rfl, rfl⟩
        intro x hx
        rcases List.mem_cons.mp hx with rfl | hx
        · simpa using hd
        · exact hds x hx

/-- The header loop on digits and a CR. -/
theorem lengthLoop_digits (wrap : Int → Int) (n : Int) {ds : Bytes} (r : Bytes)
    (hds : ∀ c ∈ ds, isDigit c = true) :
    lengthLoop wrap n (ds ++ CR :: r) =
      .done (ds.foldl (fun a c => wrap (wrap (a * 10) + digitVal c)) n, r) := by
  induction ds generalizing n with
  | nil => simp [lengthLoop]
  | cons c ds ih =>
    have hc : isDigit c = true := hds c (by simp)
    have hne : c ≠ CR := by
      rintro rfl
      rw [isDigit_cr] at hc
      cases hc
    simp only [List.cons_append, lengthLoop, hne, hc, if_false, Bool.true_eq_false,
      List.foldl_cons]
    exact ih _ (fun x hx => hds x (by simp [hx]))

/-- As long as the decimal number fits, no step of the loop wraps. -/
theorem foldl_wrap_of_fits (bits n : Nat) (ds : Bytes)
    (h : 2 * decimalFrom n ds < 2 ^ bits) :
    ds.foldl (fun a c => wrapInt bits (wrapInt bits (a * 10) + digitVal c)) (n : Int) =
      (decimalFrom n ds : Int) := by
  induction ds generalizing n with
  | nil => rfl
  | cons c ds ih =>
    rw [decimalFrom_cons] at h ⊢
    have hle := le_decimalFrom (n * 10 + digitVal c) ds
    have hp : ((2 ^ bits : Nat) : Int) = (2 : Int) ^ bits := by push_cast; rfl
    have e1 : wrapInt bits ((n : Int) * 10) = (n : Int) * 10 :=
      wrapInt_of_fits (by omega) (by omega)
    have e2 : wrapInt bits ((n : Int) * 10 + digitVal c) = ((n * 10 + digitVal c : Nat) : Int) := by
      rw [wrapInt_of_fits (by omega) (by omega)]
      push_cast
      rfl
    rw [List.foldl_cons, e1, e2]
    exact ih _ h

theorem stable_lengthLoop (wrap : Int → Int) (n : Int) : Stable (lengthLoop wrap n) where
  done_append := by
    intro s m r h t
    obtain ⟨ds, hds, rfl, rfl⟩ := lengthLoop_eq_done h
    rw [List.append_assoc]
    exact lengthLoop_digits wrap n (r ++ t) hds
  invalid_append := by
    intro s h t
    induction s generalizing n with
    | nil => cases h
    | cons c s ih =>
      simp only [lengthLoop, List.cons_append] at h ⊢
      split at h
      · cases h
      · split at h
        · simp_all
        · rename_i hc hd
          rw [if_neg hc, if_neg hd]
          exact ih _ h
  rest_suffix := by
    intro s m r h
    obtain ⟨ds, _, rfl, _⟩ := lengthLoop_eq_done h
    exact ⟨ds ++ [CR], by simp⟩

theorem stable_expectLF : Stable expectLF := by
  refine stable_cons rfl (g := fun c s => if c = LF then .done ((), s) else .invalid) ?_ ?_
  · intro c s
    rfl
  · intro c
    exact stable_ite (stable_done ()) stable_invalid

/-! ## Elements -/

theorem atCRLF_append {p : Bytes} (h : 2 ≤ p.length) (t : Bytes) : atCRLF (p ++ t) = atCRLF p := by
  match p, h with
  | c :: c' :: p, _ => rfl

theorem tooShort_append {p : Bytes} {size : Int} (h : tooShort p size = false) (t : Bytes) :
    tooShort (p ++ t) size = false := by
  simp only [tooShort, Bool.or_eq_false_iff, decide_eq_false_iff_not, List.length_append] at h ⊢
  push_cast
  omega

/-- With enough bytes in the buffer the two bytes after the data are in it. -/
theorem bulkData_room {size : Int} {p : Bytes} (h : tooShort p size = false) :
    (size + 2).toNat + 2 ≤ ([CR, LF] ++ p).length := by
  simp only [tooShort, Bool.or_eq_false_iff, decide_eq_false_iff_not] at h
  simp only [List.length_append, List.length_cons, List.length_nil]
  omega

/-- More bytes do not change what stands after the data. -/
theorem bulkData_append {size : Int} {p : Bytes} (h : tooShort p size = false) (t : Bytes) :
    atCRLF (([CR, LF] ++ (p ++ t)).drop (size + 2).toNat) =
      atCRLF (([CR, LF] ++ p).drop (size + 2).toNat) := by
  have hroom := bulkData_room h
  rw [← List.append_assoc, List.drop_append_of_le_length (by omega)]
  exact atCRLF_append (by rw [List.length_drop]; omega) t

theorem stable_bulkData (size : Int) : Stable (bulkData size) where
  done_append := by
    intro p len r h t
    unfold bulkData at h ⊢
    split at h
    · cases h
    · rename_i hl
      rw [Bool.not_eq_true] at hl
      rw [tooShort_append hl t, bulkData_append hl t]
      split at h
      · rename_i hc
        simp only [Scan.done.injEq, Prod.mk.injEq] at h
        obtain ⟨rfl, rfl⟩ := h
        simp only [Bool.false_eq_true, if_false, if_pos hc]
      · cases h
  invalid_append := by
    intro p h t
    unfold bulkData at h ⊢
    split at h
    · cases h
    · rename_i hl
      rw [Bool.not_eq_true] at hl
      rw [tooShort_append hl t, bulkData_append hl t]
      split at h
      · cases h
      · rename_i hc
        simp only [Bool.false_eq_true, if_false, if_neg hc]
  rest_suffix := by
    intro p len r h
    unfold bulkData at h
    split at h
    · cases h
    · split at h
      · simp only [Scan.done.injEq, Prod.mk.injEq] at h
        rw [h.2]
      · cases h

theorem stable_parseBulkReply2 [Target] : Stable parseBulkReply2 := by
  refine stable_peek rfl (g := fun c src => if c = ch '-' then .invalid
      else (lengthLoop cSsize 0 src).bind fun r => (expectLF r.2).bind fun q => bulkData r.1 q.2) ?_ ?_
  · intro c s
    rfl
  · intro c
    refine stable_ite stable_invalid ?_
    refine stable_bind (stable_lengthLoop cSsize 0)
      (g := fun size p => (expectLF p).bind fun q => bulkData size q.2) ?_
    intro size
    exact stable_bind stable_expectLF (g := fun _ p => bulkData size p) fun _ =>
      stable_bulkData size

theorem stable_advance (n : Nat) : Stable (advance n) where
  done_append := by
    intro s a r h t
    simp only [advance] at h ⊢
    split at h
    · cases h
    · rename_i hl
      simp only [Scan.done.injEq, Prod.mk.injEq, true_and] at h
      rw [if_neg (by rw [List.length_append]; omega), List.drop_append_of_le_length (by omega), h]
  invalid_append := by
    intro s h t
    simp only [advance] at h
    split at h <;> cases h
  rest_suffix := by
    intro s a r h
    simp only [advance] at h
    split at h
    · cases h
    · simp only [Scan.done.injEq, Prod.mk.injEq, true_and] at h
      rw [← h]
      exact List.drop_suffix n s

theorem stable_finishElement (dst_len : Int) : Stable (finishElement dst_len) := by
  unfold finishElement
  refine stable_ite stable_incomplete (stable_ite (stable_advance 2) (stable_advance _))

/-- A line that is found stays found, and its CR LF is in the buffer. -/
theorem singleLine_found (seen_cr : Bool) (n : Nat) (s : Bytes) (hn : seen_cr = true → 0 < n)
    (h : singleLine seen_cr n s ≠ -2) :
    0 ≤ singleLine seen_cr n s ∧ singleLine seen_cr n s + 2 ≤ n + s.length ∧
      ∀ t, singleLine seen_cr n (s ++ t) = singleLine seen_cr n s := by
  induction s generalizing seen_cr n with
  | nil => exact absurd rfl h
  | cons c s ih =>
    simp only [singleLine, List.cons_append, List.length_cons] at h ⊢
    split at h
    · rename_i hc
      obtain ⟨h1, h2, h3⟩ := ih _ _ (fun _ => by omega) h
      simp only [if_pos hc]
      exact ⟨h1, by push_cast at h2 ⊢; omega, h3⟩
    · rename_i hc
      split at h
      · rename_i hlf
        have := hn hlf.1
        simp only [if_neg hc, if_pos hlf]
        exact ⟨by omega, by push_cast; omega, fun _ => trivial⟩
      · rename_i hlf
        obtain ⟨h1, h2, h3⟩ := ih _ _ (fun hf => by cases hf) h
        simp only [if_neg hc, if_neg hlf]
        exact ⟨h1, by push_cast at h2 ⊢; omega, h3⟩

theorem parseSingleLineReply_found {s : Bytes} (h : parseSingleLineReply s ≠ -2) :
    0 ≤ parseSingleLineReply s ∧ parseSingleLineReply s + 2 ≤ s.length ∧
      ∀ t, parseSingleLineReply (s ++ t) = parseSingleLineReply s := by
  have := singleLine_found false 0 s (fun hf => by cases hf) h
  simpa only [parseSingleLineReply, Nat.cast_zero, zero_add] using this

/-- An element that is a line. -/
theorem stable_lineElement :
    Stable (fun src => finishElement (parseSingleLineReply src) src) where
  done_append := by
    intro s a r h t
    by_cases hf : parseSingleLineReply s = -2
    · simp [finishElement, hf] at h
    · rw [(parseSingleLineReply_found hf).2.2 t]
      exact (stable_finishElement _).done_append h t
  invalid_append := by
    intro s h t
    by_cases hf : parseSingleLineReply s = -2
    · simp [finishElement, hf] at h
    · rw [(parseSingleLineReply_found hf).2.2 t]
      exact (stable_finishElement _).invalid_append h t
  rest_suffix := fun h => (stable_finishElement _).rest_suffix h

theorem stable_readyElement [Target] : Stable readyElement := by
  refine stable_cons rfl (g := fun c src =>
      if isLineMark c then finishElement (parseSingleLineReply src) src
      else if c = ch '$' then (parseBulkReply2 src).bind fun r => finishElement r.1 r.2
      else .invalid) ?_ ?_
  · intro c s
    rfl
  · intro c
    refine stable_ite stable_lineElement (stable_ite ?_ stable_invalid)
    exact stable_bind stable_parseBulkReply2 fun _ => stable_finishElement _

theorem stable_readyLoop [Target] (n : Nat) : Stable (readyLoop n) := by
  induction n with
  | zero => exact stable_done ()
  | succ n ih => exact stable_bind stable_readyElement (g := fun _ p => readyLoop n p) fun _ => ih

theorem stable_readyBody [Target] (count : Int) : Stable (readyBody count) := by
  refine stable_ite stable_invalid ?_
  exact stable_bind stable_expectLF (g := fun _ p => readyLoop count.toNat p) fun _ =>
    stable_readyLoop _

theorem stable_parseMultiBulkReply2 [Target] : Stable parseMultiBulkReply2 :=
  stable_bind (stable_lengthLoop cInt 0) fun _ => stable_readyBody _

/-! ## The verdict -/

/-- What `true, p` means: the first byte is `*`, the scan of the rest is done and
`p` is where it stopped. -/
theorem redisParseReady_eq_done [Target] {s : Bytes} {p : Nat} (h : redisParseReady s = .done p) :
    ∃ src q, s = ch '*' :: src ∧ parseMultiBulkReply2 src = .done ((), q) ∧
      p + q.length = s.length ∧ 0 < p ∧ s.drop p = q := by
  cases s with
  | nil => cases h
  | cons c src =>
    simp only [redisParseReady] at h
    split at h
    · rename_i hc
      obtain ⟨⟨u, q⟩, hq, hp⟩ := Scan.bind_eq_done.mp h
      simp only [Scan.done.injEq] at hp
      obtain ⟨pre, rfl⟩ := stable_parseMultiBulkReply2.rest_suffix hq
      rw [List.length_append] at hp
      refine ⟨pre ++ q, q, by rw [hc], hq, ?_, by omega, ?_⟩
      · simp only [List.length_cons, List.length_append]
        omega
      · have hpre : p = (c :: pre).length := by simp only [List.length_cons]; omega
        rw [hpre, ← List.cons_append, List.drop_left]
    · cases h

/-- **No verdict on a non-empty buffer changes as more bytes arrive.** -/
theorem stableVerdict_redisParseReady [Target] : StableVerdict redisParseReady where
  ready_pos := by
    intro s p h
    obtain ⟨_, _, _, _, _, hp, _⟩ := redisParseReady_eq_done h
    exact hp
  ready_le := by
    intro s p h
    obtain ⟨_, _, _, _, hp, _⟩ := redisParseReady_eq_done h
    omega
  ready_append := by
    intro s p h t
    obtain ⟨src, q, rfl, hq, hp, _⟩ := redisParseReady_eq_done h
    have hqt := stable_parseMultiBulkReply2.done_append hq t
    simp only [List.cons_append, redisParseReady, if_true, hqt, Scan.bind_done, Scan.done.injEq,
      List.length_append]
    simp only [List.length_cons] at hp
    omega
  invalid_append := by
    intro s hs h t
    cases s with
    | nil => exact absurd rfl hs
    | cons c src =>
      simp only [List.cons_append, redisParseReady] at h ⊢
      split at h
      · rename_i hc
        rw [if_pos hc]
        rcases Scan.bind_eq_invalid.mp h with hi | ⟨_, _, hd⟩
        · rw [stable_parseMultiBulkReply2.invalid_append hi t]
          rfl
        · cases hd
      · rename_i hc
        rw [if_neg hc]

/-- **What `parse_ready` says of a buffer it says of every longer one, and of a proper
part of a frame it says that it is not complete.** -/
theorem redisParseReady_append [Target] {s : Bytes} (hs : s ≠ []) (t : Bytes) :
    (∀ p, redisParseReady s = .done p → redisParseReady (s ++ t) = .done p) ∧
      (redisParseReady s = .invalid → redisParseReady (s ++ t) = .invalid) ∧
      ∀ p, redisParseReady (s ++ t) = .done p → s.length < p → redisParseReady s = .incomplete := by
  have hv := stableVerdict_redisParseReady
  exact ⟨fun p h => hv.ready_append h t, fun h => hv.invalid_append hs h t,
    fun p h hp => hv.incomplete_of_done hs h hp⟩

/-- A frame that is cut in the middle of a bulk's trailer. -/
theorem redisParseReady_append_cut :
    redisParseReady (ascii "*1\r\n$3\r\nkey\r\n") = .done 13 ∧ redisParseReady (ascii "*1\r\n$3\r\nkey\r") = .incomplete := by
  have hdone : redisParseReady (ascii "*1\r\n$3\r\nkey\r" ++ [LF]) = .done 13 := by decide
  have hcut := redisParseReady_append (s := ascii "*1\r\n$3\r\nkey\r") (by decide) [LF]
  exact ⟨hdone, hcut.2.2 13 hdone (by decide)⟩

end ApApps.Redis

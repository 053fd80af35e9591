import ApApps.Lua.Basic
import ApApps.Lib.Machine
import ApApps.Lib.Pieces

/- The buffered reader of bufio.lua.

   What `se.read(r.fd, -r.fillsize, r.timeout)` returns is part of the state: with a
   negative size it returns as soon as there is something to read, so the stream comes in
   pieces of any length, and then an error. The size and the timeout only bound the
   pieces, and the pieces are arbitrary here.

   `refillLoop_collect` says what both loops do, whatever they look for: they go through
   the pieces one by one (`collect`). What that makes of a stream is `Bufio/Stream.lean`. -/
namespace ApApps.Bufio
open Exec Pieces

/-! ## The reader -/

structure Reader where
  fd : Int
  buf : Option Bytes
  /-- 1-based, as the source has it -/
  pos : Nat
  err : Option Bytes
  /-- what `se.read` still returns, one piece a call -/
  pieces : List Bytes
  /-- the error it returns after that -/
  fin : Bytes

abbrev M := EStateM LuaError Reader

/-- `data`, or `nil, err`. -/
abbrev Answer := Except (Option Bytes) Bytes

/-- `string.sub(s, i, j)` for `1 ≤ i`. -/
def stringSub (s : Bytes) (i j : Nat) : Bytes := (s.drop (i - 1)).take (j - (i - 1))

/-- `string.find(s, pat, pos, true)`: where the first occurrence from `pos` on begins
and ends. -/
def stringFind (s pat : Bytes) (pos : Nat) : Option (Nat × Nat) :=
  (findAt pat (s.drop (pos - 1))).map fun i => (pos + i, pos + i + pat.length - 1)

/-- `se.read` with a negative size. -/
def seRead : M (Option Bytes × Option Bytes) := do
  let r ← get
  match r.pieces with
  | [] => pure (none, some r.fin)
  | p :: ps => do
    set { r with pieces := ps }
    pure (some p, none)

/-- `r.buf`, where it is used. -/
def readerBuf : M Bytes := do
  match (← get).buf with
  | none => throw (.badArgument "#")
  | some buf => pure buf

def readerBufsize : M Nat := do
  let buf ← readerBuf
  pure (buf.length + 1 - (← get).pos)

/-- `n and r.pos + n - 1 or #r.buf`. -/
def lastByte (n : Option Nat) (pos : Nat) (buf : Bytes) : Nat :=
  match n with
  | some n => pos + n - 1
  | none => buf.length

def readerConsume (n : Option Nat) : M Bytes := do
  let buf ← readerBuf
  let pos := (← get).pos
  let last := lastByte n pos buf
  let data := if pos = 1 ∧ last = buf.length then buf else stringSub buf pos last
  modify fun r => { r with pos := last + 1 }
  pure data

def readerFillBuffer : M Bool := do
  if (← get).err.isSome then pure false
  else if 0 < (← readerBufsize) then pure true
  else if (← get).fd < 0 then do
    modify fun r => { r with err := some (ascii "EOF"), buf := none, pos := 0 }
    pure false
  else do
    let (buf, err) ← seRead
    modify fun r => { r with buf := buf, err := err }
    if err.isSome then do
      modify fun r => { r with buf := none, pos := 0 }
      pure false
    else do
      modify fun r => { r with pos := 1 }
      pure true

/-- `while reader_fill_buffer(r) do … end; return nil, r.err`: `look` says how many
bytes of the buffer complete the answer, or what is looked for after them. A turn that
goes on leaves the buffer empty, so `fuel` bounds the pieces. -/
def refillLoop {σ : Type} (look : σ → M (Nat ⊕ σ)) : Nat → σ → Bytes → M Answer
  | 0, _, _ => pure (.error none)
  | fuel + 1, x, data => do
    if ← readerFillBuffer then
      match ← look x with
      | .inl n => do
        let part ← readerConsume (some n)
        pure (.ok (data ++ part))
      | .inr x' => do
        let part ← readerConsume none
        refillLoop look fuel x' (data ++ part)
    else pure (.error (← get).err)

/-- Enough turns: one for the buffer, one for each piece, and the one that fails. -/
def turns : M Nat := do pure ((← get).pieces.length + 2)

/-- The loop of `reader_read`. -/
def lookBytes (n : Nat) : M (Nat ⊕ Nat) := do
  let bufsize ← readerBufsize
  if n ≤ bufsize then pure (.inl n) else pure (.inr (n - bufsize))

def readerRead (n : Nat) : M Answer := do
  if 0 < n then refillLoop lookBytes (← turns) n [] else throw (.assertFailed "reader_read")

/-- The loop of `reader_read_until`. -/
def lookPattern (pat : Bytes) (_ : Unit) : M (Nat ⊕ Unit) := do
  let buf ← readerBuf
  let pos := (← get).pos
  match stringFind buf pat pos with
  | some (_, stop) => pure (.inl (stop + 1 - pos))
  | none => pure (.inr ())

def readerReadUntil (pat : Bytes) : M Answer := do refillLoop (lookPattern pat) (← turns) () []

/-- `reader_new(fd, { initbuf = initbuf })` on what `se.read` will return. -/
def readerNew (fd : Int) (initbuf : Bytes) (pieces : List Bytes) (fin : Bytes) : Reader :=
  { fd, buf := some initbuf, pos := 1, err := none, pieces, fin }

/-! ## What is still to come -/

/-- The reader has not failed, and these bytes of its buffer are unread. -/
structure Reader.Open (r : Reader) (unread : Bytes) : Prop where
  no_err : r.err = none
  buffered : ∃ done, r.buf = some (done ++ unread) ∧ r.pos = done.length + 1

/-- What `se.read` is still asked for. -/
def Reader.coming (r : Reader) : List Bytes := if r.fd < 0 then [] else r.pieces

/-- The error the stream ends with. -/
def Reader.ending (r : Reader) : Bytes := if r.fd < 0 then ascii "EOF" else r.fin

theorem open_readerNew (fd : Int) (initbuf : Bytes) (pieces : List Bytes) (fin : Bytes) :
    (readerNew fd initbuf pieces fin).Open initbuf := ⟨rfl, [], rfl, rfl⟩

section Steps
variable {r : Reader} {unread : Bytes}

theorem readerBuf_ok {buf : Bytes} (h : r.buf = some buf) : readerBuf r = .ok buf r := by
  unfold readerBuf
  rw [bind_of_ok (get_ok r), h]
  rfl

theorem readerBufsize_ok (h : r.Open unread) : readerBufsize r = .ok unread.length r := by
  obtain ⟨done, hbuf, hpos⟩ := h.buffered
  unfold readerBufsize
  rw [bind_of_ok (readerBuf_ok hbuf), bind_of_ok (get_ok r), hpos, List.length_append]
  show EStateM.Result.ok (done.length + unread.length + 1 - (done.length + 1)) r = _
  congr 1
  omega

/-- Reading on in the buffer. -/
def Reader.advance (r : Reader) (k : Nat) : Reader := { r with pos := r.pos + k }

theorem Reader.Open.advance (h : r.Open unread) {k : Nat} (hk : k ≤ unread.length) :
    (r.advance k).Open (unread.drop k) := by
  obtain ⟨done, hbuf, hpos⟩ := h.buffered
  refine ⟨h.no_err, done ++ unread.take k, ?_, ?_⟩
  · rw [List.append_assoc, List.take_append_drop]
    exact hbuf
  · show r.pos + k = _
    rw [hpos, List.length_append, List.length_take]
    omega

theorem readerConsume_eq {buf : Bytes} (h : r.buf = some buf) (n : Option Nat) :
    readerConsume n r =
      .ok (if r.pos = 1 ∧ lastByte n r.pos buf = buf.length then buf
          else stringSub buf r.pos (lastByte n r.pos buf))
        { r with pos := lastByte n r.pos buf + 1 } := by
  unfold readerConsume
  rw [bind_of_ok (readerBuf_ok h), bind_of_ok (get_ok r)]
  exact bind_of_ok (modify_ok _ r)

/-- The next `k` unread bytes, all of them without an argument. -/
theorem readerConsume_ok (h : r.Open unread) (n : Option Nat) :
    readerConsume n r =
      .ok (unread.take (n.getD unread.length)) (r.advance (n.getD unread.length)) := by
  obtain ⟨done, hbuf, hpos⟩ := h.buffered
  generalize hk : n.getD unread.length = k
  have hlast : lastByte n r.pos (done ++ unread) = done.length + k := by
    cases n with
    | none =>
      simp only [Option.getD_none] at hk
      simp only [lastByte, List.length_append, hk]
    | some n =>
      simp only [Option.getD_some] at hk
      simp only [lastByte, hpos]
      omega
  have hdata : (if r.pos = 1 ∧ done.length + k = (done ++ unread).length then done ++ unread
      else stringSub (done ++ unread) r.pos (done.length + k)) = unread.take k := by
    split
    · next hall =>
      -- the whole buffer is unread
      have hdone : done = [] := List.eq_nil_of_length_eq_zero (by omega)
      subst hdone
      simp only [List.length_nil, List.nil_append, Nat.zero_add] at hall ⊢
      rw [hall.2, List.take_length]
    · rw [stringSub, hpos, Nat.add_sub_cancel, List.drop_left, Nat.add_sub_cancel_left]
  have hpos' : done.length + k + 1 = r.pos + k := by omega
  rw [readerConsume_eq hbuf, hlast, hdata, hpos']
  rfl

/-- There is something to read. -/
theorem readerFillBuffer_ready (h : r.Open unread) (hu : unread ≠ []) : readerFillBuffer r = .ok true r := by
  unfold readerFillBuffer
  rw [bind_of_ok (get_ok r), h.no_err]
  simp only [Option.isSome_none, Bool.false_eq_true, if_false]
  rw [bind_of_ok (readerBufsize_ok h), if_pos (List.length_pos_of_ne_nil hu)]
  rfl

/-- The buffer is used up, and the stream goes on. -/
theorem readerFillBuffer_next (h : r.Open []) {p : Bytes} {ps : List Bytes} (hc : r.coming = p :: ps) :
    ∃ r', readerFillBuffer r = .ok true r' ∧ r'.Open p ∧ r'.coming = ps ∧ r'.ending = r.ending := by
  have hfd : ¬ r.fd < 0 := by
    intro hfd
    rw [Reader.coming, if_pos hfd] at hc
    cases hc
  rw [Reader.coming, if_neg hfd] at hc
  refine ⟨{ r with buf := some p, err := none, pos := 1, pieces := ps }, ?_, ⟨rfl, [], rfl, rfl⟩, ?_, rfl⟩
  · unfold readerFillBuffer
    rw [bind_of_ok (get_ok r), h.no_err]
    simp only [Option.isSome_none, Bool.false_eq_true, if_false]
    rw [bind_of_ok (readerBufsize_ok h), if_neg (by simp), bind_of_ok (get_ok r), if_neg hfd]
    have hread : seRead r = .ok (some p, none) { r with pieces := ps } := by
      unfold seRead
      rw [bind_of_ok (get_ok r), hc]
      rfl
    rw [bind_of_ok hread]
    rfl
  · exact if_neg hfd

/-- The buffer is used up, and so is the stream. -/
theorem readerFillBuffer_end (h : r.Open []) (hc : r.coming = []) :
    ∃ r', readerFillBuffer r = .ok false r' ∧ r'.err = some r.ending ∧ r'.ending = r.ending := by
  by_cases hfd : r.fd < 0
  · refine ⟨{ r with err := some (ascii "EOF"), buf := none, pos := 0 }, ?_, ?_, rfl⟩
    · unfold readerFillBuffer
      rw [bind_of_ok (get_ok r), h.no_err]
      simp only [Option.isSome_none, Bool.false_eq_true, if_false]
      rw [bind_of_ok (readerBufsize_ok h), if_neg (by simp), bind_of_ok (get_ok r), if_pos hfd]
      rfl
    · rw [Reader.ending, if_pos hfd]
  · rw [Reader.coming, if_neg hfd] at hc
    refine ⟨{ r with buf := none, err := some r.fin, pos := 0 }, ?_, ?_, rfl⟩
    · unfold readerFillBuffer
      rw [bind_of_ok (get_ok r), h.no_err]
      simp only [Option.isSome_none, Bool.false_eq_true, if_false]
      rw [bind_of_ok (readerBufsize_ok h), if_neg (by simp), bind_of_ok (get_ok r), if_neg hfd]
      have hread : seRead r = .ok (none, some r.fin) r := by
        unfold seRead
        rw [bind_of_ok (get_ok r), hc]
        rfl
      rw [bind_of_ok hread]
      rfl
    · rw [Reader.ending, if_neg hfd]

end Steps

/-! ## The loops -/

/-- The stream is at `p`, which is in the buffer, and `ps`, which are not; it ends
with `e`. -/
structure Reader.At (r : Reader) (p : Bytes) (ps : List Bytes) (e : Bytes) : Prop where
  opened : r.Open p
  coming : r.coming = ps
  ending : r.ending = e

/-- What a call makes of the pieces `ps` when `k` of their bytes are wanted, if any. -/
def Answers (k : Option Nat) (ps : List Bytes) (e data : Bytes) (res : EStateM.Result LuaError Reader Answer) :
    Prop :=
  match k with
  | some k => ∃ r' q qs, res = .ok (.ok (data ++ ps.flatten.take k)) r' ∧
      dropPieces k ps = q :: qs ∧ r'.At q qs e
  | none => ∃ r', res = .ok (.error (some e)) r' ∧ r'.err = some e

/-- `look` is `w` on the unread bytes, for what `P` allows to look for. -/
structure Looks {σ : Type} (look : σ → M (Nat ⊕ σ)) (w : σ → Bytes → Nat ⊕ σ) (P : σ → Prop) : Prop where
  looks : ∀ {r unread}, r.Open unread → ∀ x, look x r = .ok (w x unread) r
  found : ∀ {x p k}, P x → w x p = .inl k → 0 < k ∧ k ≤ p.length
  empty : ∀ {x}, P x → w x [] = .inr x
  keeps : ∀ {x p x'}, P x → w x p = .inr x' → P x'

section Loops
variable {σ : Type} {look : σ → M (Nat ⊕ σ)} {w : σ → Bytes → Nat ⊕ σ} {P : σ → Prop}

/-- Something is wanted. -/
theorem collect_pos (hl : Looks look w P) {x : σ} (hx : P x) {ps : List Bytes} {k : Nat}
    (h : collect w x ps = some k) : 0 < k := by
  induction ps generalizing x k with
  | nil => cases h
  | cons p ps ih =>
    simp only [collect] at h
    cases hw : w x p with
    | inl n =>
      rw [hw] at h
      cases h
      exact (hl.found hx hw).1
    | inr x' =>
      rw [hw] at h
      obtain ⟨k', hk', rfl⟩ := Option.map_eq_some_iff.mp h
      have := ih (hl.keeps hx hw) hk'
      omega

/-- A piece that does not complete the answer goes in front of what the rest gives. -/
theorem Answers.cons {k : Option Nat} {p : Bytes} {ps : List Bytes} {e data : Bytes}
    {res : EStateM.Result LuaError Reader Answer} (hk : ∀ n, k = some n → 0 < n)
    (h : Answers k ps e (data ++ p) res) : Answers (k.map (· + p.length)) (p :: ps) e data res := by
  cases k with
  | none => exact h
  | some k =>
    obtain ⟨r', q, qs, hres, hdrop, hat⟩ := h
    have hk := hk k rfl
    refine ⟨r', q, qs, ?_, ?_, hat⟩
    · have htake : (p ++ ps.flatten).take (k + p.length) = p ++ ps.flatten.take k := by
        rw [Nat.add_comm, List.take_length_add_append]
      simp only [hres, List.flatten_cons, htake, List.append_assoc]
    · simp only [dropPieces]
      rw [if_neg (by omega), Nat.add_sub_cancel, hdrop]

/-- One turn, in front of what the loop makes of the rest. -/
theorem refillLoop_turn (hl : Looks look w P) {x : σ} (hx : P x) {r r1 : Reader} {p : Bytes} {ps : List Bytes}
    {e : Bytes} (hfill : readerFillBuffer r = .ok true r1) (h1 : r1.At p ps e) (fuel : Nat) (data : Bytes)
    (hrest : ∀ x' r2, P x' → r2.At [] ps e →
      Answers (collect w x' ps) ps e (data ++ p) (refillLoop look fuel x' (data ++ p) r2)) :
    Answers (collect w x (p :: ps)) (p :: ps) e data (refillLoop look (fuel + 1) x data r) := by
  unfold refillLoop
  rw [bind_of_ok hfill]
  simp only [if_true]
  rw [bind_of_ok (hl.looks h1.opened x)]
  simp only [collect]
  cases hw : w x p with
  | inl k =>
    obtain ⟨_, hle⟩ := hl.found hx hw
    simp only
    rw [bind_of_ok (readerConsume_ok h1.opened (some k))]
    refine ⟨r1.advance k, p.drop k, ps, ?_, ?_, h1.opened.advance hle, h1.coming, h1.ending⟩
    · rw [List.flatten_cons, List.take_append_of_le_length hle]
      rfl
    · rw [dropPieces, if_pos hle]
  | inr x' =>
    have hx' := hl.keeps hx hw
    simp only
    rw [bind_of_ok (readerConsume_ok h1.opened none)]
    simp only [Option.getD_none, List.take_length]
    have h2 : (r1.advance p.length).At [] ps e := by
      refine ⟨?_, h1.coming, h1.ending⟩
      have hadv := h1.opened.advance (Nat.le_refl p.length)
      rwa [List.drop_length] at hadv
    exact (hrest x' _ hx' h2).cons fun n hn => collect_pos hl hx' hn

/-- The loop with the buffer used up: one turn for each piece, by induction on them. -/
theorem refillLoop_used (hl : Looks look w P) {e : Bytes} : ∀ (ps : List Bytes) (fuel : Nat) (x : σ) (data : Bytes)
    (r : Reader), P x → r.At [] ps e → ps.length < fuel →
      Answers (collect w x ps) ps e data (refillLoop look fuel x data r) := by
  intro ps
  induction ps with
  | nil =>
    intro fuel x data r _ h hfuel
    obtain ⟨fuel, rfl⟩ : ∃ n, fuel = n + 1 := ⟨fuel - 1, by omega⟩
    obtain ⟨r', hfill, herr, _⟩ := readerFillBuffer_end h.opened h.coming
    rw [h.ending] at herr
    unfold refillLoop
    rw [bind_of_ok hfill]
    refine ⟨r', ?_, herr⟩
    rw [← herr]
    rfl
  | cons p ps ih =>
    intro fuel x data r hx h hfuel
    obtain ⟨fuel, rfl⟩ : ∃ n, fuel = n + 1 := ⟨fuel - 1, by omega⟩
    obtain ⟨r1, hfill, hopen, hcoming, hending⟩ := readerFillBuffer_next h.opened h.coming
    rw [List.length_cons] at hfuel
    exact refillLoop_turn hl hx hfill ⟨hopen, hcoming, hending.trans h.ending⟩ fuel data fun x' r2 hx' h2 =>
      ih fuel x' (data ++ p) r2 hx' h2 (by omega)

/-- **Both loops go through the pieces one by one.** -/
theorem refillLoop_collect (hl : Looks look w P) {x : σ} (hx : P x) {r : Reader} {p : Bytes} {ps : List Bytes}
    {e : Bytes} (h : r.At p ps e) {fuel : Nat} (hfuel : ps.length + 1 < fuel) (data : Bytes) :
    Answers (collect w x (p :: ps)) (p :: ps) e data (refillLoop look fuel x data r) := by
  by_cases hp : p = []
  · -- an empty buffer is filled at once
    subst hp
    have hused := refillLoop_used hl ps fuel x (data ++ []) r hx h (by omega)
    have hcons := hused.cons fun n hn => collect_pos hl hx hn
    rw [List.append_nil] at hcons
    simpa only [collect, hl.empty hx] using hcons
  · obtain ⟨fuel, rfl⟩ : ∃ n, fuel = n + 1 := ⟨fuel - 1, by omega⟩
    exact refillLoop_turn hl hx (readerFillBuffer_ready h.opened hp) h fuel data fun x' r2 hx' h2 =>
      refillLoop_used hl ps fuel x' (data ++ p) r2 hx' h2 (by omega)

end Loops

theorem looks_count : Looks lookBytes lookCount (0 < ·) where
  looks := by
    intro r unread h n
    unfold lookBytes
    rw [bind_of_ok (readerBufsize_ok h)]
    simp only [lookCount]
    split <;> rfl
  found := by
    intro n p k hn h
    simp only [lookCount] at h
    split at h
    · next hle =>
      cases h
      exact ⟨hn, hle⟩
    · cases h
  empty := by
    intro n hn
    rw [lookCount, if_neg (by simp only [List.length_nil]; omega)]
    rfl
  keeps := by
    intro n p n' hn h
    simp only [lookCount] at h
    split at h
    · cases h
    · next hle =>
      cases h
      show 0 < n - p.length
      omega

theorem looks_find {pat : Bytes} (hpat : pat ≠ []) : Looks (lookPattern pat) (lookFind pat) (fun _ => True) where
  looks := by
    intro r unread h u
    obtain ⟨done, hbuf, hpos⟩ := h.buffered
    unfold lookPattern
    rw [bind_of_ok (readerBuf_ok hbuf), bind_of_ok (get_ok r), stringFind, hpos, Nat.add_sub_cancel,
      List.drop_left, lookFind]
    have hlen := List.length_pos_of_ne_nil hpat
    cases findAt pat unread with
    | none => rfl
    | some i =>
      have hstop : done.length + 1 + i + pat.length - 1 + 1 - (done.length + 1) = i + pat.length := by omega
      simp only [Option.map_some, hstop]
      rfl
  found := by
    intro u p k _ h
    simp only [lookFind] at h
    split at h
    · next i hi =>
      cases h
      have hlen := List.length_pos_of_ne_nil hpat
      exact ⟨by omega, findAt_le hi⟩
    · cases h
  empty := by
    intro u _
    rw [lookFind, findAt, if_neg hpat]
  keeps := fun _ _ => trivial

section Calls
variable {r : Reader} {p : Bytes} {ps : List Bytes} {e : Bytes}

theorem turns_ok (r : Reader) : turns r = .ok (r.pieces.length + 2) r := bind_of_ok (get_ok r)

theorem Reader.At.length_le (h : r.At p ps e) : ps.length ≤ r.pieces.length := by
  rw [← h.coming, Reader.coming]
  split
  · exact Nat.zero_le _
  · exact Nat.le_refl _

/-- `read(n)`, whatever the pieces. -/
theorem readerRead_answers (h : r.At p ps e) {n : Nat} (hn : 0 < n) :
    Answers (if n ≤ (p :: ps).flatten.length then some n else none) (p :: ps) e [] (readerRead n r) := by
  have hle := h.length_le
  unfold readerRead
  rw [if_pos hn, bind_of_ok (turns_ok r), ← collect_count n (p :: ps) hn]
  exact refillLoop_collect looks_count hn h (by omega) []

/-- `read_until(pat)`, one piece at a time. -/
theorem readerReadUntil_answers (h : r.At p ps e) {pat : Bytes} (hpat : pat ≠ []) :
    Answers (collect (lookFind pat) () (p :: ps)) (p :: ps) e [] (readerReadUntil pat r) := by
  have hle := h.length_le
  unfold readerReadUntil
  rw [bind_of_ok (turns_ok r)]
  exact refillLoop_collect (looks_find hpat) trivial h (by omega) []

/-- After a failure every loop fails at once, the same way. -/
theorem refillLoop_failed {σ : Type} (look : σ → M (Nat ⊕ σ)) {e : Bytes} (h : r.err = some e) (fuel : Nat)
    (x : σ) (data : Bytes) : refillLoop look (fuel + 1) x data r = .ok (.error (some e)) r := by
  have hfill : readerFillBuffer r = .ok false r := by
    unfold readerFillBuffer
    rw [bind_of_ok (get_ok r), h]
    rfl
  unfold refillLoop
  rw [bind_of_ok hfill]
  show EStateM.Result.ok (Except.error r.err) r = _
  rw [h]

end Calls

end ApApps.Bufio

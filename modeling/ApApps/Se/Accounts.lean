import ApApps.Se.Core

/- What a call of `se.read` or `se.write` says about the bytes that have passed between the
   thread and the kernel.

   While a writer is asleep the kernel has the first `nwrite` bytes of its data (`Written`),
   while a reader is, what it has taken is in its buffer (`Held`). One try keeps this or ends
   the call with the right account (`seTryWrite_written`, `seTryRead_held`), and so does every
   event of a thread that is asleep; `every_byte_accounted` is about every run of a call.

   It does not hold of all calls that their bytes are accounted for: a bad descriptor is
   an assertion, and the call raises (`not_always_accounted`); and the length of a string from
   2^31 bytes on is not its `int` (`lSeWrite_truncated`). -/
namespace ApApps.Se
open Exec

/-! ## Calls -/

/-- A thread that is in no call. -/
def Thread.idle (nwrite : Int) : Thread := ⟨none, nwrite, false, [], []⟩

/-- What the system calls of a thread find. -/
def results {ρ : Type} (result : ρ) (evs : List (Event ρ)) : List ρ :=
  result :: evs.filterMap fun ev => match ev with
    | .io result => some result
    | .timer => none

/-- Why a call raises: a bad descriptor, or a third argument that is no number. -/
def Raises (site fn : String) (badf : Prop) (timeout : Timeout) (e : LuaError) : Prop :=
  e = .assertFailed site ∧ badf ∨ e = .badArgument fn ∧ timeout = .notNumber

/-- The kernel has the first `n` bytes of `data`: all of them if and only if success is
reported, and otherwise `n` is the count that is returned. -/
def WriteAccounts (data : Bytes) (raises : LuaError → Prop) : EStateM.Result LuaError Thread (Option WriteReturn) → Prop
  | .ok ret s => ∃ n ≤ data.length, s.handed = data.take n ∧ (ret = some .done ↔ n = data.length) ∧
      ∀ errmsg count, ret = some (.error errmsg count) → count = n
  | .error e s => (∃ n ≤ data.length, s.handed = data.take n) ∧ raises e

/-- What is in the buffer of the thread. -/
def Thread.text (s : Thread) : Bytes := (s.buf.map Sds.text).getD []

/-- What the thread has taken from the kernel is what the call returns: `size` bytes if no
error is reported, not more in any case, and one piece if no size is asked for. -/
def ReadAccounts (size : Int) (raises : LuaError → Prop) : EStateM.Result LuaError Thread (Option ReadReturn) → Prop
  | .ok none s => s.text = s.taken.flatten
  | .ok (some ret) s => s.taken.flatten = ret.data.getD [] ∧ s.buf = none ∧
      (0 < size → s.taken.flatten.length ≤ size ∧ (ret.errmsg = none → s.taken.flatten.length = size)) ∧
      (size ≤ 0 → s.taken = ret.data.toList)
  | .error e s => s.text = s.taken.flatten ∧ raises e

/-- Either the thread goes on with `I`, or `Q` holds of the outcome. -/
def Tries {α : Type} (I : Thread → Prop) (Q : EStateM.Result LuaError Thread (Option α) → Prop) :
    EStateM.Result LuaError Thread (Option α) → Prop
  | .ok none s => I s
  | .ok (some ret) s => Q (.ok (some ret) s)
  | .error e s => Q (.error e s)

variable {s : Thread} {size : Int} {data : Bytes}

section Tries
variable {ρ α : Type} {I : Thread → Prop} {Q : EStateM.Result LuaError Thread (Option α) → Prop}

theorem Tries.again (h : I s) : Tries I Q (.ok none s) := h

theorem Tries.done {ret : α} (h : Q (.ok (some ret) s)) : Tries I Q (.ok (some ret) s) := h

theorem Tries.raised {e : LuaError} (h : Q (.error e s)) : Tries I Q (.error e s) := h

theorem ifAgain_of_tries {x next : M (Option α)} (h : Tries I Q (x s)) (hnext : ∀ s, I s → Q (next s)) :
    Q (ifAgain x next s) := by
  rw [ifAgain]
  cases hx : x s with
  | error e s' =>
    rw [hx] at h
    rw [bind_of_error hx]
    exact h
  | ok ret s' =>
    rw [hx] at h
    rw [bind_of_ok hx]
    cases ret with
    | some ret => exact h
    | none => exact hnext s' h

/-- **What every event of a sleeping thread keeps, or ends with `Q`, the whole sleep does.** -/
theorem asleep_of_tries {on : Event ρ → M (Option α)} (hIQ : ∀ s, I s → Q (.ok none s)) {evs : List (Event ρ)}
    (hstep : ∀ ev ∈ evs, ∀ s, I s → Tries I Q (on ev s)) (h : I s) : Q (asleep on evs s) := by
  induction evs generalizing s with
  | nil => exact hIQ s h
  | cons ev evs ih =>
    have htry := hstep ev List.mem_cons_self s h
    exact ifAgain_of_tries htry fun s hs => ih (fun ev hev => hstep ev (List.mem_cons_of_mem _ hev)) hs

/-- The same of a call that may go to sleep, if `I` does not look at the timer. -/
theorem seWaitTimeout_of_tries {fn : String} {timeout : Timeout} {on : Event ρ → M (Option α)} {evs : List (Event ρ)}
    {after : M (Option α)} (htimer : ∀ s b, I s → I { s with timer := b }) (hIQ : ∀ s, I s → Q (.ok none s))
    (hstep : ∀ ev ∈ evs, ∀ s, I s → Tries I Q (on ev s)) (hafter : ∀ s, I s → Q (after s))
    (hraise : timeout = .notNumber → Q (.error (.badArgument fn) s)) (h : I s) :
    Q (seWaitTimeout fn timeout on evs after s) := by
  cases timeout with
  | absent => exact asleep_of_tries hIQ hstep h
  | notNumber => exact hraise rfl
  | number timeout =>
    simp only [seWaitTimeout]
    split
    · rw [bind_of_ok (modify_ok _ _)]
      exact asleep_of_tries hIQ hstep (htimer s true h)
    · split
      · exact hafter s h
      · exact asleep_of_tries hIQ hstep h

/-- Waking the thread up only stops the timer. -/
theorem wakeupIo_of_tries {x : M (Option α)} (hwake : ∀ ret s, Q (.ok (some ret) s) → Q (.ok (some ret) { s with timer := false }))
    (h : Tries I Q (x s)) : Tries I Q (wakeupIo x s) := by
  rw [wakeupIo]
  cases hx : x s with
  | error e s' =>
    rw [hx] at h
    rw [bind_of_error hx]
    exact h
  | ok ret s' =>
    rw [hx] at h
    rw [bind_of_ok hx]
    cases ret with
    | some ret => exact hwake ret s' h
    | none => exact h

theorem mem_results {result x : ρ} {evs : List (Event ρ)} (h : Event.io x ∈ evs) :
    x ∈ results result evs := List.mem_cons_of_mem _ (List.mem_filterMap.mpr ⟨.io x, h, rfl⟩)

end Tries

/-! ## write -/

/-- The kernel has the first `nwrite` bytes, and that is not all. -/
def Written (data : Bytes) (s : Thread) : Prop :=
  ∃ n < data.length, s.handed = data.take n ∧ s.nwrite = n

theorem Written.accounts {raises : LuaError → Prop} (h : Written data s) : WriteAccounts data raises (.ok none s) := by
  obtain ⟨n, hn, hhanded, -⟩ := h
  exact ⟨n, hn.le, hhanded, ⟨fun h => (nomatch h), fun h => absurd h hn.ne⟩, fun _ _ h => (nomatch h)⟩

/-- An error is returned with `nwrite`. -/
theorem Written.accounts_error {raises : LuaError → Prop} (h : Written data s) (errmsg : Bytes) :
    WriteAccounts data raises (.ok (some (.error errmsg s.nwrite)) s) := by
  obtain ⟨n, hn, hhanded, hnwrite⟩ := h
  refine ⟨n, hn.le, hhanded, ⟨fun h => (nomatch h), fun h => absurd h hn.ne⟩, fun _ count h => ?_⟩
  cases h
  exact hnwrite

theorem Written.raises {raises : LuaError → Prop} (h : Written data s) {e : LuaError} (he : raises e) :
    WriteAccounts data raises (.error e s) := by
  obtain ⟨n, hn, hhanded, -⟩ := h
  exact ⟨⟨n, hn.le, hhanded⟩, he⟩

theorem cInt_of_nat {n : Nat} (h : n < 2 ^ 31) : cInt (n : Int) = n := wrapInt_of_fits (by omega) (by omega)

/-- **One try writes from where the last one ended.** -/
theorem seTryWrite_written (hlen : data.length < 2 ^ 31) (h : Written data s) {raises : LuaError → Prop}
    {result : WriteResult} (hbadf : result = .fail .badf → raises (.assertFailed "se_try_write")) :
    Tries (Written data) (WriteAccounts data raises) (seTryWrite data (cInt data.length) result s) := by
  have hwritten := h
  obtain ⟨n, hn, hhanded, hnwrite⟩ := h
  have hbufsize : cInt (cInt (data.length : Int) - s.nwrite) = ((data.length - n : Nat) : Int) := by
    rw [cInt_of_nat hlen, hnwrite, show (data.length : Int) - n = ((data.length - n : Nat) : Int) by omega]
    exact cInt_of_nat (by omega)
  unfold seTryWrite
  rw [bind_of_ok (get_ok s), hbufsize, hnwrite, Int.toNat_natCast]
  cases result with
  | fail errno =>
    have hsys : sysWrite (data.drop n) ((data.length - n : Nat) : Int) (.fail errno) s = .ok (.error errno) s := rfl
    rw [bind_of_ok hsys, returnValue, if_neg (by omega), if_neg (by omega)]
    cases errno with
    | again => exact .again hwritten
    | badf => exact .raised (hwritten.raises (hbadf rfl))
    | other errmsg =>
      rw [← hnwrite]
      exact .done (hwritten.accounts_error errmsg)
  | room k =>
    have hsys : sysWrite (data.drop n) ((data.length - n : Nat) : Int) (.room k) s =
        .ok (.ok (min k (data.length - n)))
          { s with handed := data.take (n + min k (data.length - n)) } := by
      rw [sysWrite, if_neg (by omega), Int.toNat_natCast, List.take_add, ← hhanded]
      rfl
    rw [bind_of_ok hsys, returnValue]
    by_cases hall : ((min k (data.length - n) : Nat) : Int) = ((data.length - n : Nat) : Int)
    · -- the rest has been written
      rw [if_pos hall]
      refine .done ⟨data.length, le_refl _, ?_, ⟨fun _ => rfl, fun _ => rfl⟩, fun _ _ h => (nomatch h)⟩
      show data.take _ = _
      rw [show n + min k (data.length - n) = data.length by omega]
    · rw [if_neg hall]
      by_cases hsome : 0 < ((min k (data.length - n) : Nat) : Int)
      · have hnext : cInt ((n : Int) + ((min k (data.length - n) : Nat) : Int)) =
            ((n + min k (data.length - n) : Nat) : Int) := by
          rw [← Nat.cast_add]
          exact cInt_of_nat (by omega)
        rw [if_pos hsome, bind_of_ok (modify_ok _ _), hnext]
        exact .again ⟨n + min k (data.length - n), by omega, rfl, rfl⟩
      · rw [if_neg hsome]
        refine .again ⟨n, hn, ?_, hnwrite⟩
        show data.take _ = _
        rw [show n + min k (data.length - n) = n by omega]

theorem seOnWrite_written (hlen : data.length < 2 ^ 31) (h : Written data s) {raises : LuaError → Prop}
    {ev : Event WriteResult} (hbadf : ev = .io (.fail .badf) → raises (.assertFailed "se_try_write")) :
    Tries (Written data) (WriteAccounts data raises) (seOnWrite data ev s) := by
  cases ev with
  | io result =>
    exact wakeupIo_of_tries (fun _ _ h => h) (seTryWrite_written hlen h fun hfail => hbadf (congrArg _ hfail))
  | timer =>
    rw [seOnWrite, bind_of_ok (get_ok s)]
    by_cases htimer : s.timer = true
    · rw [if_pos htimer, bind_of_ok (get_ok s)]
      exact wakeupIo_of_tries (fun _ _ h => h) (.done (h.accounts_error (ascii "TIMEOUT")))
    · rw [if_neg htimer]
      exact .again h

/-- **The account of `se.write`.** -/
theorem lSeWrite_accounts (hlen : data.length < 2 ^ 31) (nwrite : Int) (timeout : Timeout) (result : WriteResult)
    (evs : List (Event WriteResult)) :
    WriteAccounts data (Raises "se_try_write" "write" (.fail .badf ∈ results result evs) timeout)
      (lSeWrite data timeout result evs (.idle nwrite)) := by
  unfold lSeWrite
  by_cases hne : data = []
  · rw [if_pos hne, hne]
    exact ⟨0, le_refl _, rfl, ⟨fun _ => rfl, fun _ => rfl⟩, fun _ _ h => (nomatch h)⟩
  · have hbadf : ∀ r ∈ results result evs, r = .fail .badf →
        Raises "se_try_write" "write" (.fail .badf ∈ results result evs) timeout (.assertFailed "se_try_write") :=
      fun r hr hfail => .inl ⟨rfl, hfail ▸ hr⟩
    have hstart : Written data (.idle 0) := ⟨0, List.length_pos_iff.mpr hne, rfl, rfl⟩
    have htry := seTryWrite_written hlen hstart (hbadf result List.mem_cons_self)
    rw [if_neg hne, bind_of_ok (modify_ok _ _)]
    refine ifAgain_of_tries htry fun s hs => ?_
    refine seWaitTimeout_of_tries (fun _ _ h => h) (fun _ h => h.accounts) (fun ev hev s hs => ?_) (fun s hs => ?_)
      (fun hbad => hs.raises (.inr ⟨rfl, hbad⟩)) hs
    · refine seOnWrite_written hlen hs fun hfail => ?_
      exact hbadf _ (mem_results (hfail ▸ hev)) rfl
    · rw [bind_of_ok (get_ok s)]
      exact hs.accounts_error (ascii "TIMEOUT")

/-! ## read -/

/-- What has been taken is in the buffer, which has room for the rest; without a size nothing
has been taken yet. -/
structure Held (size : Int) (s : Thread) : Prop where
  text : s.text = s.taken.flatten
  room : ∀ c ∈ s.buf, c.text.length + c.avail = (firstBufsize size).toNat ∧ 0 < c.avail
  first : size ≤ 0 → s.taken = []

theorem firstBufsize_cases (h : -2 ^ 31 ≤ size) (h' : size < 2 ^ 31) :
    size = -2 ^ 31 ∧ firstBufsize size < 0 ∨ size ≠ -2 ^ 31 ∧ 0 < firstBufsize size := by
  rw [firstBufsize]
  by_cases hpos : 0 < size
  · rw [if_pos hpos]
    omega
  · rw [if_neg hpos]
    by_cases hneg : size < 0
    · rw [if_pos hneg]
      by_cases hmin : size = -2 ^ 31
      · rw [hmin]
        exact .inl ⟨rfl, by decide⟩
      · rw [show cInt (-size) = -size from wrapInt_of_fits (by omega) (by omega)]
        omega
    · rw [if_neg hneg]
      exact .inr ⟨by omega, by decide⟩

theorem Held.length_le (h : Held size s) : s.text.length ≤ (firstBufsize size).toNat := by
  have hroom := h.room
  unfold Thread.text
  cases hbuf : s.buf with
  | none => exact Nat.zero_le _
  | some c => exact Nat.le.intro (hroom c hbuf).1

theorem Held.timer (h : Held size s) (b : Bool) : Held size { s with timer := b } := ⟨h.text, h.room, h.first⟩

theorem seReadError_eq (errmsg : Bytes) (s : Thread) : seReadError errmsg s =
    .ok (some ⟨if s.text = [] then none else some s.text, some errmsg⟩) { s with buf := none } := by
  rw [seReadError, bind_of_ok (get_ok s)]
  obtain ⟨buf, nwrite, timer, taken, handed⟩ := s
  cases buf with
  | none => rfl
  | some c =>
    dsimp only
    rw [bind_of_ok (modify_ok _ _), show Thread.text ⟨some c, nwrite, timer, taken, handed⟩ = c.text from rfl]
    by_cases htext : c.text = []
    · rw [if_neg (not_not.mpr htext), if_pos htext]
      rfl
    · rw [if_pos htext, if_neg htext]
      rfl

/-- With an error the call returns what is in the buffer. -/
theorem seReadError_accounts {raises : LuaError → Prop} (h : Held size s) (errmsg : Bytes) :
    ReadAccounts size raises (seReadError errmsg s) := by
  have hdata : s.taken.flatten = (if s.text = [] then none else some s.text).getD [] := by
    rw [← h.text]
    split
    · assumption
    · rfl
  rw [seReadError_eq]
  refine ⟨hdata, rfl, fun hsize => ⟨?_, fun hno => (nomatch hno)⟩, fun hsize => ?_⟩
  · have hle := h.length_le
    rw [firstBufsize, if_pos hsize, h.text] at hle
    show (s.taken.flatten.length : Int) ≤ size
    omega
  · have hfirst := h.first hsize
    have htext := h.text
    rw [hfirst, List.flatten_nil] at htext
    rw [if_pos htext]
    exact hfirst

/-- There is a buffer with room for what is still to be read. -/
theorem readBuffer_ok (h : Held size s) (hpos : 0 < firstBufsize size) : ∃ bufsize s1,
    readBuffer size s = .ok (bufsize, s1.buf) s1 ∧ s1.taken = s.taken ∧ Held size s1 ∧ 0 < bufsize ∧
      s1.text.length + bufsize = (firstBufsize size).toNat ∧ ∀ c ∈ s1.buf, c.avail = bufsize := by
  rw [readBuffer, bind_of_ok (get_ok s)]
  cases hbuf : s.buf with
  | some c =>
    obtain ⟨hroom, havail⟩ := h.room c hbuf
    refine ⟨c.avail, s, by rw [hbuf]; rfl, rfl, h, havail, ?_, ?_⟩
    · rw [Thread.text, hbuf]
      exact hroom
    · intro c' hc'
      cases hbuf.symm.trans hc'
      rfl
  | none =>
    dsimp only
    rw [if_neg (not_lt.mpr hpos.le)]
    by_cases hsmall : firstBufsize size ≤ sbufSize
    · rw [if_pos hsmall]
      refine ⟨(firstBufsize size).toNat, s, by rw [hbuf]; rfl, rfl, h, by omega, ?_, ?_⟩
      · rw [Thread.text, hbuf]
        exact Nat.zero_add _
      · intro c hc
        rw [hbuf] at hc
        cases hc
    · have htext := h.text
      rw [Thread.text, hbuf] at htext
      rw [if_neg hsmall, bind_of_ok (modify_ok _ _)]
      refine ⟨(firstBufsize size).toNat, { s with buf := some ⟨[], (firstBufsize size).toNat⟩ }, rfl, rfl,
        ⟨htext, ?_, h.first⟩, by omega, Nat.zero_add _, ?_⟩
      · intro c hc
        cases hc
        exact ⟨Nat.zero_add _, by show 0 < (firstBufsize size).toNat; omega⟩
      · intro c hc
        cases hc
        rfl

/-- **One try goes on where the last one ended.** -/
theorem seTryRead_held (hmin : -2 ^ 31 ≤ size) (hmax : size < 2 ^ 31) (h : Held size s) {raises : LuaError → Prop}
    {result : ReadResult} (hbadf : result = .fail .badf → raises (.assertFailed "se_try_read"))
    (hoom : size = -2 ^ 31 → raises (.message "oom")) :
    Tries (Held size) (ReadAccounts size raises) (seTryRead size result s) := by
  rw [seTryRead]
  rcases firstBufsize_cases hmin hmax with ⟨hsize, hneg⟩ | ⟨-, hpos⟩
  · have herror : readBuffer size s = .error (.message "oom") s := by
      rw [readBuffer, bind_of_ok (get_ok s)]
      cases hbuf : s.buf with
      | some c =>
        have hroom := h.room c hbuf
        omega
      | none =>
        dsimp only
        rw [if_pos hneg]
        rfl
    rw [bind_of_error herror]
    exact .raised ⟨h.text, hoom hsize⟩
  · obtain ⟨bufsize, s1, hbuffer, htaken, h1, hroom, hlen, havail⟩ := readBuffer_ok h hpos
    rw [bind_of_ok hbuffer]
    dsimp only
    cases result with
    | fail errno =>
      have hsys : sysRead bufsize (.fail errno) s1 = .ok (.error errno) s1 := rfl
      rw [bind_of_ok hsys]
      cases errno with
      | again => exact .again h1
      | badf => exact .raised ⟨h1.text, hbadf rfl⟩
      | other errmsg =>
        have herror : ReadAccounts size raises (seReadError errmsg s1) := seReadError_accounts h1 errmsg
        dsimp only
        rw [seReadError_eq] at herror ⊢
        exact .done herror
    | data bytes =>
      have hpiecelen : (bytes.take bufsize).length ≤ bufsize := List.length_take_le _ _
      have hsys : sysRead bufsize (.data bytes) s1 = .ok (.ok (bytes.take bufsize))
        { s1 with taken := s1.taken ++ (if bytes.take bufsize = [] then [] else [bytes.take bufsize]) } := rfl
      rw [bind_of_ok hsys]
      dsimp only
      generalize bytes.take bufsize = piece at hpiecelen
      by_cases hpiece : piece = []
      · -- the end of the file
        rw [if_pos hpiece, if_pos hpiece, List.append_nil]
        have herror : ReadAccounts size raises (seReadError (ascii "EOF") s1) := seReadError_accounts h1 _
        rw [seReadError_eq] at herror
        rw [seReadError_eq]
        exact .done herror
      · rw [if_neg hpiece, if_neg hpiece]
        have hflat : (s1.taken ++ [piece]).flatten = s1.text ++ piece := by
          rw [List.flatten_append, h1.text, List.flatten_singleton]
        by_cases hdone : size ≤ 0 ∨ piece.length = bufsize
        · rw [if_pos hdone, bind_of_ok (modify_ok _ _)]
          refine .done ⟨hflat, rfl, fun hsize => ?_, fun hsize => ?_⟩
          · have hall : piece.length = bufsize := hdone.resolve_left (not_le.mpr hsize)
            rw [firstBufsize, if_pos hsize] at hlen
            have htotal : ((s1.taken ++ [piece]).flatten.length : Int) = size := by
              rw [hflat, List.length_append]
              omega
            exact ⟨htotal.le, fun _ => htotal⟩
          · have htext := h1.text
            rw [h1.first hsize] at htext
            show s1.taken ++ [piece] = [s1.text ++ piece]
            rw [h1.first hsize, htext]
            rfl
        · -- a part of what has been asked for
          rw [if_neg hdone, bind_of_ok (modify_ok _ _)]
          obtain ⟨hsize, hpart⟩ := not_or.mp hdone
          have hcache : (s1.buf.getD ⟨[], bufsize⟩).text = s1.text ∧ (s1.buf.getD ⟨[], bufsize⟩).avail = bufsize := by
            rw [Thread.text]
            cases hbuf : s1.buf with
            | none => exact ⟨rfl, rfl⟩
            | some c => exact ⟨rfl, havail c hbuf⟩
          refine .again ⟨?_, fun c hc => ?_, fun h => absurd h hsize⟩
          · show (s1.buf.getD ⟨[], bufsize⟩).text ++ piece = (s1.taken ++ [piece]).flatten
            rw [hflat, hcache.1]
          · cases hc
            show ((s1.buf.getD ⟨[], bufsize⟩).text ++ piece).length + ((s1.buf.getD ⟨[], bufsize⟩).avail - piece.length) = _ ∧
              0 < (s1.buf.getD ⟨[], bufsize⟩).avail - piece.length
            rw [hcache.1, hcache.2, List.length_append]
            omega

theorem seOnRead_held (hmin : -2 ^ 31 ≤ size) (hmax : size < 2 ^ 31) (h : Held size s) {raises : LuaError → Prop}
    {ev : Event ReadResult} (hbadf : ev = .io (.fail .badf) → raises (.assertFailed "se_try_read"))
    (hoom : size = -2 ^ 31 → raises (.message "oom")) :
    Tries (Held size) (ReadAccounts size raises) (seOnRead size ev s) := by
  cases ev with
  | io result =>
    exact wakeupIo_of_tries (fun _ _ h => h) (seTryRead_held hmin hmax h (fun hfail => hbadf (congrArg _ hfail)) hoom)
  | timer =>
    rw [seOnRead, bind_of_ok (get_ok s)]
    by_cases htimer : s.timer = true
    · have herror : ReadAccounts size raises (seReadError (ascii "TIMEOUT") s) := seReadError_accounts h _
      rw [if_pos htimer]
      refine wakeupIo_of_tries (fun _ _ h => h) ?_
      rw [seReadError_eq] at herror
      rw [seReadError_eq]
      exact .done herror
    · rw [if_neg htimer]
      exact .again h

/-- Why `se.read` raises: there may also be no memory. -/
def ReadRaises (size : Int) (badf : Prop) (timeout : Timeout) (e : LuaError) : Prop :=
  Raises "se_try_read" "read" badf timeout e ∨ e = .message "oom" ∧ size = -2 ^ 31

/-- **The account of `se.read`.** -/
theorem lSeRead_accounts (arg nwrite : Int) (timeout : Timeout) (result : ReadResult) (evs : List (Event ReadResult)) :
    ReadAccounts (cInt arg) (ReadRaises (cInt arg) (.fail .badf ∈ results result evs) timeout)
      (lSeRead arg timeout result evs (.idle nwrite)) := by
  have hmin : -2 ^ 31 ≤ cInt arg := Int.le_bmod (by decide)
  have hmax : cInt arg < 2 ^ 31 := Int.bmod_lt (by decide)
  have hbadf : ∀ r ∈ results result evs, r = .fail .badf →
      ReadRaises (cInt arg) (.fail .badf ∈ results result evs) timeout (.assertFailed "se_try_read") :=
    fun r hr hfail => .inl (.inl ⟨rfl, hfail ▸ hr⟩)
  have hoom : cInt arg = -2 ^ 31 →
      ReadRaises (cInt arg) (.fail .badf ∈ results result evs) timeout (.message "oom") := fun h => .inr ⟨rfl, h⟩
  have hstart : Held (cInt arg) (.idle nwrite) := ⟨rfl, fun c hc => (nomatch hc), fun _ => rfl⟩
  have htry := seTryRead_held hmin hmax hstart (hbadf result List.mem_cons_self) hoom
  have hbuf : ¬ (Thread.idle nwrite).buf.isSome = true := Bool.false_ne_true
  rw [lSeRead, bind_of_ok (get_ok _), if_neg hbuf]
  refine ifAgain_of_tries htry fun s hs => ?_
  refine seWaitTimeout_of_tries (fun _ b h => h.timer b) (fun _ h => h.text) (fun ev hev s hs => ?_)
    (fun s hs => seReadError_accounts hs _) (fun hbad => ⟨hs.text, .inl (.inr ⟨rfl, hbad⟩)⟩) hs
  refine seOnRead_held hmin hmax hs (fun hfail => ?_) hoom
  exact hbadf _ (mem_results (hfail ▸ hev)) rfl

/-! ## Both -/

/-- **Every byte of a call is accounted for**, if the length of the data fits in an `int`: what
the kernel has been given is the data from its start, as far as the call says; what has
been taken from the kernel is what the call returns. It raises for a bad descriptor and for bad
arguments only. -/
theorem every_byte_accounted (nwrite : Int) (timeout : Timeout) :
    (∀ (data : Bytes) (result : WriteResult) (evs : List (Event WriteResult)), data.length < 2 ^ 31 →
      WriteAccounts data (Raises "se_try_write" "write" (.fail .badf ∈ results result evs) timeout)
        (lSeWrite data timeout result evs (.idle nwrite))) ∧
    ∀ (arg : Int) (result : ReadResult) (evs : List (Event ReadResult)),
      ReadAccounts (cInt arg) (ReadRaises (cInt arg) (.fail .badf ∈ results result evs) timeout)
        (lSeRead arg timeout result evs (.idle nwrite)) :=
  ⟨fun _ result evs hlen => lSeWrite_accounts hlen nwrite timeout result evs,
    fun arg result evs => lSeRead_accounts arg nwrite timeout result evs⟩

/-- Two bytes are written, there is no room for a while, and then the timer fires. -/
theorem every_byte_accounted_timeout : WriteAccounts (ascii "hello") (fun _ => False)
    (.ok (some (.error (ascii "TIMEOUT") 2)) ⟨none, 2, false, [], ascii "he"⟩) := by
  have hrun : lSeWrite (ascii "hello") (.number (.fin 30)) (.room 2) [.io (.fail .again), .timer] (.idle 0) =
      .ok (some (.error (ascii "TIMEOUT") 2)) (finalState (lSeWrite (ascii "hello") (.number (.fin 30)) (.room 2)
        [.io (.fail .again), .timer] (.idle 0))) := eq_ok_of_returned (by decide +kernel)
  have hstate : finalState (lSeWrite (ascii "hello") (.number (.fin 30)) (.room 2) [.io (.fail .again), .timer]
      (.idle 0)) = ⟨none, 2, false, [], ascii "he"⟩ := by decide +kernel
  have h := (every_byte_accounted 0 (.number (.fin 30))).1 (ascii "hello") (.room 2) [.io (.fail .again), .timer] (by decide)
  rw [hrun, hstate] at h
  exact h

/-- Three of ten bytes have been taken when the descriptor turns out to be closed: the call raises. -/
theorem not_always_accounted : ¬ ∀ (arg nwrite : Int) (timeout : Timeout) (result : ReadResult)
    (evs : List (Event ReadResult)), timeout ≠ .notNumber →
      ReadAccounts (cInt arg) (fun _ => False) (lSeRead arg timeout result evs (.idle nwrite)) := by
  intro h
  have haccount := h 10 0 .absent (.data (ascii "abc")) [.io (.fail .badf)] (fun h => nomatch h)
  have hraises : returned (lSeRead 10 .absent (.data (ascii "abc")) [.io (.fail .badf)] (.idle 0)) = none := by
    decide +kernel
  cases hres : lSeRead 10 .absent (.data (ascii "abc")) [.io (.fail .badf)] (.idle 0) with
  | ok ret s =>
    rw [hres] at hraises
    cases hraises
  | error e s =>
    rw [hres] at haccount
    exact haccount.2

/-- A string whose length is 0 as an `int` is reported as written, and nothing has been. -/
theorem lSeWrite_truncated (hne : data ≠ []) (hlen : cInt data.length = 0) (nwrite : Int) (timeout : Timeout) (n : Nat)
    (evs : List (Event WriteResult)) : lSeWrite data timeout (.room n) evs (.idle nwrite) = .ok (some .done) (.idle 0) := by
  have hsys : sysWrite (data.drop 0) 0 (.room n) (.idle 0) = .ok (.ok 0) (.idle 0) := by
    rw [sysWrite, if_neg (by decide), Int.toNat_zero, Nat.min_zero]
    rfl
  have htry : seTryWrite data (cInt data.length) (.room n) (.idle 0) = .ok (some .done) (.idle 0) := by
    rw [seTryWrite, bind_of_ok (get_ok _), hlen]
    exact bind_of_ok hsys
  rw [lSeWrite, if_neg hne, bind_of_ok (modify_ok _ _), ifAgain]
  exact bind_of_ok htry

end ApApps.Se

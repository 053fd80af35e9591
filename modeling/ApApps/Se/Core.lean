import ApApps.Lib.Machine
import ApApps.Lua.Number

/- se_core.c: reading from and writing to a socket.

   A call tries at once, and when the kernel is not ready the thread sleeps: libev calls
   `se_on_read` or `se_on_write` whenever the descriptor is, and the timer, if there is
   one, may fire in between. What has been done so far is kept in the thread (`buf`,
   `nwrite`). A call is given what its system calls find in the kernel, one after the
   other; a result of `none` says that it is still asleep.

   `taken` and `handed` record what has passed between the thread and the kernel; the
   source has neither. A size is an `int`. Left out: the scheduler, and memory that runs
   out for a buffer of less than 2^31 bytes. -/
namespace ApApps.Se

/-! ## The kernel -/

/-- `errno` after a system call that has failed; `other` has the text of `strerror`. -/
inductive Errno where
  | again
  | badf
  | other (errmsg : Bytes)
  deriving DecidableEq

/-- What a `read` finds: the bytes that are there (none at the end of the file), or an error. -/
inductive ReadResult where
  | data (bytes : Bytes)
  | fail (errno : Errno)
  deriving DecidableEq

/-- What a `write` finds: room for `n` bytes, or an error. -/
inductive WriteResult where
  | room (n : Nat)
  | fail (errno : Errno)
  deriving DecidableEq

/-- What a sleeping thread is called for: its descriptor is ready, or the timer fires. -/
inductive Event (ρ : Type) where
  | io (result : ρ)
  | timer

/-- The third argument: `luaL_checknumber` raises for what is there but no number. -/
inductive Timeout where
  | absent
  | number (timeout : Flt)
  | notNumber
  deriving DecidableEq

/-! ## The thread -/

/-- An `sds` string and the space it has left. -/
structure Sds where
  text : Bytes
  avail : Nat
  deriving DecidableEq

/-- `struct se_thread`: `timer` is whether the timer is active. -/
structure Thread where
  buf : Option Sds
  nwrite : Int
  timer : Bool
  /-- what each `read` has copied out of the kernel -/
  taken : List Bytes
  /-- what `write` has given to the kernel -/
  handed : Bytes
  deriving DecidableEq

abbrev M := EStateM LuaError Thread

/-- `if (nresult >= 0) return nresult;`, and then what follows. -/
def ifAgain {α : Type} (nresult next : M (Option α)) : M (Option α) := do
  match ← nresult with
  | some ret => return some ret
  | none => next

/-- `if (nresult >= 0) se_thread_wakeup_io(thread, nresult)`. -/
def wakeupIo {α : Type} (nresult : M (Option α)) : M (Option α) := do
  match ← nresult with
  | some ret => do
    modify fun s => { s with timer := false }
    return some ret
  | none => return none

/-- The thread is asleep: the callback is called for one event after the other until it wakes
the thread up. -/
def asleep {ρ α : Type} (on : Event ρ → M (Option α)) : List (Event ρ) → M (Option α)
  | [] => return none
  | ev :: evs => ifAgain (on ev) (asleep on evs)

/-- `SE_WAIT_TIMEOUT` of the function `fn`: the thread goes to sleep, or the call goes on with
`after`. -/
def seWaitTimeout {ρ α : Type} (fn : String) (timeout : Timeout) (on : Event ρ → M (Option α))
    (evs : List (Event ρ)) (after : M (Option α)) : M (Option α) :=
  match timeout with
  | .absent => asleep on evs
  | .notNumber => throw (.badArgument fn)
  | .number timeout =>
    let milli := Flt.round (mkRat 1 1000)
    if milli.le timeout ∧ timeout ≠ milli then do
      modify fun s => { s with timer := true }
      asleep on evs
    else if (Flt.fin 0).le timeout then after
    else asleep on evs

/-! ## read -/

/-- What `se.read` returns; nil is none. -/
structure ReadReturn where
  data : Option Bytes
  errmsg : Option Bytes
  deriving DecidableEq

def seReadError (errmsg : Bytes) : M (Option ReadReturn) := do
  match (← get).buf with
  | some cache =>
    modify fun s => { s with buf := none }
    if cache.text ≠ [] then
      return some ⟨some cache.text, some errmsg⟩
    else
      return some ⟨none, some errmsg⟩
  | none => return some ⟨none, some errmsg⟩

/-- `sizeof(sbuf)`. -/
def sbufSize : Nat := 4096

/-- `bufsize` of a first try. -/
def firstBufsize (size : Int) : Int := if 0 < size then size else if size < 0 then cInt (-size) else sbufSize

/-- `bufsize` and `cache`. For a size that cannot be negated there is no memory. -/
def readBuffer (size : Int) : M (Nat × Option Sds) := do
  match (← get).buf with
  | some cache => return (cache.avail, some cache)
  | none =>
    if firstBufsize size < 0 then
      throw (.message "oom")
    else if firstBufsize size ≤ sbufSize then
      return ((firstBufsize size).toNat, none)
    else
      let cache : Sds := ⟨[], (firstBufsize size).toNat⟩
      modify fun s => { s with buf := some cache }
      return (cache.avail, some cache)

/-- `read(fd, buf, bufsize)`: the bytes that are now in the buffer. -/
def sysRead (bufsize : Nat) (result : ReadResult) : M (Except Errno Bytes) :=
  match result with
  | .fail errno => return .error errno
  | .data bytes => do
    let piece := bytes.take bufsize
    modify fun s => { s with taken := s.taken ++ (if piece = [] then [] else [piece]) }
    return .ok piece

/-- `none` is -1: try again. -/
def seTryRead (size : Int) (result : ReadResult) : M (Option ReadReturn) := do
  let (bufsize, cache) ← readBuffer size
  match ← sysRead bufsize result with
  | .ok piece =>
    if piece = [] then
      seReadError (ascii "EOF")
    else if size ≤ 0 ∨ piece.length = bufsize then
      modify fun s => { s with buf := none }
      return some ⟨some ((cache.map Sds.text).getD [] ++ piece), none⟩
    else
      -- `sdsIncrLen` of the cache, or of a new one of `bufsize` bytes
      let cache := cache.getD ⟨[], bufsize⟩
      modify fun s => { s with buf := some ⟨cache.text ++ piece, cache.avail - piece.length⟩ }
      return none
  | .error .again => return none
  | .error .badf => throw (.assertFailed "se_try_read")
  | .error (.other errmsg) => seReadError errmsg

/-- `se_on_read` and `se_on_read_timeout`; a timer that is not active does not fire. -/
def seOnRead (size : Int) : Event ReadResult → M (Option ReadReturn)
  | .io result => wakeupIo (seTryRead size result)
  | .timer => do
    if (← get).timer then
      wakeupIo (seReadError (ascii "TIMEOUT"))
    else
      return none

/-- `l_se_read` with the integer that `lua_tointeger` makes of its second argument. -/
def lSeRead (arg : Int) (timeout : Timeout) (result : ReadResult) (evs : List (Event ReadResult)) :
    M (Option ReadReturn) := do
  let size := cInt arg
  if (← get).buf.isSome then
    throw (.assertFailed "l_se_read")
  ifAgain (seTryRead size result)
    (seWaitTimeout "read" timeout (seOnRead size) evs (seReadError (ascii "TIMEOUT")))

/-! ## write -/

/-- What `se.write` returns: nothing, or an error and a count. -/
inductive WriteReturn where
  | done
  | error (errmsg : Bytes) (nwrite : Int)
  deriving DecidableEq

/-- `write(fd, buf, bufsize)`: the count. As a `size_t` a negative `bufsize` reaches beyond all
memory. -/
def sysWrite (buf : Bytes) (bufsize : Int) (result : WriteResult) : M (Except Errno Nat) :=
  match result with
  | .fail errno => return .error errno
  | .room n =>
    if bufsize < 0 then return .error (.other (ascii "Bad address"))
    else do
      modify fun s => { s with handed := s.handed ++ buf.take (min n bufsize.toNat) }
      return .ok (min n bufsize.toNat)

/-- What the system call returns. -/
def returnValue : Except Errno Nat → Int
  | .ok n => n
  | .error _ => -1

/-- `se_write_error`. -/
def seWriteError (nwrite : Int) (errmsg : Bytes) : M (Option WriteReturn) := return some (.error errmsg nwrite)

/-- `none` is -1: try again. -/
def seTryWrite (data : Bytes) (size : Int) (result : WriteResult) : M (Option WriteReturn) := do
  let pnwrite := (← get).nwrite
  let bufsize := cInt (size - pnwrite)
  let ret ← sysWrite (data.drop pnwrite.toNat) bufsize result
  let nwrite := returnValue ret
  if nwrite = bufsize then
    return some .done
  else if 0 < nwrite then
    modify fun s => { s with nwrite := cInt (pnwrite + nwrite) }
    return none
  else
    match ret with
    | .ok _ => return none
    | .error .again => return none
    | .error .badf => throw (.assertFailed "se_try_write")
    | .error (.other errmsg) => seWriteError pnwrite errmsg

/-- `se_on_write` and `se_on_write_timeout`. -/
def seOnWrite (data : Bytes) : Event WriteResult → M (Option WriteReturn)
  | .io result => wakeupIo (seTryWrite data (cInt data.length) result)
  | .timer => do
    if (← get).timer then
      wakeupIo (seWriteError (← get).nwrite (ascii "TIMEOUT"))
    else
      return none

def lSeWrite (data : Bytes) (timeout : Timeout) (result : WriteResult) (evs : List (Event WriteResult)) :
    M (Option WriteReturn) := do
  if data = [] then
    return some .done
  else
    modify fun s => { s with nwrite := 0 }
    ifAgain (seTryWrite data (cInt data.length) result)
      (seWaitTimeout "write" timeout (seOnWrite data) evs do
        seWriteError (← get).nwrite (ascii "TIMEOUT"))

end ApApps.Se

import ApApps.Lib.Machine
import Mathlib.Data.Rat.Defs
import Mathlib.Algebra.Order.Ring.Rat

/- se_core.c: the scheduler, on the event loop of libev (ev.c).

   A thread is in the list `se_running_threads`, or it waits: for its timer alone, or for
   its descriptor and perhaps its timer. `ev_run` goes round: its prepare watcher
   (`se_on_schedule`) resumes the threads of the list until it is empty; then libev polls
   the kernel, feeds the watchers of the descriptors that are ready and those of the timers
   that are due, and invokes their callbacks, the one fed last first. A callback wakes its
   thread up, which appends it to the list.

   What the outside decides is an event of the run: what a thread calls until it yields,
   which descriptors are ready, the time, in which order the heap gives out timers that
   are due, and whether what a thread waits for can be done now. What the C code has no
   check for, and where it would go on with a broken list or a freed thread, is a fault.

   A time is a rational number here, and the clock is the one of libev, which is read once a
   round. Left out: what is read and written, errors of the kernel about a descriptor (with
   the assertion about `EBADF` where a thread closes a descriptor another one waits for),
   calls from a coroutine that a thread has created itself, and other watchers. -/
namespace ApApps.Se.Schedule

/-- A `struct se_thread`. The numbers of threads that are gone are not used again. -/
abbrev Tid := Nat

/-- `ev_tstamp`. -/
abbrev Tstamp := ℚ

/-- The two watchers of a thread. -/
inductive Watcher where
  | timer
  | io
  deriving DecidableEq, Repr

/-- The callback of the timer: `se_on_sleep`, or the `_timeout` of a callback for a descriptor. -/
inductive TimerCb where
  | sleep
  | timeout
  deriving DecidableEq, Repr

/-- `struct se_thread`. -/
structure Thread where
  /-- `ev_at` of the timer, while it is active -/
  timer : Option Tstamp
  cb : TimerCb
  /-- whether the watcher of the descriptor is active -/
  io : Bool
  deriving DecidableEq

/-- `ev_init` of both watchers. -/
def Thread.fresh : Thread := ⟨none, .sleep, false⟩

/-- Where `ev_run` is: in the callback of the prepare watcher, in `ev_invoke_pending`, or back. -/
inductive Phase where
  | schedule
  | invoke
  | returned
  deriving DecidableEq, Repr

/-- What has happened. -/
inductive Act where
  | started (t : Tid) (ev_at : Tstamp)
  /-- by which watcher; by none when it is new -/
  | woken (t : Tid) (by' : Option Watcher) (mn_now : Tstamp)
  | resumed (t : Tid)
  deriving DecidableEq

/-- Why the process goes down, or what it does not notice. -/
inductive Fault where
  | luaError
  | assertFailed (site : String)
  /-- `list_add_tail` of a node that is in a list, `list_del` of one that is in none -/
  | badList
  /-- `ev_init` of a watcher that is active or pending -/
  | badInit
  /-- a thread that has been freed -/
  | freed
  deriving DecidableEq

structure Loop where
  threads : Tid → Option Thread
  count : Nat
  /-- `se_running_threads` -/
  running : List Tid
  /-- `pendings`, the one fed last in front; a cleared one is taken out -/
  pendings : List (Tid × Watcher)
  mn_now : Tstamp
  activecnt : Int
  phase : Phase
  log : List Act

abbrev M := EStateM Fault Loop

/-! ## Threads and lists -/

def threadOf (t : Tid) : M Thread := fun s =>
  match s.threads t with
  | some thread => .ok thread s
  | none => .error .freed s

def setThread (t : Tid) (thread : Option Thread) : M Unit :=
  modify fun s => { s with threads := Function.update s.threads t thread }

def emit (act : Act) : M Unit := modify fun s => { s with log := s.log ++ [act] }

def listAddTail (t : Tid) : M Unit := fun s =>
  if t ∈ s.running then .error .badList s else .ok () { s with running := s.running ++ [t] }

def listDel (t : Tid) : M Unit := fun s =>
  if t ∈ s.running then .ok () { s with running := s.running.erase t } else .error .badList s

/-- `list_move_tail`. -/
def listMoveTail (t : Tid) : M Unit := do
  listDel t
  listAddTail t

/-! ## libev -/

def evRef : M Unit := modify fun s => { s with activecnt := s.activecnt + 1 }

def evUnref : M Unit := modify fun s => { s with activecnt := s.activecnt - 1 }

/-- A watcher that is pending is not fed again. -/
def evFeedEvent (t : Tid) (w : Watcher) : M Unit :=
  modify fun s => if (t, w) ∈ s.pendings then s else { s with pendings := (t, w) :: s.pendings }

def clearPending (t : Tid) (w : Watcher) : M Unit :=
  modify fun s => { s with pendings := s.pendings.erase (t, w) }

/-- `ev_timer_init`; libev wants the watcher neither active nor pending. -/
def evTimerInit (t : Tid) (cb : TimerCb) : M Unit := do
  let thread ← threadOf t
  if thread.timer.isSome ∨ (t, .timer) ∈ (← get).pendings then throw .badInit
  else setThread t (some { thread with cb })

/-- `ev_timer_start`. -/
def evTimerStart (t : Tid) (timeout : Tstamp) : M Unit := do
  let thread ← threadOf t
  if thread.timer.isSome then pure ()
  else do
    let ev_at := timeout + (← get).mn_now
    evRef
    setThread t (some { thread with timer := some ev_at })
    emit (.started t ev_at)

/-- `ev_timer_stop`. -/
def evTimerStop (t : Tid) : M Unit := do
  clearPending t .timer
  let thread ← threadOf t
  if thread.timer.isNone then pure ()
  else do
    evUnref
    setThread t (some { thread with timer := none })

/-- `ev_io_init`. -/
def evIoInit (t : Tid) : M Unit := do
  let thread ← threadOf t
  if thread.io ∨ (t, .io) ∈ (← get).pendings then throw .badInit
  else pure ()

/-- `ev_io_start`. -/
def evIoStart (t : Tid) : M Unit := do
  let thread ← threadOf t
  if thread.io then pure ()
  else do
    evRef
    setThread t (some { thread with io := true })

/-- `ev_io_stop`. -/
def evIoStop (t : Tid) : M Unit := do
  clearPending t .io
  let thread ← threadOf t
  if thread.io then do
    evUnref
    setThread t (some { thread with io := false })
  else pure ()

/-! ## Threads that are ready -/

/-- `se_thread_wakeup`. -/
def seThreadWakeup (t : Tid) (by' : Option Watcher) : M Unit := do
  listAddTail t
  emit (.woken t by' (← get).mn_now)

/-- `se_thread_wakeup_io`. -/
def seThreadWakeupIo (t : Tid) (by' : Watcher) : M Unit := do
  let thread ← threadOf t
  if thread.timer.isSome then evTimerStop t
  evIoStop t
  seThreadWakeup t (some by')

/-- `se_thread_new`. -/
def seThreadNew : M Unit := do
  let t := (← get).count
  modify fun s => { s with count := t + 1 }
  seThreadWakeup t none
  setThread t (some .fresh)
  evRef

/-- `se_thread_free`. -/
def seThreadFree (t : Tid) : M Unit := do
  evUnref
  listDel t
  let thread ← threadOf t
  if thread.timer.isSome then throw (.assertFailed "!ev_is_active(&thread->timer)")
  else if thread.io then throw (.assertFailed "!ev_is_active(&thread->io)")
  else setThread t none

/-! ## What a thread calls -/

inductive Call where
  /-- `se.go` -/
  | go
  /-- `se.time` -/
  | time (now : Tstamp)
  /-- `se.sleep` -/
  | sleep (timeout : Tstamp)
  /-- `SE_WAIT_TIMEOUT` of `se.read`, `se.write`, `se.connect` or `se.accept`, after a first try
  that was too early -/
  | wait (timeout : Option Tstamp)
  /-- `coroutine.yield` -/
  | yield

/-- `time_update`; the clock is monotonic. -/
def timeUpdate (now : Tstamp) : M Unit := modify fun s => { s with mn_now := max s.mn_now now }

/-- The end of `SE_WAIT_TIMEOUT`: whether the thread yields. -/
def waitIo (t : Tid) : M Bool := do
  evIoInit t
  evIoStart t
  listDel t
  pure true

/-- `SE_WAIT_TIMEOUT`. -/
def seWaitTimeout (t : Tid) (timeout : Option Tstamp) : M Bool :=
  match timeout with
  | none => waitIo t
  | some timeout =>
    if 1 / 1000 < timeout then do
      evTimerInit t .timeout
      evTimerStart t timeout
      waitIo t
    else if 0 ≤ timeout then pure false
    else waitIo t

/-- `l_se_sleep`. -/
def lSeSleep (t : Tid) (timeout : Tstamp) : M Bool :=
  if timeout ≤ 0 then throw .luaError
  else do
    listDel t
    evTimerInit t .sleep
    evTimerStart t timeout
    pure true

/-- Whether the call makes the thread yield. -/
def call (t : Tid) : Call → M Bool
  | .go => do
    seThreadNew
    pure false
  | .time now => do
    timeUpdate now
    pure false
  | .sleep timeout => lSeSleep t timeout
  | .wait timeout => seWaitTimeout t timeout
  | .yield => pure true

/-- `se_thread_resume`: the thread runs until it yields, or to its end. -/
def seThreadResume (t : Tid) : List Call → M Unit
  | [] => seThreadFree t
  | c :: calls => do
    if ← call t c then pure () else seThreadResume t calls

/-! ## The callbacks -/

/-- `se_on_sleep`. -/
def seOnSleep (t : Tid) : M Unit := do
  let thread ← threadOf t
  if thread.timer.isSome then throw (.assertFailed "!ev_is_active(timer)")
  else seThreadWakeup t (some .timer)

/-- The callback of a watcher. One for a descriptor tries again; `done` is whether
`nresult >= 0`. -/
def callback (t : Tid) (done : Bool) : Watcher → M Unit
  | .timer => do
    match (← threadOf t).cb with
    | .sleep => seOnSleep t
    | .timeout => seThreadWakeupIo t .timer
  | .io => do
    let _ ← threadOf t
    if done then seThreadWakeupIo t .io else pure ()

/-! ## ev_run -/

/-- What happens next. -/
inductive Event where
  /-- `se_on_schedule` resumes the first thread of the list, which makes these calls -/
  | resume (calls : List Call)
  /-- `backend_poll` finds the descriptors of `ready`; `expired` is what the heap gives out -/
  | poll (ready : List Tid) (now : Tstamp) (expired : List Tid)
  /-- the next callback is invoked -/
  | invoke (done : Bool)
  /-- the end of the loop of `ev_run` -/
  | again

/-- `ev_at` of an active timer. -/
def Loop.evAt (s : Loop) (t : Tid) : Option Tstamp := (s.threads t).bind Thread.timer

/-- The timer of `t` is due at `now`. -/
def Loop.due (s : Loop) (now : Tstamp) (t : Tid) : Bool := (s.evAt t).any fun ev_at => decide (ev_at < now)

/-- The heap gives out the timers that are due, the earliest first. -/
def Loop.pops (s : Loop) (now : Tstamp) (expired : List Tid) : Prop :=
  expired.Nodup ∧ (∀ t ∈ expired, s.due now t = true) ∧ (∀ t < s.count, s.due now t = true → t ∈ expired) ∧
    expired.Pairwise fun t u => (s.evAt t).getD 0 ≤ (s.evAt u).getD 0

instance (s : Loop) (now : Tstamp) (expired : List Tid) : Decidable (s.pops now expired) := by
  unfold Loop.pops
  infer_instance

/-- `fd_event` of the descriptors that are ready: their active watchers. -/
def fdEvents : List Tid → M Unit
  | [] => pure ()
  | t :: ready => do
    if ((← get).threads t).any Thread.io then evFeedEvent t .io
    fdEvents ready

/-- The loop of `timers_reify`. -/
def stopTimers : List Tid → M Unit
  | [] => pure ()
  | t :: expired => do
    evTimerStop t
    stopTimers expired

/-- `feed_reverse_done`, on the timers in the order it takes them. -/
def feedTimers : List Tid → M Unit
  | [] => pure ()
  | t :: rest => do
    evFeedEvent t .timer
    feedTimers rest

/-- `timers_reify`. -/
def timersReify (expired : List Tid) : M Unit := do
  stopTimers expired
  feedTimers expired.reverse

def setPhase (phase : Phase) : M Unit := modify fun s => { s with phase }

/-- Whether the event can happen. -/
def Loop.enabled (s : Loop) : Event → Prop
  | .resume _ => s.phase = .schedule ∧ s.running ≠ []
  | .poll _ now expired => s.phase = .schedule ∧ s.running = [] ∧ s.pops (max s.mn_now now) expired
  | .invoke _ => s.phase = .invoke ∧ s.pendings ≠ []
  | .again => s.phase = .invoke ∧ s.pendings = []

instance (s : Loop) (ev : Event) : Decidable (s.enabled ev) := by
  cases ev <;> unfold Loop.enabled <;> infer_instance

def handle : Event → M Unit
  | .resume calls => do
    match (← get).running with
    | [] => pure ()
    | t :: _ => do
      listMoveTail t
      emit (.resumed t)
      seThreadResume t calls
  | .poll ready now expired => do
    setPhase .invoke
    timeUpdate now
    fdEvents ready
    timersReify expired
  | .invoke done => do
    match (← get).pendings with
    | [] => pure ()
    | (t, w) :: rest => do
      modify fun s => { s with pendings := rest }
      callback t done w
  | .again => do
    if (← get).activecnt = 0 then setPhase .returned else setPhase .schedule

/-- An event that cannot happen is passed over. -/
def step (ev : Event) : M Unit := fun s => if s.enabled ev then handle ev s else .ok () s

/-- The loop before `l_se_run`. -/
def Loop.empty : Loop := ⟨fun _ => none, 0, [], [], 0, 0, .schedule, []⟩

/-- `l_se_run`. The prepare watcher does not count: `ev_unref` takes back what its start adds. -/
def run (evs : List Event) : EStateM.Result Fault Loop Unit :=
  (do seThreadNew; Exec.runAll step evs : M Unit) .empty

end ApApps.Se.Schedule

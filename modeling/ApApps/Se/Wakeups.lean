import ApApps.Se.Schedule
import Mathlib.Algebra.BigOperators.Group.Finset.Basic
import Mathlib.Data.List.Nodup

/- The scheduler never loses a thread, and never wakes one up twice.

   A thread that waits for its descriptor with a timeout has two watchers, and both may be
   fed in one round of `ev_run`. `se_thread_wakeup_io` stops the other one, but it asks
   only whether the timer is active, and a timer that has been fed is not: were the
   callback for the descriptor invoked first, the timer would wake the thread up again and
   `se_running_threads` would hold it twice. That does not happen because libev feeds
   the timers last and invokes what was fed last first (`TimersFirst`); `twice_queued` is
   what the other order would do.

   `Inv E` is the invariant of the loop, where `E` are the events that have been fed and
   not yet dealt with, those in the hands of `timers_reify` or of a callback included. -/
namespace ApApps.Se.Schedule
open Exec

/-! ## The invariant -/

/-- Where a thread is: in the list, asleep until its timer fires, or waiting for its descriptor. -/
inductive Status (running : List Tid) (E : List (Tid × Watcher)) (t : Tid) (thread : Thread) : Prop
  | ready (hq : t ∈ running) (htimer : thread.timer = none) (hio : thread.io = false)
      (hquiet : ∀ w, (t, w) ∉ E)
  | asleep (hq : t ∉ running) (hcb : thread.cb = .sleep) (hio : thread.io = false) (hquiet : (t, .io) ∉ E)
      (htimer : thread.timer = none ↔ (t, .timer) ∈ E)
  | blocked (hq : t ∉ running) (hio : thread.io = true)
      (hcb : thread.timer ≠ none ∨ (t, .timer) ∈ E → thread.cb = .timeout)
      (htimer : (t, .timer) ∈ E → thread.timer = none)

/-- Every event of a timer comes before those of the descriptors. -/
def TimersFirst (E : List (Tid × Watcher)) : Prop := E.Pairwise fun p q => q.2 = .timer → p.2 = .timer

/-- How often the loop counts a thread: once for itself, and once for each active watcher. -/
def weight : Option Thread → Int
  | none => 0
  | some thread => 1 + (if thread.timer.isSome then 1 else 0) + (if thread.io then 1 else 0)

def Loop.load (s : Loop) : Int := ∑ t ∈ Finset.range s.count, weight (s.threads t)

structure Inv (E : List (Tid × Watcher)) (s : Loop) : Prop where
  queue : s.running.Nodup
  queued : ∀ t ∈ s.running, (s.threads t).isSome
  events : E.Nodup
  known : ∀ p ∈ E, (s.threads p.1).isSome
  status : ∀ t thread, s.threads t = some thread → Status s.running E t thread
  numbered : ∀ t thread, s.threads t = some thread → t < s.count
  ordered : TimersFirst E
  active : s.activecnt = s.load

section Inv
variable {E E' : List (Tid × Watcher)} {s s' : Loop} {t : Tid} {thread thread' : Thread} {w : Watcher}

theorem Status.congr {running running' : List Tid} (h : Status running E t thread)
    (hq : t ∈ running' ↔ t ∈ running) (hE : ∀ w, (t, w) ∈ E' ↔ (t, w) ∈ E) : Status running' E' t thread := by
  cases h with
  | ready hin htimer hio hquiet => exact .ready (hq.mpr hin) htimer hio fun w => mt (hE w).mp (hquiet w)
  | asleep hout hcb hio hquiet htimer =>
    exact .asleep (mt hq.mp hout) hcb hio (mt (hE .io).mp hquiet) (htimer.trans (hE .timer).symm)
  | blocked hout hio hcb htimer =>
    refine .blocked (mt hq.mp hout) hio (fun h => hcb ?_) fun h => htimer ((hE .timer).mp h)
    rwa [hE] at h

/-- The load after a change of one thread. -/
theorem load_update (hcount : s'.count = s.count) {x : Option Thread}
    (hthreads : s'.threads = Function.update s.threads t x) (ht : t < s.count) :
    s'.load = s.load - weight (s.threads t) + weight x := by
  have hmem : t ∈ Finset.range s.count := Finset.mem_range.mpr ht
  unfold Loop.load
  rw [hcount, hthreads, ← Finset.add_sum_erase _ _ hmem, ← Finset.add_sum_erase (Finset.range s.count) _ hmem,
    Function.update_self]
  have hrest : ∑ u ∈ (Finset.range s.count).erase t, weight (Function.update s.threads t x u) =
      ∑ u ∈ (Finset.range s.count).erase t, weight (s.threads u) := by
    apply Finset.sum_congr rfl
    intro u hu
    rw [Function.update_of_ne (Finset.ne_of_mem_erase hu)]
  rw [hrest]
  omega

/-- **One thread changes.** The others stay where they are. -/
theorem Inv.change (h : Inv E s) (hth : s.threads t = some thread) (hcount : s'.count = s.count)
    (hthreads : s'.threads = Function.update s.threads t (some thread'))
    (hqueue : s'.running.Nodup) (hothers : ∀ u, u ≠ t → (u ∈ s'.running ↔ u ∈ s.running))
    (hevents : E'.Nodup) (hrest : ∀ u w, u ≠ t → ((u, w) ∈ E' ↔ (u, w) ∈ E)) (hordered : TimersFirst E')
    (hstatus : Status s'.running E' t thread')
    (hactive : s'.activecnt = s.activecnt - weight (some thread) + weight (some thread')) : Inv E' s' := by
  have hself : s'.threads t = some thread' := by
    rw [hthreads]
    exact Function.update_self t _ _
  have hother : ∀ u, u ≠ t → s'.threads u = s.threads u := by
    intro u hu
    rw [hthreads]
    exact Function.update_of_ne hu _ _
  have hlive : ∀ u, (u ≠ t → (s.threads u).isSome) → (s'.threads u).isSome := by
    intro u hu
    by_cases hut : u = t
    · rw [hut, hself]
      rfl
    · rw [hother u hut]
      exact hu hut
  refine ⟨hqueue, ?_, hevents, ?_, ?_, ?_, hordered, ?_⟩
  · exact fun u hu => hlive u fun hut => h.queued u ((hothers u hut).mp hu)
  · exact fun p hp => hlive p.1 fun hut => h.known p ((hrest p.1 p.2 hut).mp hp)
  · intro u th hu
    by_cases hut : u = t
    · subst hut
      rw [hself] at hu
      cases hu
      exact hstatus
    · rw [hother u hut] at hu
      exact (h.status u th hu).congr (hothers u hut) fun w => hrest u w hut
  · intro u th hu
    rw [hcount]
    by_cases hut : u = t
    · rw [hut]
      exact h.numbered t thread hth
    · rw [hother u hut] at hu
      exact h.numbered u th hu
  · rw [hactive, h.active, load_update hcount hthreads (h.numbered t thread hth), hth]

/-- Nothing that the invariant speaks of changes. -/
theorem Inv.of_eq (h : Inv E s) (hthreads : s'.threads = s.threads) (hcount : s'.count = s.count)
    (hrunning : s'.running = s.running) (hactive : s'.activecnt = s.activecnt) : Inv E s' := by
  have hload : s'.load = s.load := by
    unfold Loop.load
    rw [hthreads, hcount]
  refine ⟨?_, ?_, h.events, ?_, ?_, ?_, h.ordered, ?_⟩
  · rw [hrunning]
    exact h.queue
  · rw [hrunning, hthreads]
    exact h.queued
  · rw [hthreads]
    exact h.known
  · rw [hrunning, hthreads]
    exact h.status
  · rw [hthreads, hcount]
    exact h.numbered
  · rw [hactive, hload]
    exact h.active

end Inv

/-! ## Time -/

/-- When the timer of `t` was last started to fire. -/
def armedAt (t : Tid) (log : List Act) : Option Tstamp :=
  (log.filterMap fun
    | .started u ev_at => if u = t then some ev_at else none
    | _ => none).getLast?

/-- No timer has woken its thread up before its time. -/
def Punctual (log : List Act) : Prop :=
  ∀ pre post t now, log = pre ++ .woken t (some .timer) now :: post → ∃ ev_at, armedAt t pre = some ev_at ∧ ev_at < now

/-- The log knows when the active timers are due, and those that have been fed are due. -/
structure Timely (E : List (Tid × Watcher)) (s : Loop) : Prop where
  armed : ∀ t thread ev_at, s.threads t = some thread → thread.timer = some ev_at → armedAt t s.log = some ev_at
  due : ∀ t, (t, .timer) ∈ E → ∃ ev_at, armedAt t s.log = some ev_at ∧ ev_at < s.mn_now
  punctual : Punctual s.log

theorem armedAt_append_started (t : Tid) (log : List Act) (ev_at : Tstamp) :
    armedAt t (log ++ [.started t ev_at]) = some ev_at := by
  simp [armedAt]

theorem armedAt_append_other {t : Tid} {log : List Act} {act : Act} (h : ∀ ev_at, act ≠ .started t ev_at) :
    armedAt t (log ++ [act]) = armedAt t log := by
  cases act with
  | started u ev_at =>
    have hne : u ≠ t := by
      rintro rfl
      exact h ev_at rfl
    simp [armedAt, hne]
  | woken => simp [armedAt]
  | resumed => simp [armedAt]

theorem punctual_nil : Punctual [] := by
  intro pre post t now h
  simp at h

theorem Punctual.append {log : List Act} {act : Act} (h : Punctual log)
    (hact : ∀ t now, act = .woken t (some .timer) now → ∃ ev_at, armedAt t log = some ev_at ∧ ev_at < now) :
    Punctual (log ++ [act]) := by
  intro pre post t now heq
  rcases List.eq_nil_or_concat post with rfl | ⟨post', last, rfl⟩
  · obtain ⟨rfl, hlast⟩ := List.append_inj' heq rfl
    exact hact t now (List.cons.inj hlast).1
  · have hsplit : log ++ [act] = (pre ++ .woken t (some .timer) now :: post') ++ [last] := by
      rw [heq]
      simp
    obtain ⟨rfl, -⟩ := List.append_inj' hsplit rfl
    exact h pre post' t now rfl

section Time
variable {E E' : List (Tid × Watcher)} {s s' : Loop}

/-- Fewer timers are active or fed, and the clock goes on. -/
theorem Timely.mono (h : Timely E s)
    (hthreads : ∀ t thread' ev_at, s'.threads t = some thread' → thread'.timer = some ev_at →
      ∃ thread, s.threads t = some thread ∧ thread.timer = some ev_at)
    (hE : ∀ t, (t, .timer) ∈ E' → (t, .timer) ∈ E) (hnow : s.mn_now ≤ s'.mn_now) (hlog : s'.log = s.log) :
    Timely E' s' where
  armed := by
    intro t thread' ev_at hth' htimer'
    obtain ⟨thread, hth, htimer⟩ := hthreads t thread' ev_at hth' htimer'
    rw [hlog]
    exact h.armed t thread ev_at hth htimer
  due := by
    intro t ht
    obtain ⟨ev_at, harmed, hlt⟩ := h.due t (hE t ht)
    exact ⟨ev_at, hlog ▸ harmed, lt_of_lt_of_le hlt hnow⟩
  punctual := by
    rw [hlog]
    exact h.punctual

/-- Something is noted that is no start of a timer. -/
theorem Timely.note (h : Timely E s) {act : Act} (hthreads : s'.threads = s.threads) (hnow : s'.mn_now = s.mn_now)
    (hlog : s'.log = s.log ++ [act]) (hstart : ∀ t ev_at, act ≠ .started t ev_at)
    (hact : ∀ t now, act = .woken t (some .timer) now → ∃ ev_at, armedAt t s.log = some ev_at ∧ ev_at < now) :
    Timely E s' where
  armed := by
    intro t thread ev_at hth htimer
    rw [hthreads] at hth
    rw [hlog, armedAt_append_other (hstart t)]
    exact h.armed t thread ev_at hth htimer
  due := by
    intro t ht
    rw [hlog, hnow, armedAt_append_other (hstart t)]
    exact h.due t ht
  punctual := by
    rw [hlog]
    exact h.punctual.append hact

/-- A timer is started that has not been fed. -/
theorem Timely.start (h : Timely E s) {t : Tid} {thread : Thread} {ev_at : Tstamp} (hE : (t, .timer) ∉ E)
    (hthreads : s'.threads = Function.update s.threads t (some thread)) (htimer : thread.timer = some ev_at)
    (hnow : s'.mn_now = s.mn_now) (hlog : s'.log = s.log ++ [.started t ev_at]) : Timely E s' where
  armed := by
    intro u th at' hth hat
    rw [hthreads] at hth
    by_cases hut : u = t
    · subst hut
      rw [Function.update_self] at hth
      cases hth
      rw [htimer] at hat
      cases hat
      rw [hlog]
      exact armedAt_append_started u s.log ev_at
    · rw [Function.update_of_ne hut] at hth
      rw [hlog, armedAt_append_other (by simpa using Ne.symm hut)]
      exact h.armed u th at' hth hat
  due := by
    intro u hu
    have hut : t ≠ u := by
      rintro rfl
      exact hE hu
    rw [hlog, hnow, armedAt_append_other (by simpa using hut)]
    exact h.due u hu
  punctual := by
    rw [hlog]
    refine h.punctual.append ?_
    intro u now heq
    cases heq

end Time

/-! ## What a thread calls -/

/-- The loop after `se_thread_new`. -/
def Loop.spawned (s : Loop) : Loop :=
  { s with
    threads := Function.update s.threads s.count (some .fresh)
    count := s.count + 1
    running := s.running ++ [s.count]
    activecnt := s.activecnt + 1
    log := s.log ++ [.woken s.count none s.mn_now] }

/-- The loop after the running thread `t` has started to wait, with `n` watchers. -/
def Loop.suspended (s : Loop) (t : Tid) (thread : Thread) (n : Int) (acts : List Act) : Loop :=
  { s with
    threads := Function.update s.threads t (some thread)
    running := s.running.erase t
    activecnt := s.activecnt + n
    log := s.log ++ acts }

/-- The loop after `se_thread_free`. -/
def Loop.freed (s : Loop) (t : Tid) : Loop :=
  { s with
    threads := Function.update s.threads t none
    running := s.running.erase t
    activecnt := s.activecnt - 1 }

/-- The loop after a wait for the descriptor has begun. -/
def Loop.blocked (s : Loop) (t : Tid) (thread : Thread) : Option Tstamp → Loop
  | none => s.suspended t { thread with io := true } 1 []
  | some timeout =>
    if 1 / 1000 < timeout then
      s.suspended t ⟨some (timeout + s.mn_now), .timeout, true⟩ 2 [.started t (timeout + s.mn_now)]
    else s.suspended t { thread with io := true } 1 []

section Calls
variable {E : List (Tid × Watcher)} {s s' : Loop} {t : Tid} {thread : Thread}

theorem threadOf_eq (h : s.threads t = some thread) : threadOf t s = .ok thread s := by
  unfold threadOf
  rw [h]

theorem listAddTail_eq (h : t ∉ s.running) :
    listAddTail t s = .ok () { s with running := s.running ++ [t] } := if_neg h

theorem listDel_eq (h : t ∈ s.running) : listDel t s = .ok () { s with running := s.running.erase t } := if_pos h

theorem evTimerInit_eq (hth : s.threads t = some thread) (htimer : thread.timer = none)
    (hp : (t, .timer) ∉ s.pendings) (cb : TimerCb) :
    evTimerInit t cb s = .ok () { s with threads := Function.update s.threads t (some { thread with cb }) } := by
  unfold evTimerInit
  rw [bind_of_ok (threadOf_eq hth), bind_of_ok (get_ok s), if_neg (by simp [htimer, hp])]
  rfl

theorem evTimerStart_eq (hth : s.threads t = some thread) (htimer : thread.timer = none) (timeout : Tstamp) :
    evTimerStart t timeout s = .ok () { s with
      threads := Function.update s.threads t (some { thread with timer := some (timeout + s.mn_now) }),
      activecnt := s.activecnt + 1,
      log := s.log ++ [.started t (timeout + s.mn_now)] } := by
  unfold evTimerStart
  rw [bind_of_ok (threadOf_eq hth), if_neg (by simp [htimer])]
  rfl

theorem waitIo_eq (hq : t ∈ s.running) (hth : s.threads t = some thread) (hio : thread.io = false)
    (hp : (t, .io) ∉ s.pendings) :
    waitIo t s = .ok true (s.suspended t { thread with io := true } 1 []) := by
  have hinit : evIoInit t s = .ok () s := by
    unfold evIoInit
    rw [bind_of_ok (threadOf_eq hth), bind_of_ok (get_ok s), if_neg (by simp [hio, hp])]
    rfl
  let s1 : Loop := { s with
    threads := Function.update s.threads t (some { thread with io := true }), activecnt := s.activecnt + 1 }
  have hstart : evIoStart t s = .ok () s1 := by
    unfold evIoStart
    rw [bind_of_ok (threadOf_eq hth), if_neg (by simp [hio])]
    rfl
  have hdel : listDel t s1 = .ok () { s1 with running := s.running.erase t } := if_pos hq
  unfold waitIo
  rw [bind_of_ok hinit, bind_of_ok hstart]
  refine (bind_of_ok hdel).trans ?_
  simp only [Loop.suspended, List.append_nil]
  rfl

/-- A thread that sleeps. -/
theorem lSeSleep_eq (hq : t ∈ s.running) (hth : s.threads t = some thread) (htimer : thread.timer = none)
    (hp : (t, .timer) ∉ s.pendings) {timeout : Tstamp} (hpos : ¬timeout ≤ 0) :
    lSeSleep t timeout s = .ok true
      (s.suspended t { thread with timer := some (timeout + s.mn_now), cb := .sleep } 1
        [.started t (timeout + s.mn_now)]) := by
  unfold lSeSleep
  rw [if_neg hpos, bind_of_ok (listDel_eq hq)]
  rw [bind_of_ok (evTimerInit_eq (s := { s with running := s.running.erase t }) hth htimer hp .sleep)]
  have hself : Function.update s.threads t (some { thread with cb := TimerCb.sleep }) t =
      some { thread with cb := .sleep } := Function.update_self t _ _
  rw [bind_of_ok (evTimerStart_eq (s := { s with
    running := s.running.erase t
    threads := Function.update s.threads t (some { thread with cb := TimerCb.sleep }) }) hself htimer timeout)]
  simp only [Loop.suspended, Function.update_idem]
  rfl

/-- A thread that waits for its descriptor yields, unless its timeout is too short for that. -/
theorem seWaitTimeout_eq (hq : t ∈ s.running) (hth : s.threads t = some thread) (htimer : thread.timer = none)
    (hio : thread.io = false) (hquiet : ∀ w, (t, w) ∉ s.pendings) (timeout : Option Tstamp) :
    seWaitTimeout t timeout s = .ok false s ∨ seWaitTimeout t timeout s = .ok true (s.blocked t thread timeout) := by
  cases timeout with
  | none => exact .inr (waitIo_eq hq hth hio (hquiet .io))
  | some timeout =>
    unfold seWaitTimeout
    dsimp only
    by_cases hlong : 1 / 1000 < timeout
    · refine .inr ?_
      have hself : Function.update s.threads t (some { thread with cb := TimerCb.timeout }) t =
          some { thread with cb := .timeout } := Function.update_self t _ _
      rw [if_pos hlong, bind_of_ok (evTimerInit_eq hth htimer (hquiet .timer) .timeout)]
      rw [bind_of_ok (evTimerStart_eq (s := { s with
        threads := Function.update s.threads t (some { thread with cb := TimerCb.timeout }) }) hself htimer timeout)]
      refine (waitIo_eq (s := { s with
        threads := Function.update (Function.update s.threads t (some { thread with cb := TimerCb.timeout })) t
          (some ⟨some (timeout + s.mn_now), .timeout, thread.io⟩)
        activecnt := s.activecnt + 1
        log := s.log ++ [.started t (timeout + s.mn_now)] }) hq (Function.update_self t _ _) hio (hquiet .io)).trans ?_
      simp only [Loop.blocked, if_pos hlong, Loop.suspended, Function.update_idem, List.append_nil, add_assoc]
      rfl
    · rw [if_neg hlong]
      by_cases hzero : 0 ≤ timeout
      · rw [if_pos hzero]
        exact .inl rfl
      · rw [if_neg hzero]
        refine .inr ((waitIo_eq hq hth hio (hquiet .io)).trans ?_)
        rw [Loop.blocked, if_neg hlong]

/-- The loop is in order. -/
structure Good (E : List (Tid × Watcher)) (s : Loop) : Prop where
  inv : Inv E s
  timely : Timely E s

/-- A thread in the list has no active watcher, and none that has been fed. -/
theorem Inv.ready (h : Inv E s) (hq : t ∈ s.running) :
    ∃ thread, s.threads t = some thread ∧ thread.timer = none ∧ thread.io = false ∧ ∀ w, (t, w) ∉ E := by
  obtain ⟨thread, hth⟩ := Option.isSome_iff_exists.mp (h.queued t hq)
  cases h.status t thread hth with
  | ready _ htimer hio hquiet => exact ⟨thread, hth, htimer, hio, hquiet⟩
  | asleep hout => exact absurd hq hout
  | blocked hout => exact absurd hq hout

theorem Inv.suspended (h : Inv E s) (hth : s.threads t = some thread)
    (htimer : thread.timer = none) (hio : thread.io = false) {thread' : Thread} {n : Int} {acts : List Act}
    (hstatus : Status (s.running.erase t) E t thread') (hn : 1 + n = weight (some thread')) :
    Inv E (s.suspended t thread' n acts) := by
  refine h.change hth rfl rfl (h.queue.erase t) ?_ h.events (fun _ _ _ => Iff.rfl) h.ordered hstatus ?_
  · intro u hu
    exact List.mem_erase_of_ne hu
  · have hone : weight (some thread) = 1 := by simp [weight, htimer, hio]
    show s.activecnt + n = _
    omega

/-- **A thread goes to sleep.** -/
theorem Good.asleep (h : Good E s) (hth : s.threads t = some thread)
    (htimer : thread.timer = none) (hio : thread.io = false) (hquiet : ∀ w, (t, w) ∉ E) (ev_at : Tstamp) :
    Good E (s.suspended t { thread with timer := some ev_at, cb := .sleep } 1 [.started t ev_at]) where
  inv := by
    refine h.inv.suspended hth htimer hio (.asleep (h.inv.queue.not_mem_erase) rfl hio (hquiet .io) ?_) ?_
    · simpa using hquiet .timer
    · simp [weight, hio]
  timely := h.timely.start (hquiet .timer) rfl rfl rfl rfl

/-- **A thread waits for its descriptor.** -/
theorem Good.blocked (h : Good E s) (hth : s.threads t = some thread)
    (htimer : thread.timer = none) (hio : thread.io = false) (hquiet : ∀ w, (t, w) ∉ E) (timeout : Option Tstamp) :
    Good E (s.blocked t thread timeout) := by
  have hplain : Good E (s.suspended t { thread with io := true } 1 []) := by
    refine ⟨h.inv.suspended hth htimer hio (.blocked h.inv.queue.not_mem_erase rfl ?_ ?_) ?_, ?_⟩
    · rintro (hne | hin)
      · exact absurd htimer hne
      · exact absurd hin (hquiet .timer)
    · exact fun hin => absurd hin (hquiet .timer)
    · simp [weight, htimer]
    · refine h.timely.mono ?_ (fun _ hu => hu) le_rfl (List.append_nil _)
      intro u th ev_at hu hat
      by_cases hut : u = t
      · subst hut
        have hself : some { thread with io := true } = some th := (Function.update_self u _ s.threads).symm.trans hu
        cases hself
        exact ⟨thread, hth, hat⟩
      · exact ⟨th, (Function.update_of_ne hut _ _).symm.trans hu, hat⟩
  cases timeout with
  | none => exact hplain
  | some timeout =>
    by_cases hlong : 1 / 1000 < timeout
    · rw [Loop.blocked, if_pos hlong]
      refine ⟨h.inv.suspended hth htimer hio (.blocked h.inv.queue.not_mem_erase rfl (fun _ => rfl) ?_) ?_, ?_⟩
      · exact fun hin => absurd hin (hquiet .timer)
      · simp [weight]
      · exact h.timely.start (hquiet .timer) rfl rfl rfl rfl
    · rw [Loop.blocked, if_neg hlong]
      exact hplain

theorem Inv.count_not_mem (h : Inv E s) : s.threads s.count = none ∧ s.count ∉ s.running ∧ ∀ w, (s.count, w) ∉ E := by
  have hnone : s.threads s.count = none := by
    rw [Option.eq_none_iff_forall_ne_some]
    exact fun thread hth => absurd (h.numbered _ thread hth) (Nat.lt_irrefl _)
  refine ⟨hnone, fun hq => ?_, fun w hw => ?_⟩
  · have := h.queued _ hq
    rw [hnone] at this
    cases this
  · have := h.known _ hw
    rw [hnone] at this
    cases this

/-- **A new thread** is in the list. -/
theorem Good.spawned (h : Good E s) : Good E s.spawned := by
  obtain ⟨hnone, hq, hquiet⟩ := h.inv.count_not_mem
  have hself : s.spawned.threads s.count = some .fresh := Function.update_self _ _ _
  have hother : ∀ u, u ≠ s.count → s.spawned.threads u = s.threads u := fun u hu => Function.update_of_ne hu _ _
  have hin : ∀ u, u ∈ s.spawned.running ↔ u ∈ s.running ∨ u = s.count := by simp [Loop.spawned]
  refine ⟨⟨?_, ?_, h.inv.events, ?_, ?_, ?_, h.inv.ordered, ?_⟩, ?_⟩
  · refine List.nodup_append.mpr ⟨h.inv.queue, List.nodup_singleton _, ?_⟩
    rintro u hu v hv rfl
    exact hq (List.mem_singleton.mp hv ▸ hu)
  · intro u hu
    by_cases huc : u = s.count
    · rw [huc, hself]
      rfl
    · rw [hother u huc]
      exact h.inv.queued u (((hin u).mp hu).resolve_right huc)
  · intro p hp
    have hpc : p.1 ≠ s.count := fun heq => hquiet p.2 (heq ▸ hp)
    rw [hother p.1 hpc]
    exact h.inv.known p hp
  · intro u thread hu
    by_cases huc : u = s.count
    · rw [huc, hself] at hu
      cases hu
      rw [huc]
      exact .ready ((hin _).mpr (.inr rfl)) rfl rfl hquiet
    · rw [hother u huc] at hu
      refine (h.inv.status u thread hu).congr ?_ fun _ => Iff.rfl
      rw [hin]
      exact or_iff_left huc
  · intro u thread hu
    by_cases huc : u = s.count
    · rw [huc]
      exact Nat.lt_succ_self _
    · rw [hother u huc] at hu
      exact Nat.lt_succ_of_lt (h.inv.numbered u thread hu)
  · have hrest : ∑ u ∈ Finset.range s.count, weight (s.spawned.threads u) = s.load := by
      apply Finset.sum_congr rfl
      intro u hu
      rw [hother u (Nat.ne_of_lt (Finset.mem_range.mp hu))]
    show s.activecnt + 1 = ∑ u ∈ Finset.range (s.count + 1), weight (s.spawned.threads u)
    rw [Finset.sum_range_succ, hrest, hself, h.inv.active]
    rfl
  · have hnote : Timely E { s with log := s.log ++ [.woken s.count none s.mn_now] } :=
      h.timely.note rfl rfl rfl (by simp) (by simp)
    refine hnote.mono ?_ (fun _ hu => hu) le_rfl rfl
    intro u thread ev_at hu hat
    by_cases huc : u = s.count
    · rw [huc, hself] at hu
      cases hu
      cases hat
    · exact ⟨thread, (hother u huc).symm.trans hu, hat⟩

/-- The clock goes on. -/
theorem Good.clock (h : Good E s) (now : Tstamp) : Good E { s with mn_now := max s.mn_now now } where
  inv := h.inv.of_eq rfl rfl rfl rfl
  timely := h.timely.mono (fun _ thread _ hth hat => ⟨thread, hth, hat⟩) (fun _ hu => hu) (le_max_left _ _) rfl

/-- **A thread ends.** -/
theorem Good.freed (h : Good E s) (hth : s.threads t = some thread) (htimer : thread.timer = none)
    (hio : thread.io = false) (hquiet : ∀ w, (t, w) ∉ E) : Good E (s.freed t) := by
  have hself : (s.freed t).threads t = none := Function.update_self _ _ _
  have hother : ∀ u, u ≠ t → (s.freed t).threads u = s.threads u := fun u hu => Function.update_of_ne hu _ _
  have hne : ∀ u, u ∈ (s.freed t).running → u ≠ t := by
    rintro u hu rfl
    exact h.inv.queue.not_mem_erase hu
  refine ⟨⟨h.inv.queue.erase t, ?_, h.inv.events, ?_, ?_, ?_, h.inv.ordered, ?_⟩, ?_⟩
  · intro u hu
    rw [hother u (hne u hu)]
    exact h.inv.queued u (List.mem_of_mem_erase hu)
  · intro p hp
    have hpt : p.1 ≠ t := fun heq => hquiet p.2 (heq ▸ hp)
    rw [hother p.1 hpt]
    exact h.inv.known p hp
  · intro u th hu
    have hut : u ≠ t := by
      rintro rfl
      rw [hself] at hu
      cases hu
    rw [hother u hut] at hu
    exact (h.inv.status u th hu).congr (List.mem_erase_of_ne hut) fun _ => Iff.rfl
  · intro u th hu
    have hut : u ≠ t := by
      rintro rfl
      rw [hself] at hu
      cases hu
    rw [hother u hut] at hu
    exact h.inv.numbered u th hu
  · have hone : weight (some thread) = 1 := by simp [weight, htimer, hio]
    have hzero : weight none = 0 := rfl
    have hthreads : (s.freed t).threads = Function.update s.threads t none := rfl
    have hcount : (s.freed t).count = s.count := rfl
    have hload := load_update hcount hthreads (h.inv.numbered t thread hth)
    rw [hload, hth, hone, hzero, ← h.inv.active]
    show s.activecnt - 1 = _
    omega
  · refine h.timely.mono ?_ (fun _ hu => hu) le_rfl rfl
    intro u th ev_at hu hat
    by_cases hut : u = t
    · rw [hut, hself] at hu
      cases hu
    · exact ⟨th, (hother u hut).symm.trans hu, hat⟩

/-- What a call of the thread `t` leaves as it is: nothing is fed, and the threads in front of `t`
stay where they are. -/
structure Front (t : Tid) (s s' : Loop) : Prop where
  pendings : s'.pendings = s.pendings
  phase : s'.phase = s.phase
  front : ∀ rest tail, s.running = rest ++ tail → t ∉ rest → ∃ tail', s'.running = rest ++ tail'

theorem Front.refl : Front t s s := ⟨rfl, rfl, fun _ tail h _ => ⟨tail, h⟩⟩

theorem Front.trans {s1 s2 s3 : Loop} (h : Front t s1 s2) (h' : Front t s2 s3) : Front t s1 s3 where
  pendings := h'.pendings.trans h.pendings
  phase := h'.phase.trans h.phase
  front := by
    intro rest tail heq hout
    obtain ⟨tail', heq'⟩ := h.front rest tail heq hout
    exact h'.front rest tail' heq' hout

/-- The thread is taken out of the list. -/
theorem Front.of_erase (hpendings : s'.pendings = s.pendings) (hphase : s'.phase = s.phase)
    (hrunning : s'.running = s.running.erase t) : Front t s s' where
  pendings := hpendings
  phase := hphase
  front := by
    intro rest tail heq hout
    exact ⟨tail.erase t, by rw [hrunning, heq, List.erase_append_right _ hout]⟩

theorem front_spawned : Front t s s.spawned where
  pendings := rfl
  phase := rfl
  front := by
    intro rest tail heq _
    refine ⟨tail ++ [s.count], ?_⟩
    show s.running ++ [s.count] = _
    rw [heq, List.append_assoc]

theorem front_blocked (thread : Thread) (timeout : Option Tstamp) : Front t s (s.blocked t thread timeout) := by
  cases timeout with
  | none => exact .of_erase rfl rfl rfl
  | some timeout =>
    by_cases hlong : 1 / 1000 < timeout
    · rw [Loop.blocked, if_pos hlong]
      exact .of_erase rfl rfl rfl
    · rw [Loop.blocked, if_neg hlong]
      exact .of_erase rfl rfl rfl

theorem seThreadNew_eq (hq : s.count ∉ s.running) : seThreadNew s = .ok () s.spawned := by
  let s1 : Loop := { s with count := s.count + 1 }
  let s2 : Loop := { s1 with
    running := s.running ++ [s.count], log := s.log ++ [.woken s.count none s.mn_now] }
  have hwake : seThreadWakeup s.count none s1 = .ok () s2 := by
    unfold seThreadWakeup
    rw [bind_of_ok (listAddTail_eq (s := s1) hq)]
    rfl
  unfold seThreadNew
  refine (bind_of_ok (get_ok s)).trans ((bind_of_ok (modify_ok _ s)).trans ((bind_of_ok hwake).trans ?_))
  rfl

/-- **What a call does**: it raises for a bad argument, or it keeps the loop in order, and a thread
that does not yield is in the list still. -/
theorem good_call (h : Good s.pendings s) (hq : t ∈ s.running) (c : Call) :
    call t c s = .error .luaError s ∨
      ∃ b s', call t c s = .ok b s' ∧ Good s'.pendings s' ∧ Front t s s' ∧ (b = false → t ∈ s'.running) := by
  obtain ⟨thread, hth, htimer, hio, hquiet⟩ := h.inv.ready hq
  cases c with
  | go =>
    refine .inr ⟨false, s.spawned, ?_, h.spawned, front_spawned, fun _ => List.mem_append_left _ hq⟩
    exact bind_of_ok (seThreadNew_eq h.inv.count_not_mem.2.1)
  | time now => exact .inr ⟨false, _, rfl, h.clock now, ⟨rfl, rfl, fun _ tail heq _ => ⟨tail, heq⟩⟩, fun _ => hq⟩
  | sleep timeout =>
    by_cases hpos : timeout ≤ 0
    · refine .inl ?_
      show lSeSleep t timeout s = _
      unfold lSeSleep
      rw [if_pos hpos]
      rfl
    · exact .inr ⟨true, _, lSeSleep_eq hq hth htimer (hquiet .timer) hpos, h.asleep hth htimer hio hquiet _,
        .of_erase rfl rfl rfl, fun hb => by cases hb⟩
  | wait timeout =>
    rcases seWaitTimeout_eq hq hth htimer hio hquiet timeout with hshort | hwait
    · exact .inr ⟨false, s, hshort, h, .refl, fun _ => hq⟩
    · have hpend : (s.blocked t thread timeout).pendings = s.pendings := (front_blocked (t := t) thread timeout).pendings
      refine .inr ⟨true, _, hwait, ?_, front_blocked thread timeout, fun hb => by cases hb⟩
      rw [hpend]
      exact h.blocked hth htimer hio hquiet timeout
  | yield => exact .inr ⟨true, s, rfl, h, .refl, fun hb => by cases hb⟩

/-- **What a thread does until it yields.** -/
theorem good_resume (calls : List Call) (h : Good s.pendings s) (hq : t ∈ s.running) :
    (∃ s', seThreadResume t calls s = .error .luaError s') ∨
      ∃ s', seThreadResume t calls s = .ok () s' ∧ Good s'.pendings s' ∧ Front t s s' := by
  induction calls generalizing s with
  | nil =>
    obtain ⟨thread, hth, htimer, hio, hquiet⟩ := h.inv.ready hq
    refine .inr ⟨s.freed t, ?_, h.freed hth htimer hio hquiet, .of_erase rfl rfl rfl⟩
    let s1 : Loop := { s with activecnt := s.activecnt - 1 }
    let s2 : Loop := { s1 with running := s.running.erase t }
    unfold seThreadResume seThreadFree
    rw [bind_of_ok (show evUnref s = .ok () s1 from rfl), bind_of_ok (show listDel t s1 = .ok () s2 from if_pos hq),
      bind_of_ok (threadOf_eq (s := s2) hth), if_neg (by simp [htimer]), if_neg (by simp [hio])]
    rfl
  | cons c calls ih =>
    unfold seThreadResume
    rcases good_call h hq c with hraise | ⟨b, s1, hcall, h1, hfront, hstay⟩
    · exact .inl ⟨s, bind_of_error hraise⟩
    · rw [bind_of_ok hcall]
      cases b with
      | true => exact .inr ⟨s1, rfl, h1, hfront⟩
      | false =>
        rw [if_neg Bool.false_ne_true]
        rcases ih h1 (hstay rfl) with ⟨s', hraise⟩ | ⟨s', hrest, h', hfront'⟩
        · exact .inl ⟨s', hraise⟩
        · exact .inr ⟨s', hrest, h', hfront.trans hfront'⟩

end Calls

/-! ## The callbacks -/

/-- The loop after `t` has been woken up and `n` watchers have been stopped. -/
def Loop.woke (s : Loop) (t : Tid) (thread : Thread) (n : Int) (w : Watcher) : Loop :=
  { s with
    threads := Function.update s.threads t (some thread)
    running := s.running ++ [t]
    pendings := s.pendings.erase (t, .io)
    activecnt := s.activecnt - n
    log := s.log ++ [.woken t (some w) s.mn_now] }

section Callbacks
variable {E : List (Tid × Watcher)} {s s' : Loop} {t : Tid} {thread : Thread} {w : Watcher}

theorem TimersFirst.sublist {E' : List (Tid × Watcher)} (h : TimersFirst E) (hsub : E'.Sublist E) : TimersFirst E' :=
  List.Pairwise.sublist hsub h

/-- Behind the event of a descriptor there is none of a timer. -/
theorem TimersFirst.io_head (h : TimersFirst ((t, .io) :: E)) (u : Tid) : (u, .timer) ∉ E := by
  intro hu
  have hbad := (List.pairwise_cons.mp h).1 (u, .timer) hu rfl
  cases hbad

theorem threads_self (hth : s.threads t = some thread) : s.threads = Function.update s.threads t (some thread) := by
  funext u
  by_cases hut : u = t
  · rw [hut, hth, Function.update_self]
  · rw [Function.update_of_ne hut]

/-- **A thread that waits is woken up**, and nothing of it stays fed. -/
theorem Good.woke (h : Good ((t, w) :: s.pendings) s) (hth : s.threads t = some thread) (hq : t ∉ s.running)
    (htimer : (t, .timer) ∉ s.pendings) :
    Good (s.pendings.erase (t, .io)) (s.woke t { thread with timer := none, io := false }
      (weight (some thread) - 1) w) := by
  have hnodup : s.pendings.Nodup := (List.nodup_cons.mp h.inv.events).2
  have hsub : (s.pendings.erase (t, .io)).Sublist ((t, w) :: s.pendings) :=
    List.erase_sublist.trans (List.sublist_cons_self _ _)
  have hquiet : ∀ w', (t, w') ∉ s.pendings.erase (t, .io) := by
    intro w'
    cases w' with
    | timer => exact fun hin => htimer (List.mem_of_mem_erase hin)
    | io => exact hnodup.not_mem_erase
  have hin : ∀ u, u ∈ s.running ++ [t] ↔ u ∈ s.running ∨ u = t := by simp
  refine ⟨h.inv.change hth rfl rfl ?_ ?_ (h.inv.events.sublist hsub) ?_ (h.inv.ordered.sublist hsub) ?_ ?_, ?_⟩
  · refine List.nodup_append.mpr ⟨h.inv.queue, List.nodup_singleton _, ?_⟩
    rintro u hu v hv rfl
    exact hq (List.mem_singleton.mp hv ▸ hu)
  · intro u hut
    exact (hin u).trans (or_iff_left hut)
  · intro u w' hut
    rw [List.mem_erase_of_ne (by simp [hut]), List.mem_cons]
    exact (or_iff_right (by simp [hut])).symm
  · exact .ready ((hin t).mpr (.inr rfl)) rfl rfl hquiet
  · show s.activecnt - (weight (some thread) - 1) = s.activecnt - weight (some thread) + 1
    omega
  · have hnote : Timely ((t, w) :: s.pendings) { s with log := s.log ++ [.woken t (some w) s.mn_now] } := by
      refine h.timely.note rfl rfl rfl (by simp) ?_
      intro u now heq
      cases heq
      exact h.timely.due t List.mem_cons_self
    refine hnote.mono ?_ (fun _ hu => hsub.subset hu) le_rfl rfl
    intro u th ev_at hu hat
    by_cases hut : u = t
    · subst hut
      have hself : some { thread with timer := none, io := false } = some th :=
        (Function.update_self u _ s.threads).symm.trans hu
      cases hself
      cases hat
    · exact ⟨th, (Function.update_of_ne hut _ _).symm.trans hu, hat⟩

theorem seThreadWakeup_eq (hq : t ∉ s.running) (by' : Option Watcher) :
    seThreadWakeup t by' s = .ok () { s with
      running := s.running ++ [t], log := s.log ++ [.woken t by' s.mn_now] } := by
  unfold seThreadWakeup
  rw [bind_of_ok (listAddTail_eq hq)]
  rfl

theorem evTimerStop_eq (hth : s.threads t = some thread) {ev_at : Tstamp} (htimer : thread.timer = some ev_at)
    (hp : (t, .timer) ∉ s.pendings) :
    evTimerStop t s = .ok () { s with
      threads := Function.update s.threads t (some { thread with timer := none })
      activecnt := s.activecnt - 1 } := by
  have hclear : clearPending t .timer s = .ok () s := by
    show EStateM.Result.ok () { s with pendings := s.pendings.erase (t, .timer) } = _
    rw [List.erase_of_not_mem hp]
  unfold evTimerStop
  rw [bind_of_ok hclear, bind_of_ok (threadOf_eq hth), if_neg (by simp [htimer])]
  rfl

theorem evIoStop_eq (hth : s.threads t = some thread) (hio : thread.io = true) :
    evIoStop t s = .ok () { s with
      threads := Function.update s.threads t (some { thread with io := false })
      pendings := s.pendings.erase (t, .io)
      activecnt := s.activecnt - 1 } := by
  let s1 : Loop := { s with pendings := s.pendings.erase (t, .io) }
  unfold evIoStop
  rw [bind_of_ok (show clearPending t .io s = .ok () s1 from rfl), bind_of_ok (threadOf_eq (s := s1) hth), if_pos hio]
  rfl

/-- A thread that waits for its descriptor is woken up. -/
theorem seThreadWakeupIo_eq (hth : s.threads t = some thread) (hio : thread.io = true) (hq : t ∉ s.running)
    (htimer : (t, .timer) ∉ s.pendings) (w : Watcher) :
    seThreadWakeupIo t w s = .ok () (s.woke t { thread with timer := none, io := false }
      (weight (some thread) - 1) w) := by
  have hfinish : ∀ s1 : Loop, s1.threads = Function.update s.threads t (some { thread with timer := none }) →
      s1.running = s.running → s1.pendings = s.pendings → s1.count = s.count → s1.mn_now = s.mn_now →
      s1.phase = s.phase → s1.log = s.log → s1.activecnt = s.activecnt - (weight (some thread) - 1) + 1 →
      (evIoStop t >>= fun _ => seThreadWakeup t (some w)) s1 =
        .ok () (s.woke t { thread with timer := none, io := false } (weight (some thread) - 1) w) := by
    intro s1 hthreads hrun hpend hcount hnow hphase hlog hact
    have hself : s1.threads t = some { thread with timer := none } := by
      rw [hthreads]
      exact Function.update_self _ _ _
    rw [bind_of_ok (evIoStop_eq hself hio), seThreadWakeup_eq (by rw [hrun]; exact hq)]
    simp only [Loop.woke, hthreads, hrun, hpend, hcount, hnow, hphase, hlog, hact, Function.update_idem,
      add_sub_cancel_right]
  unfold seThreadWakeupIo
  rw [bind_of_ok (threadOf_eq hth)]
  cases hat : thread.timer with
  | none =>
    rw [if_neg (by simp)]
    refine hfinish s ?_ rfl rfl rfl rfl rfl rfl ?_
    · have hsame : ({ thread with timer := none } : Thread) = thread := by rw [← hat]
      rw [hsame]
      exact threads_self hth
    · simp [weight, hat, hio]
  | some ev_at =>
    rw [if_pos (by simp)]
    refine (bind_of_ok (evTimerStop_eq hth hat htimer)).trans ?_
    refine hfinish _ rfl rfl rfl rfl rfl rfl rfl ?_
    simp only [weight, hat, hio]
    show s.activecnt - 1 = _
    simp
    omega

/-- **A callback is invoked**: the thread it is of waits, and nothing raises. -/
theorem good_callback (h : Good ((t, w) :: s.pendings) s) (done : Bool) :
    ∃ s', callback t done w s = .ok () s' ∧ Good s'.pendings s' ∧ s'.phase = s.phase := by
  obtain ⟨thread, hth⟩ : ∃ thread, s.threads t = some thread :=
    Option.isSome_iff_exists.mp (h.inv.known (t, w) List.mem_cons_self)
  have hhead : (t, w) ∉ s.pendings := (List.nodup_cons.mp h.inv.events).1
  cases w with
  | timer =>
    have hfed : (t, .timer) ∈ (t, Watcher.timer) :: s.pendings := List.mem_cons_self
    cases h.inv.status t thread hth with
    | ready _ _ _ hquiet => exact absurd hfed (hquiet .timer)
    | asleep hq hcb hio hquiet htimer =>
      have hstopped : thread.timer = none := htimer.mpr hfed
      have hnoio : (t, .io) ∉ s.pendings := fun hin => hquiet (List.mem_cons_of_mem _ hin)
      have hsame : ({ thread with timer := none, io := false } : Thread) = thread := by rw [← hstopped, ← hio]
      refine ⟨s.woke t { thread with timer := none, io := false } (weight (some thread) - 1) .timer, ?_,
        h.woke hth hq hhead, rfl⟩
      have hcall : callback t done .timer s = seOnSleep t s := by
        refine (bind_of_ok (threadOf_eq hth)).trans ?_
        rw [hcb]
      have hzero : weight (some thread) - 1 = 0 := by simp [weight, hstopped, hio]
      rw [hcall, hsame, hzero]
      unfold seOnSleep
      rw [bind_of_ok (threadOf_eq hth), if_neg (by simp [hstopped]), seThreadWakeup_eq hq]
      simp only [Loop.woke, List.erase_of_not_mem hnoio, ← threads_self hth, sub_zero]
    | blocked hq hio hcb htimer =>
      refine ⟨s.woke t { thread with timer := none, io := false } (weight (some thread) - 1) .timer, ?_,
        h.woke hth hq hhead, rfl⟩
      have hcall : callback t done .timer s = seThreadWakeupIo t .timer s := by
        refine (bind_of_ok (threadOf_eq hth)).trans ?_
        rw [hcb (.inr hfed)]
      rw [hcall]
      exact seThreadWakeupIo_eq hth hio hq hhead .timer
  | io =>
    have hfed : (t, .io) ∈ (t, Watcher.io) :: s.pendings := List.mem_cons_self
    have hnotimer : (t, .timer) ∉ s.pendings := h.inv.ordered.io_head t
    cases h.inv.status t thread hth with
    | ready _ _ _ hquiet => exact absurd hfed (hquiet .io)
    | asleep _ _ _ hquiet => exact absurd hfed hquiet
    | blocked hq hio hcb htimer =>
      cases done with
      | true =>
        refine ⟨s.woke t { thread with timer := none, io := false } (weight (some thread) - 1) .io, ?_,
          h.woke hth hq hnotimer, rfl⟩
        exact (bind_of_ok (threadOf_eq hth)).trans (seThreadWakeupIo_eq hth hio hq hnotimer .io)
      | false =>
        -- the try was too early: the watcher stays
        refine ⟨s, ?_, ⟨?_, ?_⟩, rfl⟩
        · exact bind_of_ok (threadOf_eq hth)
        · refine h.inv.change hth rfl (threads_self hth) h.inv.queue (fun _ _ => Iff.rfl)
            (List.nodup_cons.mp h.inv.events).2 ?_ (List.Pairwise.of_cons h.inv.ordered) ?_ (by omega)
          · intro u w' hut
            exact (List.mem_cons.trans (or_iff_right (by simp [hut]))).symm
          · refine .blocked hq hio (fun hor => hcb ?_) fun hin => absurd hin hnotimer
            rcases hor with hne | hin
            · exact .inl hne
            · exact absurd hin hnotimer
        · exact h.timely.mono (fun _ th _ hu hat => ⟨th, hu, hat⟩) (fun _ hu => List.mem_cons_of_mem _ hu) le_rfl rfl

end Callbacks

/-! ## Feeding -/

section Feeding
variable {E : List (Tid × Watcher)} {s s' : Loop} {t : Tid} {thread : Thread}

/-- What feeding does not touch. -/
structure Fed (s s' : Loop) : Prop where
  phase : s'.phase = s.phase
  count : s'.count = s.count
  mn_now : s'.mn_now = s.mn_now

theorem good_fdEvents (ready : List Tid) (h : Good s.pendings s) (hios : ∀ p ∈ s.pendings, p.2 = .io) :
    ∃ s', fdEvents ready s = .ok () s' ∧ Good s'.pendings s' ∧ (∀ p ∈ s'.pendings, p.2 = .io) ∧
      s'.threads = s.threads ∧ Fed s s' := by
  induction ready generalizing s with
  | nil => exact ⟨s, rfl, h, hios, rfl, rfl, rfl, rfl⟩
  | cons t ready ih =>
    unfold fdEvents
    rw [bind_of_ok (get_ok s)]
    by_cases hactive : (s.threads t).any Thread.io = true
    · rw [if_pos hactive]
      obtain ⟨thread, hth, hio⟩ : ∃ thread, s.threads t = some thread ∧ thread.io = true := by
        simpa [Option.any_eq_true] using hactive
      by_cases hfed : (t, Watcher.io) ∈ s.pendings
      · have hfeed : evFeedEvent t .io s = .ok () s := by
          show EStateM.Result.ok () (if (t, Watcher.io) ∈ s.pendings then s else _) = _
          rw [if_pos hfed]
        exact (bind_of_ok hfeed).symm ▸ ih h hios
      · let s1 : Loop := { s with pendings := (t, .io) :: s.pendings }
        have hfeed : evFeedEvent t .io s = .ok () s1 := by
          show EStateM.Result.ok () (if (t, Watcher.io) ∈ s.pendings then s else _) = _
          rw [if_neg hfed]
        have hios1 : ∀ p ∈ s1.pendings, p.2 = .io := List.forall_mem_cons.mpr ⟨rfl, hios⟩
        have h1 : Good s1.pendings s1 := by
          refine ⟨h.inv.change hth rfl (threads_self hth) h.inv.queue (fun _ _ => Iff.rfl)
            (List.nodup_cons.mpr ⟨hfed, h.inv.events⟩) ?_ ?_ ?_ (show s.activecnt = _ by omega), ?_⟩
          · intro u w hut
            exact List.mem_cons.trans (or_iff_right (by simp [hut]))
          · refine List.pairwise_cons.mpr ⟨?_, h.inv.ordered⟩
            intro p hp hptimer
            rw [hios p hp] at hptimer
            cases hptimer
          · have hkeep : (t, Watcher.timer) ∈ (t, Watcher.io) :: s.pendings → (t, Watcher.timer) ∈ s.pendings := by
              simp
            cases h.inv.status t thread hth with
            | ready _ _ hnoio => exact absurd hio (by simp [hnoio])
            | asleep _ _ hnoio => exact absurd hio (by simp [hnoio])
            | blocked hq _ hcb htimer =>
              exact .blocked hq hio (fun hor => hcb (hor.imp_right hkeep)) fun hin => htimer (hkeep hin)
          · exact h.timely.mono (fun _ th _ hu hat => ⟨th, hu, hat⟩) (fun u hu => by simpa [s1] using hu) le_rfl rfl
        obtain ⟨s', hrest, h', hios', hthreads, hfed'⟩ := ih h1 hios1
        exact ⟨s', (bind_of_ok hfeed).trans hrest, h', hios', hthreads, hfed'.phase, hfed'.count, hfed'.mn_now⟩
    · rw [if_neg hactive]
      obtain ⟨s', hrest, h', hios', hthreads, hfed'⟩ := ih h hios
      exact ⟨s', hrest, h', hios', hthreads, hfed'⟩

/-- A timer that is due is stopped; its event is in the hands of `timers_reify`. -/
theorem good_stop {hand : List (Tid × Watcher)} (h : Good (hand ++ s.pendings) s) (hhand : ∀ p ∈ hand, p.2 = .timer)
    (hdue : s.due s.mn_now t = true) :
    ∃ s1, evTimerStop t s = .ok () s1 ∧ Good (hand ++ [(t, .timer)] ++ s1.pendings) s1 ∧
      s1.pendings = s.pendings ∧ (∀ u, u ≠ t → s1.threads u = s.threads u) ∧ Fed s s1 := by
  obtain ⟨ev_at, hat, hlt⟩ : ∃ ev_at, s.evAt t = some ev_at ∧ ev_at < s.mn_now := by
    simpa [Loop.due, Option.any_eq_true] using hdue
  obtain ⟨thread, hth, htimer⟩ : ∃ thread, s.threads t = some thread ∧ thread.timer = some ev_at := by
    simpa [Loop.evAt, Option.bind_eq_some_iff] using hat
  have hne : thread.timer ≠ none := by simp [htimer]
  have hnot : (t, .timer) ∉ hand ++ s.pendings := by
    cases h.inv.status t thread hth with
    | ready _ hnone => exact absurd hnone hne
    | asleep _ _ _ _ hiff => exact fun hin => hne (hiff.mpr hin)
    | blocked _ _ _ himp => exact fun hin => hne (himp hin)
  rw [List.mem_append, not_or] at hnot
  have hsame : ∀ u w, (u, w) ∈ hand ++ [(t, Watcher.timer)] ++ s.pendings ↔
      (u, w) ∈ hand ++ s.pendings ∨ (u, w) = (t, .timer) := by
    intro u w
    simp only [List.mem_append, List.mem_singleton]
    tauto
  refine ⟨_, evTimerStop_eq hth htimer hnot.2, ⟨?_, ?_⟩, rfl, fun u hu => Function.update_of_ne hu _ _, rfl, rfl, rfl⟩
  · refine h.inv.change hth rfl rfl h.inv.queue (fun _ _ => Iff.rfl) ?_ ?_ ?_ ?_ ?_
    · rw [List.append_assoc, List.singleton_append]
      exact List.nodup_middle.mpr (List.nodup_cons.mpr ⟨by simp [hnot], h.inv.events⟩)
    · intro u w hut
      exact (hsame u w).trans (or_iff_left (by simp [hut]))
    · have hpend : TimersFirst s.pendings := h.inv.ordered.sublist (List.sublist_append_right _ _)
      rw [List.append_assoc, List.singleton_append]
      refine List.pairwise_append.mpr ⟨?_, List.pairwise_cons.mpr ⟨fun _ _ _ => rfl, hpend⟩, ?_⟩
      · exact List.Pairwise.imp_of_mem (fun hp _ _ _ => hhand _ hp) (List.pairwise_of_forall (fun _ _ => trivial))
      · exact fun p hp _ _ _ => hhand p hp
    · have hin : (t, .timer) ∈ hand ++ [(t, Watcher.timer)] ++ s.pendings := (hsame t .timer).mpr (.inr rfl)
      cases h.inv.status t thread hth with
      | ready _ hnone => exact absurd hnone hne
      | asleep hq hcb hio hquiet _ =>
        refine .asleep hq hcb hio ?_ ⟨fun _ => hin, fun _ => rfl⟩
        rw [hsame]
        simpa using hquiet
      | blocked hq hio hcb _ => exact .blocked hq hio (fun _ => hcb (.inl hne)) fun _ => rfl
    · simp only [weight, htimer]
      show s.activecnt - 1 = _
      simp
      omega
  · constructor
    · intro u th at' hu hat'
      by_cases hut : u = t
      · subst hut
        have hself : some { thread with timer := none } = some th := (Function.update_self u _ s.threads).symm.trans hu
        cases hself
        cases hat'
      · exact h.timely.armed u th at' ((Function.update_of_ne hut _ _).symm.trans hu) hat'
    · intro u hu
      rcases (hsame u .timer).mp hu with hold | hnew
      · exact h.timely.due u hold
      · cases hnew
        exact ⟨ev_at, h.timely.armed t thread ev_at hth htimer, hlt⟩
    · exact h.timely.punctual

theorem good_stopTimers (expired : List Tid) (hnodup : expired.Nodup) {hand : List (Tid × Watcher)}
    (h : Good (hand ++ s.pendings) s) (hhand : ∀ p ∈ hand, p.2 = .timer)
    (hdue : ∀ t ∈ expired, s.due s.mn_now t = true) :
    ∃ s', stopTimers expired s = .ok () s' ∧
      Good (hand ++ expired.map (fun t => (t, .timer)) ++ s'.pendings) s' ∧ Fed s s' := by
  induction expired generalizing s hand with
  | nil => exact ⟨s, rfl, by simpa using h, rfl, rfl, rfl⟩
  | cons t expired ih =>
    obtain ⟨hnot, hnodup⟩ := List.nodup_cons.mp hnodup
    obtain ⟨hdue, hdues⟩ := List.forall_mem_cons.mp hdue
    obtain ⟨s1, hstop, h1, -, hothers, hfed1⟩ := good_stop h hhand hdue
    have hhand1 : ∀ p ∈ hand ++ [(t, Watcher.timer)], p.2 = .timer := by
      intro p hp
      rcases List.mem_append.mp hp with hp | hp
      · exact hhand p hp
      · rw [List.mem_singleton.mp hp]
    have hdue1 : ∀ u ∈ expired, s1.due s1.mn_now u = true := by
      intro u hu
      have hut : u ≠ t := by
        rintro rfl
        exact hnot hu
      have hold := hdues u hu
      rw [Loop.due, Loop.evAt] at hold ⊢
      rw [hothers u hut, hfed1.mn_now]
      exact hold
    obtain ⟨s', hrest, h', hfed'⟩ := ih hnodup h1 hhand1 hdue1
    refine ⟨s', (bind_of_ok hstop).trans hrest, ?_, hfed'.phase.trans hfed1.phase, hfed'.count.trans hfed1.count,
      hfed'.mn_now.trans hfed1.mn_now⟩
    simpa [List.append_assoc] using h'

/-- The timers are fed the other way round, so that the first one is in front. -/
theorem good_feedTimers (rest : List Tid) (h : Good (rest.reverse.map (fun t => (t, .timer)) ++ s.pendings) s) :
    ∃ s', feedTimers rest s = .ok () s' ∧ Good s'.pendings s' ∧ Fed s s' := by
  induction rest generalizing s with
  | nil => exact ⟨s, rfl, by simpa using h, rfl, rfl, rfl⟩
  | cons t rest ih =>
    have hsplit : (t :: rest).reverse.map (fun t => (t, Watcher.timer)) ++ s.pendings =
        rest.reverse.map (fun t => (t, .timer)) ++ ((t, .timer) :: s.pendings) := by simp
    rw [hsplit] at h
    have hnot : (t, Watcher.timer) ∉ s.pendings :=
      (List.nodup_cons.mp (h.inv.events.sublist (List.sublist_append_right _ _))).1
    let s1 : Loop := { s with pendings := (t, .timer) :: s.pendings }
    have hfeed : evFeedEvent t .timer s = .ok () s1 := by
      show EStateM.Result.ok () (if (t, Watcher.timer) ∈ s.pendings then s else _) = _
      rw [if_neg hnot]
    have h1 : Good (rest.reverse.map (fun t => (t, .timer)) ++ s1.pendings) s1 :=
      ⟨h.inv.of_eq rfl rfl rfl rfl,
        h.timely.mono (fun _ th _ hu hat => ⟨th, hu, hat⟩) (fun _ hu => hu) le_rfl rfl⟩
    obtain ⟨s', hrest, h', hfed'⟩ := ih h1
    exact ⟨s', (bind_of_ok hfeed).trans hrest, h', hfed'.phase, hfed'.count, hfed'.mn_now⟩

end Feeding

end ApApps.Se.Schedule

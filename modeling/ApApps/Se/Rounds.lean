import ApApps.Se.Wakeups

/- The scheduler over whole runs.

   An event keeps the loop in order (`inOrder_step`), so every run does. What that means for the
   threads is `scheduler_sound`, for their timers `never_early`, and for the order in which
   they are resumed `resumed_in_turn`. -/
namespace ApApps.Se.Schedule
open Exec

/-! ## Events -/

/-- The loop between two events. -/
structure InOrder (s : Loop) : Prop where
  good : Good s.pendings s
  calm : s.phase = .schedule → s.pendings = []
  returned : s.phase = .returned → s.pendings = [] ∧ s.activecnt = 0

section Events
variable {s s' : Loop} {t : Tid}

theorem Good.moved (h : Good s.pendings s) {rest : List Tid} (hrun : s.running = t :: rest) :
    Good s.pendings { s with running := rest ++ [t], log := s.log ++ [.resumed t] } := by
  have hq : t ∈ s.running := by
    rw [hrun]
    exact List.mem_cons_self
  obtain ⟨thread, hth, htimer, hio, hquiet⟩ := h.inv.ready hq
  have hperm : (rest ++ [t]).Perm s.running := by
    rw [hrun]
    exact List.perm_append_singleton t rest
  refine ⟨h.inv.change hth rfl (threads_self hth) (hperm.nodup_iff.mpr h.inv.queue) (fun _ _ => hperm.mem_iff)
    h.inv.events (fun _ _ _ => Iff.rfl) h.inv.ordered (.ready (hperm.mem_iff.mpr hq) htimer hio hquiet)
    (show s.activecnt = _ by omega), ?_⟩
  exact h.timely.note rfl rfl rfl (by simp) (by simp)

/-- The first thread of the list is moved to its end and runs. -/
theorem handle_resume_eq (h : Good s.pendings s) {rest : List Tid} (hrun : s.running = t :: rest) (calls : List Call) :
    handle (.resume calls) s =
      seThreadResume t calls { s with running := rest ++ [t], log := s.log ++ [.resumed t] } := by
  have hnodup := h.inv.queue
  rw [hrun] at hnodup
  have hout : t ∉ rest := (List.nodup_cons.mp hnodup).1
  let s1 : Loop := { s with running := rest }
  let s2 : Loop := { s1 with running := rest ++ [t] }
  have hdel : listDel t s = .ok () s1 := by
    unfold listDel
    rw [hrun, if_pos List.mem_cons_self, List.erase_cons_head]
  have hadd : listAddTail t s1 = .ok () s2 := if_neg hout
  have hmove : listMoveTail t s = .ok () s2 := (bind_of_ok hdel).trans hadd
  refine (bind_of_ok (get_ok s)).trans ?_
  simp only [hrun]
  exact (bind_of_ok hmove).trans (bind_of_ok rfl)

/-- **A thread is resumed.** -/
theorem inOrder_resume (h : InOrder s) (hphase : s.phase = .schedule) {rest : List Tid}
    (hrun : s.running = t :: rest) (calls : List Call) :
    (∃ s', handle (.resume calls) s = .error .luaError s') ∨
      ∃ s', handle (.resume calls) s = .ok () s' ∧ InOrder s' ∧ s'.phase = .schedule ∧
        ∃ tail, s'.running = rest ++ tail := by
  let s1 : Loop := { s with running := rest ++ [t], log := s.log ++ [.resumed t] }
  have h1 : Good s1.pendings s1 := h.good.moved hrun
  have hout : t ∉ rest := by
    have hnodup := h.good.inv.queue
    rw [hrun] at hnodup
    exact (List.nodup_cons.mp hnodup).1
  have hq : t ∈ s1.running := by simp [s1]
  rw [handle_resume_eq h.good hrun calls]
  rcases good_resume calls h1 hq with ⟨s', hraise⟩ | ⟨s', hresume, h', hfront⟩
  · exact .inl ⟨s', hraise⟩
  · refine .inr ⟨s', hresume, ⟨h', fun _ => ?_, fun hret => ?_⟩, hfront.phase.trans hphase,
      hfront.front rest [t] rfl hout⟩
    · exact hfront.pendings.trans (h.calm hphase)
    · rw [hfront.phase.trans hphase] at hret
      cases hret

/-- **The kernel is polled.** -/
theorem inOrder_poll (h : InOrder s) (hphase : s.phase = .schedule) {ready : List Tid} {now : Tstamp}
    {expired : List Tid} (hpops : s.pops (max s.mn_now now) expired) :
    ∃ s', handle (.poll ready now expired) s = .ok () s' ∧ InOrder s' := by
  let s0 : Loop := { s with phase := .invoke }
  let s1 : Loop := { s0 with mn_now := max s.mn_now now }
  have hcalm : s.pendings = [] := h.calm hphase
  have h1 : Good s1.pendings s1 :=
    ⟨h.good.inv.of_eq rfl rfl rfl rfl,
      h.good.timely.mono (fun _ th _ hu hat => ⟨th, hu, hat⟩) (fun _ hu => hu) (le_max_left _ _) rfl⟩
  obtain ⟨s2, hfd, h2, hios, hthreads, hfed⟩ := good_fdEvents ready h1 (by simp [s1, s0, hcalm])
  have hdue : ∀ t ∈ expired, s2.due s2.mn_now t = true := by
    intro t ht
    have hold := hpops.2.1 t ht
    rw [Loop.due, Loop.evAt] at hold ⊢
    rw [hthreads, hfed.mn_now]
    exact hold
  have hnone : Good ([] ++ s2.pendings) s2 := h2
  obtain ⟨s3, hstop, h3, hfed3⟩ := good_stopTimers expired hpops.1 hnone (by simp) hdue
  obtain ⟨s4, hfeed, h4, hfed4⟩ := good_feedTimers (s := s3) expired.reverse (by simpa using h3)
  have hreify : timersReify expired s2 = .ok () s4 := (bind_of_ok hstop).trans hfeed
  have hinvoke : s4.phase = .invoke := (hfed4.phase.trans hfed3.phase).trans hfed.phase
  refine ⟨s4, ?_, h4, fun hsched => ?_, fun hret => ?_⟩
  · exact (bind_of_ok (show setPhase .invoke s = .ok () s0 from rfl)).trans
      ((bind_of_ok (show timeUpdate now s0 = .ok () s1 from rfl)).trans ((bind_of_ok hfd).trans hreify))
  · rw [hinvoke] at hsched
    cases hsched
  · rw [hinvoke] at hret
    cases hret

/-- **A callback is invoked.** -/
theorem inOrder_invoke (h : InOrder s) (hphase : s.phase = .invoke) (hne : s.pendings ≠ []) (done : Bool) :
    ∃ s', handle (.invoke done) s = .ok () s' ∧ InOrder s' := by
  obtain ⟨⟨t, w⟩, rest, hpend⟩ := List.exists_cons_of_ne_nil hne
  let s1 : Loop := { s with pendings := rest }
  have h1 : Good ((t, w) :: s1.pendings) s1 := by
    have hgood := h.good
    rw [hpend] at hgood
    exact ⟨hgood.inv.of_eq rfl rfl rfl rfl,
      hgood.timely.mono (fun _ th _ hu hat => ⟨th, hu, hat⟩) (fun _ hu => hu) le_rfl rfl⟩
  obtain ⟨s', hcall, h', hphase'⟩ := good_callback h1 done
  have hinvoke : s'.phase = .invoke := hphase'.trans hphase
  refine ⟨s', ?_, h', fun hsched => ?_, fun hret => ?_⟩
  · refine (bind_of_ok (get_ok s)).trans ?_
    simp only [hpend]
    exact (bind_of_ok (modify_ok (fun s : Loop => { s with pendings := rest }) s)).trans hcall
  · rw [hinvoke] at hsched
    cases hsched
  · rw [hinvoke] at hret
    cases hret

theorem inOrder_again (h : InOrder s) (hcalm : s.pendings = []) :
    ∃ s', handle .again s = .ok () s' ∧ InOrder s' := by
  have hgood : ∀ phase, Good s.pendings { s with phase } := fun phase =>
    ⟨h.good.inv.of_eq rfl rfl rfl rfl,
      h.good.timely.mono (fun _ th _ hu hat => ⟨th, hu, hat⟩) (fun _ hu => hu) le_rfl rfl⟩
  by_cases hzero : s.activecnt = 0
  · refine ⟨{ s with phase := .returned }, ?_, hgood .returned, fun _ => hcalm, fun _ => ⟨hcalm, hzero⟩⟩
    refine (bind_of_ok (get_ok s)).trans ?_
    rw [if_pos hzero]
    rfl
  · refine ⟨{ s with phase := .schedule }, ?_, hgood .schedule, fun _ => hcalm, fun h => by cases h⟩
    refine (bind_of_ok (get_ok s)).trans ?_
    rw [if_neg hzero]
    rfl

/-- **What an event does**: it keeps the loop in order, or a thread has called `se.sleep` with an
argument it does not take. -/
theorem inOrder_step (h : InOrder s) (ev : Event) :
    (∃ s', step ev s = .error .luaError s') ∨ ∃ s', step ev s = .ok () s' ∧ InOrder s' := by
  by_cases hen : s.enabled ev
  · rw [show step ev s = handle ev s from if_pos hen]
    cases ev with
    | resume calls =>
      obtain ⟨hphase, hne⟩ := hen
      obtain ⟨t, rest, hrun⟩ := List.exists_cons_of_ne_nil hne
      rcases inOrder_resume h hphase hrun calls with hraise | ⟨s', hok, h', -⟩
      · exact .inl hraise
      · exact .inr ⟨s', hok, h'⟩
    | poll ready now expired => exact .inr (inOrder_poll h hen.1 hen.2.2)
    | invoke done => exact .inr (inOrder_invoke h hen.1 hen.2 done)
    | again => exact .inr (inOrder_again h hen.2)
  · exact .inr ⟨s, if_neg hen, h⟩

end Events

/-! ## Runs -/

section Runs
variable {s s' : Loop}

theorem good_empty : Good [] .empty where
  inv := {
    queue := List.nodup_nil
    queued := by simp [Loop.empty]
    events := List.nodup_nil
    known := by simp
    status := fun _ _ h => by cases h
    numbered := fun _ _ h => by cases h
    ordered := List.Pairwise.nil
    active := rfl }
  timely := {
    armed := fun _ _ _ h => by cases h
    due := fun _ h => by cases h
    punctual := punctual_nil }

theorem inOrder_started : InOrder Loop.empty.spawned where
  good := good_empty.spawned
  calm := fun _ => rfl
  returned := fun h => by cases h

theorem run_eq (evs : List Event) : run evs = runAll step evs Loop.empty.spawned :=
  bind_of_ok (seThreadNew_eq (s := .empty) (by simp [Loop.empty]))

/-- From a loop in order a run goes on in order, or ends with a bad argument. -/
theorem inOrder_runAll (evs : List Event) (h : InOrder s) :
    (∃ s', runAll step evs s = .error .luaError s') ∨ ∃ s', runAll step evs s = .ok () s' ∧ InOrder s' := by
  induction evs generalizing s with
  | nil => exact .inr ⟨s, rfl, h⟩
  | cons ev evs ih =>
    rw [runAll]
    rcases inOrder_step h ev with ⟨s', hraise⟩ | ⟨s1, hok, h1⟩
    · exact .inl ⟨s', bind_of_error hraise⟩
    · rw [bind_of_ok hok]
      exact ih h1

theorem inOrder_run {evs : List Event} (h : run evs = .ok () s) : InOrder s := by
  rcases inOrder_runAll evs inOrder_started with ⟨s', hraise⟩ | ⟨s', hok, h'⟩
  · rw [run_eq, hraise] at h
    cases h
  · rw [run_eq, hok] at h
    cases h
    exact h'

end Runs

/-- `t` is in the list, and nothing can wake it up. -/
def Loop.Ready (s : Loop) (t : Tid) : Prop :=
  t ∈ s.running ∧ (∀ w, (t, w) ∉ s.pendings) ∧
    ∃ thread, s.threads t = some thread ∧ thread.timer = none ∧ thread.io = false

/-- `t` is not in the list, and something can wake it up. -/
def Loop.Waits (s : Loop) (t : Tid) : Prop :=
  t ∉ s.running ∧ ∃ thread, s.threads t = some thread ∧
    (thread.timer ≠ none ∨ (t, .timer) ∈ s.pendings ∨ thread.io = true)

/-- Every thread is in the list exactly once, or waits; only threads that wait are fed; and the
loop counts them, so that it ends with the last of them. -/
structure Sound (s : Loop) : Prop where
  once : s.running.Nodup
  ready : ∀ t ∈ s.running, s.Ready t
  either : ∀ t, (s.threads t).isSome → s.Ready t ∨ s.Waits t
  fed : ∀ p ∈ s.pendings, s.Waits p.1
  counted : s.activecnt = 0 ↔ ∀ t, s.threads t = none
  returned : s.phase = .returned → ∀ t, s.threads t = none

section Sound
variable {s : Loop} {t : Tid} {thread : Thread}

/-- Where a thread is that waits. -/
theorem Inv.waits {E : List (Tid × Watcher)} (h : Inv E s) (hth : s.threads t = some thread) (hq : t ∉ s.running) :
    thread.timer ≠ none ∨ (t, .timer) ∈ E ∨ thread.io = true := by
  cases h.status t thread hth with
  | ready hin => exact absurd hin hq
  | asleep _ _ _ _ htimer =>
    by_cases hat : thread.timer = none
    · exact .inr (.inl (htimer.mp hat))
    · exact .inl hat
  | blocked _ hio => exact .inr (.inr hio)

theorem weight_nonneg (x : Option Thread) : 0 ≤ weight x := by
  cases x with
  | none => exact le_rfl
  | some thread =>
    simp only [weight]
    split <;> split <;> omega

/-- The loop counts every thread. -/
theorem Inv.activecnt_eq_zero {E : List (Tid × Watcher)} (h : Inv E s) :
    s.activecnt = 0 ↔ ∀ t, s.threads t = none := by
  rw [h.active, Loop.load, Finset.sum_eq_zero_iff_of_nonneg fun t _ => weight_nonneg (s.threads t)]
  constructor
  · intro hzero t
    cases hth : s.threads t with
    | none => rfl
    | some thread =>
      have hw := hzero t (Finset.mem_range.mpr (h.numbered t thread hth))
      rw [hth] at hw
      simp only [weight] at hw
      split at hw <;> split at hw <;> omega
  · intro hnone t _
    rw [hnone t]
    rfl

theorem InOrder.sound (h : InOrder s) : Sound s := by
  have hinv := h.good.inv
  have hready : ∀ t ∈ s.running, s.Ready t := by
    intro t hq
    obtain ⟨thread, hth, htimer, hio, hquiet⟩ := hinv.ready hq
    exact ⟨hq, hquiet, thread, hth, htimer, hio⟩
  refine ⟨hinv.queue, hready, ?_, ?_, hinv.activecnt_eq_zero, fun hret => ?_⟩
  · intro t hlive
    obtain ⟨thread, hth⟩ := Option.isSome_iff_exists.mp hlive
    by_cases hq : t ∈ s.running
    · exact .inl (hready t hq)
    · exact .inr ⟨hq, thread, hth, hinv.waits hth hq⟩
  · intro p hp
    obtain ⟨thread, hth⟩ := Option.isSome_iff_exists.mp (hinv.known p hp)
    have hq : p.1 ∉ s.running := by
      intro hin
      obtain ⟨-, hquiet, -⟩ := hready p.1 hin
      exact hquiet p.2 hp
    exact ⟨hq, thread, hth, hinv.waits hth hq⟩
  · exact hinv.activecnt_eq_zero.mp (h.returned hret).2

end Sound

/-- **No thread is lost, none is woken up twice, and none is used after it has been freed**: in every
run every thread is in the list once, or waits for something that will put it there, until the
loop ends with the last of them; what is not as it should be is only ever an argument of
`se.sleep`. -/
theorem scheduler_sound (evs : List Event) :
    (∃ s, run evs = .error .luaError s) ∨ ∃ s, run evs = .ok () s ∧ Sound s := by
  rcases inOrder_runAll evs inOrder_started with ⟨s, hraise⟩ | ⟨s, hok, h⟩
  · exact .inl ⟨s, (run_eq evs).trans hraise⟩
  · exact .inr ⟨s, (run_eq evs).trans hok, h.sound⟩

/-- Were the event of the descriptor in front of that of the timer, both would wake the thread up. -/
theorem twice_queued : ∃ s s1 s2 : Loop, s.threads 0 = some ⟨none, .timeout, true⟩ ∧ s.running = [] ∧
    s.pendings = [(0, .io), (0, .timer)] ∧ step (.invoke true) s = .ok () s1 ∧
    step (.invoke true) s1 = .error .badList s2 :=
  ⟨⟨fun t => if t = 0 then some ⟨none, .timeout, true⟩ else none, 1, [], [(0, .io), (0, .timer)], 0, 2, .invoke, []⟩,
    _, _, rfl, rfl, rfl, rfl, rfl⟩

/-- **No timer wakes its thread up early**: whenever one has, the time for which it was last started
is over. -/
theorem never_early {evs : List Event} {s : Loop} (h : run evs = .ok () s) (pre post : List Act) (t : Tid)
    (now : Tstamp) (hlog : s.log = pre ++ .woken t (some .timer) now :: post) :
    ∃ ev_at, armedAt t pre = some ev_at ∧ ev_at < now :=
  (inOrder_run h).good.timely.punctual pre post t now hlog

/-- Two threads; one sleeps, the other waits for its descriptor, and both its watchers are fed. -/
def sleepers : List Event :=
  [.resume [.go, .sleep 1], .resume [.wait (some 1)], .poll [1] 2 [0, 1], .invoke true, .invoke true, .again]

theorem never_early_sleepers : ∃ s pre post, run sleepers = .ok () s ∧
    s.log = pre ++ .woken 1 (some .timer) 2 :: post ∧ ∃ ev_at, armedAt 1 pre = some ev_at ∧ ev_at < 2 := by
  have hrun : run sleepers = .ok () (finalState (run sleepers)) := eq_ok_of_returned (by decide +kernel)
  have hlog : (finalState (run sleepers)).log =
      [.woken 0 none 0, .resumed 0, .woken 1 none 0, .started 0 1, .resumed 1, .started 1 1,
        .woken 0 (some .timer) 2] ++ .woken 1 (some .timer) 2 :: [] := by decide +kernel
  exact ⟨_, _, [], hrun, hlog, never_early hrun _ [] 1 2 hlog⟩

/-- A thread at place `front.length` of the list is first after that many have been resumed. -/
theorem runAll_resumes {front back : List Tid} {t : Tid} {evs : List Event} {s s' : Loop} (h : InOrder s)
    (hphase : s.phase = .schedule) (hrun : s.running = front ++ t :: back)
    (hevs : ∀ ev ∈ evs, ∃ calls, ev = .resume calls) (hlen : evs.length = front.length)
    (hgo : runAll step evs s = .ok () s') :
    ∃ tail, s'.running = t :: tail ∧ s'.phase = .schedule := by
  induction front generalizing s evs back with
  | nil =>
    obtain rfl := List.length_eq_zero_iff.mp hlen
    cases hgo
    exact ⟨back, hrun, hphase⟩
  | cons u front ih =>
    cases evs with
    | nil => cases hlen
    | cons ev evs =>
      obtain ⟨⟨calls, rfl⟩, hrest⟩ := List.forall_mem_cons.mp hevs
      obtain ⟨s1, hstep, hgo1⟩ := runAll_cons_ok.mp hgo
      have hen : s.enabled (.resume calls) := ⟨hphase, by simp [hrun]⟩
      rw [show step (.resume calls) s = handle (.resume calls) s from if_pos hen] at hstep
      rcases inOrder_resume h hphase hrun calls with ⟨s2, hraise⟩ | ⟨s2, hok, h2, hphase2, tail, hrun2⟩
      · rw [hraise] at hstep
        cases hstep
      · rw [hok] at hstep
        cases hstep
        have hrun2 : s1.running = front ++ t :: (back ++ tail) := hrun2.trans (by simp)
        exact ih h2 hphase2 hrun2 hrest (by simpa using hlen) hgo1

/-- **The threads of the list are resumed in turn**: whatever the threads in front of it do, and
however many threads they start or wake up, a thread with `n` threads in front of it is the
next one after `n` have been resumed. -/
theorem resumed_in_turn {pre evs : List Event} {s s' : Loop} {front back : List Tid} {t : Tid}
    (h : run pre = .ok () s) (hphase : s.phase = .schedule) (hrun : s.running = front ++ t :: back)
    (hevs : ∀ ev ∈ evs, ∃ calls, ev = .resume calls) (hlen : evs.length = front.length)
    (hgo : runAll step evs s = .ok () s') :
    ∃ tail, s'.running = t :: tail ∧ s'.phase = .schedule :=
  runAll_resumes (inOrder_run h) hphase hrun hevs hlen hgo

/-- The first thread starts two more and yields. -/
def threeThreads : List Event := [.resume [.go, .go, .yield]]

theorem resumed_in_turn_three : ∃ s s' tail, run threeThreads = .ok () s ∧ s.running = [0, 1] ++ 2 :: [] ∧
    runAll step [.resume [.sleep 1], .resume [.go, .yield]] s = .ok () s' ∧
    s'.running = 2 :: tail ∧ s'.phase = .schedule := by
  have hrun : run threeThreads = .ok () (finalState (run threeThreads)) := eq_ok_of_returned (by decide +kernel)
  have hlist : (finalState (run threeThreads)).running = [0, 1] ++ 2 :: [] := by decide +kernel
  have hphase : (finalState (run threeThreads)).phase = .schedule := by decide +kernel
  have hgo := eq_ok_of_returned
    (r := runAll step [.resume [.sleep 1], .resume [.go, .yield]] (finalState (run threeThreads)))
    (a := ()) (by decide +kernel)
  obtain ⟨tail, htail⟩ := resumed_in_turn hrun hphase hlist (by simp) rfl hgo
  exact ⟨_, _, tail, hrun, hlist, hgo, htail⟩

end ApApps.Se.Schedule

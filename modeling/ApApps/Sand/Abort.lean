import ApApps.Sand.Tidy

/- When a callback of the broker raises, luv ends the process. With all writes
   succeeding there are three ways a client can bring that about: a refused cn command
   without an id (`clientid2fd[nil] = nil`), a keepalive whose period is no whole number
   of milliseconds or too large for `uv.timer_start`, and a descriptor left in the
   subscription table. `aborted_by_input` runs all three.

   `run_harmless`: without such commands no callback raises, whatever bytes arrive and
   in whatever order connections come and go. -/
namespace ApApps.Sand
open Incremental ApApps.Redis Exec

/-- `uv.timer_start` takes the period that belongs to the keepalive of the command. -/
def validTimer (map : Fields) : Bool := ((kpOf map).bind timerMs).isSome

/-- A cn command that carries an id, has a clean topic list and, if it is going to be
accepted, a keepalive the timer can be started with. -/
structure Harmless (s : St) (map : Fields) : Prop where
  hasId : (map.get "cd").isSome = true
  clean : CleanTopics map
  timer : refusal s map = none → validTimer map = true

instance (s : St) (map : Fields) : Decidable (Harmless s map) :=
  decidable_of_iff ((map.get "cd").isSome = true ∧ CleanTopics map ∧
      (refusal s map = none → validTimer map = true))
    ⟨fun ⟨h1, h2, h3⟩ => ⟨h1, h2, h3⟩, fun ⟨h1, h2, h3⟩ => ⟨h1, h2, h3⟩⟩

theorem Harmless.tidy {s : St} {map : Fields} (h : Harmless s map) : Tidy s map :=
  fun _ => ⟨h.hasId, h.clean⟩

/-- The keepalive of every accepted connection is good for its timer. -/
def TimersOk (s : St) : Prop :=
  ∀ c m map, s.heap c = some m → m.Accepted map → validTimer map = true

section TimersOk
variable {env : Env} {s s' : St}

/-- Accepted connections that were accepted before keep their timers good. -/
theorem TimersOk.of_heap (h : TimersOk s)
    (hheap : ∀ c m' map, s'.heap c = some m' → m'.Accepted map →
      ∃ m, s.heap c = some m ∧ m.Accepted map) : TimersOk s' := by
  intro c m' map hh' ha'
  obtain ⟨m, hh, ha⟩ := hheap c m' map hh' ha'
  exact h c m map hh ha

theorem TimersOk.cascade (h : TimersOk s) (hc : Cascade env s s') : TimersOk s' := by
  apply h.of_heap
  intro c m' map hh' ha'
  rcases hc.heap_same c with ⟨_, hnone⟩ | ⟨m, m1, h0, h1, hsame⟩
  · rw [hh'] at hnone
    cases hnone
  · rw [hh'] at h1
    cases h1
    exact ⟨m, h0, hsame.state.symm.trans ha'.state, hsame.param.symm.trans ha'.param, ha'.accepts⟩

theorem TimersOk.connected (h : TimersOk s) {c : Conn} {fd : Fd} : TimersOk (s.connected c fd) := by
  apply h.of_heap
  intro c' m map hh ha
  by_cases hcc : c' = c
  · subst hcc
    have hh : some _ = some m := (Function.update_self c' _ s.heap).symm.trans hh
    cases hh
    cases ha.state
  · exact ⟨m, (Function.update_of_ne hcc _ _).symm.trans hh, ha⟩

theorem TimersOk.move (h : TimersOk s) (hw : WF s)
    (hm : Move env (fun s _ map => Harmless s map) s s') : TimersOk s' := by
  cases hm with
  | tick ht => exact h.cascade (.single ht)
  | @data c m hh data =>
    apply h.of_heap
    intro c' m' map hh' ha'
    by_cases hcc : c' = c
    · subst hcc
      have hh' : some _ = some m' := (Function.update_self c' _ s.heap).symm.trans hh'
      cases hh'
      exact ⟨m, hh, ha'.state, ha'.param, ha'.accepts⟩
    · exact ⟨m', (Function.update_of_ne hcc _ _).symm.trans hh', ha'⟩
  | log => exact h
  | @refused _ fd c m map err hl hh hst hr hP hclose =>
    have hexp : TimersOk (s.expelled env fd c m map err) := by
      apply h.of_heap
      intro c' m' map' hh' ha'
      by_cases hcc : c' = c
      · subst hcc
        have hh' : some _ = some m' := (Function.update_self c' _ _).symm.trans hh'
        cases hh'
        have hauth : m.state = .stAuth := ha'.state
        rw [hst] at hauth
        cases hauth
      · exact ⟨m', (heap_expelled hcc).symm.trans hh', ha'⟩
    exact hexp.cascade (refused_cascade hw hl hh hclose)
  | @admitted _ fd c m map _ hl hh hst hr hP hadm =>
    obtain ⟨s1, m1, hcas, hh1, _, _, rfl⟩ := admitClient_ok hadm
    have hid : TimersOk ((s.prepared fd c m map).identified (cdOf map) fd) := by
      apply h.of_heap
      intro c' m' map' hh' ha'
      by_cases hcc : c' = c
      · subst hcc
        have hh' : some _ = some m' := (Function.update_self c' _ _).symm.trans hh'
        cases hh'
        have hauth : m.state = .stAuth := ha'.state
        rw [hst] at hauth
        cases hauth
      · exact ⟨m', (heap_prepared fd hcc).symm.trans hh', ha'⟩
    intro c' m' map' hh' ha'
    by_cases hcc : c' = c
    · subst hcc
      have hh' : some _ = some m' := (Function.update_self c' _ _).symm.trans hh'
      cases hh'
      have hparam := (admitted_param hcas hh1).symm.trans ha'.param
      have hmap : map = map' := congrArg Param.map (Option.some.inj hparam)
      exact hmap ▸ hP.timer hr
    · exact hid.cascade hcas c' m' map' ((heap_authorized hcc).symm.trans hh') ha'

/-- The timer of an accepted connection can be restarted. -/
theorem TimersOk.restart (h : TimersOk s) (hs : Sane none s) {fd : Fd} {c : Conn}
    (hgo : Going fd c s) : ∃ s', restartTimer c s = .ok () s' := by
  obtain ⟨hl, m, hh, hauth⟩ := hgo
  obtain ⟨m', hh', _, ht, _⟩ := hs.wf.live fd c hl
  rw [hh] at hh'
  cases hh'
  rcases hs.settled fd c m hl hh (by simp) with hf | ⟨map, ha⟩
  · have hnew := hf.state
    rw [hauth] at hnew
    cases hnew
  · obtain ⟨ms, hms⟩ := Option.isSome_iff_exists.mp (h c m map hh ha)
    obtain ⟨kp, hkp, hms⟩ := Option.bind_eq_some_iff.mp hms
    exact ⟨_, restartTimer_eq hh ht ha.param hkp hms⟩

end TimersOk

/-- Harmless commands keep the broker sane and its timers good. -/
theorem harmless_move {env : Env} (s s' : St) (hw : WF s) (h : Sane none s ∧ TimersOk s)
    (hm : Move env (fun s _ map => Harmless s map) s s') : Sane none s' ∧ TimersOk s' :=
  ⟨h.1.move (hm.mono fun _ _ _ hP => hP.clean), h.2.move hw hm⟩

theorem harmless_run {env : Env} {evs : List Event} {s : St}
    (hP : CnAlong env (fun s _ map => Harmless s map) evs) (h : run env evs = .ok () s) :
    WF s ∧ Sane none s ∧ TimersOk s :=
  run_invariant (I := fun s => Sane none s ∧ TimersOk s) ⟨.new, by intro c m map h; cases h⟩
    (fun _ _ _ _ h hheap hl => ⟨h.1.connected hheap hl, h.2.connected⟩) harmless_move hP h

/-- **Harmless commands cannot abort the broker.** If every write succeeds and every cn
command of a new connection is harmless, no callback raises. -/
theorem run_harmless {env : Env} (hok : env.AllOk) {evs : List Event}
    (hP : CnAlong env (fun s _ map => Harmless s map) evs) : ∃ s, run env evs = .ok () s := by
  cases hrun : run env evs with
  | ok a s => exact ⟨s, rfl⟩
  | error e s =>
    exfalso
    obtain ⟨pre, ev, post, s1, rfl, hpre, hev⟩ := run_error hrun
    obtain ⟨hw1, hsane, htimers⟩ := harmless_run hP.prefix hpre
    rcases step_tidy hok (fun _ _ _ hP => hP.tidy) hsane (hP.at_step hpre) with
      ⟨s', hstep⟩ | ⟨fd, c, s2, hm, hgo, hstep⟩
    · rw [hstep] at hev
      cases hev
    · -- the timer of an accepted connection is good
      obtain ⟨hsane2, htimers2⟩ := moves_invariant harmless_move hm hw1 ⟨hsane, htimers⟩
      obtain ⟨s3, hrestart⟩ := htimers2.restart hsane2 hgo
      rw [hstep, hrestart] at hev
      cases hev

/-- A client subscribes and publishes, another one sends garbage. -/
def harmlessRun : List Event :=
  [.accept 0 5, .chunk 0 (cnFrame "x" "5" "a" [] ++
      commandFrame [("id", ascii "pb"), ("tp", ascii "a"), ("pl", ascii "z")]),
    .accept 1 6, .chunk 1 (ascii "*1\r\n$x"), .timeout 0]

theorem run_harmless_two : ∃ s, run .calm harmlessRun = .ok () s := by
  refine run_harmless (fun _ _ => rfl) (CnAlong.mono (fun _ _ map h => of_decide_eq_true h)
    (cnAlong_of_check (p := fun s _ map => decide (Harmless s map)) ?_))
  decide +kernel

/-- A cn command without an id; a keepalive of 7, whose period is no whole number of
milliseconds; a topic list that leaves a descriptor behind. -/
theorem aborted_by_input :
    (∃ s, run .calm [.accept 0 5, .chunk 0 (commandFrame [("id", ascii "cn")])] =
      .error .nilKey s) ∧
    (∃ s, run .calm [.accept 0 5, .chunk 0 (cnFrame "x" "7" "a" [])] =
      .error (.badArgument "timer_start") s) ∧
    ∃ s, run .calm (dirtyRun ++ publisherRun) = .error (.assertFailed "do_publish") s := by
  refine ⟨?_, ?_, ?_⟩
  · exact exists_of_raises (by decide +kernel)
  · exact exists_of_raises (by decide +kernel)
  · exact exists_of_raises (by decide +kernel)

end ApApps.Sand

import ApApps.Sand.Moves

/- Events and whole runs of the broker.

   `step_moves`: what an event does is a sequence of moves, or the registration of a
   new connection. `run_invariant` and `run_fault` are the rules for runs: a property
   that new connections and moves preserve holds in every state a run reaches, and
   where a run raises there is a fault in a state that has the property. -/
namespace ApApps.Sand
open Incremental ApApps.Redis Exec

/-- The broker after `on_connection`. -/
def St.connected (s : St) (c : Conn) (fd : Fd) : St where
  heap := Function.update s.heap c (some ⟨fd, [], none, .stNew, true, true⟩)
  clientmap := s.clientmap.insert fd c
  clientid2fd := s.clientid2fd
  topic2client := s.topic2client
  openFds := fd :: s.openFds
  log := s.log ++ [.timerStart c (30 * 1000)]

theorem WF.connected {s : St} (h : WF s) {c : Conn} {fd : Fd} (hheap : s.heap c = none)
    (hl : s.clientmap.lookup fd = none) : WF (s.connected c fd) := by
  have hself : (s.connected c fd).clientmap.lookup fd = some c := AList.lookup_insert _
  have hlookup : ∀ fd', fd' ≠ fd →
      (s.connected c fd).clientmap.lookup fd' = s.clientmap.lookup fd' :=
    fun fd' hne => AList.lookup_insert_ne hne
  refine ⟨?_, ?_, ?_, ?_⟩
  · intro fd' c' hl'
    by_cases hfd : fd' = fd
    · subst hfd
      rw [hself] at hl'
      cases hl'
      exact ⟨_, Function.update_self c _ _, rfl, rfl, rfl⟩
    · rw [hlookup fd' hfd] at hl'
      obtain ⟨m, hm, hrest⟩ := h.live fd' c' hl'
      have hcc : c' ≠ c := by
        rintro rfl
        rw [hheap] at hm
        cases hm
      exact ⟨m, (Function.update_of_ne hcc _ _).trans hm, hrest⟩
  · intro c' m hm hopen
    by_cases hcc : c' = c
    · subst hcc
      have hm : some _ = some m := (Function.update_self c' _ s.heap).symm.trans hm
      cases hm
      exact hself
    · have hm : s.heap c' = some m := (Function.update_of_ne hcc _ _).symm.trans hm
      have hreg := h.registered c' m hm hopen
      rw [hlookup m.fd, hreg]
      intro hfd
      rw [hfd, hl] at hreg
      cases hreg
  · refine List.nodup_cons.mpr ⟨?_, h.nodup⟩
    rw [h.fds]
    rintro ⟨c', hl'⟩
    rw [hl] at hl'
    cases hl'
  · intro fd'
    show fd' ∈ fd :: s.openFds ↔ _
    rw [List.mem_cons, h.fds]
    by_cases hfd : fd' = fd
    · subst hfd
      exact ⟨fun _ => ⟨c, hself⟩, fun _ => .inl rfl⟩
    · rw [hlookup fd' hfd]
      exact or_iff_right hfd

theorem onConnection_eq {s : St} (c : Conn) {fd : Fd} (hl : s.clientmap.lookup fd = none) :
    onConnection c fd s = .ok () { s with
      heap := Function.update s.heap c (some ⟨fd, [], none, .stNew, true, true⟩),
      clientmap := s.clientmap.insert fd c,
      log := s.log ++ [.timerStart c (30 * 1000)] } := by
  unfold onConnection
  rw [bind_of_ok (show (get : M St) s = .ok s s from rfl), if_neg (by simpa using hl)]
  rfl

section Events
variable {env : Env} {P : St → Conn → Fields → Prop}

/-- The broker when the loop of `on_client_data` starts. -/
def St.received (s : St) (c : Conn) (m : Climap) (data : Bytes) : St :=
  (s.logged (.recv c data)).withData c m (m.data ++ data)

/-- The cn commands of new connections dispatched during the event satisfy `P`. -/
def EventOk (env : Env) (P : St → Conn → Fields → Prop) (s : St) : Event → Prop
  | .chunk c data => enabled s (.chunk c data) = true →
      ∀ m, s.heap c = some m → CnOk env P m.fd c (s.received c m data)
  | _ => True

/-- **Every cn command of a new connection in the run satisfies `P`** when it is
dispatched. -/
def CnAlong (env : Env) (P : St → Conn → Fields → Prop) (evs : List Event) : Prop :=
  Along (step env) (EventOk env P) .new evs

theorem EventOk.mono {P' : St → Conn → Fields → Prop} (hPP : ∀ s c map, P s c map → P' s c map)
    {s : St} {ev : Event} (h : EventOk env P s ev) : EventOk env P' s ev := by
  cases ev with
  | chunk c data =>
    exact fun hen m hh => (h hen m hh).mono hPP
  | accept => trivial
  | closed => trivial
  | timeout => trivial

theorem CnAlong.mono {P' : St → Conn → Fields → Prop} (hPP : ∀ s c map, P s c map → P' s c map)
    {evs : List Event} (h : CnAlong env P evs) : CnAlong env P' evs :=
  Along.mono (fun _ _ => EventOk.mono hPP) h

/-- `CnOk`, computed over at most `fuel` turns of the loop. -/
def cnOkCheck (env : Env) (p : St → Conn → Fields → Bool) (fd : Fd) (c : Conn) : Nat → St → Bool
  | 0, _ => false
  | fuel + 1, s =>
    (match s.heap c with
      | none => true
      | some m =>
        match readCommand m.data with
        | .ok (.call .cn map rest) => m.state ≠ .stNew || p (s.called c m rest .cn map) c map
        | _ => true) &&
    (match turn env fd c s with
      | .ok true s' => cnOkCheck env p fd c fuel s'
      | _ => true)

/-- `EventOk`, computed. -/
def eventCheck (env : Env) (p : St → Conn → Fields → Bool) (s : St) : Event → Bool
  | .chunk c data =>
    match s.heap c with
    | none => true
    | some m => cnOkCheck env p m.fd c ((m.data ++ data).length + 1) (s.received c m data)
  | _ => true

/-- `CnAlong`, computed. -/
def cnAlongCheck (env : Env) (p : St → Conn → Fields → Bool) : St → List Event → Bool
  | _, [] => true
  | s, ev :: evs => eventCheck env p s ev &&
    match step env ev s with
    | .ok () s' => cnAlongCheck env p s' evs
    | .error _ _ => true

theorem cnOk_of_check {p : St → Conn → Fields → Bool} {fd : Fd} {c : Conn} {fuel : Nat} {s : St}
    (h : cnOkCheck env p fd c fuel s = true) :
    CnOk env (fun s c map => p s c map = true) fd c s := by
  induction fuel generalizing s with
  | zero => cases h
  | succ fuel ih =>
    rw [cnOkCheck, Bool.and_eq_true] at h
    obtain ⟨hnow, hlater⟩ := h
    intro s1 hs1 m map rest hh hst hread
    rcases Relation.ReflTransGen.cases_head hs1 with rfl | ⟨s2, hturn, hs1⟩
    · simpa [hh, hread, hst] using hnow
    · have hturn : turn env fd c s = .ok true s2 := hturn
      rw [hturn] at hlater
      exact ih hlater s1 hs1 m map rest hh hst hread

theorem eventOk_of_check {p : St → Conn → Fields → Bool} {s : St} {ev : Event}
    (h : eventCheck env p s ev = true) : EventOk env (fun s c map => p s c map = true) s ev := by
  cases ev with
  | chunk c data =>
    intro _ m hh
    simp only [eventCheck, hh] at h
    exact cnOk_of_check h
  | accept => trivial
  | closed => trivial
  | timeout => trivial

theorem cnAlong_of_check {p : St → Conn → Fields → Bool} {evs : List Event}
    (h : cnAlongCheck env p .new evs = true) :
    CnAlong env (fun s c map => p s c map = true) evs := by
  unfold CnAlong
  generalize St.new = s at h ⊢
  induction evs generalizing s with
  | nil => trivial
  | cons ev evs ih =>
    rw [cnAlongCheck, Bool.and_eq_true] at h
    refine ⟨eventOk_of_check h.1, fun s' hs' => ih s' ?_⟩
    have hrest := h.2
    rw [hs'] at hrest
    exact hrest

theorem isOpen_iff {s : St} {c : Conn} :
    s.isOpen c = true ↔ ∃ m, s.heap c = some m ∧ m.client = true := by
  unfold St.isOpen
  cases s.heap c <;> simp

/-- A chunk of an open connection goes through the loop, and the timer is restarted
if the loop runs to its end. -/
theorem handle_chunk_eq {s : St} (hw : WF s) {c : Conn} {m : Climap} (data : Bytes)
    (hh : s.heap c = some m) (hc : m.client = true) :
    handle env (.chunk c data) s =
      (dataLoop env m.fd c (m.data ++ data).length >>= fun fell =>
        if fell then restartTimer c else pure ()) (s.received c m data) := by
  have hl : (s.logged (.recv c data)).clientmap.lookup m.fd = some c :=
    hw.registered c m hh (.inr hc)
  have hh' : (s.logged (.recv c data)).heap c = some m := hh
  rw [handle]
  rw [bind_of_ok (show emit (.recv c data) s = .ok () (s.logged (.recv c data)) from rfl),
    bind_of_ok (climapOf_eq hh')]
  unfold onClientData
  rw [bind_of_ok (assertClient_eq _ hl), bind_of_ok (climapOf_eq hh')]
  exact bind_of_ok (show setClimap c _ _ = .ok () (s.received c m data) from rfl)

theorem Serving.received {s : St} (hw : WF s) {c : Conn} {m : Climap} (data : Bytes)
    (hh : s.heap c = some m) (hc : m.client = true) : Serving m.fd c (s.received c m data) where
  wf := by
    have hlog : WF (s.logged (.recv c data)) := hw.of_eq rfl rfl rfl
    exact hlog.withData _ hh
  climap := ⟨_, Function.update_self c _ _⟩
  only := by
    intro c' hl'
    have hl : s.clientmap.lookup m.fd = some c := hw.registered c m hh (.inr hc)
    have hl' : s.clientmap.lookup m.fd = some c' := hl'
    rw [hl] at hl'
    exact (Option.some.inj hl').symm

theorem moves_received {s : St} {c : Conn} {m : Climap} (data : Bytes) (hh : s.heap c = some m) :
    Moves env P s (s.received c m data) :=
  .tail (.single (.log (.recv c data) rfl))
    (.data (s := s.logged (.recv c data)) hh (m.data ++ data))

/-- A new connection gets a descriptor that is not registered. -/
theorem step_accept (env : Env) {s : St} (hw : WF s) {c : Conn} {fd : Fd}
    (hen : enabled s (.accept c fd) = true) :
    s.heap c = none ∧ s.clientmap.lookup fd = none ∧
      step env (.accept c fd) s = .ok () (s.connected c fd) := by
  obtain ⟨hheap, hfd⟩ : s.heap c = none ∧ fd ∉ s.openFds := by
    simpa [enabled, Option.isNone_iff_eq_none] using hen
  have hl : s.clientmap.lookup fd = none := by
    cases hl : s.clientmap.lookup fd with
    | none => rfl
    | some c' => exact absurd ((hw.fds fd).mpr ⟨c', hl⟩) hfd
  refine ⟨hheap, hl, ?_⟩
  rw [show step env (.accept c fd) s = handle env (.accept c fd) s from if_pos hen, handle]
  exact (bind_of_ok rfl).trans
    (onConnection_eq (s := { s with openFds := fd :: s.openFds }) c hl)

/-- **What an event does.** -/
theorem step_moves {s : St} (hw : WF s) {ev : Event} (hP : EventOk env P s ev) :
    (∃ c fd, ev = .accept c fd ∧ s.heap c = none ∧ s.clientmap.lookup fd = none ∧
        step env ev s = .ok () (s.connected c fd)) ∨
      WithinAt (Moves env P) (Fault env P) (step env ev) s := by
  by_cases hen : enabled s ev = true
  · have hstep : step env ev s = handle env ev s := if_pos hen
    cases ev with
    | accept c fd =>
      obtain ⟨hheap, hl, heq⟩ := step_accept env hw hen
      exact .inl ⟨c, fd, rfl, hheap, hl, heq⟩
    | chunk c data =>
      obtain ⟨hopen, _⟩ : s.isOpen c = true ∧ data ≠ [] := by simpa [enabled] using hen
      obtain ⟨m, hh, hc⟩ := isOpen_iff.mp hopen
      have hs := Serving.received hw data hh hc
      refine .inr (.after moves_trans (moves_received data hh)
        (hstep.trans (handle_chunk_eq hw data hh hc)) ?_)
      refine (moves_dataLoop _ hs (hP hen m hh)).bind moves_trans fun fell s1 _ => ?_
      cases fell with
      | true => exact moves_restartTimer c s1
      | false => exact within_pure (fun _ => .refl) _ s1
    | closed c err =>
      obtain ⟨m, hh, _⟩ := isOpen_iff.mp (show s.isOpen c = true from hen)
      refine .inr (.after moves_trans .refl (hstep.trans ?_)
        (moves_closeClient m.fd (err.getD (ascii "close")) s))
      rw [handle]
      exact bind_of_ok (climapOf_eq hh)
    | timeout c =>
      cases hh : s.heap c with
      | none => simp [enabled, hh] at hen
      | some m =>
        refine .inr (.after moves_trans .refl (hstep.trans ?_)
          (moves_closeClient m.fd (ascii "timeout") s))
        rw [handle]
        exact bind_of_ok (climapOf_eq hh)
  · have hstep : step env ev s = .ok () s := if_neg hen
    exact .inr (withinAt_of_ok hstep .refl)

end Events

/-! ## Runs -/

section Runs
variable {env : Env} {P : St → Conn → Fields → Prop} {I : St → Prop}

theorem moves_invariant (hmove : ∀ s s', WF s → I s → Move env P s s' → I s') {s s' : St}
    (h : Moves env P s s') (hw : WF s) (h0 : I s) : I s' := by
  induction h with
  | refl => exact h0
  | tail h1 h2 ih => exact hmove _ _ (hw.moves h1) ih h2

theorem step_invariant (hconn : ∀ s c fd, WF s → I s → s.heap c = none →
      s.clientmap.lookup fd = none → I (s.connected c fd))
    (hmove : ∀ s s', WF s → I s → Move env P s s' → I s') {s s' : St} {ev : Event}
    (h0 : WF s ∧ I s) (hP : EventOk env P s ev) (h : step env ev s = .ok () s') :
    WF s' ∧ I s' := by
  rcases step_moves h0.1 hP with ⟨c, fd, rfl, hheap, hl, heq⟩ | hwithin
  · rw [heq] at h
    cases h
    exact ⟨h0.1.connected hheap hl, hconn s c fd h0.1 h0.2 hheap hl⟩
  · have hm := hwithin.1 () s' h
    exact ⟨h0.1.moves hm, moves_invariant hmove hm h0.1 h0.2⟩

/-- **The rule for runs that return.** -/
theorem run_invariant (hnew : I .new)
    (hconn : ∀ s c fd, WF s → I s → s.heap c = none → s.clientmap.lookup fd = none →
      I (s.connected c fd))
    (hmove : ∀ s s', WF s → I s → Move env P s s' → I s') {evs : List Event} {s : St}
    (hP : CnAlong env P evs) (h : run env evs = .ok () s) : WF s ∧ I s :=
  Exec.run_invariant (I := fun s => WF s ∧ I s)
    (fun _ _ _ h0 hP h => step_invariant hconn hmove h0 hP h) ⟨WF.new, hnew⟩ hP h

/-- **The rule for runs that raise.** -/
theorem run_fault (hnew : I .new)
    (hconn : ∀ s c fd, WF s → I s → s.heap c = none → s.clientmap.lookup fd = none →
      I (s.connected c fd))
    (hmove : ∀ s s', WF s → I s → Move env P s s' → I s') {evs : List Event} {s' : St}
    {e : LuaError} (hP : CnAlong env P evs) (h : run env evs = .error e s') :
    ∃ s, WF s ∧ I s ∧ Fault env P e s := by
  obtain ⟨pre, ev, post, s1, rfl, hpre, hev⟩ := run_error h
  obtain ⟨hw, hI⟩ := run_invariant hnew hconn hmove hP.prefix hpre
  rcases step_moves hw (hP.at_step hpre) with ⟨c, fd, rfl, hheap, hl, heq⟩ | hwithin
  · rw [heq] at hev
    cases hev
  · obtain ⟨s2, hm, hf⟩ := hwithin.2 e s' hev
    exact ⟨s2, hw.moves hm, moves_invariant hmove hm hw hI, hf⟩

end Runs

/-! ## Concrete runs -/

/-- Every write is accepted, and tables are run through as they were filled. -/
def Env.calm : Env where
  write := fun _ _ => none
  pairs := fun fields => fields
  pairs_perm := fun _ => .refl _
  visit := fun _ fds => fds
  visit_perm := fun _ _ => .refl _

/-- The frame of a command given by its fields. -/
def commandFrame (fields : List (String × Bytes)) : Bytes :=
  match encode (fields.map fun (k, v) => (ascii k, v)) with
  | .ok frame => frame
  | .error _ => []

/-- A cn command with the right version, user name and password. -/
def cnFrame (cd kp tp : String) (more : List (String × Bytes)) : Bytes :=
  commandFrame ([("id", ascii "cn"), ("cd", ascii cd), ("vv", ascii "v0.1"), ("un", brokerUser),
    ("pw", brokerPassword), ("kp", ascii kp), ("tp", ascii tp)] ++ more)

/-- The state the run ends in, if it does not raise, has the property. -/
def endsIn (p : St → Bool) : EStateM.Result LuaError St Unit → Bool
  | .ok _ s => p s
  | .error _ _ => false

theorem exists_of_endsIn {p : St → Bool} {r : EStateM.Result LuaError St Unit}
    (h : endsIn p r = true) : ∃ s, r = .ok () s ∧ p s = true := by
  cases r with
  | ok a s => exact ⟨s, rfl, h⟩
  | error e s => cases h

/-- The run raises `e`. -/
def raises (e : LuaError) : EStateM.Result LuaError St Unit → Bool
  | .ok _ _ => false
  | .error e' _ => e' = e

theorem exists_of_raises {e : LuaError} {r : EStateM.Result LuaError St Unit}
    (h : raises e r = true) : ∃ s, r = .error e s := by
  cases r with
  | ok a s => cases h
  | error e' s =>
    have he : e' = e := by simpa [raises] using h
    exact ⟨s, by rw [he]⟩

/-- The run raises `e`, in a state that has the property. -/
def raisesIn (e : LuaError) (p : St → Bool) : EStateM.Result LuaError St Unit → Bool
  | .ok _ _ => false
  | .error e' s => e' = e && p s

theorem exists_of_raisesIn {e : LuaError} {p : St → Bool} {r : EStateM.Result LuaError St Unit}
    (h : raisesIn e p r = true) : ∃ s, r = .error e s ∧ p s = true := by
  cases r with
  | ok a s => cases h
  | error e' s =>
    have he : e' = e ∧ p s = true := by simpa [raisesIn] using h
    exact ⟨s, by rw [he.1], he.2⟩

end ApApps.Sand

import ApApps.Sand.Runs

/- When a chunk restarts the keepalive timer of its connection.

   The restart stands after the loop of `on_client_data`, and the loop has two exits
   that pass it by: one for an error, which closes the connection, and one for a frame
   that is not whole yet. So commands that have been handled restart the timer if the
   buffer ends with the last of them (`Whole`), and not if the beginning of another
   frame follows.

   `Undisturbed` is what every command keeps: it starts no timer and leaves the buffer
   of the connection alone. `dataLoop_whole` follows the loop with it. -/
namespace ApApps.Sand
open Incremental ApApps.Redis Exec

/-- The buffer is a sequence of whole frames. -/
def Whole (data : Bytes) : Prop :=
  drainAll redisParseReady (fun (_ : Unit) _ => (Flow.next () : Incremental.Flow Unit Unit)) () data = .waiting () []

def Out.isTimerStart : Out → Bool
  | .timerStart _ _ => true
  | _ => false

/-- The periods with which the timer of `c` is started. -/
def startsOf (c : Conn) (outs : List Out) : List Int :=
  outs.filterMap fun
    | .timerStart c' ms => if c' = c then some ms else none
    | _ => none

def Out.isDispatchOf (c : Conn) : Out → Bool
  | .dispatch c' _ _ => c' = c
  | _ => false

/-- A command of `c` is dispatched. -/
def Dispatched (c : Conn) (outs : List Out) : Prop := ∃ o ∈ outs, o.isDispatchOf c = true

/-- What has been done since `s`. -/
def St.since (s' s : St) : List Out := s'.log.drop s.log.length

theorem startsOf_nil_of {c : Conn} {outs : List Out} (h : ∀ o ∈ outs, o.isTimerStart = false) :
    startsOf c outs = [] := by
  unfold startsOf
  rw [List.filterMap_eq_nil_iff]
  intro o ho
  have := h o ho
  cases o with
  | timerStart => cases this
  | write | closeTimer | closeClient | timerStop | recv | dispatch => rfl

/-- A frame in front of the buffer does not matter. -/
theorem whole_drop {data : Bytes} {p : Nat} (h : redisParseReady data = .done p) :
    Whole data ↔ Whole (data.drop p) := by
  have hne : data ≠ [] := by
    rintro rfl
    cases h
  unfold Whole
  rw [drainAll_step stableVerdict_redisParseReady () hne, h]

theorem not_whole_of_incomplete {data : Bytes} (hne : data ≠ []) (h : redisParseReady data = .incomplete) :
    ¬Whole data := by
  unfold Whole
  rw [drainAll_step stableVerdict_redisParseReady () hne, h]
  simpa using hne

/-! ## What a command keeps -/

section Commands
variable {env : Env} {s s1 s2 s3 s' : St} {fd : Fd} {c : Conn} {m : Climap}

/-- No timer is started, and the climap of `c` keeps its descriptor and its buffer. -/
structure Undisturbed (c : Conn) (s s' : St) : Prop where
  log : ∃ outs, s'.log = s.log ++ outs ∧ ∀ o ∈ outs, o.isTimerStart = false
  climap : ∀ m, s.heap c = some m → ∃ m', s'.heap c = some m' ∧ m'.fd = m.fd ∧ m'.data = m.data ∧
    (m'.client = true → m.client = true) ∧ (m.state = .stAuth → m'.state = .stAuth)

theorem Undisturbed.of_heap (hlog : ∃ outs, s'.log = s.log ++ outs ∧ ∀ o ∈ outs, o.isTimerStart = false)
    (hheap : s'.heap c = s.heap c) : Undisturbed c s s' where
  log := hlog
  climap := fun m hm => ⟨m, hheap.trans hm, rfl, rfl, id, id⟩

theorem Undisturbed.refl : Undisturbed c s s := .of_heap ⟨[], by simp, by simp⟩ rfl

theorem Undisturbed.trans (h : Undisturbed c s1 s2) (h' : Undisturbed c s2 s3) : Undisturbed c s1 s3 where
  log := by
    obtain ⟨o, hlog, ho⟩ := h.log
    obtain ⟨o', hlog', ho'⟩ := h'.log
    refine ⟨o ++ o', by rw [hlog', hlog, List.append_assoc], ?_⟩
    intro x hx
    rcases List.mem_append.mp hx with hx | hx
    · exact ho x hx
    · exact ho' x hx
  climap := by
    intro m hm
    obtain ⟨m1, h1, hfd1, hd1, hc1, ha1⟩ := h.climap m hm
    obtain ⟨m2, h2, hfd2, hd2, hc2, ha2⟩ := h'.climap m1 h1
    exact ⟨m2, h2, hfd2.trans hfd1, hd2.trans hd1, fun hc => hc1 (hc2 hc), fun ha => ha2 (ha1 ha)⟩

theorem undisturbed_wrote (msg : Msg) (frame : Bytes) (c' : Conn) : Undisturbed c s (s.wrote env c' msg frame) :=
  .of_heap ⟨_, rfl, by simp [Out.isTimerStart]⟩ rfl

theorem undisturbed_shut {c' : Conn} (hh : s.heap c' = some m) : Undisturbed c s (s.shut fd c' m) where
  log := ⟨_, rfl, by simp [Out.isTimerStart]⟩
  climap := by
    intro m0 hm
    by_cases hc : c = c'
    · subst hc
      rw [hh] at hm
      cases hm
      exact ⟨_, Function.update_self c _ _, rfl, rfl, fun h => (by cases h), id⟩
    · exact ⟨m0, (Function.update_of_ne hc _ _).trans hm, rfl, rfl, id, id⟩

theorem undisturbed_cascade (h : Cascade env s s') : Undisturbed c s s' := by
  induction h with
  | refl => exact .refl
  | tail _ htick ih =>
    cases htick with
    | deliver => exact ih.trans (undisturbed_wrote _ _ _)
    | shut _ hh => exact ih.trans (undisturbed_shut hh)

theorem undisturbed_closeClient {err : Bytes} (h : closeClient env fd err s = .ok () s') : Undisturbed c s s' :=
  undisturbed_cascade ((cascade_closeClient fd err s).1 _ _ h)

/-- A climap with other parameters, or a later state, is the same to the loop. -/
theorem undisturbed_update {m' : Climap} (hh : s.heap c = some m)
    (hheap : s'.heap = Function.update s.heap c (some m')) (hlog : s'.log = s.log) (hfd : m'.fd = m.fd)
    (hdata : m'.data = m.data) (hclient : m'.client = m.client)
    (hauth : m.state = .stAuth → m'.state = .stAuth) : Undisturbed c s s' where
  log := ⟨[], by simp [hlog], by simp⟩
  climap := by
    intro m0 hm
    rw [hh] at hm
    cases hm
    refine ⟨m', ?_, hfd, hdata, fun h => hclient ▸ h, hauth⟩
    rw [hheap]
    exact Function.update_self c _ _

/-- What a command does to the loop: nothing, and one that succeeds is of an accepted
connection. -/
structure Served (c : Conn) (r : Option Bytes) (s s' : St) : Prop where
  undisturbed : Undisturbed c s s'
  accepted : r = none → ∃ m, s'.heap c = some m ∧ m.state = .stAuth

theorem served_failed {err : Bytes} (h : Undisturbed c s s') : Served c (some err) s s' :=
  ⟨h, fun h => by cases h⟩

/-- A command that only an accepted connection may send. -/
theorem served_accepted (hh : s.heap c = some m) (ha : m.state = .stAuth) (h : Undisturbed c s s')
    (r : Option Bytes) : Served c r s s' := by
  refine ⟨h, fun _ => ?_⟩
  obtain ⟨m', hh', _, _, _, hauth⟩ := h.climap m hh
  exact ⟨m', hh', hauth ha⟩

theorem served_pb {map : Fields} {r : Option Bytes} (hl : s.clientmap.lookup fd = some c) (hh : s.heap c = some m)
    (h : pb env fd map s = .ok r s') : Served c r s s' := by
  unfold pb at h
  rw [bind_of_ok (assertClient_eq _ hl), bind_of_ok (climapOf_eq hh)] at h
  by_cases ha : m.state = .stAuth
  · rw [if_neg (not_not.mpr ha)] at h
    cases htp : map.get "tp" with
    | none =>
      simp only [htp] at h
      cases h
      exact served_failed .refl
    | some topic =>
      cases hpl : map.get "pl" with
      | none =>
        simp only [htp, hpl] at h
        cases h
        exact served_failed .refl
      | some payload =>
        simp only [htp, hpl] at h
        obtain ⟨_, s1, hpub, hr⟩ := bind_eq_ok.mp h
        cases hr
        exact served_accepted hh ha (undisturbed_cascade ((cascade_doPublish topic payload s).1 _ _ hpub)) none
  · rw [if_pos ha] at h
    cases h
    exact served_failed .refl

theorem served_pi {r : Option Bytes} (hl : s.clientmap.lookup fd = some c) (hh : s.heap c = some m)
    (h : pi env fd s = .ok r s') : Served c r s s' := by
  unfold pi at h
  rw [bind_of_ok (assertClient_eq _ hl), bind_of_ok (climapOf_eq hh)] at h
  by_cases ha : m.state = .stAuth
  · rw [if_neg (not_not.mpr ha), bind_of_ok (buildQuery_eq env .po s)] at h
    obtain ⟨_, s1, hw, hr⟩ := bind_eq_ok.mp h
    obtain ⟨_, _, rfl⟩ := uvWrite_ok hw
    cases hr
    exact served_accepted hh ha (undisturbed_wrote _ _ _) none
  · rw [if_pos ha] at h
    cases h
    exact served_failed .refl

theorem served_dc {r : Option Bytes} (h : dc env fd s = .ok r s') : Served c r s s' := by
  unfold dc at h
  obtain ⟨_, s1, hclose, hr⟩ := bind_eq_ok.mp h
  cases hr
  exact served_failed (undisturbed_closeClient hclose)

theorem undisturbed_prepared (hh : s.heap c = some m) (map : Fields) : Undisturbed c s (s.prepared fd c m map) :=
  undisturbed_update hh rfl rfl rfl rfl rfl id

theorem served_cn (hw : WF s) {map : Fields} {r : Option Bytes} (hl : s.clientmap.lookup fd = some c)
    (hh : s.heap c = some m) (h : cn env fd map s = .ok r s') : Served c r s s' := by
  obtain ⟨m', hh', _, _, hc⟩ := hw.live fd c hl
  rw [hh] at hh'
  cases hh'
  cases hst : m.state with
  | stAuth =>
    rw [cn_again env map hl hh hst, refuse_eq _ hh hc] at h
    cases h
    exact served_failed (undisturbed_wrote _ _ _)
  | stNew =>
    have hprep : Undisturbed c s (s.prepared fd c m map) := undisturbed_prepared hh map
    have hself : (s.prepared fd c m map).heap c = some { m with param := some (cnParam map) } :=
      Function.update_self c _ _
    rw [cn_new env map hl hh hst] at h
    cases hr : refusal s map with
    | some err =>
      simp only [hr] at h
      rw [refuse_eq err hself hc] at h
      cases h
      exact served_failed (hprep.trans (undisturbed_wrote _ _ _))
    | none =>
      simp only [hr] at h
      obtain ⟨s1, m1, hcas, hh1, _, _, rfl⟩ := admitClient_ok h
      have hid : Undisturbed c (s.prepared fd c m map) ((s.prepared fd c m map).identified (cdOf map) fd) :=
        .of_heap ⟨[], by simp [St.identified], by simp⟩ rfl
      have hauth : Undisturbed c s1 (s1.authorized c m1) :=
        undisturbed_update hh1 rfl rfl rfl rfl rfl fun _ => rfl
      refine ⟨hprep.trans (hid.trans ((undisturbed_cascade hcas).trans (hauth.trans (undisturbed_wrote _ _ _)))), ?_⟩
      exact fun _ => ⟨_, Function.update_self c _ _, rfl⟩

/-- **What a command does to the loop.** -/
theorem served_command (hs : Serving fd c s) {map : Fields} {cmd : Cmd} {r : Option Bytes}
    (h : command env fd map cmd s = .ok r s') : Served c r s s' := by
  obtain ⟨m, hh⟩ := hs.climap
  cases hl : s.clientmap.lookup fd with
  | some c' =>
    obtain rfl := hs.only c' hl
    cases cmd with
    | cn => exact served_cn hs.wf hl hh h
    | dc => exact served_dc h
    | pb => exact served_pb hl hh h
    | pi => exact served_pi hl hh h
  | none =>
    -- the connection is gone: only dc does not raise
    cases cmd with
    | dc => exact served_dc h
    | cn =>
      have hraise : cn env fd map s = .error (.assertFailed "cn") s := by
        unfold cn
        exact bind_of_error (assertClient_none _ hl)
      rw [show command env fd map .cn s = cn env fd map s from rfl, hraise] at h
      cases h
    | pb =>
      have hraise : pb env fd map s = .error (.assertFailed "pb") s := by
        unfold pb
        exact bind_of_error (assertClient_none _ hl)
      rw [show command env fd map .pb s = pb env fd map s from rfl, hraise] at h
      cases h
    | pi =>
      have hraise : pi env fd s = .error (.assertFailed "pi") s := by
        unfold pi
        exact bind_of_error (assertClient_none _ hl)
      rw [show command env fd map .pi s = pi env fd s from rfl, hraise] at h
      cases h

/-- `close_client` leaves nothing registered under the descriptor. -/
theorem lookup_closeClient {err : Bytes} (h : closeClient env fd err s = .ok () s') :
    s'.clientmap.lookup fd = none := by
  cases hl : s.clientmap.lookup fd with
  | none =>
    rw [closeClient_eq, closeClientWith_none _ err hl] at h
    cases h
    exact hl
  | some c' =>
    by_cases hopen : ∃ m, s.heap c' = some m ∧ m.timer = true ∧ m.client = true
    · obtain ⟨m, hh, ht, hc⟩ := hopen
      have hcas := (closeClient_live hl hh ht hc h).1
      cases hl' : s'.clientmap.lookup fd with
      | none => rfl
      | some c1 =>
        have hshut : (s.clientmap.erase fd).lookup fd = some c1 := hcas.lookup_of hl'
        rw [AList.lookup_erase] at hshut
        cases hshut
    · have hbad : ∀ m, s.heap c' = some m → m.timer = false ∨ m.client = false := by
        intro m hh
        by_contra hne
        rw [not_or, Bool.not_eq_false, Bool.not_eq_false] at hne
        exact hopen ⟨m, hh, hne.1, hne.2⟩
      obtain ⟨e, s1, hraise⟩ := closeClientWith_bad fd err hl hbad
      rw [closeClient_eq, hraise] at h
      cases h

/-- Whatever the loop closes the connection for, it is closed then. -/
theorem closed_by_closeClient {err : Bytes} (hw : WF s') (hh : s.heap c = some m) (hfd : m.fd = fd)
    (h : closeClient env fd err s = .ok () s') : ∃ m', s'.heap c = some m' ∧ m'.client = false := by
  obtain ⟨m', hh', hfd', _⟩ := (undisturbed_closeClient (c := c) h).climap m hh
  refine ⟨m', hh', ?_⟩
  cases hc : m'.client with
  | false => rfl
  | true =>
    have hreg := hw.registered c m' hh' (.inr hc)
    rw [hfd', hfd, lookup_closeClient h] at hreg
    cases hreg

end Commands

/-! ## The loop -/

section Loop
variable {env : Env} {s s' : St} {fd : Fd} {c : Conn} {m : Climap}

/-- The loop, on the buffer of `m`, ended in `s'`; `b` says whether it ran to its end. -/
structure Looped (c : Conn) (m : Climap) (b : Bool) (s s' : St) (outs : List Out) : Prop where
  log : s'.log = s.log ++ outs
  quiet : ∀ o ∈ outs, o.isTimerStart = false
  fell : b = true → m.data = [] ∨ Dispatched c outs
  ended : ∃ m', s'.heap c = some m' ∧ (m'.client = true →
    (b = true ↔ Whole m.data) ∧ (m.state = .stAuth ∨ Dispatched c outs → m'.state = .stAuth))

/-- The loop stopped for something it closed the connection for. -/
theorem Looped.of_closed {outs : List Out} (hlog : s'.log = s.log ++ outs)
    (hquiet : ∀ o ∈ outs, o.isTimerStart = false) (hclosed : ∃ m', s'.heap c = some m' ∧ m'.client = false) :
    Looped c m false s s' outs where
  log := hlog
  quiet := hquiet
  fell := fun h => by cases h
  ended := by
    obtain ⟨m', hh', hc⟩ := hclosed
    refine ⟨m', hh', fun h => ?_⟩
    rw [hc] at h
    cases h

theorem readCommand_wait {data : Bytes} (h : readCommand data = .ok .wait) :
    redisParseReady data = .incomplete := by
  unfold readCommand at h
  cases hr : redisParseReady data with
  | incomplete => rfl
  | invalid =>
    rw [hr] at h
    cases h
  | done p =>
    rw [hr] at h
    simp only [bind, Except.bind] at h
    split at h
    · cases h
    · split at h
      · cases h
      · split at h
        · cases h
        · split at h
          · cases h
          · split at h <;> cases h

/-- The buffer was empty: the loop has nothing to do. -/
theorem Looped.of_nil (hh : s.heap c = some m) (hnil : m.data = []) : Looped c m true s s [] where
  log := by simp
  quiet := by simp
  fell := fun _ => .inl hnil
  ended := by
    refine ⟨m, hh, fun _ => ⟨?_, ?_⟩⟩
    · have hwhole : Whole m.data := by
        rw [hnil]
        exact drainAll_nil ()
      simpa using hwhole
    · rintro (ha | ⟨_, hmem, _⟩)
      · exact ha
      · cases hmem

/-- A command has been handled in a turn of the loop that goes on. -/
structure Handled (c : Conn) (m : Climap) (s s' : St) (outs : List Out) (p : Nat) (m1 : Climap) : Prop where
  frame : redisParseReady m.data = .done p
  log : s'.log = s.log ++ outs
  quiet : ∀ o ∈ outs, o.isTimerStart = false
  dispatched : Dispatched c outs
  climap : s'.heap c = some m1
  fd : m1.fd = m.fd
  data : m1.data = m.data.drop p
  state : m1.state = .stAuth

/-- The rest of the loop after a command. -/
theorem Handled.looped {outs outs2 : List Out} {p : Nat} {m1 : Climap} {s1 : St} {b : Bool}
    (h : Handled c m s s1 outs p m1) (hl : Looped c m1 b s1 s' outs2) : Looped c m b s s' (outs ++ outs2) where
  log := by rw [hl.log, h.log, List.append_assoc]
  quiet := by
    intro o ho
    rcases List.mem_append.mp ho with ho | ho
    · exact h.quiet o ho
    · exact hl.quiet o ho
  fell := by
    obtain ⟨o, hmem, ho⟩ := h.dispatched
    exact fun _ => .inr ⟨o, List.mem_append_left _ hmem, ho⟩
  ended := by
    obtain ⟨m', hh', hopen⟩ := hl.ended
    refine ⟨m', hh', fun hc => ?_⟩
    obtain ⟨hb, hauth⟩ := hopen hc
    refine ⟨?_, fun _ => hauth (.inl h.state)⟩
    rw [hb, whole_drop h.frame, h.data]

/-- A turn of the loop: it waits, closes the connection, or has handled a command. -/
theorem turn_whole (hs : Serving fd c s) (hh : s.heap c = some m) (hfd : m.fd = fd) (hne : m.data ≠ [])
    {b : Bool} (h : turn env fd c s = .ok b s') :
    (b = false ∧ ∃ outs, Looped c m false s s' outs) ∨ (b = true ∧ ∃ outs p m1, Handled c m s s' outs p m1) := by
  have hmoves := (moves_turn (P := fun _ _ _ => True) hs fun _ _ _ _ _ _ _ _ => trivial).1 _ _ h
  have hw := (hs.moves hmoves).wf
  unfold turn at h
  rw [bind_of_ok (climapOf_eq hh)] at h
  obtain ⟨next, hnext⟩ := readCommand_total m.data
  rw [hnext] at h
  cases next with
  | wait =>
    cases h
    have hinc := readCommand_wait hnext
    refine .inl ⟨rfl, [], ?_⟩
    refine ⟨by simp, by simp, fun h => (by cases h), m, hh, fun _ => ⟨?_, ?_⟩⟩
    · have := not_whole_of_incomplete hne hinc
      simpa using this
    · rintro (ha | ⟨_, hmem, _⟩)
      · exact ha
      · cases hmem
  | refuse rest err =>
    simp only at h
    rw [bind_of_ok (setData_eq rest hh)] at h
    obtain ⟨_, s1, hclose, hr⟩ := bind_eq_ok.mp h
    cases hr
    have hself : (s.withData c m rest).heap c = some { m with data := rest } := Function.update_self c _ _
    obtain ⟨outs, hlog, hquiet⟩ := (undisturbed_closeClient (c := c) hclose).log
    exact .inl ⟨rfl, outs, .of_closed hlog hquiet (closed_by_closeClient hw hself hfd hclose)⟩
  | call cmd map rest =>
    simp only at h
    rw [bind_of_ok (setData_eq rest hh),
      bind_of_ok (show emit (.dispatch c cmd map) (s.withData c m rest) = .ok () (s.called c m rest cmd map) from rfl)]
      at h
    unfold handleCommand at h
    obtain ⟨r, s1, hcmd, hr⟩ := bind_eq_ok.mp h
    have hcall : Moves env (fun _ _ _ => True) s (s.called c m rest cmd map) :=
      .tail (.single (.data hh rest)) (.log _ rfl)
    have hself : (s.called c m rest cmd map).heap c = some { m with data := rest } := Function.update_self c _ _
    have hserved := served_command (hs.moves hcall) hcmd
    obtain ⟨outs, hlog, hquiet⟩ := hserved.undisturbed.log
    obtain ⟨m1, hh1, hfd1, hdata1, _, _⟩ := hserved.undisturbed.climap _ hself
    have hlog1 : s1.log = s.log ++ (.dispatch c cmd map :: outs) := by
      rw [hlog, show (s.called c m rest cmd map).log = s.log ++ [.dispatch c cmd map] from rfl, List.append_assoc]
      rfl
    have hquiet1 : ∀ o ∈ Out.dispatch c cmd map :: outs, o.isTimerStart = false := by
      intro o ho
      rcases List.mem_cons.mp ho with rfl | ho
      · rfl
      · exact hquiet o ho
    cases r with
    | some err =>
      obtain ⟨_, s2, hclose, hr⟩ := bind_eq_ok.mp hr
      cases hr
      obtain ⟨outs2, hlog2, hquiet2⟩ := (undisturbed_closeClient (c := c) hclose).log
      refine .inl ⟨rfl, .dispatch c cmd map :: outs ++ outs2, .of_closed ?_ ?_
        (closed_by_closeClient hw hh1 (hfd1.trans hfd) hclose)⟩
      · rw [hlog2, hlog1, List.append_assoc]
      · intro o ho
        rcases List.mem_append.mp ho with ho | ho
        · exact hquiet1 o ho
        · exact hquiet2 o ho
    | none =>
      cases hr
      obtain ⟨p, hready, _, _, hrest⟩ := readCommand_call hnext
      obtain ⟨m2, hh2, hauth⟩ := hserved.accepted rfl
      rw [hh1] at hh2
      cases hh2
      exact .inr ⟨rfl, .dispatch c cmd map :: outs, p, m1, hready, hlog1, hquiet1,
        ⟨_, List.mem_cons_self, decide_eq_true rfl⟩, hh1, hfd1, hdata1.trans hrest, hauth⟩

/-- **The loop**: it runs to its end, if the connection is open then, exactly if the
buffer is a sequence of whole frames. -/
theorem dataLoop_whole (fuel : Nat) (hs : Serving fd c s) (hh : s.heap c = some m) (hfd : m.fd = fd)
    (hfuel : m.data.length ≤ fuel) {b : Bool} (h : dataLoop env fd c fuel s = .ok b s') :
    ∃ outs, Looped c m b s s' outs := by
  induction fuel generalizing s m with
  | zero =>
    cases h
    exact ⟨[], .of_nil hh (List.eq_nil_of_length_eq_zero (by omega))⟩
  | succ fuel ih =>
    unfold dataLoop at h
    rw [bind_of_ok (climapOf_eq hh)] at h
    by_cases hnil : m.data = []
    · rw [if_pos hnil] at h
      cases h
      exact ⟨[], .of_nil hh hnil⟩
    · rw [if_neg hnil] at h
      obtain ⟨b1, s1, hturn, hrest⟩ := bind_eq_ok.mp h
      have hs1 := hs.moves ((moves_turn (P := fun _ _ _ => True) hs fun _ _ _ _ _ _ _ _ => trivial).1 _ _ hturn)
      rcases turn_whole hs hh hfd hnil hturn with ⟨rfl, outs, hlooped⟩ | ⟨rfl, outs, p, m1, hdone⟩
      · cases hrest
        exact ⟨outs, hlooped⟩
      · have hp := stableVerdict_redisParseReady.ready_pos hdone.frame
        have hlt : m1.data.length ≤ fuel := by
          rw [hdone.data, List.length_drop]
          omega
        obtain ⟨outs2, hlooped⟩ := ih hs1 hdone.climap (hdone.fd.trans hfd) hlt hrest
        exact ⟨outs ++ outs2, hdone.looped hlooped⟩

end Loop

/-! ## Chunks -/

/-- What `c` has sent that has not been read yet. -/
def St.dataOf (s : St) (c : Conn) : Bytes := ((s.heap c).map Climap.data).getD []

/-- The timer of `c`, an accepted connection, has been restarted once, with the period its cn
command gives. -/
def Restarted (c : Conn) (s : St) (outs : List Out) : Prop :=
  ∃ m param kp ms, s.heap c = some m ∧ m.state = .stAuth ∧ m.param = some param ∧ param.kp = some kp ∧
    timerMs kp = some ms ∧ startsOf c outs = [ms]

theorem startsOf_append (c : Conn) (o o' : List Out) : startsOf c (o ++ o') = startsOf c o ++ startsOf c o' :=
  List.filterMap_append

/-- Every run keeps the handles and descriptors in order. -/
theorem wf_of_run {env : Env} {evs : List Event} {s : St} (h : run env evs = .ok () s) : WF s :=
  (run_invariant (P := fun _ _ _ => True) (I := fun _ => True) trivial (fun _ _ _ _ _ _ _ => trivial)
    (fun _ _ _ _ _ => trivial)
    ((along_true evs).mono fun _ ev _ => by cases ev <;> simp [EventOk, CnOk]) h).1

/-- After the loop: the timer is restarted, or the call returns. -/
theorem restarted_of_looped {c : Conn} {m : Climap} {b : Bool} {s s1 s' : St} {outs : List Out}
    (hl : Looped c m b s s1 outs) (hne : m.data ≠ [])
    (h : (if b then restartTimer c else pure ()) s1 = .ok () s') :
    ∃ outs', s'.log = s.log ++ outs' ∧
      (Dispatched c outs' → s'.isOpen c = true → (Restarted c s' outs' ↔ Whole m.data)) ∧
      (¬Dispatched c outs' → startsOf c outs' = []) := by
  obtain ⟨m', hh', hopen⟩ := hl.ended
  cases b with
  | false =>
    cases h
    refine ⟨outs, hl.log, ?_, fun _ => startsOf_nil_of hl.quiet⟩
    intro _ ho
    obtain ⟨m1, hh1, hc1⟩ := isOpen_iff.mp ho
    rw [hh'] at hh1
    cases hh1
    have hnot : ¬Whole m.data := fun hw => by cases (hopen hc1).1.mpr hw
    refine iff_of_false ?_ hnot
    rintro ⟨_, _, _, ms, _, _, _, _, _, hstarts⟩
    rw [startsOf_nil_of hl.quiet] at hstarts
    cases hstarts
  | true =>
    obtain ⟨m1, param, kp, ms, hh1, _, hparam, hkp, hms, rfl⟩ := restartTimer_ok h
    rw [hh'] at hh1
    cases hh1
    have hd : Dispatched c outs := (hl.fell rfl).resolve_left hne
    have hstarts : startsOf c (outs ++ [.timerStop c, .timerStart c ms]) = [ms] := by
      rw [startsOf_append, startsOf_nil_of hl.quiet]
      simp [startsOf]
    refine ⟨outs ++ [.timerStop c, .timerStart c ms], ?_, ?_, ?_⟩
    · show s1.log ++ [.timerStop c] ++ [.timerStart c ms] = _
      rw [hl.log]
      simp
    · intro _ ho
      obtain ⟨m2, hh2, hc2⟩ := isOpen_iff.mp ho
      have hh2 : s1.heap c = some m2 := hh2
      rw [hh'] at hh2
      cases hh2
      obtain ⟨hb, hauth⟩ := hopen hc2
      exact iff_of_true ⟨m', param, kp, ms, hh', hauth (.inr hd), hparam, hkp, hms, hstarts⟩ (hb.mp rfl)
    · obtain ⟨o, hmem, ho⟩ := hd
      exact fun hn => absurd ⟨o, List.mem_append_left _ hmem, ho⟩ hn

/-- **When a chunk restarts the timer.** If a chunk completes a command and leaves the
connection open, the timer has been restarted exactly if the chunk ends with a frame; a
chunk that completes no command does not restart it. -/
theorem restarted_iff_whole {env : Env} {evs : List Event} {s s' : St} {c : Conn} {data : Bytes}
    (hrun : run env evs = .ok () s) (hstep : step env (.chunk c data) s = .ok () s') :
    (Dispatched c (s'.since s) → s'.isOpen c = true →
        (Restarted c s' (s'.since s) ↔ Whole (s.dataOf c ++ data))) ∧
      (¬Dispatched c (s'.since s) → startsOf c (s'.since s) = []) := by
  have hw := wf_of_run hrun
  by_cases hen : enabled s (.chunk c data) = true
  · rw [show step env (.chunk c data) s = handle env (.chunk c data) s from if_pos hen] at hstep
    obtain ⟨hopen, hdata⟩ : s.isOpen c = true ∧ data ≠ [] := by simpa [enabled] using hen
    obtain ⟨m, hh, hc⟩ := isOpen_iff.mp hopen
    rw [handle_chunk_eq hw data hh hc] at hstep
    obtain ⟨b, s1, hloop, hrest⟩ := bind_eq_ok.mp hstep
    have hself : (s.received c m data).heap c = some { m with data := m.data ++ data } := Function.update_self c _ _
    obtain ⟨outs, hl⟩ := dataLoop_whole _ (.received hw data hh hc) hself rfl (Nat.le_refl _) hloop
    have hne : m.data ++ data ≠ [] := by simp [hdata]
    obtain ⟨outs', hlog, hwhole, hnone⟩ := restarted_of_looped hl hne hrest
    have hsince : s'.since s = .recv c data :: outs' := by
      have hlog' : s'.log = s.log ++ .recv c data :: outs' := by
        rw [hlog, show (s.received c m data).log = s.log ++ [.recv c data] from rfl, List.append_assoc]
        rfl
      rw [St.since, hlog', List.drop_left]
    have hd : Dispatched c (.recv c data :: outs') ↔ Dispatched c outs' := by
      simp [Dispatched, Out.isDispatchOf]
    have hbuf : s.dataOf c = m.data := by simp [St.dataOf, hh]
    rw [hsince, hd, hbuf]
    exact ⟨hwhole, hnone⟩
  · rw [show step env (.chunk c data) s = .ok () s from if_neg hen] at hstep
    cases hstep
    have hsince : s.since s = [] := by simp [St.since]
    rw [hsince]
    refine ⟨?_, fun _ => rfl⟩
    rintro ⟨_, hmem, _⟩
    cases hmem

/-- A client has connected, with a keepalive of five seconds. -/
def busyRun : List Event := [.accept 0 5, .chunk 0 (cnFrame "x" "5" "a" [])]

/-- A ping, and the first byte of the next one. -/
def busyChunk : Bytes := commandFrame [("id", ascii "pi")] ++ ascii "*"

/-- The chunk is handled, dispatches a command and leaves the connection open; the timer
is not started. -/
def busyCheck (s : St) : Bool :=
  match step .calm (.chunk 0 busyChunk) s with
  | .ok _ s' => (s'.since s).any (Out.isDispatchOf 0) && s'.isOpen 0 && decide (startsOf 0 (s'.since s) = [])
  | .error _ _ => false

theorem restarted_iff_whole_busy : ∃ s s', run .calm busyRun = .ok () s ∧
    step .calm (.chunk 0 busyChunk) s = .ok () s' ∧
    (Dispatched 0 (s'.since s) → s'.isOpen 0 = true →
        (Restarted 0 s' (s'.since s) ↔ Whole (s.dataOf 0 ++ busyChunk))) ∧
      (¬Dispatched 0 (s'.since s) → startsOf 0 (s'.since s) = []) := by
  obtain ⟨s, hrun, hs⟩ := exists_of_endsIn (p := busyCheck) (r := run .calm busyRun) (by decide +kernel)
  unfold busyCheck at hs
  cases hstep : step .calm (.chunk 0 busyChunk) s with
  | error e s' =>
    rw [hstep] at hs
    cases hs
  | ok u s' => exact ⟨s, s', hrun, hstep, restarted_iff_whole hrun hstep⟩

/-- A client that sends a ping and a byte more is open, and its timer runs on. -/
theorem busy_not_restarted : ∃ s s', run .calm busyRun = .ok () s ∧
    step .calm (.chunk 0 busyChunk) s = .ok () s' ∧ Dispatched 0 (s'.since s) ∧ s'.isOpen 0 = true ∧
    ¬Restarted 0 s' (s'.since s) := by
  obtain ⟨s, hrun, hs⟩ := exists_of_endsIn (p := busyCheck) (r := run .calm busyRun) (by decide +kernel)
  unfold busyCheck at hs
  cases hstep : step .calm (.chunk 0 busyChunk) s with
  | error e s' =>
    rw [hstep] at hs
    cases hs
  | ok u s' =>
    simp only [hstep, Bool.and_eq_true, decide_eq_true_eq] at hs
    refine ⟨s, s', hrun, hstep, List.any_eq_true.mp hs.1.1, hs.1.2, ?_⟩
    rintro ⟨_, _, _, ms, _, _, _, _, _, hstarts⟩
    rw [hs.2] at hstarts
    cases hstarts

end ApApps.Sand

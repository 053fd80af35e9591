import ApApps.Sand.CalmTurn

/- When every `uv.write` succeeds, a callback of a broker in order raises for two
   reasons only: a cn command is refused that carries no id or a topic list that
   leaves a descriptor behind, or the timer cannot be restarted. `step_tidy` says that
   the second is the only one left once the refused commands are `Tidy`. -/
namespace ApApps.Sand
open Incremental ApApps.Redis Exec

/-- If the command is refused, it carries an id and has a clean topic list. -/
def Tidy (s : St) (map : Fields) : Prop :=
  refusal s map ≠ none → (map.get "cd").isSome = true ∧ CleanTopics map

instance (s : St) (map : Fields) : Decidable (Tidy s map) := by
  unfold Tidy
  infer_instance

/-- An accepted command has no empty topic. -/
theorem Tidy.clean {s : St} {map : Fields} (h : Tidy s map) : CleanTopics map := by
  by_cases hr : refusal s map = none
  · exact fun _ => .inr (accepts_of_refusal hr).1.2
  · exact (h hr).2

section Tidy
variable {env : Env} {P : St → Conn → Fields → Prop} {s s' : St}

theorem Move.mono {P P' : St → Conn → Fields → Prop} (hPP : ∀ s c map, P s c map → P' s c map)
    (h : Move env P s s') : Move env P' s s' := by
  cases h with
  | tick ht => exact .tick ht
  | data hh data => exact .data hh data
  | log o ho => exact .log o ho
  | refused hl hh hst hr hP hclose => exact .refused hl hh hst hr (hPP _ _ _ hP) hclose
  | admitted hl hh hst hr hP hadm => exact .admitted hl hh hst hr (hPP _ _ _ hP) hadm

/-- A registered connection with parameters has an id. -/
theorem Sane.hasId (h : Sane none s) {fd : Fd} {c : Conn} {m : Climap}
    (hl : s.clientmap.lookup fd = some c) (hh : s.heap c = some m) (hp : m.param.isSome) :
    m.clientid.isSome := by
  rcases h.settled fd c m hl hh (by simp) with hf | ⟨map, ha⟩
  · simp [hf.param] at hp
  · have hvalid := ha.accepts.1
    have hcd : m.clientid = map.get "cd" := by
      simp only [Climap.clientid, ha.param, Option.bind_some, cnParam]
    rw [hcd]
    cases hget : map.get "cd" with
    | some cd => rfl
    | none => simp [passes, validParam, hget, filled] at hvalid

theorem Sane.closeClient (h : Sane none s) (hok : env.AllOk) (fd : Fd) (err : Bytes) :
    ∃ s', closeClient env fd err s = .ok () s' :=
  closeClient_total hok h.wf h.subs fd err fun _ _ hl hh hp => h.hasId hl hh hp

theorem Sane.doPublish {x : Option Conn} (h : Sane x s) (hok : env.AllOk) (topic payload : Bytes) :
    doPublish env topic payload s = .ok () (s.published env topic payload) :=
  doPublish_calm hok payload (h.subs.live h.wf topic)

/-! ## The commands -/

/-- A command that returns to a broker in order can be followed by the closing of the
connection. -/
theorem handleCommand_of {fd : Fd} {map : Fields} {cmd : Cmd} {r : Option Bytes} {s1 : St}
    (hok : env.AllOk) (hcmd : command env fd map cmd s = .ok r s1) (h1 : Sane none s1) :
    ∃ b s', handleCommand env fd map cmd s = .ok b s' := by
  unfold handleCommand
  rw [bind_of_ok hcmd]
  cases r with
  | none => exact ⟨true, s1, rfl⟩
  | some err =>
    obtain ⟨s', hclose⟩ := h1.closeClient hok fd err
    exact ⟨false, s', bind_of_ok hclose⟩

theorem pb_total (hok : env.AllOk) (h : Sane none s) {fd : Fd} {c : Conn} {m : Climap}
    (map : Fields) (hl : s.clientmap.lookup fd = some c) (hh : s.heap c = some m) :
    ∃ r s1, pb env fd map s = .ok r s1 ∧ Sane none s1 := by
  unfold pb
  rw [bind_of_ok (assertClient_eq _ hl), bind_of_ok (climapOf_eq hh)]
  by_cases hst : m.state ≠ .stAuth
  · rw [if_pos hst]
    exact ⟨_, s, rfl, h⟩
  · rw [if_neg hst]
    cases map.get "tp" with
    | none => exact ⟨_, s, rfl, h⟩
    | some topic =>
      cases map.get "pl" with
      | none => exact ⟨_, s, rfl, h⟩
      | some payload =>
        have heq := h.doPublish hok topic payload
        exact ⟨none, _, bind_of_ok heq, h.cascade ((cascade_doPublish topic payload s).1 () _ heq)⟩

theorem pi_total (hok : env.AllOk) (h : Sane none s) {fd : Fd} {c : Conn} {m : Climap}
    (hl : s.clientmap.lookup fd = some c) (hh : s.heap c = some m) (hc : m.client = true) :
    ∃ r s1, pi env fd s = .ok r s1 ∧ Sane none s1 := by
  unfold pi
  rw [bind_of_ok (assertClient_eq _ hl), bind_of_ok (climapOf_eq hh)]
  by_cases hst : m.state ≠ .stAuth
  · rw [if_pos hst]
    exact ⟨_, s, rfl, h⟩
  · rw [if_neg hst, bind_of_ok (buildQuery_eq env _ s), bind_of_ok (uvWrite_eq env _ _ hh hc),
      wrote_calm hok]
    exact ⟨none, _, rfl, h.logged _⟩

/-- An acceptable command of a new connection is accepted. -/
theorem admitClient_total (hok : env.AllOk) (h : Sane none s) {fd : Fd} {c : Conn} {m : Climap}
    {map : Fields} (hl : s.clientmap.lookup fd = some c) (hh : s.heap c = some m)
    (hst : m.state = .stNew) (hc : m.client = true) (hr : refusal s map = none) :
    ∃ s1, admitClient env c fd map (s.prepared fd c m map) = .ok none s1 := by
  have hinv := h.identified hl hh (h.settled.fresh hl hh hst) (accepts_of_refusal hr).1
  have hann : announce env map ((s.prepared fd c m map).identified (cdOf map) fd) =
      .ok () (((s.prepared fd c m map).identified (cdOf map) fd).announced env map) := by
    rw [announce_eq]
    unfold St.announced
    cases connectMessage map with
    | none => rfl
    | some msg => exact hinv.doPublish hok msg.1 msg.2
  have hself : (((s.prepared fd c m map).identified (cdOf map) fd).announced env map).heap c =
      some { m with param := some (cnParam map) } := by
    rw [heap_announced]
    exact Function.update_self c _ _
  refine ⟨s.admitted env fd c m map, ?_⟩
  unfold admitClient
  rw [bind_of_ok (setClientid_eq _ fd _)]
  refine (bind_of_ok hann).trans ?_
  rw [bind_of_ok (climapOf_eq hself)]
  refine (bind_of_ok (show setClimap c _ _ = .ok () (St.authorized _ c _) from rfl)).trans ?_
  rw [publishConnack_eq (m := { m with param := some (cnParam map), state := .stAuth }) 0 _
    (Function.update_self c _ _) hc, hok, wrote_calm hok]
  rfl

theorem cn_total (hok : env.AllOk) (h : Sane none s) {fd : Fd} {c : Conn} {m : Climap}
    {map : Fields} (hl : s.clientmap.lookup fd = some c) (hh : s.heap c = some m)
    (hc : m.client = true) (hP : m.state = .stNew → Tidy s map) :
    ∃ b s', handleCommand env fd map .cn s = .ok b s' := by
  cases hst : m.state with
  | stAuth =>
    have hcn : command env fd map .cn s = .ok _ _ :=
      (cn_again env map hl hh hst).trans (refuse_eq _ hh hc)
    exact handleCommand_of hok hcn (h.logged _)
  | stNew =>
    have hP := hP hst
    have hcn := cn_new env map hl hh hst
    have hself : (s.prepared fd c m map).heap c = some { m with param := some (cnParam map) } :=
      Function.update_self c _ _
    unfold handleCommand command
    cases hr : refusal s map with
    | none =>
      rw [hr] at hcn
      obtain ⟨s1, hadm⟩ := admitClient_total hok h hl hh hst hc hr
      refine ⟨true, s1, ?_⟩
      rw [bind_of_ok (hcn.trans hadm)]
      rfl
    | some err =>
      rw [hr] at hcn
      obtain ⟨hid, hclean⟩ := hP (by simp [hr])
      have hw : WF ((s.prepared fd c m map).refusedWith env c err) :=
        (h.wf.prepared fd map hh).wrote
      have hs : SubOk ((s.prepared fd c m map).refusedWith env c err) :=
        (h.subs.prepared h.wf hl hh (h.settled.fresh hl hh hst) hclean).of_heap rfl rfl fun _ => rfl
      obtain ⟨s', hclose⟩ := closeClient_total hok hw hs fd err (by
        intro c' m' hl' hh' _
        have hl' : s.clientmap.lookup fd = some c' := hl'
        rw [hl] at hl'
        cases hl'
        have hh' : some _ = some m' := hself.symm.trans hh'
        cases hh'
        simpa only [Climap.clientid, Option.bind_some, cnParam] using hid)
      refine ⟨false, s', ?_⟩
      rw [bind_of_ok (hcn.trans (refuse_eq err hself hc))]
      exact bind_of_ok hclose

theorem handleCommand_total (hok : env.AllOk) (h : Sane none s) {fd : Fd} {c : Conn} {m : Climap}
    (map : Fields) (cmd : Cmd) (hl : s.clientmap.lookup fd = some c) (hh : s.heap c = some m)
    (hP : cmd = .cn → m.state = .stNew → Tidy s map) :
    ∃ b s', handleCommand env fd map cmd s = .ok b s' := by
  obtain ⟨m', hh', _, _, hc⟩ := h.wf.live fd c hl
  rw [hh] at hh'
  cases hh'
  cases cmd with
  | cn => exact cn_total hok h hl hh hc (hP rfl)
  | dc =>
    obtain ⟨s1, hclose⟩ := h.closeClient hok fd (ascii "user disconnect")
    have hdc : command env fd map .dc s = .ok (some (ascii "disconnect")) s1 := bind_of_ok hclose
    exact handleCommand_of hok hdc (h.cascade ((cascade_closeClient _ _ s).1 () s1 hclose))
  | pb =>
    obtain ⟨r, s1, hpb, h1⟩ := pb_total hok h map hl hh
    exact handleCommand_of hok hpb h1
  | pi =>
    obtain ⟨r, s1, hpi, h1⟩ := pi_total hok h hl hh hc
    exact handleCommand_of hok hpi h1

/-! ## The callbacks -/

/-- The command that `c` is about to dispatch is tidy, if it is a cn command of a new
connection. -/
def NextTidy (c : Conn) (s : St) : Prop :=
  ∀ m map rest, s.heap c = some m → m.state = .stNew →
    readCommand m.data = .ok (.call .cn map rest) → Tidy (s.called c m rest .cn map) map

theorem CnOk.next (hP : ∀ s c map, P s c map → Tidy s map) {fd : Fd} {c : Conn}
    (h : CnOk env P fd c s) : NextTidy c s :=
  fun m map rest hh hst hread => hP _ _ _ (h s .refl m map rest hh hst hread)

theorem turn_total (hok : env.AllOk) (h : Sane none s) {fd : Fd} {c : Conn}
    (hl : s.clientmap.lookup fd = some c) (hP : NextTidy c s) :
    ∃ b s', turn env fd c s = .ok b s' := by
  obtain ⟨m, hh, _, _, hc⟩ := h.wf.live fd c hl
  obtain ⟨next, hnext⟩ := readCommand_total m.data
  unfold turn
  rw [bind_of_ok (climapOf_eq hh), hnext]
  cases next with
  | wait => exact ⟨false, s, rfl⟩
  | refuse rest err =>
    obtain ⟨s', hclose⟩ := (h.withData rest hh).closeClient hok fd err
    refine ⟨false, s', ?_⟩
    simp only
    rw [bind_of_ok (setData_eq rest hh), bind_of_ok hclose]
    rfl
  | call cmd map rest =>
    have hcalled : Sane none (s.called c m rest cmd map) := (h.withData rest hh).logged _
    have hself : (s.called c m rest cmd map).heap c = some { m with data := rest } :=
      Function.update_self c _ _
    obtain ⟨b, s', heq⟩ := handleCommand_total hok hcalled map cmd hl hself (by
      rintro rfl hst
      exact hP m map rest hh hst hnext)
    refine ⟨b, s', ?_⟩
    simp only
    rw [bind_of_ok (setData_eq rest hh)]
    exact (bind_of_ok (show emit _ _ = .ok () _ from rfl)).trans heq

/-- After a turn of a broker in order it is in order again. -/
theorem turn_sane (htidy : ∀ s c map, P s c map → Tidy s map) {fd : Fd} {c : Conn}
    (h : Sane none s) (hs : Serving fd c s) {b : Bool} (hP : CnOk env P fd c s) (hturn : turn env fd c s = .ok b s') :
    Sane none s' :=
  moves_invariant (fun _ _ _ h hm => h.move (hm.mono fun _ _ _ hP => (htidy _ _ _ hP).clean))
    ((moves_turn hs hP).1 b s' hturn) h.wf h

/-- The loop returns. If it ran to its end, the connection has been accepted, or the
loop had nothing to do. -/
theorem dataLoop_total (hok : env.AllOk) (htidy : ∀ s c map, P s c map → Tidy s map) {fd : Fd}
    {c : Conn} (fuel : Nat) (h : Sane none s) (hs : Serving fd c s)
    (hl : s.clientmap.lookup fd = some c) (hP : CnOk env P fd c s)
    (hstart : Going fd c s ∨ (fuel ≠ 0 ∧ ∀ m, s.heap c = some m → m.data ≠ [])) :
    ∃ b s', dataLoop env fd c fuel s = .ok b s' ∧ (b = true → Going fd c s') := by
  induction fuel generalizing s with
  | zero => exact ⟨true, s, rfl, fun _ => hstart.resolve_right fun hne => hne.1 rfl⟩
  | succ fuel ih =>
    obtain ⟨m, hh, _⟩ := h.wf.live fd c hl
    unfold dataLoop
    rw [bind_of_ok (climapOf_eq hh)]
    by_cases hdata : m.data = []
    · rw [if_pos hdata]
      exact ⟨true, s, rfl, fun _ => hstart.resolve_right fun hne => hne.2 m hh hdata⟩
    · rw [if_neg hdata]
      obtain ⟨b, s1, hturn⟩ := turn_total hok h hl (hP.next htidy)
      rw [bind_of_ok hturn]
      cases b with
      | false => exact ⟨false, s1, rfl, fun hb => by cases hb⟩
      | true =>
        have hcalm := turn_calm hok h.wf hl hh hturn
        have hgo : Going fd c s1 := by
          have hgo := calmTurn_going env (m := m) hl (by rw [← hcalm])
          rwa [← hcalm] at hgo
        exact ih (turn_sane htidy h hs hP hturn) (hs.moves ((moves_turn hs hP).1 _ _ hturn)) hgo.1
          (hP.turned hturn) (.inl hgo)

/-- **What a callback does**: it returns, or it is left with the restart of the timer
of an accepted connection. -/
theorem step_tidy (hok : env.AllOk) (htidy : ∀ s c map, P s c map → Tidy s map)
    (h : Sane none s) {ev : Event} (hP : EventOk env P s ev) :
    (∃ s', step env ev s = .ok () s') ∨
      ∃ fd c s1, Moves env P s s1 ∧ Going fd c s1 ∧ step env ev s = restartTimer c s1 := by
  by_cases hen : enabled s ev = true
  · have hstep : step env ev s = handle env ev s := if_pos hen
    cases ev with
    | accept c fd => exact .inl ⟨_, (step_accept env h.wf hen).2.2⟩
    | chunk c data =>
      obtain ⟨hopen, hne⟩ : s.isOpen c = true ∧ data ≠ [] := by simpa [enabled] using hen
      obtain ⟨m, hh, hc⟩ := isOpen_iff.mp hopen
      have hrecv : Sane none (s.received c m data) := (h.logged (.recv c data)).withData _ hh
      have hs := Serving.received h.wf data hh hc
      have hl : (s.received c m data).clientmap.lookup m.fd = some c :=
        h.wf.registered c m hh (.inr hc)
      have hlen : (m.data ++ data).length ≠ 0 := by simp [hne]
      obtain ⟨b, s1, hloop, hgo⟩ := dataLoop_total hok htidy (m.data ++ data).length hrecv hs hl
        (hP hen m hh) (.inr ⟨hlen, by
          intro m' hh'
          have hh' : some _ = some m' := (Function.update_self c _ _).symm.trans hh'
          cases hh'
          simp [hne]⟩)
      rw [hstep, handle_chunk_eq h.wf data hh hc, bind_of_ok hloop]
      cases b with
      | false => exact .inl ⟨s1, rfl⟩
      | true =>
        have hmoves := (moves_dataLoop _ hs (hP hen m hh)).1 _ _ hloop
        exact .inr ⟨m.fd, c, s1, (moves_received data hh).trans hmoves, hgo rfl, rfl⟩
    | closed c err =>
      obtain ⟨m, hh, _⟩ := isOpen_iff.mp (show s.isOpen c = true from hen)
      obtain ⟨s', hclose⟩ := h.closeClient hok m.fd (err.getD (ascii "close"))
      refine .inl ⟨s', ?_⟩
      rw [hstep, handle, bind_of_ok (climapOf_eq hh), hclose]
    | timeout c =>
      cases hh : s.heap c with
      | none => simp [enabled, hh] at hen
      | some m =>
        obtain ⟨s', hclose⟩ := h.closeClient hok m.fd (ascii "timeout")
        refine .inl ⟨s', ?_⟩
        rw [hstep, handle, bind_of_ok (climapOf_eq hh), hclose]
  · exact .inl ⟨s, if_neg hen⟩

end Tidy

end ApApps.Sand

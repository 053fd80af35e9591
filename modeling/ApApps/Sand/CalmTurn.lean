import ApApps.Sand.Calm

/- A turn of the receive loop when every `uv.write` succeeds, as a function of the
   state: `calmTurn`. A turn that returns computes it (`turn_calm`), and if the loop
   goes on then the connection has been accepted and is open (`calmTurn_going`). -/
namespace ApApps.Sand
open Incremental ApApps.Redis Exec

/-- `close_client`. -/
def St.calmClose (s : St) (env : Env) (fd : Fd) : St :=
  match s.clientmap.lookup fd with
  | none => s
  | some c =>
    match s.heap c with
    | none => s
    | some m => s.closed env fd c m

/-- The broker after a connack. -/
def St.answered (s : St) (env : Env) (c : Conn) (st : Nat) (msg : Bytes) : St :=
  s.logged (.write c (.ca st msg) (env.frame (.ca st msg)) true)

/-- The broker after the connect message has been published. -/
def St.announced (s : St) (env : Env) (map : Fields) : St :=
  match connectMessage map with
  | none => s
  | some (ct, cp) => s.published env ct cp

/-- The broker after an accepted cn command. -/
def St.admitted (s : St) (env : Env) (fd : Fd) (c : Conn) (m : Climap) (map : Fields) : St :=
  ((((s.prepared fd c m map).identified (cdOf map) fd).announced env map).authorized c
    { m with param := some (cnParam map) }).answered env c 0 (ascii "ok")

/-- What a command returns, and the broker after it. `m` is the climap of `c`. -/
def calmCommand (env : Env) (fd : Fd) (c : Conn) (m : Climap) (map : Fields) (s : St) :
    Cmd → Option Bytes × St
  | .cn =>
    match m.state with
    | .stAuth => (some (ascii "invalid state"), s.answered env c 1 (ascii "invalid state"))
    | .stNew =>
      match refusal s map with
      | some err => (some err, (s.prepared fd c m map).answered env c 1 err)
      | none => (none, s.admitted env fd c m map)
  | .dc => (some (ascii "disconnect"), s.calmClose env fd)
  | .pb =>
    match m.state with
    | .stNew => (some (ascii "no auth yet"), s)
    | .stAuth =>
      match map.get "tp", map.get "pl" with
      | some topic, some payload => (none, s.published env topic payload)
      | _, _ => (some (ascii "invalid publish param"), s)
  | .pi =>
    match m.state with
    | .stNew => (some (ascii "no auth yet"), s)
    | .stAuth => (none, s.logged (.write c .po (env.frame .po) true))

/-- `handleCommand`. -/
def calmHandle (env : Env) (fd : Fd) (c : Conn) (m : Climap) (map : Fields) (s : St) (cmd : Cmd) :
    Bool × St :=
  match calmCommand env fd c m map s cmd with
  | (none, s1) => (true, s1)
  | (some _, s1) => (false, s1.calmClose env fd)

/-- `turn`. -/
def calmTurn (env : Env) (fd : Fd) (c : Conn) (m : Climap) (s : St) : Bool × St :=
  match readCommand m.data with
  | .ok (.call cmd map rest) =>
    calmHandle env fd c { m with data := rest } map (s.called c m rest cmd map) cmd
  | .ok (.refuse rest _) => (false, (s.withData c m rest).calmClose env fd)
  | _ => (false, s)

section CalmTurn
variable {env : Env} {s s' : St}

theorem heap_announced (map : Fields) : (s.announced env map).heap = s.heap := by
  unfold St.announced
  cases connectMessage map <;> rfl

theorem clientmap_announced (map : Fields) : (s.announced env map).clientmap = s.clientmap := by
  unfold St.announced
  cases connectMessage map <;> rfl

theorem clientmap_closed (fd : Fd) (c : Conn) (m : Climap) :
    (s.closed env fd c m).clientmap = s.clientmap.erase fd := by
  unfold St.closed
  cases m.param.bind Param.will <;> rfl

theorem calmClose_eq {fd : Fd} {c : Conn} {m : Climap} (hl : s.clientmap.lookup fd = some c)
    (hh : s.heap c = some m) : s.calmClose env fd = s.closed env fd c m := by
  simp only [St.calmClose, hl, hh]

theorem calmClose_none {fd : Fd} (hl : s.clientmap.lookup fd = none) : s.calmClose env fd = s := by
  simp only [St.calmClose, hl]

/-! ## Handles and descriptors -/

theorem WF.published (h : WF s) (topic payload : Bytes) : WF (s.published env topic payload) :=
  h.of_eq rfl rfl rfl

theorem WF.closed (h : WF s) {fd : Fd} {c : Conn} {m : Climap}
    (hl : s.clientmap.lookup fd = some c) (hh : s.heap c = some m) : WF (s.closed env fd c m) := by
  unfold St.closed
  cases m.param.bind Param.will with
  | none => exact h.shut hl hh
  | some will => exact (h.shut hl hh).published will.1 will.2

theorem WF.calmClose (h : WF s) (fd : Fd) : WF (s.calmClose env fd) := by
  cases hl : s.clientmap.lookup fd with
  | none =>
    rw [calmClose_none hl]
    exact h
  | some c =>
    obtain ⟨m, hh, _⟩ := h.live fd c hl
    rw [calmClose_eq hl hh]
    exact h.closed hl hh

theorem WF.admitted (h : WF s) (fd : Fd) {c : Conn} {m : Climap} (map : Fields)
    (hh : s.heap c = some m) : WF (s.admitted env fd c m map) := by
  have hann : WF (((s.prepared fd c m map).identified (cdOf map) fd).announced env map) := by
    have hid : WF ((s.prepared fd c m map).identified (cdOf map) fd) :=
      (h.prepared fd map hh).identified
    unfold St.announced
    cases connectMessage map with
    | none => exact hid
    | some msg => exact hid.published msg.1 msg.2
  have hself : (((s.prepared fd c m map).identified (cdOf map) fd).announced env map).heap c =
      some { m with param := some (cnParam map) } := by
    rw [heap_announced]
    exact Function.update_self c _ _
  exact (hann.authorized hself).of_eq rfl rfl rfl

theorem WF.calmCommand (h : WF s) (env : Env) (fd : Fd) {c : Conn} {m : Climap} (map : Fields) (cmd : Cmd)
    (hh : s.heap c = some m) : WF (calmCommand env fd c m map s cmd).2 := by
  unfold ApApps.Sand.calmCommand
  cases cmd with
  | cn =>
    cases m.state with
    | stAuth => exact h.of_eq rfl rfl rfl
    | stNew =>
      cases refusal s map with
      | some err => exact (h.prepared fd map hh).of_eq rfl rfl rfl
      | none => exact h.admitted fd map hh
  | dc => exact h.calmClose fd
  | pb =>
    cases m.state with
    | stNew => exact h
    | stAuth =>
      cases map.get "tp" with
      | none => exact h
      | some topic =>
        cases map.get "pl" with
        | none => exact h
        | some payload => exact h.published topic payload
  | pi =>
    cases m.state with
    | stNew => exact h
    | stAuth => exact h.of_eq rfl rfl rfl

/-! ## A turn that returns -/

theorem closeClient_calmClose (hok : env.AllOk) (hw : WF s) {fd : Fd} {err : Bytes}
    (h : closeClient env fd err s = .ok () s') : s' = s.calmClose env fd := by
  cases hl : s.clientmap.lookup fd with
  | none =>
    rw [closeClient_eq, closeClientWith_none _ err hl] at h
    cases h
    exact (calmClose_none hl).symm
  | some c =>
    obtain ⟨m, hh, _, ht, hc⟩ := hw.live fd c hl
    rw [calmClose_eq hl hh]
    exact closeClient_calm_ok hok hl hh ht hc h

theorem announce_calm (hok : env.AllOk) {map : Fields} (h : announce env map s = .ok () s') :
    s' = s.announced env map := by
  rw [announce_eq] at h
  unfold St.announced
  cases hmsg : connectMessage map with
  | none =>
    rw [hmsg] at h
    cases h
    rfl
  | some msg =>
    rw [hmsg] at h
    exact (doPublish_calm_ok hok h).2

theorem admitClient_calm (hok : env.AllOk) {fd : Fd} {c : Conn} {m : Climap} {map : Fields}
    {r : Option Bytes} (h : admitClient env c fd map (s.prepared fd c m map) = .ok r s') :
    r = none ∧ s' = s.admitted env fd c m map := by
  unfold admitClient at h
  rw [bind_of_ok (setClientid_eq _ fd _)] at h
  obtain ⟨_, s1, hann, h1⟩ := bind_eq_ok.mp h
  obtain rfl := announce_calm hok hann
  obtain ⟨m1, s2, hm, h2⟩ := bind_eq_ok.mp h1
  obtain ⟨rfl, hheap⟩ := climapOf_ok hm
  rw [heap_announced] at hheap
  have hheap : some _ = some m1 := (Function.update_self c _ _).symm.trans hheap
  cases hheap
  rw [bind_of_ok (show setClimap c _ _ = .ok () (St.authorized _ c _) from rfl)] at h2
  unfold publishConnack at h2
  rw [bind_of_ok (buildQuery_eq env _ _)] at h2
  obtain ⟨_, rfl, rfl⟩ := uvWrite_ok h2
  exact ⟨hok _ _, wrote_calm hok _ _ _⟩

/-- A command that returns, of a connection that is registered. -/
theorem command_calm (hok : env.AllOk) (hw : WF s) {fd : Fd} {c : Conn} {m : Climap} {map : Fields}
    {cmd : Cmd} {r : Option Bytes} (hl : s.clientmap.lookup fd = some c) (hh : s.heap c = some m)
    (h : command env fd map cmd s = .ok r s') : (r, s') = calmCommand env fd c m map s cmd := by
  obtain ⟨m0, h0, _, _, hc⟩ := hw.live fd c hl
  rw [hh] at h0
  cases h0
  cases cmd with
  | cn =>
    have h : cn env fd map s = .ok r s' := h
    unfold calmCommand
    cases hst : m.state with
    | stAuth =>
      rw [cn_again env map hl hh hst, refuse_eq _ hh hc, wrote_calm hok] at h
      cases h
      rfl
    | stNew =>
      rw [cn_new env map hl hh hst] at h
      cases hr : refusal s map with
      | some err =>
        rw [hr] at h
        have h := (refuse_eq (s := s.prepared fd c m map) err (Function.update_self c _ _) hc).symm.trans h
        rw [wrote_calm hok] at h
        cases h
        rfl
      | none =>
        rw [hr] at h
        obtain ⟨rfl, rfl⟩ := admitClient_calm hok h
        rfl
  | dc =>
    have h : dc env fd s = .ok r s' := h
    obtain ⟨_, s1, hclose, hrest⟩ := bind_eq_ok.mp h
    obtain rfl := closeClient_calmClose hok hw hclose
    cases hrest
    rfl
  | pb =>
    have h : pb env fd map s = .ok r s' := h
    unfold pb at h
    rw [bind_of_ok (assertClient_eq _ hl), bind_of_ok (climapOf_eq hh)] at h
    unfold calmCommand
    cases hst : m.state with
    | stNew =>
      rw [if_pos (by rw [hst]; decide)] at h
      cases h
      rfl
    | stAuth =>
      rw [if_neg (by rw [hst]; decide)] at h
      cases htp : map.get "tp" with
      | none =>
        simp only [htp] at h
        cases h
        rfl
      | some topic =>
        cases hpl : map.get "pl" with
        | none =>
          simp only [htp, hpl] at h
          cases h
          rfl
        | some payload =>
          simp only [htp, hpl] at h
          obtain ⟨_, s1, hpub, hrest⟩ := bind_eq_ok.mp h
          obtain rfl := (doPublish_calm_ok hok hpub).2
          cases hrest
          rfl
  | pi =>
    have h : pi env fd s = .ok r s' := h
    unfold pi at h
    rw [bind_of_ok (assertClient_eq _ hl), bind_of_ok (climapOf_eq hh)] at h
    unfold calmCommand
    cases hst : m.state with
    | stNew =>
      rw [if_pos (by rw [hst]; decide)] at h
      cases h
      rfl
    | stAuth =>
      rw [if_neg (by rw [hst]; decide), bind_of_ok (buildQuery_eq env _ s),
        bind_of_ok (uvWrite_eq env _ _ hh hc), wrote_calm hok] at h
      cases h
      rfl

theorem handleCommand_calm (hok : env.AllOk) (hw : WF s) {fd : Fd} {c : Conn} {m : Climap}
    {map : Fields} {cmd : Cmd} {b : Bool} (hl : s.clientmap.lookup fd = some c)
    (hh : s.heap c = some m) (h : handleCommand env fd map cmd s = .ok b s') :
    (b, s') = calmHandle env fd c m map s cmd := by
  unfold handleCommand at h
  obtain ⟨r, s1, hcmd, h1⟩ := bind_eq_ok.mp h
  have heq := command_calm hok hw hl hh hcmd
  have hw1 : WF s1 := by
    have hwc := hw.calmCommand env fd map cmd hh
    rwa [← heq] at hwc
  unfold calmHandle
  rw [← heq]
  cases r with
  | none =>
    cases h1
    rfl
  | some err =>
    obtain ⟨_, s2, hclose, h2⟩ := bind_eq_ok.mp h1
    obtain rfl := closeClient_calmClose hok hw1 hclose
    cases h2
    rfl

/-- **A turn that returns.** -/
theorem turn_calm (hok : env.AllOk) (hw : WF s) {fd : Fd} {c : Conn} {m : Climap} {b : Bool}
    (hl : s.clientmap.lookup fd = some c) (hh : s.heap c = some m)
    (h : turn env fd c s = .ok b s') : (b, s') = calmTurn env fd c m s := by
  unfold turn at h
  rw [bind_of_ok (climapOf_eq hh)] at h
  unfold calmTurn
  obtain ⟨next, hnext⟩ := readCommand_total m.data
  rw [hnext] at h ⊢
  cases next with
  | wait =>
    cases h
    rfl
  | refuse rest err =>
    simp only at h
    rw [bind_of_ok (setData_eq rest hh)] at h
    obtain ⟨_, s1, hclose, h1⟩ := bind_eq_ok.mp h
    obtain rfl := closeClient_calmClose hok (hw.withData rest hh) hclose
    cases h1
    rfl
  | call cmd map rest =>
    simp only at h
    rw [bind_of_ok (setData_eq rest hh)] at h
    have h : handleCommand env fd map cmd (s.called c m rest cmd map) = .ok b s' :=
      (bind_of_ok (show emit _ _ = .ok () _ from rfl)).symm.trans h
    have hw1 : WF (s.called c m rest cmd map) := (hw.withData rest hh).of_eq rfl rfl rfl
    exact handleCommand_calm hok hw1 (m := { m with data := rest }) hl (Function.update_self c _ _) h

/-! ## A turn after which the loop goes on -/

/-- The connection has been accepted and is open. -/
def Going (fd : Fd) (c : Conn) (s : St) : Prop :=
  s.clientmap.lookup fd = some c ∧ ∃ m, s.heap c = some m ∧ m.state = .stAuth

theorem calmCommand_going (env : Env) {fd : Fd} {c : Conn} {m : Climap} {map : Fields} {cmd : Cmd}
    (hl : s.clientmap.lookup fd = some c) (hh : s.heap c = some m)
    (h : (calmCommand env fd c m map s cmd).1 = none) :
    Going fd c (calmCommand env fd c m map s cmd).2 := by
  unfold calmCommand at h ⊢
  cases cmd with
  | cn =>
    cases hst : m.state with
    | stAuth =>
      rw [hst] at h
      cases h
    | stNew =>
      rw [hst] at h
      cases hr : refusal s map with
      | some err =>
        rw [hr] at h
        cases h
      | none =>
        refine ⟨?_, _, Function.update_self c _ _, rfl⟩
        exact (congrArg (AList.lookup fd) (clientmap_announced map)).trans hl
  | dc => cases h
  | pb =>
    cases hst : m.state with
    | stNew =>
      rw [hst] at h
      cases h
    | stAuth =>
      have hgo : Going fd c s := ⟨hl, m, hh, hst⟩
      cases htp : map.get "tp" with
      | none =>
        simp only [hst, htp] at h
        cases h
      | some topic =>
        cases hpl : map.get "pl" with
        | none =>
          simp only [hst, htp, hpl] at h
          cases h
        | some payload => exact hgo
  | pi =>
    cases hst : m.state with
    | stNew =>
      rw [hst] at h
      cases h
    | stAuth => exact ⟨hl, m, hh, hst⟩

theorem calmHandle_going (env : Env) {fd : Fd} {c : Conn} {m : Climap} {map : Fields} {cmd : Cmd}
    (hl : s.clientmap.lookup fd = some c) (hh : s.heap c = some m)
    (h : (calmHandle env fd c m map s cmd).1 = true) :
    Going fd c (calmHandle env fd c m map s cmd).2 := by
  unfold calmHandle at h ⊢
  cases hcmd : calmCommand env fd c m map s cmd with
  | mk r s1 =>
    rw [hcmd] at h
    cases r with
    | some err => cases h
    | none =>
      have hgo := calmCommand_going env hl hh (by rw [hcmd])
      rwa [hcmd] at hgo

theorem calmTurn_going (env : Env) {fd : Fd} {c : Conn} {m : Climap} (hl : s.clientmap.lookup fd = some c)
    (h : (calmTurn env fd c m s).1 = true) :
    Going fd c (calmTurn env fd c m s).2 := by
  unfold calmTurn at h ⊢
  obtain ⟨next, hnext⟩ := readCommand_total m.data
  rw [hnext] at h ⊢
  cases next with
  | wait => cases h
  | refuse rest err => cases h
  | call cmd map rest =>
    exact calmHandle_going env (s := s.called c m rest cmd map) hl (Function.update_self c _ _) h

end CalmTurn

end ApApps.Sand

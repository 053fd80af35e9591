import ApApps.Sand.Acts
import ApApps.Sand.LockStep

/- Where the messages of the broker come from.

   `Offered` are the messages somebody has asked the broker to publish: the pb commands of
   connections whose cn command was accepted, the connect messages of accepted cn commands,
   and the wills of all cn commands. `Grounded` is a log in which every write is the frame
   of its message, and the message has its cause in the log before it: a publication has
   been offered, a connack answers a cn command of the connection, a pong a ping.

   `every_write_grounded`: the log of every run is grounded, whatever writes fail and
   however the callbacks nest. So the broker makes up no message, and the only thing a
   connection can have published that was never accepted is its will. -/
namespace ApApps.Sand
open Incremental ApApps.Redis Exec

/-! ## Causes -/

/-- The cn command of `c` has been answered with `ok`. -/
def Admitted (c : Conn) (log : List Out) : Prop := ∃ frame ok, .write c (.ca 0 (ascii "ok")) frame ok ∈ log

/-- A message that somebody has asked the broker to publish. -/
inductive Offered (log : List Out) : Bytes × Bytes → Prop
  | said {c : Conn} {map : Fields} {topic payload : Bytes} (h : .dispatch c .pb map ∈ log) (hc : Admitted c log)
      (htp : map.get "tp" = some topic) (hpl : map.get "pl" = some payload) : Offered log (topic, payload)
  | hello {c : Conn} {map : Fields} {message : Bytes × Bytes} (h : .dispatch c .cn map ∈ log) (ha : accepts map)
      (hm : connectMessage map = some message) : Offered log message
  | will {c : Conn} {map : Fields} {message : Bytes × Bytes} (h : .dispatch c .cn map ∈ log)
      (hm : (cnParam map).will = some message) : Offered log message

/-- What the broker says to a cn command that it refuses. -/
def refusals (map : Fields) : List Bytes :=
  [ascii "invalid state", ascii "invalid param", ascii "invalid version", ascii "invalid authorization",
    ascii "invalid topics", ascii "already exist " ++ cdOf map]

/-- The cause of a message to `c`. -/
def Msg.Caused (log : List Out) (c : Conn) : Msg → Prop
  | .pb topic payload => Offered log (topic, payload)
  | .ca st da => ∃ map, .dispatch c .cn map ∈ log ∧
      (st = 0 ∧ da = ascii "ok" ∧ accepts map ∨ st = 1 ∧ da ∈ refusals map)
  | .po => Admitted c log ∧ ∃ map, .dispatch c .pi map ∈ log

/-- A log in which each write has its cause before it. -/
inductive Grounded (env : Env) : List Out → Prop
  | nil : Grounded env []
  | other {log : List Out} {o : Out} (h : Grounded env log) (ho : ∀ c msg frame ok, o ≠ .write c msg frame ok) :
      Grounded env (log ++ [o])
  | write {log : List Out} {c : Conn} {msg : Msg} (h : Grounded env log) (hmsg : msg.Caused log c) (ok : Bool) :
      Grounded env (log ++ [.write c msg (env.frame msg) ok])

section Causes
variable {env : Env} {log log' : List Out} {c : Conn} {msg : Msg}

theorem Admitted.mono (h : Admitted c log) (hsub : log <+: log') : Admitted c log' := by
  obtain ⟨frame, ok, hmem⟩ := h
  exact ⟨frame, ok, hsub.subset hmem⟩

theorem Offered.mono {message : Bytes × Bytes} (h : Offered log message) (hsub : log <+: log') :
    Offered log' message := by
  cases h with
  | said hd hc htp hpl => exact .said (hsub.subset hd) (hc.mono hsub) htp hpl
  | hello hd ha hm => exact .hello (hsub.subset hd) ha hm
  | will hd hm => exact .will (hsub.subset hd) hm

theorem Msg.Caused.mono (h : msg.Caused log c) (hsub : log <+: log') : msg.Caused log' c := by
  cases msg with
  | pb topic payload => exact Offered.mono h hsub
  | ca st da =>
    obtain ⟨map, hd, hcause⟩ := h
    exact ⟨map, hsub.subset hd, hcause⟩
  | po =>
    obtain ⟨hc, map, hd⟩ := h
    exact ⟨hc.mono hsub, map, hsub.subset hd⟩

/-- What a grounded log says of one of its writes. -/
theorem Grounded.caused (h : Grounded env log) {frame : Bytes} {ok : Bool} (hmem : .write c msg frame ok ∈ log) :
    frame = env.frame msg ∧ msg.Caused log c := by
  induction h with
  | nil => cases hmem
  | @other log o _ ho ih =>
    rcases List.mem_append.mp hmem with hmem | hmem
    · obtain ⟨hframe, hmsg⟩ := ih hmem
      exact ⟨hframe, hmsg.mono (List.prefix_append _ _)⟩
    · exact absurd (List.mem_singleton.mp hmem).symm (ho c msg frame ok)
  | @write log c' msg' _ hmsg' ok' ih =>
    rcases List.mem_append.mp hmem with hmem | hmem
    · obtain ⟨hframe, hmsg⟩ := ih hmem
      exact ⟨hframe, hmsg.mono (List.prefix_append _ _)⟩
    · cases List.mem_singleton.mp hmem
      exact ⟨rfl, hmsg'.mono (List.prefix_append _ _)⟩

theorem mem_refusals {s : St} {map : Fields} {err : Bytes} (h : refusal s map = some err) : err ∈ refusals map := by
  unfold refusal at h
  unfold refusals
  split at h
  · cases h
    simp
  split at h
  · cases h
    simp
  split at h
  · cases h
    simp
  split at h
  · cases h
    simp
  split at h
  · cases h
    simp
  · cases h

end Causes

/-! ## The invariant -/

/-- The log is grounded, the parameters of every connection are those of a cn command, and
every connection in `st_auth` has been answered. -/
structure Honest (env : Env) (s : St) : Prop where
  log : Grounded env s.log
  params : ∀ c m param, s.heap c = some m → m.param = some param → ∃ c' map, .dispatch c' .cn map ∈ s.log ∧
    param.will = (cnParam map).will
  admitted : ∀ c m, s.heap c = some m → m.state = .stAuth → Admitted c s.log

section Honest
variable {env : Env} {s s1 s' : St} {fd : Fd} {c : Conn} {m m' : Climap} {α β : Type}

theorem honest_new : Honest env .new where
  log := .nil
  params := fun _ _ _ h => by cases h
  admitted := fun _ _ h => by cases h

/-- A change of a climap that is accounted for, and lines in the log that are. -/
theorem Honest.update (h : Honest env s) (m' : Climap)
    (hheap : s'.heap = Function.update s.heap c (some m'))
    (hlog : Grounded env s'.log) (hsub : s.log <+: s'.log)
    (hparam : ∀ param, m'.param = some param → ∃ c' map, .dispatch c' .cn map ∈ s'.log ∧
      param.will = (cnParam map).will)
    (hstate : m'.state = .stAuth → Admitted c s'.log) : Honest env s' where
  log := hlog
  params := by
    intro c0 m0 param hh hp
    rw [hheap] at hh
    by_cases hc : c0 = c
    · subst hc
      rw [Function.update_self] at hh
      cases hh
      exact hparam param hp
    · rw [Function.update_of_ne hc] at hh
      obtain ⟨c', map, hd, hwill⟩ := h.params c0 m0 param hh hp
      exact ⟨c', map, hsub.subset hd, hwill⟩
  admitted := by
    intro c0 m0 hh hst
    rw [hheap] at hh
    by_cases hc : c0 = c
    · subst hc
      rw [Function.update_self] at hh
      cases hh
      exact hstate hst
    · rw [Function.update_of_ne hc] at hh
      exact (h.admitted c0 m0 hh hst).mono hsub

/-- A change of a climap that leaves its parameters and its state alone. -/
theorem Honest.same (h : Honest env s) (hh : s.heap c = some m) (hheap : s'.heap = Function.update s.heap c (some m'))
    (hlog : Grounded env s'.log) (hsub : s.log <+: s'.log) (hparam : m'.param = m.param)
    (hstate : m'.state = m.state) : Honest env s' := by
  refine h.update _ hheap hlog hsub (fun param hp => ?_) fun hst => ?_
  · rw [hparam] at hp
    obtain ⟨c', map, hd, hwill⟩ := h.params c m param hh hp
    exact ⟨c', map, hsub.subset hd, hwill⟩
  · rw [hstate] at hst
    exact (h.admitted c m hh hst).mono hsub

/-- Only the log has changed. -/
theorem Honest.said (h : Honest env s) (hheap : s'.heap = s.heap) (hlog : Grounded env s'.log)
    (hsub : s.log <+: s'.log) : Honest env s' where
  log := hlog
  params := by
    intro c0 m0 param hh hp
    rw [hheap] at hh
    obtain ⟨c', map, hd, hwill⟩ := h.params c0 m0 param hh hp
    exact ⟨c', map, hsub.subset hd, hwill⟩
  admitted := by
    intro c0 m0 hh hst
    rw [hheap] at hh
    exact (h.admitted c0 m0 hh hst).mono hsub

theorem Honest.logged (h : Honest env s) {o : Out} (ho : ∀ c msg frame ok, o ≠ .write c msg frame ok) :
    Honest env (s.logged o) :=
  h.said rfl (.other h.log ho) (List.prefix_append _ _)

theorem Honest.wrote (h : Honest env s) {msg : Msg} (hmsg : msg.Caused s.log c) :
    Honest env (s.wrote env c msg (env.frame msg)) :=
  h.said rfl (.write h.log hmsg _) (List.prefix_append _ _)

theorem Honest.withData (h : Honest env s) (hh : s.heap c = some m) (data : Bytes) :
    Honest env (s.withData c m data) :=
  h.same hh rfl h.log (List.prefix_refl _) rfl rfl

theorem Honest.shut (h : Honest env s) (hh : s.heap c = some m) (fd : Fd) : Honest env (s.shut fd c m) := by
  have hlog : Grounded env (s.log ++ [.closeTimer c, .closeClient c]) := by
    rw [show s.log ++ [.closeTimer c, .closeClient c] = (s.log ++ [.closeTimer c]) ++ [.closeClient c] by simp]
    exact .other (.other h.log fun _ _ _ _ => by simp) fun _ _ _ _ => by simp
  exact h.same hh rfl hlog (List.prefix_append _ _) rfl rfl

/-- From `s`, what returns keeps the invariant and only adds to the log. -/
def Keeps (env : Env) (x : M α) (s : St) : Prop :=
  Honest env s → ∀ a s', x s = .ok a s' → Honest env s' ∧ s.log <+: s'.log

theorem keeps_of_ok {x : M α} {a : α} (h : x s = .ok a s') (hs : Honest env s → Honest env s' ∧ s.log <+: s'.log) :
    Keeps env x s := by
  intro h0 a' s1 h1
  rw [h] at h1
  cases h1
  exact hs h0

theorem keeps_pure (a : α) : Keeps env (pure a) s := keeps_of_ok rfl fun h => ⟨h, List.prefix_refl _⟩

theorem Keeps.bind {x : M α} {f : α → M β} (hx : Keeps env x s)
    (hf : ∀ a s1, x s = .ok a s1 → s.log <+: s1.log → Keeps env (f a) s1) : Keeps env (x >>= f) s := by
  intro h0 b s' h
  obtain ⟨a, s1, h1, h2⟩ := bind_eq_ok.mp h
  obtain ⟨hs1, hsub⟩ := hx h0 a s1 h1
  obtain ⟨hs', hsub'⟩ := hf a s1 h1 hsub hs1 b s' h2
  exact ⟨hs', hsub.trans hsub'⟩

/-! ## Publishing and closing -/

theorem keeps_uvWrite (msg : Msg) (hmsg : msg.Caused s.log c) :
    Keeps env (uvWrite env c msg (env.frame msg)) s := by
  intro h0 r s' h
  obtain ⟨-, -, rfl⟩ := uvWrite_ok h
  exact ⟨h0.wrote hmsg, List.prefix_append _ _⟩

/-- `close_client` publishes the will of the connection. -/
theorem keeps_closeClientWith {publish : Bytes → Bytes → M Unit}
    (hpub : ∀ s topic payload, Offered s.log (topic, payload) → Keeps env (publish topic payload) s) (fd : Fd)
    (err : Bytes) : Keeps env (closeClientWith publish fd err) s := by
  intro h0 a s' h
  cases hl : s.clientmap.lookup fd with
  | none =>
    rw [closeClientWith_none publish err hl] at h
    cases h
    exact ⟨h0, List.prefix_refl _⟩
  | some c =>
    by_cases hok : ∃ m, s.heap c = some m ∧ m.timer = true ∧ m.client = true
    · obtain ⟨m, hh, ht, hc⟩ := hok
      have hshut := h0.shut hh fd
      have hsub : s.log <+: (s.shut fd c m).log := List.prefix_append _ _
      rw [closeClientWith_some publish err hl hh ht hc] at h
      cases hp : m.param with
      | none =>
        rw [hp] at h
        cases h
        exact ⟨hshut, hsub⟩
      | some param =>
        rw [hp] at h
        cases hcd : param.map.get "cd" with
        | none =>
          simp only [hcd] at h
          cases h
        | some cd =>
          simp only [hcd] at h
          cases hw : param.will with
          | none =>
            rw [hw] at h
            cases h
            exact ⟨hshut, hsub⟩
          | some will =>
            rw [hw] at h
            obtain ⟨c', map, hd, hwill⟩ := h0.params c m param hh hp
            have hoffer : Offered (s.shut fd c m).log will := .will (hsub.subset hd) (hwill.symm.trans hw)
            obtain ⟨hs', hsub'⟩ := hpub _ will.1 will.2 hoffer hshut a s' h
            exact ⟨hs', hsub.trans hsub'⟩
    · have hbad : ∀ m, s.heap c = some m → m.timer = false ∨ m.client = false := by
        intro m hh
        by_contra hcon
        simp only [not_or, Bool.not_eq_false] at hcon
        exact hok ⟨m, hh, hcon.1, hcon.2⟩
      obtain ⟨e, s1, hraise⟩ := closeClientWith_bad fd err hl hbad
      rw [hraise publish] at h
      cases h

theorem keeps_publishTo {close : Fd → Bytes → M Unit} (hclose : ∀ s fd err, Keeps env (close fd err) s)
    {topic payload : Bytes} (ho : Offered s.log (topic, payload)) (fd : Fd) :
    Keeps env (publishTo env close topic payload (env.frame (.pb topic payload)) fd) s := by
  unfold publishTo
  refine Keeps.bind (keeps_of_ok (get_ok s) fun h => ⟨h, List.prefix_refl _⟩) fun a s1 hget _ => ?_
  cases hget
  by_cases hsub : fd ∈ s.subs topic
  · rw [if_pos hsub]
    refine Keeps.bind ?_ fun c s1 hc _ => ?_
    · intro h0 c s1 hc
      obtain ⟨rfl, -⟩ := assertClient_ok hc
      exact ⟨h0, List.prefix_refl _⟩
    · obtain ⟨rfl, -⟩ := assertClient_ok hc
      refine Keeps.bind (keeps_uvWrite (.pb topic payload) ho) fun r s2 _ _ => ?_
      cases r with
      | none => exact keeps_pure ()
      | some err => exact hclose s2 fd err
  · rw [if_neg hsub]
    exact keeps_pure ()

theorem keeps_publishLoop {close : Fd → Bytes → M Unit} (hclose : ∀ s fd err, Keeps env (close fd err) s)
    {topic payload : Bytes} (ho : Offered s.log (topic, payload)) (fds : List Fd) :
    Keeps env (publishLoop env close topic payload (env.frame (.pb topic payload)) fds) s := by
  induction fds generalizing s with
  | nil => exact keeps_pure ()
  | cons fd fds ih => exact (keeps_publishTo hclose ho fd).bind fun _ _ _ hsub => ih (ho.mono hsub)

theorem keeps_doPublishWith {close : Fd → Bytes → M Unit} (hclose : ∀ s fd err, Keeps env (close fd err) s)
    {topic payload : Bytes} (ho : Offered s.log (topic, payload)) :
    Keeps env (doPublishWith env close topic payload) s := by
  unfold doPublishWith
  refine Keeps.bind (keeps_of_ok (get_ok s) fun h => ⟨h, List.prefix_refl _⟩) fun a s1 hget _ => ?_
  cases hget
  by_cases hsub : s.subs topic = []
  · rw [if_pos hsub]
    exact keeps_pure ()
  · rw [if_neg hsub]
    refine Keeps.bind (keeps_of_ok (buildQuery_eq env _ s) fun h => ⟨h, List.prefix_refl _⟩) fun a s1 hframe _ => ?_
    rw [buildQuery_eq] at hframe
    cases hframe
    exact keeps_publishLoop hclose ho _

/-- By induction on how deep the calls are nested. -/
theorem keeps_closeClientFuel (fuel : Nat) (s : St) (fd : Fd) (err : Bytes) :
    Keeps env (closeClientFuel env fuel fd err) s := by
  induction fuel generalizing s fd err with
  | zero => exact keeps_pure ()
  | succ fuel ih => exact keeps_closeClientWith (fun _ _ _ ho => keeps_doPublishWith ih ho) fd err

theorem keeps_closeClient (s : St) (fd : Fd) (err : Bytes) : Keeps env (closeClient env fd err) s := by
  unfold Keeps
  rw [closeClient_apply]
  exact keeps_closeClientFuel _ s fd err

/-- **Publishing what has been offered.** -/
theorem keeps_doPublish {topic payload : Bytes} (ho : Offered s.log (topic, payload)) :
    Keeps env (doPublish env topic payload) s := by
  unfold Keeps
  rw [doPublish_apply]
  exact keeps_doPublishWith (keeps_closeClientFuel _) ho

/-! ## The commands -/

theorem keeps_publishConnack {st : Nat} {da : Bytes} (hmsg : (Msg.ca st da).Caused s.log c) :
    Keeps env (publishConnack env c st da) s := by
  unfold publishConnack
  refine Keeps.bind (keeps_of_ok (buildQuery_eq env _ s) fun h => ⟨h, List.prefix_refl _⟩) fun a s1 hframe _ => ?_
  rw [buildQuery_eq] at hframe
  cases hframe
  exact keeps_uvWrite _ hmsg

theorem keeps_refuse {map : Fields} {err : Bytes} (hd : .dispatch c .cn map ∈ s.log) (herr : err ∈ refusals map) :
    Keeps env (refuse env c err) s :=
  (keeps_publishConnack ⟨map, hd, .inr ⟨rfl, herr⟩⟩).bind fun _ _ _ _ => keeps_pure _

/-- The connection becomes authorized and is told so. -/
theorem keeps_admitClient {map : Fields} (hd : .dispatch c .cn map ∈ s.log) (ha : accepts map) :
    Keeps env (admitClient env c fd map) s := by
  intro h0 r s' h
  unfold admitClient at h
  rw [bind_of_ok (setClientid_eq _ fd s)] at h
  obtain ⟨_, s1, hann, h1⟩ := bind_eq_ok.mp h
  have hid : Honest env (s.identified (cdOf map) fd) := h0.said rfl h0.log (List.prefix_refl _)
  have hkeep : Keeps env (announce env map) (s.identified (cdOf map) fd) := by
    rw [announce_eq]
    cases hm : connectMessage map with
    | none => exact keeps_pure ()
    | some message => exact keeps_doPublish (.hello hd ha hm)
  obtain ⟨hs1, hsub⟩ := hkeep hid _ s1 hann
  obtain ⟨m, s2, hm, h2⟩ := bind_eq_ok.mp h1
  obtain ⟨rfl, hh⟩ := climapOf_ok hm
  rw [bind_of_ok (show setClimap c _ s2 = .ok () (s2.authorized c m) from rfl)] at h2
  unfold publishConnack at h2
  rw [bind_of_ok (buildQuery_eq env _ _)] at h2
  obtain ⟨-, -, rfl⟩ := uvWrite_ok h2
  have hd2 : .dispatch c .cn map ∈ s2.log := hsub.subset hd
  have hsub' : s2.log <+: ((s2.authorized c m).wrote env c (.ca 0 (ascii "ok")) (env.frame (.ca 0 (ascii "ok")))).log :=
    List.prefix_append _ _
  refine ⟨hs1.update { m with state := .stAuth } rfl ?_ hsub' (fun param hp => ?_) fun _ => ?_,
    hsub.trans hsub'⟩
  · have hcaused : (Msg.ca 0 (ascii "ok")).Caused s2.log c := ⟨map, hd2, .inl ⟨rfl, rfl, ha⟩⟩
    exact .write hs1.log hcaused _
  · obtain ⟨c', map', hd', hwill⟩ := hs1.params c m param hh hp
    exact ⟨c', map', hsub'.subset hd', hwill⟩
  · exact ⟨_, _, List.mem_append_right _ (List.mem_singleton.mpr rfl)⟩

theorem keeps_cn {map : Fields} (hl : s.clientmap.lookup fd = some c) (hh : s.heap c = some m)
    (hd : .dispatch c .cn map ∈ s.log) : Keeps env (cn env fd map) s := by
  intro h0 r s' h
  cases hst : m.state with
  | stAuth =>
    rw [cn_again env map hl hh hst] at h
    exact keeps_refuse hd (by simp [refusals]) h0 r s' h
  | stNew =>
    rw [cn_new env map hl hh hst] at h
    have hprep : Honest env (s.prepared fd c m map) := by
      refine h0.update { m with param := some (cnParam map) } rfl h0.log (List.prefix_refl _)
        (fun param hp => ?_) fun hauth => ?_
      · cases hp
        exact ⟨c, map, hd, rfl⟩
      · rw [show m.state = .stAuth from hauth] at hst
        cases hst
    cases hr : refusal s map with
    | some err =>
      simp only [hr] at h
      exact keeps_refuse (s := s.prepared fd c m map) hd (mem_refusals hr) hprep r s' h
    | none =>
      simp only [hr] at h
      exact keeps_admitClient (s := s.prepared fd c m map) hd (accepts_of_refusal hr).1 hprep r s' h

theorem keeps_pb {map : Fields} (hl : s.clientmap.lookup fd = some c) (hh : s.heap c = some m)
    (hd : .dispatch c .pb map ∈ s.log) : Keeps env (pb env fd map) s := by
  intro h0 r s' h
  unfold pb at h
  rw [bind_of_ok (assertClient_eq _ hl), bind_of_ok (climapOf_eq hh)] at h
  by_cases hst : m.state = .stAuth
  · rw [if_neg (by simp [hst])] at h
    have hpub : ∀ topic payload, map.get "tp" = some topic → map.get "pl" = some payload →
        Keeps env (doPublish env topic payload) s :=
      fun topic payload htp hpl => keeps_doPublish (.said hd (h0.admitted c m hh hst) htp hpl)
    cases htp : map.get "tp" with
    | none =>
      simp only [htp] at h
      cases h
      exact ⟨h0, List.prefix_refl _⟩
    | some topic =>
      cases hpl : map.get "pl" with
      | none =>
        simp only [htp, hpl] at h
        cases h
        exact ⟨h0, List.prefix_refl _⟩
      | some payload =>
        simp only [htp, hpl] at h
        exact ((hpub topic payload htp hpl).bind fun _ _ _ _ => keeps_pure _) h0 r s' h
  · rw [if_pos hst] at h
    cases h
    exact ⟨h0, List.prefix_refl _⟩

theorem keeps_pi {map : Fields} (hl : s.clientmap.lookup fd = some c) (hh : s.heap c = some m)
    (hd : .dispatch c .pi map ∈ s.log) : Keeps env (pi env fd) s := by
  intro h0 r s' h
  unfold pi at h
  rw [bind_of_ok (assertClient_eq _ hl), bind_of_ok (climapOf_eq hh)] at h
  by_cases hst : m.state = .stAuth
  · rw [if_neg (by simp [hst]), bind_of_ok (buildQuery_eq env .po s)] at h
    exact ((keeps_uvWrite .po ⟨h0.admitted c m hh hst, map, hd⟩).bind fun _ _ _ _ => keeps_pure _) h0 r s' h
  · rw [if_pos hst] at h
    cases h
    exact ⟨h0, List.prefix_refl _⟩

theorem keeps_dc : Keeps env (dc env fd) s := (keeps_closeClient s fd _).bind fun _ _ _ _ => keeps_pure _

/-- **A command of `c`**, once it stands in the log. -/
theorem keeps_command (hs : Serving fd c s) {cmd : Cmd} {map : Fields} (hd : .dispatch c cmd map ∈ s.log) :
    Keeps env (command env fd map cmd) s := by
  intro h0 r s' h
  cases hl : s.clientmap.lookup fd with
  | none =>
    obtain rfl := command_none hl h
    exact keeps_dc h0 r s' h
  | some c' =>
    obtain rfl := hs.only c' hl
    obtain ⟨m, hh⟩ := hs.climap
    cases cmd with
    | cn => exact keeps_cn hl hh hd h0 r s' h
    | dc => exact keeps_dc h0 r s' h
    | pb => exact keeps_pb hl hh hd h0 r s' h
    | pi => exact keeps_pi hl hh hd h0 r s' h

/-! ## Callbacks and runs -/

theorem keeps_turn (hs : Serving fd c s) : Keeps env (turn env fd c) s := by
  intro h0 b s' h
  obtain ⟨m, hh⟩ := hs.climap
  unfold turn at h
  rw [bind_of_ok (climapOf_eq hh)] at h
  obtain ⟨next, hnext⟩ := readCommand_total m.data
  rw [hnext] at h
  cases next with
  | wait =>
    cases h
    exact ⟨h0, List.prefix_refl _⟩
  | refuse rest err =>
    simp only at h
    rw [bind_of_ok (setData_eq rest hh)] at h
    exact ((keeps_closeClient (s.withData c m rest) fd err).bind fun _ _ _ _ => keeps_pure _) (h0.withData hh rest)
      b s' h
  | call cmd map rest =>
    simp only at h
    rw [bind_of_ok (setData_eq rest hh),
      bind_of_ok (show emit (.dispatch c cmd map) (s.withData c m rest) = .ok () (s.called c m rest cmd map) from rfl)]
      at h
    have hcalled : Honest env (s.called c m rest cmd map) := (h0.withData hh rest).logged fun _ _ _ _ => by simp
    have hsub : s.log <+: (s.called c m rest cmd map).log := List.prefix_append _ _
    have hd : .dispatch c cmd map ∈ (s.called c m rest cmd map).log :=
      List.mem_append_right _ (List.mem_singleton.mpr rfl)
    unfold handleCommand at h
    obtain ⟨hs', hsub'⟩ := ((keeps_command (hs.called hh rest cmd map) hd).bind fun r s1 _ _ => by
      cases r with
      | none => exact keeps_pure _
      | some err => exact (keeps_closeClient s1 fd err).bind fun _ _ _ _ => keeps_pure _) hcalled b s' h
    exact ⟨hs', hsub.trans hsub'⟩

theorem keeps_dataLoop (fuel : Nat) (hs : Serving fd c s) : Keeps env (dataLoop env fd c fuel) s := by
  induction fuel generalizing s with
  | zero => exact keeps_pure _
  | succ fuel ih =>
    intro h0 b s' h
    obtain ⟨m, hh⟩ := hs.climap
    unfold dataLoop at h
    rw [bind_of_ok (climapOf_eq hh)] at h
    by_cases hnil : m.data = []
    · rw [if_pos hnil] at h
      cases h
      exact ⟨h0, List.prefix_refl _⟩
    · rw [if_neg hnil] at h
      exact ((keeps_turn hs).bind fun go s1 hturn _ => by
        cases go with
        | true => exact ih (hs.turned hturn)
        | false => exact keeps_pure _) h0 b s' h

/-- **An event.** -/
theorem keeps_step (hw : WF s) (ev : Event) : Keeps env (step env ev) s := by
  intro h0 _ s' h
  by_cases hen : enabled s ev = true
  · have heq : step env ev s = handle env ev s := if_pos hen
    cases ev with
    | accept c fd =>
      obtain ⟨-, -, hconn⟩ := step_accept env hw hen
      rw [hconn] at h
      cases h
      have hlog : Grounded env (s.connected c fd).log := .other h0.log fun _ _ _ _ => by simp
      have hsub : s.log <+: (s.connected c fd).log := List.prefix_append _ _
      exact ⟨h0.update ⟨fd, [], none, .stNew, true, true⟩ rfl hlog hsub (fun _ hp => by cases hp)
        (fun hst => by cases hst), hsub⟩
    | chunk c data =>
      obtain ⟨hopen, -⟩ : s.isOpen c = true ∧ data ≠ [] := by simpa [enabled] using hen
      obtain ⟨m, hh, hc⟩ := isOpen_iff.mp hopen
      rw [heq, handle_chunk_eq hw data hh hc] at h
      have hrecv : Honest env (s.received c m data) :=
        (h0.logged (o := .recv c data) fun _ _ _ _ => by simp).withData hh _
      have hsub : s.log <+: (s.received c m data).log := List.prefix_append _ _
      obtain ⟨b, s1, hloop, hrest⟩ := bind_eq_ok.mp h
      obtain ⟨hs1, hsub1⟩ := keeps_dataLoop _ (.received hw data hh hc) hrecv b s1 hloop
      cases b with
      | true =>
        obtain ⟨-, -, -, ms, -, -, -, -, -, rfl⟩ := restartTimer_ok hrest
        refine ⟨(hs1.logged fun _ _ _ _ => by simp).logged fun _ _ _ _ => by simp, hsub.trans (hsub1.trans ?_)⟩
        exact (List.prefix_append _ _).trans (List.prefix_append _ _)
      | false =>
        cases hrest
        exact ⟨hs1, hsub.trans hsub1⟩
    | closed c err =>
      obtain ⟨m, hh, -⟩ := isOpen_iff.mp (show s.isOpen c = true from hen)
      rw [heq, handle, bind_of_ok (climapOf_eq hh)] at h
      exact keeps_closeClient s _ _ h0 _ s' h
    | timeout c =>
      cases hh : s.heap c with
      | none => simp [enabled, hh] at hen
      | some m =>
        rw [heq, handle, bind_of_ok (climapOf_eq hh)] at h
        exact keeps_closeClient s _ _ h0 _ s' h
  · rw [show step env ev s = .ok () s from if_neg hen] at h
    cases h
    exact ⟨h0, List.prefix_refl _⟩

theorem honest_of_run {evs : List Event} (h : run env evs = .ok () s) : Honest env s :=
  (Exec.run_invariant (I := fun s => WF s ∧ Honest env s) (Q := fun _ _ => True)
    (fun _ ev s' hI _ hstep => ⟨step_wf hI.1 hstep, (keeps_step hI.1 ev hI.2 () s' hstep).1⟩) ⟨WF.new, honest_new⟩
    (along_true evs) h).2

end Honest

/-- **The broker makes nothing up.** In the log of every run each write is the frame of its
message, and stands after what has caused the message. -/
theorem every_write_grounded {env : Env} {evs : List Event} {s : St} (h : run env evs = .ok () s) :
    Grounded env s.log := (honest_of_run h).log

/-- No write to 1 goes through: the first publication it should hear closes it, and 0 hears its
will. -/
def unsteadyRun : List Event :=
  [.accept 0 5, .chunk 0 (cnFrame "x" "5" "a	w" []), .accept 1 6,
    .chunk 1 (cnFrame "y" "5" "a" [("wt", ascii "w"), ("wp", ascii "bye")]),
    .chunk 0 (commandFrame [("id", ascii "pb"), ("tp", ascii "a"), ("pl", ascii "z")])]

def Env.unsteady : Env := { Env.calm with write := fun _ c => if c = 1 then some (ascii "EPIPE") else none }

theorem every_write_grounded_unsteady : ∃ s, run .unsteady unsteadyRun = .ok () s ∧
    (framesTo 0 s.log).length = 3 ∧ Grounded .unsteady s.log := by
  obtain ⟨s, hrun, hs⟩ := exists_of_endsIn (p := fun s => decide ((framesTo 0 s.log).length = 3))
    (r := run .unsteady unsteadyRun) (by decide +kernel)
  exact ⟨s, hrun, of_decide_eq_true hs, every_write_grounded hrun⟩

end ApApps.Sand

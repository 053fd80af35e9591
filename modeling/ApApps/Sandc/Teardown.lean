import ApApps.Sandc.Client

/- A connection of the client is torn down once.

   `Status` lists the four stages of a connection, with what has happened up to each of
   them. `torn_down_once` is about every run in which no coroutine comes back from a
   write or a read to a socket that another has closed (`Fits`): none of them raises, and
   the socket is closed once. In others one raises (`not_torn_down_once`), and a socket
   stays open if `connect` refuses the parameters (`connect_refused`). -/
namespace ApApps.Sandc
open ApApps.Redis ApApps.Sand Exec

/-! ## What happened -/

def opens (log : List Out) : List Fd :=
  log.filterMap fun out => match out with
    | .opened fd => some fd
    | _ => none

def closes (log : List Out) : List Fd :=
  log.filterMap fun out => match out with
    | .closed fd => some fd
    | _ => none

def connects (log : List Out) : Nat := log.countP fun out => out matches .connected

def disconnects (log : List Out) : Nat := log.countP fun out => out matches .onDisconnect ..

/-- The coroutine is in `connect`. -/
def Co.connecting : Co → Option Fd
  | .write (.connect cli) _ => some cli
  | .wrote (.connect cli) _ => some cli
  | _ => none

/-- The connection is not in use any more. -/
def Ended (s : Cli) : Prop := s.client = none ∧ ∀ co ∈ s.cos, co.connecting = none

/-- The socket that has been opened is closed once, when the connection ends, and if it has been
connected the callback is called once. -/
structure TornOnce (s : Cli) : Prop where
  closes_le : (closes s.log).length ≤ 1
  disconnects_le : disconnects s.log ≤ 1
  running : s.client ≠ none → closes s.log = [] ∧ disconnects s.log = 0
  ended : Ended s → closes s.log = opens s.log ∧ disconnects s.log = connects s.log

/-! ## What must not happen -/

/-- The coroutine finds the socket as it needs it: open, where it is going to close it. -/
def Finds (s : Cli) : Co → Prop
  | .wrote .publish (some _) => s.client ≠ none
  | .wrote .ping (some _) => s.client ≠ none
  | .wrote .disconnect _ => s.client ≠ none
  | .recv rerr =>
    match onRecv s.data with
    | .error _ => False
    | .ok (.handled ..) => True
    | .ok (.fail ..) => s.client ≠ none
    | .ok .idle => ∀ err ∈ rerr, err ≠ ascii "TIMEOUT" → s.client ≠ none
  | _ => True

/-- The parameters are accepted once the socket is open, `publish` and `run` are called after
`connect`, no coroutine waits for a socket that is closed, and those that go on find it open. -/
def Fits (s : Cli) : Event → Prop
  | .connect cli _ => cli ≠ none → checkParam s.param = true ∧
      checkPair s.param.willTopic s.param.willPayload = .ok () ∧
      checkPair s.param.connectTopic s.param.connectPayload = .ok ()
  | .publish .. => s.state ≠ .stNew
  | .disconnect _ => True
  | .run => s.state ≠ .stNew
  | .io _ out => out ≠ .badf
  | .readable _ out => out ≠ .badf
  | .resume i .. => ∀ co ∈ s.cos[i]?, Finds s co

/-! ## The stages of a connection -/

/-- What has happened, in numbers. -/
structure Tally (log : List Out) (opened closed : List Fd) (connected disconnected : Nat) : Prop where
  opens : opens log = opened
  closes : closes log = closed
  connects : connects log = connected
  disconnects : disconnects log = disconnected

/-- Whether `connect` has been called, the state, the socket, the coroutines and the log. -/
inductive Status : Bool → CliState → Option Fd → Bool → List Co → List Out → Prop where
  | fresh {called : Bool} : Status called .stNew none false [] []
  | connecting {fd : Fd} {co : Co} (hco : co.connecting = some fd) : Status true .stNew none true [co] [.opened fd]
  | running {fd : Fd} {cos : List Co} {log : List Out} (hcos : ∀ co ∈ cos, co.connecting = none)
      (h : Tally log [fd] [] 1 0) : Status true .stRun (some fd) true cos log
  | stopped {fd : Fd} {n : Nat} {cos : List Co} {log : List Out} (hcos : ∀ co ∈ cos, co.connecting = none)
      (h : Tally log [fd] [fd] n n) (hn : n ≤ 1) : Status true .stStop none false cos log

def Cli.Ok (s : Cli) : Prop := Status s.called s.state s.client s.isOpen s.cos s.log

theorem Cli.Ok.tornOnce {s : Cli} (h : s.Ok) : TornOnce s := by
  obtain ⟨param, client, data, state, called, isOpen, sent, cut, cos, log⟩ := s
  cases h with
  | fresh => exact ⟨Nat.zero_le _, Nat.zero_le _, by simp, fun _ => ⟨rfl, rfl⟩⟩
  | connecting hco =>
    refine ⟨Nat.zero_le _, Nat.zero_le _, by simp, fun hended => ?_⟩
    have hnone := hended.2 _ List.mem_cons_self
    rw [hco] at hnone
    cases hnone
  | running hcos h =>
    refine ⟨?_, ?_, fun _ => ⟨h.closes, h.disconnects⟩, fun hended => by cases hended.1⟩
    · rw [h.closes]
      exact Nat.zero_le _
    · rw [h.disconnects]
      exact Nat.zero_le _
  | stopped hcos h hn =>
    refine ⟨?_, ?_, by simp, fun _ => ⟨h.closes.trans h.opens.symm, h.disconnects.trans h.connects.symm⟩⟩
    · rw [h.closes]
      exact Nat.le_refl _
    · rw [h.disconnects]
      exact hn

/-! ## What the functions do -/

section Functions
variable {s : Cli} {fd : Fd}

theorem afterDisconnect_eq (h : s.client = some fd) (err : Option Bytes) :
    afterWrite .disconnect err s = .ok () (s.torn fd (.onDisconnect 0 (ascii "close by user"))) := by
  unfold afterWrite
  simp only
  rw [bind_of_ok (get_ok s), h]
  rfl

theorem tryWrite_ok (p : Pending) {out : WriteOut} (hout : out ≠ .badf) (s : Cli) :
    ∃ res sent cut, tryWrite p out s = .ok res { s with sent, cut } := by
  cases out with
  | badf => exact absurd rfl hout
  | again => exact ⟨_, s.sent, s.cut, rfl⟩
  | failed err => exact ⟨_, s.sent, _, rfl⟩
  | wrote n => exact ⟨_, _, s.cut, rfl⟩

/-- Tables of strings that are not empty are encoded. -/
theorem buildFrame_ok (env : Env) {map : List (Bytes × Bytes)} (hmap : map ≠ []) (s : Cli) :
    ∃ frame, buildFrame env map s = .ok frame s := by
  have hne : toarr (env.pairs map) ≠ [] := by
    intro h
    have hnil : env.pairs map = [] := by simpa [toarr] using h
    have hperm := env.pairs_perm map
    rw [hnil] at hperm
    exact hmap hperm.nil_eq.symm
  have hargs : (toarr (env.pairs map)).map QueryArg.text ≠ [] := by simpa using hne
  obtain ⟨frame, hframe⟩ : ∃ frame, encode (env.pairs map) = .ok frame :=
    ⟨_, redisBuildQuery_eq _ hargs (by simp)⟩
  refine ⟨frame, ?_⟩
  unfold buildFrame
  rw [hframe]

/-! ## Stages -/

theorem connecting_of_mem_eraseIdx {cos : List Co} (h : ∀ co ∈ cos, co.connecting = none) (i : Nat) :
    ∀ co ∈ cos.eraseIdx i, co.connecting = none :=
  fun co hco => h co (List.mem_of_mem_eraseIdx hco)

theorem Tally.torn {log : List Out} (h : Tally log [fd] [] 1 0) (code : Nat) (err : Bytes) :
    Tally (log ++ [.closed fd] ++ [.onDisconnect code err]) [fd] [fd] 1 1 := by
  have hopens : Sandc.opens log = [fd] := h.opens
  have hcloses : Sandc.closes log = [] := h.closes
  have hconnects : Sandc.connects log = 1 := h.connects
  have hdisconnects : Sandc.disconnects log = 0 := h.disconnects
  constructor
  · simpa [Sandc.opens] using hopens
  · simpa [Sandc.closes] using hcloses
  · simpa [Sandc.connects] using hconnects
  · simpa [Sandc.disconnects] using hdisconnects

/-- A connection that has been made and is in use. -/
theorem Cli.Ok.running (h : s.Ok) (hclient : s.client ≠ none) :
    ∃ fd, s.called = true ∧ s.state = .stRun ∧ s.client = some fd ∧ s.isOpen = true ∧
      (∀ co ∈ s.cos, co.connecting = none) ∧ Tally s.log [fd] [] 1 0 := by
  obtain ⟨param, client, data, state, called, isOpen, sent, cut, cos, log⟩ := s
  cases h with
  | fresh => exact absurd rfl hclient
  | connecting => exact absurd rfl hclient
  | running hcos h => exact ⟨_, rfl, rfl, rfl, rfl, hcos, h⟩
  | stopped => exact absurd rfl hclient

/-- A connection that has been made. -/
theorem Cli.Ok.live (h : s.Ok) (hstate : s.state ≠ .stNew) :
    (s.client ≠ none ∨ s.state = .stStop) ∧ ∀ co ∈ s.cos, co.connecting = none := by
  obtain ⟨param, client, data, state, called, isOpen, sent, cut, cos, log⟩ := s
  cases h with
  | fresh => exact absurd rfl hstate
  | connecting => exact absurd rfl hstate
  | running hcos h => exact ⟨.inl (by simp), hcos⟩
  | stopped hcos h => exact ⟨.inr rfl, hcos⟩

/-- Other coroutines wait, none of them in `connect`. -/
theorem Cli.Ok.withCos (h : s.Ok) (hstate : s.state ≠ .stNew) {cos : List Co}
    (hcos : ∀ co ∈ cos, co.connecting = none) : { s with cos }.Ok := by
  obtain ⟨param, client, data, state, called, isOpen, sent, cut, cos, log⟩ := s
  cases h with
  | fresh => exact absurd rfl hstate
  | connecting => exact absurd rfl hstate
  | running _ h => exact Status.running hcos h
  | stopped _ h hn => exact Status.stopped hcos h hn

theorem Cli.Ok.torn (h : s.Ok) (hclient : s.client = some fd) (code : Nat) (err : Bytes) :
    (s.torn fd (.onDisconnect code err)).Ok := by
  obtain ⟨fd', hcalled, _, hfd, _, hcos, htally⟩ := h.running (by simp [hclient])
  obtain rfl : fd' = fd := Option.some.inj (hfd.symm.trans hclient)
  unfold Cli.Ok
  rw [show (s.torn fd' (.onDisconnect code err)).called = true from hcalled]
  exact Status.stopped hcos (htally.torn code err) (Nat.le_refl 1)

/-! ## Steps -/

theorem afterWrite_ok {k : Kont} (hk : ∀ cli, k ≠ .connect cli) {err : Option Bytes} (h : s.Ok)
    (hstate : s.state ≠ .stNew) (hfinds : Finds s (.wrote k err)) : ∃ s', afterWrite k err s = .ok () s' ∧ s'.Ok := by
  cases k with
  | connect cli => exact absurd rfl (hk cli)
  | publish =>
    cases err with
    | none => exact ⟨s, rfl, h⟩
    | some err =>
      obtain ⟨fd, hfd⟩ := Option.ne_none_iff_exists'.mp hfinds
      exact ⟨_, closeClient_eq hfd err, h.torn hfd 1 err⟩
  | disconnect =>
    obtain ⟨fd, hfd⟩ : ∃ fd, s.client = some fd := Option.ne_none_iff_exists'.mp hfinds
    exact ⟨_, afterDisconnect_eq hfd err, h.torn hfd 0 _⟩
  | ping =>
    cases err with
    | none =>
      refine ⟨{ s with cos := .pingHead :: s.cos }, rfl, h.withCos hstate ?_⟩
      exact List.forall_mem_cons.mpr ⟨rfl, (h.live hstate).2⟩
    | some err =>
      obtain ⟨fd, hfd⟩ := Option.ne_none_iff_exists'.mp hfinds
      exact ⟨_, closeClient_eq hfd err, h.torn hfd 1 err⟩

/-- Whoever comes back from a write finds an open socket as it needs it. -/
theorem finds_of_open (h : s.client ≠ none) (k : Kont) (err : Option Bytes) : Finds s (.wrote k err) := by
  cases k with
  | connect cli => trivial
  | publish => cases err <;> trivial
  | disconnect => exact h
  | ping => cases err <;> trivial

theorem connecting_of_ne {k : Kont} (hk : ∀ cli, k ≠ .connect cli) :
    (∀ p, (Co.write k p).connecting = none) ∧ ∀ err, (Co.wrote k err).connecting = none := by
  cases k with
  | connect cli => exact absurd rfl (hk cli)
  | publish => exact ⟨fun _ => rfl, fun _ => rfl⟩
  | disconnect => exact ⟨fun _ => rfl, fun _ => rfl⟩
  | ping => exact ⟨fun _ => rfl, fun _ => rfl⟩

/-- A write to the open socket. -/
theorem seWrite_ok {k : Kont} (hk : ∀ cli, k ≠ .connect cli) (h : s.Ok) (hclient : s.client ≠ none)
    (data : Bytes) {out : WriteOut} (hout : out ≠ .badf) : ∃ s', seWrite k s.client data out s = .ok () s' ∧ s'.Ok := by
  obtain ⟨fd, _, hrun, hfd, _, hcos, _⟩ := h.running hclient
  have hstate : s.state ≠ .stNew := by rw [hrun]; decide
  obtain ⟨res, sent, cut, htry⟩ := tryWrite_ok ⟨data, 0⟩ hout s
  have hok : { s with sent, cut }.Ok := h
  unfold seWrite
  rw [hfd]
  simp only
  rw [bind_of_ok htry]
  cases res with
  | done err => exact afterWrite_ok hk hok hstate (finds_of_open hclient k err)
  | wait p => exact ⟨_, rfl, hok.withCos hstate (List.forall_mem_cons.mpr ⟨(connecting_of_ne hk).1 p, hcos⟩)⟩

theorem publish_ok (env : Env) (h : s.Ok) (hstate : s.state ≠ .stNew) (topic payload : Bytes) {out : WriteOut}
    (hout : s.isOpen = true → out ≠ .badf) : ∃ s', publish env topic payload out s = .ok () s' ∧ s'.Ok := by
  unfold publish
  rw [bind_of_ok (get_ok s)]
  by_cases hstop : s.state = .stStop
  · rw [if_pos hstop]
    exact ⟨s, rfl, h⟩
  · rw [if_neg hstop]
    have hclient := (h.live hstate).1.resolve_right hstop
    obtain ⟨_, _, _, _, hopen, _⟩ := h.running hclient
    obtain ⟨frame, hframe⟩ := buildFrame_ok env (show pbFields topic payload ≠ [] by simp [pbFields]) s
    rw [bind_of_ok hframe, bind_of_ok (get_ok s)]
    exact seWrite_ok (by simp) h hclient frame (hout hopen)

theorem disconnect_ok (env : Env) (h : s.Ok) {out : WriteOut} (hout : s.isOpen = true → out ≠ .badf) :
    ∃ s', disconnect env out s = .ok () s' ∧ s'.Ok := by
  unfold disconnect
  rw [bind_of_ok (get_ok s)]
  by_cases hrun : s.state ≠ .stRun
  · rw [if_pos hrun]
    exact ⟨s, rfl, h⟩
  · rw [if_neg hrun]
    have hrun := not_not.mp hrun
    have hclient := (h.live (by rw [hrun]; decide)).1.resolve_right (by rw [hrun]; decide)
    obtain ⟨_, _, _, _, hopen, _⟩ := h.running hclient
    obtain ⟨frame, hframe⟩ := buildFrame_ok env (show dcFields ≠ [] by simp [dcFields]) s
    rw [bind_of_ok hframe, bind_of_ok (get_ok s)]
    exact seWrite_ok (by simp) h hclient frame (hout hopen)

theorem pingHead_ok (env : Env) (h : s.Ok) (hstate : s.state ≠ .stNew) (late due : Bool) {out : WriteOut}
    (hout : s.isOpen = true → out ≠ .badf) : ∃ s', pingHead env late due out s = .ok () s' ∧ s'.Ok := by
  unfold pingHead
  rw [bind_of_ok (get_ok s)]
  by_cases hstop : s.state = .stStop
  · rw [if_pos hstop]
    exact ⟨s, rfl, h⟩
  · rw [if_neg hstop]
    have hclient := (h.live hstate).1.resolve_right hstop
    obtain ⟨fd, _, _, hfd, hopen, hcos, _⟩ := h.running hclient
    cases late with
    | true => exact ⟨_, closeClient_eq hfd _, h.torn hfd 1 _⟩
    | false =>
      cases due with
      | true =>
        obtain ⟨frame, hframe⟩ := buildFrame_ok env (show piFields ≠ [] by simp [piFields]) s
        simp only [if_true, Bool.false_eq_true, if_false]
        rw [bind_of_ok hframe, bind_of_ok (get_ok s)]
        exact seWrite_ok (by simp) h hclient frame (hout hopen)
      | false => exact ⟨_, rfl, h.withCos hstate (List.forall_mem_cons.mpr ⟨rfl, hcos⟩)⟩

theorem readHead_ok (h : s.Ok) (hstate : s.state ≠ .stNew) : ∃ s', readHead s = .ok () s' ∧ s'.Ok := by
  unfold readHead
  rw [bind_of_ok (get_ok s)]
  by_cases hstop : s.state = .stStop
  · rw [if_pos hstop]
    exact ⟨s, rfl, h⟩
  · rw [if_neg hstop, bind_of_ok (get_ok s)]
    obtain ⟨fd, _, _, hfd, _, hcos, _⟩ := h.running ((h.live hstate).1.resolve_right hstop)
    rw [hfd]
    exact ⟨_, rfl, h.withCos hstate (List.forall_mem_cons.mpr ⟨rfl, hcos⟩)⟩

/-- Messages leave the counts alone. -/
theorem dispatch_tally {rest rest' : Bytes} {map : Fields} {out : List Out}
    (h : dispatch rest map = .ok (.handled rest' out)) :
    opens out = [] ∧ closes out = [] ∧ connects out = 0 ∧ disconnects out = 0 := by
  unfold dispatch at h
  split at h
  · cases h
    exact ⟨rfl, rfl, rfl, rfl⟩
  · split at h
    · cases h
      exact ⟨rfl, rfl, rfl, rfl⟩
    · split at h
      · split at h
        · cases h
          exact ⟨rfl, rfl, rfl, rfl⟩
        · cases h
      · split at h
        · cases h
          exact ⟨rfl, rfl, rfl, rfl⟩
        · cases h

/-- Messages that have been handled. -/
theorem onRecv_tally {data rest : Bytes} {out : List Out} (h : onRecv data = .ok (.handled rest out)) :
    opens out = [] ∧ closes out = [] ∧ connects out = 0 ∧ disconnects out = 0 := by
  unfold onRecv at h
  split at h
  · cases h
  · split at h
    · cases h
    · cases h
    · simp only [bind, Except.bind] at h
      split at h
      · cases h
      · split at h
        · cases h
        · split at h
          · cases h
          · exact dispatch_tally h

theorem Cli.Ok.handled (h : s.Ok) (hstate : s.state ≠ .stNew) {out : List Out} (data : Bytes)
    (hout : opens out = [] ∧ closes out = [] ∧ connects out = 0 ∧ disconnects out = 0) :
    { s with data, log := s.log ++ out }.Ok := by
  obtain ⟨ho, hc, hn, hd⟩ := hout
  have htally : ∀ {log opened closed connected disconnected}, Tally log opened closed connected disconnected →
      Tally (log ++ out) opened closed connected disconnected := by
    intro log opened closed connected disconnected ht
    have hopens : opens (log ++ out) = opens log ++ opens out := List.filterMap_append
    have hcloses : closes (log ++ out) = closes log ++ closes out := List.filterMap_append
    have hconnects : connects (log ++ out) = connects log + connects out := List.countP_append
    have hdisconnects : disconnects (log ++ out) = disconnects log + disconnects out := List.countP_append
    constructor
    · rw [hopens, ho, List.append_nil, ht.opens]
    · rw [hcloses, hc, List.append_nil, ht.closes]
    · rw [hconnects, hn, Nat.add_zero, ht.connects]
    · rw [hdisconnects, hd, Nat.add_zero, ht.disconnects]
  obtain ⟨param, client, data', state, called, isOpen, sent, cut, cos, log⟩ := s
  cases h with
  | fresh => exact absurd rfl hstate
  | connecting => exact absurd rfl hstate
  | running hcos h => exact Status.running hcos (htally h)
  | stopped hcos h hn => exact Status.stopped hcos (htally h) hn

theorem recvStep_ok {rerr : Option Bytes} (h : s.Ok) (hstate : s.state ≠ .stNew) (hfinds : Finds s (.recv rerr)) :
    ∃ s', recvStep rerr s = .ok () s' ∧ s'.Ok := by
  have hcos := (h.live hstate).2
  unfold recvStep
  rw [bind_of_ok (get_ok s)]
  simp only [Finds] at hfinds
  cases hrecv : onRecv s.data with
  | error e =>
    rw [hrecv] at hfinds
    exact hfinds.elim
  | ok res =>
    rw [hrecv] at hfinds
    cases res with
    | handled rest out =>
      have hok := h.handled hstate rest (onRecv_tally hrecv)
      exact ⟨_, rfl, hok.withCos hstate (List.forall_mem_cons.mpr ⟨rfl, hcos⟩)⟩
    | fail rest err =>
      obtain ⟨fd, hfd⟩ := Option.ne_none_iff_exists'.mp hfinds
      have hok : { s with data := rest }.Ok := h
      refine ⟨_, ?_, hok.torn hfd 1 err⟩
      simp only
      rw [bind_of_ok (modify_ok _ s)]
      exact closeClient_eq (show ({ s with data := rest } : Cli).client = some fd from hfd) err
    | idle =>
      have hread : ∃ s', suspend .readHead s = .ok () s' ∧ s'.Ok :=
        ⟨_, rfl, h.withCos hstate (List.forall_mem_cons.mpr ⟨rfl, hcos⟩)⟩
      cases rerr with
      | none => exact hread
      | some err =>
        by_cases htimeout : err = ascii "TIMEOUT"
        · simp only [htimeout, if_true]
          exact hread
        · obtain ⟨fd, hfd⟩ := Option.ne_none_iff_exists'.mp (hfinds err rfl htimeout)
          simp only [htimeout, if_false]
          exact ⟨_, closeClient_eq hfd err, h.torn hfd 1 err⟩

/-- A coroutine goes on, after `connect` has returned. -/
theorem goOn_ok (env : Env) (late due : Bool) {out : WriteOut} {co : Co} (h : s.Ok) (hstate : s.state ≠ .stNew)
    (hco : co.connecting = none) (hfinds : Finds s co) (hout : s.isOpen = true → out ≠ .badf) :
    ∃ s', goOn env late due out co s = .ok () s' ∧ s'.Ok := by
  have hcos := (h.live hstate).2
  have hagain : ∀ co' : Co, co'.connecting = none → ∃ s', suspend co' s = .ok () s' ∧ s'.Ok :=
    fun co' hco' => ⟨_, rfl, h.withCos hstate (List.forall_mem_cons.mpr ⟨hco', hcos⟩)⟩
  cases co with
  | write k p => exact hagain _ hco
  | wrote k err =>
    have hk : ∀ cli, k ≠ .connect cli := by
      rintro cli rfl
      cases hco
    exact afterWrite_ok hk h hstate hfinds
  | pingHead => exact pingHead_ok env h hstate late due hout
  | readHead => exact readHead_ok h hstate
  | reading => exact hagain _ rfl
  | gotRead data rerr =>
    have hok : { s with data := s.data ++ data.getD [] }.Ok := h
    exact ⟨_, rfl, hok.withCos hstate (List.forall_mem_cons.mpr ⟨rfl, hcos⟩)⟩
  | recv rerr => exact recvStep_ok h hstate hfinds

/-! ## connect -/

/-- `se.write` returns to `connect`. -/
theorem afterConnect_ok {param : Param} {data sent : Bytes} {cut : Bool} (err : Option Bytes) :
    ∃ s', afterWrite (.connect fd) err ⟨param, none, data, .stNew, true, true, sent, cut, [], [.opened fd]⟩ =
      .ok () s' ∧ s'.Ok := by
  cases err with
  | none => exact ⟨_, rfl, Status.running (by simp) ⟨rfl, rfl, rfl, rfl⟩⟩
  | some err => exact ⟨_, rfl, Status.stopped (by simp) ⟨rfl, rfl, rfl, rfl⟩ (Nat.zero_le 1)⟩

theorem connect_ok (env : Env) (h : s.Ok) (hcalled : s.called = false) {cli : Option Fd} {out : WriteOut}
    (hout : out ≠ .badf) (hfits : Fits s (.connect cli out)) : ∃ s', connect env cli out s = .ok () s' ∧ s'.Ok := by
  obtain ⟨param, client, data, state, called, isOpen, sent, cut, cos, log⟩ := s
  cases h with
  | connecting => cases hcalled
  | running => cases hcalled
  | stopped => cases hcalled
  | fresh =>
    cases cli with
    | none => exact ⟨_, rfl, Status.fresh⟩
    | some fd =>
      obtain ⟨hparam, hwill, hconnect⟩ := hfits (by simp)
      obtain ⟨frame, hframe⟩ := buildFrame_ok env (show cnFields env param ≠ [] by simp [cnFields])
        ⟨param, none, data, .stNew, true, true, sent, cut, [], [.opened fd]⟩
      obtain ⟨res, sent', cut', htry⟩ := tryWrite_ok ⟨frame, 0⟩ hout
        ⟨param, none, data, .stNew, true, true, sent, cut, [], [.opened fd]⟩
      have hrun : connect env (some fd) out ⟨param, none, data, .stNew, called, false, sent, cut, [], []⟩ =
          seWrite (.connect fd) (some fd) frame out
            ⟨param, none, data, .stNew, true, true, sent, cut, [], [.opened fd]⟩ := by
        unfold connect
        rw [bind_of_ok (modify_ok _ _)]
        simp only
        rw [bind_of_ok (show emit (.opened fd) _ = .ok () _ from modify_ok _ _), bind_of_ok (modify_ok _ _),
          bind_of_ok (get_ok _)]
        simp only [hparam, Bool.true_eq_false, if_false, hwill, hconnect]
        rw [bind_of_ok (show lift (.ok ()) _ = .ok () _ from rfl), bind_of_ok (show lift (.ok ()) _ = .ok () _ from rfl)]
        exact bind_of_ok hframe
      rw [hrun]
      unfold seWrite
      simp only
      rw [bind_of_ok htry]
      cases res with
      | done err => exact afterConnect_ok err
      | wait p => exact ⟨_, rfl, Status.connecting rfl⟩

/-- A coroutine is at another place. -/
theorem Cli.Ok.replaced (h : s.Ok) {i : Nat} {co co' : Co} (hi : s.cos[i]? = some co)
    (hco : co'.connecting = co.connecting) : { s with cos := co' :: s.cos.eraseIdx i }.Ok := by
  obtain ⟨param, client, data, state, called, isOpen, sent, cut, cos, log⟩ := s
  have hmem : co ∈ cos := List.mem_of_getElem? hi
  cases h with
  | fresh => cases hmem
  | connecting hone =>
    obtain rfl := List.mem_singleton.mp hmem
    have hi0 : i = 0 := by
      have := (List.getElem?_eq_some_iff.mp hi).1
      simpa using this
    subst hi0
    exact Status.connecting (hco.trans hone)
  | running hcos h =>
    exact Status.running (List.forall_mem_cons.mpr ⟨hco.trans (hcos _ hmem), connecting_of_mem_eraseIdx hcos i⟩) h
  | stopped hcos h hn =>
    exact Status.stopped (List.forall_mem_cons.mpr ⟨hco.trans (hcos _ hmem), connecting_of_mem_eraseIdx hcos i⟩) h hn

/-! ## Runs -/

theorem io_ok (env : Env) (h : s.Ok) (i : Nat) {out : WriteOut} (hout : out ≠ .badf) :
    ∃ s', handle env (.io i out) s = .ok () s' ∧ s'.Ok := by
  unfold handle
  simp only
  rw [bind_of_ok (get_ok s)]
  cases hi : s.cos[i]? with
  | none => exact ⟨s, rfl, h⟩
  | some co =>
    cases co with
    | write k p =>
      obtain ⟨res, sent, cut, htry⟩ := tryWrite_ok p hout { s with cos := s.cos.eraseIdx i }
      have hok : { s with sent, cut }.Ok := h
      simp only
      rw [bind_of_ok (modify_ok _ s), bind_of_ok htry]
      -- the coroutine is still in the same function
      cases res with
      | done err =>
        refine ⟨_, rfl, hok.replaced hi ?_⟩
        cases k <;> rfl
      | wait p' =>
        refine ⟨_, rfl, hok.replaced hi ?_⟩
        cases k <;> rfl
    | wrote => exact ⟨s, rfl, h⟩
    | pingHead => exact ⟨s, rfl, h⟩
    | readHead => exact ⟨s, rfl, h⟩
    | reading => exact ⟨s, rfl, h⟩
    | gotRead => exact ⟨s, rfl, h⟩
    | recv => exact ⟨s, rfl, h⟩

theorem readable_ok (env : Env) (h : s.Ok) (i : Nat) {out : ReadOut} (hout : out ≠ .badf) :
    ∃ s', handle env (.readable i out) s = .ok () s' ∧ s'.Ok := by
  unfold handle
  simp only
  rw [bind_of_ok (get_ok s)]
  cases out with
  | badf => exact absurd rfl hout
  | got data rerr =>
    cases hi : s.cos[i]? with
    | none => exact ⟨s, rfl, h⟩
    | some co =>
      cases co with
      | reading =>
        simp only
        rw [bind_of_ok (modify_ok _ s)]
        exact ⟨_, rfl, h.replaced hi rfl⟩
      | write => exact ⟨s, rfl, h⟩
      | wrote => exact ⟨s, rfl, h⟩
      | pingHead => exact ⟨s, rfl, h⟩
      | readHead => exact ⟨s, rfl, h⟩
      | gotRead => exact ⟨s, rfl, h⟩
      | recv => exact ⟨s, rfl, h⟩

theorem resume_ok (env : Env) (h : s.Ok) (i : Nat) (late due : Bool) {out : WriteOut}
    (hout : s.isOpen = true → out ≠ .badf) (hfits : Fits s (.resume i late due out)) :
    ∃ s', handle env (.resume i late due out) s = .ok () s' ∧ s'.Ok := by
  unfold handle
  simp only
  rw [bind_of_ok (get_ok s)]
  cases hi : s.cos[i]? with
  | none => exact ⟨s, rfl, h⟩
  | some co =>
    simp only
    rw [bind_of_ok (modify_ok _ s)]
    by_cases hstate : s.state = .stNew
    · -- the only coroutine is in `connect`
      obtain ⟨param, client, data, state, called, isOpen, sent, cut, cos, log⟩ := s
      cases h with
      | running => cases hstate
      | stopped => cases hstate
      | fresh => cases hi
      | connecting hone =>
        obtain rfl := List.mem_singleton.mp (List.mem_of_getElem? hi)
        have hi0 : i = 0 := by
          have := (List.getElem?_eq_some_iff.mp hi).1
          simpa using this
        subst hi0
        rename_i fd
        cases co with
        | write k p => exact ⟨_, rfl, Status.connecting hone⟩
        | wrote k err =>
          cases k with
          | connect cli =>
            cases hone
            exact afterConnect_ok err
          | publish => cases hone
          | disconnect => cases hone
          | ping => cases hone
        | pingHead => cases hone
        | readHead => cases hone
        | reading => cases hone
        | gotRead => cases hone
        | recv => cases hone
    · have hcos := (h.live hstate).2
      exact goOn_ok env late due (h.withCos hstate (connecting_of_mem_eraseIdx hcos i)) hstate
        (hcos co (List.mem_of_getElem? hi)) (hfits co hi) hout

/-- **A step that fits does not raise**, and leaves the connection in one of the stages. -/
theorem step_ok (env : Env) (h : s.Ok) {ev : Event} (hfits : Fits s ev) :
    ∃ s', step env ev s = .ok () s' ∧ s'.Ok := by
  unfold step
  cases henabled : enabled s ev with
  | false => exact ⟨s, rfl, h⟩
  | true =>
    simp only [if_true]
    cases ev with
    | connect cli out =>
      simp only [enabled, Bool.and_eq_true, Bool.not_eq_true', decide_eq_true_eq] at henabled
      exact connect_ok env h henabled.1 henabled.2 hfits
    | publish topic payload out =>
      refine publish_ok env h hfits topic payload fun hopen => ?_
      simp only [enabled, hopen, Bool.not_true, Bool.false_or, Bool.and_eq_true, decide_eq_true_eq] at henabled
      exact henabled.2
    | disconnect out =>
      refine disconnect_ok env h fun hopen => ?_
      simpa [enabled, hopen, Event.badf] using henabled
    | run =>
      have hcos := (h.live hfits).2
      exact ⟨_, rfl, h.withCos hfits
        (List.forall_mem_cons.mpr ⟨rfl, List.forall_mem_cons.mpr ⟨rfl, hcos⟩⟩)⟩
    | io i out => exact io_ok env h i hfits
    | readable i out => exact readable_ok env h i hfits
    | resume i late due out =>
      refine resume_ok env h i late due (fun hopen => ?_) hfits
      simpa [enabled, hopen, Event.badf] using henabled

end Functions

/-- **A connection is torn down once**, and no coroutine raises, in every run whose steps fit. -/
theorem torn_down_once (env : Env) (param : Param) {evs : List Event}
    (hfits : Along (step env) Fits (.new param) evs) :
    ∃ s, run env param evs = .ok () s ∧ TornOnce s := by
  have hall : ∀ (evs : List Event) (s : Cli), s.Ok → Along (step env) Fits s evs →
      ∃ s', runAll (step env) evs s = .ok () s' ∧ s'.Ok := by
    intro evs
    induction evs with
    | nil => exact fun s h _ => ⟨s, rfl, h⟩
    | cons ev evs ih =>
      intro s h halong
      obtain ⟨s1, hstep, h1⟩ := step_ok env h halong.1
      obtain ⟨s2, hrest, h2⟩ := ih s1 h1 (halong.2 s1 hstep)
      exact ⟨s2, by rw [runAll, bind_of_ok hstep, hrest], h2⟩
  obtain ⟨s, hrun, hok⟩ := hall evs (.new param) Status.fresh hfits
  exact ⟨s, hrun, hok.tornOnce⟩

/-! ## Runs that fit, and others -/

theorem perm_self (l : List (Bytes × Bytes)) : l.Perm l := .refl l

def Env.plain : Env := ⟨id, perm_self, fun _ => []⟩

/-- Parameters that `connect` accepts. -/
def goodParam : Param :=
  ⟨ascii "c", some (ascii "u"), some (ascii "p"), ascii "v0.1", some (.int 30), [ascii "t"], none, none, none, none⟩

/-- `Fits` of the events of a run without messages, computed. -/
def fitsCheck (s : Cli) : Event → Bool
  | .connect _ _ => checkParam s.param && (checkPair s.param.willTopic s.param.willPayload).isOk &&
      (checkPair s.param.connectTopic s.param.connectPayload).isOk
  | .publish .. => s.state ≠ .stNew
  | .disconnect _ => true
  | .run => s.state ≠ .stNew
  | .io _ out => out ≠ .badf
  | .readable _ out => out ≠ .badf
  | .resume i .. => s.cos[i]?.all fun co =>
    match co with
    | .wrote _ _ => s.client.isSome
    | .recv _ => false
    | _ => true

theorem ok_of_isOk {x : Except LuaError Unit} (h : x.isOk = true) : x = .ok () := by
  cases x with
  | ok a => rfl
  | error e => cases h

theorem fits_of_check (s : Cli) (ev : Event) (h : fitsCheck s ev = true) : Fits s ev := by
  cases ev with
  | connect cli out =>
    simp only [fitsCheck, Bool.and_eq_true] at h
    exact fun _ => ⟨h.1.1, ok_of_isOk h.1.2, ok_of_isOk h.2⟩
  | publish topic payload out =>
    have hstate : s.state ≠ .stNew := of_decide_eq_true h
    exact hstate
  | disconnect out => trivial
  | run =>
    have hstate : s.state ≠ .stNew := of_decide_eq_true h
    exact hstate
  | io i out =>
    have hout : out ≠ .badf := of_decide_eq_true h
    exact hout
  | readable i out =>
    have hout : out ≠ .badf := of_decide_eq_true h
    exact hout
  | resume i late due out =>
    intro co hco
    simp only [fitsCheck, Option.mem_def.mp hco, Option.all_some] at h
    cases co with
    | wrote k err => exact finds_of_open (Option.isSome_iff_ne_none.mp h) k err
    | recv rerr => cases h
    | _ => trivial

/-- A publication that is written in two parts, a ping, and `disconnect`; the coroutines of
`run` then end. -/
def quietRun : List Event :=
  [.connect (some 5) (.wrote 1000), .run, .publish (ascii "t") (ascii "x") (.wrote 3), .io 0 (.wrote 1000),
    .resume 0 false false .again, .resume 0 false true (.wrote 1000), .disconnect (.wrote 1000),
    .resume 0 false false .again, .resume 0 false false .again]

theorem torn_down_once_quiet : ∃ s, run .plain goodParam quietRun = .ok () s ∧ TornOnce s :=
  torn_down_once .plain goodParam
    ((along_of_check (p := fitsCheck) (by decide +kernel)).mono fun s ev h => fits_of_check s ev h)

/-- Two coroutines wait in `se.write` when the peer resets the connection. -/
def blockedRun : List Event :=
  [.publish (ascii "t") (ascii "x") .again, .publish (ascii "t") (ascii "y") .again,
    .io 0 (.failed (ascii "ECONNRESET")), .io 1 (.failed (ascii "ECONNRESET")),
    .resume 0 false false .again, .resume 0 false false .again]

/-- The second of them closes a socket that is not there any more. -/
theorem not_torn_down_once : ¬ ∀ (env : Env) (param : Param) (fd : Fd) (evs : List Event),
    ∃ s, run env param (.connect (some fd) (.wrote 1000) :: evs) = .ok () s ∧ TornOnce s := by
  intro h
  obtain ⟨s, hrun, -⟩ := h .plain goodParam 5 blockedRun
  have hraises : returned (run .plain goodParam (.connect (some 5) (.wrote 1000) :: blockedRun)) = none := by
    decide +kernel
  rw [hrun] at hraises
  cases hraises

/-- Parameters that are refused: the socket stays open, and `connect` returns. -/
theorem connect_refused (env : Env) {param : Param} (hparam : checkParam param = false) (fd : Fd) (out : WriteOut)
    (hout : out ≠ .badf) : ∃ s, run env param [.connect (some fd) out] = .ok () s ∧
      Ended s ∧ s.isOpen = true ∧ opens s.log = [fd] ∧ closes s.log = [] := by
  have hconnect : connect env (some fd) out (.new param) =
      .ok () { Cli.new param with called := true, isOpen := true, log := [.opened fd] } := by
    unfold connect
    rw [bind_of_ok (modify_ok _ _)]
    simp only
    rw [bind_of_ok (show emit (.opened fd) _ = .ok () _ from modify_ok _ _), bind_of_ok (modify_ok _ _),
      bind_of_ok (get_ok _)]
    exact congrFun (if_pos (show checkParam (Cli.new param).param = false from hparam)) _
  have henabled : enabled (.new param) (.connect (some fd) out) = true := by
    simp [enabled, Cli.new, hout]
  refine ⟨{ Cli.new param with called := true, isOpen := true, log := [.opened fd] }, ?_,
    ⟨rfl, fun co hco => absurd hco List.not_mem_nil⟩, rfl, rfl, rfl⟩
  have hstep : step env (.connect (some fd) out) (.new param) =
      .ok () { Cli.new param with called := true, isOpen := true, log := [.opened fd] } := by
    unfold step
    rw [if_pos henabled]
    exact hconnect
  rw [run, runAll, bind_of_ok hstep]
  rfl

end ApApps.Sandc

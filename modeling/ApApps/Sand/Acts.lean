import ApApps.Sand.AfterClose

/- Everything an event does, in small acts, and the handles of libuv.

   `Act` is what a command does, `Deed` what the callback of an event does for its
   connection around the commands. `acts_command` and `deeds_step` are read off the source
   once; what they say is enough for every property that each act keeps.

   The property here is the protocol of the two handles of a connection. libuv wants a
   timer to be stopped before it is started anew, and nothing to be asked of a handle that
   has been closed. `Handle.use` is that protocol, `handles_legal` says that the broker
   keeps to it in every run, and that the timer of every open connection is running: a peer
   that falls silent is always closed in the end. -/
namespace ApApps.Sand
open Incremental ApApps.Redis Exec

/-- What a command does. -/
inductive Act (env : Env) : St → St → Prop
  | tick {s s' : St} (h : Tick env s s') : Act env s s'
  | wrote {s : St} {c : Conn} {m : Climap} (hh : s.heap c = some m) (hc : m.client = true) (msg : Msg)
      (frame : Bytes) : Act env s (s.wrote env c msg frame)
  | prepared {s : St} {fd : Fd} {c : Conn} {m : Climap} (hh : s.heap c = some m) (map : Fields) :
      Act env s (s.prepared fd c m map)
  | identified {s : St} (cd : Bytes) (fd : Fd) : Act env s (s.identified cd fd)
  | authorized {s : St} {c : Conn} {m : Climap} (hh : s.heap c = some m) : Act env s (s.authorized c m)

abbrev Acts (env : Env) : St → St → Prop := Relation.ReflTransGen (Act env)

/-- What the callback of an event of `c` does. -/
inductive Deed (env : Env) (c : Conn) : St → St → Prop
  | act {s s' : St} (h : Act env s s') : Deed env c s s'
  | received {s : St} {m : Climap} (hh : s.heap c = some m) (hc : m.client = true) (data : Bytes) :
      Deed env c s (s.logged (.recv c data))
  | dispatched {s : St} (cmd : Cmd) (map : Fields) : Deed env c s (s.logged (.dispatch c cmd map))
  | buffer {s : St} {m : Climap} (hh : s.heap c = some m) (data : Bytes) : Deed env c s (s.withData c m data)
  | restarted {s : St} {m : Climap} (hh : s.heap c = some m) (ht : m.timer = true) (ms : Int) :
      Deed env c s ((s.logged (.timerStop c)).logged (.timerStart c ms))
  | connected {s : St} {fd : Fd} (hnone : s.heap c = none) : Deed env c s (s.connected c fd)

abbrev Deeds (env : Env) (c : Conn) : St → St → Prop := Relation.ReflTransGen (Deed env c)

section Callbacks
variable {env : Env} {s s' : St} {fd : Fd} {c : Conn} {m : Climap}

/-! ## Commands -/

theorem Cascade.acts (h : Cascade env s s') : Acts env s s' :=
  Relation.ReflTransGen.mono (fun _ _ => Act.tick) _ _ h

theorem acts_closeClient {err : Bytes} (h : closeClient env fd err s = .ok () s') : Acts env s s' :=
  ((cascade_closeClient fd err s).1 _ _ h).acts

theorem acts_uvWrite {msg : Msg} {frame : Bytes} {r : Option Bytes} (h : uvWrite env c msg frame s = .ok r s') :
    Acts env s s' := by
  obtain ⟨⟨m, hh, hc⟩, -, rfl⟩ := uvWrite_ok h
  exact .single (.wrote hh hc msg frame)

theorem acts_refuse {err : Bytes} {r : Option Bytes} (h : refuse env c err s = .ok r s') : Acts env s s' := by
  unfold refuse publishConnack at h
  obtain ⟨_, s1, hconnack, hr⟩ := bind_eq_ok.mp h
  cases hr
  rw [bind_of_ok (buildQuery_eq env _ s)] at hconnack
  exact acts_uvWrite hconnack

theorem acts_cn {map : Fields} {r : Option Bytes} (hl : s.clientmap.lookup fd = some c) (hh : s.heap c = some m)
    (h : cn env fd map s = .ok r s') : Acts env s s' := by
  cases hst : m.state with
  | stAuth =>
    rw [cn_again env map hl hh hst] at h
    exact acts_refuse h
  | stNew =>
    rw [cn_new env map hl hh hst] at h
    have hprep : Act env s (s.prepared fd c m map) := .prepared hh map
    cases hr : refusal s map with
    | some err =>
      simp only [hr] at h
      exact .head hprep (acts_refuse h)
    | none =>
      simp only [hr] at h
      obtain ⟨s1, m1, hcas, hh1, hc1, -, rfl⟩ := admitClient_ok h
      have hself : (s1.authorized c m1).heap c = some { m1 with state := .stAuth } := Function.update_self c _ _
      have hlast : Acts env s1 ((s1.authorized c m1).wrote env c (.ca 0 (ascii "ok"))
          (env.frame (.ca 0 (ascii "ok")))) :=
        .tail (.single (.authorized hh1)) (.wrote hself hc1 _ _)
      exact .head hprep (.head (.identified (cdOf map) fd) (hcas.acts.trans hlast))

theorem acts_pb {map : Fields} {r : Option Bytes} (hl : s.clientmap.lookup fd = some c) (hh : s.heap c = some m)
    (h : pb env fd map s = .ok r s') : Acts env s s' := by
  unfold pb at h
  rw [bind_of_ok (assertClient_eq _ hl), bind_of_ok (climapOf_eq hh)] at h
  split at h
  · cases h
    exact .refl
  · cases htp : map.get "tp" with
    | none =>
      simp only [htp] at h
      cases h
      exact .refl
    | some topic =>
      cases hpl : map.get "pl" with
      | none =>
        simp only [htp, hpl] at h
        cases h
        exact .refl
      | some payload =>
        simp only [htp, hpl] at h
        obtain ⟨_, s1, hpub, hr⟩ := bind_eq_ok.mp h
        cases hr
        exact ((cascade_doPublish topic payload s).1 _ _ hpub).acts

theorem acts_pi {r : Option Bytes} (hl : s.clientmap.lookup fd = some c) (hh : s.heap c = some m)
    (h : pi env fd s = .ok r s') : Acts env s s' := by
  unfold pi at h
  rw [bind_of_ok (assertClient_eq _ hl), bind_of_ok (climapOf_eq hh)] at h
  split at h
  · cases h
    exact .refl
  · rw [bind_of_ok (buildQuery_eq env .po s)] at h
    obtain ⟨_, s1, hw, hr⟩ := bind_eq_ok.mp h
    cases hr
    exact acts_uvWrite hw

theorem acts_dc {r : Option Bytes} (h : dc env fd s = .ok r s') : Acts env s s' := by
  unfold dc at h
  obtain ⟨_, s1, hclose, hr⟩ := bind_eq_ok.mp h
  cases hr
  exact acts_closeClient hclose

/-- Without a connection under `fd` there is no result but that of dc. -/
theorem command_none {map : Fields} {cmd : Cmd} {r : Option Bytes} (hl : s.clientmap.lookup fd = none)
    (h : command env fd map cmd s = .ok r s') : cmd = .dc := by
  cases cmd with
  | dc => rfl
  | cn =>
    simp only [command, cn, bind_of_error (assertClient_none "cn" hl)] at h
    cases h
  | pb =>
    simp only [command, pb, bind_of_error (assertClient_none "pb" hl)] at h
    cases h
  | pi =>
    simp only [command, pi, bind_of_error (assertClient_none "pi" hl)] at h
    cases h

/-- **What a command does.** -/
theorem acts_command (hw : WF s) {map : Fields} {cmd : Cmd} {r : Option Bytes}
    (h : command env fd map cmd s = .ok r s') : Acts env s s' := by
  cases hl : s.clientmap.lookup fd with
  | none =>
    obtain rfl := command_none hl h
    exact acts_dc h
  | some c =>
    obtain ⟨m, hh, -⟩ := hw.live fd c hl
    cases cmd with
    | cn => exact acts_cn hl hh h
    | dc => exact acts_dc h
    | pb => exact acts_pb hl hh h
    | pi => exact acts_pi hl hh h

/-! ## Callbacks -/

theorem Acts.deeds (h : Acts env s s') : Deeds env c s s' :=
  Relation.ReflTransGen.mono (fun _ _ => Deed.act) _ _ h

theorem Serving.turned (hs : Serving fd c s) {b : Bool} (h : turn env fd c s = .ok b s') : Serving fd c s' :=
  hs.moves ((moves_turn (P := fun _ _ _ => True) hs fun _ _ _ _ _ _ _ _ => trivial).1 _ _ h)

/-- A command is dispatched in a state that is in order. -/
theorem Serving.called (hs : Serving fd c s) (hh : s.heap c = some m) (rest : Bytes) (cmd : Cmd) (map : Fields) :
    Serving fd c (s.called c m rest cmd map) := by
  have hcall : Moves .calm (fun _ _ _ => True) s (s.called c m rest cmd map) :=
    .tail (.single (.data hh rest)) (.log _ rfl)
  exact hs.moves hcall

theorem deeds_turn (hs : Serving fd c s) {b : Bool} (h : turn env fd c s = .ok b s') : Deeds env c s s' := by
  obtain ⟨m, hh⟩ := hs.climap
  unfold turn at h
  rw [bind_of_ok (climapOf_eq hh)] at h
  obtain ⟨next, hnext⟩ := readCommand_total m.data
  rw [hnext] at h
  cases next with
  | wait =>
    cases h
    exact .refl
  | refuse rest err =>
    simp only at h
    rw [bind_of_ok (setData_eq rest hh)] at h
    obtain ⟨_, s1, hclose, hr⟩ := bind_eq_ok.mp h
    cases hr
    exact .head (.buffer hh rest) (acts_closeClient hclose).deeds
  | call cmd map rest =>
    simp only at h
    rw [bind_of_ok (setData_eq rest hh),
      bind_of_ok (show emit (.dispatch c cmd map) (s.withData c m rest) = .ok () (s.called c m rest cmd map) from rfl)]
      at h
    unfold handleCommand at h
    obtain ⟨r, s1, hcmd, hr⟩ := bind_eq_ok.mp h
    have hacts := acts_command (hs.called hh rest cmd map).wf hcmd
    have hanswered : Deeds env c s s1 := .head (.buffer hh rest) (.head (.dispatched cmd map) hacts.deeds)
    cases r with
    | none =>
      cases hr
      exact hanswered
    | some err =>
      obtain ⟨_, s2, hclose, hr⟩ := bind_eq_ok.mp hr
      cases hr
      exact hanswered.trans (acts_closeClient hclose).deeds

theorem deeds_dataLoop (fuel : Nat) (hs : Serving fd c s) {b : Bool} (h : dataLoop env fd c fuel s = .ok b s') :
    Deeds env c s s' := by
  induction fuel generalizing s with
  | zero =>
    cases h
    exact .refl
  | succ fuel ih =>
    unfold dataLoop at h
    obtain ⟨m, hh⟩ := hs.climap
    rw [bind_of_ok (climapOf_eq hh)] at h
    by_cases hnil : m.data = []
    · rw [if_pos hnil] at h
      cases h
      exact .refl
    · rw [if_neg hnil] at h
      obtain ⟨b1, s1, hturn, hrest⟩ := bind_eq_ok.mp h
      have hfirst := deeds_turn hs hturn
      cases b1 with
      | false =>
        cases hrest
        exact hfirst
      | true => exact hfirst.trans (ih (hs.turned hturn) hrest)

/-- The end of `on_client_data`. -/
theorem deeds_afterLoop {b : Bool} (h : (if b then restartTimer c else pure ()) s = .ok () s') :
    Deeds env c s s' := by
  cases b with
  | true =>
    obtain ⟨m, param, kp, ms, hh, ht, -, -, -, rfl⟩ := restartTimer_ok h
    exact .single (.restarted hh ht ms)
  | false =>
    cases h
    exact .refl

/-- **What an event does.** -/
theorem deeds_step (hw : WF s) {ev : Event} (h : step env ev s = .ok () s') : Deeds env ev.conn s s' := by
  by_cases hen : enabled s ev = true
  · have heq : step env ev s = handle env ev s := if_pos hen
    cases ev with
    | accept c fd =>
      obtain ⟨hnone, -, hconn⟩ := step_accept env hw hen
      rw [hconn] at h
      cases h
      exact .single (.connected hnone)
    | chunk c data =>
      obtain ⟨hopen, -⟩ : s.isOpen c = true ∧ data ≠ [] := by simpa [enabled] using hen
      obtain ⟨m, hh, hc⟩ := isOpen_iff.mp hopen
      rw [heq, handle_chunk_eq hw data hh hc] at h
      obtain ⟨b, s1, hloop, hrest⟩ := bind_eq_ok.mp h
      have hfirst : Deeds env c s (s.received c m data) :=
        .tail (.single (.received hh hc data)) (.buffer (s := s.logged (.recv c data)) hh (m.data ++ data))
      exact hfirst.trans ((deeds_dataLoop _ (.received hw data hh hc) hloop).trans (deeds_afterLoop hrest))
    | closed c err =>
      obtain ⟨m, hh, -⟩ := isOpen_iff.mp (show s.isOpen c = true from hen)
      rw [heq, handle, bind_of_ok (climapOf_eq hh)] at h
      exact (acts_closeClient h).deeds
    | timeout c =>
      cases hh : s.heap c with
      | none => simp [enabled, hh] at hen
      | some m =>
        rw [heq, handle, bind_of_ok (climapOf_eq hh)] at h
        exact (acts_closeClient h).deeds
  · rw [show step env ev s = .ok () s from if_neg hen] at h
    cases h
    exact .refl

theorem step_wf (hw : WF s) {ev : Event} (h : step env ev s = .ok () s') : WF s' :=
  (step_invariant (P := fun _ _ _ => True) (I := fun _ => True) (fun _ _ _ _ _ _ _ => trivial)
    (fun _ _ _ _ _ => trivial) ⟨hw, trivial⟩ (by cases ev <;> simp [EventOk, CnOk]) h).1

/-- **The rule for what every deed keeps.** -/
theorem deeds_invariant {I : St → Prop} (hnew : I .new) (hdeed : ∀ c s s', I s → Deed env c s s' → I s')
    {evs : List Event} (h : run env evs = .ok () s) : I s := by
  have hdeeds : ∀ c s s', Deeds env c s s' → I s → I s' := by
    intro c s s' hall h0
    induction hall with
    | refl => exact h0
    | tail _ hd ih => exact hdeed c _ _ ih hd
  exact (Exec.run_invariant (I := fun s => WF s ∧ I s) (Q := fun _ _ => True)
    (fun _ _ _ h0 _ hev => ⟨step_wf h0.1 hev, hdeeds _ _ _ (deeds_step h0.1 hev) h0.2⟩) ⟨WF.new, hnew⟩
    (along_true evs) h).2

end Callbacks

/-! ## The handles -/

/-- The two handles of a connection, the timer and the stream, as libuv knows them. -/
inductive Handles where
  /-- not created -/
  | fresh
  | running
  /-- the timer is stopped -/
  | stopped
  /-- the timer is closed, the stream is not -/
  | half
  | closed
  deriving DecidableEq, Repr

/-- The calls that are allowed in each state; bytes arrive only where the stream is open. -/
def Handles.use : Handles → Out → Option Handles
  | h, .dispatch _ _ _ => some h
  | .fresh, .timerStart _ _ => some .running
  | .running, .write _ _ _ _ => some .running
  | .running, .recv _ _ => some .running
  | .running, .timerStop _ => some .stopped
  | .stopped, .timerStart _ _ => some .running
  | .running, .closeTimer _ => some .half
  | .half, .closeClient _ => some .closed
  | _, _ => none

/-- The handles of `c` after `outs`, if all of it is allowed. -/
def useAll (c : Conn) (h : Handles) (outs : List Out) : Option Handles :=
  outs.foldlM (fun h o => if o.conn = c then h.use o else some h) h

/-- The handles of `c` after all the broker has done. -/
def usage (c : Conn) (log : List Out) : Option Handles := useAll c .fresh log

/-- What the broker itself thinks of the handles of `c`. -/
def St.handles (s : St) (c : Conn) : Handles :=
  match s.heap c with
  | none => .fresh
  | some m => if m.client then .running else .closed

section Handles
variable {env : Env} {s s' : St} {c : Conn}

theorem usage_append (c : Conn) (log outs : List Out) :
    usage c (log ++ outs) = (usage c log).bind fun h => useAll c h outs :=
  List.foldlM_append

/-- What is done with other connections. -/
theorem useAll_other {outs : List Out} (hother : ∀ o ∈ outs, o.conn ≠ c) (h : Handles) :
    useAll c h outs = some h := by
  induction outs with
  | nil => rfl
  | cons o outs ih =>
    obtain ⟨ho, houts⟩ := List.forall_mem_cons.mp hother
    unfold useAll
    rw [List.foldlM_cons, if_neg ho]
    exact ih houts

/-- The calls so far are allowed, the broker knows where they have led, and it has dropped the
two handles together. -/
structure Legal (c : Conn) (s : St) : Prop where
  usage : usage c s.log = some (s.handles c)
  paired : ∀ m, s.heap c = some m → m.timer = m.client

theorem legal_new : Legal c .new where
  usage := rfl
  paired := fun m h => by cases h

/-- Nothing is done with `c`, and its climap keeps the handles. -/
theorem Legal.of_heap (h : Legal c s) {l : List Out} (hheap : s'.heap c = s.heap c)
    (hlog : s'.log = s.log ++ l) (hother : ∀ o ∈ l, o.conn ≠ c) : Legal c s' where
  usage := by
    rw [hlog, usage_append, h.usage, Option.bind_some, useAll_other hother]
    simp [St.handles, hheap]
  paired := by
    rw [hheap]
    exact h.paired

/-- Other fields of a climap change. -/
theorem Legal.of_update (h : Legal c s) {c' : Conn} {m m' : Climap} (hh : s.heap c' = some m)
    (hheap : s'.heap = Function.update s.heap c' (some m')) (htimer : m'.timer = m.timer)
    (hclient : m'.client = m.client) (hlog : s'.log = s.log) : Legal c s' := by
  by_cases hc : c = c'
  · subst hc
    have hh' : s'.heap c = some m' := by
      rw [hheap]
      exact Function.update_self c _ _
    constructor
    · rw [hlog, h.usage]
      simp [St.handles, hh, hh', hclient]
    · intro m1 hm1
      rw [hh'] at hm1
      cases hm1
      rw [htimer, hclient]
      exact h.paired m hh
  · refine h.of_heap (l := []) ?_ (by simp [hlog]) (by simp)
    rw [hheap]
    exact Function.update_of_ne hc _ _

/-- A call on the open handles of `c` that leads back to where they were. -/
theorem Legal.of_open (h : Legal c s) {m : Climap} (hh : s.heap c = some m) (hc : m.client = true)
    {outs : List Out} (hheap : s'.heap c = s.heap c) (hlog : s'.log = s.log ++ outs)
    (huse : useAll c .running outs = some .running) :
    Legal c s' where
  usage := by
    have hrun : s.handles c = .running := by simp [St.handles, hh, hc]
    have hrun' : s'.handles c = .running := by simp [St.handles, hheap, hh, hc]
    rw [hlog, usage_append, h.usage, hrun, hrun', Option.bind_some, huse]
  paired := by
    rw [hheap]
    exact h.paired

/-- The handles of a connection are closed, the timer first. -/
theorem Legal.shut (h : Legal c s) {fd : Fd} {c' : Conn} {m : Climap} (hh : s.heap c' = some m)
    (hc : m.client = true) : Legal c (s.shut fd c' m) := by
  by_cases hcc : c = c'
  · subst hcc
    have hself : (s.shut fd c m).heap c = some { m with timer := false, client := false } :=
      Function.update_self c _ _
    have hrun : s.handles c = .running := by simp [St.handles, hh, hc]
    constructor
    · rw [show (s.shut fd c m).log = s.log ++ [.closeTimer c, .closeClient c] from rfl, usage_append, h.usage, hrun]
      simp [St.handles, hself, useAll, Out.conn, Handles.use]
    · intro m' hm'
      rw [hself] at hm'
      cases hm'
      rfl
  · exact h.of_heap (Function.update_of_ne hcc _ _) rfl (by simpa [Out.conn] using Ne.symm hcc)

/-- A write to an open connection. -/
theorem Legal.wrote (h : Legal c s) {c' : Conn} {m : Climap} (hh : s.heap c' = some m) (hc : m.client = true)
    (msg : Msg) (frame : Bytes) : Legal c (s.wrote env c' msg frame) := by
  by_cases hcc : c = c'
  · subst hcc
    exact h.of_open hh hc rfl rfl (by simp [useAll, Out.conn, Handles.use])
  · exact h.of_heap rfl rfl (by simpa [Out.conn] using Ne.symm hcc)

theorem Legal.act (h : Legal c s) (ha : Act env s s') : Legal c s' := by
  cases ha with
  | tick ht =>
    cases ht with
    | deliver _ _ hh hc => exact h.wrote hh hc _ _
    | shut _ hh _ hc => exact h.shut hh hc
  | wrote hh hc msg frame => exact h.wrote hh hc msg frame
  | prepared hh => exact h.of_update hh rfl rfl rfl rfl
  | identified => exact h.of_heap (l := []) rfl (List.append_nil _).symm (by simp)
  | authorized hh => exact h.of_update hh rfl rfl rfl rfl

theorem Legal.deed {c0 : Conn} (h : Legal c s) (hd : Deed env c0 s s') : Legal c s' := by
  cases hd with
  | act ha => exact h.act ha
  | received hh hc data =>
    by_cases hcc : c = c0
    · subst hcc
      exact h.of_open hh hc rfl rfl (by simp [useAll, Out.conn, Handles.use])
    · exact h.of_heap rfl rfl (by simpa [Out.conn] using Ne.symm hcc)
  | dispatched cmd map =>
    constructor
    · rw [show (s.logged (.dispatch c0 cmd map)).log = s.log ++ [.dispatch c0 cmd map] from rfl, usage_append, h.usage]
      by_cases hcc : c0 = c <;> simp [useAll, Out.conn, Handles.use, hcc, St.handles, St.logged]
    · exact h.paired
  | buffer hh data => exact h.of_update hh rfl rfl rfl rfl
  | @restarted m hh ht ms =>
    by_cases hcc : c = c0
    · subst hcc
      have hc : m.client = true := by rw [← h.paired m hh, ht]
      exact h.of_open hh hc rfl (List.append_assoc s.log _ _) (by simp [useAll, Out.conn, Handles.use])
    · exact h.of_heap rfl (List.append_assoc s.log _ _) (by simpa [Out.conn] using Ne.symm hcc)
  | @connected fd hnone =>
    by_cases hcc : c = c0
    · subst hcc
      have hself : (s.connected c fd).heap c = some ⟨fd, [], none, .stNew, true, true⟩ := Function.update_self c _ _
      have hfresh : s.handles c = .fresh := by simp [St.handles, hnone]
      constructor
      · rw [show (s.connected c fd).log = s.log ++ [.timerStart c (30 * 1000)] from rfl, usage_append, h.usage, hfresh]
        simp [St.handles, hself, useAll, Out.conn, Handles.use]
      · intro m hm
        rw [hself] at hm
        cases hm
        rfl
    · exact h.of_heap (Function.update_of_ne hcc _ _) rfl (by simpa [Out.conn] using Ne.symm hcc)

end Handles

/-- **The handles of every connection are used as libuv wants them to be**, in every run: no
call on a closed handle, none closed twice, no timer started twice, none left running or
stopped. As long as a connection is open its timer runs; afterwards both handles are closed. -/
theorem handles_legal {env : Env} {evs : List Event} {s : St} (h : run env evs = .ok () s) (c : Conn) :
    usage c s.log = some (s.handles c) :=
  (deeds_invariant (I := Legal c) legal_new (fun _ _ _ h0 hd => h0.deed hd) h).usage

/-- A connection is refused, another one pings and goes silent. -/
def handlesRun : List Event :=
  [.accept 0 5, .accept 1 6, .chunk 0 (cnFrame "x" "5" "a" [] ++ commandFrame [("id", ascii "pi")]),
    .chunk 1 (commandFrame [("id", ascii "pi")]), .timeout 0, .accept 2 5]

theorem handles_legal_three : ∃ s, run .calm handlesRun = .ok () s ∧
    (s.handles 0 = .closed ∧ s.handles 1 = .closed ∧ s.handles 2 = .running) ∧
    usage 0 s.log = some (s.handles 0) := by
  obtain ⟨s, hrun, hs⟩ := exists_of_endsIn
    (p := fun s => decide (s.handles 0 = .closed ∧ s.handles 1 = .closed ∧ s.handles 2 = .running))
    (r := run .calm handlesRun) (by decide +kernel)
  exact ⟨s, hrun, of_decide_eq_true hs, handles_legal hrun 0⟩

end ApApps.Sand

import ApApps.Sand.Abort
import ApApps.Sand.Exact

/- What happens to a connection after it has been closed: nothing.

   `Orderly` is said of a stretch of the log: what is in it concerns connections that
   were registered, and no entry after the closing of a connection concerns it. Every
   publication and every `close_client` is orderly (`Done.orderly`), whatever writes
   fail. A whole callback is not: the handlers of pb and cn hold on to the connection
   they serve, and go on with it if their own publication has closed it. `Fits` says
   that this does not happen; `quiet_after_close` that the callback is orderly then. -/
namespace ApApps.Sand
open Incremental ApApps.Redis Exec

/-- The connection a log entry is about. -/
def Out.conn : Out → Conn
  | .write c _ _ _ => c
  | .closeTimer c => c
  | .closeClient c => c
  | .timerStop c => c
  | .timerStart c _ => c
  | .recv c _ => c
  | .dispatch c _ _ => c

/-- No entry is about a connection that an earlier one has closed. -/
def Hushed (outs : List Out) : Prop := outs.Pairwise fun o o' => o ≠ .closeClient o'.conn

/-- From `s` to `s'` the broker has done `outs` to registered connections, and nothing to
one that it had closed. -/
structure Orderly (s s' : St) (outs : List Out) : Prop where
  log : s'.log = s.log ++ outs
  registered : ∀ o ∈ outs, ∃ fd, s.clientmap.lookup fd = some o.conn
  hushed : Hushed outs
  live : ∀ fd c, s'.clientmap.lookup fd = some c →
    s.clientmap.lookup fd = some c ∧ .closeClient c ∉ outs

section Orderly
variable {env : Env} {s s' s1 s2 s3 : St} {o o' : List Out}

/-- Nothing has been logged and nothing been registered or removed. -/
theorem Orderly.of_eq (hlog : s'.log = s.log) (hmap : s'.clientmap = s.clientmap) : Orderly s s' [] where
  log := by rw [hlog, List.append_nil]
  registered := by simp
  hushed := .nil
  live := by
    intro fd c hl
    rw [hmap] at hl
    exact ⟨hl, by simp⟩

theorem Orderly.trans (h : Orderly s1 s2 o) (h' : Orderly s2 s3 o') : Orderly s1 s3 (o ++ o') where
  log := by rw [h'.log, h.log, List.append_assoc]
  registered := by
    intro x hx
    rcases List.mem_append.mp hx with hx | hx
    · exact h.registered x hx
    · obtain ⟨fd, hl⟩ := h'.registered x hx
      exact ⟨fd, (h.live fd _ hl).1⟩
  hushed := by
    refine List.pairwise_append.mpr ⟨h.hushed, h'.hushed, ?_⟩
    -- what comes later is about a connection that is still registered
    rintro x hx y hy rfl
    obtain ⟨fd, hl⟩ := h'.registered y hy
    exact (h.live fd _ hl).2 hx
  live := by
    intro fd c hl
    obtain ⟨hl', hnot'⟩ := h'.live fd c hl
    obtain ⟨hl'', hnot⟩ := h.live fd c hl'
    exact ⟨hl'', by simp [hnot, hnot']⟩

/-- One more entry, which closes nothing. -/
theorem Orderly.one {x : Out} {fd : Fd} (hlog : s'.log = s.log ++ [x]) (hmap : s'.clientmap = s.clientmap)
    (hl : s.clientmap.lookup fd = some x.conn) (hx : ∀ c, x ≠ .closeClient c) : Orderly s s' [x] where
  log := hlog
  registered := by
    intro y hy
    obtain rfl := List.mem_singleton.mp hy
    exact ⟨fd, hl⟩
  hushed := List.pairwise_singleton _ _
  live := by
    intro fd' c hl'
    rw [hmap] at hl'
    refine ⟨hl', ?_⟩
    rw [List.mem_singleton]
    exact fun h => hx c h.symm

theorem Orderly.wrote {fd : Fd} {c : Conn} (hl : s.clientmap.lookup fd = some c) (msg : Msg) (frame : Bytes) :
    Orderly s (s.wrote env c msg frame) [.write c msg frame (env.write s.log c).isNone] :=
  .one rfl rfl (x := .write c msg frame _) hl (by simp)

theorem Orderly.shut (hw : WF s) {fd : Fd} {c : Conn} {m : Climap} (hl : s.clientmap.lookup fd = some c) :
    Orderly s (s.shut fd c m) [.closeTimer c, .closeClient c] where
  log := rfl
  registered := by
    intro x hx
    have hconn : x.conn = c := by
      simp only [List.mem_cons, List.not_mem_nil, or_false] at hx
      rcases hx with rfl | rfl <;> rfl
    exact ⟨fd, hconn ▸ hl⟩
  hushed := by simp [Hushed]
  live := by
    intro fd' c' hl'
    obtain ⟨hl', hne⟩ := (lookup_shut hw hl).mp hl'
    exact ⟨hl', by simpa using hne⟩

/-- **Publications and closings are orderly.** -/
theorem Done.orderly {call : Call} {pubs : List (Bytes × Bytes)} {outs : List Out}
    (h : Done env call s s' pubs outs) (hs : Deliverable s) : Orderly s s' outs := by
  induction h with
  | silent => exact .of_eq rfl rfl
  | publish _ _ ih => exact ih hs
  | nil => exact .of_eq rfl rfl
  | skip _ _ ih => exact ih hs
  | @sent s _ t p fd fds c _ _ hsub hl hw _ ih =>
    have hwrote : Orderly s (s.wrote env c (.pb t p) (env.frame (.pb t p))) _ := .wrote hl _ _
    rw [hw] at hwrote
    exact hwrote.trans (ih (hs.wrote c _ _))
  | @failed s s1 _ t p err fd fds c _ _ _ _ hsub hl hw hclose _ ihclose ih =>
    have hwrote : Orderly s (s.wrote env c (.pb t p) (env.frame (.pb t p))) _ := .wrote hl _ _
    have hgood : Deliverable (s.wrote env c (.pb t p) (env.frame (.pb t p))) := hs.wrote c _ _
    rw [hw] at hwrote
    exact hwrote.trans ((ihclose hgood).trans (ih (hclose.progress hgood).good))
  | quiet hl => exact .shut hs.wf hl
  | will hl hh _ _ ih => exact (Orderly.shut hs.wf hl).trans (ih (hs.shut hl hh))

/-- `close_client` of a registered connection returns, and the descriptor is free. -/
theorem orderly_closeClient (hs : Deliverable s) {fd : Fd} {c : Conn} {m : Climap} (err : Bytes)
    (hl : s.clientmap.lookup fd = some c) (hh : s.heap c = some m)
    (hid : m.param.isSome = true → m.clientid.isSome = true) :
    ∃ s' outs, closeClient env fd err s = .ok () s' ∧ Orderly s s' outs ∧ s'.clientmap.lookup fd = none := by
  obtain ⟨s', pubs, outs, hok, hdone⟩ := returns_closeClient (n := s.clientmap.keys.length)
    (fun s1 hs1 _ t p => returns_doPublish hs1 t p) hs (Nat.le_refl _) err hl hh hid
  refine ⟨s', outs, hok, hdone.orderly hs, ?_⟩
  have hprog := hdone.progress hs
  cases hl' : s'.clientmap.lookup fd with
  | none => rfl
  | some c' =>
    obtain ⟨hl0, hopen⟩ := (hprog.live fd c').mp hl'
    exact absurd ((hdone.closed_iff c').mpr (.inr hl0)) hopen

/-- A second `close_client` does nothing. -/
theorem closeClient_again {fd : Fd} (err : Bytes) (hl : s.clientmap.lookup fd = none) :
    closeClient env fd err s = .ok () s := by
  rw [closeClient_eq]
  exact closeClientWith_none _ err hl

end Orderly

/-! ## The commands a connection may send -/

/-- No write to `c` fails while `(topic, payload)` is published from `s`, nor while the wills
that this sets off are. -/
def Spares (env : Env) (s : St) (c : Conn) (topic payload : Bytes) : Prop :=
  ∀ s' pubs outs, Done env (.publish topic payload) s s' pubs outs → c ∉ failedIn outs

/-- The buffer holds bytes, but no command. -/
def AtRest (m : Climap) : Prop :=
  m.data ≠ [] ∧ ∀ cmd map rest, readCommand m.data ≠ .ok (.call cmd map rest)

/-- The broker can take the command `cmd` of `c`: a cn command that is refused leaves nothing
behind, and what a command publishes does not close its own connection, unless it is a pb
after which there is nothing to go on with. -/
def Fits (env : Env) (s : St) (c : Conn) (map : Fields) : Cmd → Prop
  | .cn => ∀ m, s.heap c = some m → m.state = .stNew → Tidy s map ∧
      (refusal s map = none → ∀ topic payload, connectMessage map = some (topic, payload) →
        Spares env ((s.prepared m.fd c m map).identified (cdOf map) m.fd) c topic payload)
  | .pb => ∀ m, s.heap c = some m → m.state = .stAuth → ∀ topic payload,
      map.get "tp" = some topic → map.get "pl" = some payload →
        AtRest m ∨ Spares env s c topic payload
  | .dc => True
  | .pi => True

/-- From `s` on, every command the loop dispatches satisfies `Q`. -/
def CallsOk (env : Env) (Q : St → Conn → Fields → Cmd → Prop) (fd : Fd) (c : Conn) (s : St) : Prop :=
  ∀ s1, Relation.ReflTransGen (Turned env fd c) s s1 → ∀ m cmd map rest, s1.heap c = some m →
    readCommand m.data = .ok (.call cmd map rest) → Q (s1.called c m rest cmd map) c map cmd

/-- The commands dispatched during the event satisfy `Q`. -/
def EventFits (env : Env) (Q : St → Conn → Fields → Cmd → Prop) (s : St) : Event → Prop
  | .chunk c data => enabled s (.chunk c data) = true →
      ∀ m, s.heap c = some m → CallsOk env Q m.fd c (s.received c m data)
  | _ => True

/-- **Every command of the run satisfies `Q`** when it is dispatched. -/
def CallsAlong (env : Env) (Q : St → Conn → Fields → Cmd → Prop) (evs : List Event) : Prop :=
  Along (step env) (EventFits env Q) .new evs

section Calls
variable {env : Env} {Q : St → Conn → Fields → Cmd → Prop}

theorem CallsOk.turned {fd : Fd} {c : Conn} {s s' : St} (h : CallsOk env Q fd c s)
    (ht : Turned env fd c s s') : CallsOk env Q fd c s' :=
  fun s1 hs1 => h s1 (.head ht hs1)

/-- The cn commands of new connections are tidy then. -/
theorem CallsOk.tidy {fd : Fd} {c : Conn} {s : St} (h : CallsOk env (Fits env) fd c s) :
    CnOk env (fun s _ map => Tidy s map) fd c s := by
  intro s1 hs1 m map rest hh hst hread
  have hfits := h s1 hs1 m .cn map rest hh hread
  exact (hfits _ (Function.update_self c _ _) hst).1

theorem EventFits.tidy {s : St} {ev : Event} (h : EventFits env (Fits env) s ev) :
    EventOk env (fun s _ map => Tidy s map) s ev := by
  cases ev with
  | chunk c data => exact fun hen m hh => (h hen m hh).tidy
  | accept => trivial
  | closed => trivial
  | timeout => trivial

theorem CallsAlong.tidy {evs : List Event} (h : CallsAlong env (Fits env) evs) :
    CnAlong env (fun s _ map => Tidy s map) evs :=
  Along.mono (fun _ _ => EventFits.tidy) h

end Calls

/-! ## What the commands do -/

/-- What the loop finds after a command that succeeded: the connection is authorized, or it
has been closed and there is nothing to go on with. -/
def Resumed (fd : Fd) (c : Conn) (data : Bytes) (s : St) : Prop :=
  ∃ m, s.heap c = some m ∧ m.data = data ∧
    ((s.clientmap.lookup fd = some c ∧ m.state = .stAuth) ∨ (s.clientmap.lookup fd = none ∧ AtRest m))

/-- The part `x` of the callback returns after something orderly, and if it wants the loop to
go on then it can. -/
def Serves (fd : Fd) (c : Conn) (data : Bytes) (x : M Bool) (s : St) : Prop :=
  ∃ b s' outs, x s = .ok b s' ∧ Orderly s s' outs ∧ (b = true → Resumed fd c data s')

section Commands
variable {env : Env} {s s1 : St} {fd : Fd} {c : Conn} {m : Climap} {map : Fields} {outs : List Out}

theorem Serves.after {data : Bytes} {x y : M Bool} (ho : Orderly s s1 outs) (heq : x s = y s1)
    (h : Serves fd c data y s1) : Serves fd c data x s := by
  obtain ⟨b, s', outs', hy, ho', hgo⟩ := h
  exact ⟨b, s', outs ++ outs', heq.trans hy, ho.trans ho', hgo⟩

/-- A command that fails is followed by `close_client`, which finds the connection in order or
gone. -/
theorem serves_failed {data err : Bytes} {cmd : Cmd} (hcmd : command env fd map cmd s = .ok (some err) s1)
    (ho : Orderly s s1 outs) (h1 : Deliverable s1)
    (hid : ∀ c' m', s1.clientmap.lookup fd = some c' → s1.heap c' = some m' →
      m'.param.isSome = true → m'.clientid.isSome = true) :
    Serves fd c data (handleCommand env fd map cmd) s := by
  have hclose : ∃ s' outs', closeClient env fd err s1 = .ok () s' ∧ Orderly s1 s' outs' := by
    cases hl : s1.clientmap.lookup fd with
    | none => exact ⟨s1, [], closeClient_again err hl, .of_eq rfl rfl⟩
    | some c' =>
      obtain ⟨m', hh, _⟩ := h1.wf.live fd c' hl
      obtain ⟨s', outs', hok, ho', _⟩ := orderly_closeClient h1 err hl hh (hid c' m' hl hh)
      exact ⟨s', outs', hok, ho'⟩
  obtain ⟨s', outs', hok, ho'⟩ := hclose
  refine ⟨false, s', outs ++ outs', ?_, ho.trans ho', by simp⟩
  unfold handleCommand
  rw [bind_of_ok hcmd]
  exact bind_of_ok hok

/-- After a command that succeeds the loop goes on. -/
theorem serves_done {data : Bytes} {cmd : Cmd} (hcmd : command env fd map cmd s = .ok none s1)
    (ho : Orderly s s1 outs) (hgo : Resumed fd c data s1) :
    Serves fd c data (handleCommand env fd map cmd) s := by
  refine ⟨true, s1, outs, ?_, ho, fun _ => hgo⟩
  unfold handleCommand
  rw [bind_of_ok hcmd]
  rfl

theorem Sane.closable (h : Sane none s) : ∀ c' m', s.clientmap.lookup fd = some c' →
    s.heap c' = some m' → m'.param.isSome = true → m'.clientid.isSome = true :=
  fun _ _ hl hh => h.hasId hl hh

theorem serves_dc {data : Bytes} (h : Sane none s) (hl : s.clientmap.lookup fd = some c)
    (hh : s.heap c = some m) : Serves fd c data (handleCommand env fd map .dc) s := by
  obtain ⟨s1, outs, hok, ho, hgone⟩ : ∃ s1 outs, closeClient env fd (ascii "user disconnect") s = .ok () s1 ∧
      Orderly s s1 outs ∧ s1.clientmap.lookup fd = none :=
    orderly_closeClient h.deliverable _ hl hh (h.hasId hl hh)
  have hdc : command env fd map .dc s = .ok (some (ascii "disconnect")) s1 := bind_of_ok hok
  have hcas := (cascade_closeClient fd _ s).1 () s1 hok
  refine serves_failed hdc ho (h.cascade hcas).deliverable ?_
  rw [hgone]
  nofun

theorem serves_pi {data : Bytes} (h : Sane none s) (hl : s.clientmap.lookup fd = some c)
    (hh : s.heap c = some m) (hdata : m.data = data) : Serves fd c data (handleCommand env fd map .pi) s := by
  obtain ⟨m0, h0, _, _, hc⟩ := h.wf.live fd c hl
  rw [hh] at h0
  cases h0
  cases hst : m.state with
  | stNew =>
    have hpi : command env fd map .pi s = .ok (some (ascii "no auth yet")) s := by
      show pi env fd s = _
      unfold pi
      rw [bind_of_ok (assertClient_eq _ hl), bind_of_ok (climapOf_eq hh), if_pos (by rw [hst]; decide)]
      rfl
    exact serves_failed hpi (.of_eq rfl rfl) h.deliverable h.closable
  | stAuth =>
    have hpi : command env fd map .pi s = .ok none (s.wrote env c .po (env.frame .po)) := by
      show pi env fd s = _
      unfold pi
      rw [bind_of_ok (assertClient_eq _ hl), bind_of_ok (climapOf_eq hh), if_neg (by rw [hst]; decide),
        bind_of_ok (buildQuery_eq env _ s), bind_of_ok (uvWrite_eq env _ _ hh hc)]
      rfl
    exact serves_done hpi (.wrote hl _ _) ⟨m, hh, hdata, .inl ⟨hl, hst⟩⟩

/-- After a publication the connection is still there, or a write to it failed. -/
theorem Done.stays_or_failed {call : Call} {pubs : List (Bytes × Bytes)} {s' : St}
    (hdone : Done env call s s' pubs outs) (hs : Deliverable s) (hcall : call.target s = none)
    (hl : s.clientmap.lookup fd = some c) :
    s'.clientmap.lookup fd = some c ∨ (c ∈ failedIn outs ∧ s'.clientmap.lookup fd = none) := by
  have hprog := hdone.progress hs
  by_cases hopen : c ∈ closedIn outs
  · refine .inr ⟨((hdone.closed_iff c).mp hopen).resolve_right (by simp [hcall]), ?_⟩
    cases hl' : s'.clientmap.lookup fd with
    | none => rfl
    | some c' =>
      obtain ⟨hl0, hopen'⟩ := (hprog.live fd c').mp hl'
      rw [hl] at hl0
      cases hl0
      exact absurd hopen hopen'
  · exact .inl ((hprog.live fd c).mpr ⟨hl, hopen⟩)

theorem pb_refused (hl : s.clientmap.lookup fd = some c) (hh : s.heap c = some m) (hst : m.state ≠ .stAuth) :
    pb env fd map s = .ok (some (ascii "no auth yet")) s := by
  unfold pb
  rw [bind_of_ok (assertClient_eq _ hl), bind_of_ok (climapOf_eq hh), if_pos hst]
  rfl

theorem pb_bad (hl : s.clientmap.lookup fd = some c) (hh : s.heap c = some m) (hst : m.state = .stAuth)
    (hbad : map.get "tp" = none ∨ map.get "pl" = none) :
    pb env fd map s = .ok (some (ascii "invalid publish param")) s := by
  unfold pb
  rw [bind_of_ok (assertClient_eq _ hl), bind_of_ok (climapOf_eq hh), if_neg (not_not.mpr hst)]
  rcases hbad with htp | hpl
  · simp only [htp]
    rfl
  · cases htp : map.get "tp" with
    | none => rfl
    | some topic =>
      simp only [hpl]
      rfl

theorem pb_publish (hl : s.clientmap.lookup fd = some c) (hh : s.heap c = some m) (hst : m.state = .stAuth)
    {topic payload : Bytes} (htp : map.get "tp" = some topic) (hpl : map.get "pl" = some payload) :
    pb env fd map s = (doPublish env topic payload >>= fun _ => pure none) s := by
  unfold pb
  rw [bind_of_ok (assertClient_eq _ hl), bind_of_ok (climapOf_eq hh), if_neg (not_not.mpr hst)]
  simp only [htp, hpl]

theorem serves_pb {data : Bytes} (h : Sane none s) (hl : s.clientmap.lookup fd = some c)
    (hh : s.heap c = some m) (hdata : m.data = data) (hfits : Fits env s c map .pb) :
    Serves fd c data (handleCommand env fd map .pb) s := by
  cases hst : m.state with
  | stNew =>
    have hpb : pb env fd map s = .ok (some (ascii "no auth yet")) s := pb_refused hl hh (by rw [hst]; decide)
    exact serves_failed hpb (.of_eq rfl rfl) h.deliverable h.closable
  | stAuth =>
    cases htp : map.get "tp" with
    | none => exact serves_failed (pb_bad hl hh hst (.inl htp)) (.of_eq rfl rfl) h.deliverable h.closable
    | some topic =>
      cases hpl : map.get "pl" with
      | none => exact serves_failed (pb_bad hl hh hst (.inr hpl)) (.of_eq rfl rfl) h.deliverable h.closable
      | some payload =>
        have hpb : pb env fd map s = _ := pb_publish hl hh hst htp hpl
        obtain ⟨s1, pubs, outs, hok, hdone⟩ : Returns env _ _ s :=
          returns_doPublish h.deliverable topic payload
        obtain ⟨m1, hh1, hsame⟩ := ((cascade_doPublish topic payload s).1 () s1 hok).heap_some hh
        refine serves_done (hpb.trans (bind_of_ok hok)) (hdone.orderly h.deliverable)
          ⟨m1, hh1, hsame.data.trans hdata, ?_⟩
        rcases hdone.stays_or_failed h.deliverable rfl hl with hstay | ⟨hfailed, hgone⟩
        · exact .inl ⟨hstay, hsame.state.trans hst⟩
        · -- its own publication has closed it
          have hrest := (hfits m hh hst topic payload htp hpl).resolve_right
            fun hspares => hspares s1 pubs outs hdone hfailed
          exact .inr ⟨hgone, by rwa [AtRest, hsame.data]⟩

/-- The broker that is about to close a refused connection is in order, if the command left
nothing behind. -/
theorem deliverable_refused (h : Sane none s) (hl : s.clientmap.lookup fd = some c)
    (hh : s.heap c = some m) (hst : m.state = .stNew) (err : Bytes)
    (hid : (map.get "cd").isSome = true) (hclean : CleanTopics map) :
    Deliverable ((s.prepared fd c m map).refusedWith env c err) := by
  have hw : WF ((s.prepared fd c m map).refusedWith env c err) := (h.wf.prepared fd map hh).wrote
  have hsub : SubOk ((s.prepared fd c m map).refusedWith env c err) :=
    (h.subs.prepared h.wf hl hh (h.settled.fresh hl hh hst) hclean).of_heap rfl rfl fun _ => rfl
  refine ⟨hw, hsub.nodup, fun t fd' hmem => ?_⟩
  obtain ⟨c', m', hl', hh', ht⟩ := (hsub.mem t fd').mp hmem
  refine ⟨c', m', hl', hh', ht, ?_⟩
  by_cases hcc : c' = c
  · subst hcc
    have hself : some _ = some m' := (Function.update_self c' _ _).symm.trans hh'
    cases hself
    simpa only [Climap.clientid, Option.bind_some, cnParam] using hid
  · have hp : m'.param.isSome = true := by
      unfold Climap.topics at ht
      cases hp : m'.param with
      | none => simp [hp] at ht
      | some param => rfl
    exact h.hasId hl' ((heap_prepared fd hcc).symm.trans hh') hp

/-- A command of a new connection that is refused. -/
theorem serves_refused {data err : Bytes} (h : Sane none s) (hl : s.clientmap.lookup fd = some c)
    (hh : s.heap c = some m) (hst : m.state = .stNew) (hr : refusal s map = some err) (htidy : Tidy s map) :
    Serves fd c data (handleCommand env fd map .cn) s := by
  obtain ⟨hid, hclean⟩ := htidy (by simp [hr])
  obtain ⟨m0, h0, _, _, hc⟩ := h.wf.live fd c hl
  rw [hh] at h0
  cases h0
  have hself : (s.prepared fd c m map).heap c = some { m with param := some (cnParam map) } :=
    Function.update_self c _ _
  have hcn : command env fd map .cn s = .ok (some err) ((s.prepared fd c m map).refusedWith env c err) := by
    refine (cn_new env map hl hh hst).trans ?_
    rw [hr]
    exact refuse_eq err hself hc
  have hprep : Orderly s (s.prepared fd c m map) [] := .of_eq rfl rfl
  refine serves_failed hcn (hprep.trans (Orderly.wrote (s := s.prepared fd c m map) hl _ _))
    (deliverable_refused h hl hh hst err hid hclean) ?_
  intro c' m' hl' hh' _
  have hl' : s.clientmap.lookup fd = some c' := hl'
  rw [hl] at hl'
  cases hl'
  have hh' : some _ = some m' := hself.symm.trans hh'
  cases hh'
  simpa only [Climap.clientid, Option.bind_some, cnParam] using hid

/-- The connect message is published, and the connection is still there. -/
theorem serves_announce (h : Sane (some c) s) (hl : s.clientmap.lookup fd = some c)
    (hspares : ∀ topic payload, connectMessage map = some (topic, payload) →
      Spares env s c topic payload) :
    ∃ s1 outs, announce env map s = .ok () s1 ∧ Orderly s s1 outs ∧ s1.clientmap.lookup fd = some c := by
  rw [announce_eq]
  cases hmsg : connectMessage map with
  | none => exact ⟨s, [], rfl, .of_eq rfl rfl, hl⟩
  | some msg =>
    obtain ⟨topic, payload⟩ := msg
    obtain ⟨s1, pubs, outs, hok, hdone⟩ : Returns env _ _ s := returns_doPublish h.deliverable topic payload
    refine ⟨s1, outs, hok, hdone.orderly h.deliverable, ?_⟩
    exact (hdone.stays_or_failed h.deliverable rfl hl).resolve_right
      fun hfailed => hspares topic payload hmsg s1 pubs outs hdone hfailed.1

/-- A command of a new connection that is accepted. -/
theorem serves_admitted {data : Bytes} (h : Sane none s) (hl : s.clientmap.lookup fd = some c)
    (hh : s.heap c = some m) (hst : m.state = .stNew) (hdata : m.data = data) (hr : refusal s map = none)
    (hspares : ∀ topic payload, connectMessage map = some (topic, payload) →
      Spares env ((s.prepared fd c m map).identified (cdOf map) fd) c topic payload) :
    Serves fd c data (handleCommand env fd map .cn) s := by
  have ha := (accepts_of_refusal hr).1
  have hid := h.identified hl hh (h.settled.fresh hl hh hst) ha
  have hself : ((s.prepared fd c m map).identified (cdOf map) fd).heap c =
      some { m with param := some (cnParam map) } := Function.update_self c _ _
  obtain ⟨s1, outs, hann, ho, hl1⟩ := serves_announce hid (show s.clientmap.lookup fd = some c from hl) hspares
  have hcas := (cascade_announce map _).1 () s1 hann
  obtain ⟨m1, hh1, hsame⟩ := hcas.heap_some hself
  obtain ⟨m2, h2, _, _, hc⟩ := (hid.cascade hcas).wf.live fd c hl1
  rw [hh1] at h2
  cases h2
  have hauth : (s1.authorized c m1).heap c = some { m1 with state := .stAuth } := Function.update_self c _ _
  have hcn : command env fd map .cn s = .ok (env.write s1.log c)
      ((s1.authorized c m1).wrote env c (.ca 0 (ascii "ok")) (env.frame (.ca 0 (ascii "ok")))) := by
    refine (cn_new env map hl hh hst).trans ?_
    rw [hr]
    simp only
    unfold admitClient
    rw [bind_of_ok (setClientid_eq _ fd _)]
    refine (bind_of_ok hann).trans ?_
    rw [bind_of_ok (climapOf_eq hh1)]
    exact (bind_of_ok (show setClimap c _ s1 = .ok () (s1.authorized c m1) from rfl)).trans
      (publishConnack_eq 0 _ hauth hc)
  have hsane : Sane none ((s1.authorized c m1).wrote env c (.ca 0 (ascii "ok"))
      (env.frame (.ca 0 (ascii "ok")))) :=
    (hid.cascade hcas).authorized hh1 (admitted_param hcas hh1) ha
  have hstart : Orderly s ((s.prepared fd c m map).identified (cdOf map) fd) [] := .of_eq rfl rfl
  have hmark : Orderly s1 (s1.authorized c m1) [] := .of_eq rfl rfl
  have hanswer : Orderly (s1.authorized c m1) ((s1.authorized c m1).wrote env c (.ca 0 (ascii "ok"))
      (env.frame (.ca 0 (ascii "ok")))) _ := .wrote (s := s1.authorized c m1) hl1 _ _
  have hall := hstart.trans (ho.trans (hmark.trans hanswer))
  cases hw : env.write s1.log c with
  | some err =>
    rw [hw] at hcn
    exact serves_failed hcn hall hsane.deliverable hsane.closable
  | none =>
    rw [hw] at hcn
    exact serves_done hcn hall ⟨_, hauth, hsame.data.trans hdata, .inl ⟨hl1, rfl⟩⟩

theorem serves_handleCommand {data : Bytes} (cmd : Cmd) (h : Sane none s)
    (hl : s.clientmap.lookup fd = some c) (hh : s.heap c = some m) (hdata : m.data = data)
    (hfits : Fits env s c map cmd) : Serves fd c data (handleCommand env fd map cmd) s := by
  obtain ⟨m0, h0, hfd, _, hc⟩ := h.wf.live fd c hl
  rw [hh] at h0
  cases h0
  cases cmd with
  | dc => exact serves_dc h hl hh
  | pi => exact serves_pi h hl hh hdata
  | pb => exact serves_pb h hl hh hdata hfits
  | cn =>
    cases hst : m.state with
    | stAuth =>
      have hcn : command env fd map .cn s = .ok (some (ascii "invalid state")) _ :=
        (cn_again env map hl hh hst).trans (refuse_eq _ hh hc)
      exact serves_failed hcn (.wrote hl _ _) (h.logged _).deliverable (h.logged _).closable
    | stNew =>
      obtain ⟨htidy, hspares⟩ := hfits m hh hst
      cases hr : refusal s map with
      | some err => exact serves_refused h hl hh hst hr htidy
      | none =>
        rw [hfd] at hspares
        exact serves_admitted h hl hh hst hdata hr (hspares hr)

end Commands

/-! ## The callback -/

section Callback
variable {env : Env} {s s' : St} {fd : Fd} {c : Conn} {m : Climap}

/-- One turn of the loop. If it goes on, the buffer has become shorter. -/
theorem serves_turn (h : Sane none s) (hl : s.clientmap.lookup fd = some c) (hh : s.heap c = some m)
    (hfits : CallsOk env (Fits env) fd c s) :
    ∃ b s' outs, turn env fd c s = .ok b s' ∧ Orderly s s' outs ∧
      (b = true → ∃ rest, rest.length < m.data.length ∧ Resumed fd c rest s') := by
  obtain ⟨next, hnext⟩ := readCommand_total m.data
  unfold turn
  rw [bind_of_ok (climapOf_eq hh), hnext]
  cases next with
  | wait => exact ⟨false, s, [], rfl, .of_eq rfl rfl, by simp⟩
  | refuse rest err =>
    have htrim : Orderly s (s.withData c m rest) [] := .of_eq rfl rfl
    have hgood := h.withData rest hh
    have hself : (s.withData c m rest).heap c = some { m with data := rest } := Function.update_self c _ _
    obtain ⟨s', outs, hok, ho, _⟩ : ∃ s' outs, closeClient env fd err (s.withData c m rest) = .ok () s' ∧ _ :=
      orderly_closeClient hgood.deliverable err hl hself (hgood.hasId hl hself)
    refine ⟨false, s', _, ?_, htrim.trans ho, by simp⟩
    simp only
    rw [bind_of_ok (setData_eq rest hh), bind_of_ok hok]
    rfl
  | call cmd map rest =>
    have hcalled : Sane none (s.called c m rest cmd map) := (h.withData rest hh).logged _
    have hself : (s.called c m rest cmd map).heap c = some { m with data := rest } :=
      Function.update_self c _ _
    have hdispatch : Orderly s (s.called c m rest cmd map) [.dispatch c cmd map] :=
      .one rfl rfl (x := .dispatch c cmd map) hl (by simp)
    obtain ⟨b, s', outs, hok, ho, hgo⟩ := serves_handleCommand cmd hcalled hl hself rfl
      (hfits s .refl m cmd map rest hh hnext)
    refine ⟨b, s', _, ?_, hdispatch.trans ho, fun hb => ⟨rest, readCommand_call_lt hnext, hgo hb⟩⟩
    simp only
    rw [bind_of_ok (setData_eq rest hh)]
    exact (bind_of_ok (show emit (.dispatch c cmd map) _ = .ok () _ from rfl)).trans hok

/-- With the connection closed and no command in the buffer, the loop ends and does nothing. -/
theorem dataLoop_atRest (hl : s.clientmap.lookup fd = none) (hh : s.heap c = some m) (hrest : AtRest m)
    (fuel : Nat) : ∃ s', dataLoop env fd c (fuel + 1) s = .ok false s' ∧ Orderly s s' [] := by
  obtain ⟨next, hnext⟩ := readCommand_total m.data
  have hturn : ∃ s', turn env fd c s = .ok false s' ∧ Orderly s s' [] := by
    unfold turn
    rw [bind_of_ok (climapOf_eq hh), hnext]
    cases next with
    | wait => exact ⟨s, rfl, .of_eq rfl rfl⟩
    | refuse rest err =>
      refine ⟨s.withData c m rest, ?_, .of_eq rfl rfl⟩
      simp only
      rw [bind_of_ok (setData_eq rest hh)]
      exact bind_of_ok (closeClient_again err hl)
    | call cmd map rest => exact absurd hnext (hrest.2 cmd map rest)
  obtain ⟨s', hturn, ho⟩ := hturn
  refine ⟨s', ?_, ho⟩
  unfold dataLoop
  rw [bind_of_ok (climapOf_eq hh), if_neg hrest.1, bind_of_ok hturn]
  rfl

/-- **The loop** returns, after something orderly; if it has run to its end, the connection is
authorized and open. -/
theorem serves_dataLoop (fuel : Nat) (h : Sane none s) (hs : Serving fd c s)
    (hl : s.clientmap.lookup fd = some c) (hfits : CallsOk env (Fits env) fd c s) (hh : s.heap c = some m)
    (hfuel : m.data.length ≤ fuel) (hstart : m.data ≠ [] ∨ m.state = .stAuth) :
    ∃ b s' outs, dataLoop env fd c fuel s = .ok b s' ∧ Orderly s s' outs ∧ (b = true → Going fd c s') := by
  induction fuel generalizing s m with
  | zero =>
    have hnil : m.data = [] := List.length_eq_zero_iff.mp (by omega)
    exact ⟨true, s, [], rfl, .of_eq rfl rfl, fun _ => ⟨hl, m, hh, hstart.resolve_left (by simp [hnil])⟩⟩
  | succ fuel ih =>
    by_cases hdata : m.data = []
    · refine ⟨true, s, [], ?_, .of_eq rfl rfl, fun _ => ⟨hl, m, hh, hstart.resolve_left (by simp [hdata])⟩⟩
      unfold dataLoop
      rw [bind_of_ok (climapOf_eq hh), if_pos hdata]
      rfl
    · obtain ⟨b, s1, outs, hturn, ho, hgo⟩ := serves_turn h hl hh hfits
      have hloop : dataLoop env fd c (fuel + 1) s =
          (if b = true then dataLoop env fd c fuel else pure false : M Bool) s1 := by
        rw [dataLoop, bind_of_ok (climapOf_eq hh), if_neg hdata, bind_of_ok hturn]
      rw [hloop]
      cases b with
      | false => exact ⟨false, s1, outs, rfl, ho, by simp⟩
      | true =>
        obtain ⟨rest, hlt, m1, hh1, hdata1, hcase⟩ := hgo rfl
        have hle : m1.data.length ≤ fuel := by
          rw [hdata1]
          omega
        rcases hcase with ⟨hl1, hauth⟩ | ⟨hgone, hrest⟩
        · have hsane := turn_sane (fun _ _ _ hP => hP) h hs hfits.tidy hturn
          have hserving := hs.moves ((moves_turn hs hfits.tidy).1 _ _ hturn)
          obtain ⟨b, s', outs', hok, ho', hend⟩ := ih hsane hserving hl1 (hfits.turned hturn) hh1 hle
            (.inr hauth)
          exact ⟨b, s', outs ++ outs', hok, ho.trans ho', hend⟩
        · -- closed: what is left in the buffer keeps the loop from running to its end
          obtain ⟨fuel, rfl⟩ : ∃ k, fuel = k + 1 := by
            have := List.length_pos_iff.mpr hrest.1
            exact ⟨fuel - 1, by omega⟩
          obtain ⟨s', hok, ho'⟩ := dataLoop_atRest hgone hh1 hrest fuel
          exact ⟨false, s', _, hok, ho.trans ho', by simp⟩

/-- The restart of the timer of an open connection is orderly, also when it raises. -/
theorem orderly_restartTimer (hl : s.clientmap.lookup fd = some c) (hh : s.heap c = some m) :
    ∃ outs, Orderly s (finalState (restartTimer c s)) outs ∧ .closeClient c ∉ outs := by
  have hstop : Orderly s (s.logged (.timerStop c)) [.timerStop c] :=
    .one rfl rfl (x := .timerStop c) hl (by simp)
  by_cases ht : m.timer = false
  · refine ⟨[], ?_⟩
    unfold restartTimer
    rw [bind_of_ok (climapOf_eq hh), if_pos ht]
    exact ⟨.of_eq rfl rfl, by simp⟩
  · rw [restartTimer_open hh ht]
    cases hp : m.param with
    | none => exact ⟨_, hstop, by simp⟩
    | some param =>
      cases hkp : param.kp with
      | none =>
        simp only [hkp]
        exact ⟨_, hstop, by simp⟩
      | some kp =>
        cases hms : timerMs kp with
        | none =>
          simp only [hkp, hms]
          exact ⟨_, hstop, by simp⟩
        | some ms =>
          simp only [hkp, hms]
          have hstart : Orderly (s.logged (.timerStop c))
              ((s.logged (.timerStop c)).logged (.timerStart c ms)) [.timerStart c ms] :=
            .one rfl rfl (x := .timerStart c ms) hl (by simp)
          exact ⟨_, hstop.trans hstart, by simp⟩

/-- **A chunk.** The callback is orderly. It returns, or it has not closed the connection and
is left with the restart of its timer. -/
theorem serves_chunk {P : St → Conn → Fields → Prop} (h : Sane none s) {data : Bytes}
    (hfits : EventFits env (Fits env) s (.chunk c data)) (hP : EventOk env P s (.chunk c data)) :
    ∃ outs, Orderly s (finalState (step env (.chunk c data) s)) outs ∧
      ((∃ s', step env (.chunk c data) s = .ok () s') ∨
        (.closeClient c ∉ outs ∧ ∃ fd s1, Moves env P s s1 ∧ Going fd c s1 ∧
          step env (.chunk c data) s = restartTimer c s1)) := by
  by_cases hen : enabled s (.chunk c data) = true
  · obtain ⟨hopen, hne⟩ : s.isOpen c = true ∧ data ≠ [] := by simpa [enabled] using hen
    obtain ⟨m, hh, hc⟩ := isOpen_iff.mp hopen
    have hl : s.clientmap.lookup m.fd = some c := h.wf.registered c m hh (.inr hc)
    have hrecv : Sane none (s.received c m data) := (h.logged (.recv c data)).withData _ hh
    have hs := Serving.received h.wf data hh hc
    have hself : (s.received c m data).heap c = some { m with data := m.data ++ data } :=
      Function.update_self c _ _
    have horecv : Orderly s (s.received c m data) [.recv c data] :=
      .one rfl rfl (x := .recv c data) hl (by simp)
    obtain ⟨b, s1, outs, hloop, ho, hgo⟩ := serves_dataLoop (m.data ++ data).length hrecv hs hl
      (hfits hen m hh) hself (Nat.le_refl _) (.inl (by simp [hne]))
    have hstep : step env (.chunk c data) s = (if b = true then restartTimer c else pure ()) s1 := by
      rw [show step env (.chunk c data) s = handle env (.chunk c data) s from if_pos hen,
        handle_chunk_eq h.wf data hh hc, bind_of_ok hloop]
    have hall := horecv.trans ho
    cases b with
    | false =>
      have hreturn : step env (.chunk c data) s = .ok () s1 := hstep
      rw [hreturn]
      exact ⟨_, hall, .inl ⟨s1, rfl⟩⟩
    | true =>
      have hrestart : step env (.chunk c data) s = restartTimer c s1 := hstep
      obtain ⟨hl1, m1, hh1, hauth⟩ := hgo rfl
      obtain ⟨outs', ho', hquiet⟩ := orderly_restartTimer hl1 hh1
      have hmoves := (moves_dataLoop _ hs (hP hen m hh)).1 _ _ hloop
      rw [hrestart]
      refine ⟨_, hall.trans ho', .inr ⟨?_, m.fd, s1, (moves_received data hh).trans hmoves,
        ⟨hl1, m1, hh1, hauth⟩, rfl⟩⟩
      -- the loop ran to its end, and the connection is still registered
      have hopen : .closeClient c ∉ [Out.recv c data] ++ outs := (hall.live m.fd c hl1).2
      exact fun hmem => (List.mem_append.mp hmem).elim hopen hquiet
  · have hskip : step env (.chunk c data) s = .ok () s := if_neg hen
    rw [hskip]
    exact ⟨[], .of_eq rfl rfl, .inl ⟨s, rfl⟩⟩

end Callback

/-! ## Runs -/

/-- **Nothing is done to a closed connection.** In every run whose commands fit, a chunk is
handled so that no entry of the log is about a connection closed before it in the same
call; the call returns if it has closed the connection it serves; and it always returns if
besides the cn commands are harmless. -/
theorem quiet_after_close {env : Env} {evs : List Event} {c : Conn} {data : Bytes} {s : St}
    (hfits : CallsAlong env (Fits env) (evs ++ [.chunk c data])) (hrun : run env evs = .ok () s) :
    ∃ outs, (finalState (step env (.chunk c data) s)).log = s.log ++ outs ∧
      (outs.Pairwise fun o o' => o ≠ .closeClient o'.conn) ∧
      (.closeClient c ∈ outs → ∃ s', step env (.chunk c data) s = .ok () s') ∧
      (CnAlong env (fun s _ map => Harmless s map) (evs ++ [.chunk c data]) →
        ∃ s', step env (.chunk c data) s = .ok () s') := by
  have hsane : Sane none s :=
    (run_invariant (I := Sane none) .new (fun _ _ _ _ h hheap hl => h.connected hheap hl)
      (fun _ _ _ h hm => h.move (hm.mono fun _ _ _ hP => hP.clean)) hfits.tidy.prefix hrun).2
  have hchunk := hfits.at_step hrun
  obtain ⟨outs, ho, hreturn⟩ := serves_chunk hsane hchunk hchunk.tidy
  refine ⟨outs, ho.log, ho.hushed, fun hmem => hreturn.resolve_right fun h => h.1 hmem, fun hharmless => ?_⟩
  obtain ⟨hw, hinv⟩ := harmless_run hharmless.prefix hrun
  obtain ⟨_, _, hreturn | ⟨_, fd, s1, hmoves, hgo, hrestart⟩⟩ :=
    serves_chunk hsane hchunk (hharmless.at_step hrun)
  · exact hreturn
  · -- the timer of an accepted connection is good
    obtain ⟨hsane1, htimers1⟩ := moves_invariant harmless_move hmoves hw hinv
    obtain ⟨s', hok⟩ := htimers1.restart hsane1 hgo
    exact ⟨s', hrestart.trans hok⟩

/-- A connection that can always be written is spared. -/
theorem Done.write_failed {env : Env} {s s' : St} {call : Call} {pubs : List (Bytes × Bytes)}
    {outs : List Out} (h : Done env call s s' pubs outs) {c : Conn} (hmem : c ∈ failedIn outs) :
    ∃ log, env.write log c ≠ none := by
  induction h with
  | silent => simp [failedIn] at hmem
  | publish _ _ ih => exact ih hmem
  | nil => simp [failedIn] at hmem
  | skip _ _ ih => exact ih hmem
  | sent _ _ _ _ ih => exact ih hmem
  | @failed s _ _ t p err _ _ c' _ _ outs outs' _ _ hw _ _ ihclose ih =>
    have hmem : c ∈ c' :: failedIn (outs ++ outs') := hmem
    rw [failedIn_append, List.mem_cons, List.mem_append] at hmem
    rcases hmem with rfl | hmem | hmem
    · exact ⟨s.log, by rw [hw]; simp⟩
    · exact ihclose hmem
    · exact ih hmem
  | quiet => simp [failedIn] at hmem
  | will _ _ _ _ ih => exact ih hmem

/-- `CallsOk`, computed over at most `fuel` turns of the loop. -/
def callsCheck (env : Env) (q : St → Conn → Fields → Cmd → Bool) (fd : Fd) (c : Conn) : Nat → St → Bool
  | 0, _ => false
  | fuel + 1, s =>
    (match s.heap c with
      | none => true
      | some m =>
        match readCommand m.data with
        | .ok (.call cmd map rest) => q (s.called c m rest cmd map) c map cmd
        | _ => true) &&
    (match turn env fd c s with
      | .ok true s' => callsCheck env q fd c fuel s'
      | _ => true)

theorem callsOk_of_check {env : Env} {q : St → Conn → Fields → Cmd → Bool} {fd : Fd} {c : Conn} {fuel : Nat}
    {s : St} (h : callsCheck env q fd c fuel s = true) :
    CallsOk env (fun s c map cmd => q s c map cmd = true) fd c s := by
  induction fuel generalizing s with
  | zero => cases h
  | succ fuel ih =>
    rw [callsCheck, Bool.and_eq_true] at h
    obtain ⟨hnow, hlater⟩ := h
    intro s1 hs1 m cmd map rest hh hread
    rcases Relation.ReflTransGen.cases_head hs1 with rfl | ⟨s2, hturn, hs1⟩
    · simpa [hh, hread] using hnow
    · have hturn : turn env fd c s = .ok true s2 := hturn
      rw [hturn] at hlater
      exact ih hlater s1 hs1 m cmd map rest hh hread

/-- `EventFits`, computed. -/
def eventFitsCheck (env : Env) (q : St → Conn → Fields → Cmd → Bool) (s : St) : Event → Bool
  | .chunk c data =>
    match s.heap c with
    | none => true
    | some m => callsCheck env q m.fd c ((m.data ++ data).length + 1) (s.received c m data)
  | _ => true

theorem callsAlong_of_check {env : Env} {q : St → Conn → Fields → Cmd → Bool}
    {Q : St → Conn → Fields → Cmd → Prop} (hQ : ∀ s c map cmd, q s c map cmd = true → Q s c map cmd)
    {evs : List Event} (h : alongCheck (step env) (eventFitsCheck env q) .new evs = true) :
    CallsAlong env Q evs := by
  refine Along.mono (fun s ev hev => ?_) (along_of_check h)
  cases ev with
  | chunk c data =>
    intro _ m hh s1 hs1 m1 cmd map rest hh1 hread
    simp only [eventFitsCheck, hh] at hev
    exact hQ _ _ _ _ (callsOk_of_check hev s1 hs1 m1 cmd map rest hh1 hread)
  | accept => trivial
  | closed => trivial
  | timeout => trivial

/-- Tidy cn commands without a connect message, and no publication by the connection 0. -/
def fitsBroken0 (s : St) (c : Conn) (map : Fields) : Cmd → Bool
  | .cn => decide (Tidy s map) && (connectMessage map).isNone
  | .pb => c ≠ 0
  | _ => true

theorem fits_broken0 (s : St) (c : Conn) (map : Fields) (cmd : Cmd)
    (h : fitsBroken0 s c map cmd = true) : Fits .broken0 s c map cmd := by
  cases cmd with
  | cn =>
    simp only [fitsBroken0, Bool.and_eq_true, decide_eq_true_eq, Option.isNone_iff_eq_none] at h
    refine fun _ _ _ => ⟨h.1, fun _ topic payload hmsg => ?_⟩
    rw [h.2] at hmsg
    cases hmsg
  | pb =>
    have hne : c ≠ 0 := by simpa [fitsBroken0] using h
    refine fun _ _ _ topic payload _ _ => .inr fun s' pubs outs hdone hmem => ?_
    obtain ⟨log, hw⟩ := hdone.write_failed hmem
    exact hw (if_neg fun h => hne h.1)
  | dc => trivial
  | pi => trivial

/-- A publication, and a dc command behind it. -/
def farewell : Bytes :=
  commandFrame [("id", ascii "pb"), ("tp", ascii "a"), ("pl", ascii "z")] ++
    commandFrame [("id", ascii "dc")]

/-- The second subscriber publishes, which closes the first one, and disconnects. -/
theorem quiet_after_close_two : ∃ s, run .broken0 (willSetup "a" "w") = .ok () s ∧
    ∃ outs, (finalState (step .broken0 (.chunk 1 farewell) s)).log = s.log ++ outs ∧
      (outs.Pairwise fun o o' => o ≠ .closeClient o'.conn) ∧
      (.closeClient 1 ∈ outs → ∃ s', step .broken0 (.chunk 1 farewell) s = .ok () s') ∧
      (CnAlong .broken0 (fun s _ map => Harmless s map) (willSetup "a" "w" ++ [.chunk 1 farewell]) →
        ∃ s', step .broken0 (.chunk 1 farewell) s = .ok () s') := by
  have hrun : run .broken0 (willSetup "a" "w") = .ok () _ := eq_ok_of_returned (by decide +kernel)
  exact ⟨_, hrun, quiet_after_close (callsAlong_of_check fits_broken0 (by decide +kernel)) hrun⟩

/-- No write is accepted. -/
def Env.mute : Env where
  write := fun _ _ => some (ascii "EPIPE")
  pairs := fun fields => fields
  pairs_perm := Env.calm.pairs_perm
  visit := fun _ fds => fds
  visit_perm := fun _ _ => .refl _

/-- A connection that subscribes to a topic, and then sends `data`. -/
def selfRun (data : Bytes) : List Event := [.accept 0 5, .chunk 0 (cnFrame "x" "5" "a" []), .chunk 0 data]

/-- A command of the connection is dispatched after it has been closed. -/
def dispatchedAfterClose (c : Conn) (log : List Out) : Bool :=
  (log.dropWhile fun o => match o with
    | .closeClient c' => c' ≠ c
    | _ => true).any fun o => match o with
    | .dispatch c' _ _ => c' = c
    | _ => false

/-- A connection closed by its own connect message is written the connack; one closed by its own
publication gets its timer stopped, or its next command dispatched. -/
theorem used_after_close :
    (∃ s, run .mute [.accept 0 5, .chunk 0 (cnFrame "x" "5" "a" [("ct", ascii "a"), ("cp", ascii "z")])] =
      .error (.badArgument "write") s ∧ 0 ∈ closedIn s.log) ∧
    (∃ s, run .broken0 (selfRun (commandFrame [("id", ascii "pb"), ("tp", ascii "a"), ("pl", ascii "z")])) =
      .error (.badArgument "timer_stop") s ∧ 0 ∈ closedIn s.log) ∧
    ∃ s, run .broken0 (selfRun farewell) = .ok () s ∧ dispatchedAfterClose 0 s.log = true := by
  refine ⟨?_, ?_, exists_of_endsIn (by decide +kernel)⟩
  · obtain ⟨s, hrun, hs⟩ := exists_of_raisesIn (p := fun s => decide (0 ∈ closedIn s.log))
      (r := run .mute [.accept 0 5, .chunk 0 (cnFrame "x" "5" "a" [("ct", ascii "a"), ("cp", ascii "z")])])
      (e := .badArgument "write") (by decide +kernel)
    exact ⟨s, hrun, of_decide_eq_true hs⟩
  · obtain ⟨s, hrun, hs⟩ := exists_of_raisesIn (p := fun s => decide (0 ∈ closedIn s.log))
      (r := run .broken0 (selfRun (commandFrame [("id", ascii "pb"), ("tp", ascii "a"), ("pl", ascii "z")])))
      (e := .badArgument "timer_stop") (by decide +kernel)
    exact ⟨s, hrun, of_decide_eq_true hs⟩

end ApApps.Sand

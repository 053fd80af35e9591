import ApApps.Sand.Broker

/- What `close_client` and `do_publish` can do to the broker, however deep the one
   calls the other: they hand messages to subscribers and take connections out of
   every table, one after the other (`Tick`, `Cascade`).

   `cascade_closeClient`, `cascade_doPublish`: a call that returns is such a sequence,
   and one that raises does so after such a sequence in a state that explains the
   error (`Broken`). `closeClient_eq`, `doPublish_eq`: the bound on the depth is never
   felt, so the equations of the source hold. -/
namespace ApApps.Sand
open Incremental ApApps.Redis Exec

/-! ## Frames -/

theorem Msg.fields_ne (msg : Msg) : msg.fields ≠ [] := by
  cases msg <;> simp [Msg.fields]

/-- The frame of a message. -/
def Env.frame (env : Env) (msg : Msg) : Bytes :=
  match encode (env.pairs msg.fields) with
  | .ok frame => frame
  | .error _ => []

/-- A message has fields, and they are strings: `build_query` does not raise. -/
theorem buildQuery_eq (env : Env) (msg : Msg) (s : St) :
    buildQuery env msg s = .ok (env.frame msg) s := by
  have hne : toarr (env.pairs msg.fields) ≠ [] := by
    intro h
    have hnil : env.pairs msg.fields = [] := by simpa [toarr] using h
    have hperm := env.pairs_perm msg.fields
    rw [hnil] at hperm
    exact msg.fields_ne hperm.nil_eq.symm
  have henc := redisBuildQuery_eq ((toarr (env.pairs msg.fields)).map .text)
    (by simpa using hne) (by simp)
  unfold buildQuery Env.frame encode
  rw [henc]

/-! ## The pieces -/

theorem climapOf_eq {s : St} {c : Conn} {m : Climap} (h : s.heap c = some m) :
    climapOf c s = .ok m s := by
  simp only [climapOf, h]

theorem climapOf_ok {s s' : St} {c : Conn} {m : Climap} (h : climapOf c s = .ok m s') :
    s' = s ∧ s.heap c = some m := by
  unfold climapOf at h
  split at h
  · rename_i m' hm
    cases h
    exact ⟨rfl, hm⟩
  · cases h

theorem climapOf_none {s : St} {c : Conn} (h : s.heap c = none) :
    climapOf c s = .error .nilIndexed s := by
  simp only [climapOf, h]

theorem assertClient_eq {s : St} {fd : Fd} {c : Conn} (site : String)
    (h : s.clientmap.lookup fd = some c) : assertClient site fd s = .ok c s := by
  simp only [assertClient, h]

theorem assertClient_none {s : St} {fd : Fd} (site : String)
    (h : s.clientmap.lookup fd = none) :
    assertClient site fd s = .error (.assertFailed site) s := by
  simp only [assertClient, h]

theorem assertClient_ok {s s' : St} {fd : Fd} {c : Conn} {site : String}
    (h : assertClient site fd s = .ok c s') : s' = s ∧ s.clientmap.lookup fd = some c := by
  unfold assertClient at h
  split at h
  · rename_i c' hc
    cases h
    exact ⟨rfl, hc⟩
  · cases h

/-- The broker after `uv.write`. -/
def St.wrote (s : St) (env : Env) (c : Conn) (msg : Msg) (frame : Bytes) : St :=
  { s with log := s.log ++ [.write c msg frame (env.write s.log c).isNone] }

theorem uvWrite_eq {s : St} {c : Conn} {m : Climap} (env : Env) (msg : Msg) (frame : Bytes)
    (h : s.heap c = some m) (hc : m.client = true) :
    uvWrite env c msg frame s = .ok (env.write s.log c) (s.wrote env c msg frame) := by
  unfold uvWrite
  rw [bind_of_ok (climapOf_eq h), if_neg (by rw [hc]; decide)]
  rfl

theorem uvWrite_closed {s : St} {c : Conn} {m : Climap} (env : Env) (msg : Msg) (frame : Bytes)
    (h : s.heap c = some m) (hc : m.client = false) :
    uvWrite env c msg frame s = .error (.badArgument "write") s := by
  unfold uvWrite
  rw [bind_of_ok (climapOf_eq h), if_pos hc]
  rfl

theorem uvWrite_ok {s s' : St} {env : Env} {c : Conn} {msg : Msg} {frame : Bytes}
    {err : Option Bytes} (h : uvWrite env c msg frame s = .ok err s') :
    (∃ m, s.heap c = some m ∧ m.client = true) ∧ err = env.write s.log c ∧
      s' = s.wrote env c msg frame := by
  unfold uvWrite at h
  obtain ⟨m, s1, hm, hw⟩ := bind_eq_ok.mp h
  obtain ⟨rfl, hheap⟩ := climapOf_ok hm
  by_cases hc : m.client = false
  · rw [if_pos hc] at hw
    cases hw
  · rw [if_neg hc] at hw
    cases hw
    exact ⟨⟨m, hheap, by simpa using hc⟩, rfl, rfl⟩

/-- The topics a connection is taken out of when it is closed. -/
def Climap.topics (m : Climap) : List Bytes :=
  match m.param with
  | some param => param.topics
  | none => []

/-- `climap.param.cd`. -/
def Climap.clientid (m : Climap) : Option Bytes := m.param.bind fun param => param.map.get "cd"

/-- The will `close_client` publishes. -/
def Param.will (param : Param) : Option (Bytes × Bytes) :=
  match param.map.get "wt", param.map.get "wp" with
  | some wt, some wp => if wt = [] then none else some (wt, wp)
  | _, _ => none

/-- The broker after everything `close_client` does but the will. -/
def St.shut (s : St) (fd : Fd) (c : Conn) (m : Climap) : St where
  heap := Function.update s.heap c (some { m with timer := false, client := false })
  clientmap := s.clientmap.erase fd
  clientid2fd := match m.clientid with
    | some cd => Function.update s.clientid2fd cd none
    | none => s.clientid2fd
  topic2client := fun t =>
    if t ∈ m.topics then (s.topic2client t).map (·.erase fd) else s.topic2client t
  openFds := s.openFds.erase m.fd
  log := s.log ++ [.closeTimer c, .closeClient c]

theorem closeTimer_eq {s : St} {c : Conn} {m : Climap} (h : s.heap c = some m)
    (ht : m.timer = true) :
    closeTimer c s = .ok () { s with
      heap := Function.update s.heap c (some { m with timer := false }),
      log := s.log ++ [.closeTimer c] } := by
  unfold closeTimer
  rw [bind_of_ok (climapOf_eq h), if_neg (by rw [ht]; decide)]
  rfl

theorem closeHandle_eq {s : St} {c : Conn} {m : Climap} (h : s.heap c = some m)
    (hc : m.client = true) :
    closeHandle c s = .ok () { s with
      heap := Function.update s.heap c (some { m with client := false }),
      openFds := s.openFds.erase m.fd,
      log := s.log ++ [.closeClient c] } := by
  unfold closeHandle
  rw [bind_of_ok (climapOf_eq h), if_neg (by rw [hc]; decide)]
  rfl

/-- `close_client` of a descriptor that is not in `clientmap` does nothing. -/
theorem closeClientWith_none {s : St} {fd : Fd} (publish : Bytes → Bytes → M Unit) (err : Bytes)
    (h : s.clientmap.lookup fd = none) : closeClientWith publish fd err s = .ok () s := by
  unfold closeClientWith
  rw [bind_of_ok (show (get : M St) s = .ok s s from rfl)]
  simp only [h]
  rfl

/-- `close_client` of a connection whose handles are open. -/
theorem closeClientWith_some {s : St} {fd : Fd} {c : Conn} {m : Climap}
    (publish : Bytes → Bytes → M Unit) (err : Bytes) (hl : s.clientmap.lookup fd = some c)
    (hh : s.heap c = some m) (ht : m.timer = true) (hc : m.client = true) :
    closeClientWith publish fd err s =
      match m.param with
      | none => .ok () (s.shut fd c m)
      | some param =>
        match param.map.get "cd" with
        | none => .error .nilKey (s.shut fd c m)
        | some _ =>
          match param.will with
          | none => .ok () (s.shut fd c m)
          | some (wt, wp) => publish wt wp (s.shut fd c m) := by
  unfold closeClientWith
  rw [bind_of_ok (show (get : M St) s = .ok s s from rfl)]
  simp only [hl]
  rw [bind_of_ok (closeTimer_eq hh ht),
    bind_of_ok (closeHandle_eq (m := { m with timer := false }) (Function.update_self c _ s.heap) hc)]
  simp only [Function.update_idem, List.append_assoc, List.cons_append, List.nil_append]
  rw [bind_of_ok (show removeClient fd _ = .ok () _ from rfl)]
  rw [bind_of_ok (climapOf_eq (Function.update_self c _ s.heap))]
  cases hp : m.param with
  | none =>
    simp only [St.shut, Climap.topics, Climap.clientid, hp]
    simp
    rfl
  | some param =>
    simp only
    rw [bind_of_ok (show unregister fd _ _ = .ok () _ from rfl)]
    cases hcd : param.map.get "cd" with
    | none =>
      rw [bind_of_error (show forgetClientid none _ = .error _ _ from rfl)]
      simp [St.shut, Climap.topics, Climap.clientid, hp, hcd]
    | some cd =>
      rw [bind_of_ok (show forgetClientid (some cd) _ = .ok () _ from rfl)]
      simp only [St.shut, Climap.topics, Climap.clientid, hp, Option.bind_some, hcd]
      cases hwt : param.map.get "wt" with
      | none =>
        simp only [Param.will, hwt]
        rfl
      | some wt =>
        cases hwp : param.map.get "wp" with
        | none =>
          simp only [Param.will, hwt, hwp]
          rfl
        | some wp =>
          simp only [Param.will, hwt, hwp]
          by_cases hnil : wt = []
          · simp only [hnil, if_true]
            rfl
          · simp only [hnil, if_false]

/-- With a closed handle one of the two `uv.close` raises, before anything is published. -/
theorem closeClientWith_bad {s : St} {c : Conn} (fd : Fd) (err : Bytes)
    (hl : s.clientmap.lookup fd = some c)
    (hbad : ∀ m, s.heap c = some m → m.timer = false ∨ m.client = false) :
    ∃ e s', ∀ publish, closeClientWith publish fd err s = .error e s' := by
  have hget : (get : M St) s = .ok s s := rfl
  cases hh : s.heap c with
  | none =>
    refine ⟨.nilIndexed, s, fun publish => ?_⟩
    unfold closeClientWith
    rw [bind_of_ok hget]
    simp only [hl]
    apply bind_of_error
    unfold closeTimer
    exact bind_of_error (climapOf_none hh)
  | some m =>
    by_cases ht : m.timer = false
    · refine ⟨.badArgument "close", s, fun publish => ?_⟩
      unfold closeClientWith
      rw [bind_of_ok hget]
      simp only [hl]
      apply bind_of_error
      unfold closeTimer
      rw [bind_of_ok (climapOf_eq hh), if_pos ht]
      rfl
    · have hc : m.client = false := (hbad m hh).resolve_left ht
      refine ⟨.badArgument "close", { s with
        heap := Function.update s.heap c (some { m with timer := false }),
        log := s.log ++ [.closeTimer c] }, fun publish => ?_⟩
      unfold closeClientWith
      rw [bind_of_ok hget]
      simp only [hl]
      rw [bind_of_ok (closeTimer_eq hh (by simpa using ht))]
      apply bind_of_error
      unfold closeHandle
      rw [bind_of_ok (climapOf_eq (Function.update_self c _ s.heap)), if_pos hc]
      rfl

/-! ## Ticks -/

/-- One thing a call of `close_client` or `do_publish` does: it writes a publication
to a subscriber, or it closes a connection and takes it out of every table. -/
inductive Tick (env : Env) : St → St → Prop
  | deliver {s : St} {fd : Fd} {c : Conn} {m : Climap} {topic payload : Bytes}
      (hsub : fd ∈ s.subs topic) (hl : s.clientmap.lookup fd = some c) (hh : s.heap c = some m)
      (hc : m.client = true) :
      Tick env s (s.wrote env c (.pb topic payload) (env.frame (.pb topic payload)))
  | shut {s : St} {fd : Fd} {c : Conn} {m : Climap} (hl : s.clientmap.lookup fd = some c)
      (hh : s.heap c = some m) (ht : m.timer = true) (hc : m.client = true)
      (hcd : m.param.isSome → m.clientid.isSome) :
      Tick env s (s.shut fd c m)

/-- A sequence of them. -/
abbrev Cascade (env : Env) : St → St → Prop := Relation.ReflTransGen (Tick env)

/-- What is wrong with the broker when one of the two raises. -/
inductive Broken : LuaError → St → Prop
  | dangling {s : St} {topic : Bytes} {fd : Fd} (hsub : fd ∈ s.subs topic)
      (hl : s.clientmap.lookup fd = none) : Broken (.assertFailed "do_publish") s
  | noClientid {s : St} {fd : Fd} {c : Conn} {m : Climap} (hl : s.clientmap.lookup fd = some c)
      (hh : s.heap c = some m) (hp : m.param.isSome) (hcd : m.clientid = none) : Broken .nilKey s
  | badHandle {s : St} {fd : Fd} {c : Conn} (e : LuaError) (hl : s.clientmap.lookup fd = some c)
      (hh : ∀ m, s.heap c = some m → m.timer = false ∨ m.client = false) : Broken e s

theorem closeClient_apply (env : Env) (fd : Fd) (err : Bytes) (s : St) :
    closeClient env fd err s = closeClientFuel env (s.clientmap.keys.length + 1) fd err s := by
  unfold closeClient
  exact bind_of_ok (show (get : M St) s = .ok s s from rfl)

theorem doPublish_apply (env : Env) (topic payload : Bytes) (s : St) :
    doPublish env topic payload s =
      doPublishWith env (closeClientFuel env (s.clientmap.keys.length + 1)) topic payload s := by
  unfold doPublish
  exact bind_of_ok (show (get : M St) s = .ok s s from rfl)

section Bound
variable {env : Env}

/-- `close_client` cascades if what it publishes does. -/
theorem cascade_closeClientWith {publish : Bytes → Bytes → M Unit}
    (hpub : ∀ topic payload, Within (Cascade env) Broken (publish topic payload)) (fd : Fd)
    (err : Bytes) : Within (Cascade env) Broken (closeClientWith publish fd err) := by
  intro s
  cases hl : s.clientmap.lookup fd with
  | none => exact withinAt_of_ok (closeClientWith_none publish err hl) .refl
  | some c =>
    by_cases hok : ∃ m, s.heap c = some m ∧ m.timer = true ∧ m.client = true
    · obtain ⟨m, hh, ht, hc⟩ := hok
      have heq := closeClientWith_some publish err hl hh ht hc
      cases hp : m.param with
      | none =>
        rw [hp] at heq
        exact withinAt_of_ok heq (.single (.shut hl hh ht hc (by simp [hp])))
      | some param =>
        rw [hp] at heq
        cases hcd : param.map.get "cd" with
        | none =>
          simp only [hcd] at heq
          exact withinAt_of_error heq .refl
            (.noClientid hl hh (by simp [hp]) (by simp [Climap.clientid, hp, hcd]))
        | some cd =>
          have hshut : Cascade env s (s.shut fd c m) :=
            .single (.shut hl hh ht hc (by simp [Climap.clientid, hp, hcd]))
          simp only [hcd] at heq
          cases hw : param.will with
          | none =>
            rw [hw] at heq
            exact withinAt_of_ok heq hshut
          | some will =>
            rw [hw] at heq
            exact .after (fun _ _ _ h1 h2 => h1.trans h2) hshut heq (hpub will.1 will.2 _)
    · have hbad : ∀ m, s.heap c = some m → m.timer = false ∨ m.client = false := by
        intro m hh
        by_contra hcon
        simp only [not_or, Bool.not_eq_false] at hcon
        exact hok ⟨m, hh, hcon.1, hcon.2⟩
      obtain ⟨e, s1, hraise⟩ := closeClientWith_bad fd err hl hbad
      exact withinAt_of_error (hraise publish) .refl (.badHandle e hl hbad)

/-- One subscriber is served by a cascade if what closes it is one. -/
theorem cascade_publishTo {close : Fd → Bytes → M Unit}
    (hclose : ∀ fd err, Within (Cascade env) Broken (close fd err)) (topic payload : Bytes)
    (fd : Fd) : Within (Cascade env) Broken
      (publishTo env close topic payload (env.frame (.pb topic payload)) fd) := by
  intro s
  have hget : (get : M St) s = .ok s s := rfl
  by_cases hsub : fd ∈ s.subs topic
  · cases hl : s.clientmap.lookup fd with
    | none =>
      have heq : publishTo env close topic payload (env.frame (.pb topic payload)) fd s =
          .error (.assertFailed "do_publish") s := by
        unfold publishTo
        rw [bind_of_ok hget, if_pos hsub, bind_of_error (assertClient_none _ hl)]
      exact withinAt_of_error heq .refl (.dangling hsub hl)
    | some c =>
      by_cases hok : ∃ m, s.heap c = some m ∧ m.client = true
      · obtain ⟨m, hh, hc⟩ := hok
        have hwrote : Cascade env s (s.wrote env c (.pb topic payload)
            (env.frame (.pb topic payload))) := .single (.deliver hsub hl hh hc)
        cases hw : env.write s.log c with
        | none =>
          have heq : publishTo env close topic payload (env.frame (.pb topic payload)) fd s =
              .ok () (s.wrote env c (.pb topic payload) (env.frame (.pb topic payload))) := by
            unfold publishTo
            rw [bind_of_ok hget, if_pos hsub, bind_of_ok (assertClient_eq _ hl),
              bind_of_ok (uvWrite_eq env _ _ hh hc), hw]
            rfl
          exact withinAt_of_ok heq hwrote
        | some err =>
          refine .after (fun _ _ _ h1 h2 => h1.trans h2) hwrote ?_ (hclose fd err _)
          unfold publishTo
          rw [bind_of_ok hget, if_pos hsub, bind_of_ok (assertClient_eq _ hl),
            bind_of_ok (uvWrite_eq env _ _ hh hc), hw]
      · have hbad : ∀ m, s.heap c = some m → m.timer = false ∨ m.client = false := by
          intro m hh
          by_contra hcon
          simp only [not_or, Bool.not_eq_false] at hcon
          exact hok ⟨m, hh, hcon.2⟩
        obtain ⟨e, heq⟩ : ∃ e, publishTo env close topic payload (env.frame (.pb topic payload)) fd
            s = .error e s := by
          unfold publishTo
          rw [bind_of_ok hget, if_pos hsub, bind_of_ok (assertClient_eq _ hl)]
          cases hh : s.heap c with
          | none =>
            refine ⟨.nilIndexed, bind_of_error ?_⟩
            unfold uvWrite
            exact bind_of_error (climapOf_none hh)
          | some m =>
            refine ⟨.badArgument "write", bind_of_error (uvWrite_closed env _ _ hh ?_)⟩
            by_contra hc
            exact hok ⟨m, hh, by simpa using hc⟩
        exact withinAt_of_error heq .refl (.badHandle e hl hbad)
  · have heq : publishTo env close topic payload (env.frame (.pb topic payload)) fd s =
        .ok () s := by
      unfold publishTo
      rw [bind_of_ok hget, if_neg hsub]
      rfl
    exact withinAt_of_ok heq .refl

theorem cascade_publishLoop {close : Fd → Bytes → M Unit}
    (hclose : ∀ fd err, Within (Cascade env) Broken (close fd err)) (topic payload : Bytes)
    (fds : List Fd) : Within (Cascade env) Broken
      (publishLoop env close topic payload (env.frame (.pb topic payload)) fds) := by
  induction fds with
  | nil => exact within_pure (fun _ => .refl) ()
  | cons fd fds ih =>
    exact within_bind (fun _ _ _ h1 h2 => h1.trans h2) (cascade_publishTo hclose topic payload fd)
      (fun _ => ih)

theorem cascade_doPublishWith {close : Fd → Bytes → M Unit}
    (hclose : ∀ fd err, Within (Cascade env) Broken (close fd err)) (topic payload : Bytes) :
    Within (Cascade env) Broken (doPublishWith env close topic payload) := by
  intro s
  have hget : (get : M St) s = .ok s s := rfl
  by_cases hsub : s.subs topic = []
  · have heq : doPublishWith env close topic payload s = .ok () s := by
      unfold doPublishWith
      rw [bind_of_ok hget, if_pos hsub]
      rfl
    exact withinAt_of_ok heq .refl
  · refine .after (fun _ _ _ h1 h2 => h1.trans h2) .refl ?_
      (cascade_publishLoop hclose topic payload (env.visit s.log (s.subs topic)) s)
    unfold doPublishWith
    rw [bind_of_ok hget, if_neg hsub, bind_of_ok (buildQuery_eq env _ s)]

theorem cascade_closeClientFuel (fuel : Nat) (fd : Fd) (err : Bytes) :
    Within (Cascade env) Broken (closeClientFuel env fuel fd err) := by
  induction fuel generalizing fd err with
  | zero => exact within_pure (fun _ => .refl) ()
  | succ fuel ih =>
    exact cascade_closeClientWith (fun topic payload => cascade_doPublishWith ih topic payload) fd err

/-- **What `close_client` does** is a cascade. -/
theorem cascade_closeClient (fd : Fd) (err : Bytes) :
    Within (Cascade env) Broken (closeClient env fd err) := by
  intro s
  exact .after (fun _ _ _ h1 h2 => h1.trans h2) .refl (closeClient_apply env fd err s)
    (cascade_closeClientFuel (s.clientmap.keys.length + 1) fd err s)

/-- **What `do_publish` does** is a cascade. -/
theorem cascade_doPublish (topic payload : Bytes) :
    Within (Cascade env) Broken (doPublish env topic payload) := by
  intro s
  exact .after (fun _ _ _ h1 h2 => h1.trans h2) .refl (doPublish_apply env topic payload s)
    (cascade_doPublishWith (fun fd err => cascade_closeClientFuel _ fd err) topic payload s)

end Bound

/-! ## What a cascade leaves as it is -/

section Facts
variable {env : Env} {s s' : St}

/-- What every tick preserves a cascade preserves. -/
theorem Cascade.preserves {I : St → Prop} (hI : ∀ s s', Tick env s s' → I s → I s')
    (h : Cascade env s s') (h0 : I s) : I s' := by
  induction h with
  | refl => exact h0
  | tail _ htick ih => exact hI _ _ htick ih

/-- The fields of a climap that closing it leaves alone. -/
structure Climap.Same (m m' : Climap) : Prop where
  fd : m'.fd = m.fd
  data : m'.data = m.data
  param : m'.param = m.param
  state : m'.state = m.state

theorem Climap.Same.refl (m : Climap) : m.Same m := ⟨rfl, rfl, rfl, rfl⟩

theorem Climap.Same.trans {m1 m2 m3 : Climap} (h1 : m1.Same m2) (h2 : m2.Same m3) : m1.Same m3 :=
  ⟨h2.fd.trans h1.fd, h2.data.trans h1.data, h2.param.trans h1.param, h2.state.trans h1.state⟩

/-- Nothing is registered by a cascade. -/
theorem Cascade.lookup_of (h : Cascade env s s') {fd : Fd} {c : Conn}
    (hl : s'.clientmap.lookup fd = some c) : s.clientmap.lookup fd = some c := by
  induction h with
  | refl => exact hl
  | @tail s1 _ _ htick ih =>
    apply ih
    cases htick with
    | deliver => exact hl
    | @shut fd' =>
      have hl : (s1.clientmap.erase fd').lookup fd = some c := hl
      by_cases hfd : fd = fd'
      · subst hfd
        rw [AList.lookup_erase] at hl
        cases hl
      · rwa [AList.lookup_erase_ne hfd] at hl

theorem length_keys_erase {m : AList (fun _ : Fd => Conn)} {fd : Fd} {c : Conn}
    (hl : m.lookup fd = some c) : (m.erase fd).keys.length + 1 = m.keys.length := by
  have hmem : fd ∈ m.keys := by
    rw [← AList.mem_keys, ← AList.lookup_isSome, hl]
    rfl
  have hpos := List.length_pos_of_mem hmem
  rw [AList.keys_erase, List.length_erase_of_mem hmem]
  omega

theorem Cascade.length_le (h : Cascade env s s') :
    s'.clientmap.keys.length ≤ s.clientmap.keys.length := by
  induction h with
  | refl => exact Nat.le_refl _
  | tail _ htick ih =>
    refine Nat.le_trans ?_ ih
    cases htick with
    | deliver => exact Nat.le_refl _
    | shut hl =>
      have := length_keys_erase hl
      show (AList.erase _ _).keys.length ≤ _
      omega

/-- Every climap keeps its fields but the handles. -/
theorem Cascade.heap_same (h : Cascade env s s') (c : Conn) :
    (s.heap c = none ∧ s'.heap c = none) ∨
      ∃ m m', s.heap c = some m ∧ s'.heap c = some m' ∧ m.Same m' := by
  induction h with
  | refl =>
    cases hh : s.heap c with
    | none => exact .inl ⟨rfl, rfl⟩
    | some m => exact .inr ⟨m, m, rfl, rfl, .refl m⟩
  | @tail s1 _ _ htick ih =>
    cases htick with
    | deliver => exact ih
    | @shut fd' c' m' hl hh =>
      by_cases hc : c = c'
      · subst hc
        rcases ih with ⟨_, hnone⟩ | ⟨m, m1, h0, h1, hsame⟩
        · rw [hh] at hnone
          cases hnone
        · rw [hh] at h1
          cases h1
          exact .inr ⟨m, _, h0, Function.update_self c _ _, hsame.trans ⟨rfl, rfl, rfl, rfl⟩⟩
      · have hheap : (s1.shut fd' c' m').heap c = s1.heap c := Function.update_of_ne hc _ _
        rw [hheap]
        exact ih

end Facts

/-! ## The equations of the source -/

section Equations
variable {env : Env}

/-- Two ways to publish that agree once an entry is gone make no difference. -/
theorem closeClientWith_congr {publish publish' : Bytes → Bytes → M Unit} {s : St} (fd : Fd)
    (err : Bytes)
    (h : ∀ topic payload s1, s1.clientmap.keys.length < s.clientmap.keys.length →
      publish topic payload s1 = publish' topic payload s1) :
    closeClientWith publish fd err s = closeClientWith publish' fd err s := by
  cases hl : s.clientmap.lookup fd with
  | none => rw [closeClientWith_none _ err hl, closeClientWith_none _ err hl]
  | some c =>
    by_cases hok : ∃ m, s.heap c = some m ∧ m.timer = true ∧ m.client = true
    · obtain ⟨m, hh, ht, hc⟩ := hok
      have hlt : (s.shut fd c m).clientmap.keys.length < s.clientmap.keys.length := by
        have := length_keys_erase hl
        show (s.clientmap.erase fd).keys.length < _
        omega
      rw [closeClientWith_some _ err hl hh ht hc, closeClientWith_some _ err hl hh ht hc]
      simp only [h _ _ _ hlt]
    · have hbad : ∀ m, s.heap c = some m → m.timer = false ∨ m.client = false := by
        intro m hh
        by_contra hcon
        simp only [not_or, Bool.not_eq_false] at hcon
        exact hok ⟨m, hh, hcon.1, hcon.2⟩
      obtain ⟨e, s1, hraise⟩ := closeClientWith_bad fd err hl hbad
      rw [hraise, hraise]

/-- Two ways to close that agree as long as no connection is added make no difference. -/
theorem publishLoop_congr {close close' : Fd → Bytes → M Unit} {n : Nat}
    (hclose : ∀ fd err, Within (Cascade env) Broken (close fd err))
    (h : ∀ fd err s1, s1.clientmap.keys.length ≤ n → close fd err s1 = close' fd err s1)
    (topic payload : Bytes) (fds : List Fd) {s : St} (hs : s.clientmap.keys.length ≤ n) :
    publishLoop env close topic payload (env.frame (.pb topic payload)) fds s =
      publishLoop env close' topic payload (env.frame (.pb topic payload)) fds s := by
  induction fds generalizing s with
  | nil => rfl
  | cons fd fds ih =>
    have hturn : publishTo env close topic payload (env.frame (.pb topic payload)) fd s =
        publishTo env close' topic payload (env.frame (.pb topic payload)) fd s := by
      unfold publishTo
      apply bind_congr_ok
      intro s1 s2 hget
      cases hget
      by_cases hsub : fd ∈ s.subs topic
      · rw [if_pos hsub, if_pos hsub]
        apply bind_congr_ok
        intro c s2 hassert
        obtain ⟨rfl, _⟩ := assertClient_ok hassert
        apply bind_congr_ok
        intro err s3 hwrite
        obtain ⟨_, _, rfl⟩ := uvWrite_ok hwrite
        cases err with
        | none => rfl
        | some err => exact h fd err _ hs
      · rw [if_neg hsub, if_neg hsub]
    rw [publishLoop, publishLoop]
    cases hx : publishTo env close topic payload (env.frame (.pb topic payload)) fd s with
    | error e s1 => rw [bind_of_error hx, bind_of_error (hturn ▸ hx)]
    | ok a s1 =>
      rw [bind_of_ok hx, bind_of_ok (hturn ▸ hx)]
      exact ih (Nat.le_trans ((cascade_publishTo hclose topic payload fd s).1 a s1 hx).length_le hs)

theorem doPublishWith_congr {close close' : Fd → Bytes → M Unit} {s : St}
    (hclose : ∀ fd err, Within (Cascade env) Broken (close fd err))
    (h : ∀ fd err s1, s1.clientmap.keys.length ≤ s.clientmap.keys.length →
      close fd err s1 = close' fd err s1) (topic payload : Bytes) :
    doPublishWith env close topic payload s = doPublishWith env close' topic payload s := by
  unfold doPublishWith
  apply bind_congr_ok
  intro s1 s2 hget
  cases hget
  by_cases hsub : s.subs topic = []
  · rw [if_pos hsub, if_pos hsub]
  · rw [if_neg hsub, if_neg hsub, bind_of_ok (buildQuery_eq env _ s),
      bind_of_ok (buildQuery_eq env _ s)]
    exact publishLoop_congr hclose h topic payload _ (Nat.le_refl _)

/-- More fuel than there are connections changes nothing. -/
theorem closeClientFuel_eq {n n' : Nat} {s : St} (fd : Fd) (err : Bytes)
    (h : s.clientmap.keys.length < n) (h' : s.clientmap.keys.length < n') :
    closeClientFuel env n fd err s = closeClientFuel env n' fd err s := by
  induction n generalizing n' s fd err with
  | zero => omega
  | succ n ih =>
    obtain ⟨n', rfl⟩ : ∃ k, n' = k + 1 := ⟨n' - 1, by omega⟩
    simp only [closeClientFuel]
    apply closeClientWith_congr
    intro topic payload s1 hs1
    apply doPublishWith_congr (fun fd err => cascade_closeClientFuel n fd err)
    intro fd err s2 hs2
    exact ih fd err (by omega) (by omega)

/-- **`do_publish` as the source has it.** -/
theorem doPublish_eq (topic payload : Bytes) :
    doPublish env topic payload = doPublishWith env (closeClient env) topic payload := by
  funext s
  rw [doPublish_apply]
  apply doPublishWith_congr (fun fd err => cascade_closeClientFuel _ fd err)
  intro fd err s1 hs1
  rw [closeClient_apply]
  exact closeClientFuel_eq fd err (by omega) (Nat.lt_succ_self _)

/-- **`close_client` as the source has it.** -/
theorem closeClient_eq (fd : Fd) (err : Bytes) :
    closeClient env fd err = closeClientWith (doPublish env) fd err := by
  funext s
  rw [closeClient_apply, closeClientFuel]
  apply closeClientWith_congr
  intro topic payload s1 hs1
  rw [doPublish_apply]
  apply doPublishWith_congr (fun fd err => cascade_closeClientFuel _ fd err)
  intro fd err s2 hs2
  exact closeClientFuel_eq fd err (by omega) (by omega)

end Equations

end ApApps.Sand

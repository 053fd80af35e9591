import ApApps.Sand.Commands

/- What a callback of the broker can do, as a sequence of moves.

   Most of what the broker does keeps its tables as they are or takes connections
   out of them (`Move.tick`, `Move.data`, `Move.log`). The tables grow in two places
   only, when a connection is accepted (`St.connected`) and when a new connection
   sends a cn command (`Move.refused`, `Move.admitted`). `step_moves` says that every
   callback is a sequence of moves and that one that raises does so for one of the
   reasons of `Fault`; what holds of all runs then needs a look at each move only.

   `CnAlong P` is the condition that the cn commands of new connections satisfy `P`
   when they are dispatched; moves carry it. -/
namespace ApApps.Sand
open Incremental ApApps.Redis Exec

/-! ## Moves -/

def Out.isPublication : Out → Bool
  | .write _ (.pb _ _) _ _ => true
  | _ => false

def St.logged (s : St) (o : Out) : St := { s with log := s.log ++ [o] }

/-- The broker after `climap.data = data`. -/
def St.withData (s : St) (c : Conn) (m : Climap) (data : Bytes) : St :=
  { s with heap := Function.update s.heap c (some { m with data }) }

/-- The broker after the connack that refuses a command. -/
def St.refusedWith (s : St) (env : Env) (c : Conn) (err : Bytes) : St :=
  s.wrote env c (.ca 1 err) (env.frame (.ca 1 err))

/-- One thing a callback does. -/
inductive Move (env : Env) (P : St → Conn → Fields → Prop) : St → St → Prop
  | tick {s s' : St} (h : Tick env s s') : Move env P s s'
  | data {s : St} {c : Conn} {m : Climap} (hh : s.heap c = some m) (data : Bytes) :
      Move env P s (s.withData c m data)
  | log {s : St} (o : Out) (ho : o.isPublication = false) : Move env P s (s.logged o)
  | refused {s s' : St} {fd : Fd} {c : Conn} {m : Climap} {map : Fields} {err : Bytes}
      (hl : s.clientmap.lookup fd = some c) (hh : s.heap c = some m) (hst : m.state = .stNew)
      (hr : refusal s map = some err) (hP : P s c map)
      (hclose : closeClient env fd err ((s.prepared fd c m map).refusedWith env c err) = .ok () s') :
      Move env P s s'
  | admitted {s s' : St} {fd : Fd} {c : Conn} {m : Climap} {map : Fields} {r : Option Bytes}
      (hl : s.clientmap.lookup fd = some c) (hh : s.heap c = some m) (hst : m.state = .stNew)
      (hr : refusal s map = none) (hP : P s c map)
      (hadm : admitClient env c fd map (s.prepared fd c m map) = .ok r s') : Move env P s s'

abbrev Moves (env : Env) (P : St → Conn → Fields → Prop) : St → St → Prop :=
  Relation.ReflTransGen (Move env P)

/-- Why a callback raises `e`. -/
inductive Fault (env : Env) (P : St → Conn → Fields → Prop) : LuaError → St → Prop
  | broken {e : LuaError} {s : St} (h : Broken e s) : Fault env P e s
  | refused {e : LuaError} {s s' : St} {fd : Fd} {c : Conn} {m : Climap} {map : Fields} {err : Bytes}
      (hl : s.clientmap.lookup fd = some c) (hh : s.heap c = some m) (hst : m.state = .stNew)
      (hr : refusal s map = some err) (hP : P s c map)
      (hclose : closeClient env fd err ((s.prepared fd c m map).refusedWith env c err) =
        .error e s') : Fault env P e s
  | admitted {e : LuaError} {s s' : St} {fd : Fd} {c : Conn} {m : Climap} {map : Fields}
      (hl : s.clientmap.lookup fd = some c) (hh : s.heap c = some m) (hst : m.state = .stNew)
      (hr : refusal s map = none) (hP : P s c map)
      (hadm : admitClient env c fd map (s.prepared fd c m map) = .error e s') : Fault env P e s
  /-- the connection whose command is handled has been closed -/
  | gone {s : St} {fd : Fd} {site : String} (hl : s.clientmap.lookup fd = none)
      (hsite : site ≠ "do_publish") : Fault env P (.assertFailed site) s
  | timer {e : LuaError} {s s' : St} {c : Conn} (h : restartTimer c s = .error e s') :
      Fault env P e s

/-! ## Handles and descriptors -/

/-- `clientmap` holds the connections with open handles, each under its descriptor,
and these are the open descriptors. -/
structure WF (s : St) : Prop where
  live : ∀ fd c, s.clientmap.lookup fd = some c →
    ∃ m, s.heap c = some m ∧ m.fd = fd ∧ m.timer = true ∧ m.client = true
  registered : ∀ c m, s.heap c = some m → m.timer = true ∨ m.client = true →
    s.clientmap.lookup m.fd = some c
  nodup : s.openFds.Nodup
  fds : ∀ fd, fd ∈ s.openFds ↔ ∃ c, s.clientmap.lookup fd = some c

theorem WF.new : WF .new where
  live := by
    intro fd c h
    simp [St.new] at h
  registered := by
    intro c m h
    simp [St.new] at h
  nodup := List.nodup_nil
  fds := by
    intro fd
    simp [St.new]

section WF
variable {env : Env} {P : St → Conn → Fields → Prop} {s s' : St}

/-- Only the handles, the registrations and the open descriptors matter. -/
theorem WF.of_eq (h : WF s) (hheap : s'.heap = s.heap) (hmap : s'.clientmap = s.clientmap)
    (hfds : s'.openFds = s.openFds) : WF s' where
  live := by
    rw [hheap, hmap]
    exact h.live
  registered := by
    rw [hheap, hmap]
    exact h.registered
  nodup := hfds ▸ h.nodup
  fds := by
    rw [hfds, hmap]
    exact h.fds

theorem WF.of_update (h : WF s) {c : Conn} {m : Climap} (m' : Climap) (hh : s.heap c = some m)
    (hfd : m'.fd = m.fd) (ht : m'.timer = m.timer) (hc : m'.client = m.client)
    (hheap : s'.heap = Function.update s.heap c (some m')) (hmap : s'.clientmap = s.clientmap)
    (hfds : s'.openFds = s.openFds) : WF s' where
  live := by
    intro fd c' hl
    rw [hmap] at hl
    obtain ⟨m1, h1, h2, h3, h4⟩ := h.live fd c' hl
    rw [hheap]
    by_cases hcc : c' = c
    · subst hcc
      rw [hh] at h1
      cases h1
      exact ⟨m', Function.update_self c' _ _, hfd.trans h2, ht.trans h3, hc.trans h4⟩
    · exact ⟨m1, (Function.update_of_ne hcc _ _).trans h1, h2, h3, h4⟩
  registered := by
    intro c' m1 h1 hopen
    rw [hheap] at h1
    rw [hmap]
    by_cases hcc : c' = c
    · subst hcc
      rw [Function.update_self] at h1
      cases h1
      rw [hfd]
      exact h.registered c' m hh (by rwa [ht, hc] at hopen)
    · rw [Function.update_of_ne hcc] at h1
      exact h.registered c' m1 h1 hopen
  nodup := hfds ▸ h.nodup
  fds := by
    rw [hfds, hmap]
    exact h.fds

theorem WF.shut (h : WF s) {fd : Fd} {c : Conn} {m : Climap}
    (hl : s.clientmap.lookup fd = some c) (hh : s.heap c = some m) : WF (s.shut fd c m) := by
  obtain ⟨m0, h0, hfd, _, _⟩ := h.live fd c hl
  rw [hh] at h0
  cases h0
  have hlookup : ∀ fd', fd' ≠ fd →
      (s.shut fd c m).clientmap.lookup fd' = s.clientmap.lookup fd' :=
    fun fd' hne => AList.lookup_erase_ne hne
  have hgone : (s.shut fd c m).clientmap.lookup fd = none := AList.lookup_erase fd _
  -- another registered connection is another entry of the heap
  have hother : ∀ fd' c', fd' ≠ fd → s.clientmap.lookup fd' = some c' → c' ≠ c := by
    rintro fd' c' hne hl' rfl
    obtain ⟨m1, h1, hfd1, _⟩ := h.live fd' c' hl'
    rw [hh] at h1
    cases h1
    exact hne (hfd1.symm.trans hfd)
  refine ⟨?_, ?_, h.nodup.erase _, ?_⟩
  · intro fd' c' hl'
    have hne : fd' ≠ fd := by
      rintro rfl
      rw [hgone] at hl'
      cases hl'
    rw [hlookup fd' hne] at hl'
    obtain ⟨m1, h1, h2⟩ := h.live fd' c' hl'
    exact ⟨m1, (Function.update_of_ne (hother fd' c' hne hl') _ _).trans h1, h2⟩
  · intro c' m1 h1 hopen
    by_cases hcc : c' = c
    · subst hcc
      have h1 : some _ = some m1 := (Function.update_self c' _ s.heap).symm.trans h1
      cases h1
      rcases hopen with hopen | hopen <;> cases hopen
    · have h1 : s.heap c' = some m1 := (Function.update_of_ne hcc _ _).symm.trans h1
      have hreg := h.registered c' m1 h1 hopen
      rw [hlookup m1.fd, hreg]
      intro hfd1
      rw [hfd1, hl] at hreg
      exact hcc (Option.some.inj hreg).symm
  · intro fd'
    show fd' ∈ s.openFds.erase m.fd ↔ _
    rw [hfd, h.nodup.mem_erase_iff, h.fds]
    constructor
    · rintro ⟨hne, c', hl'⟩
      exact ⟨c', (hlookup fd' hne).trans hl'⟩
    · rintro ⟨c', hl'⟩
      have hne : fd' ≠ fd := by
        rintro rfl
        rw [hgone] at hl'
        cases hl'
      exact ⟨hne, c', (hlookup fd' hne).symm.trans hl'⟩

theorem WF.tick (h : WF s) (ht : Tick env s s') : WF s' := by
  cases ht with
  | deliver => exact h.of_eq rfl rfl rfl
  | shut hl hh => exact h.shut hl hh

theorem WF.cascade (h : WF s) (hc : Cascade env s s') : WF s' :=
  hc.preserves (I := WF) (fun _ _ ht hw => hw.tick ht) h

theorem WF.prepared (h : WF s) (fd : Fd) {c : Conn} {m : Climap} (map : Fields)
    (hh : s.heap c = some m) : WF (s.prepared fd c m map) :=
  h.of_update { m with param := some (cnParam map) } hh rfl rfl rfl rfl rfl rfl

theorem WF.withData (h : WF s) {c : Conn} {m : Climap} (data : Bytes) (hh : s.heap c = some m) :
    WF (s.withData c m data) :=
  h.of_update { m with data } hh rfl rfl rfl rfl rfl rfl

theorem WF.authorized (h : WF s) {c : Conn} {m : Climap} (hh : s.heap c = some m) :
    WF (s.authorized c m) :=
  h.of_update { m with state := .stAuth } hh rfl rfl rfl rfl rfl rfl

theorem WF.wrote (h : WF s) {c : Conn} {msg : Msg} {frame : Bytes} :
    WF (s.wrote env c msg frame) := h.of_eq rfl rfl rfl

theorem WF.identified (h : WF s) {cd : Bytes} {fd : Fd} : WF (s.identified cd fd) :=
  h.of_eq rfl rfl rfl

theorem WF.move (h : WF s) (hm : Move env P s s') : WF s' := by
  cases hm with
  | tick ht => exact h.tick ht
  | data hh => exact h.withData _ hh
  | log => exact h.of_eq rfl rfl rfl
  | @refused _ fd c m map err hl hh hst hr hP hclose =>
    have hprep : WF ((s.prepared fd c m map).refusedWith env c err) := (h.prepared fd map hh).wrote
    exact hprep.cascade ((cascade_closeClient _ _ _).1 _ _ hclose)
  | @admitted _ fd c m map r hl hh hst hr hP hadm =>
    obtain ⟨s1, m1, hcas, hh1, _, _, rfl⟩ := admitClient_ok hadm
    have hid : WF ((s.prepared fd c m map).identified (cdOf map) fd) :=
      (h.prepared fd map hh).identified
    exact ((hid.cascade hcas).authorized hh1).wrote

theorem WF.moves (h : WF s) (hm : Moves env P s s') : WF s' := by
  induction hm with
  | refl => exact h
  | tail _ hmove ih => exact ih.move hmove

/-- A broker in order is not broken by a handle. -/
theorem WF.broken (h : WF s) {e : LuaError} (hb : Broken e s) :
    (e = .assertFailed "do_publish" ∧ ∃ topic fd, fd ∈ s.subs topic ∧ s.clientmap.lookup fd = none) ∨
      (e = .nilKey ∧ ∃ fd c m, s.clientmap.lookup fd = some c ∧ s.heap c = some m ∧
        m.param.isSome ∧ m.clientid = none) := by
  cases hb with
  | dangling hsub hl => exact .inl ⟨rfl, _, _, hsub, hl⟩
  | noClientid hl hh hp hcd => exact .inr ⟨rfl, _, _, _, hl, hh, hp, hcd⟩
  | badHandle e hl hbad =>
    obtain ⟨m, hh, _, ht, hc⟩ := h.live _ _ hl
    rcases hbad m hh with hf | hf
    · rw [ht] at hf
      cases hf
    · rw [hc] at hf
      cases hf

end WF

/-! ## Callbacks -/

section Callbacks
variable {env : Env} {P : St → Conn → Fields → Prop}

theorem moves_trans ⦃s1 s2 s3 : St⦄ (h1 : Moves env P s1 s2) (h2 : Moves env P s2 s3) :
    Moves env P s1 s3 := h1.trans h2

theorem Cascade.moves {s s' : St} (h : Cascade env s s') : Moves env P s s' :=
  Relation.ReflTransGen.mono (fun _ _ => Move.tick) _ _ h

theorem moves_closeClient (fd : Fd) (err : Bytes) :
    Within (Moves env P) (Fault env P) (closeClient env fd err) := fun s =>
  (cascade_closeClient fd err s).mono (fun _ _ => Cascade.moves) (fun _ _ => Fault.broken)

theorem moves_doPublish (topic payload : Bytes) :
    Within (Moves env P) (Fault env P) (doPublish env topic payload) := fun s =>
  (cascade_doPublish topic payload s).mono (fun _ _ => Cascade.moves) (fun _ _ => Fault.broken)

/-- A command that starts with `local climap = ins.clientmap[fd] assert(climap)`. -/
theorem moves_assertClient {α : Type} {site : String} {fd : Fd} {f : Climap → Conn → M α} {s : St}
    (hw : WF s) (hsite : site ≠ "do_publish")
    (hf : ∀ c m, s.clientmap.lookup fd = some c → s.heap c = some m → m.client = true →
      WithinAt (Moves env P) (Fault env P) (f m c) s) :
    WithinAt (Moves env P) (Fault env P)
      (assertClient site fd >>= fun c => climapOf c >>= fun m => f m c) s := by
  cases hl : s.clientmap.lookup fd with
  | none => exact withinAt_of_error (bind_of_error (assertClient_none _ hl)) .refl (.gone hl hsite)
  | some c =>
    obtain ⟨m, hh, _, _, hc⟩ := hw.live fd c hl
    refine .after moves_trans .refl ?_ (hf c m hl hh hc)
    rw [bind_of_ok (assertClient_eq _ hl), bind_of_ok (climapOf_eq hh)]

theorem moves_pb {s : St} (hw : WF s) (fd : Fd) (map : Fields) :
    WithinAt (Moves env P) (Fault env P) (pb env fd map) s := by
  apply moves_assertClient hw (by decide)
  intro c m hl hh hc
  by_cases hst : m.state ≠ .stAuth
  · rw [if_pos hst]
    exact within_pure (fun _ => .refl) _ s
  · rw [if_neg hst]
    split
    · exact (moves_doPublish _ _ s).bind moves_trans fun _ s1 _ =>
        within_pure (fun _ => .refl) _ s1
    · exact within_pure (fun _ => .refl) _ s

theorem moves_pi {s : St} (hw : WF s) (fd : Fd) :
    WithinAt (Moves env P) (Fault env P) (pi env fd) s := by
  apply moves_assertClient hw (by decide)
  intro c m hl hh hc
  by_cases hst : m.state ≠ .stAuth
  · rw [if_pos hst]
    exact within_pure (fun _ => .refl) _ s
  · rw [if_neg hst]
    have hmove : Move env P s (s.wrote env c .po (env.frame .po)) := .log _ rfl
    refine .after moves_trans (.single hmove) ?_ (within_pure (fun _ => .refl) none _)
    rw [bind_of_ok (buildQuery_eq env _ s), bind_of_ok (uvWrite_eq env _ _ hh hc)]

theorem moves_dc (fd : Fd) : Within (Moves env P) (Fault env P) (dc env fd) :=
  within_bind moves_trans (moves_closeClient fd _) (fun _ => within_pure (fun _ => .refl) _)

theorem moves_afterCommand (fd : Fd) (r : Option Bytes) :
    Within (Moves env P) (Fault env P) (match r with
      | none => (pure true : M Bool)
      | some err => do
        closeClient env fd err
        pure false) := by
  cases r with
  | none => exact within_pure (fun _ => .refl) _
  | some err =>
    exact within_bind moves_trans (moves_closeClient fd err) (fun _ => within_pure (fun _ => .refl) _)

theorem moves_cn {s : St} (hw : WF s) (fd : Fd) (map : Fields)
    (hP : ∀ c m, s.clientmap.lookup fd = some c → s.heap c = some m → m.state = .stNew →
      P s c map) :
    WithinAt (Moves env P) (Fault env P) (handleCommand env fd map .cn) s := by
  unfold handleCommand command
  cases hl : s.clientmap.lookup fd with
  | none =>
    have hraise : cn env fd map s = .error (.assertFailed "cn") s := by
      unfold cn
      exact bind_of_error (assertClient_none _ hl)
    exact withinAt_of_error (bind_of_error hraise) .refl (.gone hl (by decide))
  | some c =>
    obtain ⟨m, hh, _, _, hc⟩ := hw.live fd c hl
    cases hst : m.state with
    | stAuth =>
      have heq := (cn_again env map hl hh hst).trans (refuse_eq _ hh hc)
      refine .after moves_trans (.single (.log (.write c _ _ _) rfl)) (bind_of_ok heq) ?_
      exact moves_afterCommand fd (some _) _
    | stNew =>
      have hcn := cn_new env map hl hh hst
      have hP := hP c m hl hh hst
      have hself : (s.prepared fd c m map).heap c = some { m with param := some (cnParam map) } :=
        Function.update_self c _ _
      cases hr : refusal s map with
      | some err =>
        rw [hr] at hcn
        have heq := hcn.trans (refuse_eq err hself hc)
        cases hclose : closeClient env fd err ((s.prepared fd c m map).refusedWith env c err) with
        | ok a s' =>
          exact withinAt_of_ok ((bind_of_ok heq).trans (bind_of_ok hclose))
            (.single (.refused hl hh hst hr hP hclose))
        | error e s' =>
          exact withinAt_of_error ((bind_of_ok heq).trans (bind_of_error hclose)) .refl
            (.refused hl hh hst hr hP hclose)
      | none =>
        rw [hr] at hcn
        cases hadm : admitClient env c fd map (s.prepared fd c m map) with
        | ok r s' =>
          refine .after moves_trans (.single (.admitted hl hh hst hr hP hadm))
            (bind_of_ok (hcn.trans hadm)) ?_
          exact moves_afterCommand fd r s'
        | error e s' =>
          exact withinAt_of_error (bind_of_error (hcn.trans hadm)) .refl
            (.admitted hl hh hst hr hP hadm)

theorem moves_handleCommand {s : St} (hw : WF s) (fd : Fd) (map : Fields) (cmd : Cmd)
    (hP : cmd = .cn → ∀ c m, s.clientmap.lookup fd = some c → s.heap c = some m →
      m.state = .stNew → P s c map) :
    WithinAt (Moves env P) (Fault env P) (handleCommand env fd map cmd) s := by
  cases cmd with
  | cn => exact moves_cn hw fd map (hP rfl)
  | dc => exact (moves_dc fd s).bind moves_trans fun r s1 _ => moves_afterCommand fd r s1
  | pb => exact (moves_pb hw fd map).bind moves_trans fun r s1 _ => moves_afterCommand fd r s1
  | pi => exact (moves_pi hw fd).bind moves_trans fun r s1 _ => moves_afterCommand fd r s1

/-! ## The receive loop -/

theorem setData_eq {s : St} {c : Conn} {m : Climap} (data : Bytes) (hh : s.heap c = some m) :
    setData c data s = .ok () (s.withData c m data) := by
  unfold setData
  rw [bind_of_ok (climapOf_eq hh)]
  rfl

/-- The broker when the command `cmd` of `c` is dispatched. -/
def St.called (s : St) (c : Conn) (m : Climap) (rest : Bytes) (cmd : Cmd) (map : Fields) : St :=
  (s.withData c m rest).logged (.dispatch c cmd map)

/-- The loop of `on_client_data` goes on from `s` in `s'`. -/
def Turned (env : Env) (fd : Fd) (c : Conn) (s s' : St) : Prop := turn env fd c s = .ok true s'

/-- From `s` on, the loop dispatches a cn command of a new connection only where `P`
holds. -/
def CnOk (env : Env) (P : St → Conn → Fields → Prop) (fd : Fd) (c : Conn) (s : St) : Prop :=
  ∀ s1, Relation.ReflTransGen (Turned env fd c) s s1 → ∀ m map rest, s1.heap c = some m →
    m.state = .stNew → readCommand m.data = .ok (.call .cn map rest) →
      P (s1.called c m rest .cn map) c map

theorem CnOk.mono {P' : St → Conn → Fields → Prop} (hPP : ∀ s c map, P s c map → P' s c map)
    {fd : Fd} {c : Conn} {s : St} (h : CnOk env P fd c s) : CnOk env P' fd c s :=
  fun s1 hs1 m map rest hh hst hread => hPP _ _ _ (h s1 hs1 m map rest hh hst hread)

theorem CnOk.turned {fd : Fd} {c : Conn} {s s' : St} (h : CnOk env P fd c s)
    (ht : Turned env fd c s s') : CnOk env P fd c s' :=
  fun s1 hs1 => h s1 (.head ht hs1)

/-- What is known of the broker while the loop runs for `c`: it is in order, and only
`c` can be registered under `fd`. -/
structure Serving (fd : Fd) (c : Conn) (s : St) : Prop where
  wf : WF s
  climap : ∃ m, s.heap c = some m
  only : ∀ c', s.clientmap.lookup fd = some c' → c' = c

theorem Move.lookup_of {s s' : St} (h : Move env P s s') {fd : Fd} {c : Conn}
    (hl : s'.clientmap.lookup fd = some c) : s.clientmap.lookup fd = some c := by
  cases h with
  | tick ht => exact Cascade.lookup_of (.single ht) hl
  | data => exact hl
  | log => exact hl
  | refused _ _ _ _ _ hclose => exact ((cascade_closeClient _ _ _).1 _ _ hclose).lookup_of hl
  | admitted _ _ _ _ _ hadm =>
    obtain ⟨s1, m1, hcas, _, _, _, rfl⟩ := admitClient_ok hadm
    exact hcas.lookup_of hl

/-- A climap stays in the heap under its descriptor. -/
theorem Cascade.heap_some {s s' : St} (h : Cascade env s s') {c : Conn} {m : Climap}
    (hh : s.heap c = some m) : ∃ m', s'.heap c = some m' ∧ m.Same m' := by
  rcases h.heap_same c with ⟨hnone, _⟩ | ⟨m0, m', h0, h', hsame⟩
  · rw [hh] at hnone
    cases hnone
  · rw [hh] at h0
    cases h0
    exact ⟨m', h', hsame⟩

theorem heap_update_some {heap : Conn → Option Climap} {c : Conn} {m : Climap} (c' : Conn)
    (m' : Climap) (hh : heap c = some m) : ∃ m1, Function.update heap c' (some m') c = some m1 := by
  by_cases hcc : c = c'
  · subst hcc
    exact ⟨m', Function.update_self c _ _⟩
  · exact ⟨m, (Function.update_of_ne hcc _ _).trans hh⟩

theorem Move.heap_some {s s' : St} (h : Move env P s s') {c : Conn} {m : Climap}
    (hh : s.heap c = some m) : ∃ m', s'.heap c = some m' := by
  cases h with
  | tick ht =>
    obtain ⟨m', h', _⟩ := Cascade.heap_some (.single ht) hh
    exact ⟨m', h'⟩
  | data => exact heap_update_some _ _ hh
  | log => exact ⟨m, hh⟩
  | @refused _ fd c' m' map err _ _ _ _ _ hclose =>
    obtain ⟨m1, h1⟩ := heap_update_some c' { m' with param := some (cnParam map) } hh
    obtain ⟨m2, h2, _⟩ := ((cascade_closeClient _ _ _).1 _ _ hclose).heap_some
      (s := (s.prepared fd c' m' map).refusedWith env c' err) h1
    exact ⟨m2, h2⟩
  | @admitted _ fd c' m' map _ _ _ _ _ _ hadm =>
    obtain ⟨m1, h1⟩ := heap_update_some c' { m' with param := some (cnParam map) } hh
    obtain ⟨s1, m2, hcas, _, _, _, rfl⟩ := admitClient_ok hadm
    obtain ⟨m3, h3, _⟩ := hcas.heap_some
      (s := (s.prepared fd c' m' map).identified (cdOf map) fd) h1
    exact heap_update_some _ _ h3

theorem Serving.moves {fd : Fd} {c : Conn} {s s' : St} (h : Serving fd c s)
    (hm : Moves env P s s') : Serving fd c s' := by
  induction hm with
  | refl => exact h
  | tail _ hmove ih =>
    obtain ⟨m, hh⟩ := ih.climap
    exact ⟨ih.wf.move hmove, hmove.heap_some hh, fun c' hl => ih.only c' (hmove.lookup_of hl)⟩

theorem moves_turn {s : St} {fd : Fd} {c : Conn} (hs : Serving fd c s) (hP : CnOk env P fd c s) :
    WithinAt (Moves env P) (Fault env P) (turn env fd c) s := by
  obtain ⟨m, hh⟩ := hs.climap
  obtain ⟨next, hnext⟩ := readCommand_total m.data
  unfold turn
  refine .after moves_trans .refl (bind_of_ok (climapOf_eq hh)) ?_
  rw [hnext]
  cases next with
  | wait => exact within_pure (fun _ => .refl) _ s
  | refuse rest err =>
    refine .after moves_trans (.single (.data hh rest)) (bind_of_ok (setData_eq rest hh)) ?_
    exact (moves_closeClient fd err _).bind moves_trans fun _ s1 _ =>
      within_pure (fun _ => .refl) _ s1
  | call cmd map rest =>
    have hself : (s.called c m rest cmd map).heap c = some { m with data := rest } :=
      Function.update_self c _ _
    have hmoves : Moves env P s (s.called c m rest cmd map) :=
      .tail (.single (.data hh rest)) (.log _ rfl)
    refine .after moves_trans hmoves (y := handleCommand env fd map cmd) ?_ ?_
    · simp only
      rw [bind_of_ok (setData_eq rest hh)]
      exact bind_of_ok (show emit _ _ = .ok () _ from rfl)
    · apply moves_handleCommand (hs.moves hmoves).wf
      rintro rfl c' m' hl' hh' hst
      obtain rfl := hs.only c' hl'
      rw [hself] at hh'
      cases hh'
      exact hP s .refl m map rest hh hst hnext

theorem moves_dataLoop {s : St} {fd : Fd} {c : Conn} (fuel : Nat) (hs : Serving fd c s)
    (hP : CnOk env P fd c s) :
    WithinAt (Moves env P) (Fault env P) (dataLoop env fd c fuel) s := by
  induction fuel generalizing s with
  | zero => exact within_pure (fun _ => .refl) _ s
  | succ fuel ih =>
    obtain ⟨m, hh⟩ := hs.climap
    unfold dataLoop
    refine .after moves_trans .refl (bind_of_ok (climapOf_eq hh)) ?_
    by_cases hdata : m.data = []
    · rw [if_pos hdata]
      exact within_pure (fun _ => .refl) _ s
    · rw [if_neg hdata]
      refine (moves_turn hs hP).bind moves_trans fun b s1 hb => ?_
      cases b with
      | false => exact within_pure (fun _ => .refl) _ s1
      | true => exact ih (hs.moves ((moves_turn hs hP).1 _ _ hb)) (hP.turned hb)

/-- The timer is restarted if it has not been closed and the period is a number of
milliseconds. -/
theorem restartTimer_eq {s : St} {c : Conn} {m : Climap} {param : Param} {kp : LuaNum} {ms : Int}
    (hh : s.heap c = some m) (ht : m.timer = true) (hp : m.param = some param)
    (hkp : param.kp = some kp) (hms : timerMs kp = some ms) :
    restartTimer c s = .ok () ((s.logged (.timerStop c)).logged (.timerStart c ms)) := by
  unfold restartTimer
  rw [bind_of_ok (climapOf_eq hh), if_neg (by rw [ht]; decide),
    bind_of_ok (show emit (.timerStop c) s = .ok () (s.logged (.timerStop c)) from rfl)]
  simp only [hp, hkp, hms]
  rfl

theorem restartTimer_ok {s s' : St} {c : Conn} (h : restartTimer c s = .ok () s') :
    ∃ m param kp ms, s.heap c = some m ∧ m.timer = true ∧ m.param = some param ∧
      param.kp = some kp ∧ timerMs kp = some ms ∧
      s' = (s.logged (.timerStop c)).logged (.timerStart c ms) := by
  unfold restartTimer at h
  obtain ⟨m, s1, hm, h1⟩ := bind_eq_ok.mp h
  obtain ⟨rfl, hh⟩ := climapOf_ok hm
  by_cases ht : m.timer = false
  · rw [if_pos ht] at h1
    cases h1
  · rw [if_neg ht] at h1
    obtain ⟨_, s2, hstop, h2⟩ := bind_eq_ok.mp h1
    cases hstop
    cases hp : m.param with
    | none =>
      simp only [hp] at h2
      cases h2
    | some param =>
      simp only [hp] at h2
      cases hkp : param.kp with
      | none =>
        simp only [hkp] at h2
        cases h2
      | some kp =>
        simp only [hkp] at h2
        cases hms : timerMs kp with
        | none =>
          simp only [hms] at h2
          cases h2
        | some ms =>
          simp only [hms] at h2
          cases h2
          exact ⟨m, param, kp, ms, hh, by simpa using ht, hp, hkp, hms, rfl⟩

/-- An open timer is stopped, and started again if there is a period for it. -/
theorem restartTimer_open {s : St} {c : Conn} {m : Climap} (hh : s.heap c = some m)
    (ht : ¬ m.timer = false) : restartTimer c s =
      (match m.param with
        | none => throw .nilIndexed
        | some param =>
          match param.kp with
          | none => throw (.message "attempt to perform arithmetic on a nil value (field 'kp')")
          | some kp =>
            match timerMs kp with
            | none => throw (.badArgument "timer_start")
            | some ms => emit (.timerStart c ms) : M Unit) (s.logged (.timerStop c)) := by
  unfold restartTimer
  rw [bind_of_ok (climapOf_eq hh), if_neg ht]
  exact bind_of_ok rfl

/-- What the restart of the timer does is decided by the climap. -/
theorem restartTimer_climap (c : Conn) (m : Climap) :
    ∃ os, (∀ s : St, s.heap c = some m → restartTimer c s = .ok () { s with log := s.log ++ os }) ∨
      ∃ e, ∀ s : St, s.heap c = some m → restartTimer c s = .error e { s with log := s.log ++ os } := by
  by_cases ht : m.timer = false
  · refine ⟨[], .inr ⟨.badArgument "timer_stop", fun s hh => ?_⟩⟩
    unfold restartTimer
    rw [bind_of_ok (climapOf_eq hh), if_pos ht, List.append_nil]
    rfl
  · have hstop := fun (s : St) (hh : s.heap c = some m) => restartTimer_open hh ht
    cases hp : m.param with
    | none =>
      refine ⟨[.timerStop c], .inr ⟨.nilIndexed, fun s hh => ?_⟩⟩
      rw [hstop s hh, hp]
      rfl
    | some param =>
      cases hkp : param.kp with
      | none =>
        refine ⟨[.timerStop c], .inr
          ⟨.message "attempt to perform arithmetic on a nil value (field 'kp')", fun s hh => ?_⟩⟩
        rw [hstop s hh]
        simp only [hp, hkp]
        rfl
      | some kp =>
        cases hms : timerMs kp with
        | none =>
          refine ⟨[.timerStop c], .inr ⟨.badArgument "timer_start", fun s hh => ?_⟩⟩
          rw [hstop s hh]
          simp only [hp, hkp, hms]
          rfl
        | some ms =>
          refine ⟨[.timerStop c, .timerStart c ms], .inl fun s hh => ?_⟩
          rw [restartTimer_eq hh (by simpa using ht) hp hkp hms]
          simp only [St.logged, List.append_assoc, List.cons_append, List.nil_append]

/-- What the restart of the timer raises is no failed assert. -/
theorem restartTimer_error {s s' : St} {c : Conn} {e : LuaError}
    (h : restartTimer c s = .error e s') (site : String) : e ≠ .assertFailed site := by
  rintro rfl
  unfold restartTimer at h
  rcases bind_eq_error.mp h with hm | ⟨m, s1, _, h1⟩
  · unfold climapOf at hm
    split at hm <;> cases hm
  · by_cases ht : m.timer = false
    · rw [if_pos ht] at h1
      cases h1
    · rw [if_neg ht] at h1
      rcases bind_eq_error.mp h1 with hstop | ⟨_, s2, _, h2⟩
      · cases hstop
      · cases hp : m.param with
        | none =>
          simp only [hp] at h2
          cases h2
        | some param =>
          simp only [hp] at h2
          cases hkp : param.kp with
          | none =>
            simp only [hkp] at h2
            cases h2
          | some kp =>
            simp only [hkp] at h2
            cases hms : timerMs kp <;> simp only [hms] at h2 <;> cases h2

theorem moves_restartTimer (c : Conn) : Within (Moves env P) (Fault env P) (restartTimer c) := by
  refine fun s => ⟨fun a s' h => ?_, fun e s' h => ⟨s, .refl, .timer h⟩⟩
  obtain ⟨_, _, _, ms, _, _, _, _, _, rfl⟩ := restartTimer_ok h
  exact .tail (.single (.log _ rfl)) (.log _ rfl)

end Callbacks

end ApApps.Sand

import ApApps.Sand.Origin
import ApApps.System.Wire

/- The broker and its clients over a network.

   Connection `c` of the broker is the socket of client `c`. A party takes its steps as in
   its own model (`Sand.step`, `Sandc.step`); the network decides when the broker gets the
   next of the bytes that a client has sent (`arrive`), and a client the next of those the
   broker has written to it (`read`), in pieces of any size, and the two directions of a
   connection may stand still as long as they like. It neither loses, adds nor reorders
   bytes. Connections end with an error at any time (`hangup`).

   A client that raises is gone, and the others go on; a run ends when the broker raises.
   The program of a client calls `run` once.

   `Linked` is what every run keeps: what each party has received is the beginning of what
   the other one has sent. -/
namespace ApApps.System
open Incremental ApApps.Redis ApApps.Sand ApApps.Sandc Exec

/-- What the parties are given: their environments, and the parameters of each client. -/
structure World where
  broker : Sand.Env
  client : Conn → Sandc.Env
  param : Conn → Sandc.Param

/-- A client: its state, whether `run` has been called, what it has read, and whether it has
raised. -/
structure Party where
  cli : Cli
  started : Bool
  inbox : Bytes
  crashed : Bool

structure Net where
  broker : St
  party : Conn → Party

def Net.new (w : World) : Net := ⟨.new, fun c => ⟨.new (w.param c), false, [], false⟩⟩

inductive Event where
  /-- the broker accepts connection `c` -/
  | accept (c : Conn) (fd : Fd)
  /-- the next `k` bytes of client `c` reach the broker -/
  | arrive (c : Conn) (k : Nat)
  /-- end of file or an error on connection `c`, as the broker sees it -/
  | hangup (c : Conn) (err : Option Bytes)
  /-- the timer of connection `c` -/
  | timeout (c : Conn)
  /-- a step of client `c` that brings no bytes -/
  | act (c : Conn) (ev : Sandc.Event)
  /-- the next `k` bytes for client `c` are read by its coroutine `i` -/
  | read (c : Conn) (i k : Nat)

/-- The frame of a line of the log, if it is a write to `c` that `uv.write` accepted. -/
def acceptedFor (c : Conn) : Sand.Out → Option Bytes
  | .write c' _ frame true => if c' = c then some frame else none
  | _ => none

/-- The frames the kernel has taken for `c`. -/
def acceptedTo (c : Conn) (log : List Sand.Out) : List Bytes := log.filterMap (acceptedFor c)

/-- The bytes of client `c` that have not reached the broker. -/
def Net.toBroker (n : Net) (c : Conn) : Bytes := (n.party c).cli.sent.drop (receivedFrom c n.broker.log).length

/-- The bytes for client `c` that it has not read. -/
def Net.toClient (n : Net) (c : Conn) : Bytes := (acceptedTo c n.broker.log).flatten.drop (n.party c).inbox.length

/-- A read that returns data. -/
def brings : Sandc.Event → Bool
  | .readable _ (.got (some _) _) => true
  | _ => false

/-- The broker takes a step. -/
def Net.serve (w : World) (ev : Sand.Event) (n : Net) : EStateM.Result LuaError Net Unit :=
  match Sand.step w.broker ev n.broker with
  | .ok () broker => .ok () { n with broker }
  | .error e broker => .error e { n with broker }

/-- Client `c` takes a step. -/
def Net.act (w : World) (c : Conn) (ev : Sandc.Event) (n : Net) : Net :=
  let p := n.party c
  let r := Sandc.step (w.client c) ev p.cli
  let p' : Party := ⟨finalState r, p.started || ev.isRun, p.inbox ++ gets p.cli ev, (returned r).isNone⟩
  { n with party := Function.update n.party c p' }

/-- Whether client `c` can take the step. -/
def Net.may (n : Net) (c : Conn) (ev : Sandc.Event) : Bool :=
  !(n.party c).crashed && !(ev.isRun && (n.party c).started)

def step (w : World) : Event → EStateM LuaError Net Unit
  | .accept c fd => fun n => n.serve w (.accept c fd)
  | .arrive c k => fun n => n.serve w (.chunk c ((n.toBroker c).take k))
  | .hangup c err => fun n => n.serve w (.closed c err)
  | .timeout c => fun n => n.serve w (.timeout c)
  | .act c ev => fun n => .ok () (if n.may c ev && !brings ev then n.act w c ev else n)
  | .read c i k => fun n =>
    let ev := .readable i (.got (some ((n.toClient c).take k)) none)
    .ok () (if n.may c ev && (n.party c).cli.isOpen then n.act w c ev else n)

def run (w : World) (evs : List Event) : EStateM.Result LuaError Net Unit := runAll (step w) evs (.new w)

/-- What the program of client `c` calls in these events. -/
def callsBy (c : Conn) (evs : List Event) : List Sandc.Event :=
  evs.filterMap fun
    | .act c' ev => if c' = c then some ev else none
    | _ => none

/-- No coroutine of a client sends anything in the middle of another's frame. -/
def Polite (n : Net) : Event → Prop
  | .act c ev => Alone (n.party c).cli ev
  | _ => True

/-! ## What every run keeps -/

structure Linked (w : World) (evs : List Event) (n : Net) : Prop where
  wf : WF n.broker
  honest : Honest w.broker n.broker
  streamed : ∀ c, Streamed c n.broker
  up : ∀ c, receivedFrom c n.broker.log <+: (n.party c).cli.sent
  down : ∀ c, (n.party c).inbox <+: (acceptedTo c n.broker.log).flatten
  reader : ∀ c, Reader (n.party c).cli (n.party c).started (n.party c).inbox
  sound : ∀ c, Fresh (w.param c) (n.party c).cli ∨
    Sound (w.client c) (w.param c) (callsBy c evs) (n.party c).cli

section Linked
variable {w : World} {evs : List Event} {n n' : Net} {c : Conn}

theorem linked_new : Linked w evs (.new w) where
  wf := .new
  honest := honest_new
  streamed := fun _ => streamed_new
  up := fun _ => List.nil_prefix
  down := fun _ => List.nil_prefix
  reader := fun c => reader_new (w.param c)
  sound := fun _ => .inl ⟨rfl, rfl, rfl, rfl, rfl, rfl, by simp [Net.new, Cli.new]⟩

/-! ### Steps of the broker -/

/-- What an event brings to the broker from `c`. -/
def broughtFrom (c : Conn) : Sand.Event → Bytes
  | .chunk c' data => if c' = c then data else []
  | _ => []

/-- Bytes arrive with a chunk, or not at all. -/
theorem receivedFrom_step {env : Sand.Env} {s s' : St} (hw : WF s) {ev : Sand.Event}
    (h : Sand.step env ev s = .ok () s') (c : Conn) :
    receivedFrom c s'.log = receivedFrom c s.log ∨
      receivedFrom c s'.log = receivedFrom c s.log ++ broughtFrom c ev := by
  have hunread : Unread c s s' → receivedFrom c s'.log = receivedFrom c s.log := by
    rintro ⟨⟨outs, hlog, hin⟩, -, -⟩
    rw [hlog, receivedFrom_append, receivedFrom_nil_of hin, List.append_nil]
  by_cases hcc : c = ev.conn
  · by_cases hen : Sand.enabled s ev = true
    · have heq : Sand.step env ev s = Sand.handle env ev s := if_pos hen
      cases ev with
      | accept c0 fd =>
        obtain ⟨-, -, hconn⟩ := step_accept env hw hen
        rw [hconn] at h
        cases h
        exact .inl ((receivedFrom_append c s.log _).trans (List.append_nil _))
      | chunk c0 data =>
        obtain rfl : c = c0 := hcc
        obtain ⟨hopen, -⟩ : s.isOpen c = true ∧ data ≠ [] := by simpa [Sand.enabled] using hen
        obtain ⟨m, hh, hc⟩ := isOpen_iff.mp hopen
        rw [heq, handle_chunk_eq hw data hh hc] at h
        obtain ⟨b, s1, hloop, hrest⟩ := bind_eq_ok.mp h
        have hself : (s.received c m data).heap c = some { m with data := m.data ++ data } :=
          Function.update_self c _ _
        obtain ⟨frames, tail, htook⟩ :=
          dataLoop_took _ (Serving.received hw data hh hc) hself rfl (Nat.le_refl _) hloop
        obtain ⟨outs, hlog, hrecv, -⟩ := htook.log
        obtain ⟨⟨outs', hlog', hin⟩, -, -⟩ := unread_afterLoop (c := c) hrest
        have hchunk : receivedFrom c [.recv c data] = data := by simp [receivedFrom]
        right
        calc receivedFrom c s'.log
            = receivedFrom c (s.log ++ [.recv c data] ++ outs ++ outs') := by
              rw [hlog', hlog]
              rfl
          _ = receivedFrom c s.log ++ data := by
              rw [receivedFrom_append, receivedFrom_append, receivedFrom_append, hrecv, hchunk,
                receivedFrom_nil_of hin, List.append_nil, List.append_nil]
          _ = receivedFrom c s.log ++ broughtFrom c (.chunk c data) := by rw [broughtFrom, if_pos rfl]
      | closed c0 err =>
        obtain ⟨m, hh, -⟩ := isOpen_iff.mp (show s.isOpen c0 = true from hen)
        rw [heq, Sand.handle, bind_of_ok (climapOf_eq hh)] at h
        exact .inl (hunread (unread_closeClient h))
      | timeout c0 =>
        cases hh : s.heap c0 with
        | none => simp [Sand.enabled, hh] at hen
        | some m =>
          rw [heq, Sand.handle, bind_of_ok (climapOf_eq hh)] at h
          exact .inl (hunread (unread_closeClient h))
    · rw [show Sand.step env ev s = .ok () s from if_neg hen] at h
      cases h
      exact .inl rfl
  · exact .inl (hunread (unread_deeds hcc (deeds_step hw h)))

theorem acceptedTo_mono {log log' : List Sand.Out} (h : log <+: log') (c : Conn) :
    (acceptedTo c log).flatten <+: (acceptedTo c log').flatten := by
  obtain ⟨outs, rfl⟩ := h
  rw [acceptedTo, acceptedTo, List.filterMap_append, List.flatten_append]
  exact List.prefix_append _ _

/-- **A step of the broker** that brings no bytes the client has not sent. -/
theorem Linked.serve (h : Linked w evs n) {ev : Sand.Event}
    (hev : ∀ c, receivedFrom c n.broker.log ++ broughtFrom c ev <+: (n.party c).cli.sent)
    (hstep : n.serve w ev = .ok () n') : Linked w evs n' := by
  unfold Net.serve at hstep
  cases hb : Sand.step w.broker ev n.broker with
  | error e b =>
    rw [hb] at hstep
    cases hstep
  | ok u b =>
    rw [hb] at hstep
    cases hstep
    obtain ⟨hhonest, hsub⟩ := keeps_step h.wf ev h.honest () b hb
    exact
      { wf := step_wf h.wf hb
        honest := hhonest
        streamed := fun c => (h.streamed c).step h.wf hb
        up := fun c => by
          rcases receivedFrom_step h.wf hb c with hsame | hmore
          · exact hsame ▸ h.up c
          · exact hmore ▸ hev c
        down := fun c => (h.down c).trans (acceptedTo_mono hsub c)
        reader := h.reader
        sound := h.sound }

theorem prefix_take_rest {α : Type} {a b : List α} (h : a <+: b) (k : Nat) :
    a ++ (b.drop a.length).take k <+: b := by
  obtain ⟨t, rfl⟩ := h
  rw [List.drop_left, List.prefix_append_right_inj]
  exact List.take_prefix k t

/-! ### Steps of the clients -/

/-- What a client does never takes back what it has sent. -/
theorem sent_mono (env : Sandc.Env) (ev : Sandc.Event) (s : Cli) : s.sent <+: (finalState (Sandc.step env ev s)).sent := by
  have hsilent : ∀ s1 s', Silent s1 s' → s.sent <+: s1.sent → s.sent <+: s'.sent := by
    intro s1 s' hs h1
    rw [hs.sent]
    exact h1
  have haside : ∀ s1 s', Aside s1 s' → s.sent <+: s1.sent → s.sent <+: s'.sent := fun _ _ ha h1 => h1.trans ha.sent
  unfold Sandc.step
  split
  · cases ev with
    | connect cli out => exact (deaf_connect env cli out s).sent
    | publish topic payload out => exact (deaf_publish env topic payload out s).sent
    | disconnect out => exact (deaf_disconnect env out s).sent
    | run => exact List.prefix_refl _
    | io i out =>
      unfold Sandc.handle
      simp only
      rw [bind_of_ok (get_ok s)]
      cases s.cos[i]? with
      | none => exact List.prefix_refl _
      | some co =>
        cases co with
        | write k p =>
          simp only
          rw [bind_of_ok (modify_ok _ s)]
          refine haside _ _ (((deaf_tryWrite p out).bind fun res => ?_) _) (List.prefix_refl _)
          cases res with
          | done err => exact deaf_suspend rfl
          | wait p => exact deaf_suspend rfl
        | wrote | pingHead | readHead | reading | gotRead | recv => exact List.prefix_refl _
    | readable i out =>
      unfold Sandc.handle
      simp only
      rw [bind_of_ok (get_ok s)]
      cases s.cos[i]? with
      | none => cases out <;> exact List.prefix_refl _
      | some co => cases co <;> cases out <;> exact List.prefix_refl _
    | resume i late due out =>
      unfold Sandc.handle
      simp only
      rw [bind_of_ok (get_ok s)]
      cases s.cos[i]? with
      | none => exact List.prefix_refl _
      | some co =>
        simp only
        rw [bind_of_ok (modify_ok _ s)]
        cases co with
        | write k p => exact List.prefix_refl _
        | wrote k err => exact haside _ _ (deaf_afterWrite k err _) (List.prefix_refl _)
        | pingHead => exact haside _ _ (deaf_pingHead env late due out _) (List.prefix_refl _)
        | readHead => exact hsilent _ _ ((Silent.refl _).readHead) (List.prefix_refl _)
        | reading => exact List.prefix_refl _
        | gotRead data rerr => exact List.prefix_refl _
        | recv rerr => exact hsilent _ _ ((Silent.refl _).recvStep rerr) (List.prefix_refl _)
  · exact List.prefix_refl _

/-- A read sends nothing. -/
theorem sound_readable {env : Sandc.Env} {param : Sandc.Param} {calls : List Sandc.Event} {s : Cli} (i : Nat)
    (out : ReadOut) (h : Fresh param s ∨ Sound env param calls s) :
    Fresh param (finalState (Sandc.step env (.readable i out) s)) ∨
      Sound env param calls (finalState (Sandc.step env (.readable i out) s)) := by
  unfold Sandc.step
  split
  · rcases h with h | h
    · exact .inl (h.handle fun _ _ hev => by cases hev)
    · exact .inr (h.readable i out)
  · exact h

/-- **A step of a client.** -/
theorem Linked.act (h : Linked w evs n) {ev : Sandc.Event} (hmay : n.may c ev = true)
    (hread : (n.party c).inbox ++ gets (n.party c).cli ev <+: (acceptedTo c n.broker.log).flatten)
    (hsound : Fresh (w.param c) (finalState (Sandc.step (w.client c) ev (n.party c).cli)) ∨
      Sound (w.client c) (w.param c) (callsBy c evs) (finalState (Sandc.step (w.client c) ev (n.party c).cli))) :
    Linked w evs (n.act w c ev) := by
  have hrun : ev.isRun = true → (n.party c).started = false := by
    intro hrun
    simp only [Net.may, hrun, Bool.true_and, Bool.and_eq_true, Bool.not_eq_true'] at hmay
    exact hmay.2
  have hself : (n.act w c ev).party c = ⟨finalState (Sandc.step (w.client c) ev (n.party c).cli),
      (n.party c).started || ev.isRun, (n.party c).inbox ++ gets (n.party c).cli ev,
      (returned (Sandc.step (w.client c) ev (n.party c).cli)).isNone⟩ := Function.update_self c _ _
  have hother : ∀ c', c' ≠ c → (n.act w c ev).party c' = n.party c' := fun c' hc => Function.update_of_ne hc _ _
  refine ⟨h.wf, h.honest, h.streamed, fun c' => ?_, fun c' => ?_, fun c' => ?_, fun c' => ?_⟩
  · by_cases hc : c' = c
    · subst hc
      rw [hself]
      exact (h.up c').trans (sent_mono _ ev _)
    · rw [hother c' hc]
      exact h.up c'
  · by_cases hc : c' = c
    · subst hc
      rw [hself]
      exact hread
    · rw [hother c' hc]
      exact h.down c'
  · by_cases hc : c' = c
    · subst hc
      rw [hself]
      exact (h.reader c').step hrun
    · rw [hother c' hc]
      exact h.reader c'
  · by_cases hc : c' = c
    · subst hc
      rw [hself]
      exact hsound
    · rw [hother c' hc]
      exact h.sound c'

/-- An event that brings nothing brings nothing. -/
theorem gets_of_not_brings {ev : Sandc.Event} (h : brings ev = false) (s : Cli) : gets s ev = [] := by
  cases ev with
  | readable i out =>
    cases out with
    | badf => rfl
    | got data rerr =>
      cases data with
      | some data => cases h
      | none => simp [gets]
  | connect | publish | disconnect | run | io | resume => rfl

/-- **What a step keeps.** -/
theorem Linked.step (h : Linked w evs n) {ev : Event} (hpolite : Polite n ev) (hmem : ev ∈ evs)
    (hstep : step w ev n = .ok () n') : Linked w evs n' := by
  have hquiet : ∀ (bev : Sand.Event) c, broughtFrom c bev = [] →
      receivedFrom c n.broker.log ++ broughtFrom c bev <+: (n.party c).cli.sent := by
    intro bev c hnil
    rw [hnil, List.append_nil]
    exact h.up c
  cases ev with
  | accept c fd => exact h.serve (fun c' => hquiet _ c' rfl) hstep
  | hangup c err => exact h.serve (fun c' => hquiet _ c' rfl) hstep
  | timeout c => exact h.serve (fun c' => hquiet _ c' rfl) hstep
  | arrive c k =>
    refine h.serve (fun c' => ?_) hstep
    by_cases hc : c = c'
    · subst hc
      rw [broughtFrom, if_pos rfl]
      exact prefix_take_rest (h.up c) k
    · exact hquiet _ c' (if_neg hc)
  | act c ev =>
    cases hstep
    split
    · rename_i hgo
      obtain ⟨hmay, hbrings⟩ : n.may c ev = true ∧ brings ev = false := by simpa using hgo
      refine h.act hmay ?_ ?_
      · rw [gets_of_not_brings hbrings, List.append_nil]
        exact h.down c
      · refine step_sound (h.sound c) hpolite ?_
        exact List.mem_filterMap.mpr ⟨.act c ev, hmem, if_pos rfl⟩
    · exact h
  | read c i k =>
    cases hstep
    split
    · rename_i hgo
      have hmay := (Bool.and_eq_true_iff.mp hgo).1
      refine h.act hmay ?_ (sound_readable i _ (h.sound c))
      by_cases hreading : (n.party c).cli.cos[i]? = some .reading
      · rw [gets, if_pos hreading]
        exact prefix_take_rest (h.down c) k
      · rw [gets, if_neg hreading, List.append_nil]
        exact h.down c
    · exact h

/-- Every run keeps it in which no frames are mixed. -/
theorem linked_of_run (hpolite : Along (step w) Polite (.new w) evs) (h : run w evs = .ok () n) : Linked w evs n :=
  Exec.run_invariant (fun _ _ _ hI hQ hstep => hI.step hQ.1 hQ.2 hstep) linked_new
    (hpolite.and (along_mem evs)) h

end Linked

end ApApps.System

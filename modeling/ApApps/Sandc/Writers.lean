import ApApps.Lib.Channel
import ApApps.Sandc.Teardown

/- Several coroutines write to the socket of one client.

   `se.write` sends what the socket takes, yields until it takes more and goes on, and
   nothing in sandc.lua keeps another coroutine from starting a frame of its own in
   between. `Alone` is the condition that this does not happen: a coroutine sends nothing
   while the frame of another has been begun, or given up half sent.

   `frames_whole`: in every run that keeps to it, with `publish`, `disconnect` and the ping
   coroutine in any order and whatever the kernel answers, the server is at all times sent
   the beginning of a sequence of whole frames, each the cn command of the client, a ping,
   a dc command or the frame of a `publish` of the run. `frames_mixed` is the run of two
   publications that shows what happens otherwise. -/
namespace ApApps.Sandc
open ApApps.Redis ApApps.Sand Exec Channel

/-! ## Frames -/

/-- A frame of the client: of `connect`, `publish` or `disconnect` in one of the events, or of the
ping coroutine. -/
def IsFrame (env : Env) (param : Param) (evs : List Event) (f : Bytes) : Prop :=
  (∃ cli out, .connect cli out ∈ evs ∧ encode (env.pairs (cnFields env param)) = .ok f) ∨
    (∃ topic payload out, .publish topic payload out ∈ evs ∧ topic.length < 2 ^ 62 ∧ payload.length < 2 ^ 62 ∧
      encode (env.pairs (pbFields topic payload)) = .ok f) ∨
    encode (env.pairs piFields) = .ok f ∨ ∃ out, .disconnect out ∈ evs ∧ encode (env.pairs dcFields) = .ok f

/-- The write a coroutine waits in. -/
def Co.writer : Co → Option (Writer UInt8)
  | .write _ p => some ⟨p.data, p.nwrite⟩
  | _ => none

/-- The writes that are not finished. -/
def writing (cos : List Co) : List (Writer UInt8) := cos.filterMap Co.writer

/-- The bytes `write(2)` takes. -/
def WriteOut.taken : WriteOut → Nat
  | .wrote n => n
  | _ => 0

/-- While the socket is open, no frame has been given up half sent and none of `cos` is in the
middle of one. -/
def Free (s : Cli) (cos : List Co) : Prop := s.isOpen = true → s.cut = false ∧ begun (writing cos) = []

/-- **A coroutine sends nothing in the middle of another's frame.** -/
def Alone (s : Cli) : Event → Prop
  | .publish _ _ out => out.taken ≠ 0 → Free s s.cos
  | .disconnect out => out.taken ≠ 0 → Free s s.cos
  | .io i out => out.taken ≠ 0 → Free s (s.cos.eraseIdx i)
  | .resume i _ due out => s.cos[i]? = some .pingHead → due = true → out.taken ≠ 0 → Free s (s.cos.eraseIdx i)
  | _ => True

instance (s : Cli) (cos : List Co) : Decidable (Free s cos) :=
  inferInstanceAs (Decidable (s.isOpen = true → s.cut = false ∧ begun (writing cos) = []))

instance (s : Cli) : (ev : Event) → Decidable (Alone s ev)
  | .connect .. => isTrue trivial
  | .publish _ _ out => inferInstanceAs (Decidable (out.taken ≠ 0 → Free s s.cos))
  | .disconnect out => inferInstanceAs (Decidable (out.taken ≠ 0 → Free s s.cos))
  | .run => isTrue trivial
  | .io i out => inferInstanceAs (Decidable (out.taken ≠ 0 → Free s (s.cos.eraseIdx i)))
  | .readable .. => isTrue trivial
  | .resume i _ due out => inferInstanceAs
      (Decidable (s.cos[i]? = some .pingHead → due = true → out.taken ≠ 0 → Free s (s.cos.eraseIdx i)))

theorem writing_cons_none {co : Co} (h : co.writer = none) (cos : List Co) : writing (co :: cos) = writing cos := by
  simp [writing, h]

theorem writing_cons_write (k : Kont) (p : Pending) (cos : List Co) :
    writing (.write k p :: cos) = ⟨p.data, p.nwrite⟩ :: writing cos := by
  simp [writing, Co.writer]

/-- A coroutine taken out of the list. -/
theorem perm_eraseIdx {cos : List Co} {i : Nat} {co : Co} (h : cos[i]? = some co) :
    cos.Perm (co :: cos.eraseIdx i) := by
  obtain ⟨hi, rfl⟩ := List.getElem?_eq_some_iff.mp h
  exact (List.getElem_cons_eraseIdx_perm hi).symm

/-! ## Steps that send nothing -/

/-- `s'` comes from `s` without a write. -/
structure Silent (s s' : Cli) : Prop where
  param : s'.param = s.param
  called : s'.called = s.called
  sent : s'.sent = s.sent
  cut : s'.cut = s.cut
  isOpen : s'.isOpen = true → s.isOpen = true
  writing : writing s'.cos = writing s.cos

theorem Silent.refl (s : Cli) : Silent s s := ⟨rfl, rfl, rfl, rfl, id, rfl⟩

section Silent
variable {s s1 : Cli}

theorem Silent.emit (h : Silent s s1) (out : Out) : Silent s (finalState (emit out s1)) :=
  ⟨h.param, h.called, h.sent, h.cut, h.isOpen, h.writing⟩

theorem Silent.suspend (h : Silent s s1) {co : Co} (hco : co.writer = none) :
    Silent s (finalState (suspend co s1)) :=
  ⟨h.param, h.called, h.sent, h.cut, h.isOpen, (writing_cons_none hco s1.cos).trans h.writing⟩

theorem Silent.seClose (h : Silent s s1) (fd : Option Fd) : Silent s (finalState (seClose fd s1)) := by
  cases fd with
  | none => exact h
  | some fd => exact ⟨h.param, h.called, h.sent, h.cut, fun hopen => Bool.noConfusion hopen, h.writing⟩

/-- A coroutine that ends the connection. -/
theorem Silent.close (h : Silent s s1) (fd : Option Fd) {f : Cli → Cli} {out : Out}
    (hf : ∀ s2, Silent s s2 → Silent s (f s2)) :
    Silent s (finalState ((Sandc.seClose fd >>= fun _ => (modify f : M Unit) >>= fun _ => Sandc.emit out) s1)) := by
  apply always_bind (h.seClose fd)
  intro _ s2 hs2
  have h2 : Silent s s2 := by
    have := h.seClose fd
    rwa [hs2] at this
  rw [bind_of_ok (modify_ok f s2)]
  exact (hf s2 h2).emit out

theorem Silent.closeClient (h : Silent s s1) (err : Bytes) : Silent s (finalState (closeClient err s1)) := by
  unfold Sandc.closeClient
  rw [bind_of_ok (get_ok s1)]
  exact h.close s1.client fun s2 h2 => ⟨h2.param, h2.called, h2.sent, h2.cut, h2.isOpen, h2.writing⟩

/-- What follows a write sends nothing. -/
theorem Silent.afterWrite (h : Silent s s1) (k : Kont) (err : Option Bytes) :
    Silent s (finalState (afterWrite k err s1)) := by
  cases k with
  | connect cli =>
    cases err with
    | none => exact ⟨h.param, h.called, h.sent, h.cut, h.isOpen, h.writing⟩
    | some err => exact ⟨h.param, h.called, h.sent, h.cut, fun hopen => Bool.noConfusion hopen, h.writing⟩
  | publish =>
    cases err with
    | none => exact h
    | some err => exact h.closeClient err
  | disconnect =>
    unfold Sandc.afterWrite
    simp only
    rw [bind_of_ok (get_ok s1)]
    exact h.close s1.client fun s2 h2 => ⟨h2.param, h2.called, h2.sent, h2.cut, h2.isOpen, h2.writing⟩
  | ping =>
    cases err with
    | none => exact h.suspend rfl
    | some err => exact h.closeClient err

theorem Silent.readHead (h : Silent s s1) : Silent s (finalState (readHead s1)) := by
  unfold Sandc.readHead
  rw [bind_of_ok (get_ok s1)]
  by_cases hstop : s1.state = .stStop
  · rw [if_pos hstop]
    exact h
  · rw [if_neg hstop, bind_of_ok (get_ok s1)]
    cases s1.client with
    | none => exact h
    | some fd => exact h.suspend rfl

theorem Silent.recvStep (h : Silent s s1) (rerr : Option Bytes) : Silent s (finalState (recvStep rerr s1)) := by
  unfold Sandc.recvStep
  rw [bind_of_ok (get_ok s1)]
  cases onRecv s1.data with
  | error e => exact h
  | ok res =>
    cases res with
    | handled rest out =>
      have hnext : Silent s { s1 with data := rest, log := s1.log ++ out } :=
        ⟨h.param, h.called, h.sent, h.cut, h.isOpen, h.writing⟩
      exact hnext.suspend rfl
    | fail rest err =>
      have hnext : Silent s { s1 with data := rest } := ⟨h.param, h.called, h.sent, h.cut, h.isOpen, h.writing⟩
      exact hnext.closeClient err
    | idle =>
      cases rerr with
      | none => exact h.suspend rfl
      | some err =>
        by_cases htimeout : err = ascii "TIMEOUT"
        · simp only [htimeout, if_true]
          exact h.suspend rfl
        · simp only [htimeout, if_false]
          exact h.closeClient err

end Silent

/-! ## Steps that send -/

section Sound
variable {env : Env} {param : Param} {evs : List Event} {s s' : Cli} {ws : List (Writer UInt8)}

/-- After `connect` has been called, with the writers `ws` under way. -/
structure Holds (env : Env) (param : Param) (evs : List Event) (s : Cli) (ws : List (Writer UInt8)) : Prop where
  of_new : s.param = param
  called : s.called = true
  frames : ∀ w ∈ ws, IsFrame env param evs w.frame
  framed : Framed (IsFrame env param evs) s.sent
  orderly : s.isOpen = true → s.cut = false → Orderly (IsFrame env param evs) s.sent ws

/-- With the writers that wait. -/
def Sound (env : Env) (param : Param) (evs : List Event) (s : Cli) : Prop :=
  Holds env param evs s (writing s.cos)

theorem Sound.silent (h : Sound env param evs s) (hs : Silent s s') : Sound env param evs s' where
  of_new := hs.param.trans h.of_new
  called := hs.called.trans h.called
  frames := by
    rw [hs.writing]
    exact h.frames
  framed := by
    rw [hs.sent]
    exact h.framed
  orderly := by
    intro hopen hcut
    rw [hs.cut] at hcut
    rw [hs.sent, hs.writing]
    exact h.orderly (hs.isOpen hopen) hcut

/-- A coroutine that has not begun its frame is one more writer. -/
theorem Holds.start (h : Holds env param evs s ws) {f : Bytes} (hf : IsFrame env param evs f) :
    Holds env param evs s (⟨f, 0⟩ :: ws) where
  of_new := h.of_new
  called := h.called
  frames := List.forall_mem_cons.mpr ⟨hf, h.frames⟩
  framed := h.framed
  orderly := fun hopen hcut => (orderly_cons_zero f).mpr (h.orderly hopen hcut)

theorem Holds.perm (h : Holds env param evs s ws) {ws' : List (Writer UInt8)} (hperm : ws.Perm ws') :
    Holds env param evs s ws' where
  of_new := h.of_new
  called := h.called
  frames := fun w hw => h.frames w (hperm.mem_iff.mpr hw)
  framed := h.framed
  orderly := fun hopen hcut => (h.orderly hopen hcut).perm hperm

/-- The writer that is left when `se_try_write` returns. -/
def WriteRes.left : WriteRes → List (Writer UInt8)
  | .done _ => []
  | .wait p => [⟨p.data, p.nwrite⟩]

/-- The socket takes `n` bytes of `p`. -/
theorem Holds.wrote {p : Pending} (h : Holds env param evs s (⟨p.data, p.nwrite⟩ :: ws)) {n : Nat}
    (hfree : n ≠ 0 → s.isOpen = true → s.cut = false ∧ begun ws = []) :
    ∃ res s', tryWrite p (.wrote n) s = .ok res s' ∧ Holds env param evs s' (res.left ++ ws) ∧ s'.cos = s.cos := by
  refine ⟨_, _, rfl, ?_, rfl⟩
  have hws := (List.forall_mem_cons.mp h.frames).2
  have hp := (List.forall_mem_cons.mp h.frames).1
  -- the bytes taken go on with what `p` has sent
  have hsend : s.isOpen = true → s.cut = false →
      Orderly (IsFrame env param evs) (s.sent ++ (p.data.drop p.nwrite).take n)
        (⟨p.data, p.nwrite + n⟩ :: ws) := by
    intro hopen hcut
    by_cases hn : n = 0
    · subst hn
      rw [List.take_zero, List.append_nil]
      exact h.orderly hopen hcut
    · exact orderly_send (h.orderly hopen hcut) (hfree hn hopen).2 n
  have hframed : Framed (IsFrame env param evs)
      (if s.isOpen then s.sent ++ (p.data.drop p.nwrite).take n else s.sent) := by
    by_cases hopen : s.isOpen = true
    · rw [if_pos hopen]
      by_cases hn : n = 0
      · rw [hn, List.take_zero, List.append_nil]
        exact h.framed
      · exact (hsend hopen (hfree hn hopen).1).framed (List.forall_mem_cons.mpr ⟨hp, hws⟩)
    · rw [if_neg hopen]
      exact h.framed
  by_cases hdone : (p.data.drop p.nwrite).length ≤ n
  · simp only [if_pos hdone]
    refine ⟨h.of_new, h.called, hws, hframed, fun hopen hcut => ?_⟩
    show Orderly _ (if s.isOpen then _ else _) ws
    rw [if_pos hopen, List.take_of_length_le hdone]
    by_cases hn : n = 0
    · -- nothing was left to send
      have hlen : p.data.length ≤ p.nwrite := by
        rw [hn, List.length_drop] at hdone
        omega
      rw [List.drop_eq_nil_of_le hlen, List.append_nil]
      exact orderly_leave (h.orderly hopen hcut) hlen hp
    · exact orderly_finish (h.orderly hopen hcut) (hfree hn hopen).2 hp
  · simp only [if_neg hdone]
    refine ⟨h.of_new, h.called, List.forall_mem_cons.mpr ⟨hp, hws⟩, hframed, fun hopen hcut => ?_⟩
    show Orderly _ (if s.isOpen then _ else _) (⟨p.data, p.nwrite + n⟩ :: ws)
    rw [if_pos hopen]
    exact hsend hopen hcut

/-- **One `write(2)`.** While the frame of no other writer has been begun, the channel stays in
order, whatever the answer is. -/
theorem Holds.tryWrite {p : Pending} (h : Holds env param evs s (⟨p.data, p.nwrite⟩ :: ws)) {out : WriteOut}
    (hfree : out.taken ≠ 0 → s.isOpen = true → s.cut = false ∧ begun ws = [])
    (hbadf : out = .badf → s.isOpen = false) :
    (∃ e, tryWrite p out s = .error e s ∧ Holds env param evs s ws) ∨
      ∃ res s', tryWrite p out s = .ok res s' ∧ Holds env param evs s' (res.left ++ ws) ∧ s'.cos = s.cos := by
  cases out with
  | wrote n => exact .inr (h.wrote hfree)
  | again => exact .inr ⟨_, _, rfl, h, rfl⟩
  | failed err =>
    refine .inr ⟨_, _, rfl, ?_, rfl⟩
    refine ⟨h.of_new, h.called, (List.forall_mem_cons.mp h.frames).2, h.framed, fun hopen hcut => ?_⟩
    -- the frame is given up; it is missed only if part of it was sent
    have hboth : s.cut = false ∧ p.nwrite = 0 := by
      have hor : (s.cut || decide (0 < p.nwrite)) = false := hcut
      simpa using hor
    have horderly := h.orderly hopen hboth.1
    rw [hboth.2] at horderly
    exact (orderly_cons_zero p.data).mp horderly
  | badf =>
    refine .inl ⟨_, rfl, h.of_new, h.called, (List.forall_mem_cons.mp h.frames).2, h.framed, fun hopen _ => ?_⟩
    rw [hbadf rfl] at hopen
    cases hopen

theorem Holds.withCos (h : Holds env param evs s ws) (cos : List Co) : Holds env param evs { s with cos } ws :=
  ⟨h.of_new, h.called, h.frames, h.framed, h.orderly⟩

/-- `se.write` of a frame. -/
theorem Sound.seWrite (h : Sound env param evs s) (k : Kont) (client : Option Fd) {data : Bytes}
    (hdata : IsFrame env param evs data) {out : WriteOut} (hfree : out.taken ≠ 0 → Free s s.cos)
    (hbadf : out = .badf → s.isOpen = false) : Sound env param evs (finalState (seWrite k client data out s)) := by
  unfold Sandc.seWrite
  cases client with
  | none => exact h
  | some fd =>
    simp only
    have hstart : Holds env param evs s (⟨data, 0⟩ :: writing s.cos) := Holds.start h hdata
    obtain ⟨e, herr, hs⟩ | ⟨res, s1, hok, hs1, hcos⟩ :=
      Holds.tryWrite (p := ⟨data, 0⟩) hstart hfree hbadf
    · exact always_of_error (bind_of_error herr) hs
    · rw [bind_of_ok hok]
      cases res with
      | done err =>
        have hsound : Sound env param evs s1 := by
          unfold Sound
          rw [hcos]
          exact hs1
        exact hsound.silent ((Silent.refl s1).afterWrite k err)
      | wait p =>
        show Holds env param evs { s1 with cos := .write k p :: s1.cos } (writing (.write k p :: s1.cos))
        rw [writing_cons_write, hcos]
        exact Holds.withCos hs1 _

/-! ## The events -/

theorem buildFrame_eq (env : Env) {map : List (Bytes × Bytes)} (hmap : map ≠ []) (s : Cli) :
    ∃ frame, encode (env.pairs map) = .ok frame ∧ buildFrame env map s = .ok frame s := by
  obtain ⟨frame, hframe⟩ := buildFrame_ok env hmap s
  refine ⟨frame, ?_, hframe⟩
  unfold buildFrame at hframe
  cases hencode : encode (env.pairs map) with
  | ok f =>
    rw [hencode] at hframe
    cases hframe
    rfl
  | error e =>
    rw [hencode] at hframe
    cases hframe

theorem Sound.publish (h : Sound env param evs s) {topic payload : Bytes} {out : WriteOut}
    (hmem : .publish topic payload out ∈ evs) (hlen : topic.length < 2 ^ 62 ∧ payload.length < 2 ^ 62) (hfree : out.taken ≠ 0 → Free s s.cos)
    (hbadf : out = .badf → s.isOpen = false) :
    Sound env param evs (finalState (publish env topic payload out s)) := by
  unfold Sandc.publish
  rw [bind_of_ok (get_ok s)]
  by_cases hstop : s.state = .stStop
  · rw [if_pos hstop]
    exact h
  · rw [if_neg hstop]
    obtain ⟨frame, hencode, hframe⟩ := buildFrame_eq env (show pbFields topic payload ≠ [] by simp [pbFields]) s
    rw [bind_of_ok hframe, bind_of_ok (get_ok s)]
    exact h.seWrite _ _ (.inr (.inl ⟨topic, payload, out, hmem, hlen.1, hlen.2, hencode⟩)) hfree hbadf

theorem Sound.disconnect (h : Sound env param evs s) {out : WriteOut} (hmem : .disconnect out ∈ evs) (hfree : out.taken ≠ 0 → Free s s.cos)
    (hbadf : out = .badf → s.isOpen = false) : Sound env param evs (finalState (disconnect env out s)) := by
  unfold Sandc.disconnect
  rw [bind_of_ok (get_ok s)]
  by_cases hrun : s.state ≠ .stRun
  · rw [if_pos hrun]
    exact h
  · rw [if_neg hrun]
    obtain ⟨frame, hencode, hframe⟩ := buildFrame_eq env (show dcFields ≠ [] by simp [dcFields]) s
    rw [bind_of_ok hframe, bind_of_ok (get_ok s)]
    exact h.seWrite _ _ (.inr (.inr (.inr ⟨out, hmem, hencode⟩))) hfree hbadf

theorem Sound.pingHead (h : Sound env param evs s) (late : Bool) {due : Bool} {out : WriteOut}
    (hfree : due = true → out.taken ≠ 0 → Free s s.cos) (hbadf : out = .badf → s.isOpen = false) :
    Sound env param evs (finalState (pingHead env late due out s)) := by
  have hsilent := Silent.refl s
  unfold Sandc.pingHead
  rw [bind_of_ok (get_ok s)]
  by_cases hstop : s.state = .stStop
  · rw [if_pos hstop]
    exact h
  · rw [if_neg hstop]
    cases late with
    | true => exact h.silent (hsilent.closeClient _)
    | false =>
      cases due with
      | false => exact h.silent (hsilent.suspend rfl)
      | true =>
        obtain ⟨frame, hencode, hframe⟩ := buildFrame_eq env (show piFields ≠ [] by simp [piFields]) s
        simp only [if_true, Bool.false_eq_true, if_false]
        rw [bind_of_ok hframe, bind_of_ok (get_ok s)]
        exact h.seWrite _ _ (.inr (.inr (.inl hencode))) (hfree rfl) hbadf

/-- The coroutine `i` has been taken out of the list. -/
theorem Sound.erase (h : Sound env param evs s) {i : Nat} {co : Co} (hi : s.cos[i]? = some co) :
    Holds env param evs { s with cos := s.cos.eraseIdx i } (co.writer.toList ++ writing (s.cos.eraseIdx i)) := by
  have hperm : (writing s.cos).Perm (co.writer.toList ++ writing (s.cos.eraseIdx i)) := by
    have hcos := (perm_eraseIdx hi).filterMap Co.writer
    cases hco : co.writer <;> simpa [writing, hco] using hcos
  exact Holds.withCos (Holds.perm h hperm) _

theorem Sound.io (h : Sound env param evs s) (i : Nat) {out : WriteOut}
    (hfree : out.taken ≠ 0 → Free s (s.cos.eraseIdx i)) (hbadf : out = .badf → s.isOpen = false) :
    Sound env param evs (finalState (handle env (.io i out) s)) := by
  unfold handle
  simp only
  rw [bind_of_ok (get_ok s)]
  cases hi : s.cos[i]? with
  | none => exact h
  | some co =>
    cases co with
    | write k p =>
      simp only
      rw [bind_of_ok (modify_ok _ s)]
      have herase : Holds env param evs { s with cos := s.cos.eraseIdx i }
          (⟨p.data, p.nwrite⟩ :: writing (s.cos.eraseIdx i)) := h.erase hi
      obtain ⟨e, herr, hs⟩ | ⟨res, s1, hok, hs1, hcos⟩ := Holds.tryWrite herase hfree hbadf
      · exact always_of_error (bind_of_error herr) hs
      · rw [bind_of_ok hok]
        cases res with
        | done err =>
          have hsound : Sound env param evs s1 := by
            unfold Sound
            rw [hcos]
            exact hs1
          exact hsound.silent ((Silent.refl s1).suspend rfl)
        | wait p' =>
          show Holds env param evs { s1 with cos := .write k p' :: s1.cos } (writing (.write k p' :: s1.cos))
          rw [writing_cons_write, hcos]
          exact Holds.withCos hs1 _
    | wrote => exact h
    | pingHead => exact h
    | readHead => exact h
    | reading => exact h
    | gotRead => exact h
    | recv => exact h

theorem Sound.readable (h : Sound env param evs s) (i : Nat) (out : ReadOut) :
    Sound env param evs (finalState (handle env (.readable i out) s)) := by
  unfold handle
  simp only
  rw [bind_of_ok (get_ok s)]
  cases hi : s.cos[i]? with
  | none => cases out <;> exact h
  | some co =>
    cases co with
    | reading =>
      cases out with
      | badf => exact h
      | got data rerr =>
        simp only
        rw [bind_of_ok (modify_ok _ s)]
        have herase : Sound env param evs { s with cos := s.cos.eraseIdx i } := h.erase hi
        exact herase.silent ((Silent.refl _).suspend rfl)
    | write => cases out <;> exact h
    | wrote => cases out <;> exact h
    | pingHead => cases out <;> exact h
    | readHead => cases out <;> exact h
    | gotRead => cases out <;> exact h
    | recv => cases out <;> exact h

theorem Sound.resume (h : Sound env param evs s) (i : Nat) (late due : Bool) {out : WriteOut}
    (hfree : s.cos[i]? = some .pingHead → due = true → out.taken ≠ 0 → Free s (s.cos.eraseIdx i))
    (hbadf : out = .badf → s.isOpen = false) :
    Sound env param evs (finalState (handle env (.resume i late due out) s)) := by
  unfold handle
  simp only
  rw [bind_of_ok (get_ok s)]
  cases hi : s.cos[i]? with
  | none => exact h
  | some co =>
    simp only
    rw [bind_of_ok (modify_ok _ s)]
    have hsilent := Silent.refl { s with cos := s.cos.eraseIdx i }
    cases co with
    | write k p =>
      -- it waits for the socket again
      have herase := h.erase hi
      show Holds env param evs { s with cos := .write k p :: s.cos.eraseIdx i }
        (writing (.write k p :: s.cos.eraseIdx i))
      rw [writing_cons_write]
      exact Holds.withCos herase _
    | wrote k err =>
      have herase : Sound env param evs { s with cos := s.cos.eraseIdx i } := h.erase hi
      exact herase.silent (hsilent.afterWrite k err)
    | pingHead =>
      have herase : Sound env param evs { s with cos := s.cos.eraseIdx i } := h.erase hi
      exact herase.pingHead late (hfree hi) hbadf
    | readHead =>
      have herase : Sound env param evs { s with cos := s.cos.eraseIdx i } := h.erase hi
      exact herase.silent hsilent.readHead
    | reading =>
      have herase : Sound env param evs { s with cos := s.cos.eraseIdx i } := h.erase hi
      exact herase.silent (hsilent.suspend rfl)
    | gotRead data rerr =>
      have herase : Sound env param evs { s with cos := s.cos.eraseIdx i } := h.erase hi
      have hdata : Silent { s with cos := s.cos.eraseIdx i }
          { s with cos := s.cos.eraseIdx i, data := s.data ++ data.getD [] } := ⟨rfl, rfl, rfl, rfl, id, rfl⟩
      exact herase.silent (hdata.suspend rfl)
    | recv rerr =>
      have herase : Sound env param evs { s with cos := s.cos.eraseIdx i } := h.erase hi
      exact herase.silent (hsilent.recvStep rerr)

end Sound

/-! ## Before connect -/

section Fresh
variable {env : Env} {param : Param} {evs : List Event} {s : Cli}

/-- Until `connect` is called there is no socket, and only the two routines of `run` may wait. -/
structure Fresh (param : Param) (s : Cli) : Prop where
  of_new : s.param = param
  called : s.called = false
  client : s.client = none
  isOpen : s.isOpen = false
  sent : s.sent = []
  cut : s.cut = false
  cos : ∀ co ∈ s.cos, co = .pingHead ∨ co = .readHead

theorem Fresh.withCos (h : Fresh param s) {cos : List Co} (hcos : ∀ co ∈ cos, co = .pingHead ∨ co = .readHead) :
    Fresh param { s with cos } :=
  ⟨h.of_new, h.called, h.client, h.isOpen, h.sent, h.cut, hcos⟩

theorem Fresh.writing (h : Fresh param s) : writing s.cos = [] := by
  unfold Sandc.writing
  rw [List.filterMap_eq_nil_iff]
  intro co hco
  rcases h.cos co hco with rfl | rfl <;> rfl

/-- Without a socket nothing is written. -/
theorem Fresh.seWrite (h : Fresh param s) (k : Kont) (data : Bytes) (out : WriteOut) :
    Fresh param (finalState (seWrite k s.client data out s)) := by
  rw [h.client]
  exact h

theorem Fresh.publish (h : Fresh param s) (topic payload : Bytes) (out : WriteOut) :
    Fresh param (finalState (publish env topic payload out s)) := by
  unfold Sandc.publish
  rw [bind_of_ok (get_ok s)]
  by_cases hstop : s.state = .stStop
  · rw [if_pos hstop]
    exact h
  · rw [if_neg hstop]
    obtain ⟨frame, -, hframe⟩ := buildFrame_eq env (show pbFields topic payload ≠ [] by simp [pbFields]) s
    rw [bind_of_ok hframe, bind_of_ok (get_ok s)]
    exact h.seWrite _ _ _

theorem Fresh.disconnect (h : Fresh param s) (out : WriteOut) :
    Fresh param (finalState (disconnect env out s)) := by
  unfold Sandc.disconnect
  rw [bind_of_ok (get_ok s)]
  by_cases hrun : s.state ≠ .stRun
  · rw [if_pos hrun]
    exact h
  · rw [if_neg hrun]
    obtain ⟨frame, -, hframe⟩ := buildFrame_eq env (show dcFields ≠ [] by simp [dcFields]) s
    rw [bind_of_ok hframe, bind_of_ok (get_ok s)]
    exact h.seWrite _ _ _

theorem Fresh.goOn (h : Fresh param s) {co : Co} (hco : co = .pingHead ∨ co = .readHead) (late due : Bool)
    (out : WriteOut) : Fresh param (finalState (goOn env late due out co s)) := by
  have hagain : ∀ co' : Co, co' = .pingHead ∨ co' = .readHead → Fresh param (finalState (suspend co' s)) :=
    fun co' hco' => h.withCos (List.forall_mem_cons.mpr ⟨hco', h.cos⟩)
  rcases hco with rfl | rfl
  · show Fresh param (finalState (pingHead env late due out s))
    unfold pingHead
    rw [bind_of_ok (get_ok s)]
    by_cases hstop : s.state = .stStop
    · rw [if_pos hstop]
      exact h
    · rw [if_neg hstop]
      cases late with
      | true =>
        -- `se.close(nil)` raises
        simp only [if_true]
        unfold closeClient
        rw [bind_of_ok (get_ok s), h.client]
        exact h
      | false =>
        cases due with
        | false => exact hagain _ (.inl rfl)
        | true =>
          obtain ⟨frame, -, hframe⟩ := buildFrame_eq env (show piFields ≠ [] by simp [piFields]) s
          simp only [if_true, Bool.false_eq_true, if_false]
          rw [bind_of_ok hframe, bind_of_ok (get_ok s)]
          exact h.seWrite _ _ _
  · show Fresh param (finalState (readHead s))
    unfold readHead
    rw [bind_of_ok (get_ok s)]
    by_cases hstop : s.state = .stStop
    · rw [if_pos hstop]
      exact h
    · rw [if_neg hstop, bind_of_ok (get_ok s), h.client]
      exact h

/-- Every event but `connect`. -/
theorem Fresh.handle (h : Fresh param s) {ev : Event} (hev : ∀ cli out, ev ≠ .connect cli out) :
    Fresh param (finalState (handle env ev s)) := by
  cases ev with
  | connect cli out => exact absurd rfl (hev cli out)
  | publish topic payload out => exact h.publish topic payload out
  | disconnect out => exact h.disconnect out
  | run =>
    exact h.withCos (List.forall_mem_cons.mpr ⟨.inr rfl, List.forall_mem_cons.mpr ⟨.inl rfl, h.cos⟩⟩)
  | io i out =>
    unfold Sandc.handle
    simp only
    rw [bind_of_ok (get_ok s)]
    cases hi : s.cos[i]? with
    | none => exact h
    | some co => rcases h.cos co (List.mem_of_getElem? hi) with rfl | rfl <;> exact h
  | readable i out =>
    unfold Sandc.handle
    simp only
    rw [bind_of_ok (get_ok s)]
    cases hi : s.cos[i]? with
    | none => cases out <;> exact h
    | some co => rcases h.cos co (List.mem_of_getElem? hi) with rfl | rfl <;> cases out <;> exact h
  | resume i late due out =>
    unfold Sandc.handle
    simp only
    rw [bind_of_ok (get_ok s)]
    cases hi : s.cos[i]? with
    | none => exact h
    | some co =>
      simp only
      rw [bind_of_ok (modify_ok _ s)]
      have herase : Fresh param { s with cos := s.cos.eraseIdx i } :=
        h.withCos fun co' hco' => h.cos co' (List.mem_of_mem_eraseIdx hco')
      exact herase.goOn (h.cos co (List.mem_of_getElem? hi)) late due out

/-- **connect** sends the cn frame first. -/
theorem Fresh.connect (h : Fresh param s) {cli : Option Fd} {out : WriteOut} (hmem : .connect cli out ∈ evs)
    (hout : out ≠ .badf) :
    Sound env param evs (finalState (connect env cli out s)) := by
  have hsound : ∀ (isOpen : Bool) (log : List Out), Sound env param evs { s with called := true, isOpen, log } := by
    intro isOpen log
    refine ⟨h.of_new, rfl, ?_, ?_, fun _ _ => ?_⟩
    · show ∀ w ∈ Sandc.writing s.cos, _
      rw [h.writing]
      simp
    · show Framed _ s.sent
      rw [h.sent]
      exact framed_nil
    · show Orderly _ s.sent (Sandc.writing s.cos)
      rw [h.sent, h.writing]
      exact orderly_nil
  unfold Sandc.connect
  rw [bind_of_ok (modify_ok _ s)]
  cases cli with
  | none => exact hsound s.isOpen s.log
  | some cli =>
    simp only
    rw [bind_of_ok (show emit (.opened cli) _ = .ok () _ from modify_ok _ _), bind_of_ok (modify_ok _ _),
      bind_of_ok (get_ok _)]
    have hopen := hsound true (s.log ++ [.opened cli])
    dsimp only
    by_cases hparam : checkParam s.param = false
    · rw [if_pos hparam]
      exact hopen
    · rw [if_neg hparam]
      have hlift : ∀ x : Except LuaError Unit, Sound env param evs (finalState (lift x
          { s with called := true, isOpen := true, log := s.log ++ [.opened cli] })) := by
        intro x
        cases x <;> exact hopen
      have hlift_ok : ∀ (x : Except LuaError Unit) (a : Unit) (s1 s2 : Cli), lift x s1 = .ok a s2 → s2 = s1 := by
        intro x a s1 s2 hx
        cases x <;> cases hx
        rfl
      refine always_bind (hlift _) fun _ s1 hs1 => ?_
      obtain rfl := hlift_ok _ _ _ _ hs1
      refine always_bind (hlift _) fun _ s2 hs2 => ?_
      obtain rfl := hlift_ok _ _ _ _ hs2
      obtain ⟨frame, hencode, hframe⟩ := buildFrame_eq env (show cnFields env s.param ≠ [] by simp [cnFields])
        { s with called := true, isOpen := true, log := s.log ++ [.opened cli] }
      rw [bind_of_ok hframe]
      rw [h.of_new] at hencode
      refine hopen.seWrite _ _ (.inl ⟨_, _, hmem, hencode⟩) (fun _ _ => ⟨h.cut, ?_⟩) (fun hbadf => absurd hbadf hout)
      show begun (Sandc.writing s.cos) = []
      rw [h.writing]
      rfl

end Fresh

/-! ## Runs -/

section Runs
variable {env : Env} {param : Param} {evs : List Event}

theorem step_sound {s : Cli} {ev : Event} (h : Fresh param s ∨ Sound env param evs s) (halone : Alone s ev)
    (hmem : ev ∈ evs) : Fresh param (finalState (step env ev s)) ∨ Sound env param evs (finalState (step env ev s)) := by
  unfold step
  cases henabled : enabled s ev with
  | false => exact h
  | true =>
    simp only [if_true]
    rcases h with h | h
    · by_cases hconnect : ∃ cli out, ev = .connect cli out
      · obtain ⟨cli, out, rfl⟩ := hconnect
        simp only [enabled, Bool.and_eq_true, Bool.not_eq_true', decide_eq_true_eq] at henabled
        exact .inr (h.connect hmem henabled.2)
      · exact .inl (h.handle fun cli out hev => hconnect ⟨cli, out, hev⟩)
    · refine .inr ?_
      cases ev with
      | connect cli out =>
        simp only [enabled, h.called, Bool.not_true, Bool.false_and] at henabled
        cases henabled
      | publish topic payload out =>
        simp only [enabled, Bool.and_eq_true, decide_eq_true_eq] at henabled
        refine h.publish hmem henabled.1 halone fun hbadf => ?_
        simpa [hbadf] using henabled.2
      | disconnect out =>
        refine h.disconnect hmem halone fun hbadf => ?_
        simpa [enabled, Event.badf, hbadf] using henabled
      | run =>
        exact h.silent (((Silent.refl s).suspend rfl).suspend rfl)
      | io i out =>
        refine h.io i halone fun hbadf => ?_
        simpa [enabled, Event.badf, hbadf] using henabled
      | readable i out => exact h.readable i out
      | resume i late due out =>
        refine h.resume i late due halone fun hbadf => ?_
        simpa [enabled, Event.badf, hbadf] using henabled

theorem framed_of_alone (env : Env) (param : Param) {evs : List Event}
    (halone : Along (step env) Alone (.new param) evs) : Framed (IsFrame env param evs) (finalState (run env param evs)).sent := by
  have hnew : Fresh param (.new param) := ⟨rfl, rfl, rfl, rfl, rfl, rfl, by simp [Cli.new]⟩
  have hend := always_run (I := fun s => Fresh param s ∨ Sound env param evs s)
    (fun s ev h hQ => step_sound h hQ.1 hQ.2) (.inl hnew) (halone.and (along_mem evs))
  rcases hend with h | h
  · rw [run, h.sent]
    exact framed_nil
  · exact h.framed

/-- A field of a table of Lua strings. -/
theorem length_toarr_lt {map : List (Bytes × Bytes)} {n : Nat} (h : ∀ kv ∈ map, kv.1.length + kv.2.length < n) :
    ∀ s ∈ toarr (env.pairs map), s.length < n := by
  intro s hs
  obtain ⟨⟨k, v⟩, hkv, rfl⟩ := List.mem_map.mp hs
  have hle := h _ ((env.pairs_perm map).mem_iff.mp hkv)
  have hk := length_formatS_le k
  have hv := length_formatS_le v
  simp only [List.length_append] at hle ⊢
  omega

theorem toarr_ne_nil {map : List (Bytes × Bytes)} (h : map ≠ []) : toarr (env.pairs map) ≠ [] := by
  intro hnil
  have hempty : env.pairs map = [] := by simpa [toarr] using hnil
  have hperm := env.pairs_perm map
  rw [hempty] at hperm
  exact h hperm.nil_eq.symm

theorem ready_of_encode {map : List (Bytes × Bytes)} {f : Bytes} (hmap : map ≠ []) (hcount : map.length < 2 ^ 31)
    (hlua : ∀ kv ∈ map, kv.1.length + kv.2.length < 2 ^ 63) (h : encode (env.pairs map) = .ok f) :
    redisParseReady f = .done f.length := by
  have hn : (toarr (env.pairs map)).length < 2 ^ 31 := by
    rw [toarr, List.length_map, (env.pairs_perm map).length_eq]
    exact hcount
  obtain ⟨frame, hquery, -⟩ := redisBuildQuery_frame (toarr_ne_nil hmap) hn (length_toarr_lt hlua)
  have hf : f = frame.bytes := by
    have hboth := h.symm.trans hquery
    exact Except.ok.inj hboth
  have hready := redisParseReady_frame frame []
  rwa [List.append_nil, ← hf] at hready

/-- The server finds every frame of the client whole. -/
theorem IsFrame.ready {f : Bytes} (h : IsFrame env param evs f)
    (hlua : ∀ kv ∈ cnFields env param, kv.1.length + kv.2.length < 2 ^ 63) : redisParseReady f = .done f.length := by
  rcases h with ⟨-, -, -, h⟩ | ⟨topic, payload, out, -, htopic, hpayload, h⟩ | h | ⟨-, -, h⟩
  · refine ready_of_encode (by simp [cnFields]) ?_ hlua h
    have hopt : ∀ k v, (optField k v).length ≤ 1 := by
      intro k v
      cases v <;> simp [optField]
    have h1 := hopt "un" param.username
    have h2 := hopt "pw" param.password
    have h3 := hopt "kp" (param.keepalive.map env.tostring)
    have h4 := hopt "ct" param.connectTopic
    have h5 := hopt "cp" param.connectPayload
    have h6 := hopt "wt" param.willTopic
    have h7 := hopt "wp" param.willPayload
    simp only [cnFields, List.length_append, List.length_cons, List.length_nil]
    omega
  · refine ready_of_encode (by simp [pbFields]) (by simp [pbFields]) ?_ h
    have hid : (ascii "id").length = 2 ∧ (ascii "tp").length = 2 ∧ (ascii "pl").length = 2 := by decide
    have hpb : (ascii "pb").length = 2 := by decide
    simp only [pbFields, List.forall_mem_cons, hid, hpb]
    refine ⟨by omega, by omega, by omega, by simp⟩
  · exact ready_of_encode (by decide) (by decide) (by decide) h
  · exact ready_of_encode (by decide) (by decide) (by decide) h

/-- **Frames of concurrent writers do not mix**, in any run in which no coroutine sends anything in
the middle of another's frame. Whatever the kernel answers and in whatever order the
coroutines go on, what the server has been sent at any time is cut into whole frames of
the client and the beginning of another one. -/
theorem frames_whole (env : Env) (param : Param) {evs : List Event}
    (hlua : ∀ kv ∈ cnFields env param, kv.1.length + kv.2.length < 2 ^ 63)
    (halone : Along (step env) Alone (.new param) evs) :
    ∃ frames rest, Incremental.cut redisParseReady (finalState (run env param evs)).sent = (frames, .waiting rest) ∧
      (finalState (run env param evs)).sent = frames.flatten ++ rest ∧ (∀ f ∈ frames, IsFrame env param evs f) ∧
      (rest = [] ∨ ∃ f, IsFrame env param evs f ∧ rest <+: f) :=
  (framed_of_alone env param halone).cut stableVerdict_redisParseReady fun _ hf => hf.ready hlua

end Runs

/-! ## Runs of both kinds -/

/-- The cn frame goes out in two parts; a publication waits until the one before it is finished. -/
def politeRun : List Event :=
  [.connect (some 5) (.wrote 9), .run, .io 2 (.wrote 1000), .resume 0 false false .again,
    .publish (ascii "t") (ascii "x") (.wrote 3), .publish (ascii "t") (ascii "y") .again, .io 1 (.wrote 1000),
    .io 1 (.wrote 1000), .disconnect (.wrote 1000)]

theorem frames_whole_polite :
    ∃ frames rest, Incremental.cut redisParseReady (finalState (run .plain goodParam politeRun)).sent =
        (frames, .waiting rest) ∧
      (finalState (run .plain goodParam politeRun)).sent = frames.flatten ++ rest ∧
      (∀ f ∈ frames, IsFrame .plain goodParam politeRun f) ∧
      (rest = [] ∨ ∃ f, IsFrame .plain goodParam politeRun f ∧ rest <+: f) :=
  frames_whole .plain goodParam (by decide)
    ((along_of_check (p := fun s ev => decide (Alone s ev)) (by decide +kernel)).mono fun _ _ => of_decide_eq_true)

/-- Two publications, the second one in the middle of the first. -/
def mixedRun : List Event :=
  [.connect (some 5) (.wrote 1000), .publish (ascii "t") (ascii "x") (.wrote 3),
    .publish (ascii "t") (ascii "y") (.wrote 1000)]

/-- The server is sent something that is no frame, and closes the connection for it. -/
theorem frames_mixed : (Incremental.cut redisParseReady (finalState (run .plain goodParam mixedRun)).sent).2 =
    .broken := by decide +kernel

end ApApps.Sandc

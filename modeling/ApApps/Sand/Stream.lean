import ApApps.Lib.Channel
import ApApps.Sand.Acts
import ApApps.Sand.Keepalive

/- The commands of a connection are those of the bytes it has sent.

   libuv hands the broker a byte stream in pieces of any size, in between the events of
   other connections. `on_client_data` collects the pieces in `climap.data` and takes the
   commands off its front. `commands_of_stream` says that the pieces do not matter: as long
   as the connection is open, the commands that have been dispatched for it are those of
   the whole frames of the bytes it has sent, in their order, and the rest is what waits in
   the buffer. Once it is closed, the commands are those of the first of the frames.

   `Took` is what a turn of the loop does to the stream: it takes frames off the buffer,
   and dispatches exactly their commands. -/
namespace ApApps.Sand
open Incremental ApApps.Redis Exec

/-- The bytes that have arrived on `c`. -/
def receivedFrom (c : Conn) (log : List Out) : Bytes :=
  log.flatMap fun
    | .recv c' data => if c' = c then data else []
    | _ => []

/-- The commands dispatched for `c`. -/
def dispatchedFor (c : Conn) (log : List Out) : List (Cmd × Fields) :=
  log.filterMap fun
    | .dispatch c' cmd map => if c' = c then some (cmd, map) else none
    | _ => none

/-- The command a frame holds, if `on_client_data` finds one in it. -/
def frameCommand (frame : Bytes) : Option (Cmd × Fields) :=
  match readCommand frame with
  | .ok (.call cmd map _) => some (cmd, map)
  | _ => none

/-- Something has arrived on `c`, or a command of it is dispatched. -/
def Out.isInput (c : Conn) : Out → Bool
  | .recv c' _ => c' = c
  | .dispatch c' _ _ => c' = c
  | _ => false

theorem receivedFrom_append (c : Conn) (o o' : List Out) :
    receivedFrom c (o ++ o') = receivedFrom c o ++ receivedFrom c o' :=
  List.flatMap_append

theorem dispatchedFor_append (c : Conn) (o o' : List Out) :
    dispatchedFor c (o ++ o') = dispatchedFor c o ++ dispatchedFor c o' :=
  List.filterMap_append

theorem receivedFrom_nil_of {c : Conn} {outs : List Out} (h : ∀ o ∈ outs, o.isInput c = false) :
    receivedFrom c outs = [] := by
  unfold receivedFrom
  rw [List.flatMap_eq_nil_iff]
  intro o ho
  have hin := h o ho
  cases o with
  | recv c' data =>
    have hne : c' ≠ c := by simpa [Out.isInput] using hin
    exact if_neg hne
  | write | closeTimer | closeClient | timerStop | timerStart | dispatch => rfl

theorem dispatchedFor_nil_of {c : Conn} {outs : List Out} (h : ∀ o ∈ outs, o.isInput c = false) :
    dispatchedFor c outs = [] := by
  unfold dispatchedFor
  rw [List.filterMap_eq_nil_iff]
  intro o ho
  have hin := h o ho
  cases o with
  | dispatch c' cmd map => simpa [Out.isInput] using hin
  | write | closeTimer | closeClient | timerStop | timerStart | recv => rfl

/-! ## Frames and commands -/

/-- A command found in a buffer is the command of the frame in front. -/
theorem frameCommand_of_call {data : Bytes} {cmd : Cmd} {map : Fields} {rest : Bytes}
    (h : readCommand data = .ok (.call cmd map rest)) :
    ∃ frame, data = frame ++ rest ∧ redisParseReady frame = .done frame.length ∧
      frameCommand frame = some (cmd, map) := by
  obtain ⟨p, hready, -, -, rfl⟩ := readCommand_call h
  obtain ⟨f, q, rfl, rfl⟩ := redisParseReady_eq_done_iff.mp hready
  rw [List.drop_left] at h ⊢
  have hself : redisParseReady f.bytes = .done f.bytes.length := by simpa using redisParseReady_frame f []
  have hreply : redisParseReply f.bytes = (f.reply, MULTI_BULK_REPLY) := by simpa using redisParseReply_frame f []
  refine ⟨f.bytes, rfl, hself, ?_⟩
  -- the two readings differ in what is left of the buffer only
  have hread : readCommand f.bytes = .ok (.call cmd map []) := by
    unfold readCommand at h ⊢
    rw [hready, redisParseReply_frame] at h
    rw [hself, hreply]
    simp only [bind, Except.bind, List.drop_left, List.drop_length] at h ⊢
    split at h
    · cases h
    · split at h
      · cases h
      · rename_i hok
        rw [if_neg hok]
        split at h
        · cases h
        · split at h
          · cases h
          · split at h
            · cases h
            · cases h
              rfl
  simp only [frameCommand, hread]

/-! ## What leaves a stream alone -/

/-- The descriptor a connection is known by, and what it has sent that is still unread. -/
def Climap.inbox (m : Climap) : Fd × Bytes := (m.fd, m.data)

section Aside
variable {env : Env} {s s1 s2 s3 s' : St} {fd : Fd} {c : Conn} {m : Climap}

/-- Nothing arrives on `c`, no command of it is dispatched, and its buffer stays as it is. -/
structure Unread (c : Conn) (s s' : St) : Prop where
  log : ∃ outs, s'.log = s.log ++ outs ∧ ∀ o ∈ outs, o.isInput c = false
  inbox : (s'.heap c).map Climap.inbox = (s.heap c).map Climap.inbox
  isOpen : s'.isOpen c = true → s.isOpen c = true

theorem Unread.trans (h : Unread c s1 s2) (h' : Unread c s2 s3) : Unread c s1 s3 where
  log := by
    obtain ⟨o, hlog, ho⟩ := h.log
    obtain ⟨o', hlog', ho'⟩ := h'.log
    refine ⟨o ++ o', by rw [hlog', hlog, List.append_assoc], ?_⟩
    intro x hx
    rcases List.mem_append.mp hx with hx | hx
    · exact ho x hx
    · exact ho' x hx
  inbox := h'.inbox.trans h.inbox
  isOpen := fun hopen => h.isOpen (h'.isOpen hopen)

theorem Unread.of_heap {l : List Out} (hheap : s'.heap c = s.heap c) (hlog : s'.log = s.log ++ l)
    (hin : ∀ o ∈ l, o.isInput c = false) : Unread c s s' where
  log := ⟨l, hlog, hin⟩
  inbox := by rw [hheap]
  isOpen := by
    unfold St.isOpen
    rw [hheap]
    exact id

theorem Unread.refl : Unread c s s := .of_heap (l := []) rfl (by simp) (by simp)

theorem Unread.climap (h : Unread c s s') (hh : s.heap c = some m) :
    ∃ m', s'.heap c = some m' ∧ m'.inbox = m.inbox := by
  have hinbox := h.inbox
  rw [hh, Option.map_some, Option.map_eq_some_iff] at hinbox
  exact hinbox

/-- Another connection's climap changes, or other fields of this one's. -/
theorem Unread.of_update {c' : Conn} {m' : Climap} {l : List Out} (hh : s.heap c' = some m)
    (hheap : s'.heap = Function.update s.heap c' (some m')) (hinbox : m'.inbox = m.inbox)
    (hclient : m'.client = true → m.client = true) (hlog : s'.log = s.log ++ l)
    (hin : ∀ o ∈ l, o.isInput c = false) : Unread c s s' := by
  by_cases hc : c = c'
  · subst hc
    have hh' : s'.heap c = some m' := by
      rw [hheap]
      exact Function.update_self c _ _
    refine ⟨⟨l, hlog, hin⟩, ?_, ?_⟩
    · rw [hh, hh', Option.map_some, Option.map_some, hinbox]
    · simpa [St.isOpen, hh, hh'] using hclient
  · refine .of_heap ?_ hlog hin
    rw [hheap]
    exact Function.update_of_ne hc _ _

theorem unread_wrote (msg : Msg) (frame : Bytes) (c' : Conn) : Unread c s (s.wrote env c' msg frame) :=
  .of_heap rfl rfl (by simp [Out.isInput])

/-- **A command leaves every stream alone.** -/
theorem unread_act (h : Act env s s') : Unread c s s' := by
  cases h with
  | tick ht =>
    cases ht with
    | deliver => exact unread_wrote _ _ _
    | shut _ hh => exact .of_update hh rfl rfl (fun h => by cases h) rfl (by simp [Out.isInput])
  | wrote => exact unread_wrote _ _ _
  | prepared hh => exact .of_update (l := []) hh rfl rfl id (List.append_nil _).symm (by simp)
  | identified => exact .of_heap (l := []) rfl (List.append_nil _).symm (by simp)
  | authorized hh => exact .of_update (l := []) hh rfl rfl id (List.append_nil _).symm (by simp)

theorem unread_acts (h : Acts env s s') : Unread c s s' := by
  induction h with
  | refl => exact .refl
  | tail _ ha ih => exact ih.trans (unread_act ha)

theorem unread_closeClient {err : Bytes} (h : closeClient env fd err s = .ok () s') : Unread c s s' :=
  unread_acts (acts_closeClient h)

/-- What is done for one connection is nothing to the stream of another. -/
theorem unread_deeds {c0 : Conn} (hne : c ≠ c0) (h : Deeds env c0 s s') : Unread c s s' := by
  have hin : c0 ≠ c := Ne.symm hne
  induction h with
  | refl => exact .refl
  | tail _ hd ih =>
    refine ih.trans ?_
    cases hd with
    | act ha => exact unread_act ha
    | received => exact .of_heap rfl rfl (by simpa [Out.isInput] using hin)
    | dispatched => exact .of_heap rfl rfl (by simpa [Out.isInput] using hin)
    | buffer => exact .of_heap (l := []) (Function.update_of_ne hne _ _) (List.append_nil _).symm (by simp)
    | restarted => exact .of_heap rfl (List.append_assoc _ _ _) (by simp [Out.isInput])
    | connected => exact .of_heap (Function.update_of_ne hne _ _) rfl (by simp [Out.isInput])

end Aside

/-! ## The loop -/

section Loop
variable {env : Env} {s s1 s' : St} {fd : Fd} {c : Conn} {m m1 : Climap}

/-- The loop, on the buffer of `m`, has taken `frames` off it, `tail` is what is left, and if
the connection is still open, `tail` waits in the buffer and holds no whole frame. -/
structure Took (c : Conn) (m : Climap) (s s' : St) (frames : List Bytes) (tail : Bytes) : Prop where
  whole : ∀ f ∈ frames, redisParseReady f = .done f.length
  log : ∃ outs, s'.log = s.log ++ outs ∧ receivedFrom c outs = [] ∧
    (dispatchedFor c outs).map some = frames.map frameCommand
  data : m.data = frames.flatten ++ tail
  climap : ∃ m', s'.heap c = some m' ∧
    (m'.client = true → m'.data = tail ∧ cut redisParseReady tail = ([], .waiting tail))

/-- The command in `frame` has been handled, and the loop goes on with `m1`. -/
structure Answered (c : Conn) (m : Climap) (s s' : St) (frame : Bytes) (m1 : Climap) : Prop where
  whole : redisParseReady frame = .done frame.length
  log : ∃ cmd map outs, frameCommand frame = some (cmd, map) ∧
    s'.log = s.log ++ .dispatch c cmd map :: outs ∧ ∀ o ∈ outs, o.isInput c = false
  data : m.data = frame ++ m1.data
  climap : s'.heap c = some m1
  fd : m1.fd = m.fd

/-- What one command adds to the log. -/
theorem Answered.taken {frame : Bytes} (h : Answered c m s s' frame m1) :
    ∃ outs, s'.log = s.log ++ outs ∧ receivedFrom c outs = [] ∧
      (dispatchedFor c outs).map some = [frameCommand frame] := by
  obtain ⟨cmd, map, outs, hcmd, hlog, hin⟩ := h.log
  refine ⟨_, hlog, ?_, ?_⟩
  · exact (receivedFrom_append c [.dispatch c cmd map] outs).trans (receivedFrom_nil_of hin)
  · rw [show Out.dispatch c cmd map :: outs = [.dispatch c cmd map] ++ outs from rfl, dispatchedFor_append,
      dispatchedFor_nil_of hin, hcmd]
    simp [dispatchedFor]

/-- The loop after a command. -/
theorem Answered.took {frame : Bytes} {frames : List Bytes} {tail : Bytes} (h : Answered c m s s1 frame m1)
    (ht : Took c m1 s1 s' frames tail) : Took c m s s' (frame :: frames) tail where
  whole := List.forall_mem_cons.mpr ⟨h.whole, ht.whole⟩
  log := by
    obtain ⟨outs, hlog, hrecv, hdisp⟩ := h.taken
    obtain ⟨outs', hlog', hrecv', hdisp'⟩ := ht.log
    refine ⟨outs ++ outs', by rw [hlog', hlog, List.append_assoc], ?_, ?_⟩
    · rw [receivedFrom_append, hrecv, hrecv', List.append_nil]
    · rw [dispatchedFor_append, List.map_append, hdisp, hdisp']
      rfl
  data := by rw [h.data, ht.data, List.flatten_cons, List.append_assoc]
  climap := ht.climap

/-- The connection has been closed for what is in front of the buffer. -/
theorem Took.of_closed {outs : List Out} (hlog : s'.log = s.log ++ outs) (hin : ∀ o ∈ outs, o.isInput c = false)
    (hclosed : ∃ m', s'.heap c = some m' ∧ m'.client = false) : Took c m s s' [] m.data where
  whole := by simp
  log := ⟨outs, hlog, receivedFrom_nil_of hin, by simp [dispatchedFor_nil_of hin]⟩
  data := rfl
  climap := by
    obtain ⟨m', hh', hc⟩ := hclosed
    refine ⟨m', hh', fun h => ?_⟩
    rw [hc] at h
    cases h

/-- There is no whole frame in the buffer. -/
theorem Took.of_waiting (hh : s.heap c = some m) (hwait : cut redisParseReady m.data = ([], .waiting m.data)) :
    Took c m s s [] m.data where
  whole := by simp
  log := ⟨[], by simp, rfl, rfl⟩
  data := rfl
  climap := ⟨m, hh, fun _ => ⟨rfl, hwait⟩⟩

theorem Took.of_nil (hh : s.heap c = some m) (hnil : m.data = []) : Took c m s s [] m.data := by
  refine .of_waiting hh ?_
  rw [hnil]
  rfl

/-- **A turn of the loop**: it stops, or it has handled the command in front. -/
theorem turn_took (hs : Serving fd c s) (hh : s.heap c = some m) (hfd : m.fd = fd) (hne : m.data ≠ [])
    {b : Bool} (h : turn env fd c s = .ok b s') :
    (b = false ∧ ∃ frames tail, Took c m s s' frames tail) ∨
      (b = true ∧ ∃ frame m1, Answered c m s s' frame m1) := by
  have hw := (hs.turned h).wf
  unfold turn at h
  rw [bind_of_ok (climapOf_eq hh)] at h
  obtain ⟨next, hnext⟩ := readCommand_total m.data
  rw [hnext] at h
  cases next with
  | wait =>
    cases h
    refine .inl ⟨rfl, [], m.data, .of_waiting hh ?_⟩
    rw [cut_step stableVerdict_redisParseReady hne, readCommand_wait hnext]
  | refuse rest err =>
    simp only at h
    rw [bind_of_ok (setData_eq rest hh)] at h
    obtain ⟨_, s1, hclose, hr⟩ := bind_eq_ok.mp h
    cases hr
    have hself : (s.withData c m rest).heap c = some { m with data := rest } := Function.update_self c _ _
    obtain ⟨outs, hlog, hin⟩ := (unread_closeClient (c := c) hclose).log
    exact .inl ⟨rfl, [], m.data, .of_closed hlog hin (closed_by_closeClient hw hself hfd hclose)⟩
  | call cmd map rest =>
    simp only at h
    rw [bind_of_ok (setData_eq rest hh),
      bind_of_ok (show emit (.dispatch c cmd map) (s.withData c m rest) = .ok () (s.called c m rest cmd map) from rfl)]
      at h
    unfold handleCommand at h
    obtain ⟨r, s1, hcmd, hr⟩ := bind_eq_ok.mp h
    have hself : (s.called c m rest cmd map).heap c = some { m with data := rest } := Function.update_self c _ _
    have hs1 := hs.called hh rest cmd map
    obtain ⟨frame, hdata, hwhole, hframe⟩ := frameCommand_of_call hnext
    have hunread := unread_acts (c := c) (acts_command hs1.wf hcmd)
    obtain ⟨m1, hh1, hinbox⟩ := hunread.climap hself
    obtain ⟨outs, hlog, hin⟩ := hunread.log
    have hanswered : Answered c m s s1 frame m1 := by
      refine ⟨hwhole, ⟨cmd, map, outs, hframe, ?_, hin⟩, ?_, hh1, congrArg Prod.fst hinbox⟩
      · rw [hlog, show (s.called c m rest cmd map).log = s.log ++ [.dispatch c cmd map] from rfl, List.append_assoc]
        rfl
      · rw [hdata, show m1.data = rest from congrArg Prod.snd hinbox]
    cases r with
    | none =>
      cases hr
      exact .inr ⟨rfl, frame, m1, hanswered⟩
    | some err =>
      obtain ⟨_, s2, hclose, hr⟩ := bind_eq_ok.mp hr
      cases hr
      obtain ⟨outs2, hlog2, hin2⟩ := (unread_closeClient (c := c) hclose).log
      exact .inl ⟨rfl, [frame], m1.data, hanswered.took (.of_closed hlog2 hin2
        (closed_by_closeClient hw hh1 (hanswered.fd.trans hfd) hclose))⟩

/-- **The loop takes frames off the buffer and dispatches their commands.** -/
theorem dataLoop_took (fuel : Nat) (hs : Serving fd c s) (hh : s.heap c = some m) (hfd : m.fd = fd)
    (hfuel : m.data.length ≤ fuel) {b : Bool} (h : dataLoop env fd c fuel s = .ok b s') :
    ∃ frames tail, Took c m s s' frames tail := by
  induction fuel generalizing s m with
  | zero =>
    cases h
    exact ⟨[], m.data, .of_nil hh (List.eq_nil_of_length_eq_zero (by omega))⟩
  | succ fuel ih =>
    unfold dataLoop at h
    rw [bind_of_ok (climapOf_eq hh)] at h
    by_cases hnil : m.data = []
    · rw [if_pos hnil] at h
      cases h
      exact ⟨[], m.data, .of_nil hh hnil⟩
    · rw [if_neg hnil] at h
      obtain ⟨b1, s1, hturn, hrest⟩ := bind_eq_ok.mp h
      have hs1 := hs.turned hturn
      rcases turn_took hs hh hfd hnil hturn with ⟨rfl, hstopped⟩ | ⟨rfl, frame, m1, hanswered⟩
      · cases hrest
        exact hstopped
      · have hpos := stableVerdict_redisParseReady.ready_pos hanswered.whole
        have hlt : m1.data.length ≤ fuel := by
          rw [hanswered.data, List.length_append] at hfuel
          omega
        obtain ⟨frames, tail, htook⟩ := ih hs1 hanswered.climap (hanswered.fd.trans hfd) hlt hrest
        exact ⟨frame :: frames, tail, hanswered.took htook⟩

/-- The end of `on_client_data`. -/
theorem unread_afterLoop {b : Bool} (h : (if b then restartTimer c else pure ()) s = .ok () s') : Unread c s s' := by
  cases b with
  | true =>
    obtain ⟨m, param, kp, ms, -, -, -, -, -, rfl⟩ := restartTimer_ok h
    exact .of_heap (l := [.timerStop c, .timerStart c ms]) rfl (List.append_assoc s.log _ _) (by simp [Out.isInput])
  | false =>
    cases h
    exact .refl

end Loop

/-! ## Events and runs -/

section Streams
variable {env : Env} {s s' : St} {c : Conn}

/-- The commands dispatched for `c` are those of the first of its frames; while it is open,
they are those of all of them, and the rest of its bytes waits in the buffer. -/
structure Streamed (c : Conn) (s : St) : Prop where
  frames : ∃ (frames : List Bytes) (tail : Bytes), (∀ f ∈ frames, redisParseReady f = .done f.length) ∧
    (dispatchedFor c s.log).map some = frames.map frameCommand ∧
    receivedFrom c s.log = frames.flatten ++ tail ∧
    ∀ m, s.heap c = some m → m.client = true → m.data = tail ∧ cut redisParseReady tail = ([], .waiting tail)
  fresh : s.heap c = none → receivedFrom c s.log = []

theorem streamed_new : Streamed c .new where
  frames := ⟨[], [], by simp, rfl, rfl, fun m h => by cases h⟩
  fresh := fun _ => rfl

/-- An event of another connection, or one that brings no bytes. -/
theorem Streamed.unread (h : Streamed c s) (hu : Unread c s s') : Streamed c s' := by
  obtain ⟨outs, hlog, hin⟩ := hu.log
  have hrecv : receivedFrom c s'.log = receivedFrom c s.log := by
    rw [hlog, receivedFrom_append, receivedFrom_nil_of hin, List.append_nil]
  have hdisp : dispatchedFor c s'.log = dispatchedFor c s.log := by
    rw [hlog, dispatchedFor_append, dispatchedFor_nil_of hin, List.append_nil]
  constructor
  · obtain ⟨frames, tail, hwhole, hcmds, hbytes, hopen⟩ := h.frames
    refine ⟨frames, tail, hwhole, hdisp ▸ hcmds, hrecv ▸ hbytes, fun m' hh' hc' => ?_⟩
    have hwas : s.isOpen c = true := hu.isOpen (isOpen_iff.mpr ⟨m', hh', hc'⟩)
    obtain ⟨m, hh, hc⟩ := isOpen_iff.mp hwas
    obtain ⟨m1, hh1, hinbox⟩ := hu.climap hh
    rw [hh'] at hh1
    cases hh1
    rw [show m'.data = m.data from congrArg Prod.snd hinbox]
    exact hopen m hh hc
  · intro hnone
    rw [hrecv]
    apply h.fresh
    have hinbox := hu.inbox
    rw [hnone, Option.map_none] at hinbox
    exact Option.map_eq_none_iff.mp hinbox.symm

/-- A connection has sent nothing when it is accepted. -/
theorem Streamed.connected (h : Streamed c s) {c' : Conn} {fd : Fd} (hnone : s.heap c' = none) :
    Streamed c (s.connected c' fd) := by
  by_cases hc : c = c'
  · subst hc
    have hself : (s.connected c fd).heap c = some ⟨fd, [], none, .stNew, true, true⟩ := Function.update_self c _ _
    have hrecv : receivedFrom c (s.connected c fd).log = receivedFrom c s.log :=
      (receivedFrom_append c s.log [.timerStart c (30 * 1000)]).trans (List.append_nil _)
    have hdisp : dispatchedFor c (s.connected c fd).log = dispatchedFor c s.log :=
      (dispatchedFor_append c s.log [.timerStart c (30 * 1000)]).trans (List.append_nil _)
    constructor
    · obtain ⟨frames, tail, hwhole, hcmds, hbytes, -⟩ := h.frames
      refine ⟨frames, tail, hwhole, hdisp ▸ hcmds, hrecv ▸ hbytes, fun m hh _ => ?_⟩
      rw [hself] at hh
      cases hh
      rw [h.fresh hnone] at hbytes
      obtain rfl : tail = [] := (List.append_eq_nil_iff.mp hbytes.symm).2
      exact ⟨rfl, rfl⟩
    · intro hgone
      rw [hself] at hgone
      cases hgone
  · exact h.unread (.of_heap (Function.update_of_ne hc _ _) rfl (by simp [Out.isInput]))

/-- **A chunk**: the loop takes the frames it completes off the buffer. -/
theorem Streamed.chunk (h : Streamed c s) {m : Climap} {data : Bytes} (hh : s.heap c = some m)
    (hc : m.client = true) {frames : List Bytes} {tail : Bytes}
    (ht : Took c { m with data := m.data ++ data } (s.received c m data) s' frames tail) : Streamed c s' := by
  obtain ⟨before, rest, hwhole, hcmds, hbytes, hopen⟩ := h.frames
  obtain ⟨hrest, -⟩ := hopen m hh hc
  obtain ⟨outs, hlog, hrecv, hdisp⟩ := ht.log
  have hlog' : s'.log = s.log ++ (.recv c data :: outs) := by
    rw [hlog, show (s.received c m data).log = s.log ++ [.recv c data] from rfl, List.append_assoc]
    rfl
  have hchunk : receivedFrom c (.recv c data :: outs) = data := by
    rw [show receivedFrom c (.recv c data :: outs) = receivedFrom c [.recv c data] ++ receivedFrom c outs from
      receivedFrom_append c [.recv c data] outs, hrecv]
    simp [receivedFrom]
  obtain ⟨m', hh', hend⟩ := ht.climap
  have hbuf : m.data ++ data = frames.flatten ++ tail := ht.data
  constructor
  · refine ⟨before ++ frames, tail, ?_, ?_, ?_, ?_⟩
    · intro f hf
      rcases List.mem_append.mp hf with hf | hf
      · exact hwhole f hf
      · exact ht.whole f hf
    · rw [hlog', dispatchedFor_append, show dispatchedFor c (.recv c data :: outs) = dispatchedFor c outs from rfl,
        List.map_append, hcmds, hdisp, List.map_append]
    · calc receivedFrom c s'.log
          = before.flatten ++ (rest ++ data) := by
            rw [hlog', receivedFrom_append, hbytes, hchunk, List.append_assoc]
        _ = before.flatten ++ (frames.flatten ++ tail) := by rw [← hrest, hbuf]
        _ = (before ++ frames).flatten ++ tail := by rw [List.flatten_append, List.append_assoc]
    · intro m1 hh1 hc1
      rw [hh'] at hh1
      cases hh1
      exact hend hc1
  · intro hnone
    rw [hh'] at hnone
    cases hnone

/-- **What an event does to the stream of a connection.** -/
theorem Streamed.step (h : Streamed c s) (hw : WF s) {ev : Event} (hstep : step env ev s = .ok () s') :
    Streamed c s' := by
  by_cases hcc : c = ev.conn
  · by_cases hen : enabled s ev = true
    · have heq : Sand.step env ev s = handle env ev s := if_pos hen
      cases ev with
      | accept c0 fd =>
        obtain ⟨hnone, -, hconn⟩ := step_accept env hw hen
        rw [hconn] at hstep
        cases hstep
        exact h.connected hnone
      | chunk c0 data =>
        obtain rfl : c = c0 := hcc
        obtain ⟨hopen, -⟩ : s.isOpen c = true ∧ data ≠ [] := by simpa [enabled] using hen
        obtain ⟨m, hh, hc⟩ := isOpen_iff.mp hopen
        rw [heq, handle_chunk_eq hw data hh hc] at hstep
        obtain ⟨b, s1, hloop, hrest⟩ := bind_eq_ok.mp hstep
        have hself : (s.received c m data).heap c = some { m with data := m.data ++ data } :=
          Function.update_self c _ _
        obtain ⟨frames, tail, htook⟩ :=
          dataLoop_took _ (Serving.received hw data hh hc) hself rfl (Nat.le_refl _) hloop
        exact (h.chunk hh hc htook).unread (unread_afterLoop hrest)
      | closed c0 err =>
        obtain ⟨m, hh, -⟩ := isOpen_iff.mp (show s.isOpen c0 = true from hen)
        rw [heq, handle, bind_of_ok (climapOf_eq hh)] at hstep
        exact h.unread (unread_closeClient hstep)
      | timeout c0 =>
        cases hh : s.heap c0 with
        | none => simp [enabled, hh] at hen
        | some m =>
          rw [heq, handle, bind_of_ok (climapOf_eq hh)] at hstep
          exact h.unread (unread_closeClient hstep)
    · rw [show Sand.step env ev s = .ok () s from if_neg hen] at hstep
      cases hstep
      exact h
  · exact h.unread (unread_deeds hcc (deeds_step hw hstep))

/-- Every run keeps it, for every connection. -/
theorem streamed_of_run {evs : List Event} (h : run env evs = .ok () s) (c : Conn) : Streamed c s :=
  (Exec.run_invariant (I := fun s => WF s ∧ Streamed c s) (Q := fun _ _ => True)
    (fun _ _ _ h0 _ hev => ⟨step_wf h0.1 hev, h0.2.step h0.1 hev⟩) ⟨WF.new, streamed_new⟩ (along_true evs) h).2

end Streams

/-- **The commands of a connection are those of the bytes it has sent**, whatever the pieces
they arrive in and whatever happens in between: of all its whole frames as long as it is
open, and of the first of them afterwards. -/
theorem commands_of_stream {env : Env} {evs : List Event} {s : St} (h : run env evs = .ok () s) (c : Conn) :
    (dispatchedFor c s.log).map some <+: (cut redisParseReady (receivedFrom c s.log)).1.map frameCommand ∧
      (s.isOpen c = true →
        (dispatchedFor c s.log).map some = (cut redisParseReady (receivedFrom c s.log)).1.map frameCommand ∧
        (cut redisParseReady (receivedFrom c s.log)).2 = .waiting (s.dataOf c)) := by
  obtain ⟨frames, tail, hwhole, hcmds, hbytes, hopen⟩ := (streamed_of_run h c).frames
  rw [hbytes, Channel.cut_frames stableVerdict_redisParseReady hwhole tail, hcmds]
  refine ⟨?_, fun ho => ?_⟩
  · rw [List.map_append]
    exact List.prefix_append _ _
  · obtain ⟨m, hh, hc⟩ := isOpen_iff.mp ho
    obtain ⟨hdata, hcut⟩ := hopen m hh hc
    have hbuf : s.dataOf c = tail := by simp [St.dataOf, hh, hdata]
    rw [hcut, hbuf]
    simp

/-- Two connections, whose frames arrive in pieces, one within the other. -/
def piecesRun : List Event :=
  [.accept 0 5, .accept 1 6, .chunk 0 ((cnFrame "x" "5" "a" []).take 7), .chunk 1 (cnFrame "y" "5" "b" []),
    .chunk 0 ((cnFrame "x" "5" "a" []).drop 7 ++ commandFrame [("id", ascii "pi")] ++ ascii "*"), .closed 1 none]

theorem commands_of_stream_pieces : ∃ s, run .calm piecesRun = .ok () s ∧
    ((dispatchedFor 0 s.log).length = 2 ∧ s.isOpen 0 = true) ∧
    (dispatchedFor 0 s.log).map some <+: (cut redisParseReady (receivedFrom 0 s.log)).1.map frameCommand ∧
      (s.isOpen 0 = true →
        (dispatchedFor 0 s.log).map some = (cut redisParseReady (receivedFrom 0 s.log)).1.map frameCommand ∧
        (cut redisParseReady (receivedFrom 0 s.log)).2 = .waiting (s.dataOf 0)) := by
  obtain ⟨s, hrun, hs⟩ := exists_of_endsIn
    (p := fun s => decide ((dispatchedFor 0 s.log).length = 2 ∧ s.isOpen 0 = true)) (r := run .calm piecesRun)
    (by decide +kernel)
  exact ⟨s, hrun, of_decide_eq_true hs, commands_of_stream hrun 0⟩

end ApApps.Sand

import ApApps.Lib.Channel
import ApApps.Sandc.Receive
import ApApps.Sandc.Teardown

/- What a client is told, among everything else it does.

   `Receive` has the routine `run_internal` alone. Here it runs as one coroutine among the
   others: publications, pings and disconnects come between any two of its turns, writes
   wait for the socket, and another coroutine may close the connection while a read waits or
   its data has not been looked at. None of that touches `ins.data` (`Deaf`), so the calls
   of `on_connect` and `on_message` are those of the frames of the bytes that have been
   read, in order (`told_of_reads`).

   That holds as long as `run` is called once. With two of these routines the bytes of one
   read may get in front of those of an earlier one (`told_twice`). -/
namespace ApApps.Sandc
open Incremental ApApps.Redis ApApps.Sand Exec

/-- The call of a callback that the server has asked for. -/
def Out.isTold : Out → Bool
  | .onConnect => true
  | .onMessage _ _ => true
  | _ => false

/-- What the client has been told, oldest first. -/
def told (log : List Out) : List Out := log.filter Out.isTold

/-- What a frame tells the client. -/
def frameTells (frame : Bytes) : List Out :=
  match reaction frame with
  | .call out => out
  | .close _ => []

/-- A coroutine in `run_internal`. -/
def Co.reads : Co → Bool
  | .readHead => true
  | .reading => true
  | .gotRead _ _ => true
  | .recv _ => true
  | _ => false

def readers (cos : List Co) : List Co := cos.filter Co.reads

/-- Bytes that have been read and are not in `ins.data` yet. -/
def Co.pending : Co → Bytes
  | .gotRead data _ => data.getD []
  | _ => []

/-- Between two turns, when `on_recv` has nothing more to handle. -/
def Co.idle : Co → Bool
  | .readHead => true
  | .reading => true
  | _ => false

/-- The bytes an event brings. -/
def gets (s : Cli) : Event → Bytes
  | .readable i (.got data _) => if s.cos[i]? = some .reading then data.getD [] else []
  | _ => []

/-- `run` is called. -/
def Event.isRun : Event → Bool
  | .run => true
  | _ => false

theorem told_append (log log' : List Out) : told (log ++ log') = told log ++ told log' := List.filter_append _ _

theorem told_reaction {map : Fields} {out : List Out} (h : reactionOf map = .call out) : told out = out := by
  unfold reactionOf at h
  split at h
  · cases h
    rfl
  · split at h
    · split at h
      · cases h
        rfl
      · cases h
    · cases h
      rfl

theorem told_frameTells (frame : Bytes) : told (frameTells frame) = frameTells frame := by
  unfold frameTells
  cases hr : reaction frame with
  | close err => rfl
  | call out =>
    unfold reaction at hr
    cases hf : fieldsOf frame with
    | none =>
      rw [hf] at hr
      cases hr
    | some map =>
      rw [hf] at hr
      exact told_reaction hr

/-! ## A turn of on_recv -/

/-- A message that is handled is a frame off the front of the buffer. -/
theorem onRecv_handled {data rest : Bytes} {out : List Out} (h : onRecv data = .ok (.handled rest out)) :
    ∃ frame, data = frame ++ rest ∧ redisParseReady frame = .done frame.length ∧ frameTells frame = out := by
  have hne : data ≠ [] := by
    rintro rfl
    cases h
  cases hv : redisParseReady data with
  | incomplete =>
    rw [onRecv, if_neg hne, hv] at h
    cases h
  | invalid =>
    rw [onRecv, if_neg hne, hv] at h
    cases h
  | done p =>
    cases hid : knownId (data.take p) with
    | false =>
      obtain ⟨e, he⟩ := onRecv_unknown hv hid
      rw [he] at h
      cases h
    | true =>
      obtain ⟨rest', hrecv, hrest⟩ := onRecv_known hv hid
      rw [hrecv] at h
      cases hr : reaction (data.take p) with
      | close err =>
        rw [hr] at h
        cases h
      | call out' =>
        rw [hr] at h
        cases h
        obtain rfl := hrest _ hr
        obtain ⟨f, q, rfl, rfl⟩ := redisParseReady_eq_done_iff.mp hv
        refine ⟨f.bytes, by rw [List.drop_left], by simpa using redisParseReady_frame f [], ?_⟩
        rw [List.take_left] at hr
        rw [frameTells, hr]

/-- When nothing is handled there is no whole frame in the buffer. -/
theorem cut_of_idle {data : Bytes} (h : onRecv data = .ok .idle) : cut redisParseReady data = ([], .waiting data) := by
  by_cases hnil : data = []
  · rw [hnil]
    rfl
  · rw [cut_step stableVerdict_redisParseReady hnil]
    cases hv : redisParseReady data with
    | incomplete => rfl
    | invalid =>
      rw [onRecv, if_neg hnil, hv] at h
      cases h
    | done p =>
      cases hid : knownId (data.take p) with
      | false =>
        obtain ⟨e, he⟩ := onRecv_unknown hv hid
        rw [he] at h
        cases h
      | true =>
        obtain ⟨rest, hrecv, -⟩ := onRecv_known hv hid
        rw [hrecv] at h
        cases hr : reaction (data.take p) with
        | call out =>
          rw [hr] at h
          cases h
        | close err =>
          rw [hr] at h
          cases h

/-! ## What has nothing to do with reading -/

/-- `ins.data`, what the client has been told, and the routine that reads are as before; more
may have been sent. -/
structure Aside (s s' : Cli) : Prop where
  data : s'.data = s.data
  told : told s'.log = told s.log
  readers : readers s'.cos = readers s.cos
  sent : s.sent <+: s'.sent

/-- From every state, whether it returns or raises. -/
def Deaf {α : Type} (x : M α) : Prop := ∀ s, Aside s (finalState (x s))

section Deaf
variable {α β : Type} {s s1 s2 : Cli}

theorem Aside.refl (s : Cli) : Aside s s := ⟨rfl, rfl, rfl, List.prefix_refl _⟩

theorem Aside.trans (h : Aside s s1) (h' : Aside s1 s2) : Aside s s2 :=
  ⟨h'.data.trans h.data, h'.told.trans h.told, h'.readers.trans h.readers, h.sent.trans h'.sent⟩

theorem deaf_pure (a : α) : Deaf (pure a) := fun s => .refl s

theorem deaf_throw (e : LuaError) : Deaf (throw e : M α) := fun s => .refl s

theorem deaf_get : Deaf (get : M Cli) := fun s => .refl s

theorem Deaf.bind {x : M α} {f : α → M β} (hx : Deaf x) (hf : ∀ a, Deaf (f a)) : Deaf (x >>= f) := by
  intro s
  refine always_bind (hx s) fun a s1 h1 => ?_
  have hs1 := hx s
  rw [h1] at hs1
  exact hs1.trans (hf a s1)

theorem deaf_modify {f : Cli → Cli} (hf : ∀ s, Aside s (f s)) : Deaf (modify f) := hf

theorem deaf_emit {out : Out} (hout : out.isTold = false) : Deaf (emit out) :=
  deaf_modify fun s => ⟨rfl, by simp [told, hout], rfl, List.prefix_refl _⟩

theorem deaf_suspend {co : Co} (hco : co.reads = false) : Deaf (suspend co) :=
  deaf_modify fun s => ⟨rfl, rfl, by simp [readers, hco], List.prefix_refl _⟩

theorem deaf_seClose (fd : Option Fd) : Deaf (seClose fd) := by
  cases fd with
  | none => exact deaf_throw _
  | some fd => exact .bind (deaf_emit rfl) fun _ => deaf_modify fun _ => ⟨rfl, rfl, rfl, List.prefix_refl _⟩

theorem deaf_closeClient (err : Bytes) : Deaf (closeClient err) := by
  unfold closeClient
  refine .bind deaf_get fun s => .bind (deaf_seClose s.client) fun _ => .bind (deaf_modify fun _ => ?_) fun _ => ?_
  · exact ⟨rfl, rfl, rfl, List.prefix_refl _⟩
  · exact deaf_emit rfl

theorem deaf_afterWrite (k : Kont) (err : Option Bytes) : Deaf (afterWrite k err) := by
  cases k with
  | connect cli =>
    cases err with
    | none => exact .bind (deaf_modify fun _ => ⟨rfl, rfl, rfl, List.prefix_refl _⟩) fun _ => deaf_emit rfl
    | some err => exact .bind (deaf_seClose _) fun _ => deaf_modify fun _ => ⟨rfl, rfl, rfl, List.prefix_refl _⟩
  | publish =>
    cases err with
    | none => exact deaf_pure ()
    | some err => exact deaf_closeClient err
  | disconnect =>
    refine .bind deaf_get fun s => .bind (deaf_seClose s.client) fun _ => .bind (deaf_modify fun _ => ?_) fun _ => ?_
    · exact ⟨rfl, rfl, rfl, List.prefix_refl _⟩
    · exact deaf_emit rfl
  | ping =>
    cases err with
    | none => exact deaf_suspend rfl
    | some err => exact deaf_closeClient err

theorem deaf_tryWrite (p : Pending) (out : WriteOut) : Deaf (tryWrite p out) := by
  cases out with
  | wrote n =>
    refine .bind (deaf_modify fun s => ⟨rfl, rfl, rfl, ?_⟩) fun _ => deaf_pure _
    show s.sent <+: if s.isOpen then _ else _
    split
    · exact List.prefix_append _ _
    · exact List.prefix_refl _
  | again => exact deaf_pure _
  | failed err => exact .bind (deaf_modify fun _ => ⟨rfl, rfl, rfl, List.prefix_refl _⟩) fun _ => deaf_pure _
  | badf => exact deaf_throw _

theorem deaf_seWrite (k : Kont) (client : Option Fd) (data : Bytes) (out : WriteOut) :
    Deaf (seWrite k client data out) := by
  cases client with
  | none => exact deaf_throw _
  | some fd =>
    refine .bind (deaf_tryWrite ⟨data, 0⟩ out) fun res => ?_
    cases res with
    | done err => exact deaf_afterWrite k err
    | wait p => exact deaf_suspend rfl

theorem deaf_buildFrame (env : Env) (map : List (Bytes × Bytes)) : Deaf (buildFrame env map) := by
  intro s
  unfold buildFrame
  cases encode (env.pairs map) <;> exact .refl s

/-- A frame is built and written. -/
theorem deaf_send (env : Env) (map : List (Bytes × Bytes)) (k : Kont) (out : WriteOut) :
    Deaf (do
      let frame ← buildFrame env map
      seWrite k (← get).client frame out) :=
  .bind (deaf_buildFrame env map) fun frame => .bind deaf_get fun s => deaf_seWrite k s.client frame out

theorem deaf_lift (x : Except LuaError Unit) : Deaf (lift x) := by
  cases x with
  | ok a => exact deaf_pure _
  | error e => exact deaf_throw e

theorem deaf_publish (env : Env) (topic payload : Bytes) (out : WriteOut) : Deaf (publish env topic payload out) := by
  unfold publish
  refine .bind deaf_get fun s => ?_
  by_cases hstop : s.state = .stStop
  · rw [if_pos hstop]
    exact deaf_pure ()
  · rw [if_neg hstop]
    exact deaf_send env _ _ _

theorem deaf_disconnect (env : Env) (out : WriteOut) : Deaf (disconnect env out) := by
  unfold disconnect
  refine .bind deaf_get fun s => ?_
  by_cases hrun : s.state ≠ .stRun
  · rw [if_pos hrun]
    exact deaf_pure ()
  · rw [if_neg hrun]
    exact deaf_send env _ _ _

theorem deaf_connect (env : Env) (cli : Option Fd) (out : WriteOut) : Deaf (connect env cli out) := by
  unfold connect
  refine .bind (deaf_modify fun _ => ⟨rfl, rfl, rfl, List.prefix_refl _⟩) fun _ => ?_
  cases cli with
  | none => exact deaf_pure ()
  | some fd =>
    refine .bind (deaf_emit rfl) fun _ => .bind (deaf_modify fun _ => ⟨rfl, rfl, rfl, List.prefix_refl _⟩) fun _ => .bind deaf_get fun s => ?_
    by_cases hparam : checkParam s.param = false
    · simp only [if_pos hparam]
      exact deaf_pure ()
    · simp only [if_neg hparam]
      exact .bind (deaf_lift _) fun _ => .bind (deaf_lift _) fun _ => .bind (deaf_buildFrame _ _) fun frame =>
        deaf_seWrite _ _ _ _

theorem deaf_pingHead (env : Env) (late due : Bool) (out : WriteOut) : Deaf (pingHead env late due out) := by
  unfold pingHead
  refine .bind deaf_get fun s => ?_
  by_cases hstop : s.state = .stStop
  · rw [if_pos hstop]
    exact deaf_pure ()
  · rw [if_neg hstop]
    cases late with
    | true => exact deaf_closeClient _
    | false =>
      cases due with
      | true => exact deaf_send env _ _ _
      | false => exact deaf_suspend rfl

end Deaf

/-! ## The routine that reads -/

/-- `frames` have been handled. If the routine still runs, the bytes read after them wait in
its hands, and there is no whole frame among those when it is about to read again. -/
def Reached (s : Cli) (inbox : Bytes) (frames : List Bytes) : Prop :=
  (∀ f ∈ frames, redisParseReady f = .done f.length) ∧ told s.log = frames.flatMap frameTells ∧
    ∃ tail, inbox = frames.flatten ++ tail ∧ ∀ co ∈ readers s.cos, tail = s.data ++ co.pending ∧
      (co.idle = true → cut redisParseReady s.data = ([], .waiting s.data))

/-- The client has read `inbox`; `started` tells whether `run` has been called. -/
structure Reader (s : Cli) (started : Bool) (inbox : Bytes) : Prop where
  fresh : started = false → s.data = [] ∧ readers s.cos = [] ∧ inbox = [] ∧ told s.log = []
  single : (readers s.cos).length ≤ 1
  reached : ∃ frames, Reached s inbox frames

section Reader
variable {env : Env} {s s' : Cli} {started : Bool} {inbox : Bytes} {cos : List Co} {i : Nat} {co : Co}

theorem reader_new (param : Param) : Reader (.new param) false [] where
  fresh := fun _ => ⟨rfl, rfl, rfl, rfl⟩
  single := Nat.zero_le 1
  reached := ⟨[], by simp, rfl, [], rfl, fun co hco => by cases hco⟩

theorem Reader.aside (h : Reader s started inbox) (ha : Aside s s') : Reader s' started inbox where
  fresh := by
    intro hfresh
    rw [ha.data, ha.readers, ha.told]
    exact h.fresh hfresh
  single := by
    rw [ha.readers]
    exact h.single
  reached := by
    obtain ⟨frames, hwhole, htold, tail, hinbox, hcos⟩ := h.reached
    refine ⟨frames, hwhole, ha.told.trans htold, tail, hinbox, fun co hco => ?_⟩
    rw [ha.readers] at hco
    rw [ha.data]
    exact hcos co hco

theorem readers_eraseIdx (hi : cos[i]? = some co) (hco : co.reads = false) :
    readers (cos.eraseIdx i) = readers cos := by
  obtain ⟨hlt, hget⟩ := List.getElem?_eq_some_iff.mp hi
  calc readers (cos.eraseIdx i)
      = readers (cos.take i) ++ readers (cos.drop (i + 1)) := by
        rw [List.eraseIdx_eq_take_drop_succ]
        exact List.filter_append _ _
    _ = readers (cos.take i) ++ readers (co :: cos.drop (i + 1)) := by
        rw [readers, readers, readers, List.filter_cons_of_neg (by simp [hco])]
    _ = readers cos := by
        rw [← hget, ← List.drop_eq_getElem_cons hlt]
        exact (List.filter_append _ _).symm.trans (congrArg readers (List.take_append_drop i cos))

/-- The one routine that reads, taken out of the list. -/
theorem Reader.taken (h : Reader s started inbox) (hi : s.cos[i]? = some co) (hco : co.reads = true) :
    readers (s.cos.eraseIdx i) = [] ∧ co ∈ readers s.cos := by
  have hmem : co ∈ readers s.cos := List.mem_filter.mpr ⟨List.mem_of_getElem? hi, hco⟩
  have hperm : s.cos.Perm (co :: s.cos.eraseIdx i) := by
    obtain ⟨hlt, rfl⟩ := List.getElem?_eq_some_iff.mp hi
    exact (List.getElem_cons_eraseIdx_perm hlt).symm
  have hlen : (readers s.cos).length = (readers (s.cos.eraseIdx i)).length + 1 := by
    calc (readers s.cos).length
        = (readers (co :: s.cos.eraseIdx i)).length := (hperm.filter _).length_eq
      _ = (readers (s.cos.eraseIdx i)).length + 1 := by simp [readers, hco]
  have hone := h.single
  exact ⟨List.eq_nil_of_length_eq_zero (by omega), hmem⟩

theorem aside_erased (hi : s.cos[i]? = some co) (hco : co.reads = false) :
    Aside s { s with cos := s.cos.eraseIdx i } := ⟨rfl, rfl, readers_eraseIdx hi hco, List.prefix_refl _⟩

/-- Without a routine that reads the rest of what has been read is left. -/
theorem Reached.left {frames : List Bytes} (h : Reached s inbox frames) (htold : told s'.log = told s.log)
    (hnone : readers s'.cos = []) : Reached s' inbox frames := by
  obtain ⟨hwhole, hlog, tail, hinbox, -⟩ := h
  refine ⟨hwhole, htold.trans hlog, tail, hinbox, fun co hco => ?_⟩
  rw [hnone] at hco
  cases hco

/-- After `run` has been called, the state from which the routine goes on. -/
theorem Reader.of_reached (hstarted : started = true) (hone : (readers s.cos).length ≤ 1)
    (h : ∃ frames, Reached s inbox frames) : Reader s started inbox where
  fresh := fun hfresh => by
    rw [hstarted] at hfresh
    cases hfresh
  single := hone
  reached := h

/-- A routine that reads is there only after `run`. -/
theorem Reader.begun_of_mem (h : Reader s started inbox) (hco : co ∈ readers s.cos) : started = true := by
  cases hs : started with
  | true => rfl
  | false =>
    obtain ⟨-, hnone, -⟩ := h.fresh hs
    rw [hnone] at hco
    cases hco

/-- The routine goes on at `co'`, with what it has in its hands. -/
theorem Reached.at {frames : List Bytes} {tail : Bytes} {co' : Co} (hwhole : ∀ f ∈ frames, redisParseReady f = .done f.length)
    (htold : told s'.log = frames.flatMap frameTells) (hinbox : inbox = frames.flatten ++ tail)
    (hcos : readers s'.cos = [co']) (htail : tail = s'.data ++ co'.pending)
    (hidle : co'.idle = true → cut redisParseReady s'.data = ([], .waiting s'.data)) : Reached s' inbox frames := by
  refine ⟨hwhole, htold, tail, hinbox, fun co hco => ?_⟩
  rw [hcos, List.mem_singleton] at hco
  subst hco
  exact ⟨htail, hidle⟩

/-- **A coroutine goes on.** -/
theorem Reader.goOn (h : Reader s started inbox) (hi : s.cos[i]? = some co) (late due : Bool) (out : WriteOut) :
    Reader (finalState (goOn env late due out co { s with cos := s.cos.eraseIdx i })) started inbox := by
  cases hco : co.reads with
  | false =>
    have herased := h.aside (aside_erased hi hco)
    cases co with
    | write k p => exact herased.aside (deaf_suspend rfl _)
    | wrote k err => exact herased.aside (deaf_afterWrite k err _)
    | pingHead => exact herased.aside (deaf_pingHead env late due out _)
    | readHead | reading | gotRead | recv => cases hco
  | true =>
    obtain ⟨hnone, hmem⟩ := h.taken hi hco
    have hstarted := h.begun_of_mem hmem
    obtain ⟨frames, hreached⟩ := h.reached
    have hleft : Reached { s with cos := s.cos.eraseIdx i } inbox frames := hreached.left rfl hnone
    obtain ⟨hwhole, htold, tail, hinbox, hcos⟩ := hreached
    obtain ⟨htail, hidle⟩ := hcos co hmem
    -- it is the only one, so the list is what it is replaced by
    have hagain : ∀ co' : Co, co'.reads = true → readers (co' :: s.cos.eraseIdx i) = [co'] := by
      intro co' hco'
      rw [readers, List.filter_cons_of_pos hco']
      exact congrArg (co' :: ·) hnone
    have hdone : ∀ s' : Cli, told s'.log = told s.log → readers s'.cos = [] → Reader s' started inbox :=
      fun s' hlog hnil => .of_reached hstarted (by simp [hnil]) ⟨frames, hleft.left hlog hnil⟩
    have hon : ∀ (s' : Cli) (frames' : List Bytes) (tail' : Bytes) (co' : Co), co'.reads = true →
        (∀ f ∈ frames', redisParseReady f = .done f.length) → told s'.log = frames'.flatMap frameTells →
        inbox = frames'.flatten ++ tail' → s'.cos = co' :: s.cos.eraseIdx i → tail' = s'.data ++ co'.pending →
        (co'.idle = true → cut redisParseReady s'.data = ([], .waiting s'.data)) → Reader s' started inbox := by
      intro s' frames' tail' co' hreads hw ht hin hc htl hid
      have hlist : readers s'.cos = [co'] := by rw [hc, hagain co' hreads]
      exact .of_reached hstarted (by simp [hlist]) ⟨frames', .at hw ht hin hlist htl hid⟩
    cases co with
    | write | wrote | pingHead => cases hco
    | reading => exact hon _ frames tail .reading rfl hwhole htold hinbox rfl htail hidle
    | gotRead data rerr =>
      refine hon _ frames tail (.recv rerr) rfl hwhole htold hinbox rfl ?_ fun hid => by cases hid
      rw [htail]
      exact (List.append_nil _).symm
    | readHead =>
      show Reader (finalState (readHead _)) started inbox
      unfold Sandc.readHead
      rw [bind_of_ok (get_ok _)]
      by_cases hstop : s.state = .stStop
      · rw [if_pos hstop]
        exact hdone _ rfl hnone
      · rw [if_neg hstop, bind_of_ok (get_ok _)]
        dsimp only
        cases s.client with
        | none => exact hdone _ rfl hnone
        | some fd => exact hon _ frames tail .reading rfl hwhole htold hinbox rfl htail hidle
    | recv rerr =>
      rw [show tail = s.data from htail.trans (List.append_nil _)] at hinbox
      show Reader (finalState (recvStep rerr _)) started inbox
      unfold Sandc.recvStep
      rw [bind_of_ok (get_ok _)]
      cases hrecv : onRecv s.data with
      | error e => exact hdone _ rfl hnone
      | ok res =>
        cases res with
        | handled rest outs =>
          obtain ⟨f, hdata, hf, htells⟩ := onRecv_handled hrecv
          refine hon _ (frames ++ [f]) rest (.recv rerr) rfl ?_ ?_ ?_ rfl (List.append_nil rest).symm
            fun hid => by cases hid
          · intro f' hf'
            rcases List.mem_append.mp hf' with hf' | hf'
            · exact hwhole f' hf'
            · rw [List.mem_singleton.mp hf']
              exact hf
          · show told (s.log ++ outs) = _
            rw [told_append, htold, ← htells, told_frameTells, List.flatMap_append]
            simp
          · rw [hinbox, hdata, List.flatten_append]
            simp
        | fail rest err =>
          have hclose := deaf_closeClient err { s with cos := s.cos.eraseIdx i, data := rest }
          exact hdone _ hclose.told (hclose.readers.trans hnone)
        | idle =>
          have hcut := cut_of_idle hrecv
          have hhead : Reader { s with cos := .readHead :: s.cos.eraseIdx i } started inbox :=
            hon _ frames s.data .readHead rfl hwhole htold hinbox rfl (List.append_nil _).symm fun _ => hcut
          cases rerr with
          | none => exact hhead
          | some err =>
            by_cases htimeout : err = ascii "TIMEOUT"
            · simp only [htimeout, if_true]
              exact hhead
            · simp only [htimeout, if_false]
              have hclose := deaf_closeClient err { s with cos := s.cos.eraseIdx i }
              exact hdone _ hclose.told (hclose.readers.trans hnone)

/-- **A read brings bytes**; nothing else does. -/
theorem Reader.readable (h : Reader s started inbox) (i : Nat) (out : ReadOut) :
    Reader (finalState (handle env (.readable i out) s)) started (inbox ++ gets s (.readable i out)) := by
  unfold Sandc.handle
  simp only
  rw [bind_of_ok (get_ok s)]
  cases hi : s.cos[i]? with
  | none =>
    have hgets : gets s (.readable i out) = [] := by cases out <;> simp [gets, hi]
    rw [hgets, List.append_nil]
    cases out <;> exact h
  | some co =>
    by_cases hreading : co = .reading
    · subst hreading
      cases out with
      | badf =>
        rw [show gets s (.readable i .badf) = [] from rfl, List.append_nil]
        exact h
      | got data rerr =>
        obtain ⟨hnone, hmem⟩ := h.taken hi rfl
        have hstarted := h.begun_of_mem hmem
        obtain ⟨frames, hwhole, htold, tail, hinbox, hcos⟩ := h.reached
        obtain ⟨htail, -⟩ := hcos .reading hmem
        rw [show tail = s.data from htail.trans (List.append_nil _)] at hinbox
        have hlist : readers (.gotRead data rerr :: s.cos.eraseIdx i) = [.gotRead data rerr] := by
          rw [readers, List.filter_cons_of_pos rfl]
          exact congrArg (_ :: ·) hnone
        have hgets : gets s (.readable i (.got data rerr)) = data.getD [] := if_pos hi
        rw [hgets]
        refine .of_reached hstarted ?_ ⟨frames, .at hwhole htold ?_ hlist rfl fun hid => by cases hid⟩
        · show (readers (.gotRead data rerr :: s.cos.eraseIdx i)).length ≤ 1
          rw [hlist]
          exact Nat.le_refl 1
        · rw [hinbox, List.append_assoc]
          rfl
    · have hgets : gets s (.readable i out) = [] := by
        cases out with
        | badf => rfl
        | got data rerr =>
          refine if_neg fun hsome => hreading ?_
          rw [hi] at hsome
          exact Option.some.inj hsome
      rw [hgets, List.append_nil]
      cases co with
      | reading => exact absurd rfl hreading
      | write | wrote | pingHead | readHead | gotRead | recv => cases out <;> exact h

/-- **What an event does to what the client is told.** -/
theorem Reader.step (h : Reader s started inbox) {ev : Event} (hrun : ev.isRun = true → started = false) :
    Reader (finalState (step env ev s)) (started || ev.isRun) (inbox ++ gets s ev) := by
  unfold Sandc.step
  cases henabled : enabled s ev with
  | false =>
    have hnot : ev.isRun = false := by
      cases ev with
      | run => simp [enabled, Event.badf] at henabled
      | connect | publish | disconnect | io | readable | resume => rfl
    have hgets : gets s ev = [] := by
      cases ev with
      | readable i out =>
        cases out with
        | badf => rfl
        | got data rerr => simp [enabled, Event.badf] at henabled
      | connect | publish | disconnect | run | io | resume => rfl
    rw [hnot, hgets, Bool.or_false, List.append_nil]
    exact h
  | true =>
    simp only [if_true]
    by_cases hev : ev = .run
    · -- nothing has been read yet
      subst hev
      obtain ⟨hdata, hnone, hinbox, htold⟩ := h.fresh (hrun rfl)
      have hlist : readers (.readHead :: .pingHead :: s.cos) = [.readHead] := by
        rw [readers, List.filter_cons_of_pos rfl, List.filter_cons_of_neg (by decide)]
        exact congrArg (_ :: ·) hnone
      rw [show gets s .run = [] from rfl, List.append_nil, hinbox]
      have hwhole : ∀ f ∈ ([] : List Bytes), redisParseReady f = .done f.length := by
        simp
      refine .of_reached (Bool.or_true _) ?_ ⟨[], .at hwhole htold rfl hlist ?_ fun _ => ?_⟩
      · show (readers (.readHead :: .pingHead :: s.cos)).length ≤ 1
        rw [hlist]
        exact Nat.le_refl 1
      · show [] = s.data ++ _
        rw [hdata]
        rfl
      · show cut redisParseReady s.data = ([], .waiting s.data)
        rw [hdata]
        rfl
    · have hnot : ev.isRun = false := by
        cases ev with
        | run => exact absurd rfl hev
        | connect | publish | disconnect | io | readable | resume => rfl
      rw [hnot, Bool.or_false]
      cases ev with
      | run => exact absurd rfl hev
      | readable i out => exact h.readable i out
      | connect cli out =>
        rw [show gets s (.connect cli out) = [] from rfl, List.append_nil]
        exact h.aside (deaf_connect env cli out s)
      | publish topic payload out =>
        rw [show gets s (.publish topic payload out) = [] from rfl, List.append_nil]
        exact h.aside (deaf_publish env topic payload out s)
      | disconnect out =>
        rw [show gets s (.disconnect out) = [] from rfl, List.append_nil]
        exact h.aside (deaf_disconnect env out s)
      | io i out =>
        rw [show gets s (.io i out) = [] from rfl, List.append_nil]
        unfold Sandc.handle
        simp only
        rw [bind_of_ok (get_ok s)]
        cases hi : s.cos[i]? with
        | none => exact h
        | some co =>
          cases co with
          | write k p =>
            simp only
            rw [bind_of_ok (modify_ok _ s)]
            refine (h.aside (aside_erased hi rfl)).aside (((deaf_tryWrite p out).bind fun res => ?_) _)
            cases res with
            | done err => exact deaf_suspend rfl
            | wait p => exact deaf_suspend rfl
          | wrote | pingHead | readHead | reading | gotRead | recv => exact h
      | resume i late due out =>
        rw [show gets s (.resume i late due out) = [] from rfl, List.append_nil]
        unfold Sandc.handle
        simp only
        rw [bind_of_ok (get_ok s)]
        cases hi : s.cos[i]? with
        | none => exact h
        | some co =>
          simp only
          rw [bind_of_ok (modify_ok _ s)]
          exact h.goOn hi late due out

end Reader

/-! ## Runs -/

/-- The bytes that are read in a run. -/
def inboxOf (env : Env) : Cli → List Event → Bytes
  | _, [] => []
  | s, ev :: evs => gets s ev ++
    match step env ev s with
    | .ok () s' => inboxOf env s' evs
    | .error _ _ => []

/-- From any state on, as long as `run` is not called a second time. -/
theorem reader_of_run {env : Env} {s : Cli} {started : Bool} {inbox : Bytes} (h : Reader s started inbox)
    {evs : List Event} (honce : started.toNat + evs.countP Event.isRun ≤ 1) :
    ∃ started', Reader (finalState (runAll (step env) evs s)) started' (inbox ++ inboxOf env s evs) := by
  induction evs generalizing s started inbox with
  | nil =>
    rw [inboxOf, List.append_nil]
    exact ⟨started, h⟩
  | cons ev evs ih =>
    rw [List.countP_cons] at honce
    have hstep : Reader (finalState (step env ev s)) (started || ev.isRun) (inbox ++ gets s ev) := by
      refine h.step fun hrun => ?_
      rw [if_pos hrun] at honce
      cases started with
      | false => rfl
      | true =>
        rw [Bool.toNat_true] at honce
        omega
    rw [inboxOf, ← List.append_assoc]
    cases hs : step env ev s with
    | error e s' =>
      rw [finalState_cons_error hs]
      rw [hs] at hstep
      simp only [List.append_nil]
      exact ⟨_, hstep⟩
    | ok u s' =>
      rw [finalState_cons_ok hs]
      rw [hs] at hstep
      refine ih hstep ?_
      cases hrun : ev.isRun <;> cases started <;> simp_all

/-- **What a client is told is what it has read.** In every run in which `run` is called once,
whatever else the coroutines do and in whatever order they go on, the calls of `on_connect`
and `on_message` are those of the first of the frames of the bytes that have been read; and of
all of them when the client waits for more. -/
theorem told_of_reads (env : Env) (param : Param) {evs : List Event} (honce : evs.countP Event.isRun ≤ 1) :
    told (finalState (run env param evs)).log <+:
        (cut redisParseReady (inboxOf env (.new param) evs)).1.flatMap frameTells ∧
      (.reading ∈ (finalState (run env param evs)).cos →
        told (finalState (run env param evs)).log =
          (cut redisParseReady (inboxOf env (.new param) evs)).1.flatMap frameTells) := by
  have hzero : false.toNat + evs.countP Event.isRun ≤ 1 := by simpa using honce
  obtain ⟨started, hend⟩ : ∃ started, Reader (finalState (run env param evs)) started ([] ++ inboxOf env (.new param) evs) :=
    reader_of_run (reader_new param) hzero
  obtain ⟨frames, hwhole, htold, tail, hinbox, hcos⟩ := hend.reached
  rw [List.nil_append] at hinbox
  rw [hinbox, Channel.cut_frames stableVerdict_redisParseReady hwhole tail]
  refine ⟨?_, fun hmem => ?_⟩
  · rw [htold, List.flatMap_append]
    exact List.prefix_append _ _
  · obtain ⟨htail, hidle⟩ := hcos .reading (List.mem_filter.mpr ⟨hmem, rfl⟩)
    have hdata : tail = (finalState (run env param evs)).data := htail.trans (List.append_nil _)
    rw [hdata, hidle rfl, htold]
    simp

/-- The frame of a publication, in two pieces. -/
def halves : Bytes × Bytes := ((encode (pbFields (ascii "t") (ascii "x"))).toOption.getD []).splitAt 9

/-- Two pieces of a frame, and between them a publication of the client's own. -/
def halvesRun : List Event :=
  [.connect (some 5) (.wrote 1000), .run, .resume 0 false false .again, .readable 0 (.got (some halves.1) none),
    .publish (ascii "t") (ascii "y") (.wrote 1000), .resume 0 false false .again, .resume 0 false false .again,
    .resume 0 false false .again, .readable 0 (.got (some halves.2) none), .resume 0 false false .again,
    .resume 0 false false .again, .resume 0 false false .again, .resume 0 false false .again]

theorem told_of_reads_halves :
    (told (finalState (run .plain goodParam halvesRun)).log = [.onMessage (some (ascii "t")) (some (ascii "x"))] ∧
      .reading ∈ (finalState (run .plain goodParam halvesRun)).cos) ∧
    told (finalState (run .plain goodParam halvesRun)).log <+:
        (cut redisParseReady (inboxOf .plain (.new goodParam) halvesRun)).1.flatMap frameTells ∧
      (.reading ∈ (finalState (run .plain goodParam halvesRun)).cos →
        told (finalState (run .plain goodParam halvesRun)).log =
          (cut redisParseReady (inboxOf .plain (.new goodParam) halvesRun)).1.flatMap frameTells) :=
  ⟨by decide +kernel, told_of_reads .plain goodParam (by decide)⟩

/-- `run` is called twice, and the second piece gets in front of the first. -/
def twiceRun : List Event :=
  [.connect (some 5) (.wrote 1000), .run, .run, .resume 0 false false .again, .resume 2 false false .again,
    .readable 1 (.got (some halves.1) none), .readable 1 (.got (some halves.2) none),
    .resume 0 false false .again, .resume 1 false false .again, .resume 0 false false .again]

/-- The client closes the connection for a message that came in order. -/
theorem told_twice : (cut redisParseReady (inboxOf .plain (.new goodParam) twiceRun)).1.length = 1 ∧
    (finalState (run .plain goodParam twiceRun)).log.getLast? = some (.onDisconnect 1 (ascii "parse error")) := by
  decide +kernel

end ApApps.Sandc

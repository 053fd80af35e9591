import ApApps.Mredis.Queue
import ApApps.Nredis.RoundTrip

/- Redis calls are served one at a time and in order, each with its own reply.

   Who is inside `rds:call`, and in which order, is settled whatever happens (`Turn`). That
   what is read there answers one's own command needs a connection on which nothing is left
   over (`Linked`), and nredis.lua does not restore that: a reply whose line end is torn by
   two pieces is an error to the caller, but what follows it stays in the reader and answers
   the next command (`torn_shifts`), and after half a command, or one that `%s` has cut, the
   server is out of step. `Fits` is what rules that out. Only an error of the stream itself is
   safe, as the reader keeps it and every later call fails.

   A command for the other instance raises in its caller's turn, which then never ends
   (`blpop_strands`); without a `pcall` it ends `se.run` instead. -/
namespace ApApps.Mredis
open Exec Pieces ApApps.Bufio ApApps.Nredis

/-- What the callers, the server and the network keep to. Once the reader has failed, the last
two do not matter any more. -/
def Fits (isblpop : Bool) (s : St) : Event → Prop
  | .call c => suits isblpop c = true ∧ c.intact = true
  | .wrote _ text => s.conn.err.isSome ∨ ∃ obj t, Resp obj t ∧ t.bytes = text
  | .failed _ _ sent => s.conn.err.isSome ∨ sent = 0
  | .answered _ pieces _ => s.conn.err.isSome ∨ ∀ obj t, Resp obj t → t.bytes = s.conn.inflight → t.Unsplit pieces
  | .wake _ | .check => True

/-- In a run, every event does. -/
def Fitting (isblpop : Bool) : St → List Event → Prop
  | _, [] => True
  | s, e :: es => Fits isblpop s e ∧ Fitting isblpop (step s e) es

/-- `obj` is what `text` says. -/
def Says (text : Option Bytes) (obj : Obj) : Prop := ∃ t, text = some t.bytes ∧ Resp obj t

/-- Redis calls are served one at a time and in order. -/
structure Served (isblpop : Bool) (s : St) : Prop where
  exclusive : ∀ i j, (s.phase i).inside = true → (s.phase j).inside = true → i = j
  /-- whoever has got in, those before it have returned -/
  in_order : ∀ i j, j < i → (s.phase i).entered = true → ∃ c res, s.phase j = .returned c res
  /-- a value is what the server has answered to this caller's command -/
  own : ∀ i c obj, s.phase i = .returned c (.ok obj) → Says (s.conn.replies i) obj
  current : s.ins.cache ≠ [] → s.ins.currentItem.isSome = true
  /-- whoever waits can still get in -/
  not_stranded : ∀ i c, s.phase i = .waiting c →
    ∃ es, Fitting isblpop s es ∧ ((run s es).phase i).entered = true

/-! ## One reply -/

/-- The reader has not failed, and has nothing left. -/
def Conn.Used (conn : Conn) : Prop := (conn.reader [] []).Open []

theorem Conn.Used.err {conn : Conn} (h : conn.Used) : conn.err = none := h.no_err

/-- As long as the reader has not failed, what a condition asks for matters. -/
theorem Conn.Used.resolve {conn : Conn} (h : conn.Used) {P : Prop} (hP : conn.err.isSome ∨ P) : P := by
  refine hP.resolve_left ?_
  simp [h.err]

theorem Conn.Used.at_reader {conn : Conn} (h : conn.Used) (pieces : List Bytes) (fin : Bytes) :
    (conn.reader pieces fin).At [] pieces fin :=
  have hfd : ¬ (conn.fd : Int) < 0 := by omega
  ⟨⟨h.no_err, h.buffered⟩, if_neg hfd, if_neg hfd⟩

/-- With one reply in flight, either that is read and nothing is left, or the reader fails. -/
theorem read_reply {conn : Conn} {obj : Obj} {t : Text} (hused : conn.Used) (hresp : Resp obj t)
    (hflight : conn.inflight = t.bytes) {pieces : List Bytes} (hpre : pieces.flatten <+: conn.inflight)
    (hun : t.Unsplit pieces) (fin : Bytes) :
    ∃ res r, redisReadObject conn.depth (conn.reader pieces fin) = .ok res r ∧
      (((∃ err, res = .error err) ∧ (conn.after pieces r).err = some fin) ∨
        (res = .ok obj ∧ (conn.after pieces r).Used ∧ (conn.after pieces r).inflight = [])) := by
  have htakes := resp_takes hresp conn.depth (by rw [Conn.depth, hflight]; omega)
  have hat := hused.at_reader pieces fin
  have hflatten : ([] :: pieces).flatten = pieces.flatten := List.nil_append _
  rw [hflight] at hpre
  by_cases hlt : pieces.flatten.length < t.bytes.length
  · -- the stream ends inside of the reply
    obtain ⟨r, hr, herr⟩ := htakes.cut _ _ _ _ hat (hflatten ▸ hpre) (hflatten ▸ hlt) hun.cons_nil
    exact ⟨_, r, hr, .inl ⟨⟨_, rfl⟩, herr⟩⟩
  · -- the whole reply is there
    have hall : pieces.flatten = t.bytes := hpre.eq_of_length_le (by omega)
    obtain ⟨r, q, qs, hr, hdrop, h'⟩ := htakes.whole _ _ _ [] _ hat (by rw [hflatten, hall, List.append_nil]) hun.cons_nil
    have hnil : q ++ qs.flatten = [] := by
      have hqs := flatten_dropPieces t.bytes.length ([] :: pieces)
      rw [hdrop, hflatten, hall, List.drop_length] at hqs
      exact hqs
    obtain ⟨rfl, hqs⟩ := List.append_eq_nil_iff.mp hnil
    refine ⟨_, r, hr, .inr ⟨rfl, ⟨h'.opened.no_err, h'.opened.buffered⟩, ?_⟩⟩
    show r.coming.flatten ++ conn.inflight.drop pieces.flatten.length = []
    rw [h'.coming, hqs, hall, hflight, List.drop_length]
    rfl

/-- After a failure every reply fails. -/
theorem read_failed {conn : Conn} {e : Bytes} (h : conn.err = some e) (pieces : List Bytes) (fin : Bytes) :
    redisReadObject conn.depth (conn.reader pieces fin) = .ok (.error (some e)) (conn.reader pieces fin) := by
  have hread : readerRead 1 (conn.reader pieces fin) = .ok (.error (some e)) (conn.reader pieces fin) := by
    unfold readerRead
    rw [if_pos Nat.one_pos, bind_of_ok (turns_ok _)]
    exact refillLoop_failed lookBytes h _ 1 []
  unfold Conn.depth redisReadObject
  rw [bind_of_ok hread]
  rfl

/-! ## The callers -/

/-- What a caller has to show for where it is; `reply` is the server's answer to it. -/
def PhaseOk (isblpop : Bool) (reply : Option Bytes) : Phase → Prop
  | .absent | .reading _ => True
  | .waiting c => suits isblpop c = true ∧ c.intact = true
  | .writing c => c.intact = true
  | .returned _ res => ∀ obj, res = .ok obj → Says reply obj
  | .raised => False

structure Sound (isblpop : Bool) (s : St) : Prop where
  kind : s.ins.isblpop = isblpop
  phases : ∀ i, PhaseOk isblpop (s.conn.replies i) (s.phase i)

section Callers
variable {isblpop : Bool} {s : St}

theorem sound_new (fd : Nat) (isblpop : Bool) : Sound isblpop (St.new fd isblpop) := ⟨rfl, fun _ => trivial⟩

theorem sound_setPhase (h : Sound isblpop s) {ins : Ins} (hins : ins.isblpop = isblpop) {conn : Conn} {i : Nat}
    (hreplies : ∀ j, j ≠ i → conn.replies j = s.conn.replies j) {p : Phase}
    (hp : PhaseOk isblpop (conn.replies i) p) : Sound isblpop (St.setPhase { s with ins, conn } i p) where
  kind := hins
  phases j := by
    by_cases hj : j = i
    · subst hj
      rw [setPhase_self]
      exact hp
    · rw [setPhase_ne _ _ hj, setPhase_conn, hreplies j hj]
      exact h.phases j

theorem sound_tryEnter (h : Sound isblpop s) (i : Nat) {c : Command}
    (hc : suits isblpop c = true ∧ c.intact = true) : Sound isblpop (tryEnter s i c) := by
  unfold tryEnter
  rw [h.kind, if_pos hc.1]
  split
  · exact sound_setPhase h h.kind (fun _ _ => rfl) hc.2
  · exact sound_setPhase h h.kind (fun _ _ => rfl) hc

theorem sound_invoke (h : Sound isblpop s) {c : Command} (hc : suits isblpop c = true ∧ c.intact = true) :
    Sound isblpop (invoke s c) := by
  have hkind : (nextItem (enqueue s.ins c)).1.isblpop = isblpop := by
    rw [nextItem_isblpop]
    exact h.kind
  have hwaiting : PhaseOk isblpop (s.conn.replies s.ins.currentId) (.waiting c) := hc
  rw [invoke_eq]
  exact sound_tryEnter (sound_setPhase h hkind (fun _ _ => rfl) hwaiting) _ hc

theorem sound_finish (h : Sound isblpop s) (conn : Conn) (hreplies : conn.replies = s.conn.replies) (i : Nat)
    (c : Command) {res : Result Obj} (hres : ∀ obj, res = .ok obj → Says (conn.replies i) obj) :
    Sound isblpop (finish { s with conn } i c res) := by
  refine sound_setPhase h ?_ (fun j _ => by rw [hreplies]) hres
  rw [nextItem_isblpop]
  exact h.kind

theorem sound_error (h : Sound isblpop s) (conn : Conn) (hreplies : conn.replies = s.conn.replies) (i : Nat)
    (c : Command) (err : Option Bytes) : Sound isblpop (finish { s with conn } i c (.error err)) :=
  sound_finish h conn hreplies i c fun obj hobj => by cases hobj

/-- Caller `i`'s command has been sent. -/
theorem sound_wrote (h : Sound isblpop s) (i : Nat) (c : Command) (text : Bytes) :
    Sound isblpop (wrote s i c text) := by
  refine sound_setPhase h h.kind (fun j hj => ?_) trivial
  show (if _ then Function.update s.conn.replies i (some text) else s.conn.replies) j = _
  split
  · exact Function.update_of_ne hj ..
  · rfl

end Callers

/-! ## The connection -/

/-- The connection, with caller `k` next: the reader has failed, or nothing is in flight, or it
is the answer to the next caller. -/
inductive Linked (s : St) (k : Nat) : Prop where
  | failed {e : Bytes} (err : s.conn.err = some e)
  | idle (used : s.conn.Used) (in_step : s.conn.inStep = true) (empty : s.conn.inflight = [])
      (idle : ∀ c, s.phase k ≠ .reading c)
  | reading {c : Command} {obj : Obj} {t : Text} (used : s.conn.Used) (in_step : s.conn.inStep = true)
      (phase : s.phase k = .reading c) (resp : Resp obj t) (inflight : s.conn.inflight = t.bytes)
      (reply : s.conn.replies k = some t.bytes)

/-- What every run keeps to in which everything fits; caller `k` is next. -/
structure Kept (isblpop : Bool) (s : St) (k : Nat) : Prop where
  turn : Turn s k
  sound : Sound isblpop s
  linked : Linked s k

theorem kept_new (fd : Nat) (isblpop : Bool) : Kept isblpop (St.new fd isblpop) 0 where
  turn := turn_new fd isblpop
  sound := sound_new fd isblpop
  linked := .idle ⟨rfl, [], rfl, rfl⟩ rfl rfl nofun

section Connection
variable {isblpop : Bool} {s s' : St} {k : Nat}

/-- The connection as it was, and the next caller not reading any more than before. -/
theorem linked_of_same (h : Linked s k) (hconn : s'.conn = s.conn)
    (hphase : ∀ c, s'.phase k = .reading c ↔ s.phase k = .reading c) : Linked s' k := by
  cases h with
  | failed err => exact .failed (hconn ▸ err)
  | idle used in_step empty idle =>
    exact .idle (hconn ▸ used) (hconn ▸ in_step) (hconn ▸ empty) fun c hc => idle c ((hphase c).mp hc)
  | reading used in_step phase resp inflight reply =>
    exact .reading (hconn ▸ used) (hconn ▸ in_step) ((hphase _).mpr phase) resp (hconn ▸ inflight) (hconn ▸ reply)

/-- Nobody who is in the loop reads. -/
theorem tryEnter_reading (s : St) (i : Nat) (c c' : Command) : (tryEnter s i c).phase i ≠ .reading c' := by
  unfold tryEnter
  split
  · split
    · rw [setPhase_self]
      nofun
    · rw [setPhase_self]
      nofun
  · rw [setPhase_self]
    nofun

theorem tryEnter_conn (s : St) (i : Nat) (c : Command) : (tryEnter s i c).conn = s.conn := by
  unfold tryEnter
  split
  · split <;> rfl
  · rfl

/-- Before a command goes out, nothing is left on the connection unless the reader has failed. -/
theorem Linked.of_writing (h : Linked s k) {c : Command} (hp : s.phase k = .writing c) :
    s.conn.err.isSome ∨ (s.conn.Used ∧ s.conn.inStep = true ∧ s.conn.inflight = []) := by
  cases h with
  | failed err => exact .inl (by rw [err]; rfl)
  | idle used in_step empty => exact .inr ⟨used, in_step, empty⟩
  | reading _ _ phase =>
    rw [hp] at phase
    cases phase

/-- Being in the loop makes no difference to the connection. -/
theorem linked_tryEnter (h : Linked s k) {ins : Ins} {i : Nat} (hi : ∀ c, s.phase i ≠ .reading c) (c : Command) :
    Linked (tryEnter { s with ins } i c) k := by
  refine linked_of_same h (tryEnter_conn _ i c) fun c' => ?_
  by_cases hik : k = i
  · subst hik
    exact iff_of_false (tryEnter_reading _ k c c') (hi c')
  · rw [tryEnter_phase_ne _ _ hik]

/-- After the turn of caller `k`, the next one does not read yet. -/
theorem not_reading (h : Turn s k) (c : Command) : s.phase (k + 1) ≠ .reading c := by
  intro hc
  by_cases hn : k + 1 < s.ins.currentId
  · obtain ⟨c', hc'⟩ := h.after (k + 1) (by omega) hn
    rw [hc'] at hc
    cases hc
  · rw [h.absent (k + 1) (by omega)] at hc
    cases hc

/-- Caller `k` is done, and leaves nothing on the connection unless the reader has failed. -/
theorem linked_finish (h : Turn s k) {conn : Conn}
    (hconn : conn.err.isSome ∨ (conn.Used ∧ conn.inStep = true ∧ conn.inflight = [])) (c : Command)
    (res : Result Obj) : Linked (finish { s with conn } k c res) (k + 1) := by
  rcases hconn with herr | ⟨used, in_step, empty⟩
  · obtain ⟨e, he⟩ := Option.isSome_iff_exists.mp herr
    exact .failed he
  · refine .idle used in_step empty fun c' hc' => not_reading h c' ?_
    rwa [finish, setPhase_ne _ _ (Nat.succ_ne_self k)] at hc'

theorem kept_invoke (h : Kept isblpop s k) {c : Command} (hc : suits isblpop c = true ∧ c.intact = true) :
    Kept isblpop (invoke s c) k where
  turn := turn_invoke h.turn c
  sound := sound_invoke h.sound hc
  linked := by
    refine linked_tryEnter h.linked (fun c' hc' => ?_) c
    rw [h.turn.absent _ (Nat.le_refl _)] at hc'
    cases hc'

theorem kept_wake (h : Kept isblpop s k) {i : Nat} {c : Command} (hp : s.phase i = .waiting c) :
    Kept isblpop (tryEnter s i c) k where
  turn := by
    by_cases hik : i = k
    · subst hik
      exact turn_tryEnter h.turn (lt_of_phase h.turn (by rw [hp]; nofun)) c
    · rw [tryEnter_waiting h.turn hp hik]
      exact h.turn
  sound := by
    have hok := h.sound.phases i
    rw [hp] at hok
    exact sound_tryEnter h.sound i hok
  linked := linked_tryEnter h.linked (fun c' hc' => by rw [hp] at hc'; cases hc') c

/-- The reply to the command is all that is in flight. -/
theorem kept_wrote (h : Kept isblpop s k) {c : Command} (hp : s.phase k = .writing c) {text : Bytes}
    (he : Fits isblpop s (.wrote k text)) : Kept isblpop (wrote s k c text) k where
  turn := turn_setOwn h.turn (eq_of_writing h.turn hp).2 (.reading c) _
  sound := sound_wrote h.sound k c text
  linked := by
    rcases h.linked.of_writing hp with herr | ⟨used, in_step, empty⟩
    · obtain ⟨e, he⟩ := Option.isSome_iff_exists.mp herr
      exact .failed he
    · obtain ⟨obj, t, hresp, rfl⟩ := used.resolve he
      have hintact : c.intact = true := by
        have hok := h.sound.phases k
        rwa [hp] at hok
      have hwhole : (s.conn.inStep && c.intact) = true := by rw [in_step, hintact]; rfl
      refine .reading used hwhole (setPhase_self ..) hresp ?_ ?_
      · show s.conn.inflight ++ t.bytes = t.bytes
        rw [empty]
        rfl
      · simp only [wrote, setPhase_conn, hwhole, if_true, Function.update_self]

/-- The write has failed, and nothing of the command has gone out. -/
theorem kept_failed (h : Kept isblpop s k) {c : Command} (hp : s.phase k = .writing c) {err : Bytes} {sent : Nat}
    (he : Fits isblpop s (.failed k err sent)) : Kept isblpop (failed s k c err sent) (k + 1) where
  turn := turn_finish h.turn (eq_of_writing h.turn hp).2 c _ _
  sound := sound_error h.sound { s.conn with inStep := s.conn.inStep && sent = 0 } rfl k c (some err)
  linked := by
    apply linked_finish h.turn
    refine (h.linked.of_writing hp).imp id fun ⟨used, in_step, empty⟩ => ⟨used, ?_, empty⟩
    show (s.conn.inStep && decide (sent = 0)) = true
    rw [in_step, used.resolve he]
    rfl

/-- The reply is read, or the stream fails. -/
theorem kept_answered (h : Kept isblpop s k) {c : Command} (hp : s.phase k = .reading c) {pieces : List Bytes}
    (hpre : pieces.flatten <+: s.conn.inflight) {fin : Bytes} (he : Fits isblpop s (.answered k pieces fin)) :
    Kept isblpop (answered s k c pieces fin) (k + 1) := by
  have hk := (eq_of_reading h.turn hp).2
  cases h.linked with
  | idle _ _ _ idle => exact absurd hp (idle c)
  | @failed e err =>
    -- the reader returns its old error
    have hanswered : answered s k c pieces fin =
        finish { s with conn := s.conn.after pieces (s.conn.reader pieces fin) } k c (.error (some e)) := by
      rw [answered, read_failed err pieces fin]
    rw [hanswered]
    exact ⟨turn_finish h.turn hk c _ _, sound_error h.sound (s.conn.after pieces (s.conn.reader pieces fin)) rfl k c _,
      linked_finish h.turn (.inl (by rw [Conn.after, Conn.reader, err]; rfl)) c _⟩
  | @reading c' obj t used in_step phase resp inflight reply =>
    have hun : t.Unsplit pieces := used.resolve he obj t resp inflight.symm
    obtain ⟨res, r, hread, hres⟩ := read_reply used resp inflight hpre hun fin
    have hanswered : answered s k c pieces fin = finish { s with conn := s.conn.after pieces r } k c res := by
      rw [answered, hread]
    rw [hanswered]
    -- the stream has ended inside of the reply, or the reply is whole
    rcases hres with ⟨⟨err, rfl⟩, herr⟩ | ⟨rfl, hused, hempty⟩
    · exact ⟨turn_finish h.turn hk c _ _, sound_error h.sound (s.conn.after pieces r) rfl k c _,
        linked_finish h.turn (.inl (by rw [herr]; rfl)) c _⟩
    · refine ⟨turn_finish h.turn hk c _ _, sound_finish h.sound (s.conn.after pieces r) rfl k c fun obj' hobj => ?_,
        linked_finish h.turn (.inr ⟨hused, in_step, hempty⟩) c _⟩
      cases hobj
      exact ⟨t, reply, resp⟩

/-- **One step**, case by case. -/
theorem kept_step (h : Kept isblpop s k) {e : Event} (he : Fits isblpop s e) : ∃ k', Kept isblpop (step s e) k' := by
  cases e with
  | call c => exact ⟨k, kept_invoke h he⟩
  | wake i =>
    simp only [step]
    split
    · next c hp => exact ⟨k, kept_wake h hp⟩
    · exact ⟨k, h⟩
  | wrote i text =>
    simp only [step]
    split
    · next c hp =>
      obtain ⟨rfl, -⟩ := eq_of_writing h.turn hp
      exact ⟨i, kept_wrote h hp he⟩
    · exact ⟨k, h⟩
  | failed i err sent =>
    simp only [step]
    split
    · next c hp =>
      obtain ⟨rfl, -⟩ := eq_of_writing h.turn hp
      split
      · exact ⟨i + 1, kept_failed h hp he⟩
      · exact ⟨i, h⟩
    · exact ⟨k, h⟩
  | answered i pieces fin =>
    simp only [step]
    split
    · next c hp =>
      obtain ⟨rfl, -⟩ := eq_of_reading h.turn hp
      split
      · next hpre => exact ⟨i + 1, kept_answered h hp hpre he⟩
      · exact ⟨i, h⟩
    · exact ⟨k, h⟩
  | check =>
    rw [step_check h.turn]
    exact ⟨k, h⟩

/-- In every run in which everything fits, by induction on its events. -/
theorem kept_run (h : Kept isblpop s k) {es : List Event} (hes : Fitting isblpop s es) :
    ∃ k', Kept isblpop (run s es) k' := by
  induction es generalizing s k with
  | nil => exact ⟨k, h⟩
  | cons e es ih =>
    obtain ⟨k', h'⟩ := kept_step h hes.1
    exact ih h' hes.2

end Connection

/-! ## Nobody is stranded -/

/-- A run without new callers that ends with caller `k + 1` next. -/
def Hands (isblpop : Bool) (s : St) (k : Nat) : Prop :=
  ∃ es, Fitting isblpop s es ∧ Kept isblpop (run s es) (k + 1) ∧ (run s es).ins.currentId = s.ins.currentId

section Progress
variable {isblpop : Bool} {s : St} {k : Nat}

theorem run_one (s : St) (e : Event) : run s [e] = step s e := rfl

theorem fitting_append {es es' : List Event} (h : Fitting isblpop s es) (h' : Fitting isblpop (run s es) es') :
    Fitting isblpop s (es ++ es') := by
  induction es generalizing s with
  | nil => exact h'
  | cons e es ih => exact ⟨h.1, ih h.2 h'⟩

theorem hands_step (e : Event) (he : Fits isblpop s e) (hid : (step s e).ins.currentId = s.ins.currentId)
    (h : Hands isblpop (step s e) k) : Hands isblpop s k := by
  obtain ⟨es, hes, hkept, hsame⟩ := h
  exact ⟨e :: es, ⟨he, hes⟩, hkept, hsame.trans hid⟩

@[simp] theorem finish_currentId (s : St) (i : Nat) (c : Command) (res : Result Obj) :
    (finish s i c res).ins.currentId = s.ins.currentId := nextItem_currentId _

theorem answered_currentId (s : St) (i : Nat) (c : Command) (pieces : List Bytes) (fin : Bytes) :
    (answered s i c pieces fin).ins.currentId = s.ins.currentId := by
  unfold answered
  split
  · simp
  · rfl

/-- All that is in flight comes in one piece. -/
theorem hands_reading (h : Kept isblpop s k) {c : Command} (hp : s.phase k = .reading c) : Hands isblpop s k := by
  have hflatten : [s.conn.inflight].flatten = s.conn.inflight := List.append_nil _
  have hpre : [s.conn.inflight].flatten <+: s.conn.inflight := by rw [hflatten]
  have hfits : Fits isblpop s (.answered k [s.conn.inflight] (ascii "TIMEOUT")) :=
    .inr fun _ t _ _ => t.unsplit_single _
  have hstep : step s (.answered k [s.conn.inflight] (ascii "TIMEOUT")) =
      answered s k c [s.conn.inflight] (ascii "TIMEOUT") := by
    simp only [step, hp, if_pos hpre]
  refine ⟨[.answered k [s.conn.inflight] (ascii "TIMEOUT")], ⟨hfits, trivial⟩, ?_, ?_⟩
  · rw [run_one, hstep]
    exact kept_answered h hp hpre hfits
  · rw [run_one, hstep, answered_currentId]

/-- The server says OK. -/
theorem hands_writing (h : Kept isblpop s k) {c : Command} (hp : s.phase k = .writing c) : Hands isblpop s k := by
  have hresp : Resp (.status (ascii "OK")) (.data (ascii "+") ++ .line (ascii "OK")) := .status (by decide)
  have hfits : Fits isblpop s (.wrote k (ascii "+OK\r\n")) := .inr ⟨_, _, hresp, rfl⟩
  have hstep : step s (.wrote k (ascii "+OK\r\n")) = wrote s k c (ascii "+OK\r\n") := by simp only [step, hp]
  refine hands_step (.wrote k (ascii "+OK\r\n")) hfits ?_ ?_
  · rw [hstep]
    rfl
  · rw [hstep]
    exact hands_reading (kept_wrote h hp hfits) (setPhase_self ..)

/-- What the loop does for the next caller. -/
theorem step_wake (h : Kept isblpop s k) {c : Command} (hp : s.phase k = .waiting c) :
    step s (.wake k) = s.setPhase k (.writing c) := by
  have hk := lt_of_phase h.turn (show s.phase k ≠ .absent by rw [hp]; nofun)
  have hok := h.sound.phases k
  rw [hp] at hok
  simp only [step, hp, tryEnter]
  rw [h.turn.current, if_pos hk, if_pos rfl, h.sound.kind, if_pos hok.1]

theorem hands_waiting (h : Kept isblpop s k) {c : Command} (hp : s.phase k = .waiting c) : Hands isblpop s k := by
  have hkept := kept_wake h hp
  have hstep := step_wake h hp
  have htry : tryEnter s k c = s.setPhase k (.writing c) := by
    rw [← hstep]
    simp only [step, hp]
  rw [htry] at hkept
  refine hands_step (.wake k) trivial ?_ ?_
  · rw [hstep]
    rfl
  · rw [hstep]
    exact hands_writing hkept (setPhase_self ..)

/-- Wherever the next caller is, it can be served. -/
theorem hands_on (h : Kept isblpop s k) (hk : k < s.ins.currentId) : Hands isblpop s k := by
  have hown := h.turn.own hk
  cases hp : s.phase k with
  | waiting c => exact hands_waiting h hp
  | writing c => exact hands_writing h hp
  | reading c => exact hands_reading h hp
  | raised =>
    -- no command is one for the other instance
    have hok := h.sound.phases k
    rw [hp] at hok
    exact hok.elim
  | absent =>
    rw [hp] at hown
    cases hown
  | returned c res =>
    rw [hp] at hown
    cases hown

/-- Whoever waits can get in, by induction on how many are before it. -/
theorem enters (i : Nat) (n : Nat) : ∀ {s : St} {k : Nat}, i = k + n → Kept isblpop s k → i < s.ins.currentId →
    ∃ es, Fitting isblpop s es ∧ ((run s es).phase i).entered = true := by
  induction n with
  | zero =>
    intro s k hi h hn
    obtain rfl : i = k := hi
    have hown := h.turn.own hn
    cases hp : s.phase i with
    | waiting c =>
      refine ⟨[.wake i], ⟨trivial, trivial⟩, ?_⟩
      rw [run_one, step_wake h hp, setPhase_self]
      rfl
    | absent =>
      rw [hp] at hown
      cases hown
    | writing | reading | returned | raised =>
      refine ⟨[], trivial, ?_⟩
      show (s.phase i).entered = true
      rw [hp]
      rfl
  | succ n ih =>
    intro s k hi h hn
    obtain ⟨es, hes, hkept, hid⟩ := hands_on h (by omega)
    obtain ⟨es', hes', hentered⟩ := ih (show i = k + 1 + n by omega) hkept (by rw [hid]; exact hn)
    refine ⟨es ++ es', fitting_append hes hes', ?_⟩
    rw [run, List.foldl_append]
    exact hentered

end Progress

/-! ## Every call is served -/

theorem served_of_kept {isblpop : Bool} {s : St} {k : Nat} (h : Kept isblpop s k) : Served isblpop s where
  exclusive i j hi hj := (inside_eq h.turn hi).trans (inside_eq h.turn hj).symm
  in_order i j hji hi := by
    have hik : i ≤ k := by
      by_contra hgt
      by_cases hn : i < s.ins.currentId
      · obtain ⟨c, hp⟩ := h.turn.after i (by omega) hn
        rw [hp] at hi
        cases hi
      · rw [h.turn.absent i (by omega)] at hi
        cases hi
    exact h.turn.before j (by omega)
  own i c obj hi := by
    have hok := h.sound.phases i
    rw [hi] at hok
    exact hok obj rfl
  current hc := by
    have hcache := h.turn.cache
    have hcur := h.turn.current
    by_cases hk : k < s.ins.currentId
    · rw [if_pos hk] at hcur
      obtain ⟨item, hitem, _⟩ := Option.map_eq_some_iff.mp hcur
      rw [hitem]
      rfl
    · rw [Nat.sub_eq_zero_of_le (by omega), List.range'_zero, List.map_eq_nil_iff] at hcache
      exact absurd hcache hc
  not_stranded i c hi := by
    have hn := lt_of_phase h.turn (show s.phase i ≠ .absent by rw [hi]; nofun)
    have hki : k ≤ i := by
      by_contra hlt
      obtain ⟨c', res, hp⟩ := h.turn.before i (by omega)
      rw [hp] at hi
      cases hi
    exact enters i (i - k) (by omega) h hn

/-- **Served one at a time and in order, each with its own reply**, in every state of every run
in which everything fits. -/
theorem calls_served (fd : Nat) {isblpop : Bool} {es : List Event} (h : Fitting isblpop (St.new fd isblpop) es) :
    Served isblpop (run (St.new fd isblpop) es) := by
  obtain ⟨k, hkept⟩ := kept_run (kept_new fd isblpop) h
  exact served_of_kept hkept

/-- Two callers, the second of which waits for the first. -/
def twoCalls : List Event :=
  [.call ⟨ascii "get", [ascii "a"]⟩, .call ⟨ascii "incr", [ascii "b"]⟩, .wrote 0 (ascii "$1\r\nx\r\n"),
    .answered 0 [ascii "$1\r\nx\r\n"] (ascii "TIMEOUT"), .wake 1]

theorem calls_served_two : Served false (run (St.new 3 false) twoCalls) := by
  have hresp : Resp (.str (ascii "x")) _ := .str (by decide)
  apply calls_served 3
  exact ⟨⟨rfl, rfl⟩, ⟨rfl, rfl⟩, .inr ⟨_, _, hresp, rfl⟩, .inr fun _ t _ _ => t.unsplit_single _, trivial, trivial⟩

/-! ## A torn line end -/

/-- The reply to `mget` comes in two pieces, the first of which ends between CR and LF. -/
def tornCalls : List Event :=
  [.call ⟨ascii "mget", [ascii "a", ascii "b"]⟩, .call ⟨ascii "get", [ascii "c"]⟩,
    .wrote 0 (ascii "*2\r\n$1\r\na\r\n$1\r\nb\r\n"),
    .answered 0 [ascii "*2\r\n$1\r", ascii "\na\r\n$1\r\nb\r\n"] (ascii "TIMEOUT"), .wake 1,
    .wrote 1 (ascii "$1\r\nc\r\n"), .answered 1 [ascii "$1\r\nc\r\n"] (ascii "TIMEOUT")]

/-- What a string is sent as. -/
theorem resp_str {s : Bytes} {t : Text} (h : Resp (.str s) t) :
    t.bytes = ascii "$" ++ (formatD s.length ++ [CR, LF] ++ (s ++ [CR, LF])) := by
  cases h
  rfl

/-- **A torn reply shifts the ones after it**: `mget` fails, and what is left of its reply is
what `get` returns. -/
theorem torn_shifts :
    let s := run (St.new 3 false) tornCalls
    s.phase 0 = .returned ⟨ascii "mget", [ascii "a", ascii "b"]⟩
        (.error (some (ascii "redis error, bad number: 1\r\na\r\n"))) ∧
      s.phase 1 = .returned ⟨ascii "get", [ascii "c"]⟩ (.ok (.str (ascii "b"))) ∧
      Says (s.conn.replies 1) (.str (ascii "c")) ∧ ¬ Served false s := by
  intro s
  have hmget : s.phase 0 = .returned ⟨ascii "mget", [ascii "a", ascii "b"]⟩
      (.error (some (ascii "redis error, bad number: 1\r\na\r\n"))) := rfl
  have hget : s.phase 1 = .returned ⟨ascii "get", [ascii "c"]⟩ (.ok (.str (ascii "b"))) := rfl
  have hreply : s.conn.replies 1 = some (ascii "$1\r\nc\r\n") := rfl
  have hresp : Resp (.str (ascii "c")) _ := .str (by decide)
  refine ⟨hmget, hget, ⟨_, hreply, hresp⟩, fun hserved => ?_⟩
  obtain ⟨t, ht, hb⟩ := hserved.own 1 _ _ hget
  rw [hreply, resp_str hb] at ht
  exact absurd ht (by decide)

/-! ## A command for the other instance -/

/-- A `blpop` on the other instance raises when its turn comes, and whoever waits then waits
for ever. -/
theorem blpop_strands :
    let s := run (St.new 3 false) [.call ⟨ascii "blpop", [ascii "q", ascii "0"]⟩, .call ⟨ascii "get", [ascii "a"]⟩]
    s.phase 1 = .waiting ⟨ascii "get", [ascii "a"]⟩ ∧ ∀ es, ((run s es).phase 1).entered = false := by
  intro s
  obtain ⟨k, hturn⟩ := turn_run (turn_new 3 false)
    [.call ⟨ascii "blpop", [ascii "q", ascii "0"]⟩, .call ⟨ascii "get", [ascii "a"]⟩]
  have hraised : s.phase 0 = .raised := rfl
  have hwaiting : s.phase 1 = .waiting ⟨ascii "get", [ascii "a"]⟩ := rfl
  have hk : k = 0 := by
    by_contra hne
    obtain ⟨c, res, hp⟩ := hturn.before 0 (by omega)
    rw [hraised] at hp
    cases hp
  subst hk
  exact ⟨hwaiting, raised_strands hturn hraised Nat.one_pos⟩

end ApApps.Mredis

import ApApps.Lib.Bus
import ApApps.Sand.Strangers

/- The broker is a bus (`Lib.Bus`).

   Its members are the open connections whose cn command was accepted: such a command
   joins the bus with its topics, its will and its connect message, a pb command says a
   message, and `close_client` leaves. `callsOf` reads these calls off the log, without a
   look at what the broker made of them.

   `refines_bus`: if every `uv.write` succeeds and every refused cn command is `Discreet`,
   then what is published to a connection in a run is what the bus lets it hear of the
   calls, message by message and in order, and the connections in `st_auth` are those on
   the bus. Which order `pairs` takes over the subscribers makes no difference.

   Nothing is said about writes that fail: there a close inside a publication puts the will
   in the middle of it, and a connection later in the order hears the will first. -/
namespace ApApps.Sand
open Incremental ApApps.Redis Exec

instance : DecidablePred accepts := fun map => by
  unfold accepts
  infer_instance

/-- The member that an accepted cn command makes of its connection. -/
def memberOf (map : Fields) : Bus.Member Bytes Bytes := ⟨partsOf map, (cnParam map).will⟩

/-- What a line of the log asks of the bus. -/
def Out.call : Out → Option (Bus.Call Conn Bytes Bytes)
  | .dispatch c .cn map => if accepts map then some (.join c (memberOf map) (connectMessage map)) else none
  | .dispatch c .pb map =>
    match map.get "tp", map.get "pl" with
    | some topic, some payload => some (.say c (topic, payload))
    | _, _ => none
  | .closeClient c => some (.leave c)
  | _ => none

def callsOf (log : List Out) : List (Bus.Call Conn Bytes Bytes) := log.filterMap Out.call

/-- The topic and payload of a publication to `c` that `uv.write` accepted. -/
def Out.publication (c : Conn) : Out → Option (Bytes × Bytes)
  | .write c' (.pb topic payload) _ true => if c' = c then some (topic, payload) else none
  | _ => none

def publicationsTo (c : Conn) (log : List Out) : List (Bytes × Bytes) := log.filterMap (Out.publication c)

def Climap.member (m : Climap) : Option (Bus.Member Bytes Bytes) :=
  if m.client = true ∧ m.state = .stAuth then some ⟨m.topics, m.param.bind Param.will⟩ else none

/-- The open connections in `st_auth`. -/
def St.roll (s : St) : Bus.Roll Conn Bytes Bytes := fun c => (s.heap c).bind Climap.member

/-- `c` is open, and its parameters list the topic. -/
def St.listening (s : St) (c : Conn) (topic : Bytes) : Bool :=
  ((s.heap c).map fun m => m.client && decide (topic ∈ m.topics)).getD false

section Bus
variable {env : Env} {s s' s'' : St} {x : Option Conn} {fd : Fd} {c : Conn} {m : Climap} {map : Fields}

@[simp] theorem callsOf_append (log log' : List Out) : callsOf (log ++ log') = callsOf log ++ callsOf log' :=
  List.filterMap_append

@[simp] theorem publicationsTo_append (c : Conn) (log log' : List Out) :
    publicationsTo c (log ++ log') = publicationsTo c log ++ publicationsTo c log' := List.filterMap_append

-- a write that fails publishes nothing
example : publicationsTo 0 [.write 0 (.pb (ascii "a") (ascii "hi")) [] false,
    .write 0 (.pb (ascii "a") (ascii "ho")) [] true] = [(ascii "a", ascii "ho")] := by
  decide +kernel

/-! ## What a publication reaches -/

theorem callsOf_deliveries (topic payload : Bytes) (fds : List Fd) :
    callsOf (s.deliveries env topic payload fds) = [] := by
  apply List.filterMap_eq_nil_iff.mpr
  intro o ho
  obtain ⟨fd, -, hfd⟩ := List.mem_filterMap.mp ho
  obtain ⟨c, -, rfl⟩ := Option.map_eq_some_iff.mp hfd
  rfl

/-- A publication goes to a connection once for every descriptor of it. -/
theorem publicationsTo_deliveries (topic payload : Bytes) (fds : List Fd) (c : Conn) :
    publicationsTo c (s.deliveries env topic payload fds) =
      List.replicate (fds.countP fun fd => s.clientmap.lookup fd = some c) (topic, payload) := by
  induction fds with
  | nil => rfl
  | cons fd fds ih =>
    cases hl : s.clientmap.lookup fd with
    | none =>
      rw [List.countP_cons_of_neg (by simp [hl]), ← ih]
      simp only [St.deliveries, List.filterMap_cons, hl, Option.map_none]
    | some c' =>
      have hcons : s.deliveries env topic payload (fd :: fds) =
          .write c' (.pb topic payload) (env.frame (.pb topic payload)) true ::
            s.deliveries env topic payload fds := by
        simp only [St.deliveries, List.filterMap_cons, hl, Option.map_some]
      rw [hcons]
      by_cases hcc : c' = c
      · rw [List.countP_cons_of_pos (by simp [hl, hcc]), List.replicate_succ, ← ih]
        simp only [publicationsTo, Out.publication, List.filterMap_cons, hcc, if_true]
      · rw [List.countP_cons_of_neg (by simp [hl, hcc]), ← ih]
        simp only [publicationsTo, Out.publication, List.filterMap_cons, hcc, if_false]

/-- Under how many descriptors of a topic a connection is registered. -/
theorem countP_subs (hw : WF s) (hs : SubOk s) (topic : Bytes) (c : Conn) :
    ((s.subs topic).countP fun fd => s.clientmap.lookup fd = some c) =
      if s.listening c topic = true then 1 else 0 := by
  by_cases hon : s.listening c topic = true
  · rw [if_pos hon]
    cases hh : s.heap c with
    | none => simp [St.listening, hh] at hon
    | some m =>
      have hm : m.client = true ∧ topic ∈ m.topics := by simpa [St.listening, hh] using hon
      have hl : s.clientmap.lookup m.fd = some c := hw.registered c m hh (.inr hm.1)
      have hmem : m.fd ∈ s.subs topic := (hs.mem topic m.fd).mpr ⟨c, m, hl, hh, hm.2⟩
      have honly : ∀ fd, s.clientmap.lookup fd = some c ↔ fd = m.fd := by
        intro fd
        constructor
        · intro hfd
          obtain ⟨m', hh', hfd', -⟩ := hw.live fd c hfd
          rw [hh] at hh'
          cases hh'
          exact hfd'.symm
        · rintro rfl
          exact hl
      calc ((s.subs topic).countP fun fd => s.clientmap.lookup fd = some c)
          = (s.subs topic).countP (· == m.fd) := by
            refine List.countP_congr fun fd _ => ?_
            rw [decide_eq_true_iff, honly fd, beq_iff_eq]
        _ = 1 := List.count_eq_one_of_mem (hs.nodup topic) hmem
  · rw [if_neg hon, List.countP_eq_zero]
    intro fd hfd hl
    have hl : s.clientmap.lookup fd = some c := of_decide_eq_true hl
    obtain ⟨c', m, hl', hh, ht⟩ := (hs.mem topic fd).mp hfd
    rw [hl] at hl'
    cases hl'
    obtain ⟨m', hh', -, -, hc⟩ := hw.live fd c hl
    rw [hh] at hh'
    cases hh'
    exact hon (by simp [St.listening, hh, hc, ht])

/-- **A publication reaches the listeners of its topic**, each of them once. -/
theorem publicationsTo_visit (hw : WF s) (hs : SubOk s) (log : List Out) (topic payload : Bytes) (c : Conn) :
    publicationsTo c (s.deliveries env topic payload (env.visit log (s.subs topic))) =
      if s.listening c topic = true then [(topic, payload)] else [] := by
  rw [publicationsTo_deliveries, (env.visit_perm log (s.subs topic)).countP_eq, countP_subs hw hs]
  by_cases hon : s.listening c topic = true
  · rw [if_pos hon, if_pos hon]
    rfl
  · rw [if_neg hon, if_neg hon]
    rfl

/-- The broker after a message has been published, if there is one. -/
def St.uttered (s : St) (env : Env) (message : Option (Bytes × Bytes)) : St :=
  match message with
  | none => s
  | some (topic, payload) => s.published env topic payload

theorem closed_eq : s.closed env fd c m = (s.shut fd c m).uttered env (m.param.bind Param.will) := by
  unfold St.closed St.uttered
  cases m.param.bind Param.will <;> rfl

theorem announced_eq : s.announced env map = s.uttered env (connectMessage map) := by
  unfold St.announced St.uttered
  cases connectMessage map <;> rfl

theorem heap_uttered (message : Option (Bytes × Bytes)) : (s.uttered env message).heap = s.heap := by
  cases message <;> rfl

/-- The broker says what the bus says, to those the bus says it to. -/
theorem uttered_heard (env : Env) {s1 : St} {outs : List Out} (call : Bus.Call Conn Bytes Bytes) (hw : WF s1)
    (hs : SubOk s1) (hlog : s1.log = s.log ++ outs) (hcalls : callsOf outs = [call]) (hpubs : ∀ c, publicationsTo c outs = [])
    (hlisten : ∀ c topic, Bus.listens (Bus.next s.roll call) c topic = s1.listening c topic) :
    ∃ outs', (s1.uttered env (Bus.said s.roll call)).log = s.log ++ outs' ∧ callsOf outs' = [call] ∧
      ∀ c, publicationsTo c outs' = Bus.hears c s.roll call := by
  cases hsaid : Bus.said s.roll call with
  | none => exact ⟨outs, hlog, hcalls, fun c => (hpubs c).trans (Bus.hears_of_said_none hsaid).symm⟩
  | some message =>
    obtain ⟨topic, payload⟩ := message
    refine ⟨outs ++ s1.deliveries env topic payload (env.visit s1.log (s1.subs topic)), ?_, ?_, fun c => ?_⟩
    · show s1.log ++ _ = _
      rw [hlog, List.append_assoc]
    · rw [callsOf_append, hcalls, callsOf_deliveries, List.append_nil]
    · rw [publicationsTo_append, hpubs, List.nil_append, publicationsTo_visit hw hs, Bus.hears_of_said hsaid,
        hlisten c topic]

/-! ## From one state to another -/

/-- From `s` to `s'` the broker has done what the bus does for the calls in the log. -/
def Plays (s s' : St) : Prop :=
  ∃ outs, s'.log = s.log ++ outs ∧ Bus.after s.roll (callsOf outs) = s'.roll ∧
    ∀ c, publicationsTo c outs = Bus.heard c s.roll (callsOf outs)

theorem Plays.trans (h : Plays s s') (h' : Plays s' s'') : Plays s s'' := by
  obtain ⟨outs, hlog, hafter, hpubs⟩ := h
  obtain ⟨outs', hlog', hafter', hpubs'⟩ := h'
  refine ⟨outs ++ outs', by rw [hlog', hlog, List.append_assoc], ?_, fun c => ?_⟩
  · rw [callsOf_append, Bus.after_append, hafter, hafter']
  · rw [publicationsTo_append, hpubs, hpubs', callsOf_append, Bus.heard_append, hafter]

/-- Nothing is asked of the bus. -/
theorem Plays.quiet {outs : List Out} (hlog : s'.log = s.log ++ outs) (hcalls : callsOf outs = [])
    (hpubs : ∀ c, publicationsTo c outs = []) (hroll : s'.roll = s.roll) : Plays s s' := by
  refine ⟨outs, hlog, ?_, fun c => ?_⟩
  · rw [hcalls, hroll]
    rfl
  · rw [hcalls, hpubs]
    rfl

theorem Plays.refl : Plays s s := .quiet (List.append_nil _).symm rfl (fun _ => rfl) rfl

/-- One thing is asked of it. -/
theorem Plays.call {outs : List Out} {call : Bus.Call Conn Bytes Bytes} (hlog : s'.log = s.log ++ outs)
    (hcalls : callsOf outs = [call]) (hnext : Bus.next s.roll call = s'.roll)
    (hpubs : ∀ c, publicationsTo c outs = Bus.hears c s.roll call) : Plays s s' := by
  refine ⟨outs, hlog, ?_, fun c => ?_⟩
  · rw [hcalls, ← hnext]
    rfl
  · rw [hcalls, hpubs]
    exact (List.append_nil _).symm

/-! ## Who is on the bus -/

theorem roll_of_heap (hh : s.heap c = some m) : s.roll c = m.member := by
  rw [St.roll, hh, Option.bind_some]

theorem member_fresh (hm : m.Fresh) : m.member = none := by simp [Climap.member, hm.state]

theorem member_accepted (hm : m.Accepted map) (hc : m.client = true) : m.member = some (memberOf map) := by
  have htopics : m.topics = partsOf map := by
    simp only [Climap.topics, hm.param, cnParam_topics hm.accepts]
  rw [Climap.member, if_pos ⟨hc, hm.state⟩, htopics, hm.param, Option.bind_some]
  rfl

theorem roll_update {m' : Climap} (hheap : s'.heap = Function.update s.heap c (some m')) :
    s'.roll = Function.update s.roll c m'.member := by
  funext c'
  by_cases hcc : c' = c
  · subst hcc
    simp [St.roll, hheap]
  · simp [St.roll, hheap, Function.update_of_ne hcc]

/-- A change of the climap that the bus does not see. -/
theorem roll_same {m' : Climap} (hheap : s'.heap = Function.update s.heap c (some m')) (hh : s.heap c = some m)
    (hmember : m'.member = m.member) : s'.roll = s.roll := by
  rw [roll_update hheap, hmember, ← roll_of_heap hh, Function.update_eq_self]

/-- Between two callbacks the listeners of a topic are the members that listen to it. -/
theorem Sane.listens (h : Sane none s) (c : Conn) (topic : Bytes) :
    Bus.listens s.roll c topic = s.listening c topic := by
  unfold Bus.listens St.listening
  cases hh : s.heap c with
  | none =>
    simp [St.roll, hh]
  | some m =>
    rw [roll_of_heap hh]
    cases hc : m.client with
    | false => simp [Climap.member, hc]
    | true =>
      rcases h.settled m.fd c m (h.wf.registered c m hh (.inr hc)) hh (by simp) with hf | ⟨map, ha⟩
      · have htopics : m.topics = [] := by simp only [Climap.topics, hf.param]
        simp [member_fresh hf, htopics]
      · have htopics : m.topics = partsOf map := by
          simp only [Climap.topics, ha.param, cnParam_topics ha.accepts]
        simp [member_accepted ha hc, memberOf, hc, htopics]

/-! ## Closing a connection -/

theorem roll_shut : (s.shut fd c m).roll = Function.update s.roll c none := by
  have hheap : (s.shut fd c m).heap = Function.update s.heap c (some { m with timer := false, client := false }) := rfl
  rw [roll_update hheap]
  simp [Climap.member]

theorem Sane.shut (h : Sane none s) (hl : s.clientmap.lookup fd = some c) (hh : s.heap c = some m) :
    Sane none (s.shut fd c m) := by
  obtain ⟨m', hh', -, ht, hc⟩ := h.wf.live fd c hl
  rw [hh] at hh'
  cases hh'
  have hshut : Tick .calm s (s.shut fd c m) := .shut hl hh ht hc (h.hasId hl hh)
  exact h.cascade (.single hshut)

/-- The will of a connection is that of the member it is. -/
theorem Sane.will (h : Sane none s) (hl : s.clientmap.lookup fd = some c) (hh : s.heap c = some m) :
    (s.roll c).bind Bus.Member.will = m.param.bind Param.will := by
  obtain ⟨m', hh', -, -, hc⟩ := h.wf.live fd c hl
  rw [hh] at hh'
  cases hh'
  rw [roll_of_heap hh]
  rcases h.settled fd c m hl hh (by simp) with hf | ⟨map, ha⟩
  · rw [member_fresh hf, hf.param]
    rfl
  · rw [member_accepted ha hc, ha.param]
    rfl

/-- **Closing a connection** of a broker in order: it leaves the bus. -/
theorem plays_close (h : Sane none s) (env : Env) (fd : Fd) : Plays s (s.calmClose env fd) := by
  cases hl : s.clientmap.lookup fd with
  | none =>
    rw [calmClose_none hl]
    exact .refl
  | some c =>
    obtain ⟨m, hh, -, -, -⟩ := h.wf.live fd c hl
    have hshut := h.shut hl hh
    have hnext : Bus.next s.roll (.leave c) = (s.shut fd c m).roll := roll_shut.symm
    have hlog : (s.shut fd c m).log = s.log ++ [.closeTimer c, .closeClient c] := rfl
    obtain ⟨outs, hlog, hcalls, hpubs⟩ := uttered_heard env (.leave c) hshut.wf hshut.subs hlog rfl
      (fun _ => rfl) fun c' topic => by rw [hnext, hshut.listens]
    have hclosed : s.calmClose env fd = (s.shut fd c m).uttered env (Bus.said s.roll (.leave c)) := by
      rw [calmClose_eq hl hh, closed_eq, ← h.will hl hh]
      rfl
    rw [hclosed]
    exact .call hlog hcalls (hnext.trans (congrArg (fun heap c => (heap c).bind Climap.member)
      (heap_uttered _).symm)) hpubs

/-! ## The commands

`s` is the broker before the command is dispatched, and `rest` what is left of the buffer. -/

theorem heap_called (rest : Bytes) (cmd : Cmd) (map : Fields) :
    (s.called c m rest cmd map).heap c = some { m with data := rest } := Function.update_self c _ _

theorem roll_called (hh : s.heap c = some m) (rest : Bytes) (cmd : Cmd) (map : Fields) :
    (s.called c m rest cmd map).roll = s.roll := roll_same rfl hh rfl

theorem Sane.called (h : Sane none s) (hh : s.heap c = some m) (rest : Bytes) (cmd : Cmd) (map : Fields) :
    Sane none (s.called c m rest cmd map) := (h.withData rest hh).logged _

/-- A command that asks for nothing the bus would do. -/
theorem plays_called (hh : s.heap c = some m) (rest : Bytes) (cmd : Cmd) (map : Fields)
    (hvoid : ∀ call, Out.call (.dispatch c cmd map) = some call →
      Bus.said s.roll call = none ∧ Bus.next s.roll call = s.roll) : Plays s (s.called c m rest cmd map) := by
  have hroll := roll_called hh rest cmd map
  have hlog : (s.called c m rest cmd map).log = s.log ++ [.dispatch c cmd map] := rfl
  have hpubs : ∀ c', publicationsTo c' [.dispatch c cmd map] = [] := fun _ => rfl
  cases hcall : Out.call (.dispatch c cmd map) with
  | none => exact .quiet hlog (by simp [callsOf, hcall]) hpubs hroll
  | some call =>
    obtain ⟨hsaid, hnext⟩ := hvoid call hcall
    refine .call hlog (by simp [callsOf, hcall]) (hnext.trans hroll.symm) fun c' => ?_
    exact (hpubs c').trans (Bus.hears_of_said_none hsaid).symm

/-- A member's publication. -/
theorem plays_publish (h : Sane none s) (hh : s.heap c = some m) (hmember : (s.roll c).isSome = true)
    (rest : Bytes) {topic payload : Bytes} (htp : map.get "tp" = some topic) (hpl : map.get "pl" = some payload) :
    Plays s ((s.called c m rest .pb map).published env topic payload) := by
  have hcalled := h.called hh rest .pb map
  have hroll := roll_called hh rest .pb map
  have hlog : (s.called c m rest .pb map).log = s.log ++ [.dispatch c .pb map] := rfl
  have hcall : callsOf [.dispatch c .pb map] = [.say c (topic, payload)] := by
    simp [callsOf, Out.call, htp, hpl]
  obtain ⟨outs, hlog, hcalls, hpubs⟩ := uttered_heard env (.say c (topic, payload)) hcalled.wf hcalled.subs hlog
    hcall (fun _ => rfl) fun c' t => by rw [← hcalled.listens, hroll]; rfl
  rw [Bus.said_say_of_member hmember] at hlog
  exact .call hlog hcalls hroll.symm hpubs

/-- **An accepted cn command**: the connection joins the bus. -/
theorem plays_admitted (env : Env) (h : Sane none s) (hl : s.clientmap.lookup fd = some c) (hh : s.heap c = some m)
    (hm : m.Fresh) (rest : Bytes) (hr : refusal (s.called c m rest .cn map) map = none) :
    Plays s ((s.called c m rest .cn map).admitted env fd c { m with data := rest } map) := by
  let s0 := s.called c m rest .cn map
  let m0 : Climap := { m with data := rest }
  let s1 := (s0.prepared fd c m0 map).identified (cdOf map) fd
  have hself : s0.heap c = some m0 := heap_called rest .cn map
  have hm0 : m0.Fresh := ⟨hm.state, hm.param⟩
  have ha : accepts map := (accepts_of_refusal hr).1
  have hopen : m.client = true := by
    obtain ⟨m', hh', -, -, hc⟩ := h.wf.live fd c hl
    rw [hh] at hh'
    cases hh'
    exact hc
  have h0 : Sane none s0 := h.called hh rest .cn map
  have h1 : Sane (some c) s1 := h0.identified hl hself hm0 ha
  have hroll : s0.roll = s.roll := roll_called hh rest .cn map
  have hout : s.roll c = none := (roll_of_heap hh).trans (member_fresh hm)
  have hnext : Bus.next s.roll (.join c (memberOf map) (connectMessage map)) =
      Function.update s.roll c (some (memberOf map)) := Bus.next_join_of_stranger hout
  have hsaid : Bus.said s.roll (.join c (memberOf map) (connectMessage map)) = connectMessage map :=
    Bus.said_join_of_stranger hout
  have hlisten : ∀ c' topic, Bus.listens (Bus.next s.roll (.join c (memberOf map) (connectMessage map))) c' topic =
      s1.listening c' topic := by
    intro c' topic
    rw [hnext]
    by_cases hcc : c' = c
    · subst hcc
      have hheap : s1.heap c' = some { m0 with param := some (cnParam map) } := Function.update_self c' _ _
      simp [Bus.listens, St.listening, hheap, memberOf, Climap.topics, cnParam_topics ha, m0, hopen]
    · have hheap : s1.heap c' = s0.heap c' := Function.update_of_ne hcc _ _
      calc Bus.listens (Function.update s.roll c (some (memberOf map))) c' topic
          = Bus.listens s.roll c' topic := by simp [Bus.listens, Function.update_of_ne hcc]
        _ = s0.listening c' topic := by rw [← hroll, h0.listens]
        _ = s1.listening c' topic := by simp [St.listening, hheap]
  have hcall : callsOf [.dispatch c .cn map] = [.join c (memberOf map) (connectMessage map)] := by
    simp [callsOf, Out.call, ha]
  have hlog1 : s1.log = s.log ++ [.dispatch c .cn map] := rfl
  obtain ⟨outs, hlog, hcalls, hpubs⟩ := uttered_heard env (.join c (memberOf map) (connectMessage map))
    h1.wf h1.subs hlog1 hcall (fun _ => rfl) hlisten
  rw [hsaid, ← announced_eq] at hlog
  have hca : (s0.admitted env fd c m0 map).log =
      s.log ++ (outs ++ [.write c (.ca 0 (ascii "ok")) (env.frame (.ca 0 (ascii "ok"))) true]) := by
    show (s1.announced env map).log ++ _ = _
    rw [hlog, List.append_assoc]
  have hjoin : Bus.next s.roll (.join c (memberOf map) (connectMessage map)) =
      (s0.admitted env fd c m0 map).roll := by
    have hacc : ({ m0 with param := some (cnParam map), state := .stAuth } : Climap).Accepted map :=
      ⟨rfl, rfl, ha⟩
    have hheap : (s0.admitted env fd c m0 map).heap =
        Function.update s0.heap c (some { m0 with param := some (cnParam map), state := .stAuth }) := by
      show Function.update (s1.announced env map).heap c _ = _
      rw [heap_announced]
      exact Function.update_idem _ _ _
    rw [hnext, ← hroll, roll_update hheap, member_accepted hacc hopen]
  refine .call hca (by rw [callsOf_append, hcalls]; rfl) hjoin fun c' => ?_
  rw [publicationsTo_append, hpubs]
  exact List.append_nil _

/-- **A refused cn command**, with the close that follows: the bus takes no notice. -/
theorem plays_refused (env : Env) (hl : s.clientmap.lookup fd = some c) (hh : s.heap c = some m)
    (hm : m.Fresh) (rest err : Bytes) (hP : Discreet (s.called c m rest .cn map) map)
    (hr : refusal (s.called c m rest .cn map) map ≠ none) :
    Plays s ((((s.called c m rest .cn map).prepared fd c { m with data := rest } map).answered env c 1
      err).calmClose env fd) := by
  let s0 := s.called c m rest .cn map
  let m1 : Climap := { m with data := rest, param := some (cnParam map) }
  let s1 := (s0.prepared fd c { m with data := rest } map).answered env c 1 err
  have hno : ¬ accepts map := fun ha => hr (refusal_eq_none ha (hP.free hr))
  have hout : s.roll c = none := (roll_of_heap hh).trans (member_fresh hm)
  have ht2c : s1.topic2client = s0.topic2client := by
    show (registered map).foldl (addSub fd) s0.topic2client = _
    rw [(hP.registered hr).1, List.foldl_nil]
  -- nobody is subscribed to the topic of its will
  have hwill : ∃ outs, ((s1.shut fd c m1).uttered env (cnParam map).will).log = (s1.shut fd c m1).log ++ outs ∧
      outs = [] := by
    cases hw : (cnParam map).will with
    | none => exact ⟨[], (List.append_nil _).symm, rfl⟩
    | some will =>
      have hquiet := hP.unheard hr
      simp only [Unheard, hw] at hquiet
      have htopics : m1.topics = [] := (hP.registered hr).2
      have hsubs : (s1.shut fd c m1).subs will.1 = [] := by
        show ((if will.1 ∈ m1.topics then _ else s1.topic2client will.1 : Option (List Fd))).getD [] = []
        rw [htopics, if_neg List.not_mem_nil, ht2c]
        exact hquiet
      have hvisit : env.visit (s1.shut fd c m1).log ((s1.shut fd c m1).subs will.1) = [] := by
        have hperm := env.visit_perm (s1.shut fd c m1).log ((s1.shut fd c m1).subs will.1)
        rw [hsubs] at hperm ⊢
        exact hperm.eq_nil
      refine ⟨_, rfl, ?_⟩
      rw [hvisit]
      rfl
  obtain ⟨_, hlog, rfl⟩ := hwill
  have hclosed : s1.calmClose env fd = (s1.shut fd c m1).uttered env (cnParam map).will := by
    rw [calmClose_eq (s := s1) (m := m1) hl (Function.update_self c _ _), closed_eq]
    rfl
  have hroll : (s1.calmClose env fd).roll = s.roll := by
    have hheap : (s1.calmClose env fd).heap =
        Function.update s.heap c (some { m1 with timer := false, client := false }) := by
      rw [hclosed, heap_uttered]
      show Function.update (Function.update (Function.update s.heap c _) c _) c _ = _
      rw [Function.update_idem, Function.update_idem]
    rw [roll_update hheap]
    simp only [Climap.member, Bool.false_eq_true, false_and, if_false]
    rw [← hout, Function.update_eq_self]
  have hclosing : (s1.calmClose env fd).log = s.log ++ [.dispatch c .cn map,
      .write c (.ca 1 err) (env.frame (.ca 1 err)) true, .closeTimer c, .closeClient c] := by
    rw [hclosed, hlog, List.append_nil]
    show ((s.log ++ _) ++ _) ++ _ = _
    simp only [List.append_assoc, List.cons_append, List.nil_append]
  have hleave : Bus.next s.roll (.leave c) = (s1.calmClose env fd).roll := by
    rw [hroll]
    show Function.update s.roll c none = s.roll
    rw [← hout, Function.update_eq_self]
  have hsaid : Bus.said s.roll (.leave c) = none := by
    show (s.roll c).bind Bus.Member.will = none
    rw [hout, Option.bind_none]
  have hjoin : Out.call (.dispatch c .cn map) = none := if_neg hno
  refine .call hclosing (List.filterMap_cons_none hjoin) hleave fun c' => ?_
  rw [Bus.hears_of_said_none hsaid]
  rfl

/-- What is written to a connection apart from publications. -/
theorem plays_write (c : Conn) {msg : Msg} (frame : Bytes) (hmsg : ∀ topic payload, msg ≠ .pb topic payload) :
    Plays s (s.logged (.write c msg frame true)) := by
  refine .quiet rfl rfl (fun c' => ?_) rfl
  cases msg with
  | pb topic payload => exact absurd rfl (hmsg topic payload)
  | ca => rfl
  | po => rfl

/-- A connection that a command has closed is not closed again. -/
theorem calmClose_twice (hl : s.clientmap.lookup fd = some c) (hh : s.heap c = some m) :
    (s.calmClose env fd).calmClose env fd = s.calmClose env fd := by
  apply calmClose_none
  rw [calmClose_eq hl hh, clientmap_closed]
  exact AList.lookup_erase fd _

/-- **A command**, with the close that follows if it fails. -/
theorem plays_handle (h : Sane none s) (hl : s.clientmap.lookup fd = some c) (hh : s.heap c = some m)
    (rest : Bytes) (cmd : Cmd) (map : Fields)
    (hP : cmd = .cn → m.state = .stNew → Discreet (s.called c m rest .cn map) map) :
    Plays s (calmHandle env fd c { m with data := rest } map (s.called c m rest cmd map) cmd).2 := by
  have h0 := h.called hh rest cmd map
  have hself : (s.called c m rest cmd map).heap c = some { m with data := rest } := heap_called rest cmd map
  have hclose : Plays (s.called c m rest cmd map) ((s.called c m rest cmd map).calmClose env fd) :=
    plays_close h0 env fd
  -- a connection in `st_auth` is on the bus, one in `st_new` is not
  have hin : m.state = .stAuth → (s.roll c).isSome = true := by
    intro hst
    obtain ⟨m', hh', -, -, hc⟩ := h.wf.live fd c hl
    rw [hh] at hh'
    cases hh'
    rw [roll_of_heap hh, Climap.member, if_pos ⟨hc, hst⟩]
    rfl
  have hout : m.state = .stNew → s.roll c = none := fun hst => by
    rw [roll_of_heap hh, Climap.member, if_neg (by simp [hst])]
  unfold calmHandle calmCommand
  cases cmd with
  | cn =>
    cases hst : m.state with
    | stAuth =>
      have hcalled := plays_called hh rest .cn map fun call hcall => by
        obtain ⟨-, hcall⟩ := Option.ite_none_right_eq_some.mp hcall
        cases hcall
        exact ⟨Bus.said_join_of_member (hin hst), Bus.next_join_of_member (hin hst)⟩
      have hca : Plays (s.called c m rest .cn map) ((s.called c m rest .cn map).answered env c 1
          (ascii "invalid state")) := plays_write c _ fun _ _ => by simp
      exact (hcalled.trans hca).trans (plays_close (h0.logged _) env fd)
    | stNew =>
      have hm : m.Fresh := h.settled.fresh hl hh hst
      cases hr : refusal (s.called c m rest .cn map) map with
      | some err =>
        have hrefused := plays_refused env hl hh hm rest err (hP rfl hst) (by simp [hr])
        simpa only [hst] using hrefused
      | none =>
        have hadmitted := plays_admitted env h hl hh hm rest hr
        simpa only [hst] using hadmitted
  | dc =>
    have hcalled := plays_called hh rest .dc map fun call hcall => by cases hcall
    show Plays s (((s.called c m rest .dc map).calmClose env fd).calmClose env fd)
    rw [calmClose_twice (s := s.called c m rest .dc map) hl hself]
    exact hcalled.trans hclose
  | pb =>
    cases hst : m.state with
    | stNew =>
      refine (plays_called hh rest .pb map fun call hcall => ?_).trans hclose
      obtain ⟨message, rfl⟩ : ∃ message, call = .say c message := by
        simp only [Out.call] at hcall
        split at hcall
        · exact ⟨_, (Option.some.inj hcall).symm⟩
        · cases hcall
      exact ⟨Bus.said_say_of_stranger (hout hst), rfl⟩
    | stAuth =>
      cases htp : map.get "tp" with
      | none =>
        refine (plays_called hh rest .pb map fun call hcall => ?_).trans hclose
        simp [Out.call, htp] at hcall
      | some topic =>
        cases hpl : map.get "pl" with
        | none =>
          refine (plays_called hh rest .pb map fun call hcall => ?_).trans hclose
          simp [Out.call, htp, hpl] at hcall
        | some payload => exact plays_publish h hh (hin hst) rest htp hpl
  | pi =>
    have hcalled := plays_called hh rest .pi map fun call hcall => by cases hcall
    cases hst : m.state with
    | stNew => exact hcalled.trans hclose
    | stAuth => exact hcalled.trans (plays_write c _ fun _ _ => by simp)

/-! ## Callbacks and runs -/

theorem plays_turn (hok : env.AllOk) (h : Sane none s) (hl : s.clientmap.lookup fd = some c) {b : Bool}
    (hP : CnOk env (fun s _ map => Discreet s map) fd c s) (hturn : turn env fd c s = .ok b s') : Plays s s' := by
  obtain ⟨m, hh, -, -, -⟩ := h.wf.live fd c hl
  have hcalm : s' = (calmTurn env fd c m s).2 := congrArg Prod.snd (turn_calm hok h.wf hl hh hturn)
  rw [hcalm]
  unfold calmTurn
  obtain ⟨next, hnext⟩ := readCommand_total m.data
  rw [hnext]
  cases next with
  | wait => exact .refl
  | refuse rest err =>
    have htrimmed : Plays s (s.withData c m rest) :=
      .quiet (List.append_nil _).symm rfl (fun _ => rfl) (roll_same rfl hh rfl)
    exact htrimmed.trans (plays_close (h.withData rest hh) env fd)
  | call cmd map rest =>
    apply plays_handle h hl hh rest cmd map
    rintro rfl hst
    exact hP s .refl m map rest hh hst hnext

theorem plays_dataLoop (hok : env.AllOk) (fuel : Nat) (h : Sane none s) (hs : Serving fd c s)
    (hl : s.clientmap.lookup fd = some c) (hP : CnOk env (fun s _ map => Discreet s map) fd c s) {b : Bool}
    (hloop : dataLoop env fd c fuel s = .ok b s') : Plays s s' := by
  induction fuel generalizing s with
  | zero =>
    cases hloop
    exact .refl
  | succ fuel ih =>
    obtain ⟨m, hh, -, -, -⟩ := h.wf.live fd c hl
    unfold dataLoop at hloop
    rw [bind_of_ok (climapOf_eq hh)] at hloop
    by_cases hdata : m.data = []
    · rw [if_pos hdata] at hloop
      cases hloop
      exact .refl
    · rw [if_neg hdata] at hloop
      obtain ⟨go, s1, hturn, hrest⟩ := bind_eq_ok.mp hloop
      have hplays := plays_turn hok h hl hP hturn
      cases go with
      | false =>
        cases hrest
        exact hplays
      | true =>
        -- the loop goes on with the connection still registered
        have hcalm := turn_calm hok h.wf hl hh hturn
        have hgo : Going fd c s1 := by
          have hgo := calmTurn_going env (m := m) hl (by rw [← hcalm])
          rwa [← hcalm] at hgo
        have h1 : Sane none s1 := turn_sane (fun _ _ _ hP => hP.tidy) h hs hP hturn
        exact hplays.trans (ih h1 (hs.moves ((moves_turn hs hP).1 _ _ hturn)) hgo.1 (hP.turned hturn) hrest)

theorem plays_afterLoop {b : Bool} (h : (if b then restartTimer c else pure ()) s = .ok () s') : Plays s s' := by
  cases b with
  | true =>
    obtain ⟨-, -, -, ms, -, -, -, -, -, rfl⟩ := restartTimer_ok h
    exact .quiet (List.append_assoc s.log [.timerStop c] [.timerStart c ms]) rfl (fun _ => rfl) rfl
  | false =>
    cases h
    exact .refl

/-- **What an event does on the bus.** -/
theorem plays_step (hok : env.AllOk) (h : Sane none s) {ev : Event}
    (hP : EventOk env (fun s _ map => Discreet s map) s ev) (hstep : step env ev s = .ok () s') : Plays s s' := by
  by_cases hen : enabled s ev = true
  · have heq : step env ev s = handle env ev s := if_pos hen
    cases ev with
    | accept c fd =>
      obtain ⟨hheap, -, hconn⟩ := step_accept env h.wf hen
      rw [hconn] at hstep
      cases hstep
      have hroll : (s.connected c fd).roll = s.roll := by
        have hnew : (s.connected c fd).heap = Function.update s.heap c (some ⟨fd, [], none, .stNew, true, true⟩) := rfl
        have hout : s.roll c = none := by rw [St.roll, hheap, Option.bind_none]
        rw [roll_update hnew, member_fresh ⟨rfl, rfl⟩, ← hout, Function.update_eq_self]
      exact .quiet rfl rfl (fun _ => rfl) hroll
    | chunk c data =>
      obtain ⟨hopen, -⟩ : s.isOpen c = true ∧ data ≠ [] := by simpa [enabled] using hen
      obtain ⟨m, hh, hc⟩ := isOpen_iff.mp hopen
      have hl : (s.received c m data).clientmap.lookup m.fd = some c := h.wf.registered c m hh (.inr hc)
      have hrecv : Sane none (s.received c m data) := (h.logged (.recv c data)).withData _ hh
      have hreceived : Plays s (s.received c m data) := .quiet rfl rfl (fun _ => rfl) (roll_same rfl hh rfl)
      rw [heq, handle_chunk_eq h.wf data hh hc] at hstep
      obtain ⟨b, s1, hloop, hafter⟩ := bind_eq_ok.mp hstep
      have hplays := plays_dataLoop hok _ hrecv (Serving.received h.wf data hh hc) hl (hP hen m hh) hloop
      exact (hreceived.trans hplays).trans (plays_afterLoop hafter)
    | closed c err =>
      obtain ⟨m, hh, -⟩ := isOpen_iff.mp (show s.isOpen c = true from hen)
      rw [heq, handle, bind_of_ok (climapOf_eq hh)] at hstep
      rw [closeClient_calmClose hok h.wf hstep]
      exact plays_close h env m.fd
    | timeout c =>
      rw [heq, handle] at hstep
      obtain ⟨m, s1, hm, hclose⟩ := bind_eq_ok.mp hstep
      obtain ⟨rfl, -⟩ := climapOf_ok hm
      rw [closeClient_calmClose hok h.wf hclose]
      exact plays_close h env m.fd
  · have heq : step env ev s = .ok () s := if_neg hen
    rw [heq] at hstep
    cases hstep
    exact .refl

/-- What an event keeps, from `new()` on. -/
theorem Plays.step (hok : env.AllOk) (h : Sane none s ∧ Plays .new s) {ev : Event}
    (hP : EventOk env (fun s _ map => Discreet s map) s ev) (hstep : Sand.step env ev s = .ok () s') :
    Sane none s' ∧ Plays .new s' :=
  ⟨(step_invariant (I := Sane none) (fun _ _ _ _ h hheap hl => h.connected hheap hl)
    (fun _ _ _ h hm => h.move (hm.mono fun _ _ _ hP => hP.tidy.clean)) ⟨h.1.wf, h.1⟩ hP hstep).2,
    h.2.trans (plays_step hok h.1 hP hstep)⟩

/-- The bus from its beginning. -/
theorem Plays.bus (h : Plays .new s) :
    Bus.after .empty (callsOf s.log) = s.roll ∧ ∀ c, publicationsTo c s.log = Bus.heard c .empty (callsOf s.log) := by
  obtain ⟨outs, hlog, hafter, hpubs⟩ := h
  rw [show s.log = outs from hlog]
  exact ⟨hafter, hpubs⟩

end Bus

/-- **The broker is a bus.** In a run in which every write is accepted and every refused cn
command is discreet, the connections in `st_auth` are the members that the calls in the log
leave on the bus, and each connection has been sent what the bus lets it hear. -/
theorem refines_bus {env : Env} (hok : env.AllOk) {evs : List Event}
    (hP : CnAlong env (fun s _ map => Discreet s map) evs) {s : St} (h : run env evs = .ok () s) :
    Bus.after .empty (callsOf s.log) = s.roll ∧
      ∀ c, publicationsTo c s.log = Bus.heard c .empty (callsOf s.log) := by
  have hinv := Exec.run_invariant (I := fun s => Sane none s ∧ Plays .new s)
    (fun _ _ _ h0 hQ hstep => Plays.step hok h0 hQ hstep) ⟨.new, .refl⟩ hP h
  exact hinv.2.bus

/-- A client with a connect message and a will comes, publishes, and goes silent; a stranger
with a wrong password is turned away. -/
def busRun : List Event :=
  [.accept 0 5, .chunk 0 (cnFrame "x" "5" "a	w" []), .accept 1 6,
    .chunk 1 (cnFrame "y" "5" "a" [("ct", ascii "a"), ("cp", ascii "hello"), ("wt", ascii "w"), ("wp", ascii "bye")] ++
      commandFrame [("id", ascii "pb"), ("tp", ascii "a"), ("pl", ascii "z")]),
    .accept 2 7, .chunk 2 (commandFrame [("id", ascii "cn"), ("cd", ascii "q"), ("un", ascii "u")]), .timeout 1]

theorem refines_bus_will : ∃ s, run .calm busRun = .ok () s ∧
    publicationsTo 0 s.log = [(ascii "a", ascii "hello"), (ascii "a", ascii "z"), (ascii "w", ascii "bye")] ∧
    Bus.after .empty (callsOf s.log) = s.roll ∧
      ∀ c, publicationsTo c s.log = Bus.heard c .empty (callsOf s.log) := by
  obtain ⟨s, hrun, hs⟩ := exists_of_endsIn
    (p := fun s => decide (publicationsTo 0 s.log =
      [(ascii "a", ascii "hello"), (ascii "a", ascii "z"), (ascii "w", ascii "bye")]))
    (r := run .calm busRun) (by decide +kernel)
  refine ⟨s, hrun, of_decide_eq_true hs, refines_bus (fun _ _ => rfl) (CnAlong.mono
    (fun _ _ map h => of_decide_eq_true h) (cnAlong_of_check (p := fun s _ map => decide (Discreet s map)) ?_)) hrun⟩
  decide +kernel

end ApApps.Sand

import ApApps.Nredis.Reply

/- The queue of redis calls of mredis.lua.

   Every invocation of `call` is a caller of its own, named by the `id` it takes. A caller
   runs from one wait to the next: an event is the end of a wait of one of them, or a new
   invocation, or a turn of `check`; an event that does not fit the phase of its caller
   does nothing. `rds:call` waits for the write and then for the reply, whose pieces are read
   in one event: nobody else touches the connection meanwhile, as `turn_run` shows.

   The connection is that of nredis.lua: the reader of bufio.lua keeps its buffer, and the
   error it has failed with, from one reply to the next. The server is taken to answer each
   command it gets with some bytes; which command they answer is known as long as it has got
   whole commands only. An error that is raised ends its own coroutine alone, as it does under
   `pcall`; otherwise it ends `se.run`. -/
namespace ApApps.Mredis
open Exec ApApps.Bufio ApApps.Nredis

/-! ## The state -/

/-- `cmd` and `args`, as `tostring` has them. -/
structure Command where
  cmd : Bytes
  args : List Bytes
  deriving DecidableEq

/-- The strings that are written. -/
def Command.strings (c : Command) : List Bytes := c.cmd :: c.args

structure Item where
  command : Command
  currentId : Nat
  deriving DecidableEq

structure Ins where
  currentItem : Option Item
  currentId : Nat
  cache : List Item
  isblpop : Bool

/-- Where a caller is. -/
inductive Phase where
  | absent
  /-- in `se.sleep(0.01)` -/
  | waiting (c : Command)
  /-- in the `se.write` of `rds:call` -/
  | writing (c : Command)
  /-- in the `redis_read_object` of `rds:call` -/
  | reading (c : Command)
  | returned (c : Command) (res : Result Obj)
  | raised

/-- The connection: the reader's own variables, and the server. -/
structure Conn where
  fd : Nat
  buf : Option Bytes
  pos : Nat
  err : Option Bytes
  /-- answered, and not read yet -/
  inflight : Bytes
  /-- the server has got whole commands only -/
  inStep : Bool
  /-- what it has answered to the command of each caller -/
  replies : Nat → Option Bytes

structure St where
  ins : Ins
  phase : Nat → Phase
  conn : Conn

/-- `connect(rds_addr, isblpop)`. -/
def St.new (fd : Nat) (isblpop : Bool) : St :=
  { ins := { currentItem := none, currentId := 0, cache := [], isblpop }
    phase := fun _ => .absent
    conn := { fd, buf := some [], pos := 1, err := none, inflight := [], inStep := true, replies := fun _ => none } }

def St.setPhase (s : St) (i : Nat) (p : Phase) : St := { s with phase := Function.update s.phase i p }

/-- The reader, and what `se.read` returns to it during one reply: some pieces, and an error if
it asks for more. -/
def Conn.reader (conn : Conn) (pieces : List Bytes) (fin : Bytes) : Reader :=
  { fd := conn.fd, buf := conn.buf, pos := conn.pos, err := conn.err, pieces, fin }

/-- What is left as `r` after a reply; pieces that were not asked for are still to come. -/
def Conn.after (conn : Conn) (pieces : List Bytes) (r : Reader) : Conn :=
  { conn with
    buf := r.buf
    pos := r.pos
    err := r.err
    inflight := r.coming.flatten ++ conn.inflight.drop pieces.flatten.length }

/-- A reply is not nested deeper than it has bytes. -/
def Conn.depth (conn : Conn) : Nat := (conn.buf.getD []).length + conn.inflight.length + 1

/-! ## The functions -/

def nextItem (ins : Ins) : Ins × Bool :=
  match ins.currentItem with
  | some _ => (ins, false)
  | none =>
    match ins.cache with
    | [] => (ins, false)
    | item :: cache => ({ ins with currentItem := some item, cache }, true)

/-- The command is one for this instance. -/
def suits (isblpop : Bool) (c : Command) : Bool :=
  if isblpop then c.cmd = ascii "blpop" || c.cmd = ascii "auth" else c.cmd ≠ ascii "blpop"

/-- `%s` cuts none of its strings, so that the server gets the command as a whole
(`Nredis.resp_command`). -/
def Command.intact (c : Command) : Bool := c.strings.all fun a => formatS a = a

/-- The waiting loop of `call`, from the test on, and what follows it. -/
def tryEnter (s : St) (id : Nat) (c : Command) : St :=
  if s.ins.currentItem.map Item.currentId = some id then
    if suits s.ins.isblpop c then s.setPhase id (.writing c) else s.setPhase id .raised
  else s.setPhase id (.waiting c)

/-- The new item is inserted at the end of the cache. -/
def enqueue (ins : Ins) (c : Command) : Ins :=
  { ins with currentId := ins.currentId + 1, cache := ins.cache ++ [⟨c, ins.currentId⟩] }

/-- `call`, up to its first wait. -/
def invoke (s : St) (c : Command) : St :=
  tryEnter { s with ins := (nextItem (enqueue s.ins c)).1 } s.ins.currentId c

/-- The end of `call`. -/
def finish (s : St) (id : Nat) (c : Command) (res : Result Obj) : St :=
  { s with ins := (nextItem { s.ins with currentItem := none }).1 }.setPhase id (.returned c res)

/-- `se.write` has returned nil: the server answers with `text`. -/
def wrote (s : St) (id : Nat) (c : Command) (text : Bytes) : St :=
  let whole := s.conn.inStep && c.intact
  let conn := { s.conn with
    inflight := s.conn.inflight ++ text
    inStep := whole
    replies := if whole then Function.update s.conn.replies id (some text) else s.conn.replies }
  { s with conn }.setPhase id (.reading c)

/-- `se.write` has returned an error, after `sent` bytes have gone out. -/
def failed (s : St) (id : Nat) (c : Command) (err : Bytes) (sent : Nat) : St :=
  finish { s with conn := { s.conn with inStep := s.conn.inStep && sent = 0 } } id c (.error (some err))

/-- `redis_read_object`, on these pieces of what is in flight. -/
def answered (s : St) (id : Nat) (c : Command) (pieces : List Bytes) (fin : Bytes) : St :=
  match redisReadObject s.conn.depth (s.conn.reader pieces fin) with
  | .ok res r => finish { s with conn := s.conn.after pieces r } id c res
  | .error _ r => { s with conn := s.conn.after pieces r }.setPhase id .raised

inductive Event where
  | call (c : Command)
  | wake (id : Nat)
  | wrote (id : Nat) (text : Bytes)
  | failed (id : Nat) (err : Bytes) (sent : Nat)
  | answered (id : Nat) (pieces : List Bytes) (fin : Bytes)
  | check

def step (s : St) : Event → St
  | .call c => invoke s c
  | .wake id =>
    match s.phase id with
    | .waiting c => tryEnter s id c
    | _ => s
  | .wrote id text =>
    match s.phase id with
    | .writing c => wrote s id c text
    | _ => s
  | .failed id err sent =>
    match s.phase id with
    | .writing c => if sent < (redisFormatCommand c.strings).length then failed s id c err sent else s
    | _ => s
  | .answered id pieces fin =>
    match s.phase id with
    | .reading c => if pieces.flatten <+: s.conn.inflight then answered s id c pieces fin else s
    | _ => s
  | .check => if s.ins.currentItem.isSome then s else { s with ins := (nextItem s.ins).1 }

def run (s : St) (es : List Event) : St := es.foldl step s

/-! ## Whose turn it is -/

/-- Inside `rds:call`. -/
def Phase.inside : Phase → Bool
  | .writing _ | .reading _ => true
  | _ => false

/-- Past the waiting loop. -/
def Phase.entered : Phase → Bool
  | .absent | .waiting _ => false
  | _ => true

/-- What the next caller may be at. -/
inductive Phase.Own : Phase → Prop where
  | waiting (c : Command) : Own (.waiting c)
  | writing (c : Command) : Own (.writing c)
  | reading (c : Command) : Own (.reading c)
  | raised : Own .raised

/-- Caller `k` is next: those before it have returned, those after it wait in the cache, in
order. -/
structure Turn (s : St) (k : Nat) : Prop where
  le : k ≤ s.ins.currentId
  before : ∀ i < k, ∃ c res, s.phase i = .returned c res
  after : ∀ i, k < i → i < s.ins.currentId → ∃ c, s.phase i = .waiting c
  absent : ∀ i, s.ins.currentId ≤ i → s.phase i = .absent
  /-- its own phase, if there is such a caller -/
  own : k < s.ins.currentId → (s.phase k).Own
  current : s.ins.currentItem.map Item.currentId = if k < s.ins.currentId then some k else none
  cache : s.ins.cache.map Item.currentId = List.range' (k + 1) (s.ins.currentId - (k + 1))

theorem turn_new (fd : Nat) (isblpop : Bool) : Turn (St.new fd isblpop) 0 where
  le := Nat.le_refl 0
  before := fun i hi => absurd hi (Nat.not_lt_zero i)
  after := fun i _ hi => absurd hi (Nat.not_lt_zero i)
  absent := fun _ _ => rfl
  own := fun h => absurd h (Nat.lt_irrefl 0)
  current := rfl
  cache := rfl

section Steps
variable {s : St} {k : Nat}

@[simp] theorem setPhase_ins (s : St) (i : Nat) (p : Phase) : (s.setPhase i p).ins = s.ins := rfl

@[simp] theorem setPhase_conn (s : St) (i : Nat) (p : Phase) : (s.setPhase i p).conn = s.conn := rfl

@[simp] theorem setPhase_self (s : St) (i : Nat) (p : Phase) : (s.setPhase i p).phase i = p :=
  Function.update_self ..

theorem setPhase_ne (s : St) {i j : Nat} (p : Phase) (h : j ≠ i) : (s.setPhase i p).phase j = s.phase j :=
  Function.update_of_ne h ..

theorem setPhase_same {s : St} {i : Nat} {p : Phase} (h : s.phase i = p) : s.setPhase i p = s := by
  subst h
  unfold St.setPhase
  rw [Function.update_eq_self]

/-- `next_item` keeps the counter. -/
@[simp] theorem nextItem_currentId (ins : Ins) : (nextItem ins).1.currentId = ins.currentId := by
  unfold nextItem
  split
  · rfl
  · split <;> rfl

@[simp] theorem nextItem_isblpop (ins : Ins) : (nextItem ins).1.isblpop = ins.isblpop := by
  unfold nextItem
  split
  · rfl
  · split <;> rfl

/-- With the place free, the first of the cache moves up. -/
theorem nextItem_free {ins : Ins} (hfree : ins.currentItem = none) {n m : Nat}
    (hcache : ins.cache.map Item.currentId = List.range' n (m - n)) :
    (nextItem ins).1.currentItem.map Item.currentId = (if n < m then some n else none) ∧
      (nextItem ins).1.cache.map Item.currentId = List.range' (n + 1) (m - (n + 1)) := by
  unfold nextItem
  rw [hfree]
  cases hc : ins.cache with
  | nil =>
    rw [hc] at hcache
    have hlen := congrArg List.length hcache
    rw [List.map_nil, List.length_nil, List.length_range'] at hlen
    have hle : m - (n + 1) = 0 := by omega
    simp only [hfree, hc, hle]
    rw [if_neg (by omega)]
    exact ⟨rfl, rfl⟩
  | cons item cache =>
    rw [hc] at hcache
    have hlen := congrArg List.length hcache
    rw [List.length_map, List.length_cons, List.length_range'] at hlen
    obtain ⟨d, hd⟩ : ∃ d, m - n = d + 1 := ⟨m - n - 1, by omega⟩
    rw [hd, List.range'_succ, List.map_cons] at hcache
    obtain ⟨hid, hrest⟩ := List.cons.inj hcache
    rw [if_pos (by omega), show m - (n + 1) = d by omega]
    exact ⟨congrArg some hid, hrest⟩

/-- Somebody's place is taken. -/
theorem nextItem_taken {ins : Ins} {item : Item} (h : ins.currentItem = some item) : (nextItem ins).1 = ins := by
  unfold nextItem
  rw [h]

/-- There is a caller with a phase. -/
theorem lt_of_phase (h : Turn s k) {i : Nat} (hi : s.phase i ≠ .absent) : i < s.ins.currentId := by
  by_contra hn
  exact hi (h.absent i (by omega))

/-- Caller `k` is done, and the one after it is next. -/
theorem turn_finish (h : Turn s k) (hk : k < s.ins.currentId) (c : Command) (res : Result Obj) (conn : Conn) :
    Turn (finish { s with conn } k c res) (k + 1) := by
  have hfree : ({ s.ins with currentItem := none } : Ins).currentItem = none := rfl
  obtain ⟨hcur, hcache⟩ := nextItem_free hfree h.cache
  have hid : (nextItem { s.ins with currentItem := none }).1.currentId = s.ins.currentId :=
    nextItem_currentId _
  have hphase : ∀ i, i ≠ k → (finish { s with conn } k c res).phase i = s.phase i := fun i hi =>
    setPhase_ne _ _ hi
  have hself : (finish { s with conn } k c res).phase k = .returned c res := setPhase_self ..
  have hins : (finish { s with conn } k c res).ins = (nextItem { s.ins with currentItem := none }).1 := rfl
  refine ⟨?_, fun i hi => ?_, fun i hi hn => ?_, fun i hi => ?_, fun hn => ?_, ?_, ?_⟩
  · rw [hins, hid]
    exact hk
  · by_cases hik : i = k
    · subst hik
      exact ⟨c, res, hself⟩
    · rw [hphase i hik]
      exact h.before i (by omega)
  · rw [hins, hid] at hn
    rw [hphase i (by omega)]
    exact h.after i (by omega) hn
  · rw [hins, hid] at hi
    rw [hphase i (by omega)]
    exact h.absent i hi
  · rw [hins, hid] at hn
    rw [hphase (k + 1) (by omega)]
    obtain ⟨c', hc'⟩ := h.after (k + 1) (by omega) hn
    rw [hc']
    exact .waiting c'
  · rw [hins, hid]
    exact hcur
  · rw [hins, hid]
    exact hcache

/-- Whoever waits and is not next goes on waiting. -/
theorem tryEnter_waiting (h : Turn s k) {i : Nat} {c : Command} (hi : s.phase i = .waiting c) (hik : i ≠ k) :
    tryEnter s i c = s := by
  unfold tryEnter
  rw [h.current, if_neg, setPhase_same hi]
  split
  · rintro ⟨rfl⟩
    exact hik rfl
  · nofun

/-- The next caller changes its phase, and perhaps the connection. -/
theorem turn_setOwn (h : Turn s k) (hk : k < s.ins.currentId) {p : Phase} (hp : p.Own) (conn : Conn) :
    Turn (St.setPhase { s with conn } k p) k where
  le := h.le
  before i hi := by
    rw [setPhase_ne _ _ (by omega)]
    exact h.before i hi
  after i hi hn := by
    rw [setPhase_ne _ _ (by omega)]
    exact h.after i hi hn
  absent i hi := by
    have hi : s.ins.currentId ≤ i := hi
    rw [setPhase_ne _ _ (by omega)]
    exact h.absent i hi
  own _ := by
    rw [setPhase_self]
    exact hp
  current := h.current
  cache := h.cache

/-- The next caller leaves the loop, or raises. -/
theorem turn_tryEnter (h : Turn s k) (hk : k < s.ins.currentId) (c : Command) : Turn (tryEnter s k c) k := by
  unfold tryEnter
  split
  · split
    · exact turn_setOwn h hk (.writing c) s.conn
    · exact turn_setOwn h hk .raised s.conn
  · exact turn_setOwn h hk (.waiting c) s.conn

/-- A new caller joins the end of the cache, and the place if it is free. -/
theorem turn_enqueue (h : Turn s k) (c : Command) :
    Turn ({ s with ins := (nextItem (enqueue s.ins c)).1 }.setPhase s.ins.currentId (.waiting c)) k := by
  set ins := (nextItem (enqueue s.ins c)).1 with hins
  have hid : ins.currentId = s.ins.currentId + 1 := by
    rw [hins, nextItem_currentId]
    rfl
  have hplace : ins.currentItem.map Item.currentId = some k ∧
      ins.cache.map Item.currentId = List.range' (k + 1) (s.ins.currentId + 1 - (k + 1)) := by
    by_cases hk : k < s.ins.currentId
    · have hcur := h.current
      rw [if_pos hk] at hcur
      obtain ⟨item, hitem, _⟩ := Option.map_eq_some_iff.mp hcur
      rw [hins, nextItem_taken (show (enqueue s.ins c).currentItem = some item from hitem)]
      refine ⟨hcur, ?_⟩
      rw [enqueue, List.map_append, h.cache, show s.ins.currentId + 1 - (k + 1) = (s.ins.currentId - (k + 1)) + 1 by omega,
        List.range'_concat, List.map_cons, List.map_nil,
        show k + 1 + 1 * (s.ins.currentId - (k + 1)) = s.ins.currentId by omega]
    · obtain rfl : k = s.ins.currentId := by
        have := h.le
        omega
      have hcur := h.current
      rw [if_neg hk, Option.map_eq_none_iff] at hcur
      have hcache := h.cache
      rw [Nat.sub_eq_zero_of_le (by omega), List.range'_zero, List.map_eq_nil_iff] at hcache
      have hone : (enqueue s.ins c).cache.map Item.currentId =
          List.range' s.ins.currentId (s.ins.currentId + 1 - s.ins.currentId) := by
        rw [enqueue, hcache, Nat.add_sub_cancel_left]
        rfl
      obtain ⟨h1, h2⟩ := nextItem_free (show (enqueue s.ins c).currentItem = none from hcur) hone
      rw [if_pos (Nat.lt_succ_self _)] at h1
      exact ⟨h1, h2⟩
  have hle := h.le
  refine ⟨?_, fun i hi => ?_, fun i hi hn => ?_, fun i hi => ?_, fun hn => ?_, ?_, ?_⟩
  · rw [setPhase_ins, hid]
    omega
  · rw [setPhase_ne _ _ (by omega)]
    exact h.before i hi
  · rw [setPhase_ins, hid] at hn
    by_cases hin : i = s.ins.currentId
    · subst hin
      exact ⟨c, setPhase_self ..⟩
    · rw [setPhase_ne _ _ hin]
      exact h.after i hi (by omega)
  · rw [setPhase_ins, hid] at hi
    rw [setPhase_ne _ _ (by omega)]
    exact h.absent i (by omega)
  · by_cases hk : k = s.ins.currentId
    · rw [hk, setPhase_self]
      exact .waiting c
    · rw [setPhase_ne _ _ hk]
      exact h.own (by omega)
  · rw [setPhase_ins, hid, if_pos (by omega)]
    exact hplace.1
  · rw [setPhase_ins, hid]
    exact hplace.2

/-- Entering at once is waiting first. -/
theorem invoke_eq (s : St) (c : Command) :
    invoke s c = tryEnter ({ s with ins := (nextItem (enqueue s.ins c)).1 }.setPhase s.ins.currentId (.waiting c))
      s.ins.currentId c := by
  simp only [invoke, tryEnter, setPhase_ins]
  simp only [St.setPhase, Function.update_idem]

theorem turn_invoke (h : Turn s k) (c : Command) : Turn (invoke s c) k := by
  have henq := turn_enqueue h c
  rw [invoke_eq]
  by_cases hk : s.ins.currentId = k
  · subst hk
    refine turn_tryEnter henq ?_ c
    rw [setPhase_ins, nextItem_currentId]
    exact Nat.lt_succ_self _
  · rw [tryEnter_waiting henq (setPhase_self ..) hk]
    exact henq

/-- The reply to the next caller, or an error that is raised. -/
theorem turn_answered (h : Turn s k) (hk : k < s.ins.currentId) (c : Command) (pieces : List Bytes) (fin : Bytes) :
    ∃ k', Turn (answered s k c pieces fin) k' := by
  unfold answered
  split
  · next res r _ => exact ⟨k + 1, turn_finish h hk c res _⟩
  · next r _ => exact ⟨k, turn_setOwn h hk .raised _⟩

/-- Only the next caller is inside. -/
theorem inside_eq (h : Turn s k) {i : Nat} (hi : (s.phase i).inside = true) : i = k := by
  rcases Nat.lt_trichotomy i k with hlt | rfl | hgt
  · obtain ⟨c, res, hp⟩ := h.before i hlt
    rw [hp] at hi
    cases hi
  · rfl
  · by_cases hn : i < s.ins.currentId
    · obtain ⟨c, hp⟩ := h.after i hgt hn
      rw [hp] at hi
      cases hi
    · rw [h.absent i (by omega)] at hi
      cases hi

theorem eq_of_writing (h : Turn s k) {i : Nat} {c : Command} (hp : s.phase i = .writing c) :
    i = k ∧ k < s.ins.currentId := by
  obtain rfl := inside_eq h (show (s.phase i).inside = true by rw [hp]; rfl)
  exact ⟨rfl, lt_of_phase h (by rw [hp]; nofun)⟩

theorem eq_of_reading (h : Turn s k) {i : Nat} {c : Command} (hp : s.phase i = .reading c) :
    i = k ∧ k < s.ins.currentId := by
  obtain rfl := inside_eq h (show (s.phase i).inside = true by rw [hp]; rfl)
  exact ⟨rfl, lt_of_phase h (by rw [hp]; nofun)⟩

/-- With nobody at the place there is nobody to wait for it. -/
theorem nextItem_idle (h : Turn s k) (hfree : s.ins.currentItem = none) : (nextItem s.ins).1 = s.ins := by
  have hcur := h.current
  have hk : ¬ k < s.ins.currentId := fun hk => by
    rw [if_pos hk, hfree] at hcur
    cases hcur
  have hcache := h.cache
  rw [Nat.sub_eq_zero_of_le (by omega), List.range'_zero, List.map_eq_nil_iff] at hcache
  rw [nextItem, hfree, hcache]

/-- `check` finds nothing to do. -/
theorem step_check (h : Turn s k) : step s .check = s := by
  simp only [step]
  split
  · rfl
  · next hfree => rw [nextItem_idle h (Option.not_isSome_iff_eq_none.mp hfree)]

/-- **Whatever happens, callers are served in turn.** -/
theorem turn_step (h : Turn s k) (e : Event) : ∃ k', Turn (step s e) k' := by
  cases e with
  | call c => exact ⟨k, turn_invoke h c⟩
  | wake i =>
    simp only [step]
    split
    · next c hp =>
      by_cases hik : i = k
      · subst hik
        exact ⟨i, turn_tryEnter h (lt_of_phase h (by rw [hp]; nofun)) c⟩
      · rw [tryEnter_waiting h hp hik]
        exact ⟨k, h⟩
    · exact ⟨k, h⟩
  | wrote i text =>
    simp only [step]
    split
    · next c hp =>
      obtain ⟨rfl, hk⟩ := eq_of_writing h hp
      exact ⟨i, turn_setOwn h hk (.reading c) _⟩
    · exact ⟨k, h⟩
  | failed i err sent =>
    simp only [step]
    split
    · next c hp =>
      obtain ⟨rfl, hk⟩ := eq_of_writing h hp
      split
      · exact ⟨i + 1, turn_finish h hk c _ _⟩
      · exact ⟨i, h⟩
    · exact ⟨k, h⟩
  | answered i pieces fin =>
    simp only [step]
    split
    · next c hp =>
      obtain ⟨rfl, hk⟩ := eq_of_reading h hp
      split
      · exact turn_answered h hk c pieces fin
      · exact ⟨i, h⟩
    · exact ⟨k, h⟩
  | check =>
    rw [step_check h]
    exact ⟨k, h⟩

end Steps

/-- In every run, by induction on its events. -/
theorem turn_run {s : St} {k : Nat} (h : Turn s k) (es : List Event) : ∃ k', Turn (run s es) k' := by
  induction es generalizing s k with
  | nil => exact ⟨k, h⟩
  | cons e es ih =>
    obtain ⟨k', h'⟩ := turn_step h e
    exact ih h'

/-! ## A caller that raises -/

section Raised
variable {s : St} {k : Nat}

theorem tryEnter_phase_ne (s : St) {i j : Nat} (c : Command) (h : j ≠ i) :
    (tryEnter s i c).phase j = s.phase j := by
  unfold tryEnter
  split
  · split <;> exact setPhase_ne _ _ h
  · exact setPhase_ne _ _ h

/-- The turn of a caller that has raised does not end. -/
theorem raised_step (h : Turn s k) (hk : s.phase k = .raised) (e : Event) :
    Turn (step s e) k ∧ (step s e).phase k = .raised := by
  have hn := lt_of_phase h (show s.phase k ≠ .absent by rw [hk]; nofun)
  cases e with
  | call c =>
    refine ⟨turn_invoke h c, ?_⟩
    show (tryEnter _ _ _).phase k = _
    rw [tryEnter_phase_ne _ _ (by omega)]
    exact hk
  | wake i =>
    simp only [step]
    split
    · next c hp =>
      have hik : i ≠ k := by
        rintro rfl
        rw [hk] at hp
        cases hp
      rw [tryEnter_waiting h hp hik]
      exact ⟨h, hk⟩
    · exact ⟨h, hk⟩
  | wrote i text =>
    simp only [step]
    split
    · next c hp =>
      rw [(eq_of_writing h hp).1, hk] at hp
      cases hp
    · exact ⟨h, hk⟩
  | failed i err sent =>
    simp only [step]
    split
    · next c hp =>
      rw [(eq_of_writing h hp).1, hk] at hp
      cases hp
    · exact ⟨h, hk⟩
  | answered i pieces fin =>
    simp only [step]
    split
    · next c hp =>
      rw [(eq_of_reading h hp).1, hk] at hp
      cases hp
    · exact ⟨h, hk⟩
  | check =>
    rw [step_check h]
    exact ⟨h, hk⟩

/-- Whoever waits behind a caller that has raised waits for ever. -/
theorem raised_strands (h : Turn s k) (hk : s.phase k = .raised) {i : Nat} (hi : k < i) (es : List Event) :
    ((run s es).phase i).entered = false := by
  induction es generalizing s with
  | nil =>
    show (s.phase i).entered = false
    by_cases hn : i < s.ins.currentId
    · obtain ⟨c, hp⟩ := h.after i hi hn
      rw [hp]
      rfl
    · rw [h.absent i (by omega)]
      rfl
  | cons e es ih =>
    obtain ⟨h', hk'⟩ := raised_step h hk e
    exact ih h' hk'

end Raised

end ApApps.Mredis

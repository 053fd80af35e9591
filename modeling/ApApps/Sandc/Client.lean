import ApApps.Sand.Broker

/- sandc.lua, the client of the sand protocol, and what it uses of se: writes that may be
   cut short, and reads.

   A coroutine that has yielded is an entry of `cos`, with the place where it goes on. A
   write or a read that waits for the socket is finished by the callback of libev (`io`,
   `readable`), which only makes the coroutine ready; it goes on later (`resume`), and
   others may run before it. Which one is next, what the kernel answers and what the
   clock says is left open. Functions given to `set_callback` are code of the caller: what
   they do to the client is a step of its own, and so is every message that is handled.

   `sent` are the bytes the socket has taken while it was open. `cut` is not in the source:
   a frame has been given up after part of it was sent. -/
namespace ApApps.Sandc
open ApApps.Redis ApApps.Sand Exec

/-! ## Parameters -/

/-- `st_new`, `st_run` and `st_stop`. -/
inductive CliState where
  | stNew
  | stRun
  | stStop
  deriving DecidableEq, Repr

/-- `ins.param`. -/
structure Param where
  clientid : Bytes
  username : Option Bytes
  password : Option Bytes
  version : Bytes
  keepalive : Option LuaNum
  topics : List Bytes
  connectTopic : Option Bytes
  connectPayload : Option Bytes
  willTopic : Option Bytes
  willPayload : Option Bytes

/-- The order of `pairs`, and the text of a float. -/
structure Env where
  pairs : List (Bytes × Bytes) → List (Bytes × Bytes)
  pairs_perm : ∀ l, (pairs l).Perm l
  fltText : Flt → Bytes

/-- `tostring` of a number. -/
def Env.tostring (env : Env) : LuaNum → Bytes
  | .int i => ascii (toString i)
  | .flt f => env.fltText f

/-- The long test of `connect`. -/
def checkParam (m : Param) : Bool :=
  m.clientid ≠ [] && filled m.username && filled m.password && m.version ≠ [] &&
    (match m.keepalive with
      | some keepalive => (LuaNum.int 5).le keepalive
      | none => false) &&
    m.topics ≠ []

/-- `(topic or payload) and assert(#topic > 0 and #payload > 0)`. -/
def checkPair (topic payload : Option Bytes) : Except LuaError Unit :=
  match topic, payload with
  | none, none => .ok ()
  | none, some _ => .error .nilIndexed
  | some [], _ => .error (.assertFailed "connect")
  | some (_ :: _), none => .error .nilIndexed
  | some (_ :: _), some [] => .error (.assertFailed "connect")
  | some (_ :: _), some (_ :: _) => .ok ()

/-- An entry of a table that may be nil. -/
def optField (k : String) (v : Option Bytes) : List (Bytes × Bytes) := (v.map fun v => (ascii k, v)).toList

/-- The table of the cn command. -/
def cnFields (env : Env) (m : Param) : List (Bytes × Bytes) :=
  [(ascii "id", ascii "cn"), (ascii "cd", m.clientid), (ascii "vv", m.version)] ++
    optField "un" m.username ++ optField "pw" m.password ++ optField "kp" (m.keepalive.map env.tostring) ++
    [(ascii "tp", concatTabs m.topics)] ++ optField "ct" m.connectTopic ++ optField "cp" m.connectPayload ++
    optField "wt" m.willTopic ++ optField "wp" m.willPayload

/-- The table of a publication. -/
def pbFields (topic payload : Bytes) : List (Bytes × Bytes) :=
  [(ascii "id", ascii "pb"), (ascii "tp", topic), (ascii "pl", payload)]

def dcFields : List (Bytes × Bytes) := [(ascii "id", ascii "dc")]

def piFields : List (Bytes × Bytes) := [(ascii "id", ascii "pi")]

/-! ## Writing and reading -/

/-- The answer of `write(2)`; `badf` is EBADF. -/
inductive WriteOut where
  | wrote (n : Nat)
  | again
  | failed (err : Bytes)
  | badf
  deriving DecidableEq

/-- What `se.read` returns. -/
inductive ReadOut where
  | got (data rerr : Option Bytes)
  | badf
  deriving DecidableEq

/-- A write that is not finished. -/
structure Pending where
  data : Bytes
  nwrite : Nat
  deriving DecidableEq

/-- The function that has called `se.write`. -/
inductive Kont where
  | connect (cli : Fd)
  | publish
  | disconnect
  | ping
  deriving DecidableEq

/-- Where a coroutine goes on. -/
inductive Co where
  /-- in `se.write`, waiting for the socket -/
  | write (k : Kont) (p : Pending)
  /-- in `se.write`, which returns `err` -/
  | wrote (k : Kont) (err : Option Bytes)
  /-- at the head of the inner loop of `timeout_ping` -/
  | pingHead
  /-- at the head of the loop of `run_internal` -/
  | readHead
  /-- in `se.read`, waiting for the socket -/
  | reading
  /-- in `se.read`, which returns `data, rerr` -/
  | gotRead (data rerr : Option Bytes)
  /-- in the loop of `on_recv` -/
  | recv (rerr : Option Bytes)
  deriving DecidableEq

/-- What the client does, newest last. -/
inductive Out where
  /-- `se.connect` has opened the socket -/
  | opened (fd : Fd)
  /-- `connect` returns true -/
  | connected
  /-- `se.close` -/
  | closed (fd : Fd)
  | onConnect
  | onMessage (tp pl : Option Bytes)
  | onDisconnect (code : Nat) (err : Bytes)
  deriving DecidableEq

/-- An object of `new`, the socket and the coroutines; `called` tells whether `connect` has been. -/
structure Cli where
  param : Param
  client : Option Fd
  data : Bytes
  state : CliState
  called : Bool
  isOpen : Bool
  sent : Bytes
  cut : Bool
  cos : List Co
  log : List Out

abbrev M := EStateM LuaError Cli

def Cli.new (param : Param) : Cli := ⟨param, none, [], .stNew, false, false, [], false, [], []⟩

def emit (out : Out) : M Unit := modify fun s => { s with log := s.log ++ [out] }

/-- The coroutine yields, and goes on at `co`. -/
def suspend (co : Co) : M Unit := modify fun s => { s with cos := co :: s.cos }

/-- What `se.write` returns, or that it waits. -/
inductive WriteRes where
  | done (err : Option Bytes)
  | wait (p : Pending)

/-- `se_try_write`. -/
def tryWrite (p : Pending) : WriteOut → M WriteRes
  | .wrote n => do
    let rest := p.data.drop p.nwrite
    modify fun s => { s with sent := if s.isOpen then s.sent ++ rest.take n else s.sent }
    return if rest.length ≤ n then .done none else .wait ⟨p.data, p.nwrite + n⟩
  | .again => return .wait p
  | .failed err => do
    modify fun s => { s with cut := s.cut || 0 < p.nwrite }
    return .done (some err)
  | .badf => throw (.message "se_assert(errno != EBADF) failed")

/-- `se.close`. -/
def seClose : Option Fd → M Unit
  | none => throw (.badArgument "close")
  | some fd => do
    emit (.closed fd)
    modify fun s => { s with isOpen := false }

/-! ## The methods -/

/-- `close_client`. -/
def closeClient (err : Bytes) : M Unit := do
  seClose (← get).client
  modify fun s => { s with client := none, state := .stStop }
  emit (.onDisconnect 1 err)

/-- What follows `se.write` in the function that has called it. -/
def afterWrite (k : Kont) (err : Option Bytes) : M Unit :=
  match k, err with
  | .connect cli, some _ => do
    seClose (some cli)
    modify fun s => { s with state := .stStop }
  | .connect cli, none => do
    modify fun s => { s with client := some cli, state := .stRun }
    emit .connected
  | .publish, some err => closeClient err
  | .publish, none => pure ()
  | .disconnect, _ => do
    seClose (← get).client
    modify fun s => { s with client := none, state := .stStop }
    emit (.onDisconnect 0 (ascii "close by user"))
  | .ping, some err => closeClient err
  | .ping, none => suspend .pingHead

/-- `se.write(client, data)`, and what follows it unless it waits. -/
def seWrite (k : Kont) (client : Option Fd) (data : Bytes) (out : WriteOut) : M Unit :=
  match client with
  | none => throw (.badArgument "write")
  | some _ => do
    match ← tryWrite ⟨data, 0⟩ out with
    | .done err => afterWrite k err
    | .wait p => suspend (.write k p)

/-- `parser.build_query(toarr(map))`. -/
def buildFrame (env : Env) (map : List (Bytes × Bytes)) : M Bytes := fun s =>
  match encode (env.pairs map) with
  | .ok frame => .ok frame s
  | .error e => .error e s

/-- `publish`. -/
def publish (env : Env) (topic payload : Bytes) (out : WriteOut) : M Unit := do
  if (← get).state = .stStop then pure ()
  else do
    let frame ← buildFrame env (pbFields topic payload)
    seWrite .publish (← get).client frame out

/-- `disconnect`. -/
def disconnect (env : Env) (out : WriteOut) : M Unit := do
  if (← get).state ≠ .stRun then pure ()
  else do
    let frame ← buildFrame env dcFields
    seWrite .disconnect (← get).client frame out

/-- An `assert` or an index that raises. -/
def lift (x : Except LuaError Unit) : M Unit :=
  match x with
  | .ok () => pure ()
  | .error e => throw e

/-- `connect`; `cli` is what `se.connect` returns. -/
def connect (env : Env) (cli : Option Fd) (out : WriteOut) : M Unit := do
  modify fun s => { s with called := true }
  match cli with
  | none => pure ()
  | some cli => do
    emit (.opened cli)
    modify fun s => { s with isOpen := true }
    let m := (← get).param
    if checkParam m = false then pure ()
    else do
      lift (checkPair m.willTopic m.willPayload)
      lift (checkPair m.connectTopic m.connectPayload)
      let frame ← buildFrame env (cnFields env m)
      seWrite (.connect cli) (some cli) frame out

/-! ## timeout_ping -/

/-- From the head of the inner loop to the next yield; `late` and `due` are the two comparisons
with the clock. -/
def pingHead (env : Env) (late due : Bool) (out : WriteOut) : M Unit := do
  if (← get).state = .stStop then pure ()
  else if late then closeClient (ascii "timeout")
  else if due then do
    let frame ← buildFrame env piFields
    seWrite .ping (← get).client frame out
  else suspend .pingHead

/-! ## run_internal -/

/-- The result of a turn of the loop of `on_recv`. -/
inductive Recv where
  /-- nothing more to handle -/
  | idle
  /-- a message has been handled -/
  | handled (rest : Bytes) (out : List Out)
  /-- `nil, err` -/
  | fail (rest : Bytes) (err : Bytes)

/-- `dispatch`. -/
def dispatch (rest : Bytes) (map : Fields) : Except LuaError Recv :=
  match map.get "id" with
  | none => .ok (.handled rest [])
  | some id =>
    if id = ascii "pb" then .ok (.handled rest [.onMessage (map.get "tp") (map.get "pl")])
    else if id = ascii "ca" then
      if ((map.get "st").bind tonumber).any isZero && (map.get "da").isSome then .ok (.handled rest [.onConnect])
      else .ok (.fail rest ((map.get "data").getD (ascii "undefined")))
    else if id = ascii "po" then .ok (.handled rest [])
    -- `print("no " .. func)`, and `func` is nil
    else .error (.message "attempt to concatenate a nil value (local 'func')")
where
  /-- `tonumber(map.st) == 0`. -/
  isZero : LuaNum → Bool
    | .int i => i = 0
    | .flt f => f = .fin 0

/-- A turn of the loop of `on_recv`. -/
def onRecv (data : Bytes) : Except LuaError Recv :=
  if data = [] then .ok .idle
  else match redisParseReady data with
    | .incomplete => .ok .idle
    | .invalid => .ok (.fail data (ascii "parse error"))
    | .done p => do
      let arr := (redisParseReply data).1
      if (← checkarr arr) = false then pure (.fail data (ascii "data error"))
      else
        let map ← tomap arr
        dispatch (data.drop p) map

/-- The rest of the loop body of `run_internal`. -/
def recvStep (rerr : Option Bytes) : M Unit := do
  match onRecv (← get).data with
  | .error e => throw e
  | .ok (.handled rest out) => do
    modify fun s => { s with data := rest, log := s.log ++ out }
    suspend (.recv rerr)
  | .ok (.fail rest err) => do
    modify fun s => { s with data := rest }
    closeClient err
  | .ok .idle =>
    match rerr with
    | some err => if err = ascii "TIMEOUT" then suspend .readHead else closeClient err
    | none => suspend .readHead

/-- The head of the loop of `run_internal`. -/
def readHead : M Unit := do
  if (← get).state = .stStop then pure ()
  else match (← get).client with
    | none => throw (.badArgument "read")
    | some _ => suspend .reading

/-! ## Steps -/

inductive Event where
  | connect (cli : Option Fd) (out : WriteOut)
  | publish (topic payload : Bytes) (out : WriteOut)
  | disconnect (out : WriteOut)
  /-- `run` -/
  | run
  /-- `se_on_write` of a coroutine -/
  | io (i : Nat) (out : WriteOut)
  /-- `se_on_read` or `se_on_read_timeout` of a coroutine -/
  | readable (i : Nat) (out : ReadOut)
  /-- a coroutine that is ready, or whose sleep is over, goes on -/
  | resume (i : Nat) (late due : Bool) (out : WriteOut)

/-- A coroutine goes on. -/
def goOn (env : Env) (late due : Bool) (out : WriteOut) : Co → M Unit
  | .wrote k err => afterWrite k err
  | .pingHead => pingHead env late due out
  | .readHead => readHead
  | .gotRead data rerr => do
    modify fun s => { s with data := s.data ++ data.getD [] }
    suspend (.recv rerr)
  | .recv rerr => recvStep rerr
  | .write k p => suspend (.write k p)
  | .reading => suspend .reading

def handle (env : Env) : Event → M Unit
  | .connect cli out => connect env cli out
  | .publish topic payload out => publish env topic payload out
  | .disconnect out => disconnect env out
  | .run => do
    suspend .pingHead
    suspend .readHead
  | .io i out => do
    match (← get).cos[i]? with
    | some (.write k p) => do
      modify fun s => { s with cos := s.cos.eraseIdx i }
      match ← tryWrite p out with
      | .done err => suspend (.wrote k err)
      | .wait p => suspend (.write k p)
    | _ => pure ()
  | .readable i out => do
    match (← get).cos[i]?, out with
    | some .reading, .got data rerr => do
      modify fun s => { s with cos := s.cos.eraseIdx i }
      suspend (.gotRead data rerr)
    | some .reading, .badf => throw (.message "se_assert(errno != EBADF) failed")
    | _, _ => pure ()
  | .resume i late due out => do
    match (← get).cos[i]? with
    | none => pure ()
    | some co => do
      modify fun s => { s with cos := s.cos.eraseIdx i }
      goOn env late due out co

/-- What `write(2)` or `read(2)` says in an event. -/
def Event.badf : Event → Bool
  | .connect _ out => out = .badf
  | .publish _ _ out => out = .badf
  | .disconnect out => out = .badf
  | .run => false
  | .io _ out => out = .badf
  | .readable _ out => out = .badf
  | .resume _ _ _ out => out = .badf

/-- Whether an event can happen: a client connects once, EBADF is the answer for a descriptor
that is not open, and strings have the length of a `lua_Integer`. -/
def enabled (s : Cli) : Event → Bool
  | .connect _ out => !s.called && out ≠ .badf
  | .publish topic payload out => topic.length < 2 ^ 62 && payload.length < 2 ^ 62 && (!s.isOpen || out ≠ .badf)
  | ev => !s.isOpen || !ev.badf

/-- Handle an event; one that cannot happen is passed over. -/
def step (env : Env) (ev : Event) : M Unit := fun s => if enabled s ev then handle env ev s else .ok () s

/-- A client from `new` on. -/
def run (env : Env) (param : Param) (evs : List Event) : EStateM.Result LuaError Cli Unit :=
  runAll (step env) evs (.new param)

/-! ## Closing -/

/-- The client after its connection has been torn down. -/
def Cli.torn (s : Cli) (fd : Fd) (out : Out) : Cli :=
  { s with client := none, state := .stStop, isOpen := false, log := s.log ++ [.closed fd] ++ [out] }

theorem closeClient_eq {s : Cli} {fd : Fd} (h : s.client = some fd) (err : Bytes) :
    closeClient err s = .ok () (s.torn fd (.onDisconnect 1 err)) := by
  unfold closeClient
  rw [bind_of_ok (get_ok s), h]
  rfl

end ApApps.Sandc

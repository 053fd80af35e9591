import ApApps.Lib.Machine
import ApApps.Sand.Util

/- sands.lua, the broker of the sand protocol.

   A table of the source that is passed around by reference is an entry of a heap:
   `climap` of a connection stays reachable through the local variables and closures
   that hold it after `clientmap[fd]` has been cleared. The kernel's table of
   descriptors is `openFds`; a descriptor is free again as soon as `uv.close` has been
   called on it, so a later connection may get the number of an earlier one.

   Everything the broker asks of libuv is written into `log`, together with the
   commands it dispatches. What the outside decides is an `Env`: which writes fail,
   and in which order `pairs` runs through a table. A callback that raises ends the
   process, so a run ends with the first error.

   Left out: what is only printed, and the exits of `fatal` when libuv cannot start
   reading or create a timer. -/
namespace ApApps.Sand
open Incremental ApApps.Redis

/-- A descriptor number. -/
abbrev Fd := Nat

/-- An accepted connection. The numbers of closed connections are not used again. -/
abbrev Conn := Nat

/-- `st_new` and `st_auth`. -/
inductive ConnState where
  | stNew
  | stAuth
  deriving DecidableEq, Repr

/-- `param.tp`: the string of the cn command, then the table of its parts. -/
inductive Topics where
  | raw (s : Bytes)
  | table (topics : List Bytes)
  deriving DecidableEq, Repr

/-- `climap.param`: the fields of the cn command; `kp` and `tp` are replaced. -/
structure Param where
  map : Fields
  kp : Option LuaNum
  tp : Option Topics

/-- The topics to unregister: `type(param.tp) == "table" and param.tp or {}`. -/
def Param.topics (p : Param) : List Bytes :=
  match p.tp with
  | some (.table topics) => topics
  | _ => []

/-- An entry of `clientmap`. `timer` and `client` say whether the field still holds
the handle; both are nil once it is closed. `fd` is the number the callbacks of the
connection carry. -/
structure Climap where
  fd : Fd
  data : Bytes
  param : Option Param
  state : ConnState
  timer : Bool
  client : Bool

/-- What the broker sends: connack, a publication, the answer to a ping. -/
inductive Msg where
  | ca (st : Nat) (da : Bytes)
  | pb (tp pl : Bytes)
  | po
  deriving DecidableEq, Repr

/-- The table given to `toarr`. -/
def Msg.fields : Msg → List (Bytes × Bytes)
  | .ca st da => [(ascii "id", ascii "ca"), (ascii "st", sprintfNum st), (ascii "da", da)]
  | .pb tp pl => [(ascii "id", ascii "pb"), (ascii "tp", tp), (ascii "pl", pl)]
  | .po => [(ascii "id", ascii "po")]

/-- The keys of `cmd_map`. -/
inductive Cmd where
  | cn
  | dc
  | pb
  | pi
  deriving DecidableEq, Repr

/-- What the broker did, in order. -/
inductive Out where
  /-- `uv.write` of the frame `s` of `msg`, accepted or not -/
  | write (c : Conn) (msg : Msg) (s : Bytes) (ok : Bool)
  | closeTimer (c : Conn)
  | closeClient (c : Conn)
  | timerStop (c : Conn)
  | timerStart (c : Conn) (ms : Int)
  | recv (c : Conn) (data : Bytes)
  /-- `func(ins, fd, datamap)` -/
  | dispatch (c : Conn) (cmd : Cmd) (map : Fields)

/-- The broker object, the tables it refers to, and the open descriptors. -/
structure St where
  heap : Conn → Option Climap
  clientmap : AList (fun _ : Fd => Conn)
  clientid2fd : Bytes → Option Fd
  topic2client : Bytes → Option (List Fd)
  openFds : List Fd
  log : List Out

/-- `new()`. -/
def St.new : St := ⟨fun _ => none, ∅, fun _ => none, fun _ => none, [], []⟩

/-- The keys of `topic2client[topic]`. -/
def St.subs (s : St) (topic : Bytes) : List Fd := (s.topic2client topic).getD []

/-- What the broker does not decide itself. -/
structure Env where
  /-- the error of `uv.write` on a connection, if there is one -/
  write : List Out → Conn → Option Bytes
  /-- the order of `pairs` over the fields of a message; the seed of the string hash
  is fixed for the process -/
  pairs : List (Bytes × Bytes) → List (Bytes × Bytes)
  pairs_perm : ∀ fields, (pairs fields).Perm fields
  /-- the order of `pairs` over the subscribers of a topic -/
  visit : List Out → List Fd → List Fd
  visit_perm : ∀ log fds, (visit log fds).Perm fds

abbrev M := EStateM LuaError St

/-! ## Tables and handles -/

/-- The climap a local variable holds. -/
def climapOf (c : Conn) : M Climap := fun s =>
  match s.heap c with
  | some climap => .ok climap s
  | none => .error .nilIndexed s

def setClimap (c : Conn) (climap : Climap) : M Unit := fun s =>
  .ok () { s with heap := Function.update s.heap c (some climap) }

def emit (o : Out) : M Unit := fun s => .ok () { s with log := s.log ++ [o] }

/-- `local climap = ins.clientmap[fd]   assert(climap)` in the function `site`. -/
def assertClient (site : String) (fd : Fd) : M Conn := fun s =>
  match s.clientmap.lookup fd with
  | some c => .ok c s
  | none => .error (.assertFailed site) s

/-- `parser.build_query(toarr(map))`. -/
def buildQuery (env : Env) (msg : Msg) : M Bytes := fun s =>
  match encode (env.pairs msg.fields) with
  | .ok frame => .ok frame s
  | .error e => .error e s

/-- `uv.write(climap.client, s)`: the error it returns, if any. -/
def uvWrite (env : Env) (c : Conn) (msg : Msg) (frame : Bytes) : M (Option Bytes) := do
  let climap ← climapOf c
  if climap.client = false then throw (.badArgument "write")
  else do
    let err := env.write (← get).log c
    emit (.write c msg frame err.isNone)
    pure err

/-- `uv.close(climap.timer)   climap.timer = nil`. -/
def closeTimer (c : Conn) : M Unit := do
  let climap ← climapOf c
  if climap.timer = false then throw (.badArgument "close")
  else do
    emit (.closeTimer c)
    setClimap c { climap with timer := false }

/-- `uv.close(climap.client)   climap.client = nil`; the descriptor is free again. -/
def closeHandle (c : Conn) : M Unit := do
  let climap ← climapOf c
  if climap.client = false then throw (.badArgument "close")
  else do
    emit (.closeClient c)
    setClimap c { climap with client := false }
    modify fun s => { s with openFds := s.openFds.erase climap.fd }

/-- `ins.clientmap[fd] = nil`. -/
def removeClient (fd : Fd) : M Unit :=
  modify fun s => { s with clientmap := s.clientmap.erase fd }

/-- The loop of `close_client` that takes `fd` out of the topics of the connection. -/
def unregister (fd : Fd) (topics : List Bytes) : M Unit :=
  modify fun s =>
    { s with topic2client := fun t =>
        if t ∈ topics then (s.topic2client t).map (·.erase fd) else s.topic2client t }

/-- `ins.clientid2fd[cd] = fd`. -/
def setClientid (cd : Bytes) (fd : Fd) : M Unit :=
  modify fun s => { s with clientid2fd := Function.update s.clientid2fd cd (some fd) }

/-- `ins.clientid2fd[cd] = nil`. -/
def forgetClientid (cd : Option Bytes) : M Unit :=
  match cd with
  | none => throw .nilKey
  | some cd => modify fun s => { s with clientid2fd := Function.update s.clientid2fd cd none }

/-! ## close_client and do_publish

The two call each other. Every `close_client` that gets past its first test takes an
entry out of `clientmap`, so their depth is bounded by the number of entries; see
`closeClient_eq` and `doPublish_eq` for the equations of the source. -/

/-- `v and #v > 0`. -/
def filled (v : Option Bytes) : Bool :=
  match v with
  | some b => b ≠ []
  | none => false

/-- `close_client`, given what `do_publish` does. -/
def closeClientWith (publish : Bytes → Bytes → M Unit) (fd : Fd) (_err : Bytes) : M Unit := do
  match (← get).clientmap.lookup fd with
  | none => pure ()
  | some c => do
    closeTimer c
    closeHandle c
    removeClient fd
    match (← climapOf c).param with
    | none => pure ()
    | some param => do
      unregister fd param.topics
      forgetClientid (param.map.get "cd")
      match param.map.get "wt", param.map.get "wp" with
      | some wt, some wp => if wt = [] then pure () else publish wt wp
      | _, _ => pure ()

/-- One turn of the loop of `do_publish`, given what `close_client` does. `pairs`
passes over a descriptor that has been cleared in the meantime. -/
def publishTo (env : Env) (close : Fd → Bytes → M Unit) (topic payload frame : Bytes) (fd : Fd) :
    M Unit := do
  if fd ∈ (← get).subs topic then do
    let c ← assertClient "do_publish" fd
    match ← uvWrite env c (.pb topic payload) frame with
    | none => pure ()
    | some err => close fd err
  else pure ()

/-- The loop of `do_publish` over the subscribers. -/
def publishLoop (env : Env) (close : Fd → Bytes → M Unit) (topic payload frame : Bytes) :
    List Fd → M Unit
  | [] => pure ()
  | fd :: fds => do
    publishTo env close topic payload frame fd
    publishLoop env close topic payload frame fds

/-- `do_publish`, given what `close_client` does. -/
def doPublishWith (env : Env) (close : Fd → Bytes → M Unit) (topic payload : Bytes) : M Unit := do
  let s ← get
  if s.subs topic = [] then pure ()
  else do
    let frame ← buildQuery env (.pb topic payload)
    publishLoop env close topic payload frame (env.visit s.log (s.subs topic))

/-- `close_client` with at most `fuel` calls of it inside each other. -/
def closeClientFuel (env : Env) : Nat → Fd → Bytes → M Unit
  | 0, _, _ => pure ()
  | fuel + 1, fd, err => closeClientWith (doPublishWith env (closeClientFuel env fuel)) fd err

def closeClient (env : Env) (fd : Fd) (err : Bytes) : M Unit := do
  closeClientFuel env ((← get).clientmap.keys.length + 1) fd err

def doPublish (env : Env) (topic payload : Bytes) : M Unit := do
  doPublishWith env (closeClientFuel env ((← get).clientmap.keys.length + 1)) topic payload

/-! ## The commands

A command returns nothing for `true` and its second result for `nil, err`. -/

def publishConnack (env : Env) (c : Conn) (st : Nat) (msg : Bytes) : M (Option Bytes) := do
  let s ← buildQuery env (.ca st msg)
  uvWrite env c (.ca st msg) s

/-- `publish_connack(climap.client, 1, err)   return nil, err`. -/
def refuse (env : Env) (c : Conn) (err : Bytes) : M (Option Bytes) := do
  let _ ← publishConnack env c 1 err
  pure (some err)

def checkVersion (version : Bytes) : Bool := version = ascii "v0.1"

def brokerUser : Bytes := ascii "ewrdcv34!@@@zvdasfFD*s34!@@@fadefsasfvadsfewa123$"

def brokerPassword : Bytes := ascii "1fff89167~!223423@$$%^^&&&*&*\x7d\x7b\x7d|/.,/.,.,<>?"

def checkPassword (username password : Bytes) : Bool :=
  username = brokerUser && password = brokerPassword

/-- `m.cd and #m.cd > 0 and … and m.kp and m.kp >= 5 and m.tp and #m.tp > 0`. -/
def validParam (m : Fields) (kp : Option LuaNum) : Bool :=
  filled (m.get "cd") && filled (m.get "vv") && filled (m.get "un") && filled (m.get "pw") &&
    (match kp with
      | some kp => (LuaNum.int 5).le kp
      | none => false) &&
    filled (m.get "tp")

/-- `tmap[fd] = 1` in the table of the topic, a new one if there is none. -/
def subscribe (fd : Fd) (topic : Bytes) : M Unit :=
  modify fun s =>
    let tmap := if fd ∈ s.subs topic then s.subs topic else s.subs topic ++ [fd]
    { s with topic2client := Function.update s.topic2client topic (some tmap) }

/-- The loop of `cmd_map.cn` over the parts of the topic list: `count` and `topics`. -/
def registerLoop (fd : Fd) : List Bytes → Nat → List Bytes → M (Nat × List Bytes)
  | [], count, topics => pure (count, topics)
  | part :: parts, count, topics =>
    if part = [] then pure (0, topics)
    else do
      subscribe fd part
      registerLoop fd parts (count + 1) (topics ++ [part])

/-- `if m.ct and #m.ct > 0 and m.cp and #m.cp > 0 then ins:do_publish(m.ct, m.cp) end`. -/
def announce (env : Env) (map : Fields) : M Unit :=
  match map.get "ct", map.get "cp" with
  | some ct, some cp => if ct ≠ [] ∧ cp ≠ [] then doPublish env ct cp else pure ()
  | _, _ => pure ()

/-- The part of `cmd_map.cn` after the client id has been found free. -/
def admitClient (env : Env) (c : Conn) (fd : Fd) (map : Fields) : M (Option Bytes) := do
  setClientid ((map.get "cd").getD []) fd
  announce env map
  let climap ← climapOf c
  setClimap c { climap with state := .stAuth }
  publishConnack env c 0 (ascii "ok")

/-- `cmd_map.cn`. -/
def cn (env : Env) (fd : Fd) (map : Fields) : M (Option Bytes) := do
  let c ← assertClient "cn" fd
  let climap ← climapOf c
  if climap.state ≠ .stNew then refuse env c (ascii "invalid state")
  else do
    let kp := (map.get "kp").bind tonumber
    let param : Param := { map, kp, tp := (map.get "tp").map .raw }
    setClimap c { climap with param := some param }
    if validParam map kp = false then refuse env c (ascii "invalid param")
    else if checkVersion ((map.get "vv").getD []) = false then
      refuse env c (ascii "invalid version")
    else if checkPassword ((map.get "un").getD []) ((map.get "pw").getD []) = false then
      refuse env c (ascii "invalid authorization")
    else do
      let (count, topics) ← registerLoop fd (splitTabs ((map.get "tp").getD [])) 0 []
      if count = 0 then refuse env c (ascii "invalid topics")
      else do
        setClimap c { climap with param := some { param with tp := some (.table topics) } }
        if (← get).clientid2fd ((map.get "cd").getD []) ≠ none then
          refuse env c (ascii "already exist " ++ (map.get "cd").getD [])
        else admitClient env c fd map

/-- `cmd_map.dc`. -/
def dc (env : Env) (fd : Fd) : M (Option Bytes) := do
  closeClient env fd (ascii "user disconnect")
  pure (some (ascii "disconnect"))

/-- `cmd_map.pb`. -/
def pb (env : Env) (fd : Fd) (map : Fields) : M (Option Bytes) := do
  let c ← assertClient "pb" fd
  let climap ← climapOf c
  if climap.state ≠ .stAuth then pure (some (ascii "no auth yet"))
  else match map.get "tp", map.get "pl" with
    | some topic, some payload => do
      doPublish env topic payload
      pure none
    | _, _ => pure (some (ascii "invalid publish param"))

/-- `cmd_map.pi`. -/
def pi (env : Env) (fd : Fd) : M (Option Bytes) := do
  let c ← assertClient "pi" fd
  let climap ← climapOf c
  if climap.state ≠ .stAuth then pure (some (ascii "no auth yet"))
  else do
    let s ← buildQuery env .po
    let _ ← uvWrite env c .po s
    pure none

/-- `cmd_map[id]`. -/
def cmdMap (id : Bytes) : Option Cmd :=
  if id = ascii "cn" then some .cn
  else if id = ascii "dc" then some .dc
  else if id = ascii "pb" then some .pb
  else if id = ascii "pi" then some .pi
  else none

/-- `func(ins, fd, datamap)`. -/
def command (env : Env) (fd : Fd) (map : Fields) : Cmd → M (Option Bytes)
  | .cn => cn env fd map
  | .dc => dc env fd
  | .pb => pb env fd map
  | .pi => pi env fd

/-! ## on_client_data -/

/-- What the body of the loop of `on_client_data` finds in the buffer: nothing whole
yet, something it closes the connection for, or a command. `rest` is `climap.data`
after it has been trimmed. -/
inductive Next where
  | wait
  | refuse (rest err : Bytes)
  | call (cmd : Cmd) (map : Fields) (rest : Bytes)

def readCommand (data : Bytes) : Except LuaError Next :=
  match redisParseReady data with
  | .incomplete => .ok .wait
  | .invalid => .ok (.refuse data (ascii "invalid string"))
  | .done p => do
    let arr := (redisParseReply data).1
    if (← checkarr arr) = false then pure (.refuse data (ascii "invalid data"))
    else
      let rest := data.drop p
      let datamap ← tomap arr
      match datamap.get "id" with
      | none => pure (.refuse rest (ascii "miss id"))
      | some id =>
        match cmdMap id with
        | none => pure (.refuse rest (ascii "no " ++ id))
        | some cmd => pure (.call cmd datamap rest)

def setData (c : Conn) (data : Bytes) : M Unit := do
  let climap ← climapOf c
  setClimap c { climap with data }

/-- `local ret, err = func(ins, fd, datamap)`, and the connection is closed if that
fails: whether the loop goes on. -/
def handleCommand (env : Env) (fd : Fd) (map : Fields) (cmd : Cmd) : M Bool := do
  match ← command env fd map cmd with
  | none => pure true
  | some err => do
    closeClient env fd err
    pure false

/-- The body of the loop: whether it goes on; it returns from `on_client_data` if not. -/
def turn (env : Env) (fd : Fd) (c : Conn) : M Bool := do
  let climap ← climapOf c
  match readCommand climap.data with
  | .error e => throw e
  | .ok .wait => pure false
  | .ok (.refuse rest err) => do
    setData c rest
    closeClient env fd err
    pure false
  | .ok (.call cmd map rest) => do
    setData c rest
    emit (.dispatch c cmd map)
    handleCommand env fd map cmd

/-- `while #climap.data > 0`; the result says whether the loop ran to its end. Every
turn that goes on has shortened the buffer, so its length is enough `fuel`. -/
def dataLoop (env : Env) (fd : Fd) (c : Conn) : Nat → M Bool
  | 0 => pure true
  | fuel + 1 => do
    let climap ← climapOf c
    if climap.data = [] then pure true
    else do
      if ← turn env fd c then dataLoop env fd c fuel else pure false

/-- `climap.param.kp * 2.1 * 1000` as `uv.timer_start` takes it. -/
def timerMs (kp : LuaNum) : Option Int := ((kp.mul twoPointOne).mul (.int 1000)).toInteger

/-- The end of `on_client_data`. -/
def restartTimer (c : Conn) : M Unit := do
  let climap ← climapOf c
  if climap.timer = false then throw (.badArgument "timer_stop")
  else do
    emit (.timerStop c)
    match climap.param with
    | none => throw .nilIndexed
    | some param =>
      match param.kp with
      | none => throw (.message "attempt to perform arithmetic on a nil value (field 'kp')")
      | some kp =>
        match timerMs kp with
        | none => throw (.badArgument "timer_start")
        | some ms => emit (.timerStart c ms)

def onClientData (env : Env) (fd : Fd) (data : Bytes) : M Unit := do
  let c ← assertClient "on_client_data" fd
  let climap ← climapOf c
  setClimap c { climap with data := climap.data ++ data }
  if ← dataLoop env fd c (climap.data ++ data).length then restartTimer c

/-! ## Connections and runs -/

/-- `on_connection` of the connection `c` that got the descriptor `fd`; it has 30 s
to send its cn command. -/
def onConnection (c : Conn) (fd : Fd) : M Unit := do
  if (← get).clientmap.lookup fd ≠ none then throw (.assertFailed "on_connection")
  else do
    emit (.timerStart c (30 * 1000))
    setClimap c ⟨fd, [], none, .stNew, true, true⟩
    modify fun s => { s with clientmap := s.clientmap.insert fd c }

/-- What libuv calls the broker for. -/
inductive Event where
  | accept (c : Conn) (fd : Fd)
  | chunk (c : Conn) (data : Bytes)
  /-- the read callback without data: end of file, or an error -/
  | closed (c : Conn) (err : Option Bytes)
  | timeout (c : Conn)

/-- The connection of the event. -/
def Event.conn : Event → Conn
  | .accept c _ => c
  | .chunk c _ => c
  | .closed c _ => c
  | .timeout c => c

/-- Whether `c` has an open handle. -/
def St.isOpen (s : St) (c : Conn) : Bool := ((s.heap c).map Climap.client).getD false

/-- Whether the event can happen: the kernel gives out descriptors that are not open,
and closed handles get no callbacks. Reads are not empty. -/
def enabled (s : St) : Event → Bool
  | .accept c fd => (s.heap c).isNone && fd ∉ s.openFds
  | .chunk c data => s.isOpen c && data ≠ []
  | .closed c _ => s.isOpen c
  | .timeout c => ((s.heap c).map Climap.timer).getD false

/-- The callback of an event. -/
def handle (env : Env) : Event → M Unit
  | .accept c fd => do
    modify fun s => { s with openFds := fd :: s.openFds }
    onConnection c fd
  | .chunk c data => do
    emit (.recv c data)
    let climap ← climapOf c
    onClientData env climap.fd data
  | .closed c err => do
    let climap ← climapOf c
    closeClient env climap.fd (err.getD (ascii "close"))
  | .timeout c => do
    let climap ← climapOf c
    closeClient env climap.fd (ascii "timeout")

/-- Handle an event; one that cannot happen is passed over. -/
def step (env : Env) (ev : Event) : M Unit := fun s =>
  if enabled s ev then handle env ev s else .ok () s

/-- The broker from `new()` on. -/
def run (env : Env) (evs : List Event) : EStateM.Result LuaError St Unit :=
  Exec.runAll (step env) evs .new

end ApApps.Sand

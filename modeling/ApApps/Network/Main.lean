import ApApps.Lib.Machine
import ApApps.Lua.Number
import ApApps.Cfg.Apmgr
import ApApps.Compare.Chk

/- network/main.lua: the address of the access point.

   `main` looks at the configuration file once a second and spawns a coroutine that reads
   it and carries it out; `promise` clears the file check as long as there is no
   address. se starts coroutines in the order in which they are spawned (`ready`), a
   coroutine runs until it sleeps or ends, and which of the sleeping ones goes on next is
   left open (`asleep`). The log, newest first, has the commands a coroutine gives to
   `os.execute`, and two things the source does not record: what it read when it started,
   and when the interface has lost its address, which may happen at any time.

   Left out: what is only printed, `set_config_ip`, what the commands print, and
   configuration files whose values are not strings. -/
namespace ApApps.Network
open ApApps.Cfg ApApps.Cjson ApApps.Compare

/-! ## The configuration -/

/-- `default_cfg`. -/
def defaultCfg : Config := AList.insert (ascii "a#distr") (ascii "dhcp") ∅

/-- `kparr`. -/
def kparr : List String := ["c_gw", "c_mask", "c_distr", "c_ip", "c_dns"]

/-- The loop of `get_param`: the settings of the list, or nothing if one is missing. -/
def pick (cfg : Config) : List String → Option Config
  | [] => some ∅
  | k :: ks =>
    match cfg.lookup (key k) with
    | none => none
    | some v => (pick cfg ks).map fun map => map.insert (key k) v

/-- `get_param`, from what the file has; nothing if it raises or a value is not a string. -/
def getParam (env : Env) (file : Option Bytes) : Option Config :=
  match file with
  | none => some defaultCfg
  | some s =>
    match decode env.fp s with
    | none => some defaultCfg
    | some (.bool false) => some defaultCfg
    -- a string or an array has none of the fields
    | some (.str _) => some defaultCfg
    | some (.arr _) => some defaultCfg
    | some (.obj fields) => (configOf fields).map fun cfg => (pick cfg kparr).getD defaultCfg
    | some _ => none

/-- `map[k]`, of a setting that is there. -/
def setting (map : Config) (k : String) : Bytes := (map.lookup (ascii k)).getD []

/-! ## Name servers -/

/-- The name servers `parse_dns` finds. -/
def parseDns (str : Bytes) : List Bytes :=
  let str := str.filter fun c => ¬ (c = 32 ∨ c = 9 ∨ c = 10 ∨ c = 13)
  let str := if 4 < str.length then str ++ [ch ','] else str
  ((str.splitOn (ch ',')).dropLast).dedup

/-- The pattern `nameserver%s+(.-)%s+` at the start of `s`. -/
def serverAt (s : Bytes) : Option Bytes :=
  if ascii "nameserver" <+: s then
    let rest := s.drop (ascii "nameserver").length
    let spaces := rest.takeWhile isSpace
    let word := (rest.dropWhile isSpace).takeWhile fun c => !isSpace c
    let after := (rest.dropWhile isSpace).dropWhile fun c => !isSpace c
    if spaces = [] then none
    else if after ≠ [] then some word
    -- the last of several spaces follows an empty match
    else if 1 < spaces.length then some [] else none
  else none

/-- `current_dns`, from the lines of `/etc/resolv.conf`. -/
def currentDns (resolv : Option (List Bytes)) : List Bytes :=
  (resolv.getD []).filterMap fun line => line.tails.findSome? serverAt

/-! ## Commands -/

def startCmd : Bytes := ascii "killall udhcpc; timeout -t 5 udhcpc -i br-lan; touch /tmp/network_change"

def keepCmd : Bytes := ascii "pidof udhcpc >/dev/null || timeout -t 5 udhcpc -i br-lan"

/-- The command of `set_static` with the name servers `dnsarr`. -/
def staticCmd (map : Config) (dnsarr : List Bytes) : Bytes :=
  List.intercalate (ascii "\n")
    ([ascii "killall udhcpc",
      ascii "ifconfig br-lan " ++ setting map "a#ip" ++ ascii " netmask " ++ setting map "a#mask",
      ascii "route del default;\nroute add default gw " ++ setting map "a#gw"] ++
      dnsarr.map fun ip => ascii "echo nameserver " ++ ip ++ ascii " >> /etc/resolv.conf")

/-- The command of `set_static`. -/
def setStatic (env : Env) (map : Config) (omap : List Bytes) : Bytes :=
  let nmap := env.pairs (parseDns (setting map "a#dns"))
  staticCmd map (if ascii "a#ip" ∈ omap then [] else nmap)

/-! ## Coroutines -/

/-- The two loops of `start_dhcpc`. -/
inductive Loop where
  | start
  | keep
  deriving DecidableEq, Repr

inductive Out where
  /-- the coroutine of a check starts, with what `get_param` returns -/
  | started (id : Nat) (map : Config)
  /-- `os.execute` -/
  | executed (id : Nat) (cmd : Bytes)
  /-- `br-lan` has no longer the address it was given -/
  | lost

/-- The variables of the program and its coroutines. -/
structure Nw where
  checkId : Nat
  ready : List Nat
  asleep : List (Nat × Loop)
  lastStaticMap : Config
  chk : Memfile
  promising : Bool
  log : List Out

def Nw.execute (s : Nw) (id : Nat) (cmd : Bytes) : Nw := { s with log := .executed id cmd :: s.log }

def Nw.sleep (s : Nw) (id : Nat) (loop : Loop) : Nw := { s with asleep := (id, loop) :: s.asleep }

/-- `check_id = next_check_id()` and `se.go(check_network, check_id)`. -/
def Nw.spawn (s : Nw) : Nw := { s with checkId := s.checkId + 1, ready := s.ready ++ [s.checkId + 1] }

/-- The second loop of `start_dhcpc`, up to the next `se.sleep`. -/
def Nw.keepDhcpc (s : Nw) (id : Nat) : Nw :=
  if id = s.checkId then (s.execute id keepCmd).sleep id .keep else s

/-- `start_dhcpc`, up to the next `se.sleep`; `ok` is the result of `os.execute`. -/
def Nw.startDhcpc (s : Nw) (id : Nat) (ok : Bool) : Nw :=
  if id = s.checkId then
    if ok then (s.execute id startCmd).keepDhcpc id else (s.execute id startCmd).sleep id .start
  else s.keepDhcpc id

/-- Some setting of `map` is not in `last`, or another one. -/
def differs (map last : Config) : Bool := map.entries.any fun e => last.lookup e.1 ≠ some e.2

/-- `check_network`, up to the first `se.sleep`. -/
def Nw.checkNetwork (env : Env) (s : Nw) (id : Nat) (map : Config) (omap : List Bytes) (ok : Bool) : Nw :=
  if map.lookup (ascii "a#distr") = some (ascii "dhcp") then s.startDhcpc id ok
  else if differs map s.lastStaticMap then
    { s.execute id (setStatic env map omap) with lastStaticMap := map }
  else s

/-! ## Steps -/

inductive Event where
  /-- a pass of the loop of `main`; `attr` is the modification time of the file, if it is there -/
  | pass (attr : Option Nat)
  /-- the first of the ready coroutines starts -/
  | start (file : Option Bytes) (resolv : Option (List Bytes)) (ok : Bool)
  /-- a sleeping coroutine goes on -/
  | wake (i : Nat) (ok : Bool)
  /-- a pass of the loop of `promise`, and what `ifconfig` printed -/
  | promise (addr : Option Bytes)
  /-- the address is lost -/
  | lose

/-- What `main` does before its loop; `found` tells whether the file is there. -/
def Nw.boot (file : Option Nat) (found : Bool) : Nw :=
  let s : Nw := ⟨0, [], [], ∅, (Memfile.new file).clear, true, []⟩
  if found then s else s.spawn

def Nw.pass (s : Nw) (attr : Option Nat) : Nw :=
  match check attr s.chk with
  | (true, chk) => { s with chk := chk.save }.spawn
  | (false, chk) => { s with chk }

def Nw.promise (s : Nw) (addr : Option Bytes) : Nw :=
  if s.promising then
    if addr.any fun a => 4 < a.length then { s with promising := false } else { s with chk := s.chk.clear }
  else s

/-- The next step of a sleeping coroutine. -/
def Nw.wake (s : Nw) (i : Nat) (ok : Bool) : Nw :=
  match s.asleep[i]? with
  | none => s
  | some (id, loop) =>
    let s := { s with asleep := s.asleep.eraseIdx i }
    match loop with
    | .start => s.startDhcpc id ok
    | .keep => s.keepDhcpc id

def step (env : Env) (ev : Event) : EStateM LuaError Nw Unit := fun s =>
  match ev with
  | .pass attr => .ok () (s.pass attr)
  | .wake i ok => .ok () (s.wake i ok)
  | .promise addr => .ok () (s.promise addr)
  | .lose => .ok () { s with log := .lost :: s.log }
  | .start file resolv ok =>
    match s.ready with
    | [] => .ok () s
    | id :: ids =>
      match getParam env file with
      | none => .error .nilIndexed s
      | some map =>
        let s := { s with ready := ids, log := .started id map :: s.log }
        .ok () (s.checkNetwork env id map (currentDns resolv) ok)

end ApApps.Network

import ApApps.Setconf.Wireless
import ApApps.Myinit.Memfile

/- The part of wl_cfg.lua that leaves out a commit if nothing has changed, and the memfile it uses.

   A Lua table with strings for keys is an `AList`; a value that is nil is not in it.
   The memfile `commit` keeps the configuration of the last commit in memory and in a
   file, and a new process reads the file. What `load_file` decodes is what `save_file`
   has encoded, two tables of tables; any other value is taken for an empty table.

   Left out: what is logged, and errors of the file system. -/
namespace ApApps.Setconf
open Exec Cjson ApApps.Cfg

/-! ## Tables -/

/-- A value in the table of a radio or of a WLAN. -/
inductive Item where
  | num (x : LuaNum)
  | str (s : Bytes)

/-- `a == b`. -/
def Item.eq : Item → Item → Bool
  | .num x, .num y => x.eq y
  | .str s, .str t => s = t
  | .num _, .str _ => false
  | .str _, .num _ => false

abbrev Table (α : Type) := AList (fun _ : Bytes => α)

/-- The settings of a radio or of a WLAN. -/
abbrev Kvmap := Table Item

/-- `wifi_dev_cfg` or `wifi_iface_cfg`. -/
abbrev CfgMap := Table Kvmap

/-- The table after `t[k] = v` for every pair. -/
def tableOf {α : Type} (kvs : List (Bytes × Option α)) : Table α :=
  (kvs.filterMap fun kv => kv.2.map fun v => (⟨kv.1, v⟩ : (_ : Bytes) × α)).toAList

def DevCfg.kvmap (cfg : DevCfg) : Kvmap :=
  tableOf [(ascii "country", some (.str cfg.country)), (ascii "disabled", some (.num (.int cfg.disabled))),
    (ascii "hwmode", some (.str cfg.hwmode)), (ascii "htmode", some (.str cfg.htmode)),
    (ascii "channel", some (.str cfg.channel)), (ascii "txpower", some (.num cfg.txpower))]

def IfaceCfg.kvmap (cfg : IfaceCfg) : Kvmap :=
  tableOf [(ascii "wlanid", cfg.wlanid.map .num), (ascii "type", some (.num (.int cfg.type))),
    (ascii "disabled", some (.num (.int cfg.disabled))), (ascii "hidden", some (.num cfg.hidden)),
    (ascii "ssid", some (.str cfg.ssid)), (ascii "encryption", some (.str cfg.encryption)),
    (ascii "key", some (.str cfg.key))]

/-- `wifi_dev_cfg` as a table. -/
def devMap (devs : Dev → Option DevCfg) : CfgMap :=
  tableOf ([Dev.radio0, Dev.radio1].map fun dev => (dev.name, (devs dev).map DevCfg.kvmap))

/-- `wifi_iface_cfg` as a table. -/
def ifaceMap (ifaces : Ifaces) : CfgMap := tableOf (ifaces.entries.map fun e => (e.1, some e.2.kvmap))

/-! ## Tables and JSON -/

def itemVal : Item → Val
  | .num x => .num x.toFlt
  | .str s => .str s

/-- What the encoder is given. -/
def tableVal {α : Type} (env : Env) (val : α → Val) (t : Table α) : Val :=
  .obj ((env.pairs t.entries).map fun e => (e.1, val e.2))

def mapVal (env : Env) : Table CfgMap → Val := tableVal env (tableVal env (tableVal env itemVal))

def valItem : Val → Option Item
  | .num x => some (.num (.flt x))
  | .str s => some (.str s)
  | _ => none

/-- What the decoder has made. -/
def valTable {α : Type} (item : Val → Option α) : Val → Option (Table α)
  | .obj fields =>
    (fields.mapM fun kv => (item kv.2).map fun v => (⟨kv.1, v⟩ : (_ : Bytes) × α)).map List.toAList
  | _ => none

def valMap : Val → Option (Table CfgMap) := valTable (valTable (valTable valItem))

/-! ## The memfile -/

abbrev Memfile := Myinit.Ins (Table CfgMap) (Option Bytes)

/-- The process, what it has set up, and the configurations that `wl_cfg_commit` has been run with. -/
structure Process where
  wl : Wl
  mf : Memfile
  commits : List ((Dev → Option DevCfg) × Ifaces)

abbrev P := EStateM LuaError Process

/-- `load_file`; a file that cannot be decoded is removed. -/
def loadFile (env : Env) (file : Option Bytes) : Table CfgMap × Option Bytes :=
  match file with
  | none => (∅, none)
  | some s =>
    let map := decode env.fp s
    if truthy map then ((map.bind valMap).getD ∅, some s) else (∅, none)

/-- `memfile.ins("commit")` in a new process. -/
def newMemfile (env : Env) (file : Option Bytes) : Memfile := .new (loadFile env) file

/-- What is written to the file. -/
def encodeText (env : Env) (map : Table CfgMap) : Option (Option Bytes) := (encode env.fp (mapVal env map)).map some

/-- `mf:get(k)`. -/
def mfGet (k : Bytes) : P (Option CfgMap) := fun s => .ok (s.mf.map.lookup k) s

/-- `mf:set(k, v)`. -/
def mfSet (k : Bytes) (v : CfgMap) : P Unit :=
  modify fun s => { s with mf := s.mf.set false (s.mf.map.insert k v) }

/-- `mf:save()`: if the map cannot be encoded, `fp:write` is given nil. -/
def mfSave (env : Env) : P Unit := fun s =>
  match s.mf.save (encodeText env) with
  | none => .error (.badArgument "write") s
  | some mf => .ok () { s with mf }

/-! ## wl_cfg.lua -/

def devCfgMap : Bytes := ascii "dev_map"

def ifaceCfgMap : Bytes := ascii "iface_map"

/-- A setting of `cfg` that is not the same in `oCfg`. -/
def settingChange (cfg oCfg : Kvmap) : Bool :=
  cfg.entries.any fun e => !(oCfg.lookup e.1).any fun oItem => e.2.eq oItem

/-- `compare_cfg`. -/
def compareCfg (wifiDevCfg wifiIfaceCfg oDevCfg oIfaceCfg : CfgMap) : Bool :=
  (wifiDevCfg.entries.any fun e => (oDevCfg.lookup e.1).elim true (settingChange e.2)) ||
  (wifiIfaceCfg.entries.any fun e => (oIfaceCfg.lookup e.1).isNone) ||
  (oIfaceCfg.entries.any fun e => (wifiIfaceCfg.lookup e.1).isNone) ||
  wifiIfaceCfg.entries.any fun e => (oIfaceCfg.lookup e.1).elim false (settingChange e.2)

/-- `wl_cfg_commit`, by this process. -/
def commitCfg (env : Env) (sup : Support) (cfg : (Dev → Option DevCfg) × Ifaces) : P Unit := fun s =>
  match wlCfgCommit env sup cfg s.wl with
  | .ok _ wl => .ok () { s with wl, commits := s.commits ++ [cfg] }
  | .error e wl => .error e { s with wl, commits := s.commits ++ [cfg] }

/-- `save_cfg_to_memfile`. -/
def saveCfgToMemfile (env : Env) (cfg : (Dev → Option DevCfg) × Ifaces) : P Unit := do
  mfSet devCfgMap (devMap cfg.1)
  mfSave env
  mfSet ifaceCfgMap (ifaceMap cfg.2)
  mfSave env

/-- What is computed without the state. -/
def ofExcept {α : Type} : Except LuaError α → P α
  | .ok a => pure a
  | .error e => throw e

/-- `reset`. -/
def reset (env : Env) (sup : Support) (nmap : Config) : P Unit := do
  let cfg ← ofExcept (wlCfgParse env sup nmap)
  let oDevCfg ← ofExcept (indexed (← mfGet devCfgMap))
  let oIfaceCfg ← ofExcept (indexed (← mfGet ifaceCfgMap))
  if compareCfg (devMap cfg.1) (ifaceMap cfg.2) oDevCfg oIfaceCfg then
    commitCfg env sup cfg
    saveCfgToMemfile env cfg

/-- `mf:get(k) or mf:set(k, v):save()`. -/
def mfInit (env : Env) (k : Bytes) (v : CfgMap) : P Unit := do
  if (← mfGet k).isNone then
    mfSet k v
    mfSave env

/-- `check`. -/
def check (env : Env) (sup : Support) (nmap : Config) : P Unit := do
  mfInit env devCfgMap (tableOf [(Dev.radio0.name, some ∅), (Dev.radio1.name, some ∅)])
  mfInit env ifaceCfgMap ∅
  reset env sup nmap

/-! ## Processes -/

inductive Event where
  | check (nmap : Config)
  | restart

/-- A new process; the counters were in the cursor of the old one. -/
def restart (env : Env) (s : Process) : Process :=
  { s with wl := { s.wl with userdata := none }, mf := newMemfile env s.mf.file }

/-- What happens next. If `check` raises, the process ends and is started again. -/
def step (env : Env) (sup : Support) (s : Process) : Event → Process
  | .check nmap =>
    match check env sup nmap s with
    | .ok _ s' => s'
    | .error _ s' => restart env s'
  | .restart => restart env s

/-- The first process, and then all events. -/
def run (env : Env) (sup : Support) (wl : Wl) (events : List Event) : Process :=
  events.foldl (step env sup) ⟨wl, newMemfile env none, []⟩

end ApApps.Setconf

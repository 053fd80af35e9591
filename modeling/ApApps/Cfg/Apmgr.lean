import ApApps.Cfg.Store

/- apmgr.lua: registering at the controller, and the two commands that bring the
   configuration in line with the controller's.

   A WLAN list is the JSON text of an array of strings, or of an empty table. Of the
   messages to the controller only the answers are kept; requests that are not answered
   are repeated until one is.

   Left out: the commands that do not change the configuration. -/
namespace ApApps.Cfg
open Exec ApApps.Cjson

/-- `pkey.short(keys[name])`. -/
def key (name : String) : Bytes := shortKey (keyPattern name)

/-- `assert(v)`. -/
def assertSome {α : Type} (site : String) : Option α → M α
  | some v => pure v
  | none => raise (.assertFailed site)

/-- `for k, v in pairs(map)`. -/
def eachPair (env : Env) (map : Config) (f : Bytes × Bytes → M Unit) : M Unit :=
  runAll f (env.pairs (map.entries.map fun kv => (kv.1, kv.2)))

/-! ## upload -/

/-- The end of `upload`: the settings of the WLANs are removed, the rest is saved. -/
def dropWlans (env : Env) : M Unit := do
  let fields ← eachCfg env
  runAll (fun kv => do
    if ascii "w#" <+: kv.1 then let _ ← checkcfg kv.1 none
    else pure ()) fields
  saveConfig env

/-- `upload`, with the answers of the controller to its two requests; `bands` is what
`support.band_arr_support()` returns. -/
def upload (env : Env) (bands : List Bytes) (check uploaded : Val) : M Unit := do
  let version ← getCfg (key "c_version")
  let _ ← assertSome "upload" version
  let group ← getCfg (key "c_account")
  let _ ← assertSome "get_group" group
  match check with
  | .num (.fin 1) => pure ()
  | _ =>
    let barr ← assertSome "set" (encode env.fp (.arr (bands.map .str)))
    setCfg (key "c_barr") barr
    match uploaded with
    | .num (.fin 1) => dropWlans env
    | _ => exit

/-! ## update -/

/-- `map.fix` and `map.wlan` of a message of the controller. -/
structure SyncMap where
  fix : Option Config
  wlan : Option (AList (fun _ : Bytes => Config))

/-- What `ipairs` yields of a decoded list; a table with string keys has no item 1. -/
def idItems : Val → Option (List Bytes)
  | .arr items => items.mapM fun item => match item with
    | .str s => some s
    | _ => none
  | .obj _ => some []
  | .str _ => some []
  | _ => none

/-- The WLAN ids of a list. -/
def wlanIds (env : Env) (text : Option Bytes) : Option (List Bytes) :=
  (text.bind (decode env.fp)).bind idItems

/-- The patterns of `const.keys` that `kp:find("^w#WLANID")` accepts. -/
def wlanPatterns (env : Env) : List Bytes :=
  (env.pairs (keys.map fun k => ascii k.2)).filter (fun kp => ascii "w#WLANID" <+: kp)

/-- The ids of the old list that the new one does not have. -/
def goneIds (env : Env) (oarr narr : List Bytes) : List Bytes :=
  (env.pairs oarr.dedup).filter (fun id => id ∉ narr)

/-- The settings of one WLAN are removed. -/
def deleteWlan (env : Env) (wlanid : Bytes) : M Unit :=
  runAll (fun kp => do
    match shortWlan kp wlanid with
    | none => raise (.message "invalid use of '%' in replacement string")
    | some k =>
      let _ ← checkcfg k none) (wlanPatterns env)

/-- `cfg.checkcfg(k, v)` for every pair of a map. -/
def checkAll (env : Env) (map : Config) : M Unit :=
  eachPair env map fun kv => do
    let _ ← checkcfg kv.1 (some kv.2)

/-- `cmd_map.update`. -/
def update (env : Env) (map : SyncMap) : M Unit := do
  let fix ← assertSome "update" map.fix
  let wlan ← assertSome "update" map.wlan
  let old ← getCfg (key "c_wlanids")
  let oarr ← assertSome "update" (wlanIds env old)
  let narr ← assertSome "update" (wlanIds env (fix.lookup (key "c_wlanids")))
  runAll (deleteWlan env) (goneIds env oarr narr)
  runAll (fun entry => checkAll env entry.2) (env.pairs wlan.entries)
  checkAll env fix
  saveConfig env
  emit .saveCurrent
  emit .notifyAuth

/-! ## replace -/

/-- One pass of the loops of `replace`: the key is no longer left over, and its value is
checked if it differs from the one in memory. -/
def replaceOne (all : Config) (kv : Bytes × Bytes) : M Config := do
  let ov ← getCfg kv.1
  if ov ≠ some kv.2 then
    let _ ← checkcfg kv.1 (some kv.2)
    return all.erase kv.1
  else return all.erase kv.1

/-- `for k, v in pairs(map)` of `replace`. -/
def replaceMap (env : Env) (all map : Config) : M Config :=
  (env.pairs (map.entries.map fun kv => (kv.1, kv.2))).foldlM replaceOne all

/-- The pass over one WLAN. -/
def replaceWlan (env : Env) (all : Config) (entry : (_ : Bytes) × Config) : M Config := do
  if entry.1.length = 5 then replaceMap env all entry.2
  else raise (.assertFailed "replace")

/-- `cmd_map.replace`. -/
def replace (env : Env) (map : SyncMap) : M Unit := do
  let s ← get
  let fix ← assertSome "pairs" map.fix
  let all ← replaceMap env s.cfg fix
  let wlan ← assertSome "pairs" map.wlan
  let all ← (env.pairs wlan.entries).foldlM (replaceWlan env) all
  eachPair env all fun kv => do
    let _ ← checkcfg kv.1 none
  saveConfig env
  emit .notifyAuth

end ApApps.Cfg

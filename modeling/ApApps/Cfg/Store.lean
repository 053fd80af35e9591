import ApApps.Lib.Machine
import ApApps.Cfg.Key
import ApApps.Cjson.Decode

/- cfgmgr.lua: the configuration in memory and its file.

   A configuration is a map from strings to strings. The file system holds the three
   files of one directory; a rename is atomic, the bytes of a file that is written
   arrive one by one, and reading does not fail. `power` is the number of changes to
   the file system that are still made before the power is lost, if it is. `filed` and
   `unmarked` are not in the source: the map last written to or read from the file, and
   whether `set` has changed a value since then.

   Left out: what is only printed, `support.init_band_support`, errors of the disk, and
   files whose JSON text is not a table of strings, which no writer of the program
   produces; `parse` raises there. -/
namespace ApApps.Cfg
open Exec ApApps.Cjson

/-- The configuration in memory. -/
abbrev Config := AList (fun _ : Bytes => Bytes)

/-- `const.ap_config`, and the same with `.tmp` and `.del`. -/
inductive Path where
  | conf
  | tmp
  | del
  deriving DecidableEq

/-- The contents of the files. -/
abbrev Disk := Path → Option Bytes

/-- What the process asks of the outside. -/
inductive Event where
  /-- the copy of the default configuration -/
  | restore
  /-- `chk_cfg:save_current()` -/
  | saveCurrent
  /-- `notify_auth()` -/
  | notifyAuth
  deriving DecidableEq, Repr

/-- How a computation ends that does not return. -/
inductive Stop where
  | powerLost
  /-- `os.exit`, also after `log.fatal` -/
  | exit
  | raised (e : LuaError)
  deriving DecidableEq, Repr

/-- The variables of the module, and what surrounds it. -/
structure Proc where
  disk : Disk
  power : Option Nat
  cfg : Config
  gChange : Bool
  filed : Option Config
  unmarked : Bool
  log : List Event

/-- A process that has just been started. -/
def Proc.boot (disk : Disk) : Proc := ⟨disk, none, ∅, false, none, false, []⟩

/-- What the module does not decide itself: the conversions of numbers, the default
configuration, the order of `pairs`. -/
structure Env where
  fp : FpConv
  defaultConfig : Option Bytes
  pairs : {α : Type} → List α → List α
  pairs_perm : ∀ {α : Type} (l : List α), (pairs l).Perm l

/-- An environment that yields every table in the order in which it is listed. -/
def Env.listed (defaultConfig : Option Bytes) : Env where
  fp := ⟨fun _ => none, fun _ => []⟩
  defaultConfig := defaultConfig
  pairs := id
  pairs_perm := fun _ => List.Perm.refl _

abbrev M := EStateM Stop Proc

def raise {α : Type} (e : LuaError) : M α := throw (.raised e)

/-- `log.fatal` and `os.exit`. -/
def exit {α : Type} : M α := throw .exit

/-! ## The file system -/

def Disk.set (d : Disk) (p : Path) (content : Option Bytes) : Disk :=
  fun q => if q = p then content else d q

/-- A change to the file system, if the power lasts. -/
def onDisk (f : Disk → Disk) : M Unit := fun s =>
  match s.power with
  | none => .ok () { s with disk := f s.disk }
  | some 0 => .error .powerLost s
  | some (n + 1) => .ok () { s with disk := f s.disk, power := some n }

def emit (e : Event) : M Unit := modify fun s => { s with log := s.log ++ [e] }

/-- `io.open(p, "wb")`. -/
def openWb (p : Path) : M Unit := onDisk fun d => d.set p (some [])

/-- `fp:write(text)` and `fp:close()`. -/
def writeText (p : Path) (text : Bytes) : M Unit :=
  runAll (fun c => onDisk fun d => d.set p ((d p).map (· ++ [c]))) text

/-- `os.rename(a, b)`. -/
def rename (a b : Path) : M Bool := do
  let s ← get
  match s.disk a with
  | none => return false
  | some content =>
    onDisk fun d => (d.set a none).set b (some content)
    return true

/-- `os.remove(p)`. -/
def remove (p : Path) : M Unit := onDisk fun d => d.set p none

/-! ## The configuration in memory -/

def Config.set (cfg : Config) (k : Bytes) : Option Bytes → Config
  | some v => cfg.insert k v
  | none => cfg.erase k

/-- `get(k)`. -/
def getCfg (k : Bytes) : M (Option Bytes) := do
  let s ← get
  return s.cfg.lookup k

/-- `set(k, v)`. -/
def setCfg (k v : Bytes) : M Unit := modify fun s =>
  { s with cfg := s.cfg.insert k v, unmarked := s.unmarked || s.cfg.lookup k ≠ some v }

/-- The pairs `each` hands to its callback, in the order in which it does. -/
def eachCfg (env : Env) : M (List (Bytes × Bytes)) := do
  let s ← get
  return env.pairs (s.cfg.entries.map fun kv => (kv.1, kv.2))

/-- `cfg[key], g_change = new, true`. -/
def change (key : Bytes) (new : Option Bytes) : M Unit :=
  modify fun s => { s with cfg := s.cfg.set key new, gChange := true }

/-- `checkcfg(key, new)`; the result tells whether something changed. -/
def checkcfg (key : Bytes) (new : Option Bytes) : M Bool := do
  if !keyOk key then exit
  else
    let old ← getCfg key
    match new, old with
    | some v, some o =>
      if v ≠ o then
        change key (some v)
        return true
      else return false
    | some v, none =>
      change key (some v)
      return true
    | none, some _ =>
      change key none
      return true
    | none, none => return false

/-! ## The file -/

/-- `js.encode(cfg)` with a line break after every comma that precedes a quote. -/
def saveText (env : Env) (cfg : Config) : Option Bytes :=
  (encode env.fp (ofStrings (env.pairs (cfg.entries.map fun kv => (kv.1, kv.2))))).bind
    (gsub (ascii ",\"") (ascii ",\n\""))

/-- The second rename of `save_config`, and what follows if it fails. -/
def replaceFile : M Unit := do
  let ok ← rename .tmp .conf
  if ok then modify fun s => { s with filed := some s.cfg, unmarked := false }
  else
    let _ ← rename .del .conf
    exit

/-- `save_config` once the configuration is known to have changed. -/
def writeConfig (env : Env) : M Unit := do
  modify fun s => { s with gChange := false }
  let s ← get
  match saveText env s.cfg with
  | none => raise .nilIndexed
  | some text =>
    openWb .tmp
    writeText .tmp text
    let ok ← rename .conf .del
    if ok then
      replaceFile
      remove .del
    else exit

/-- `save_config`. -/
def saveConfig (env : Env) : M Unit := do
  let s ← get
  if s.gChange then writeConfig env else pure ()

/-- The fields of a decoded table, stored one after the other, if all are strings. -/
def configOf : List (Bytes × Val) → Option Config
  | [] => some ∅
  | (k, .str v) :: fields => (configOf fields).map (fun cfg => cfg.insert k v)
  | _ :: _ => none

/-- The map a file stands for. -/
def readConfig (env : Env) (text : Bytes) : Option Config :=
  match decode env.fp text with
  | some (.obj fields) => configOf fields
  | _ => none

/-- `parse`; its result is what was read from the file last. -/
def parse (env : Env) : M Config := do
  let s ← get
  let t := (s.disk .conf).bind (decode env.fp)
  if !truthy t then
    remove .conf
    exit
  else match (s.disk .conf).bind (readConfig env) with
    | none => raise (.badArgument "parse")
    | some cfg =>
      modify fun s => { s with filed := some cfg, unmarked := false }
      return cfg

/-- The `cp` of `restore_default`. -/
def copyDefault (env : Env) : M Unit := do
  emit .restore
  match env.defaultConfig with
  | none => exit
  | some text =>
    openWb .conf
    writeText .conf text

/-- `restore_default`. -/
def restoreDefault (env : Env) : M Unit := do
  copyDefault env
  let cfg ← parse env
  modify fun s => { s with cfg := cfg, gChange := true }
  saveConfig env
  modify fun s => { s with cfg := ∅ }

/-- The start of `load`: `lfs.attributes(const.ap_config) or restore_default()`. -/
def ensureFile (env : Env) : M Unit := do
  let s ← get
  if (s.disk .conf).isSome then pure () else restoreDefault env

/-- `load`. -/
def load (env : Env) : M Unit := do
  ensureFile env
  let cfg ← parse env
  modify fun s => { s with cfg := cfg }
  if (cfg.lookup (ascii "config/country")).isSome then
    remove .conf
    exit
  else pure ()

end ApApps.Cfg

import ApApps.Lib.Uci
import ApApps.Cfg.Apmgr
import ApApps.Lua.Number

/- wl_cfg.lua of setconf, with what it uses of support.lua, version.lua and country.lua:
   the settings of the access point are parsed, and carried out by uci commands.

   A command line is given to `system`, which stands for the shell and the uci it runs;
   what is documented of these is in `Setconf/Documented.lean`. uci works on `staged`, `uci
   commit` writes that to the file.

   Left out: what is only printed, the names of the interfaces, which nothing uses, and
   the reload of the driver. The comparison with the settings committed before has a
   module of its own. -/
namespace ApApps.Setconf
open Uci Exec ApApps.Cfg

/-! ## support.lua -/

inductive Band where
  | b2g
  | b5g
  deriving DecidableEq, Repr

def Band.name : Band → Bytes
  | .b2g => ascii "2g"
  | .b5g => ascii "5g"

/-- `s_const.dev0` and `s_const.dev1`. -/
inductive Dev where
  | radio0
  | radio1
  deriving DecidableEq, Repr

def Dev.name : Dev → Bytes
  | .radio0 => ascii "radio0"
  | .radio1 => ascii "radio1"

/-- `s_platform_path_map[hw_version][path]`. -/
def platformPath (hwVersion path : Bytes) : Option Band :=
  if hwVersion = ascii "LG9563" then
    if path = ascii "platform/qca956x_wmac" then some .b2g
    else if path = ascii "pci0000:00/0000:00:00.0" then some .b5g
    else none
  else none

/-- `s_band_dev_map`. A radio is of one band. -/
structure Support where
  dev : Band → Option Dev
  distinct : ∀ d, dev .b2g = some d → dev .b5g ≠ some d

/-- `do_band_dev_map`, from the paths of the two radios; the second one is looked at last. -/
def doBandDevMap (hwVersion : Bytes) (dev0Path dev1Path : Option Bytes) : Support where
  dev band :=
    if dev1Path.bind (platformPath hwVersion) = some band then some .radio1
    else if dev0Path.bind (platformPath hwVersion) = some band then some .radio0
    else none
  distinct := by
    intro d h2 h5
    split at h2
    · rename_i h1
      cases h2
      rw [h1, if_neg (by decide)] at h5
      split at h5 <;> cases h5
    · split at h2
      · rename_i h0
        cases h2
        rw [h0] at h5
        split at h5
        · cases h5
        · rw [if_neg (by decide)] at h5
          cases h5
      · cases h2

/-- `get_wifi_dev`. -/
def getWifiDev (sup : Support) : Band → Option Dev
  | .b2g => (sup.dev .b2g).or (sup.dev .b5g)
  | .b5g => sup.dev .b5g

/-- `band_map_support()[band]`. -/
def Support.has (sup : Support) (band : Band) : Bool := (sup.dev band).isSome

/-- `get_5g_proto`. -/
def get5gProto (hwVersion : Bytes) : Option Bytes :=
  if hwVersion = ascii "LG9563" then some (ascii "11ac") else none

/-- `country_map[ctry].short`. -/
def countryMap : List (String × String) :=
  [("China", "CN"), ("US", "US"), ("Japan", "JP"), ("South Korea", "KR"), ("Malaysia", "MY"),
   ("India", "IN"), ("Thailand", "TH"), ("Vietnam", "VN"), ("Indonesia", "ID"),
   ("United Kingdom", "GB"), ("Singapore", "SG")]

/-- `country.short(ctry)`. -/
def countryShort (ctry : Bytes) : Option Bytes :=
  (countryMap.map fun c => (ascii c.1, ascii c.2)).lookup ctry

/-! ## The surroundings -/

/-- The wireless file. -/
abbrev Pkg := Package Bytes Bytes Bytes Bytes

/-- `s_const.iface_t`. -/
def ifaceT : Bytes := ascii "wifi-iface"

/-- `s_const.dev_t`. -/
def devT : Bytes := ascii "wifi-device"

/-- What uci holds: the file, and the same with the commands since the last commit. -/
structure Files where
  file : Pkg
  staged : Pkg

/-- What the program does not decide itself. -/
structure Env extends Cfg.Env where
  /-- the version `get_hw_version` returns, if it is valid -/
  hwVersion : Option Bytes
  /-- how many lines of the file have `wifi-iface` in them; the first line of every such
  section does -/
  lines : Pkg → Nat
  lines_ge : ∀ pkg, (ofType ifaceT pkg).length ≤ lines pkg
  /-- what the shell makes of a command line -/
  system : Bytes → Files → Files

/-- What uci holds, and in the cursor of the program `cnt_2g` and `cnt_5g` of the section
`stat`. -/
structure Wl extends Files where
  userdata : Option (Nat × Nat)

abbrev M := EStateM LuaError Wl

def bands : List Band := [.b2g, .b5g]

/-- `band_arr_support()`. -/
def bandArrSupport (env : Env) (sup : Support) : List Band := env.pairs (bands.filter sup.has)

/-! ## Parsing -/

/-- `v:upper()`. -/
def upper (v : Bytes) : Bytes := v.map fun c => if 97 ≤ c ∧ c ≤ 122 then c - 32 else c

/-- `get_channel`. -/
def getChannel (v : Bytes) : Bytes := if upper v = ascii "AUTO" then ascii "auto" else v

/-- `get_power`. -/
def getPower (v : Bytes) : Option LuaNum :=
  if upper v = ascii "AUTO" then some (.int 23) else tonumber v

/-- `get_hwmode`. -/
def getHwmode (v : Bytes) : Option Bytes :=
  if v = ascii "bgn" ∨ v = ascii "bg" ∨ v = ascii "b" ∨ v = ascii "g" ∨ v = ascii "n" then
    some (ascii "11g")
  else if v = ascii "an" ∨ v = ascii "a" ∨ v = ascii "n" then some (ascii "11a")
  else none

/-- `get_htmode`. -/
def getHtmode (hwVersion : Option Bytes) (v : Bytes) : Option Bytes :=
  let wd := if upper v = ascii "AUTO" then ascii "20" else if v = ascii "20" then ascii "20"
    else if v = ascii "40-" ∨ v = ascii "40+" then ascii "40" else ascii "20"
  match hwVersion.bind get5gProto with
  | none => none
  | some proto =>
    if proto = ascii "5g" then some (ascii "HT" ++ wd)
    else if proto = ascii "11ac" then some (ascii "VHT" ++ wd)
    else none

/-- The entry of `wifi_dev_cfg` for a radio. -/
structure DevCfg where
  country : Bytes
  disabled : Nat
  hwmode : Bytes
  htmode : Bytes
  channel : Bytes
  txpower : LuaNum

/-- The entry of `wifi_iface_cfg` for a WLAN. -/
structure IfaceCfg where
  wlanid : Option LuaNum
  type : Nat
  disabled : Nat
  hidden : LuaNum
  ssid : Bytes
  encryption : Bytes
  key : Bytes

/-- `assert(v)`. -/
def assertSome {α : Type} (site : String) : Option α → Except LuaError α
  | some v => .ok v
  | none => .error (.assertFailed site)

/-- A method of `v` is called. -/
def indexed {α : Type} : Option α → Except LuaError α
  | some v => .ok v
  | none => .error .nilIndexed

/-- `v == 0`. -/
def isZero : LuaNum → Bool
  | .int i => i = 0
  | .flt f => f = .fin 0

/-- The state of a switch: 1 if the setting is 0. -/
def disabledOf (v : LuaNum) : Nat := if isZero v then 1 else 0

/-- `pkey.short(keys[name], {BAND = band})`. -/
def bandKey (name : String) (band : Band) : Bytes :=
  replaceLoop (ascii "BAND") band.name 0 (Cfg.key name)

/-- `map[pkey.short(keys[name], {BAND = band})]`. -/
def bandSetting (map : Config) (name : String) (band : Band) : Option Bytes := map.lookup (bandKey name band)

/-- The pass of `wifi_dev_cfg_parse` over a band. -/
def devCfgParse (env : Env) (map : Config) (band : Band) : Except LuaError DevCfg := do
  let site := "wifi_dev_cfg_parse"
  let country ← assertSome site ((map.lookup (Cfg.key "c_g_country")).bind countryShort)
  let bswitch ← assertSome site ((bandSetting map "c_bswitch" band).bind tonumber)
  let hwmode ← assertSome site ((bandSetting map "c_proto" band).bind getHwmode)
  let _ ← assertSome site env.hwVersion
  let bandwidth ← indexed (bandSetting map "c_bandwidth" band)
  let htmode ← assertSome site (getHtmode env.hwVersion bandwidth)
  let chanid ← indexed (bandSetting map "c_chanid" band)
  let power ← indexed (bandSetting map "c_power" band)
  let txpower ← assertSome site (getPower power)
  return ⟨country, disabledOf bswitch, hwmode, htmode, getChannel chanid, txpower⟩

/-- `wifi_dev_cfg[dev] = kvmap`. -/
def setDevCfg (devs : Dev → Option DevCfg) (dev : Option Dev) (kvmap : DevCfg) :
    Except LuaError (Dev → Option DevCfg) :=
  match dev with
  | none => .error .nilKey
  | some d => .ok (Function.update devs d (some kvmap))

/-- `wifi_dev_cfg_parse`. -/
def wifiDevCfgParse (env : Env) (sup : Support) (map : Config) : Except LuaError (Dev → Option DevCfg) :=
  (bandArrSupport env sup).foldlM (fun devs band => do
    let kvmap ← devCfgParse env map band
    setDevCfg devs (getWifiDev sup band) kvmap) fun _ => none

/-- `map[pkey.short(keys[name], {WLANID = wlanid})]`. -/
def wlanSetting (map : Config) (name : String) (wlanid : Bytes) : Except LuaError (Option Bytes) :=
  match shortWlan (keyPattern name) wlanid with
  | none => .error (.message "invalid use of '%' in replacement string")
  | some k => .ok (map.lookup k)

/-- The pass of `wifi_iface_cfg_parse` over a WLAN. -/
def ifaceCfgParse (map : Config) (wlanid : Bytes) : Except LuaError IfaceCfg := do
  let site := "wifi_iface_cfg_parse"
  let band ← assertSome site (← wlanSetting map "c_wband" wlanid)
  let wstate ← assertSome site ((← wlanSetting map "c_wstate" wlanid).bind tonumber)
  let hidden ← assertSome site ((← wlanSetting map "c_whide" wlanid).bind tonumber)
  let ssid ← assertSome site (← wlanSetting map "c_wssid" wlanid)
  let encryption ← assertSome site (← wlanSetting map "c_wencry" wlanid)
  let passwd ← wlanSetting map "c_wpasswd" wlanid
  return ⟨tonumber wlanid, if band = ascii "2g" then 1 else if band = ascii "5g" then 2 else 3,
    disabledOf wstate, hidden, ssid, encryption, passwd.getD (ascii "none")⟩

/-- `wifi_iface_cfg`. -/
abbrev Ifaces := AList (fun _ : Bytes => IfaceCfg)

/-- `wifi_iface_cfg_parse`. -/
def wifiIfaceCfgParse (env : Env) (map : Config) : Except LuaError Ifaces := do
  let wlanidArr ← assertSome "wifi_iface_cfg_parse" (wlanIds env.toEnv (map.lookup (Cfg.key "c_wlanids")))
  wlanidArr.foldlM (fun ifaces wlanid => do
    let kvmap ← ifaceCfgParse map wlanid
    return ifaces.insert wlanid kvmap) ∅

/-- `wl_cfg_parse`. -/
def wlCfgParse (env : Env) (sup : Support) (map : Config) : Except LuaError ((Dev → Option DevCfg) × Ifaces) := do
  let devs ← wifiDevCfgParse env sup map
  let ifaces ← wifiIfaceCfgParse env map
  return (devs, ifaces)

/-! ## Committing -/

/-- `os.execute(cmd)`; a C string ends at its first NUL. -/
def execute (env : Env) (cmd : Bytes) : M Unit := fun s =>
  .ok () { s with toFiles := env.system (cmd.takeWhile (· ≠ NUL)) s.toFiles }

/-- `os.execute("uci commit wireless")`. -/
def uciCommit (env : Env) : M Unit := execute env (ascii "uci commit wireless")

/-- The `%d` directive of `string.format`. -/
def formatD (v : LuaNum) : M Bytes :=
  match v.toInteger with
  | some i => pure (ascii (toString i))
  | none => throw (.message "number has no integer representation")

/-- `string.format("uci delete wireless.@wifi-iface[%d]", idx)`. -/
def deleteIface (idx : Int) : Bytes := ascii "uci delete wireless.@wifi-iface[" ++ ascii (toString idx) ++ ascii "]"

/-- `del_ano_wifi_iface_sections`. -/
def delAnoWifiIfaceSections (env : Env) : M Unit := do
  let num := env.lines (← get).file
  if 0 < num then
    runAll (execute env) ((List.range (num + 1)).map fun i : Nat => deleteIface ((num : Int) - 1 - i))
  uciCommit env

/-- The options of a radio. -/
inductive RadioOption where
  | country
  | disabled
  | hwmode
  | htmode
  | channel
  | txpower
  deriving DecidableEq

def RadioOption.name : RadioOption → String
  | .country => "country"
  | .disabled => "disabled"
  | .hwmode => "hwmode"
  | .htmode => "htmode"
  | .channel => "channel"
  | .txpower => "txpower"

/-- `string.format("uci set wireless.%s=%s", wifi_dev, s_const.dev_t)`. -/
def setRadioType (dev : Dev) : Bytes := ascii "uci set wireless." ++ dev.name ++ ascii "=" ++ devT

/-- `string.format("uci set wireless.%s.<option>=%s", wifi_dev, value)`, and with `%d` for a number. -/
def setRadioOption (dev : Dev) (option : RadioOption) (value : Bytes) : Bytes :=
  ascii "uci set wireless." ++ dev.name ++ ascii ("." ++ option.name ++ "=") ++ formatS value

/-- The settings of a radio. -/
def radioSettings (cfg : DevCfg) (txpower : Bytes) : List (RadioOption × Bytes) :=
  [(.country, cfg.country), (.disabled, ascii (toString cfg.disabled)), (.hwmode, cfg.hwmode),
   (.htmode, cfg.htmode), (.channel, cfg.channel), (.txpower, txpower)]

/-- `cmds`. -/
def devCmds (dev : Dev) (cfg : DevCfg) (txpower : Bytes) : List Bytes :=
  setRadioType dev :: (radioSettings cfg txpower).map fun kv => setRadioOption dev kv.1 kv.2

/-- The pass of `create_wifi_dev_sections` over a band. -/
def createWifiDev (env : Env) (sup : Support) (devs : Dev → Option DevCfg) (band : Band) : M Unit :=
  match getWifiDev sup band with
  | none => pure ()
  | some dev =>
    match devs dev with
    | none => pure ()
    | some cfg => do
      let txpower ← formatD cfg.txpower
      runAll (execute env) (env.pairs (devCmds dev cfg txpower))

/-- `create_wifi_dev_sections`. -/
def createWifiDevSections (env : Env) (sup : Support) (devs : Dev → Option DevCfg) : M Unit := do
  runAll (createWifiDev env sup devs) (bandArrSupport env sup)
  uciCommit env

/-- `wifi_devs`: the radios a WLAN goes to. -/
def wifiDevs (sup : Support) (type : Nat) : List Dev :=
  let dev2g := if sup.has .b2g then getWifiDev sup .b2g else none
  let dev5g := if sup.has .b5g then getWifiDev sup .b5g else none
  if type = 1 then dev2g.toList
  else if type = 2 then dev5g.toList
  else if type = 3 then dev2g.toList ++ dev5g.toList
  else []

/-- The options of the section of a WLAN. -/
inductive IfaceOption where
  | device
  | disabled
  | hidden
  | ssid
  | encryption
  | key
  | network
  | mode
  deriving DecidableEq

def IfaceOption.name : IfaceOption → String
  | .device => "device"
  | .disabled => "disabled"
  | .hidden => "hidden"
  | .ssid => "ssid"
  | .encryption => "encryption"
  | .key => "key"
  | .network => "network"
  | .mode => "mode"

/-- `string.format("uci set wireless.@wifi-iface[-1].<option>='%s'", value)`, and with `%d` for a
number. -/
def setIfaceOption (option : String) (value : Bytes) : Bytes :=
  ascii ("uci set wireless.@wifi-iface[-1]." ++ option ++ "='") ++ formatS value ++ ascii "'"

/-- The settings of the section of a WLAN on a radio. -/
def ifaceSettings (dev : Dev) (cfg : IfaceCfg) (hidden : Bytes) : List (IfaceOption × Bytes) :=
  [(.device, dev.name), (.disabled, ascii (toString cfg.disabled)), (.hidden, hidden), (.ssid, cfg.ssid),
   (.encryption, cfg.encryption), (.key, cfg.key), (.network, ascii "lan"), (.mode, ascii "ap")]

/-- `cmds`. -/
def ifaceCmds (dev : Dev) (cfg : IfaceCfg) (hidden : Bytes) : List Bytes :=
  ascii "uci add wireless wifi-iface" ::
    (ifaceSettings dev cfg hidden).map fun kv => setIfaceOption kv.1.name kv.2

/-- The body of the inner loop of `create_wifi_iface_sections`; `cnt` is `cnt_2g` and `cnt_5g`. -/
def createWifiIface (env : Env) (sup : Support) (cfg : IfaceCfg) (cnt : Nat × Nat) (dev : Dev) : M (Nat × Nat) := do
  let hidden ← formatD cfg.hidden
  runAll (execute env) (ifaceCmds dev cfg hidden)
  uciCommit env
  return if some dev = getWifiDev sup .b2g then (cnt.1 + 1, cnt.2) else (cnt.1, cnt.2 + 1)

/-- `create_wifi_iface_sections`. -/
def createWifiIfaceSections (env : Env) (sup : Support) (ifaces : Ifaces) : M Unit := do
  let cnt ← (env.pairs ifaces.entries).foldlM (fun cnt e =>
    (wifiDevs sup e.2.type).foldlM (createWifiIface env sup e.2) cnt) (0, 0)
  modify fun s => { s with userdata := some cnt }

/-- `wl_cfg_commit`. -/
def wlCfgCommit (env : Env) (sup : Support) (cfg : (Dev → Option DevCfg) × Ifaces) : M Unit := do
  delAnoWifiIfaceSections env
  createWifiDevSections env sup cfg.1
  createWifiIfaceSections env sup cfg.2
  uciCommit env

end ApApps.Setconf

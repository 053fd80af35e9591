import ApApps.Setconf.Documented

/- What `wl_cfg_commit` makes of an accepted configuration.

   `Committed` says what the configuration asks for, in its own terms: the radio of
   every supported band has the mode of that band, there is one section per WLAN and
   radio it selects and no other, and the counters count them. `Suits` and `Legible` are the
   conditions on the configuration.

   A commit is a list of command lines (`commitLines`, `wlCfgCommit_eq`). Each part of the
   list has a lemma here that gives the package it leaves, if its lines are read by the
   shell (`Tunable`, `Writable`). -/
namespace ApApps.Setconf
open Uci Shell Exec Assignments ApApps.Cfg

/-! ## Bands and radios -/

theorem getWifiDev_eq {sup : Support} {band : Band} {d : Dev} (h : sup.dev band = some d) :
    getWifiDev sup band = some d := by
  cases band with
  | b2g =>
    rw [getWifiDev, h]
    rfl
  | b5g => exact h

theorem mem_bandArrSupport {env : Env} {sup : Support} {band : Band} :
    band ∈ bandArrSupport env sup ↔ ∃ d, sup.dev band = some d := by
  rw [bandArrSupport, (env.pairs_perm _).mem_iff, List.mem_filter, Support.has, Option.isSome_iff_exists]
  refine and_iff_right ?_
  cases band <;> decide

theorem nodup_bandArrSupport (env : Env) (sup : Support) : (bandArrSupport env sup).Nodup :=
  (env.pairs_perm _).nodup_iff.mpr (List.Nodup.filter _ (by decide))

/-- If 2g is not supported then 5g is. -/
theorem Support.only_5g {sup : Support} (h2 : sup.dev .b2g = none) (hband : ∃ band dev, sup.dev band = some dev) :
    ∃ dev, sup.dev .b5g = some dev := by
  obtain ⟨band, dev, hdev⟩ := hband
  cases band with
  | b2g =>
    rw [h2] at hdev
    cases hdev
  | b5g => exact ⟨dev, hdev⟩

/-- A radio is of one band. -/
theorem Support.band_unique (sup : Support) {b b' : Band} {d : Dev} (h : sup.dev b = some d)
    (h' : sup.dev b' = some d) : b = b' := by
  cases b <;> cases b'
  · rfl
  · exact absurd h' (sup.distinct d h)
  · exact absurd h (sup.distinct d h')
  · rfl

theorem Dev.name_inj {d d' : Dev} (h : d.name = d'.name) : d = d' := by
  revert h
  cases d <;> cases d' <;> decide

/-! ## What has been parsed -/

section Parsing
variable {env : Env} {sup : Support} {map : Config}

theorem except_bind_ok {α β : Type} {x : Except LuaError α} {f : α → Except LuaError β} {b : β} :
    (x >>= f) = .ok b ↔ ∃ a, x = .ok a ∧ f a = .ok b := by
  cases x with
  | error e =>
    constructor
    · nofun
    · rintro ⟨a, h, _⟩
      cases h
  | ok a =>
    constructor
    · exact fun h => ⟨a, rfl, h⟩
    · rintro ⟨a', h, hf⟩
      cases h
      exact hf

theorem assertSome_ok {α : Type} {site : String} {v : Option α} {a : α} :
    assertSome site v = .ok a ↔ v = some a := by
  cases v <;> simp [assertSome]

theorem indexed_ok {α : Type} {v : Option α} {a : α} : indexed v = .ok a ↔ v = some a := by
  cases v <;> simp [indexed]

/-- The mode and the power of a radio are those of the settings of its band. -/
theorem devCfgParse_ok {band : Band} {cfg : DevCfg} (h : devCfgParse env map band = .ok cfg) :
    (∃ v, bandSetting map "c_proto" band = some v ∧ getHwmode v = some cfg.hwmode) ∧
      ∃ v, bandSetting map "c_power" band = some v ∧ getPower v = some cfg.txpower := by
  unfold devCfgParse at h
  simp only [except_bind_ok, assertSome_ok, indexed_ok] at h
  obtain ⟨country, _, bswitch, _, hwmode, hmode, _, _, bandwidth, _, htmode, _, chanid, _, power, hpower,
    txpower, htx, hcfg⟩ := h
  cases hcfg
  exact ⟨Option.bind_eq_some_iff.mp hmode, power, hpower, htx⟩

theorem bare_countryShort {ctry c : Bytes} (h : countryShort ctry = some c) : Bare c := by
  have hall : (countryMap.all fun e => (ascii e.2).all fun c => isPlain c && c ≠ NUL) = true := by decide +kernel
  obtain ⟨l, l', hmap, _⟩ := List.lookup_eq_some_iff.mp h
  have hmem : (ctry, c) ∈ countryMap.map fun c => (ascii c.1, ascii c.2) := by
    rw [hmap]
    exact List.mem_append_right _ List.mem_cons_self
  obtain ⟨e, he, heq⟩ := List.mem_map.mp hmem
  cases heq
  exact bare_of_all (List.all_eq_true.mp hall e he)

theorem bare_getHwmode {v mode : Bytes} (h : getHwmode v = some mode) : Bare mode ∧ mode ≠ [] := by
  unfold getHwmode at h
  split at h
  · cases h
    exact ⟨bare_of_all rfl, by decide⟩
  · split at h
    · cases h
      exact ⟨bare_of_all rfl, by decide⟩
    · cases h

theorem bare_getHtmode {hwVersion : Option Bytes} {v mode : Bytes} (h : getHtmode hwVersion v = some mode) :
    Bare mode := by
  have hwd : Bare (if upper v = ascii "AUTO" then ascii "20" else if v = ascii "20" then ascii "20"
      else if v = ascii "40-" ∨ v = ascii "40+" then ascii "40" else ascii "20") := by
    split
    · exact bare_of_all rfl
    · split
      · exact bare_of_all rfl
      · split
        · exact bare_of_all rfl
        · exact bare_of_all rfl
  have hht : Bare (ascii "HT") := bare_of_all rfl
  have hvht : Bare (ascii "VHT") := bare_of_all rfl
  unfold getHtmode at h
  simp only at h
  split at h
  · cases h
  · split at h
    · cases h
      exact hht.append hwd
    · split at h
      · cases h
        exact hvht.append hwd
      · cases h

/-- The strings of a radio, of which the channel is the only one that the program does not choose. -/
theorem devCfgParse_strings {band : Band} {cfg : DevCfg} (h : devCfgParse env map band = .ok cfg) :
    (∃ v, bandSetting map "c_chanid" band = some v ∧ cfg.channel = getChannel v) ∧
      Bare cfg.country ∧ (Bare cfg.hwmode ∧ cfg.hwmode ≠ []) ∧ Bare cfg.htmode := by
  unfold devCfgParse at h
  simp only [except_bind_ok, assertSome_ok, indexed_ok] at h
  obtain ⟨country, hcountry, bswitch, _, hwmode, hmode, _, _, bandwidth, _, htmode, hht, chanid, hchan, power, _,
    txpower, _, hcfg⟩ := h
  cases hcfg
  obtain ⟨_, _, hshort⟩ := Option.bind_eq_some_iff.mp hcountry
  obtain ⟨_, _, hmode⟩ := Option.bind_eq_some_iff.mp hmode
  exact ⟨⟨chanid, hchan, rfl⟩, bare_countryShort hshort, bare_getHwmode hmode, bare_getHtmode hht⟩

/-- The passes over some of the bands: each writes the entry of its radio, and no other radio is
written to. -/
theorem foldlM_devCfgParse {bs : List Band} (hnodup : bs.Nodup) (hsup : ∀ b ∈ bs, ∃ d, sup.dev b = some d)
    {devs0 devs1 : Dev → Option DevCfg}
    (hfold : bs.foldlM (fun devs band => do
      let kvmap ← devCfgParse env map band
      setDevCfg devs (getWifiDev sup band) kvmap) devs0 = .ok devs1) :
    (∀ b ∈ bs, ∀ d, sup.dev b = some d → ∃ cfg, devs1 d = some cfg ∧ devCfgParse env map b = .ok cfg) ∧
      ∀ d, (∀ b ∈ bs, sup.dev b ≠ some d) → devs1 d = devs0 d := by
  induction bs generalizing devs0 with
  | nil =>
    cases hfold
    exact ⟨by simp, fun _ _ => rfl⟩
  | cons b bs ih =>
    obtain ⟨hb, hnodup⟩ := List.nodup_cons.mp hnodup
    obtain ⟨d0, hd0⟩ := hsup b List.mem_cons_self
    rw [List.foldlM_cons, getWifiDev_eq hd0] at hfold
    simp only [except_bind_ok] at hfold
    obtain ⟨devs', ⟨cfg, hcfg, hset⟩, hrest⟩ := hfold
    cases hset
    obtain ⟨hin, hout⟩ := ih hnodup (fun b' hb' => hsup b' (List.mem_cons_of_mem _ hb')) hrest
    refine ⟨fun b' hb' d hd => ?_, fun d hd => ?_⟩
    · rcases List.mem_cons.mp hb' with rfl | hb'
      · obtain rfl : d0 = d := Option.some.inj (hd0.symm.trans hd)
        -- no later band writes to this radio
        have hkeep := hout d0 fun b' hb' hd' => hb (sup.band_unique hd0 hd' ▸ hb')
        exact ⟨cfg, hkeep.trans (Function.update_self ..), hcfg⟩
      · exact hin b' hb' d hd
    · have hne : d ≠ d0 := by
        rintro rfl
        exact hd b List.mem_cons_self hd0
      exact (hout d fun b' hb' => hd b' (List.mem_cons_of_mem _ hb')).trans (Function.update_of_ne hne ..)

/-- The entry of every radio is that of its band. -/
theorem wifiDevCfgParse_ok {devs : Dev → Option DevCfg} (h : wifiDevCfgParse env sup map = .ok devs)
    {band : Band} {d : Dev} (hd : sup.dev band = some d) :
    ∃ cfg, devs d = some cfg ∧ devCfgParse env map band = .ok cfg :=
  (foldlM_devCfgParse (nodup_bandArrSupport env sup) (fun _ hb => mem_bandArrSupport.mp hb) h).1 band
    (mem_bandArrSupport.mpr ⟨d, hd⟩) d hd

/-- What has been parsed into the entry of a radio. -/
theorem wifiDevCfgParse_entry {devs : Dev → Option DevCfg} (h : wifiDevCfgParse env sup map = .ok devs)
    {band : Band} {d : Dev} (hd : sup.dev band = some d) {cfg : DevCfg} (hcfg : devs d = some cfg) :
    devCfgParse env map band = .ok cfg := by
  obtain ⟨cfg', hcfg', hparse⟩ := wifiDevCfgParse_ok h hd
  rwa [Option.some.inj (hcfg.symm.trans hcfg')]

theorem wifiDevCfgParse_some {devs : Dev → Option DevCfg} (h : wifiDevCfgParse env sup map = .ok devs) :
    ∀ band dev, sup.dev band = some dev → ∃ cfg, devs dev = some cfg := by
  intro band dev hdev
  obtain ⟨cfg, hcfg, _⟩ := wifiDevCfgParse_ok h hdev
  exact ⟨cfg, hcfg⟩

/-- A radio without a band has no entry. -/
theorem wifiDevCfgParse_none {devs : Dev → Option DevCfg} (h : wifiDevCfgParse env sup map = .ok devs) {d : Dev}
    (hd : ∀ band, sup.dev band ≠ some d) : devs d = none :=
  (foldlM_devCfgParse (nodup_bandArrSupport env sup) (fun _ hb => mem_bandArrSupport.mp hb) h).2 d
    fun band _ => hd band

/-- The WLANs of the configuration. -/
def idsOf (env : Env) (map : Config) : List Bytes :=
  (wlanIds env.toEnv (map.lookup (Cfg.key "c_wlanids"))).getD []

/-- The entries are those of the WLANs of the list, one for each. -/
theorem wifiIfaceCfgParse_ok {ifaces : Ifaces} (h : wifiIfaceCfgParse env map = .ok ifaces) :
    (∀ wlanid, wlanid ∈ ifaces.keys ↔ wlanid ∈ idsOf env map) ∧
      ∀ e ∈ ifaces.entries, ifaceCfgParse map e.1 = .ok e.2 := by
  have hfold : ∀ (ids : List Bytes) (acc r : Ifaces), ids.foldlM (fun ifaces wlanid => do
        let kvmap ← ifaceCfgParse map wlanid
        return ifaces.insert wlanid kvmap) acc = .ok r →
      (∀ e ∈ acc.entries, ifaceCfgParse map e.1 = .ok e.2) →
      (∀ wlanid, wlanid ∈ r.keys ↔ wlanid ∈ acc.keys ∨ wlanid ∈ ids) ∧
        ∀ e ∈ r.entries, ifaceCfgParse map e.1 = .ok e.2 := by
    intro ids
    induction ids with
    | nil =>
      intro acc r hfold hacc
      cases hfold
      exact ⟨by simp, hacc⟩
    | cons id ids ih =>
      intro acc r hfold hacc
      rw [List.foldlM_cons] at hfold
      simp only [except_bind_ok] at hfold
      obtain ⟨acc', ⟨cfg, hcfg, hins⟩, hrest⟩ := hfold
      cases hins
      obtain ⟨hkeys, hent⟩ := ih _ _ hrest fun e he => by
        have he : e ∈ ⟨id, cfg⟩ :: List.kerase id acc.entries := he
        rcases List.mem_cons.mp he with rfl | he
        · exact hcfg
        · exact hacc e ((List.kerase_sublist id _).subset he)
      refine ⟨fun wlanid => ?_, hent⟩
      rw [hkeys, AList.keys_insert, List.mem_cons, List.mem_cons]
      by_cases hid : wlanid = id
      · simp [hid]
      · simp [hid]
  unfold wifiIfaceCfgParse at h
  simp only [except_bind_ok, assertSome_ok] at h
  obtain ⟨ids, hids, hfold'⟩ := h
  obtain ⟨hkeys, hent⟩ := hfold ids ∅ ifaces hfold' (by simp)
  refine ⟨fun wlanid => ?_, hent⟩
  rw [hkeys, idsOf, hids]
  simp

/-- The two tables of an accepted configuration. -/
theorem wlCfgParse_ok {cfg : (Dev → Option DevCfg) × Ifaces} (h : wlCfgParse env sup map = .ok cfg) :
    wifiDevCfgParse env sup map = .ok cfg.1 ∧ wifiIfaceCfgParse env map = .ok cfg.2 := by
  unfold wlCfgParse at h
  simp only [except_bind_ok] at h
  obtain ⟨devs, hdevs, ifaces, hifaces, hcfg⟩ := h
  cases hcfg
  exact ⟨hdevs, hifaces⟩

end Parsing

/-! ## What the configuration asks for -/

/-- The mode of a band. -/
def bandMode : Band → Bytes
  | .b2g => ascii "11g"
  | .b5g => ascii "11a"

/-- The value a setting of a WLAN has in the configuration. -/
def settingOf (map : Config) (name : String) (wlanid : Bytes) : Option Bytes :=
  (shortWlan (keyPattern name) wlanid).bind fun k => map.lookup k

/-- The band setting of the WLAN selects the band. -/
def Selects (map : Config) (wlanid : Bytes) : Band → Prop
  | .b2g => settingOf map "c_wband" wlanid ≠ some (ascii "5g")
  | .b5g => settingOf map "c_wband" wlanid ≠ some (ascii "2g")

instance (map : Config) (wlanid : Bytes) (band : Band) : Decidable (Selects map wlanid band) := by
  cases band <;> unfold Selects <;> infer_instance

/-- A number with an integer value, in decimal. -/
def decimal (v : LuaNum) : Option Bytes := v.toInteger.map fun i => ascii (toString i)

/-- The section a WLAN asks for on a radio; an option without a value is not there. -/
def wanted (map : Config) (wlanid : Bytes) (dev : Dev) : Section Bytes Bytes Bytes Bytes where
  name := none
  type := ifaceT
  options := assign (fun _ => none)
    [(ascii "device", some dev.name),
     (ascii "disabled", ((settingOf map "c_wstate" wlanid).bind tonumber).map
       fun state => if isZero state then ascii "1" else ascii "0"),
     (ascii "hidden", ((settingOf map "c_whide" wlanid).bind tonumber).bind decimal),
     (ascii "ssid", (settingOf map "c_wssid" wlanid).bind stored),
     (ascii "encryption", (settingOf map "c_wencry" wlanid).bind stored),
     (ascii "key", stored ((settingOf map "c_wpasswd" wlanid).getD (ascii "none"))),
     (ascii "network", some (ascii "lan")), (ascii "mode", some (ascii "ap"))]

/-- The sections a WLAN asks for: one on the radio of every supported band it selects. -/
def wantedOn (sup : Support) (map : Config) (wlanid : Bytes) : Pkg :=
  bands.filterMap fun band => if Selects map wlanid band then (sup.dev band).map (wanted map wlanid) else none

/-- How many of the sections are on the radio of a band. -/
def onRadio (sup : Support) (band : Band) (pkg : Pkg) : Nat :=
  match sup.dev band with
  | none => 0
  | some d => pkg.countP fun s => s.options (ascii "device") = some d.name

/-- The file `pkg'` that has been made from `pkg`, and the counters, are what the configuration
asks for. -/
structure Committed (sup : Support) (map : Config) (ids : List Bytes) (pkg pkg' : Pkg)
    (userdata : Option (Nat × Nat)) : Prop where
  radios : ∀ band dev, sup.dev band = some dev → (∃ s ∈ pkg', s.name = some dev.name) ∧
    ∀ s ∈ pkg', s.name = some dev.name → s.type = devT ∧ s.options (ascii "hwmode") = some (bandMode band)
  ifaces : (ofType ifaceT pkg').Perm (ids.dedup.flatMap (wantedOn sup map))
  /-- the sections of other types are still there, and the same but for the radios -/
  others : ∃ f, others ifaceT pkg' = (others ifaceT pkg).map f ∧ ∀ s, (f s).name = s.name ∧
    ((∀ band dev, sup.dev band = some dev → s.name ≠ some dev.name) → f s = s)
  counts : userdata = some (onRadio sup .b2g (ofType ifaceT pkg'), onRadio sup .b5g (ofType ifaceT pkg'))

/-- The protocols of a band. -/
def protos : Band → List Bytes
  | .b2g => [ascii "bgn", ascii "bg", ascii "b", ascii "g", ascii "n"]
  | .b5g => [ascii "an", ascii "a"]

/-- A value `%d` can format. -/
def IsWhole (v : Bytes) : Prop := ((tonumber v).bind LuaNum.toInteger).isSome = true

/-- The configuration suits the access point: the protocol of every supported band is one of that
band, the numbers that get formatted are whole, and there is a 2g radio, or no WLAN goes to the
5g radio. -/
structure Suits (sup : Support) (map : Config) (ids : List Bytes) : Prop where
  proto : ∀ band dev, sup.dev band = some dev → ∀ v, bandSetting map "c_proto" band = some v → v ∈ protos band
  power : ∀ band dev, sup.dev band = some dev → ∀ v, bandSetting map "c_power" band = some v →
    upper v = ascii "AUTO" ∨ IsWhole v
  hidden : ∀ wlanid ∈ ids, (∃ band dev, sup.dev band = some dev ∧ Selects map wlanid band) →
    ∀ v, settingOf map "c_whide" wlanid = some v → IsWhole v
  counts : (∃ dev, sup.dev .b2g = some dev) ∨ ∀ wlanid ∈ ids, ¬ Selects map wlanid .b5g

/-- The strings of a WLAN. -/
def wlanStrings : List String := ["c_wssid", "c_wencry", "c_wpasswd"]

/-- The shell reads the channels, which are not quoted, and the strings as they are. -/
structure Legible (dir : Directory) (sup : Support) (map : Config) (ids : List Bytes) : Prop where
  /-- the line that sets the channel is one command, and sets it to something -/
  channel : ∀ band dev, sup.dev band = some dev → ∀ v, bandSetting map "c_chanid" band = some v →
    ∃ w, Asks dir (setRadioOption dev .channel (getChannel v)) (.set (.radio dev .channel) w)
  /-- a C string ends at a NUL -/
  strings : ∀ wlanid ∈ ids, (∃ band dev, sup.dev band = some dev ∧ Selects map wlanid band) →
    ∀ name ∈ wlanStrings, ∀ v, settingOf map name wlanid = some v → NUL ∉ v

/-! ## The lines of a commit -/

theorem formatD_some {v : LuaNum} {i : Int} (h : v.toInteger = some i) (s : Wl) :
    formatD v s = .ok (ascii (toString i)) s := by
  simp only [formatD, h]
  rfl

theorem formatD_none {v : LuaNum} (h : v.toInteger = none) (s : Wl) :
    formatD v s = .error (.message "number has no integer representation") s := by
  simp only [formatD, h]
  rfl

/-- `uci commit wireless`. -/
def commitLine : Bytes := ascii "uci commit wireless"

/-- The lines of `del_ano_wifi_iface_sections`. -/
def deleteLines (env : Env) (file : Pkg) : List Bytes :=
  if 0 < env.lines file then
    (List.range (env.lines file + 1)).map fun i : Nat => deleteIface ((env.lines file : Int) - 1 - i)
  else []

/-- The lines of the pass of `create_wifi_dev_sections` over a band. -/
def radioLines (env : Env) (sup : Support) (devs : Dev → Option DevCfg) (band : Band) : List Bytes :=
  ((getWifiDev sup band).bind fun dev => (devs dev).map fun cfg =>
    env.pairs (devCmds dev cfg ((decimal cfg.txpower).getD []))).getD []

/-- The lines of a WLAN on a radio. -/
def ifaceLines (cfg : IfaceCfg) (dev : Dev) : List Bytes :=
  ifaceCmds dev cfg ((decimal cfg.hidden).getD []) ++ [commitLine]

/-- The lines of `create_wifi_iface_sections`. -/
def ifacesLines (sup : Support) (es : List ((_ : Bytes) × IfaceCfg)) : List Bytes :=
  es.flatMap fun e => (wifiDevs sup e.2.type).flatMap (ifaceLines e.2)

/-- The lines of `wl_cfg_commit`. -/
def commitLines (env : Env) (sup : Support) (devs : Dev → Option DevCfg) (ifaces : Ifaces) (file : Pkg) : List Bytes :=
  deleteLines env file ++ [commitLine] ++ (bandArrSupport env sup).flatMap (radioLines env sup devs) ++ [commitLine] ++
    ifacesLines sup (env.pairs ifaces.entries) ++ [commitLine]

/-- What uci holds after the lines. -/
def executed (env : Env) (lines : List Bytes) (s : Files) : Files :=
  lines.foldl (fun s line => env.system (line.takeWhile (· ≠ NUL)) s) s

/-- The counters after one more section. -/
def bump (sup : Support) (cnt : Nat × Nat) (dev : Dev) : Nat × Nat :=
  if some dev = getWifiDev sup .b2g then (cnt.1 + 1, cnt.2) else (cnt.1, cnt.2 + 1)

/-- The radios of the sections made for the entries of `wifi_iface_cfg`. -/
def radiosOf (sup : Support) (es : List ((_ : Bytes) × IfaceCfg)) : List Dev :=
  es.flatMap fun e => wifiDevs sup e.2.type

/-- The numbers that `wl_cfg_commit` formats are whole. -/
structure Whole (sup : Support) (devs : Dev → Option DevCfg) (ifaces : Ifaces) : Prop where
  power : ∀ band dev, sup.dev band = some dev → ∀ cfg, devs dev = some cfg → ∃ i, cfg.txpower.toInteger = some i
  hidden : ∀ e ∈ ifaces.entries, wifiDevs sup e.2.type ≠ [] → ∃ i, e.2.hidden.toInteger = some i

section Lines
variable {env : Env} {sup : Support} {devs : Dev → Option DevCfg} {ifaces : Ifaces}

theorem executed_append (lines lines' : List Bytes) (s : Files) :
    executed env (lines ++ lines') s = executed env lines' (executed env lines s) := List.foldl_append

theorem runAll_execute (lines : List Bytes) (s : Wl) :
    runAll (execute env) lines s = .ok () { s with toFiles := executed env lines s.toFiles } := by
  induction lines generalizing s with
  | nil => rfl
  | cons line lines ih =>
    rw [runAll, bind_of_ok (show execute env line s = .ok () _ from rfl), ih]
    rfl

theorem uciCommit_eq (s : Wl) : uciCommit env s = .ok () { s with toFiles := executed env [commitLine] s.toFiles } := rfl

theorem delAno_eq (s : Wl) : delAnoWifiIfaceSections env s =
    .ok () { s with toFiles := executed env (deleteLines env s.file ++ [commitLine]) s.toFiles } := by
  unfold delAnoWifiIfaceSections deleteLines
  rw [bind_of_ok (get_ok s)]
  by_cases hnum : 0 < env.lines s.file
  · simp only [hnum, if_true]
    rw [bind_of_ok (runAll_execute _ s), uciCommit_eq, executed_append]
  · simp only [hnum, if_false]
    rfl

theorem decimal_getD {v : LuaNum} {i : Int} (h : v.toInteger = some i) : (decimal v).getD [] = ascii (toString i) := by
  simp [decimal, h]

/-- A radio whose power is whole. -/
theorem createWifiDev_eq {band : Band}
    (h : ∀ dev cfg, getWifiDev sup band = some dev → devs dev = some cfg → ∃ i, cfg.txpower.toInteger = some i)
    (s : Wl) : createWifiDev env sup devs band s =
      .ok () { s with toFiles := executed env (radioLines env sup devs band) s.toFiles } := by
  unfold createWifiDev radioLines
  cases hdev : getWifiDev sup band with
  | none => rfl
  | some dev =>
    simp only [Option.bind_some]
    cases hcfg : devs dev with
    | none => rfl
    | some cfg =>
      obtain ⟨i, hi⟩ := h dev cfg hdev hcfg
      simp only [Option.map_some, Option.getD_some]
      rw [bind_of_ok (formatD_some hi s), runAll_execute, decimal_getD hi]

theorem createWifiDevs_eq (env : Env) (devs : Dev → Option DevCfg) (bs : List Band) (h : ∀ band ∈ bs, ∀ dev cfg, getWifiDev sup band = some dev →
      devs dev = some cfg → ∃ i, cfg.txpower.toInteger = some i) (s : Wl) :
    runAll (createWifiDev env sup devs) bs s =
      .ok () { s with toFiles := executed env (bs.flatMap (radioLines env sup devs)) s.toFiles } := by
  induction bs generalizing s with
  | nil => rfl
  | cons b bs ih =>
    rw [runAll, bind_of_ok (createWifiDev_eq (h b List.mem_cons_self) s),
      ih fun b' hb' => h b' (List.mem_cons_of_mem _ hb'), List.flatMap_cons, executed_append]

/-- A power that cannot be formatted ends it. -/
theorem createWifiDevs_whole {bs : List Band} {s s' : Wl}
    (h : runAll (createWifiDev env sup devs) bs s = .ok () s') {b : Band} (hb : b ∈ bs) {d : Dev} {cfg : DevCfg}
    (hd : sup.dev b = some d) (hcfg : devs d = some cfg) : ∃ i, cfg.txpower.toInteger = some i := by
  induction bs generalizing s with
  | nil => cases hb
  | cons b' bs ih =>
    obtain ⟨s1, h1, hrest⟩ := runAll_cons_ok.mp h
    rcases List.mem_cons.mp hb with rfl | hb
    · cases hi : cfg.txpower.toInteger with
      | some i => exact ⟨i, rfl⟩
      | none =>
        unfold createWifiDev at h1
        simp only [getWifiDev_eq hd, hcfg] at h1
        rw [bind_of_error (formatD_none hi s)] at h1
        cases h1
    · exact ih hrest hb

theorem createWifiIface_eq {cfg : IfaceCfg} {i : Int} (hi : cfg.hidden.toInteger = some i) (cnt : Nat × Nat)
    (dev : Dev) (s : Wl) : createWifiIface env sup cfg cnt dev s =
      .ok (bump sup cnt dev) { s with toFiles := executed env (ifaceLines cfg dev) s.toFiles } := by
  unfold createWifiIface ifaceLines
  rw [bind_of_ok (formatD_some hi s), bind_of_ok (runAll_execute _ s), bind_of_ok (uciCommit_eq _), decimal_getD hi,
    executed_append]
  rfl

/-- One radio after the other. -/
theorem createWifiIface_all {cfg : IfaceCfg} {ds : List Dev} (hi : ds ≠ [] → ∃ i, cfg.hidden.toInteger = some i)
    (cnt : Nat × Nat) (s : Wl) : ds.foldlM (createWifiIface env sup cfg) cnt s =
      .ok (ds.foldl (bump sup) cnt) { s with toFiles := executed env (ds.flatMap (ifaceLines cfg)) s.toFiles } := by
  induction ds generalizing cnt s with
  | nil => rfl
  | cons d ds ih =>
    obtain ⟨i, hi⟩ := hi (by simp)
    rw [List.foldlM_cons, bind_of_ok (createWifiIface_eq hi cnt d s), ih fun _ => ⟨i, hi⟩, List.flatMap_cons,
      executed_append, List.foldl_cons]

/-- One WLAN after the other. -/
theorem createWifiIfaces_eq (env : Env) (es : List ((_ : Bytes) × IfaceCfg))
    (hi : ∀ e ∈ es, wifiDevs sup e.2.type ≠ [] → ∃ i, e.2.hidden.toInteger = some i) (cnt : Nat × Nat) (s : Wl) :
    es.foldlM (fun cnt e => (wifiDevs sup e.2.type).foldlM (createWifiIface env sup e.2) cnt) cnt s =
      .ok ((radiosOf sup es).foldl (bump sup) cnt) { s with toFiles := executed env (ifacesLines sup es) s.toFiles } := by
  induction es generalizing cnt s with
  | nil => rfl
  | cons e es ih =>
    rw [List.foldlM_cons, bind_of_ok (createWifiIface_all (hi e List.mem_cons_self) cnt s),
      ih fun e' he' => hi e' (List.mem_cons_of_mem _ he')]
    simp only [ifacesLines, radiosOf, List.flatMap_cons, List.foldl_append, executed_append]

/-- A hidden flag that cannot be formatted ends it. -/
theorem createWifiIfaces_whole {es : List ((_ : Bytes) × IfaceCfg)} {cnt cnt' : Nat × Nat} {s s' : Wl}
    (h : es.foldlM (fun cnt e => (wifiDevs sup e.2.type).foldlM (createWifiIface env sup e.2) cnt) cnt s =
      .ok cnt' s') : ∀ e ∈ es, wifiDevs sup e.2.type ≠ [] → ∃ i, e.2.hidden.toInteger = some i := by
  induction es generalizing cnt s with
  | nil => simp
  | cons e es ih =>
    rw [List.foldlM_cons] at h
    obtain ⟨cnt1, s1, h1, hrest⟩ := bind_eq_ok.mp h
    intro e' he' hne
    rcases List.mem_cons.mp he' with rfl | he'
    · cases hi : e'.2.hidden.toInteger with
      | some i => exact ⟨i, rfl⟩
      | none =>
        cases hdevs : wifiDevs sup e'.2.type with
        | nil => exact absurd hdevs hne
        | cons dev devs =>
          rw [hdevs, List.foldlM_cons] at h1
          obtain ⟨cnt2, s2, hfirst, _⟩ := bind_eq_ok.mp h1
          unfold createWifiIface at hfirst
          rw [bind_of_error (formatD_none hi s)] at hfirst
          cases hfirst
    · exact ih hrest e' he' hne

/-- **A commit is its lines** if the numbers are whole, whatever is in the file. -/
theorem wlCfgCommit_eq (env : Env) (hwhole : Whole sup devs ifaces) (u : Wl) :
    wlCfgCommit env sup (devs, ifaces) u =
      .ok () ⟨executed env (commitLines env sup devs ifaces u.file) u.toFiles,
        some ((radiosOf sup (env.pairs ifaces.entries)).foldl (bump sup) (0, 0))⟩ := by
  have hradios := createWifiDevs_eq env devs (bandArrSupport env sup)
    fun b hb dev cfg hdev hcfg => by
      obtain ⟨d, hd⟩ := mem_bandArrSupport.mp hb
      obtain rfl : d = dev := Option.some.inj ((getWifiDev_eq hd).symm.trans hdev)
      exact hwhole.power b d hd cfg hcfg
  have hsections := createWifiIfaces_eq env (env.pairs ifaces.entries)
    fun e he => hwhole.hidden e ((env.pairs_perm _).mem_iff.mp he)
  unfold wlCfgCommit createWifiDevSections createWifiIfaceSections
  rw [bind_of_ok (delAno_eq u), bind_of_ok (bind_of_ok (hradios _) |>.trans (uciCommit_eq _)),
    bind_of_ok (bind_of_ok (hsections _ _) |>.trans (modify_ok _ _)), uciCommit_eq]
  simp only [commitLines, executed_append]

/-- A commit that returns has formatted every number. -/
theorem wlCfgCommit_whole {u u' : Wl} (h : wlCfgCommit env sup (devs, ifaces) u = .ok () u') :
    Whole sup devs ifaces := by
  unfold wlCfgCommit createWifiDevSections createWifiIfaceSections at h
  obtain ⟨_, _, _, h⟩ := bind_eq_ok.mp h
  obtain ⟨_, _, hradios, h⟩ := bind_eq_ok.mp h
  obtain ⟨_, _, hradios, _⟩ := bind_eq_ok.mp hradios
  obtain ⟨_, _, hsections, _⟩ := bind_eq_ok.mp h
  obtain ⟨_, _, hsections, _⟩ := bind_eq_ok.mp hsections
  constructor
  · intro band dev hdev cfg hcfg
    exact createWifiDevs_whole hradios (mem_bandArrSupport.mpr ⟨dev, hdev⟩) hdev hcfg
  · intro e he
    exact createWifiIfaces_whole hsections e ((env.pairs_perm _).mem_iff.mpr he)

/-- **A commit returns** if the numbers are whole, whatever is in the file. -/
theorem wlCfgCommit_returns (env : Env) (hwhole : Whole sup devs ifaces) (u : Wl) :
    ∃ u', wlCfgCommit env sup (devs, ifaces) u = .ok () u' := ⟨_, wlCfgCommit_eq env hwhole u⟩

end Lines

/-! ## What the lines ask for -/

/-- What is staged after the requests. -/
theorem foldl_run_staged (rs : List Request) (s : Files) :
    (rs.foldl Request.run s).staged = (rs.filterMap Request.cmd).foldl Cmd.run s.staged := by
  induction rs generalizing s with
  | nil => rfl
  | cons r rs ih =>
    rw [List.foldl_cons, ih]
    cases hcmd : r.cmd with
    | none => rw [List.filterMap_cons_none hcmd, Request.run, hcmd]
    | some c => rw [List.filterMap_cons_some hcmd, Request.run, hcmd, List.foldl_cons]

section Asked
variable {env : Env} {dir : Directory}

theorem executed_asks (hdoc : Documented dir env.system) {lines : List Bytes} {rs : List Request}
    (h : List.Forall₂ (Asks dir) lines rs) (s : Files) : executed env lines s = rs.foldl Request.run s := by
  induction h generalizing s with
  | nil => rfl
  | @cons line r _ _ hline _ ih =>
    have hstep : env.system (line.takeWhile (· ≠ NUL)) s = r.run s := hdoc _ r s hline
    rw [executed, List.foldl_cons, hstep]
    exact ih _

theorem executed_commit (hdoc : Documented dir env.system) (s : Files) :
    executed env [commitLine] s = { s with file := s.staged } :=
  executed_asks hdoc (.cons (asks_commit dir) .nil) s

/-- **All the interface sections are deleted**, and nothing else. -/
theorem staged_delete (hdoc : Documented dir env.system) (hdir : NoNames dir) {s : Files} (hclean : s.staged = s.file) :
    (executed env (deleteLines env s.file) s).staged = others ifaceT s.file := by
  unfold deleteLines
  by_cases hnum : 0 < env.lines s.file
  · have hasks : List.Forall₂ (Asks dir)
        ((List.range (env.lines s.file + 1)).map fun i : Nat => deleteIface ((env.lines s.file : Int) - 1 - i))
        ((List.range (env.lines s.file + 1)).map fun i : Nat => Request.delete ((env.lines s.file : Int) - 1 - i)) := by
      rw [List.forall₂_map_left_iff, List.forall₂_map_right_iff, List.forall₂_same]
      exact fun i _ => asks_delete hdir _
    have hcmds : ((List.range (env.lines s.file + 1)).map fun i : Nat =>
          Request.delete ((env.lines s.file : Int) - 1 - i)).filterMap Request.cmd =
        (List.range (env.lines s.file + 1)).map fun i : Nat => Cmd.delete ifaceT ((env.lines s.file : Int) - 1 - i) := by
      rw [List.filterMap_map, ← List.filterMap_eq_map]
      rfl
    rw [if_pos hnum, executed_asks hdoc hasks, foldl_run_staged, hcmds, hclean, foldl_delete (env.lines_ge s.file)]
  · -- no line, no section
    have hnone : ofType ifaceT s.file = [] :=
      List.length_eq_zero_iff.mp (by have := env.lines_ge s.file; omega)
    have hall : others ifaceT s.file = s.file := by
      refine List.filter_eq_self.mpr fun x hx => ?_
      simp only [ne_eq, decide_not, Bool.not_eq_true', decide_eq_false_iff_not]
      intro ht
      have hmem : x ∈ ofType ifaceT s.file := List.mem_filter.mpr ⟨hx, by simpa using ht⟩
      rw [hnone] at hmem
      cases hmem
    rw [if_neg hnum, hall]
    exact hclean

end Asked

/-! ## Radios -/

/-- `f` gives the radios of the bands their type and mode, and leaves everything else alone. -/
structure Tuned (sup : Support) (devs : Dev → Option DevCfg) (bs : List Band)
    (f : Section Bytes Bytes Bytes Bytes → Section Bytes Bytes Bytes Bytes) : Prop where
  name : ∀ s, (f s).name = s.name
  type : ∀ s, (f s).type = s.type ∨ (f s).type = devT
  other : ∀ s, (∀ b ∈ bs, ∀ d, sup.dev b = some d → s.name ≠ some d.name) → f s = s
  radio : ∀ b ∈ bs, ∀ d cfg s, sup.dev b = some d → devs d = some cfg → s.name = some d.name →
    (f s).type = devT ∧ (f s).options (ascii "hwmode") = some cfg.hwmode

theorem typeAfter_eq {t t0 : Bytes} {cmds : List (Cmd Bytes Bytes Bytes Bytes)}
    (hall : ∀ n t', .setType n t' ∈ cmds → t' = t) : typeAfter t0 cmds = t0 ∨ typeAfter t0 cmds = t := by
  induction cmds generalizing t0 with
  | nil => exact .inl rfl
  | cons c cmds ih =>
    have hrest : ∀ n t', Cmd.setType n t' ∈ cmds → t' = t :=
      fun n t' h => hall n t' (List.mem_cons_of_mem _ h)
    cases c with
    | setType n t' =>
      obtain rfl := hall n t' List.mem_cons_self
      exact .inr ((ih hrest).elim id id)
    | add => exact ih hrest
    | delete => exact ih hrest
    | setAt => exact ih hrest
    | setOption => exact ih hrest

theorem typeAfter_of_mem {t t0 n : Bytes} {cmds : List (Cmd Bytes Bytes Bytes Bytes)}
    (hall : ∀ n t', .setType n t' ∈ cmds → t' = t) (hmem : .setType n t ∈ cmds) : typeAfter t0 cmds = t := by
  obtain ⟨pre, post, rfl⟩ := List.append_of_mem hmem
  have hsplit : typeAfter t0 (pre ++ .setType n t :: post) = typeAfter t post := by
    simp only [typeAfter, List.foldl_append, List.foldl_cons]
  rw [hsplit]
  exact (typeAfter_eq fun n t' h => hall n t' (by simp [h])).elim id id

section Radios
variable {env : Env} {dir : Directory} {sup : Support} {devs : Dev → Option DevCfg}

/-- What the shell has to read of a radio: the strings of the program are bare, and the channel is
read as something. -/
structure Tunable (dir : Directory) (dev : Dev) (cfg : DevCfg) : Prop where
  country : Bare cfg.country
  hwmode : Bare cfg.hwmode ∧ cfg.hwmode ≠ []
  htmode : Bare cfg.htmode
  channel : ∃ w, Asks dir (setRadioOption dev .channel cfg.channel) (.set (.radio dev .channel) w)

/-- What the lines of a radio ask for. -/
def devRequests (dev : Dev) (cfg : DevCfg) (txpower : Bytes) : List Request :=
  .setType dev :: (radioSettings cfg txpower).map fun kv => .set (.radio dev kv.1) kv.2

theorem asks_devCmds (hdir : NoNames dir) {dev : Dev} {cfg : DevCfg} (h : Tunable dir dev cfg) (i : Int) :
    ∃ w, List.Forall₂ (Asks dir) (devCmds dev cfg (ascii (toString i)))
      (devRequests dev { cfg with channel := w } (ascii (toString i))) := by
  obtain ⟨w, hw⟩ := h.channel
  have hdisabled : Bare (ascii (toString cfg.disabled)) := bare_int cfg.disabled
  exact ⟨w, .cons (asks_setType hdir dev) (.cons (asks_setRadio hdir dev .country h.country)
    (.cons (asks_setRadio hdir dev .disabled hdisabled) (.cons (asks_setRadio hdir dev .hwmode h.hwmode.1)
      (.cons (asks_setRadio hdir dev .htmode h.htmode) (.cons hw
        (.cons (asks_setRadio hdir dev .txpower (bare_int i)) .nil))))))⟩

/-- The commands of `devRequests`. -/
def devCommands (dev : Dev) (cfg : DevCfg) (txpower : Bytes) : List (Cmd Bytes Bytes Bytes Bytes) :=
  .setType dev.name devT ::
    (radioSettings cfg txpower).map fun kv => .setOption dev.name (ascii kv.1.name) (stored kv.2)

theorem filterMap_devRequests (dev : Dev) (cfg : DevCfg) (txpower : Bytes) :
    (devRequests dev cfg txpower).filterMap Request.cmd = devCommands dev cfg txpower := rfl

/-- The commands for a radio, in any order. -/
theorem after_devCommands {dev : Dev} {cfg : DevCfg} {txpower : Bytes} {cmds : List (Cmd Bytes Bytes Bytes Bytes)}
    (hperm : cmds.Perm (devCommands dev cfg txpower)) (hne : cfg.hwmode ≠ []) (s : Section Bytes Bytes Bytes Bytes) :
    (s.after cmds).type = devT ∧ (s.after cmds).options (ascii "hwmode") = some cfg.hwmode := by
  have hmem : ∀ {c}, c ∈ cmds ↔ c ∈ devCommands dev cfg txpower := hperm.mem_iff
  constructor
  · refine typeAfter_of_mem (n := dev.name) (fun n t' h => ?_) (hmem.mpr List.mem_cons_self)
    rcases List.mem_cons.mp (hmem.mp h) with h | h
    · cases h
      rfl
    · obtain ⟨kv, _, h⟩ := List.mem_map.mp h
      cases h
  · have hassign : (assignments cmds).Perm (assignments (devCommands dev cfg txpower)) := hperm.filterMap _
    have hnodup : ((assignments cmds).map Prod.fst).Nodup := by
      have hkeys : (assignments (devCommands dev cfg txpower)).map Prod.fst =
          (radioSettings cfg txpower).map fun kv => ascii kv.1.name := rfl
      rw [(hassign.map Prod.fst).nodup_iff, hkeys]
      show [ascii "country", ascii "disabled", ascii "hwmode", ascii "htmode", ascii "channel",
        ascii "txpower"].Nodup
      decide
    rw [← stored_of_ne hne]
    exact assign_of_mem (.of_nodup hnodup) (hassign.mem_iff.mpr
      (List.mem_cons_of_mem _ (List.mem_cons_of_mem _ List.mem_cons_self)))

theorem sets_devCommands {dev : Dev} {cfg : DevCfg} {txpower : Bytes} {c : Cmd Bytes Bytes Bytes Bytes}
    (h : c ∈ devCommands dev cfg txpower) : c.Sets dev.name := by
  rcases List.mem_cons.mp h with rfl | h
  · rfl
  · obtain ⟨kv, _, rfl⟩ := List.mem_map.mp h
    rfl

/-- The radio of a band. -/
theorem staged_radio (hdoc : Documented dir env.system) (hdir : NoNames dir) {band : Band} {d : Dev} {cfg : DevCfg}
    {i : Int} (hd : sup.dev band = some d) (hcfg : devs d = some cfg) (hi : cfg.txpower.toInteger = some i)
    (htune : Tunable dir d cfg) {s : Files} (hex : hasNamed d.name s.staged) :
    ∃ f, (executed env (radioLines env sup devs band) s).staged = s.staged.map f ∧ Tuned sup devs [band] f := by
  obtain ⟨w, hasks⟩ := asks_devCmds hdir htune i
  -- the lines come in some order
  obtain ⟨rs, hrs, hperm⟩ := List.perm_comp_forall₂ (env.pairs_perm (devCmds d cfg (ascii (toString i)))) hasks
  have hcmds := hperm.filterMap Request.cmd
  rw [filterMap_devRequests] at hcmds
  have hafter := fun s => after_devCommands hcmds htune.hwmode.2 s
  refine ⟨fun s => if s.name = some d.name then s.after (rs.filterMap Request.cmd) else s, ?_, ?_⟩
  · have hlines : radioLines env sup devs band = env.pairs (devCmds d cfg (ascii (toString i))) := by
      rw [radioLines, getWifiDev_eq hd, Option.bind_some, hcfg, Option.map_some, Option.getD_some, decimal_getD hi]
    rw [hlines, executed_asks hdoc hrs, foldl_run_staged, foldl_named (fun c hc => ?_) hex]
    · rfl
    · exact sets_devCommands (hcmds.mem_iff.mp hc)
  · constructor
    · intro s
      split <;> rfl
    · intro s
      split
      · exact .inr (hafter s).1
      · exact .inl rfl
    · intro s hs
      exact if_neg (hs band List.mem_cons_self d hd)
    · intro b hb d' cfg' s hd' hcfg' hs
      obtain rfl := List.mem_singleton.mp hb
      obtain rfl : d' = d := Option.some.inj (hd'.symm.trans hd)
      obtain rfl : cfg' = cfg := Option.some.inj (hcfg'.symm.trans hcfg)
      rw [if_pos hs]
      exact hafter s

/-- One band after the other. -/
theorem Tuned.cons {b : Band} {bs : List Band} (hb : b ∉ bs)
    {f g : Section Bytes Bytes Bytes Bytes → Section Bytes Bytes Bytes Bytes}
    (hf : Tuned sup devs [b] f) (hg : Tuned sup devs bs g) : Tuned sup devs (b :: bs) fun s => g (f s) where
  name s := (hg.name _).trans (hf.name s)
  type s := by
    rcases hg.type (f s) with h | h
    · rw [h]
      exact hf.type s
    · exact .inr h
  other s hs := by
    have hfs : f s = s := hf.other s fun b' hb' => hs b' (by simp [List.mem_singleton.mp hb'])
    rw [hfs]
    exact hg.other s fun b' hb' => hs b' (List.mem_cons_of_mem _ hb')
  radio b' hb' d cfg s hd hcfg hs := by
    have hname : (f s).name = some d.name := (hf.name s).trans hs
    rcases List.mem_cons.mp hb' with rfl | hb'
    · -- the later bands have other radios
      have hkeep : g (f s) = f s := by
        refine hg.other _ fun b2 hb2 d2 hd2 heq => ?_
        rw [hname] at heq
        have hdd : d = d2 := Dev.name_inj (Option.some.inj heq)
        exact hb (sup.band_unique hd (hdd ▸ hd2) ▸ hb2)
      rw [hkeep]
      exact hf.radio b' List.mem_cons_self d cfg s hd hcfg hs
    · exact hg.radio b' hb' d cfg (f s) hd hcfg hname

theorem hasNamed_map {f : Section Bytes Bytes Bytes Bytes → Section Bytes Bytes Bytes Bytes}
    (hf : ∀ s, (f s).name = s.name) {n : Bytes} {pkg : Pkg} (h : hasNamed n pkg) : hasNamed n (pkg.map f) := by
  obtain ⟨s, hs, hn⟩ := h
  exact ⟨f s, List.mem_map_of_mem hs, (hf s).trans hn⟩

/-- The radios of several bands. -/
theorem staged_radios (devs : Dev → Option DevCfg) (hdoc : Documented dir env.system) (hdir : NoNames dir) {bs : List Band} (hnodup : bs.Nodup)
    (hbs : ∀ b ∈ bs, ∃ d cfg i, sup.dev b = some d ∧ devs d = some cfg ∧ cfg.txpower.toInteger = some i ∧
      Tunable dir d cfg)
    {s : Files} (hex : ∀ b ∈ bs, ∀ d, sup.dev b = some d → hasNamed d.name s.staged) :
    ∃ f, (executed env (bs.flatMap (radioLines env sup devs)) s).staged = s.staged.map f ∧ Tuned sup devs bs f := by
  induction bs generalizing s with
  | nil =>
    refine ⟨id, ?_, ⟨fun _ => rfl, fun _ => .inl rfl, fun _ _ => rfl, by simp⟩⟩
    rw [List.map_id]
    rfl
  | cons b bs ih =>
    obtain ⟨hb, hnodup⟩ := List.nodup_cons.mp hnodup
    obtain ⟨d, cfg, i, hd, hcfg, hi, htune⟩ := hbs b List.mem_cons_self
    obtain ⟨f, hrun, hf⟩ := staged_radio hdoc hdir hd hcfg hi htune (hex b List.mem_cons_self d hd)
    obtain ⟨g, hrest, hg⟩ := ih hnodup (fun b' hb' => hbs b' (List.mem_cons_of_mem _ hb'))
      (s := executed env (radioLines env sup devs b) s) fun b' hb' d' hd' => by
        rw [hrun]
        exact hasNamed_map hf.name (hex b' (List.mem_cons_of_mem _ hb') d' hd')
    refine ⟨fun s => g (f s), ?_, hf.cons hb hg⟩
    rw [List.flatMap_cons, executed_append, hrest, hrun, List.map_map]
    rfl

end Radios

/-! ## Interfaces -/

/-- What the shell has to read of a WLAN: the strings of the configuration, which have no single
quote. -/
def Writable (dir : Directory) (cfg : IfaceCfg) : Prop :=
  ∀ kv ∈ stringOptions cfg, ch '\'' ∉ kv.2 ∧ osExecute dir (setIfaceOption kv.1 kv.2) ≠ none

/-- What the lines of a WLAN on a radio ask for; the values end at a NUL. -/
def ifaceRequests (dev : Dev) (cfg : IfaceCfg) (hidden : Bytes) : List Request :=
  .add :: (ifaceSettings dev cfg hidden).map fun kv => .set (.iface kv.1) (kv.2.takeWhile (· ≠ NUL))

/-- The section that is made for a WLAN on a radio. -/
def sectionOf (cfg : IfaceCfg) (dev : Dev) : Section Bytes Bytes Bytes Bytes where
  name := none
  type := ifaceT
  options := assign (fun _ => none) ((ifaceSettings dev cfg ((decimal cfg.hidden).getD [])).map fun kv =>
    (ascii kv.1.name, stored (kv.2.takeWhile (· ≠ NUL))))

/-- The sections made for the entries of `wifi_iface_cfg`. -/
def sectionsOf (sup : Support) (es : List ((_ : Bytes) × IfaceCfg)) : Pkg :=
  es.flatMap fun e => (wifiDevs sup e.2.type).map (sectionOf e.2)

section Interfaces
variable {env : Env} {dir : Directory} {sup : Support}

theorem Bare.no_quote {v : Bytes} (h : Bare v) : ch '\'' ∉ v := fun hq =>
  absurd (h _ hq).1 (by decide)

theorem asks_bare (hdir : NoNames dir) (option : IfaceOption) {v : Bytes} (hv : Bare v) :
    Asks dir (setIfaceOption option.name v) (.set (.iface option) (v.takeWhile (· ≠ NUL))) := by
  rw [cString_of_no_nul hv.no_nul]
  exact asks_setIface hdir option hv.no_quote hv.no_nul

theorem asks_string (hdir : NoNames dir) (option : IfaceOption) {v : Bytes}
    (h : ch '\'' ∉ v ∧ osExecute dir (setIfaceOption option.name v) ≠ none) :
    Asks dir (setIfaceOption option.name v) (.set (.iface option) (v.takeWhile (· ≠ NUL))) :=
  (asks_cut hdir option h.1).resolve_right h.2

theorem asks_ifaceCmds (hdir : NoNames dir) {cfg : IfaceCfg} (h : Writable dir cfg) (dev : Dev) (i : Int) :
    List.Forall₂ (Asks dir) (ifaceCmds dev cfg (ascii (toString i))) (ifaceRequests dev cfg (ascii (toString i))) := by
  obtain ⟨hssid, hencry, hkey⟩ : _ ∧ _ ∧ _ := ⟨h ("ssid", cfg.ssid) (by simp [stringOptions]),
    h ("encryption", cfg.encryption) (by simp [stringOptions]), h ("key", cfg.key) (by simp [stringOptions])⟩
  have hdev : Bare dev.name := by cases dev <;> exact bare_of_all rfl
  have hdisabled : Bare (ascii (toString cfg.disabled)) := bare_int cfg.disabled
  exact .cons (asks_add dir) (.cons (asks_bare hdir .device hdev) (.cons (asks_bare hdir .disabled hdisabled)
    (.cons (asks_bare hdir .hidden (bare_int i)) (.cons (asks_string hdir .ssid hssid)
      (.cons (asks_string hdir .encryption hencry) (.cons (asks_string hdir .key hkey)
        (.cons (asks_bare hdir .network (bare_of_all rfl)) (.cons (asks_bare hdir .mode (bare_of_all rfl)) .nil))))))))

/-- The section of a WLAN on a radio. -/
theorem staged_iface (hdoc : Documented dir env.system) (hdir : NoNames dir) {cfg : IfaceCfg} {i : Int}
    (hi : cfg.hidden.toInteger = some i) (h : Writable dir cfg) (dev : Dev) (s : Files) :
    (executed env (ifaceLines cfg dev) s).staged = s.staged ++ [sectionOf cfg dev] := by
  have hcmds : (ifaceRequests dev cfg (ascii (toString i))).filterMap Request.cmd =
      Cmd.add ifaceT :: ((ifaceSettings dev cfg (ascii (toString i))).map fun kv =>
        (ascii kv.1.name, stored (kv.2.takeWhile (· ≠ NUL)))).map fun kv => Cmd.setAt ifaceT (-1) kv.1 kv.2 := rfl
  rw [ifaceLines, decimal_getD hi, executed_append, executed_commit hdoc,
    executed_asks hdoc (asks_ifaceCmds hdir h dev i), foldl_run_staged, hcmds, foldl_add, sectionOf, decimal_getD hi]

theorem staged_wlan (hdoc : Documented dir env.system) (hdir : NoNames dir) {cfg : IfaceCfg} {ds : List Dev}
    (h : ds ≠ [] → (∃ i, cfg.hidden.toInteger = some i) ∧ Writable dir cfg) (s : Files) :
    (executed env (ds.flatMap (ifaceLines cfg)) s).staged = s.staged ++ ds.map (sectionOf cfg) := by
  induction ds generalizing s with
  | nil =>
    rw [List.map_nil, List.append_nil]
    rfl
  | cons d ds ih =>
    obtain ⟨⟨i, hi⟩, hwrite⟩ := h (by simp)
    rw [List.flatMap_cons, executed_append, ih fun _ => ⟨⟨i, hi⟩, hwrite⟩, staged_iface hdoc hdir hi hwrite,
      List.append_assoc, List.map_cons, List.singleton_append]

/-- The sections of all WLANs. -/
theorem staged_ifaces (hdoc : Documented dir env.system) (hdir : NoNames dir) (es : List ((_ : Bytes) × IfaceCfg))
    (h : ∀ e ∈ es, wifiDevs sup e.2.type ≠ [] → (∃ i, e.2.hidden.toInteger = some i) ∧ Writable dir e.2) (s : Files) :
    (executed env (ifacesLines sup es) s).staged = s.staged ++ sectionsOf sup es := by
  induction es generalizing s with
  | nil =>
    rw [sectionsOf, List.flatMap_nil, List.append_nil]
    rfl
  | cons e es ih =>
    rw [ifacesLines, List.flatMap_cons, executed_append]
    rw [← ifacesLines, ih fun e' he' => h e' (List.mem_cons_of_mem _ he'),
      staged_wlan hdoc hdir (h e List.mem_cons_self), List.append_assoc, sectionsOf, sectionsOf, List.flatMap_cons]

/-! ## Sections and settings -/

variable {map : Config} {wlanid : Bytes} {cfg : IfaceCfg}

theorem wlanSetting_ok {name : String} {v : Option Bytes} (h : wlanSetting map name wlanid = .ok v) :
    settingOf map name wlanid = v := by
  unfold wlanSetting at h
  unfold settingOf
  cases hk : shortWlan (keyPattern name) wlanid with
  | none => simp [hk] at h
  | some k => simpa [hk] using h

/-- The entry of a WLAN has the values of its settings. -/
structure Entry (map : Config) (wlanid : Bytes) (cfg : IfaceCfg) : Prop where
  band : ∃ v, settingOf map "c_wband" wlanid = some v ∧
    cfg.type = if v = ascii "2g" then 1 else if v = ascii "5g" then 2 else 3
  state : ∃ v, (settingOf map "c_wstate" wlanid).bind tonumber = some v ∧ cfg.disabled = disabledOf v
  hidden : (settingOf map "c_whide" wlanid).bind tonumber = some cfg.hidden
  ssid : settingOf map "c_wssid" wlanid = some cfg.ssid
  encryption : settingOf map "c_wencry" wlanid = some cfg.encryption
  key : cfg.key = (settingOf map "c_wpasswd" wlanid).getD (ascii "none")

theorem ifaceCfgParse_ok (h : ifaceCfgParse map wlanid = .ok cfg) : Entry map wlanid cfg := by
  unfold ifaceCfgParse at h
  simp only [except_bind_ok, assertSome_ok] at h
  obtain ⟨_, hband, band, rfl, _, hstate, state, hstate', _, hhide, hidden, hhide', _, hssid, ssid, rfl,
    _, hencry, encry, rfl, passwd, hpasswd, hcfg⟩ := h
  cases hcfg
  exact ⟨⟨band, wlanSetting_ok hband, rfl⟩, ⟨state, wlanSetting_ok hstate ▸ hstate', rfl⟩,
    wlanSetting_ok hhide ▸ hhide', wlanSetting_ok hssid, wlanSetting_ok hencry, by rw [wlanSetting_ok hpasswd]⟩

/-- The radios of a WLAN are those of the supported bands it selects. -/
theorem wifiDevs_eq (h : Entry map wlanid cfg) :
    wifiDevs sup cfg.type = bands.filterMap fun band => if Selects map wlanid band then sup.dev band else none := by
  obtain ⟨v, hv, htype⟩ := h.band
  have h2 : (if sup.has .b2g = true then getWifiDev sup .b2g else none) = sup.dev .b2g := by
    unfold Support.has
    cases hd : sup.dev .b2g with
    | none => rfl
    | some d => exact getWifiDev_eq hd
  have h5 : (if sup.has .b5g = true then getWifiDev sup .b5g else none) = sup.dev .b5g := by
    unfold Support.has
    cases hd : sup.dev .b5g with
    | none => rfl
    | some d => exact getWifiDev_eq hd
  have hne : ascii "2g" ≠ ascii "5g" := by decide
  have hboth : ∀ o o' : Option Dev, o.toList ++ o'.toList = [o, o'].filterMap id := by
    rintro (_ | d) (_ | d') <;> rfl
  unfold wifiDevs
  simp only [h2, h5]
  by_cases hv2 : v = ascii "2g"
  · subst hv2
    rw [htype, if_pos rfl]
    have hs2 : Selects map wlanid .b2g := by simp [Selects, hv, hne]
    have hs5 : ¬ Selects map wlanid .b5g := by simp [Selects, hv]
    cases hd : sup.dev .b2g <;> simp [bands, hs2, hs5, hd]
  · by_cases hv5 : v = ascii "5g"
    · subst hv5
      rw [htype, if_neg hv2, if_pos rfl]
      have hs2 : ¬ Selects map wlanid .b2g := by simp [Selects, hv]
      have hs5 : Selects map wlanid .b5g := by simp [Selects, hv, hne.symm]
      cases hd : sup.dev .b5g <;> simp [bands, hs2, hs5, hd]
    · rw [htype, if_neg hv2, if_neg hv5]
      simp only [Nat.reduceEqDiff, if_false, if_true]
      rw [hboth]
      have hs2 : Selects map wlanid .b2g := by simp [Selects, hv, hv5]
      have hs5 : Selects map wlanid .b5g := by simp [Selects, hv, hv2]
      simp [bands, List.filterMap_cons, hs2, hs5]

/-- The section of a WLAN is the one it asks for, if no string is cut. -/
theorem sectionOf_eq (h : Entry map wlanid cfg) {i : Int} (hi : cfg.hidden.toInteger = some i)
    (hnul : ∀ kv ∈ stringOptions cfg, NUL ∉ kv.2) (dev : Dev) : sectionOf cfg dev = wanted map wlanid dev := by
  obtain ⟨state, hstate, hdisabled⟩ := h.state
  have hswitch : ascii (toString cfg.disabled) = if isZero state = true then ascii "1" else ascii "0" := by
    rw [hdisabled, disabledOf]
    split <;> decide
  have hbare : ∀ {v : Bytes}, Bare v → v ≠ [] → stored (v.takeWhile (· ≠ NUL)) = some v := by
    intro v hv hne
    rw [cString_of_no_nul hv.no_nul, stored_of_ne hne]
  have hdev := hbare (show Bare dev.name by cases dev <;> exact bare_of_all rfl) (by cases dev <;> decide)
  have hdis := hbare (bare_int cfg.disabled) (ascii_int_ne_nil cfg.disabled)
  have hhid := hbare (bare_int i) (ascii_int_ne_nil i)
  have hlan := hbare (show Bare (ascii "lan") from bare_of_all rfl) (by decide)
  have hap := hbare (show Bare (ascii "ap") from bare_of_all rfl) (by decide)
  have hssid := cString_of_no_nul (hnul ("ssid", cfg.ssid) (by simp [stringOptions]))
  have hencry := cString_of_no_nul (hnul ("encryption", cfg.encryption) (by simp [stringOptions]))
  have hkey := cString_of_no_nul (hnul ("key", cfg.key) (by simp [stringOptions]))
  have hdis' : stored ((ascii (toString cfg.disabled)).takeWhile (· ≠ NUL)) = some (ascii (toString cfg.disabled)) := hdis
  rw [h.key] at hkey
  unfold sectionOf wanted ifaceSettings
  simp only [hstate, h.hidden, h.ssid, h.encryption, h.key, decimal, hi, Option.map_some, Option.bind_some,
    Option.getD_some, List.map_cons, List.map_nil, hdev, hdis', hhid, hlan, hap, hssid, hencry, hkey, ← hswitch,
    IfaceOption.name]

end Interfaces

end ApApps.Setconf

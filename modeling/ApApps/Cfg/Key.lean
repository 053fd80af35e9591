import ApApps.Lua.Basic

/- constant.lua and key.lua: the names under which settings are kept, and the patterns
   they are built from; `string.gsub` with a pattern that has no special character, as
   they and cfgmgr.lua use it. -/
namespace ApApps.Cfg

/-! ## string.gsub -/

/-- A replacement string with its `%` escapes carried out; `%0` and `%1` stand for the
match. -/
def expandRepl (whole : Bytes) : Bytes → Option Bytes
  | [] => some []
  | [c] => if c = ch '%' then none else some [c]
  | c :: d :: r =>
    if c = ch '%' then
      if d = ch '%' then (expandRepl whole r).map (ch '%' :: ·)
      else if d = ch '0' ∨ d = ch '1' then (expandRepl whole r).map (whole ++ ·)
      else none
    else (expandRepl whole (d :: r)).map (c :: ·)

/-- Every occurrence of `pat`, from left to right, replaced by `repl`. The first
argument counts the characters of an occurrence that are still to be passed over. -/
def replaceLoop (pat repl : Bytes) : Nat → Bytes → Bytes
  | _, [] => []
  | skip + 1, _ :: s => replaceLoop pat repl skip s
  | 0, c :: s =>
    if pat <+: c :: s then repl ++ replaceLoop pat repl (pat.length - 1) s
    else c :: replaceLoop pat repl 0 s

/-- `s:gsub(pat, repl)`, or nothing if it raises. -/
def gsub (pat repl s : Bytes) : Option Bytes :=
  if pat <:+: s then (expandRepl pat repl).map (fun r => replaceLoop pat r 0 s) else some s

/-! ## Keys -/

/-- `const.keys`. -/
def keys : List (String × String) :=
  [("c_account", "APID#a#account"), ("c_ac_host", "APID#a#ac_host"),
   ("c_ac_port", "APID#a#ac_port"), ("c_desc", "APID#a#desc"), ("c_barr", "APID#a#barr"),
   ("c_version", "APID#a#version"), ("c_distr", "APID#a#distr"), ("c_ip", "APID#a#ip"),
   ("c_mask", "APID#a#mask"), ("c_gw", "APID#a#gw"), ("c_dns", "APID#a#dns"),
   ("c_mode", "APID#a#mode"), ("c_hbd_cycle", "APID#a#hbd_cycle"),
   ("c_hbd_time", "APID#a#hbd_time"), ("c_mnt_cycle", "APID#a#mnt_cycle"),
   ("c_mnt_time", "APID#a#mnt_time"), ("c_nml_cycle", "APID#a#nml_cycle"),
   ("c_nml_time", "APID#a#nml_time"), ("c_scan_chan", "APID#a#scan_chan"),
   ("c_wlanids", "APID#a#wlanids"), ("c_ampdu", "APID#a#BAND#ampdu"),
   ("c_amsdu", "APID#a#BAND#amsdu"), ("c_beacon", "APID#a#BAND#beacon"),
   ("c_dtim", "APID#a#BAND#dtim"), ("c_leadcode", "APID#a#BAND#leadcode"),
   ("c_power", "APID#a#BAND#power"), ("c_remax", "APID#a#BAND#remax"),
   ("c_rts", "APID#a#BAND#rts"), ("c_shortgi", "APID#a#BAND#shortgi"),
   ("c_bswitch", "APID#a#BAND#bswitch"), ("c_bandwidth", "APID#a#BAND#bandwidth"),
   ("c_usrlimit", "APID#a#BAND#usrlimit"), ("c_chanid", "APID#a#BAND#chanid"),
   ("c_proto", "APID#a#BAND#proto"), ("c_wband", "w#WLANID#wband"),
   ("c_wencry", "w#WLANID#wencry"), ("c_whide", "w#WLANID#whide"),
   ("c_wpasswd", "w#WLANID#wpasswd"), ("c_wssid", "w#WLANID#wssid"),
   ("c_wstate", "w#WLANID#wstate"), ("c_waplist", "ww#WLANID#waplist"),
   ("c_ag_reboot", "ag_reboot"), ("c_ag_rs_switch", "ag_rs_switch"),
   ("c_ag_rs_mult", "ag_rs_mult"), ("c_ag_rs_rate", "ag_rs_rate"),
   ("c_ag_rdo_cycle", "ag_rdo_cycle"), ("c_ag_sta_cycle", "ag_sta_cycle"),
   ("c_g_country", "g_country"), ("c_g_ld_switch", "g_ld_switch"), ("c_wlan_list", "g_wlan_list"),
   ("c_wlan_current", "g_wlan_current"), ("c_ap_list", "g_ap_list"),
   ("c_update_host", "g_update_host"), ("c_upload_log", "g_upload_log"), ("c_g_debug", "g_debug"),
   ("c_rs_iso", "ag_rs_iso"), ("c_rs_inspeed", "ag_rs_inspeed"),
   ("c_tena_switch", "wg_tena_switch"), ("c_rssi_limit", "wg_rssi_limit"),
   ("c_flow_limit", "wg_flow_limit"), ("c_sensitivity", "wg_sensitivity"),
   ("c_ten_black_time", "wg_ten_black_time"), ("c_kick_interval", "wg_kick_interval"),
   ("c_wg_barr", "wg_barr"), ("s_state_hash", "state#APID"), ("s_fireware", "fireware"),
   ("s_state", "state"), ("s_active", "active"), ("s_uptime", "uptime"), ("s_naps", "BAND#nap"),
   ("s_nwlans", "BAND#nwlan"), ("s_sta", "BAND#sta"), ("s_users", "BAND#users"),
   ("s_chanid", "BAND#chanid"), ("s_chanuse", "BAND#chanuse"), ("s_power", "BAND#power"),
   ("s_noise", "BAND#noise"), ("s_maxpow", "BAND#maxpow"), ("s_proto", "BAND#proto"),
   ("s_bandwidth", "BAND#bandwidth"), ("s_wlanid", "BAND#wlanid"), ("s_run", "BAND#run"),
   ("ws_hash_user", "h#user_status")]

/-- `keys[name]`. -/
def keyPattern (name : String) : Bytes := ascii ((keys.lookup name).getD "")

/-- `fmt_key(pattern, {[name] = value})`. -/
def fmtKey (pattern name value : Bytes) : Option Bytes := gsub name value pattern

/-- `short(kp)`. -/
def shortKey (kp : Bytes) : Bytes := replaceLoop (ascii "APID#") [] 0 kp

/-- `short(kp, {WLANID = wlanid})`. -/
def shortWlan (kp wlanid : Bytes) : Option Bytes := fmtKey (shortKey kp) (ascii "WLANID") wlanid

/-- `key:find("^[aw]#")`. -/
def isScoped (key : Bytes) : Bool :=
  match key with
  | c :: d :: _ => (c = ch 'a' || c = ch 'w') && d = ch '#'
  | _ => false

/-- `key:find("^[ag]+_")`. -/
def isGlobal (key : Bytes) : Bool :=
  let ag := fun c => c = ch 'a' || c = ch 'g'
  key.head?.any ag && (key.dropWhile ag).head? = some (ch '_')

/-- The test of `checkcfg`. -/
def keyOk (key : Bytes) : Bool := isScoped key || isGlobal key

/-! ## Lemmas -/

/-- A string without `%` stands for itself. -/
theorem expandRepl_plain (whole : Bytes) {r : Bytes} (h : ch '%' ∉ r) : expandRepl whole r = some r := by
  induction r with
  | nil => rfl
  | cons c r ih =>
    have hc : c ≠ ch '%' := fun hc => h (hc ▸ List.mem_cons_self)
    have hr := ih (fun hm => h (List.mem_cons_of_mem _ hm))
    cases r with
    | nil => simp [expandRepl, hc]
    | cons d r => simp [expandRepl, hc, hr]

theorem replaceLoop_skip (pat repl s : Bytes) (n : Nat) :
    replaceLoop pat repl n s = replaceLoop pat repl 0 (s.drop n) := by
  induction n generalizing s with
  | zero => rfl
  | succ n ih =>
    cases s with
    | nil => rfl
    | cons c s => rw [replaceLoop, ih, List.drop_succ_cons]

/-- Passing over a character at which the pattern does not start. -/
theorem replaceLoop_cons_of_not {pat repl s : Bytes} {c : UInt8} (h : ¬ pat <+: c :: s) :
    replaceLoop pat repl 0 (c :: s) = c :: replaceLoop pat repl 0 s := by
  rw [replaceLoop, if_neg h]

/-- Replacing an occurrence in front. -/
theorem replaceLoop_match {pat : Bytes} (repl s : Bytes) (hpat : pat ≠ []) :
    replaceLoop pat repl 0 (pat ++ s) = repl ++ replaceLoop pat repl 0 s := by
  cases pat with
  | nil => exact absurd rfl hpat
  | cons c pat =>
    have hp : c :: pat <+: c :: (pat ++ s) := by
      rw [← List.cons_append]
      exact List.prefix_append _ _
    rw [List.cons_append, replaceLoop, if_pos hp, replaceLoop_skip]
    simp

/-- Without an occurrence nothing is replaced. -/
theorem replaceLoop_absent {pat repl s : Bytes} (h : ¬ pat <:+: s) :
    replaceLoop pat repl 0 s = s := by
  induction s with
  | nil => rfl
  | cons c s ih =>
    rw [replaceLoop_cons_of_not (fun hp => h hp.isInfix), ih]
    intro hs
    exact h (hs.trans (List.suffix_cons c s).isInfix)

/-- With a replacement without `%`, `gsub` does not raise. -/
theorem gsub_plain {pat repl : Bytes} (h : ch '%' ∉ repl) (s : Bytes) :
    gsub pat repl s = some (replaceLoop pat repl 0 s) := by
  unfold gsub
  split
  · rw [expandRepl_plain pat h]
    rfl
  · rename_i hno
    rw [replaceLoop_absent hno]

end ApApps.Cfg

import ApApps.Cfg.Text
import ApApps.Cfg.Apmgr

/- What `update` and `replace` make of the configuration.

   Every loop of the two commands carries out assignments to the configuration, one
   `checkcfg` each, and raises the flag if one of them changes something (`Effect`).
   The assignments of a command are consistent where their order is up to `pairs`, so
   the configuration at the end does not depend on it.

   Where the configuration changes, the file is written. It then stands for the map in
   memory (`OnDisk`) exactly if no string of that map ends in a comma. -/
namespace ApApps.Cfg
open Exec ApApps.Cjson Assignments

/-! ## The effect of checkcfg -/

/-- The assignments `l` have been carried out on the configuration. -/
structure Effect (l : List (Bytes × Option Bytes)) (s s' : Proc) : Prop where
  cfg : s'.cfg.lookup = assign s.cfg.lookup l
  flag : s'.gChange = true ∨ s' = s
  disk : s'.disk = s.disk
  power : s'.power = s.power

theorem Effect.refl (s : Proc) : Effect [] s s := ⟨rfl, .inr rfl, rfl, rfl⟩

theorem Effect.append {l l' : List (Bytes × Option Bytes)} {s s1 s' : Proc} (h : Effect l s s1)
    (h' : Effect l' s1 s') : Effect (l ++ l') s s' := by
  refine ⟨?_, ?_, h'.disk.trans h.disk, h'.power.trans h.power⟩
  · rw [assign_append, ← h.cfg, h'.cfg]
  · rcases h'.flag with hf | rfl
    · exact .inl hf
    · exact h.flag

theorem lookup_set (cfg : Config) (k : Bytes) (new : Option Bytes) :
    (cfg.set k new).lookup = Function.update cfg.lookup k new := by
  funext q
  by_cases hq : q = k
  · subst hq
    rw [Function.update_self]
    cases new with
    | none => exact AList.lookup_erase _ _
    | some v => exact AList.lookup_insert _
  · rw [Function.update_of_ne hq]
    cases new with
    | none => exact AList.lookup_erase_ne hq
    | some v => exact AList.lookup_insert_ne hq

/-- With a valid key `checkcfg` returns and assigns the value. -/
theorem checkcfg_effect {key : Bytes} (hkey : keyOk key = true) (new : Option Bytes) (s : Proc) :
    ∃ b s', checkcfg key new s = .ok b s' ∧ Effect [(key, new)] s s' := by
  have hget : getCfg key s = .ok (s.cfg.lookup key) s := rfl
  have hchanged : Effect [(key, new)] s { s with cfg := s.cfg.set key new, gChange := true } :=
    ⟨lookup_set s.cfg key new, .inl rfl, rfl, rfl⟩
  have hsame : s.cfg.lookup key = new → Effect [(key, new)] s s := by
    intro h
    refine ⟨?_, .inr rfl, rfl, rfl⟩
    rw [assign_cons, assign_nil, ← h, Function.update_eq_self]
  unfold checkcfg
  rw [if_neg (by simp [hkey]), bind_of_ok hget]
  cases new with
  | none =>
    cases ho : s.cfg.lookup key with
    | none => exact ⟨false, s, rfl, hsame ho⟩
    | some o => exact ⟨true, _, rfl, hchanged⟩
  | some v =>
    cases ho : s.cfg.lookup key with
    | none => exact ⟨true, _, rfl, hchanged⟩
    | some o =>
      simp only
      by_cases hv : v = o
      · subst hv
        rw [if_neg (by simp)]
        exact ⟨false, s, rfl, hsame ho⟩
      · rw [if_pos hv]
        exact ⟨true, _, rfl, hchanged⟩

/-- A loop, from the assignments of its passes. -/
theorem runAll_effect {ι : Type} (step : ι → M Unit) (assigns : ι → List (Bytes × Option Bytes)) (is : List ι)
    (hstep : ∀ i ∈ is, ∀ s, ∃ s', step i s = .ok () s' ∧ Effect (assigns i) s s') (s : Proc) :
    ∃ s', runAll step is s = .ok () s' ∧ Effect (is.flatMap assigns) s s' := by
  induction is generalizing s with
  | nil => exact ⟨s, rfl, Effect.refl s⟩
  | cons i is ih =>
    obtain ⟨s1, h1, e1⟩ := hstep i List.mem_cons_self s
    obtain ⟨s', h', e'⟩ := ih (fun j hj => hstep j (List.mem_cons_of_mem _ hj)) s1
    refine ⟨s', runAll_cons_ok.mpr ⟨s1, h1, h'⟩, ?_⟩
    rw [List.flatMap_cons]
    exact e1.append e'

/-- The keys of a map pass the test of `checkcfg`. -/
def KeysOk (map : Config) : Prop := ∀ k v, map.lookup k = some v → keyOk k = true

/-- The assignments of the pairs of a map. -/
def assignsOf (env : Env) (map : Config) : List (Bytes × Option Bytes) :=
  (fieldsOf env map).map fun kv => (kv.1, some kv.2)

theorem mem_assignsOf {env : Env} {map : Config} {k : Bytes} {w : Option Bytes} :
    (k, w) ∈ assignsOf env map ↔ ∃ v, w = some v ∧ map.lookup k = some v := by
  unfold assignsOf
  rw [List.mem_map]
  constructor
  · rintro ⟨⟨k', v⟩, hkv, heq⟩
    cases heq
    exact ⟨v, rfl, mem_fieldsOf.mp hkv⟩
  · rintro ⟨v, rfl, hv⟩
    exact ⟨(k, v), mem_fieldsOf.mpr hv, rfl⟩

theorem checkAll_effect (env : Env) {map : Config} (hmap : KeysOk map) (s : Proc) :
    ∃ s', checkAll env map s = .ok () s' ∧ Effect (assignsOf env map) s s' := by
  obtain ⟨s', h', e'⟩ := runAll_effect (fun kv : Bytes × Bytes => do let _ ← checkcfg kv.1 (some kv.2))
    (fun kv => [(kv.1, some kv.2)]) (fieldsOf env map) (by
      rintro ⟨k, v⟩ hkv s
      obtain ⟨b, s1, h1, e1⟩ := checkcfg_effect (hmap k v (mem_fieldsOf.mp hkv)) (some v) s
      exact ⟨s1, bind_eq_ok.mpr ⟨b, s1, h1, rfl⟩, e1⟩) s
  refine ⟨s', h', ?_⟩
  have hmap' : (fieldsOf env map).flatMap (fun kv => [(kv.1, some kv.2)]) = assignsOf env map :=
    (List.map_eq_flatMap ..).symm
  rwa [hmap'] at e'

/-! ## Keys of WLANs -/

/-- The suffixes of the `w#WLANID#` patterns of constant.lua. -/
def wlanSuffixes : List Bytes :=
  [ascii "wband", ascii "wencry", ascii "whide", ascii "wpasswd", ascii "wssid", ascii "wstate"]

/-- `w#<id>#<suffix>`. -/
def wlanKey (wlanid suffix : Bytes) : Bytes := ascii "w#" ++ (wlanid ++ ch '#' :: suffix)

/-- Five digits. -/
def isWlanId (wlanid : Bytes) : Bool := wlanid.length = 5 && wlanid.all isDigit

theorem mem_wlanPatterns {env : Env} {kp : Bytes} :
    kp ∈ wlanPatterns env ↔ ∃ suffix ∈ wlanSuffixes, kp = ascii "w#WLANID#" ++ suffix := by
  have hkeys : (keys.map fun k => ascii k.2).filter (fun kp => ascii "w#WLANID" <+: kp) =
      wlanSuffixes.map (ascii "w#WLANID#" ++ ·) := by decide +kernel
  have hperm := (env.pairs_perm (keys.map fun k => ascii k.2)).filter (fun kp => ascii "w#WLANID" <+: kp)
  unfold wlanPatterns
  rw [hperm.mem_iff, hkeys, List.mem_map]
  constructor
  · rintro ⟨suffix, hs, rfl⟩
    exact ⟨suffix, hs, rfl⟩
  · rintro ⟨suffix, hs, rfl⟩
    exact ⟨suffix, hs, rfl⟩

/-- The key of a WLAN setting. -/
theorem shortWlan_eq {wlanid suffix : Bytes} (hid : isWlanId wlanid = true) (hs : suffix ∈ wlanSuffixes) :
    shortWlan (ascii "w#WLANID#" ++ suffix) wlanid = some (wlanKey wlanid suffix) := by
  have hpercent : ch '%' ∉ wlanid := by
    intro hm
    unfold isWlanId at hid
    rw [Bool.and_eq_true, List.all_eq_true] at hid
    exact absurd (hid.2 _ hm) (by decide)
  have hshort : ∀ suffix ∈ wlanSuffixes,
      shortKey (ascii "w#WLANID#" ++ suffix) = ascii "w#" ++ (ascii "WLANID" ++ (ch '#' :: suffix)) := by
    decide +kernel
  have hno : ∀ suffix ∈ wlanSuffixes, ¬ ascii "WLANID" <:+: ch '#' :: suffix := by decide +kernel
  have hw : ∀ s, ¬ ascii "WLANID" <+: ch 'w' :: ch '#' :: s := by
    rintro s ⟨t, ht⟩
    exact absurd (List.cons.inj ht).1 (by decide)
  have hh : ∀ s, ¬ ascii "WLANID" <+: ch '#' :: s := by
    rintro s ⟨t, ht⟩
    exact absurd (List.cons.inj ht).1 (by decide)
  unfold shortWlan fmtKey
  rw [hshort suffix hs, gsub_plain hpercent]
  have hfront : ascii "w#" ++ (ascii "WLANID" ++ (ch '#' :: suffix)) =
      ch 'w' :: ch '#' :: (ascii "WLANID" ++ (ch '#' :: suffix)) := rfl
  rw [hfront, replaceLoop_cons_of_not (hw _), replaceLoop_cons_of_not (hh _),
    replaceLoop_match _ _ (by decide), replaceLoop_absent (hno suffix hs)]
  rfl

theorem keyOk_wlanKey (wlanid suffix : Bytes) : keyOk (wlanKey wlanid suffix) = true := rfl

/-- The assignments that remove the settings of one WLAN. -/
def removals (env : Env) (wlanid : Bytes) : List (Bytes × Option Bytes) :=
  (wlanPatterns env).flatMap fun kp => ((shortWlan kp wlanid).map fun k => (k, none)).toList

theorem mem_removals {env : Env} {wlanid k : Bytes} {w : Option Bytes} (hid : isWlanId wlanid = true) :
    (k, w) ∈ removals env wlanid ↔ w = none ∧ ∃ suffix ∈ wlanSuffixes, k = wlanKey wlanid suffix := by
  unfold removals
  rw [List.mem_flatMap]
  constructor
  · rintro ⟨kp, hkp, hm⟩
    obtain ⟨suffix, hs, rfl⟩ := mem_wlanPatterns.mp hkp
    rw [shortWlan_eq hid hs] at hm
    simp only [Option.map_some, Option.toList_some, List.mem_singleton, Prod.mk.injEq] at hm
    exact ⟨hm.2, suffix, hs, hm.1⟩
  · rintro ⟨rfl, suffix, hs, rfl⟩
    refine ⟨ascii "w#WLANID#" ++ suffix, mem_wlanPatterns.mpr ⟨suffix, hs, rfl⟩, ?_⟩
    rw [shortWlan_eq hid hs]
    simp

theorem deleteWlan_effect (env : Env) {wlanid : Bytes} (hid : isWlanId wlanid = true) (s : Proc) :
    ∃ s', deleteWlan env wlanid s = .ok () s' ∧ Effect (removals env wlanid) s s' := by
  unfold deleteWlan removals
  refine runAll_effect _ _ (wlanPatterns env) (fun kp hkp s => ?_) s
  obtain ⟨suffix, hs, rfl⟩ := mem_wlanPatterns.mp hkp
  rw [shortWlan_eq hid hs]
  obtain ⟨b, s1, h1, e1⟩ := checkcfg_effect (keyOk_wlanKey wlanid suffix) none s
  exact ⟨s1, bind_eq_ok.mpr ⟨b, s1, h1, rfl⟩, e1⟩

/-! ## The messages of the controller -/

/-- The WLANs of a message, with their settings. -/
abbrev Wlans := AList (fun _ : Bytes => Config)

theorem mem_wlans {env : Env} {wlan : Wlans} {wlanid : Bytes} {map : Config} :
    ⟨wlanid, map⟩ ∈ env.pairs wlan.entries ↔ wlan.lookup wlanid = some map := by
  rw [(env.pairs_perm _).mem_iff, ← Option.mem_def, AList.mem_lookup_iff]

/-- A message has the value `v` for the key `k`. -/
def Declares (fix : Config) (wlan : Wlans) (k v : Bytes) : Prop :=
  fix.lookup k = some v ∨ ∃ wlanid map, wlan.lookup wlanid = some map ∧ map.lookup k = some v

/-- A message of the controller: valid keys, ids of five digits, and no key in two of its
maps. -/
structure WellFormed (fix : Config) (wlan : Wlans) : Prop where
  fix_keys : KeysOk fix
  wlan_keys : ∀ wlanid map, wlan.lookup wlanid = some map → KeysOk map
  ids : ∀ wlanid map, wlan.lookup wlanid = some map → isWlanId wlanid = true
  fix_apart : ∀ wlanid map k v, wlan.lookup wlanid = some map → map.lookup k = some v → fix.lookup k = none
  wlan_apart : ∀ wlanid map wlanid' map' k v v', wlan.lookup wlanid = some map → map.lookup k = some v →
    wlan.lookup wlanid' = some map' → map'.lookup k = some v' → wlanid = wlanid'

/-- The assignments of the WLANs of a message. -/
def wlanAssigns (env : Env) (wlan : Wlans) : List (Bytes × Option Bytes) :=
  (env.pairs wlan.entries).flatMap fun entry => assignsOf env entry.2

theorem mem_wlanAssigns {env : Env} {wlan : Wlans} {k : Bytes} {w : Option Bytes} :
    (k, w) ∈ wlanAssigns env wlan ↔
      ∃ v wlanid map, w = some v ∧ wlan.lookup wlanid = some map ∧ map.lookup k = some v := by
  unfold wlanAssigns
  rw [List.mem_flatMap]
  constructor
  · rintro ⟨⟨wlanid, map⟩, hent, hm⟩
    obtain ⟨v, rfl, hv⟩ := mem_assignsOf.mp hm
    exact ⟨v, wlanid, map, rfl, mem_wlans.mp hent, hv⟩
  · rintro ⟨v, wlanid, map, rfl, hw, hv⟩
    exact ⟨⟨wlanid, map⟩, mem_wlans.mpr hw, mem_assignsOf.mpr ⟨v, rfl, hv⟩⟩

/-- The assignments of a message, in either order, are the values it declares. -/
theorem mem_messageAssigns {env : Env} {fix : Config} {wlan : Wlans} {k : Bytes} {w : Option Bytes} :
    (k, w) ∈ wlanAssigns env wlan ++ assignsOf env fix ↔ ∃ v, w = some v ∧ Declares fix wlan k v := by
  rw [List.mem_append, mem_wlanAssigns, mem_assignsOf]
  constructor
  · rintro (⟨v, wlanid, map, rfl, hw, hv⟩ | ⟨v, rfl, hv⟩)
    · exact ⟨v, rfl, .inr ⟨wlanid, map, hw, hv⟩⟩
    · exact ⟨v, rfl, .inl hv⟩
  · rintro ⟨v, rfl, hv | ⟨wlanid, map, hw, hv⟩⟩
    · exact .inr ⟨v, rfl, hv⟩
    · exact .inl ⟨v, wlanid, map, rfl, hw, hv⟩

theorem WellFormed.declares_unique {fix : Config} {wlan : Wlans} (h : WellFormed fix wlan) {k v v' : Bytes}
    (hv : Declares fix wlan k v) (hv' : Declares fix wlan k v') : v = v' := by
  rcases hv with hv | ⟨wlanid, map, hw, hv⟩
  · rcases hv' with hv' | ⟨wlanid', map', hw', hv'⟩
    · rw [hv] at hv'
      exact Option.some.inj hv'
    · rw [h.fix_apart wlanid' map' k v' hw' hv'] at hv
      cases hv
  · rcases hv' with hv' | ⟨wlanid', map', hw', hv'⟩
    · rw [h.fix_apart wlanid map k v hw hv] at hv'
      cases hv'
    · have hid := h.wlan_apart wlanid map wlanid' map' k v v' hw hv hw' hv'
      subst hid
      rw [hw] at hw'
      cases hw'
      rw [hv] at hv'
      exact Option.some.inj hv'

theorem WellFormed.consistent {fix : Config} {wlan : Wlans} (h : WellFormed fix wlan) (env : Env) :
    Consistent (wlanAssigns env wlan ++ assignsOf env fix) := by
  intro k w w' hw hw'
  obtain ⟨v, rfl, hv⟩ := mem_messageAssigns.mp hw
  obtain ⟨v', rfl, hv'⟩ := mem_messageAssigns.mp hw'
  rw [h.declares_unique hv hv']

/-- If the configuration has changed, a reader of the file obtains it. -/
def OnDisk (env : Env) (s s' : Proc) : Prop :=
  s'.cfg.lookup ≠ s.cfg.lookup →
    ∃ text m, s'.disk .conf = some text ∧ readConfig env text = some m ∧ m.lookup = s'.cfg.lookup

theorem onDisk_of_unchanged {env : Env} {s s' : Proc} (h : s'.cfg.lookup = s.cfg.lookup) : OnDisk env s s' :=
  fun hne => absurd h hne

/-- Of a file that `save_config` has written a reader obtains the map if no string ends in a comma. -/
theorem onDisk_iff_of_written {env : Env} {s s' : Proc} (hfile : s'.disk .conf = some (fileText env s'.cfg)) :
    OnDisk env s s' ↔ s'.cfg.lookup = s.cfg.lookup ∨ CommaFree s'.cfg := by
  obtain ⟨m, hread, hback⟩ := readConfig_fileText env s'.cfg
  by_cases hsame : s'.cfg.lookup = s.cfg.lookup
  · exact ⟨fun _ => .inl hsame, fun _ => onDisk_of_unchanged hsame⟩
  · rw [or_iff_right hsame, ← readBack_eq_iff env, ← hback]
    constructor
    · intro h
      obtain ⟨text, m', hfile', hread', heq⟩ := h hsame
      rw [hfile, Option.some.injEq] at hfile'
      subst hfile'
      rw [hread, Option.some.injEq] at hread'
      subst hread'
      exact heq
    · exact fun heq _ => ⟨_, m, hfile, hread, heq⟩

/-- The save at the end of a command. -/
theorem save_effect (env : Env) {l : List (Bytes × Option Bytes)} {s s1 : Proc} (he : Effect l s s1)
    (hconf : (s.disk .conf).isSome = true) (hpower : s.power = none) :
    ∃ s', saveConfig env s1 = .ok () s' ∧ s'.cfg = s1.cfg ∧
      (OnDisk env s s' ↔ s'.cfg.lookup = s.cfg.lookup ∨ CommaFree s'.cfg) := by
  obtain ⟨old, hold⟩ := Option.isSome_iff_exists.mp hconf
  cases hg : s1.gChange with
  | false =>
    have hsame : s1.cfg.lookup = s.cfg.lookup := by
      rcases he.flag with hf | hs
      · rw [hg] at hf
        cases hf
      · rw [hs]
    refine ⟨s1, ?_, rfl, fun _ => .inl hsame, fun _ => onDisk_of_unchanged hsame⟩
    unfold saveConfig
    rw [bind_of_ok (get_ok s1), if_neg (by simp [hg])]
    rfl
  | true =>
    have hdisk : s1.disk .conf = some old := by rw [he.disk, hold]
    have hpow : s1.power = none := he.power.trans hpower
    have hwrite := writeConfig_done env hdisk (hpow ▸ enough_none _)
    have hsave : saveConfig env s1 = writeConfig env s1 := by
      unfold saveConfig
      rw [bind_of_ok (get_ok s1), if_pos hg]
    exact ⟨_, hsave.trans hwrite, rfl, onDisk_iff_of_written (by simp)⟩

/-! ## update -/

/-- The settings of a WLAN that is no longer in the list. -/
def Dropped (oarr narr : List Bytes) (k : Bytes) : Prop :=
  ∃ wlanid ∈ oarr, wlanid ∉ narr ∧ ∃ suffix ∈ wlanSuffixes, k = wlanKey wlanid suffix

/-- The configuration `update` is to end with. -/
structure Updated (fix : Config) (wlan : Wlans) (oarr narr : List Bytes) (old new : Config) : Prop where
  declared : ∀ k v, Declares fix wlan k v → new.lookup k = some v
  dropped : ∀ k, (∀ v, ¬ Declares fix wlan k v) → Dropped oarr narr k → new.lookup k = none
  kept : ∀ k, (∀ v, ¬ Declares fix wlan k v) → ¬ Dropped oarr narr k → new.lookup k = old.lookup k

theorem mem_goneIds {env : Env} {oarr narr : List Bytes} {wlanid : Bytes} :
    wlanid ∈ goneIds env oarr narr ↔ wlanid ∈ oarr ∧ wlanid ∉ narr := by
  unfold goneIds
  rw [List.mem_filter, (env.pairs_perm _).mem_iff, List.mem_dedup, decide_eq_true_iff]

theorem updated_of_assign (env : Env) {fix : Config} {wlan : Wlans} (hm : WellFormed fix wlan)
    {oarr narr : List Bytes} (hids : ∀ wlanid ∈ oarr, isWlanId wlanid = true) {old new : Config}
    (h : new.lookup = assign old.lookup ((goneIds env oarr narr).flatMap (removals env) ++
      (wlanAssigns env wlan ++ assignsOf env fix))) : Updated fix wlan oarr narr old new := by
  have hrem : ∀ k w, (k, w) ∈ (goneIds env oarr narr).flatMap (removals env) ↔
      w = none ∧ Dropped oarr narr k := by
    intro k w
    rw [List.mem_flatMap]
    constructor
    · rintro ⟨wlanid, hid, hk⟩
      obtain ⟨hold, hnew⟩ := mem_goneIds.mp hid
      obtain ⟨hw, suffix, hs, hk⟩ := (mem_removals (hids wlanid hold)).mp hk
      exact ⟨hw, wlanid, hold, hnew, suffix, hs, hk⟩
    · rintro ⟨hw, wlanid, hold, hnew, hk⟩
      exact ⟨wlanid, mem_goneIds.mpr ⟨hold, hnew⟩, (mem_removals (hids wlanid hold)).mpr ⟨hw, hk⟩⟩
  have hcons : Consistent ((goneIds env oarr narr).flatMap (removals env)) := by
    intro k w w' hw hw'
    rw [((hrem k w).mp hw).1, ((hrem k w').mp hw').1]
  have hat := congrFun (h.trans (assign_append _ _ _))
  have hnone : ∀ k, (∀ v, ¬ Declares fix wlan k v) →
      new.lookup k = assign old.lookup ((goneIds env oarr narr).flatMap (removals env)) k := by
    intro k hk
    refine (hat k).trans (assign_of_notMem fun w hw => ?_)
    obtain ⟨v, _, hv⟩ := mem_messageAssigns.mp hw
    exact hk v hv
  refine ⟨fun k v hv => ?_, fun k hk hd => ?_, fun k hk hd => ?_⟩
  · exact (hat k).trans (assign_of_mem (hm.consistent env) (mem_messageAssigns.mpr ⟨v, rfl, hv⟩))
  · rw [hnone k hk]
    exact assign_of_mem hcons ((hrem k none).mpr ⟨rfl, hd⟩)
  · rw [hnone k hk]
    exact assign_of_notMem fun w hw => hd ((hrem k w).mp hw).2

/-- **update brings the configuration in line with the message.** -/
theorem update_effect (env : Env) (s : Proc) (fix : Config) (wlan : Wlans) (oarr narr : List Bytes)
    (hm : WellFormed fix wlan) (hold : wlanIds env (s.cfg.lookup (key "c_wlanids")) = some oarr)
    (hnew : wlanIds env (fix.lookup (key "c_wlanids")) = some narr)
    (hids : ∀ wlanid ∈ oarr, isWlanId wlanid = true) (hconf : (s.disk .conf).isSome = true)
    (hpower : s.power = none) :
    ∃ s', update env ⟨some fix, some wlan⟩ s = .ok () s' ∧ Updated fix wlan oarr narr s.cfg s'.cfg ∧
      (OnDisk env s s' ↔ s'.cfg.lookup = s.cfg.lookup ∨ CommaFree s'.cfg) := by
  obtain ⟨s1, h1, e1⟩ := runAll_effect _ _ (goneIds env oarr narr)
    (fun wlanid hid s => deleteWlan_effect env (hids wlanid (mem_goneIds.mp hid).1) s) s
  obtain ⟨s2, h2, e2⟩ := runAll_effect (fun entry : (_ : Bytes) × Config => checkAll env entry.2) _
    (env.pairs wlan.entries)
    (fun entry hent s => checkAll_effect env (hm.wlan_keys entry.1 entry.2 (mem_wlans.mp hent)) s) s1
  obtain ⟨s3, h3, e3⟩ := checkAll_effect env hm.fix_keys s2
  have he := e1.append (e2.append e3)
  obtain ⟨s4, h4, hcfg, hwritten⟩ := save_effect env he hconf hpower
  refine ⟨{ s4 with log := s4.log ++ [.saveCurrent] ++ [.notifyAuth] }, ?_, ?_, hwritten⟩
  · unfold update
    simp only [assertSome, hnew, pure_bind]
    rw [bind_of_ok (show getCfg (key "c_wlanids") s = .ok _ s from rfl)]
    simp only [hold, pure_bind]
    rw [bind_of_ok h1, bind_of_ok h2, bind_of_ok h3, bind_of_ok h4]
    rfl
  · apply updated_of_assign env hm hids
    show s4.cfg.lookup = _
    rw [hcfg, he.cfg]
    rfl

/-! ## replace -/

/-- The pairs `l` have been assigned, and their keys are no longer left over. -/
structure Replaced (l : List (Bytes × Bytes)) (all all' : Config) (s s' : Proc) : Prop where
  effect : Effect (l.map fun kv => (kv.1, some kv.2)) s s'
  left : ∀ k v, all'.lookup k = some v ↔ all.lookup k = some v ∧ ∀ v', (k, v') ∉ l

theorem Replaced.refl (all : Config) (s : Proc) : Replaced [] all all s s :=
  ⟨Effect.refl s, fun _ _ => by simp⟩

theorem Replaced.append {l l' : List (Bytes × Bytes)} {all all1 all' : Config} {s s1 s' : Proc}
    (h : Replaced l all all1 s s1) (h' : Replaced l' all1 all' s1 s') : Replaced (l ++ l') all all' s s' := by
  refine ⟨?_, fun k v => ?_⟩
  · rw [List.map_append]
    exact h.effect.append h'.effect
  · rw [h'.left, h.left, and_assoc]
    simp only [List.mem_append, not_or, forall_and]

/-- A loop that hands on what is left over. -/
theorem foldlM_replaced {ι : Type} (step : Config → ι → M Config) (pairs : ι → List (Bytes × Bytes))
    (is : List ι) (hstep : ∀ i ∈ is, ∀ all s, ∃ all' s', step all i s = .ok all' s' ∧
      Replaced (pairs i) all all' s s') (all : Config) (s : Proc) :
    ∃ all' s', is.foldlM step all s = .ok all' s' ∧ Replaced (is.flatMap pairs) all all' s s' := by
  induction is generalizing all s with
  | nil => exact ⟨all, s, rfl, Replaced.refl all s⟩
  | cons i is ih =>
    obtain ⟨all1, s1, h1, r1⟩ := hstep i List.mem_cons_self all s
    obtain ⟨all', s', h', r'⟩ := ih (fun j hj => hstep j (List.mem_cons_of_mem _ hj)) all1 s1
    refine ⟨all', s', ?_, ?_⟩
    · rw [List.foldlM_cons, bind_of_ok h1, h']
    · rw [List.flatMap_cons]
      exact r1.append r'

theorem replaceOne_effect {k v : Bytes} (hk : keyOk k = true) (all : Config) (s : Proc) :
    ∃ all' s', replaceOne all (k, v) s = .ok all' s' ∧ Replaced [(k, v)] all all' s s' := by
  have hleft : ∀ q w, (all.erase k).lookup q = some w ↔ all.lookup q = some w ∧ ∀ v', (q, v') ∉ [(k, v)] := by
    intro q w
    by_cases hq : q = k
    · subst hq
      simp [AList.lookup_erase]
    · simp [AList.lookup_erase_ne hq, hq]
  have hget : getCfg k s = .ok (s.cfg.lookup k) s := rfl
  unfold replaceOne
  rw [bind_of_ok hget]
  by_cases hv : s.cfg.lookup k = some v
  · rw [if_neg (by simpa using hv)]
    refine ⟨all.erase k, s, rfl, ⟨?_, .inr rfl, rfl, rfl⟩, hleft⟩
    rw [List.map_singleton, assign_cons, assign_nil, ← hv, Function.update_eq_self]
  · rw [if_pos hv]
    obtain ⟨b, s', h', e'⟩ := checkcfg_effect hk (some v) s
    exact ⟨all.erase k, s', bind_eq_ok.mpr ⟨b, s', h', rfl⟩, e', hleft⟩

theorem replaceMap_effect (env : Env) {map : Config} (hmap : KeysOk map) (all : Config) (s : Proc) :
    ∃ all' s', replaceMap env all map s = .ok all' s' ∧ Replaced (fieldsOf env map) all all' s s' := by
  obtain ⟨all', s', h', r'⟩ := foldlM_replaced replaceOne (fun kv => [kv]) (fieldsOf env map)
    (fun kv hkv all s => replaceOne_effect (hmap kv.1 kv.2 (mem_fieldsOf.mp hkv)) all s) all s
  refine ⟨all', s', h', ?_⟩
  rwa [List.flatMap_singleton'] at r'

theorem replaceWlan_effect (env : Env) {entry : (_ : Bytes) × Config} (hid : isWlanId entry.1 = true)
    (hmap : KeysOk entry.2) (all : Config) (s : Proc) :
    ∃ all' s', replaceWlan env all entry s = .ok all' s' ∧ Replaced (fieldsOf env entry.2) all all' s s' := by
  have hlen : entry.1.length = 5 := by
    unfold isWlanId at hid
    rw [Bool.and_eq_true, decide_eq_true_iff] at hid
    exact hid.1
  unfold replaceWlan
  rw [if_pos hlen]
  exact replaceMap_effect env hmap all s

/-- The configuration is the message. -/
def IsMessage (fix : Config) (wlan : Wlans) (new : Config) : Prop :=
  ∀ k v, new.lookup k = some v ↔ Declares fix wlan k v

theorem mem_messagePairs {env : Env} {fix : Config} {wlan : Wlans} {k v : Bytes} :
    (k, v) ∈ fieldsOf env fix ++ (env.pairs wlan.entries).flatMap (fun entry => fieldsOf env entry.2) ↔
      Declares fix wlan k v := by
  rw [List.mem_append, mem_fieldsOf, List.mem_flatMap]
  constructor
  · rintro (hv | ⟨⟨wlanid, map⟩, hent, hv⟩)
    · exact .inl hv
    · exact .inr ⟨wlanid, map, mem_wlans.mp hent, mem_fieldsOf.mp hv⟩
  · rintro (hv | ⟨wlanid, map, hw, hv⟩)
    · exact .inl hv
    · exact .inr ⟨⟨wlanid, map⟩, mem_wlans.mpr hw, mem_fieldsOf.mpr hv⟩

/-- Assigning what the message declares, then removing what it does not. -/
theorem isMessage_of_assign {env : Env} {fix : Config} {wlan : Wlans} (hm : WellFormed fix wlan)
    {old new : Config} {rest : List (Bytes × Option Bytes)}
    (h : new.lookup = assign old.lookup ((assignsOf env fix ++ wlanAssigns env wlan) ++ rest))
    (hrest : ∀ k w, (k, w) ∈ rest ↔
      w = none ∧ (∃ v, old.lookup k = some v) ∧ ∀ v, ¬ Declares fix wlan k v) : IsMessage fix wlan new := by
  have hswap : assign old.lookup (assignsOf env fix ++ wlanAssigns env wlan) =
      assign old.lookup (wlanAssigns env wlan ++ assignsOf env fix) :=
    (assign_congr (hm.consistent env) fun e => by
      rw [List.mem_append, List.mem_append, or_comm]).symm
  have hat := congrFun (h.trans (assign_append _ _ _))
  rw [hswap] at hat
  have hcons : Consistent rest := by
    intro k w w' hw hw'
    rw [((hrest k w).mp hw).1, ((hrest k w').mp hw').1]
  intro k v
  by_cases hd : ∃ v', Declares fix wlan k v'
  · obtain ⟨v', hv'⟩ := hd
    have hval : new.lookup k = some v' := by
      refine (hat k).trans ((assign_of_notMem fun w hw => ?_).trans ?_)
      · exact ((hrest k w).mp hw).2.2 v' hv'
      · exact assign_of_mem (hm.consistent env) (mem_messageAssigns.mpr ⟨v', rfl, hv'⟩)
    rw [hval, Option.some.injEq]
    constructor
    · rintro rfl
      exact hv'
    · exact fun hv => hm.declares_unique hv' hv
  · have hno := not_exists.mp hd
    have hmid : assign old.lookup (wlanAssigns env wlan ++ assignsOf env fix) k = old.lookup k := by
      refine assign_of_notMem fun w hw => ?_
      obtain ⟨v', _, hv'⟩ := mem_messageAssigns.mp hw
      exact hno v' hv'
    have hval : new.lookup k = none := by
      cases ho : old.lookup k with
      | none =>
        refine (hat k).trans ((assign_of_notMem fun w hw => ?_).trans (hmid.trans ho))
        obtain ⟨v', hv'⟩ := ((hrest k w).mp hw).2.1
        rw [ho] at hv'
        cases hv'
      | some o => exact (hat k).trans (assign_of_mem hcons ((hrest k none).mpr ⟨rfl, ⟨o, ho⟩, hno⟩))
    rw [hval]
    exact ⟨nofun, fun hv => absurd hv (hno v)⟩

/-- **replace makes the configuration equal to the message.** -/
theorem replace_effect (env : Env) (s : Proc) (fix : Config) (wlan : Wlans) (hm : WellFormed fix wlan)
    (hkeys : KeysOk s.cfg) (hconf : (s.disk .conf).isSome = true) (hpower : s.power = none) :
    ∃ s', replace env ⟨some fix, some wlan⟩ s = .ok () s' ∧ IsMessage fix wlan s'.cfg ∧
      (OnDisk env s s' ↔ s'.cfg.lookup = s.cfg.lookup ∨ CommaFree s'.cfg) := by
  obtain ⟨all1, s1, h1, r1⟩ := replaceMap_effect env hm.fix_keys s.cfg s
  obtain ⟨all2, s2, h2, r2⟩ := foldlM_replaced (replaceWlan env)
    (fun entry => fieldsOf env entry.2) (env.pairs wlan.entries) (by
      rintro ⟨wlanid, map⟩ hent all s
      have hw := mem_wlans.mp hent
      exact replaceWlan_effect env (hm.ids wlanid map hw) (hm.wlan_keys wlanid map hw) all s) all1 s1
  have r := r1.append r2
  obtain ⟨s3, h3, e3⟩ := runAll_effect (fun kv : Bytes × Bytes => do let _ ← checkcfg kv.1 none)
    (fun kv => [(kv.1, none)]) (fieldsOf env all2) (by
      rintro ⟨k, v⟩ hkv s
      have hk : keyOk k = true := hkeys k v ((r.left k v).mp (mem_fieldsOf.mp hkv)).1
      obtain ⟨b, s1, h1, e1⟩ := checkcfg_effect hk none s
      exact ⟨s1, bind_eq_ok.mpr ⟨b, s1, h1, rfl⟩, e1⟩) s2
  have he := r.effect.append e3
  obtain ⟨s4, h4, hcfg, hwritten⟩ := save_effect env he hconf hpower
  refine ⟨{ s4 with log := s4.log ++ [.notifyAuth] }, ?_, ?_, hwritten⟩
  · unfold replace
    rw [bind_of_ok (get_ok s)]
    simp only [assertSome, pure_bind]
    have h3' : eachPair env all2 (fun kv => do let _ ← checkcfg kv.1 none) s2 = .ok () s3 := h3
    rw [bind_of_ok h1, bind_of_ok h2, bind_of_ok h3', bind_of_ok h4]
    rfl
  · have hpairs : (fieldsOf env fix ++ (env.pairs wlan.entries).flatMap (fun entry => fieldsOf env entry.2)).map
        (fun kv => (kv.1, some kv.2)) = assignsOf env fix ++ wlanAssigns env wlan := by
      simp [assignsOf, wlanAssigns, List.map_flatMap]
    have hcfg' : s4.cfg.lookup = _ := (congrArg (fun c : Config => c.lookup) hcfg).trans he.cfg
    rw [hpairs] at hcfg'
    refine isMessage_of_assign hm hcfg' fun k w => ?_
    rw [List.mem_flatMap]
    constructor
    · rintro ⟨⟨k', v⟩, hkv, hmem⟩
      rw [List.mem_singleton, Prod.mk.injEq] at hmem
      obtain ⟨rfl, rfl⟩ := hmem
      obtain ⟨hold, hno⟩ := (r.left k v).mp (mem_fieldsOf.mp hkv)
      exact ⟨rfl, ⟨v, hold⟩, fun v' hd => hno v' (mem_messagePairs.mpr hd)⟩
    · rintro ⟨rfl, ⟨v, hold⟩, hno⟩
      exact ⟨(k, v), mem_fieldsOf.mpr ((r.left k v).mpr ⟨hold, fun v' hm => hno v' (mem_messagePairs.mp hm)⟩),
        List.mem_singleton_self _⟩

/-! ## Both commands -/

theorem WellFormed.keyOk {fix : Config} {wlan : Wlans} (h : WellFormed fix wlan) {k v : Bytes}
    (hv : Declares fix wlan k v) : keyOk k = true := by
  rcases hv with hv | ⟨wlanid, map, hw, hv⟩
  · exact h.fix_keys k v hv
  · exact h.wlan_keys wlanid map hw k v hv

theorem Updated.keysOk {fix : Config} {wlan : Wlans} {oarr narr : List Bytes} {old new : Config}
    (h : Updated fix wlan oarr narr old new) (hm : WellFormed fix wlan) (hold : KeysOk old) : KeysOk new := by
  intro k v hv
  by_cases hd : ∃ v', Declares fix wlan k v'
  · obtain ⟨v', hv'⟩ := hd
    exact hm.keyOk hv'
  · by_cases hdrop : Dropped oarr narr k
    · rw [h.dropped k (not_exists.mp hd) hdrop] at hv
      cases hv
    · rw [h.kept k (not_exists.mp hd) hdrop] at hv
      exact hold k v hv

/-- The settings `update` is to end with. -/
def Results (fix : Config) (wlan : Wlans) (oarr narr : List Bytes) (old : Config) (k v : Bytes) : Prop :=
  Declares fix wlan k v ∨
    (∀ v', ¬ Declares fix wlan k v') ∧ ¬ Dropped oarr narr k ∧ old.lookup k = some v

theorem Updated.lookup_iff {fix : Config} {wlan : Wlans} {oarr narr : List Bytes} {old new : Config}
    (h : Updated fix wlan oarr narr old new) (hm : WellFormed fix wlan) (k v : Bytes) :
    new.lookup k = some v ↔ Results fix wlan oarr narr old k v := by
  unfold Results
  by_cases hd : ∃ v', Declares fix wlan k v'
  · obtain ⟨v', hv'⟩ := hd
    rw [h.declared k v' hv', Option.some.injEq]
    constructor
    · rintro rfl
      exact .inl hv'
    · rintro (hv | ⟨hno, _⟩)
      · exact hm.declares_unique hv' hv
      · exact absurd hv' (hno v')
  · have hno := not_exists.mp hd
    by_cases hdrop : Dropped oarr narr k
    · rw [h.dropped k hno hdrop]
      constructor
      · exact nofun
      · rintro (hv | ⟨_, hkeep, _⟩)
        · exact absurd hv (hno v)
        · exact absurd hdrop hkeep
    · rw [h.kept k hno hdrop]
      constructor
      · exact fun hv => .inr ⟨hno, hdrop, hv⟩
      · rintro (hv | ⟨_, _, hv⟩)
        · exact absurd hv (hno v)
        · exact hv

/-- The settings are those of `old`, or none of them has a key or a value that ends in a comma. -/
def Keepable (old : Config) (settings : Bytes → Bytes → Prop) : Prop :=
  (∀ k v, settings k v ↔ old.lookup k = some v) ∨
    ∀ k v, settings k v → endsInComma k = false ∧ endsInComma v = false

theorem keepable_iff {old new : Config} {settings : Bytes → Bytes → Prop}
    (h : ∀ k v, new.lookup k = some v ↔ settings k v) :
    Keepable old settings ↔ new.lookup = old.lookup ∨ CommaFree new := by
  have hsame : (∀ k v, settings k v ↔ old.lookup k = some v) ↔ new.lookup = old.lookup := by
    simp only [← h]
    constructor
    · exact fun heq => funext fun k => Option.ext (heq k)
    · intro heq k v
      rw [congrFun heq k]
  have hfree : (∀ k v, settings k v → endsInComma k = false ∧ endsInComma v = false) ↔ CommaFree new := by
    simp only [← h]
    exact Iff.rfl
  rw [Keepable, hsame, hfree]

/-- **The effect of the two commands of the controller**, whatever order `pairs` yields the
tables in. Both complete with the configuration they are to end with; a reader of the file
obtains it if and only if it is the one there was, or no string of it ends in a comma. -/
theorem commands_effect (env : Env) (s : Proc) (fix : Config) (wlan : Wlans) (oarr narr : List Bytes)
    (hm : WellFormed fix wlan) (hkeys : KeysOk s.cfg)
    (hold : wlanIds env (s.cfg.lookup (key "c_wlanids")) = some oarr)
    (hnew : wlanIds env (fix.lookup (key "c_wlanids")) = some narr)
    (hids : ∀ wlanid ∈ oarr, isWlanId wlanid = true) (hconf : (s.disk .conf).isSome = true)
    (hpower : s.power = none) :
    (∃ s', replace env ⟨some fix, some wlan⟩ s = .ok () s' ∧ IsMessage fix wlan s'.cfg ∧ KeysOk s'.cfg ∧
      (OnDisk env s s' ↔ Keepable s.cfg (Declares fix wlan))) ∧
    ∃ s', update env ⟨some fix, some wlan⟩ s = .ok () s' ∧ Updated fix wlan oarr narr s.cfg s'.cfg ∧
      KeysOk s'.cfg ∧ (OnDisk env s s' ↔ Keepable s.cfg (Results fix wlan oarr narr s.cfg)) := by
  constructor
  · obtain ⟨s', h', hmsg, hw⟩ := replace_effect env s fix wlan hm hkeys hconf hpower
    refine ⟨s', h', hmsg, fun k v hv => hm.keyOk ((hmsg k v).mp hv), ?_⟩
    rw [hw, keepable_iff hmsg]
  · obtain ⟨s', h', hup, hw⟩ := update_effect env s fix wlan oarr narr hm hold hnew hids hconf hpower
    refine ⟨s', h', hup, hup.keysOk hm hkeys, ?_⟩
    rw [hw, keepable_iff (hup.lookup_iff hm)]

/-- A map with one key. -/
def only {V : Type} (k : Bytes) (v : V) : AList (fun _ : Bytes => V) := AList.insert k v ∅

theorem lookup_only {V : Type} {k q : Bytes} {v w : V} (h : (only k v).lookup q = some w) : q = k ∧ w = v := by
  by_cases hq : q = k
  · subst hq
    rw [only, AList.lookup_insert, Option.some.injEq] at h
    exact ⟨rfl, h.symm⟩
  · rw [only, AList.lookup_insert_ne hq] at h
    cases h

/-- A process with the settings of the WLANs 00001 and 00002. -/
def twoWlans : Proc :=
  let cfg := ((only (ascii "a#wlanids") (ascii "[\"00001\",\"00002\"]")).insert
    (ascii "w#00001#wssid") (ascii "one")).insert (ascii "w#00002#wssid") (ascii "two")
  ⟨fun p => if p = .conf then some [] else none, none, cfg, false, some cfg, false, []⟩

/-- A message that keeps 00002 only, under another name. -/
def oneWlan : Config × Wlans :=
  (only (ascii "a#wlanids") (ascii "[\"00002\"]"),
    only (ascii "00002") (only (ascii "w#00002#wssid") (ascii "deux")))

theorem commands_effect_one :
    (∃ s', replace (.listed none) ⟨some oneWlan.1, some oneWlan.2⟩ twoWlans = .ok () s' ∧
      IsMessage oneWlan.1 oneWlan.2 s'.cfg ∧ KeysOk s'.cfg ∧
      (OnDisk (.listed none) twoWlans s' ↔ Keepable twoWlans.cfg (Declares oneWlan.1 oneWlan.2))) ∧
    ∃ s', update (.listed none) ⟨some oneWlan.1, some oneWlan.2⟩ twoWlans = .ok () s' ∧
      Updated oneWlan.1 oneWlan.2 [ascii "00001", ascii "00002"] [ascii "00002"] twoWlans.cfg s'.cfg ∧
      KeysOk s'.cfg ∧ (OnDisk (.listed none) twoWlans s' ↔ Keepable twoWlans.cfg
        (Results oneWlan.1 oneWlan.2 [ascii "00001", ascii "00002"] [ascii "00002"] twoWlans.cfg)) := by
  refine commands_effect (.listed none) twoWlans oneWlan.1 oneWlan.2 _ _ ⟨?_, ?_, ?_, ?_, ?_⟩ ?_ ?_ ?_ ?_ rfl rfl
  · intro k v h
    rw [(lookup_only h).1]
    decide
  · intro wlanid map h k v hk
    rw [(lookup_only h).2] at hk
    rw [(lookup_only hk).1]
    decide
  · intro wlanid map h
    rw [(lookup_only h).1]
    decide
  · intro wlanid map k v h hk
    rw [(lookup_only h).2] at hk
    rw [(lookup_only hk).1]
    decide +kernel
  · intro wlanid map wlanid' map' k v v' h _ h' _
    rw [(lookup_only h).1, (lookup_only h').1]
  · intro k v h
    have hmem := AList.mem_lookup_iff.mp h
    have hall : ∀ e ∈ twoWlans.cfg.entries, keyOk e.1 = true := by decide +kernel
    exact hall _ hmem
  · decide +kernel
  · decide +kernel
  · decide +kernel

/-- The same with a name that ends in a comma. -/
def commaName : SyncMap :=
  ⟨some oneWlan.1, some (only (ascii "00002") (only (ascii "w#00002#wssid") (ascii "deux,")))⟩

/-- The name in memory, and the one that is read from the file. -/
def namesOf (r : EStateM.Result Stop Proc Unit) : Option Bytes × Option Bytes :=
  let s := finalState r
  (s.cfg.lookup (ascii "w#00002#wssid"),
    ((s.disk .conf).bind (readConfig (.listed none))).bind fun m => m.lookup (ascii "w#00002#wssid"))

theorem not_onDisk_of_names {s' : Proc} {v w : Bytes} (h : namesOf (.ok () s') = (some v, some w))
    (hnew : some v ≠ twoWlans.cfg.lookup (ascii "w#00002#wssid")) (hne : v ≠ w) : ¬ OnDisk (.listed none) twoWlans s' := by
  obtain ⟨hmem, hdisk⟩ := Prod.mk.inj h
  intro hon
  obtain ⟨text, m, hfile, hread, heq⟩ := hon fun hsame => hnew (hmem.symm.trans (congrFun hsame _))
  have hdisk : ((s'.disk .conf).bind (readConfig (.listed none))).bind
    (fun m => m.lookup (ascii "w#00002#wssid")) = some w := hdisk
  rw [hfile, Option.bind_some, hread, Option.bind_some] at hdisk
  exact hne (Option.some.inj (hmem.symm.trans ((congrFun heq _).symm.trans hdisk)))

/-- Both commands change the name in memory, and on disk it has a line break at its end. -/
theorem name_not_on_disk :
    (∀ s', replace (.listed none) commaName twoWlans = .ok () s' → ¬ OnDisk (.listed none) twoWlans s') ∧
      ∀ s', update (.listed none) commaName twoWlans = .ok () s' → ¬ OnDisk (.listed none) twoWlans s' := by
  have hreplace : namesOf (replace (.listed none) commaName twoWlans) =
      (some (ascii "deux,"), some (ascii "deux,\n")) := by decide +kernel
  have hupdate : namesOf (update (.listed none) commaName twoWlans) =
      (some (ascii "deux,"), some (ascii "deux,\n")) := by decide +kernel
  have hnew : some (ascii "deux,") ≠ twoWlans.cfg.lookup (ascii "w#00002#wssid") := by decide +kernel
  constructor
  · intro s' h
    exact not_onDisk_of_names (h ▸ hreplace) hnew (by decide)
  · intro s' h
    exact not_onDisk_of_names (h ▸ hupdate) hnew (by decide)

end ApApps.Cfg

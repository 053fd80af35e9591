import ApApps.Setconf.Stored
import ApApps.Setconf.Suitable

/- When a configuration is committed again.

   `Exact` says what a call of `check` has to do: commit the configuration exactly if it
   is not the one of the last commit, and leave it in the memfile. A number is stored
   with fourteen digits, so a process that has read the file may find a difference where
   there is none (`recommitted`), and a number that `%d` refuses ends the commit before
   the memfile is written. Where all numbers survive (`Storable`), every call of every
   run is exact (`check_exact`). -/
namespace ApApps.Setconf
open Exec Cjson ApApps.Cfg

/-- What `wl_cfg_parse` makes. -/
abbrev WlCfg := (Dev → Option DevCfg) × Ifaces

/-- The tables of a configuration, as the memfile keeps them. -/
def cfgTable (cfg : WlCfg) : Table CfgMap :=
  tableOf [(devCfgMap, some (devMap cfg.1)), (ifaceCfgMap, some (ifaceMap cfg.2))]

/-! ## What is asked for -/

/-- The radio maps and the WLAN maps are equal. -/
def SameCfg (cfg cfg' : WlCfg) : Prop :=
  SameCfgMap (devMap cfg.1) (devMap cfg'.1) ∧ SameCfgMap (ifaceMap cfg.2) (ifaceMap cfg'.2)

instance : DecidableRel SameCfg := fun cfg cfg' =>
  inferInstanceAs (Decidable (SameCfgMap (devMap cfg.1) (devMap cfg'.1) ∧ SameCfgMap (ifaceMap cfg.2) (ifaceMap cfg'.2)))

/-- The maps of the memfile are those of the configuration. -/
def Stores (m : Table CfgMap) (cfg : WlCfg) : Prop := SameBy SameCfgMap m (cfgTable cfg)

/-- The configuration is that of the last commit. -/
def Unchanged (commits : List WlCfg) (cfg : WlCfg) : Prop := ∃ last ∈ commits.getLast?, SameCfg cfg last

instance (commits : List WlCfg) (cfg : WlCfg) : Decidable (Unchanged commits cfg) :=
  inferInstanceAs (Decidable (∃ last ∈ commits.getLast?, SameCfg cfg last))

/-- A call with the configuration `cfg` has done what it should. -/
structure Exact (env : Env) (before after : Process) (cfg : WlCfg) : Prop where
  skipped : Unchanged before.commits cfg → after.commits = before.commits
  executed : ¬ Unchanged before.commits cfg → after.commits = before.commits ++ [cfg]
  stored : Stores after.mf.map cfg
  reloaded : Stores (newMemfile env after.mf.file).map cfg

/-- The numbers that are formatted are whole, and those that are stored survive. -/
structure Storable (env : Env) (sup : Support) (cfg : WlCfg) : Prop where
  whole : Whole sup cfg.1 cfg.2
  power : ∀ dev c, cfg.1 dev = some c → Survives env.fp c.txpower
  wlanid : ∀ e ∈ cfg.2.entries, ∀ x, e.2.wlanid = some x → Survives env.fp x
  hidden : ∀ e ∈ cfg.2.entries, Survives env.fp e.2.hidden

/-! ## Tables that are written out -/

section TableOf
variable {α : Type} {kvs : List (Bytes × Option α)}

theorem mem_of_lookup_tableOf {k : Bytes} {v : α} (h : (tableOf kvs).lookup k = some v) : (k, some v) ∈ kvs := by
  rw [tableOf, AList.lookup_to_alist] at h
  obtain ⟨kv, hkv, heq⟩ := List.mem_filterMap.mp (List.of_mem_dlookup h)
  obtain ⟨a, ha, hsig⟩ := Option.map_eq_some_iff.mp heq
  cases hsig
  rwa [← ha]

/-- The keys whose value is not nil. -/
def present (kvs : List (Bytes × Option α)) : List Bytes := kvs.filterMap fun kv => kv.2.map fun _ => kv.1

theorem isSome_lookup_tableOf {k : Bytes} : ((tableOf kvs).lookup k).isSome = true ↔ k ∈ present kvs := by
  rw [tableOf, AList.lookup_to_alist, List.dlookup_isSome, present, List.keys, List.map_filterMap]
  simp only [Option.map_map]
  exact Iff.rfl

theorem mem_of_mem_tableOf {e : (_ : Bytes) × α} (h : e ∈ (tableOf kvs).entries) : (e.1, some e.2) ∈ kvs :=
  mem_of_lookup_tableOf (lookup_of_mem h)

theorem lookup_tableOf {k : Bytes} {v : α} (hnodup : (kvs.map Prod.fst).Nodup) (h : (k, some v) ∈ kvs) :
    (tableOf kvs).lookup k = some v := by
  have hpresent : k ∈ present kvs := List.mem_filterMap.mpr ⟨_, h, rfl⟩
  obtain ⟨w, hw⟩ := Option.isSome_iff_exists.mp (isSome_lookup_tableOf.mpr hpresent)
  have hmem := mem_of_lookup_tableOf hw
  have heq := List.inj_on_of_nodup_map hnodup hmem h rfl
  cases heq
  exact hw

end TableOf

/-! ## What has been parsed -/

theorem disabledOf_le (v : LuaNum) : disabledOf v ≤ 1 := by
  unfold disabledOf
  split <;> omega

theorem devCfgParse_disabled {env : Env} {map : Config} {band : Band} {cfg : DevCfg}
    (h : devCfgParse env map band = .ok cfg) : cfg.disabled ≤ 1 := by
  unfold devCfgParse at h
  simp only [except_bind_ok] at h
  obtain ⟨_, _, bswitch, _, _, _, _, _, _, _, _, _, _, _, _, _, _, _, hcfg⟩ := h
  cases hcfg
  exact disabledOf_le bswitch

theorem ifaceCfgParse_wlanid {map : Config} {wlanid : Bytes} {cfg : IfaceCfg}
    (h : ifaceCfgParse map wlanid = .ok cfg) : cfg.wlanid = tonumber wlanid := by
  unfold ifaceCfgParse at h
  simp only [except_bind_ok] at h
  obtain ⟨_, _, _, _, _, _, _, _, _, _, _, _, _, _, _, _, _, _, _, _, _, _, hcfg⟩ := h
  cases hcfg
  rfl

/-- The shape of a parsed configuration. -/
structure Parsed (sup : Support) (cfg : WlCfg) : Prop where
  radio : ∀ dev, (cfg.1 dev).isSome = true ↔ ∃ band, sup.dev band = some dev
  disabled : ∀ dev c, cfg.1 dev = some c → c.disabled ≤ 1
  wlan : ∀ e ∈ cfg.2.entries, e.2.wlanid = tonumber e.1 ∧ e.2.type ≤ 3 ∧ e.2.disabled ≤ 1

theorem wlCfgParse_parsed {env : Env} {sup : Support} {map : Config} {cfg : WlCfg}
    (h : wlCfgParse env sup map = .ok cfg) : Parsed sup cfg := by
  obtain ⟨hdevs, hifaces⟩ := wlCfgParse_ok h
  have hband : ∀ dev c, cfg.1 dev = some c → ∃ band, sup.dev band = some dev ∧ devCfgParse env map band = .ok c := by
    intro dev c hc
    by_cases hex : ∃ band, sup.dev band = some dev
    · obtain ⟨band, hband⟩ := hex
      exact ⟨band, hband, wifiDevCfgParse_entry hdevs hband hc⟩
    · have hnone := wifiDevCfgParse_none hdevs fun band hb => hex ⟨band, hb⟩
      rw [hc] at hnone
      cases hnone
  constructor
  · intro dev
    constructor
    · intro hsome
      obtain ⟨c, hc⟩ := Option.isSome_iff_exists.mp hsome
      obtain ⟨band, hb, _⟩ := hband dev c hc
      exact ⟨band, hb⟩
    · rintro ⟨band, hb⟩
      exact Option.isSome_iff_exists.mpr (wifiDevCfgParse_some hdevs band dev hb)
  · intro dev c hc
    obtain ⟨band, _, hparse⟩ := hband dev c hc
    exact devCfgParse_disabled hparse
  · intro e he
    have hparse := (wifiIfaceCfgParse_ok hifaces).2 e he
    have hentry := ifaceCfgParse_ok hparse
    refine ⟨ifaceCfgParse_wlanid hparse, ?_, ?_⟩
    · obtain ⟨v, _, htype⟩ := hentry.band
      rw [htype]
      split
      · omega
      · split <;> omega
    · obtain ⟨v, _, hdisabled⟩ := hentry.state
      exact hdisabled ▸ disabledOf_le v

/-! ## The keys of the tables -/

theorem covers_of_same {α β : Type} {R : α → α → Prop} {t : Table β} {t' t'' : Table α} (h : Covers t t')
    (hsame : SameBy R t'' t') : Covers t t'' :=
  fun k hk => h k ((option_rel_isSome (hsame k)).symm.trans hk)

theorem covers_tableOf {α : Type} {kvs kvs' : List (Bytes × Option α)} (h : present kvs' ⊆ present kvs) :
    Covers (tableOf kvs) (tableOf kvs') := by
  intro k hk
  rw [isSome_lookup_tableOf] at hk ⊢
  exact h hk

/-- Two radios have the same settings. -/
theorem covers_devCfg (cfg cfg' : DevCfg) : Covers cfg.kvmap cfg'.kvmap :=
  covers_tableOf (List.Subset.refl _)

/-- So have two WLANs, if their id is a number or is none. -/
theorem covers_ifaceCfg {cfg cfg' : IfaceCfg} (h : cfg.wlanid = cfg'.wlanid) : Covers cfg.kvmap cfg'.kvmap := by
  refine covers_tableOf ?_
  simp only [present, h]
  exact List.Subset.refl _

theorem mem_devMap {devs : Dev → Option DevCfg} {k : Bytes} {a : Kvmap} (h : (devMap devs).lookup k = some a) :
    ∃ dev c, k = dev.name ∧ devs dev = some c ∧ a = c.kvmap := by
  obtain ⟨dev, _, heq⟩ := List.mem_map.mp (mem_of_lookup_tableOf h)
  obtain ⟨rfl, hmap⟩ := Prod.mk.inj heq
  obtain ⟨c, hc, rfl⟩ := Option.map_eq_some_iff.mp hmap
  exact ⟨dev, c, rfl, hc, rfl⟩

theorem lookup_devMap {devs : Dev → Option DevCfg} {dev : Dev} {c : DevCfg} (h : devs dev = some c) :
    (devMap devs).lookup dev.name = some c.kvmap := by
  refine lookup_tableOf ?_ (List.mem_map.mpr ⟨dev, ?_, by rw [h, Option.map_some]⟩)
  · rw [List.map_map]
    show [Dev.radio0.name, Dev.radio1.name].Nodup
    decide
  · cases dev <;> decide

theorem mem_ifaceMap {ifaces : Ifaces} {k : Bytes} {a : Kvmap} (h : (ifaceMap ifaces).lookup k = some a) :
    ∃ c, ⟨k, c⟩ ∈ ifaces.entries ∧ a = c.kvmap := by
  obtain ⟨e, he, heq⟩ := List.mem_map.mp (mem_of_lookup_tableOf h)
  obtain ⟨rfl, hc⟩ := Prod.mk.inj heq
  exact ⟨e.2, he, (Option.some.inj hc).symm⟩

theorem lookup_cfgTable (cfg : WlCfg) :
    (cfgTable cfg).lookup devCfgMap = some (devMap cfg.1) ∧ (cfgTable cfg).lookup ifaceCfgMap = some (ifaceMap cfg.2) := by
  have hnodup : [devCfgMap, ifaceCfgMap].Nodup := by decide
  exact ⟨lookup_tableOf hnodup (by simp), lookup_tableOf hnodup (by simp)⟩

/-- No other tables are in the memfile. -/
def OnlyMaps (m : Table CfgMap) : Prop := ∀ k, k ≠ devCfgMap → k ≠ ifaceCfgMap → m.lookup k = none

theorem onlyMaps_cfgTable (cfg : WlCfg) : OnlyMaps (cfgTable cfg) := by
  intro k hd hi
  refine Option.not_isSome_iff_eq_none.mp fun hsome => ?_
  have hkeys : k ∈ [devCfgMap, ifaceCfgMap] := isSome_lookup_tableOf.mp hsome
  simp [hd, hi] at hkeys

theorem mem_cfgTable {cfg : WlCfg} {e : (_ : Bytes) × CfgMap} (h : e ∈ (cfgTable cfg).entries) :
    e.2 = devMap cfg.1 ∨ e.2 = ifaceMap cfg.2 := by
  have hmem := mem_of_mem_tableOf h
  simp only [List.mem_cons, List.not_mem_nil, or_false, Prod.mk.injEq, Option.some.injEq] at hmem
  exact hmem.imp And.right And.right

section Parsed
variable {env : Env} {sup : Support} {cfg last : WlCfg}

/-- All numbers of the tables are those of the configuration, or switches and types. -/
theorem numbers_cfgTable (hsmall : ∀ n : Nat, n ≤ 3 → Survives env.fp (.int n)) (hparsed : Parsed sup cfg)
    (hstore : Storable env sup cfg) : Numbers (Survives env.fp) (cfgTable cfg) := by
  intro t ht u hu e he x hx
  rcases mem_cfgTable ht with hdev | hiface
  · rw [hdev] at hu
    obtain ⟨dev, c, _, hc, huc⟩ := mem_devMap (lookup_of_mem hu)
    rw [huc] at he
    have hmem := mem_of_mem_tableOf he
    simp only [hx, List.mem_cons, List.not_mem_nil, or_false, Prod.mk.injEq, Option.some.injEq, Item.num.injEq,
      reduceCtorEq, and_false, false_or] at hmem
    rcases hmem with ⟨_, rfl⟩ | ⟨_, rfl⟩
    · exact hsmall _ (Nat.le_trans (hparsed.disabled dev c hc) (by decide))
    · exact hstore.power dev c hc
  · rw [hiface] at hu
    obtain ⟨c, hc, huc⟩ := mem_ifaceMap (lookup_of_mem hu)
    rw [huc] at he
    obtain ⟨_, htype, hdisabled⟩ := hparsed.wlan _ hc
    have hmem := mem_of_mem_tableOf he
    simp only [hx, List.mem_cons, List.not_mem_nil, or_false, Prod.mk.injEq, Option.some.injEq, Item.num.injEq,
      reduceCtorEq, and_false] at hmem
    rcases hmem with ⟨_, hid⟩ | ⟨_, rfl⟩ | ⟨_, rfl⟩ | ⟨_, rfl⟩
    · obtain ⟨y, hy, heq⟩ := Option.map_eq_some_iff.mp hid.symm
      cases heq
      exact hstore.wlanid _ hc x hy
    · exact hsmall _ htype
    · exact hsmall _ (Nat.le_trans hdisabled (by decide))
    · exact hstore.hidden _ hc

/-- The tables of a copy. -/
theorem lookup_copied {m : Table CfgMap} (h : CopiedMap m (cfgTable cfg)) :
    ∃ oDev oIface, m.lookup devCfgMap = some oDev ∧ m.lookup ifaceCfgMap = some oIface ∧
      SameBy (SameBy Copied) oDev (devMap cfg.1) ∧ SameBy (SameBy Copied) oIface (ifaceMap cfg.2) := by
  have hdev := h devCfgMap
  have hiface := h ifaceCfgMap
  rw [(lookup_cfgTable cfg).1] at hdev
  rw [(lookup_cfgTable cfg).2] at hiface
  cases hd : m.lookup devCfgMap with
  | none =>
    rw [hd] at hdev
    cases hdev
  | some oDev =>
    cases hi : m.lookup ifaceCfgMap with
    | none =>
      rw [hi] at hiface
      cases hiface
    | some oIface =>
      rw [hd] at hdev
      rw [hi] at hiface
      obtain ⟨hdev⟩ := hdev
      obtain ⟨hiface⟩ := hiface
      exact ⟨oDev, oIface, rfl, rfl, hdev, hiface⟩

theorem sameKvmap_of_copied {t t' : Kvmap} (h : SameBy Copied t t') : SameKvmap t t' := h.mono fun _ _ h => h.1

theorem sameKvmap_trans {t t' t'' : Kvmap} (h : SameKvmap t t') (h' : SameKvmap t' t'') : SameKvmap t t'' :=
  SameBy.trans (fun a b c (hab : a.eq b = true) (hbc : b.eq c = true) => Item.eq_trans hab hbc) h h'

theorem sameKvmap_symm {t t' : Kvmap} (h : SameKvmap t t') : SameKvmap t' t :=
  SameBy.symm (R := fun a b : Item => a.eq b = true) (fun _ _ => Item.eq_symm) h

theorem sameCfgMap_of_copied {t t' : CfgMap} (h : SameBy (SameBy Copied) t t') : SameCfgMap t t' :=
  h.mono fun _ _ => sameKvmap_of_copied

theorem sameCfgMap_trans {t t' t'' : CfgMap} (h : SameCfgMap t t') (h' : SameCfgMap t' t'') : SameCfgMap t t'' :=
  SameBy.trans (fun a b c (hab : SameKvmap a b) (hbc : SameKvmap b c) => sameKvmap_trans hab hbc) h h'

theorem sameCfgMap_symm {t t' : CfgMap} (h : SameCfgMap t t') : SameCfgMap t' t :=
  SameBy.symm (fun a b (hab : SameKvmap a b) => sameKvmap_symm hab) h

theorem stores_of_copied {m : Table CfgMap} (h : CopiedMap m (cfgTable cfg)) : Stores m cfg :=
  h.mono fun _ _ => sameCfgMap_of_copied

/-- A map that stores a configuration stores one that is the same. -/
theorem Stores.same {m : Table CfgMap} (h : Stores m last) (hsame : SameCfg cfg last) : Stores m cfg := by
  refine SameBy.trans (fun a b c (hab : SameCfgMap a b) (hbc : SameCfgMap b c) => sameCfgMap_trans hab hbc) h
    fun k => ?_
  by_cases hd : k = devCfgMap
  · subst hd
    rw [(lookup_cfgTable last).1, (lookup_cfgTable cfg).1]
    exact .some (sameCfgMap_symm hsame.1)
  · by_cases hi : k = ifaceCfgMap
    · subst hi
      rw [(lookup_cfgTable last).2, (lookup_cfgTable cfg).2]
      exact .some (sameCfgMap_symm hsame.2)
    · rw [onlyMaps_cfgTable last k hd hi, onlyMaps_cfgTable cfg k hd hi]
      exact .none

/-- **`compare_cfg` finds out** whether the configuration is that of the last commit, from copies of
the maps of that one. -/
theorem compareCfg_copied (hcfg : Parsed sup cfg) (hlast : Parsed sup last) {oDev oIface : CfgMap}
    (hdev : SameBy (SameBy Copied) oDev (devMap last.1)) (hiface : SameBy (SameBy Copied) oIface (ifaceMap last.2)) :
    compareCfg (devMap cfg.1) (ifaceMap cfg.2) oDev oIface = false ↔ SameCfg cfg last := by
  have hdevs : Covers (devMap cfg.1) (devMap last.1) := by
    intro k hk
    obtain ⟨a, ha⟩ := Option.isSome_iff_exists.mp hk
    obtain ⟨dev, c, rfl, hc, _⟩ := mem_devMap ha
    -- the radios are those of the supported bands
    have hsup := (hlast.radio dev).mp (Option.isSome_iff_exists.mpr ⟨c, hc⟩)
    obtain ⟨c', hc'⟩ := Option.isSome_iff_exists.mp ((hcfg.radio dev).mpr hsup)
    rw [lookup_devMap hc']
    rfl
  have hold : ∀ {t t' : CfgMap} {k : Bytes} {b : Kvmap}, SameBy (SameBy Copied) t t' → t.lookup k = some b →
      ∃ b', t'.lookup k = some b' ∧ SameBy Copied b b' := by
    intro t t' k b h hb
    have hk := h k
    rw [hb] at hk
    cases hb' : t'.lookup k with
    | none =>
      rw [hb'] at hk
      cases hk
    | some b' =>
      rw [hb'] at hk
      obtain ⟨hk⟩ := hk
      exact ⟨b', rfl, hk⟩
  rw [compareCfg_false_iff (covers_of_same hdevs hdev)]
  · constructor
    · rintro ⟨hd, hi⟩
      exact ⟨sameCfgMap_trans hd (sameCfgMap_of_copied hdev), sameCfgMap_trans hi (sameCfgMap_of_copied hiface)⟩
    · rintro ⟨hd, hi⟩
      exact ⟨sameCfgMap_trans hd (sameCfgMap_symm (sameCfgMap_of_copied hdev)),
        sameCfgMap_trans hi (sameCfgMap_symm (sameCfgMap_of_copied hiface))⟩
  · intro k a b ha hb
    obtain ⟨b', hb', hbb'⟩ := hold hdev hb
    obtain ⟨_, c, _, _, rfl⟩ := mem_devMap ha
    obtain ⟨_, c', _, _, rfl⟩ := mem_devMap hb'
    exact covers_of_same (covers_devCfg c c') hbb'
  · intro k a b ha hb
    obtain ⟨b', hb', hbb'⟩ := hold hiface hb
    obtain ⟨c, hc, rfl⟩ := mem_ifaceMap ha
    obtain ⟨c', hc', rfl⟩ := mem_ifaceMap hb'
    have hid : c.wlanid = c'.wlanid := (hcfg.wlan _ hc).1.trans (hlast.wlan _ hc').1.symm
    exact covers_of_same (covers_ifaceCfg hid) hbb'

end Parsed

/-! ## The memfile -/

section Memfile
variable {env : Env} {s : Process} {k : Bytes} {v : CfgMap}

theorem mfInit_some {t : CfgMap} (h : s.mf.map.lookup k = some t) : mfInit env k v s = .ok () s := by
  unfold mfInit
  have hget : mfGet k s = .ok (some t) s := by rw [mfGet, h]
  rw [bind_of_ok hget]
  rfl

/-- A value is set and saved. -/
theorem mfSet_mfSave {text : Bytes} (h : encode env.fp (mapVal env (s.mf.map.insert k v)) = some text) :
    (do mfSet k v; mfSave env : P Unit) s =
      .ok () { s with mf := ⟨s.mf.map.insert k v, false, some text⟩ } := by
  have hencode : encodeText env (s.mf.map.insert k v) = some (some text) := by rw [encodeText, h, Option.map_some]
  have hup : (⟨s.mf.map.insert k v, true, s.mf.file⟩ : Memfile).change = true := rfl
  have hsave := Myinit.Ins.save_up hup hencode
  rw [bind_of_ok (show mfSet k v s = .ok () { s with mf := ⟨s.mf.map.insert k v, true, s.mf.file⟩ } from modify_ok _ s)]
  simp only [mfSave, hsave]

theorem mfInit_none (hk : s.mf.map.lookup k = none) {text : Bytes}
    (h : encode env.fp (mapVal env (s.mf.map.insert k v)) = some text) :
    mfInit env k v s = .ok () { s with mf := ⟨s.mf.map.insert k v, false, some text⟩ } := by
  unfold mfInit
  have hget : mfGet k s = .ok none s := by rw [mfGet, hk]
  rw [bind_of_ok hget]
  exact mfSet_mfSave h

/-- What a new process reads. -/
theorem newMemfile_some {text : Bytes} {fields : List (Bytes × Val)} {m : Table CfgMap}
    (hdecode : decode env.fp text = some (.obj fields)) (hval : valMap (.obj fields) = some m) :
    newMemfile env (some text) = ⟨m, false, some text⟩ := by
  simp only [newMemfile, Myinit.Ins.new, loadFile, hdecode, truthy, if_true, Option.bind_some, hval, Option.getD_some]

/-- A file that has been read stays as it is, and one that has been removed is empty. -/
theorem newMemfile_newMemfile (file : Option Bytes) : newMemfile env (newMemfile env file).file = newMemfile env file := by
  cases file with
  | none => rfl
  | some text =>
    by_cases h : truthy (decode env.fp text) = true
    · simp only [newMemfile, Myinit.Ins.new, loadFile, h, if_true]
    · simp only [newMemfile, Myinit.Ins.new, loadFile, h, if_false, Bool.false_eq_true]

theorem mem_insert {α : Type} {t : Table α} {a : α} {e : (_ : Bytes) × α} (h : e ∈ (t.insert k a).entries) :
    e.2 = a ∨ e ∈ t.entries := by
  have h : e ∈ ⟨k, a⟩ :: List.kerase k t.entries := h
  rcases List.mem_cons.mp h with rfl | h
  · exact .inl rfl
  · exact .inr ((List.kerase_sublist k _).subset h)

/-- The numbers of a map in which a table has been set. -/
theorem numbers_insert {p : LuaNum → Prop} {m : Table CfgMap} (hm : Numbers p m)
    (hv : ∀ u ∈ v.entries, ∀ e ∈ u.2.entries, ∀ x, e.2 = .num x → p x) : Numbers p (m.insert k v) := by
  intro t ht
  rcases mem_insert ht with htv | ht
  · rw [htv]
    exact hv
  · exact hm t ht

end Memfile

/-! ## One call -/

section Call
variable {env : Env} {sup : Support} {cfg last : WlCfg} {s : Process}

theorem commitCfg_ok (env : Env) (h : Whole sup cfg.1 cfg.2) (s : Process) :
    ∃ wl, commitCfg env sup cfg s = .ok () { s with wl, commits := s.commits ++ [cfg] } := by
  obtain ⟨wl, hrun⟩ := wlCfgCommit_returns env h s.wl
  exact ⟨wl, by simp only [commitCfg, hrun]⟩

theorem numbers_of_lookup {p : LuaNum → Prop} {m m' : Table CfgMap} (h : ∀ k, m.lookup k = m'.lookup k)
    (hm : Numbers p m') : Numbers p m := by
  intro t ht
  exact hm t (mem_of_lookup ((h t.1).symm.trans (lookup_of_mem ht)))

theorem sameBy_refl {α : Type} {R : α → α → Prop} {t : Table α} (h : ∀ e ∈ t.entries, R e.2 e.2) : SameBy R t t := by
  intro k
  cases hk : t.lookup k with
  | none => exact .none
  | some a => exact .some (h _ (mem_of_lookup hk))

/-- Tables whose numbers survive are a copy of themselves. -/
theorem copiedMap_refl {m : Table CfgMap} (h : Numbers (Survives env.fp) m) : CopiedMap m m := by
  refine sameBy_refl fun t ht => sameBy_refl fun u hu => sameBy_refl fun e he => ?_
  cases hitem : e.2 with
  | str s => exact ⟨by simp [Item.eq], nofun⟩
  | num x =>
    obtain ⟨hfin, y, _, heq⟩ := h t ht u hu e he x hitem
    refine ⟨LuaNum.eq_trans (LuaNum.eq_symm heq) heq, ?_⟩
    rintro z hz
    cases hz
    exact hfin

/-- The numbers of a copy are finite. -/
theorem numbers_of_copied {m m' : Table CfgMap} (h : CopiedMap m m') : Numbers (fun x => IsFinite x.toFlt) m := by
  intro t ht u hu e he x hx
  obtain ⟨t', _, htt'⟩ := (sameBy_iff.mp h).1 t ht
  obtain ⟨u', _, huu'⟩ := (sameBy_iff.mp htt').1 u hu
  obtain ⟨e', _, hee'⟩ := (sameBy_iff.mp huu').1 e he
  exact hee'.2 x hx

theorem onlyMaps_of_copied {m : Table CfgMap} (h : CopiedMap m (cfgTable cfg)) : OnlyMaps m := by
  intro k hd hi
  have hk := h k
  rw [onlyMaps_cfgTable cfg k hd hi] at hk
  cases hm : m.lookup k with
  | none => rfl
  | some t =>
    rw [hm] at hk
    cases hk

/-- The two tables have been set. -/
theorem lookup_saved {m : Table CfgMap} (h : OnlyMaps m) (cfg : WlCfg) (k : Bytes) :
    ((m.insert devCfgMap (devMap cfg.1)).insert ifaceCfgMap (ifaceMap cfg.2)).lookup k = (cfgTable cfg).lookup k := by
  have hne : devCfgMap ≠ ifaceCfgMap := by decide
  by_cases hi : k = ifaceCfgMap
  · subst hi
    rw [AList.lookup_insert, (lookup_cfgTable cfg).2]
  · rw [AList.lookup_insert_ne hi]
    by_cases hd : k = devCfgMap
    · subst hd
      rw [AList.lookup_insert, (lookup_cfgTable cfg).1]
    · rw [AList.lookup_insert_ne hd, h k hd hi, onlyMaps_cfgTable cfg k hd hi]

/-- **The maps are saved**, in memory and in the file. -/
theorem saveCfgToMemfile_ok (hnum : Numbers (Survives env.fp) (cfgTable cfg))
    (hfin : Numbers (fun x => IsFinite x.toFlt) s.mf.map) (honly : OnlyMaps s.mf.map) :
    ∃ mf, saveCfgToMemfile env cfg s = .ok () { s with mf } ∧ CopiedMap mf.map (cfgTable cfg) ∧
      CopiedMap (newMemfile env mf.file).map (cfgTable cfg) := by
  have hsaved := lookup_saved honly cfg
  have hnum' := numbers_of_lookup hsaved hnum
  -- the file in between has the new radios and the old WLANs
  have hfin1 : Numbers (fun x => IsFinite x.toFlt) (s.mf.map.insert devCfgMap (devMap cfg.1)) :=
    numbers_insert hfin fun u hu e he x hx => (hnum _ (mem_of_lookup (lookup_cfgTable cfg).1) u hu e he x hx).1
  obtain ⟨text1, h1⟩ := exists_text env hfin1
  obtain ⟨text, fields, m', hencode, hdecode, hval, hcopy⟩ := exists_copy hnum'
  have htable : ∀ {m : Table CfgMap},
      CopiedMap m ((s.mf.map.insert devCfgMap (devMap cfg.1)).insert ifaceCfgMap (ifaceMap cfg.2)) →
      CopiedMap m (cfgTable cfg) := fun h k => hsaved k ▸ h k
  refine ⟨⟨_, false, some text⟩, ?_, htable (copiedMap_refl hnum'), ?_⟩
  · have hrun : saveCfgToMemfile env cfg s = ((do mfSet devCfgMap (devMap cfg.1); mfSave env : P Unit) >>= fun _ =>
        (do mfSet ifaceCfgMap (ifaceMap cfg.2); mfSave env : P Unit)) s := by
      simp only [saveCfgToMemfile, bind_assoc]
    rw [hrun, bind_of_ok (mfSet_mfSave h1)]
    exact mfSet_mfSave hencode
  · rw [newMemfile_some hdecode hval]
    exact htable hcopy

/-- What `reset` does with the maps of the memfile. -/
theorem reset_eq {nmap : Config} (hparse : wlCfgParse env sup nmap = .ok cfg) {oDev oIface : CfgMap}
    (hdev : s.mf.map.lookup devCfgMap = some oDev) (hiface : s.mf.map.lookup ifaceCfgMap = some oIface) :
    reset env sup nmap s =
      if compareCfg (devMap cfg.1) (ifaceMap cfg.2) oDev oIface then
        (do commitCfg env sup cfg; saveCfgToMemfile env cfg : P Unit) s
      else .ok () s := by
  unfold reset
  rw [hparse, bind_of_ok (show ofExcept (.ok cfg) s = .ok cfg s from rfl)]
  have hgetDev : mfGet devCfgMap s = .ok (some oDev) s := by rw [mfGet, hdev]
  have hgetIface : mfGet ifaceCfgMap s = .ok (some oIface) s := by rw [mfGet, hiface]
  rw [bind_of_ok hgetDev, bind_of_ok (show ofExcept (indexed (some oDev)) s = .ok oDev s from rfl),
    bind_of_ok hgetIface, bind_of_ok (show ofExcept (indexed (some oIface)) s = .ok oIface s from rfl)]
  split <;> rfl

/-- Between the calls: nothing has been committed yet, or the memfile and the file have copies of
the last configuration. -/
def Kept (env : Env) (sup : Support) (s : Process) : Prop :=
  (s.commits = [] ∧ s.mf = ⟨∅, false, none⟩) ∨
  ∃ last, s.commits.getLast? = some last ∧ Parsed sup last ∧ CopiedMap s.mf.map (cfgTable last) ∧
    CopiedMap (newMemfile env s.mf.file).map (cfgTable last)

/-- What `reset` starts from. -/
structure Ready (env : Env) (cfg : WlCfg) (s s1 : Process) (oDev oIface : CfgMap) : Prop where
  dev : s1.mf.map.lookup devCfgMap = some oDev
  iface : s1.mf.map.lookup ifaceCfgMap = some oIface
  commits : s1.commits = s.commits
  finite : Numbers (fun x => IsFinite x.toFlt) s1.mf.map
  only : OnlyMaps s1.mf.map
  compare : compareCfg (devMap cfg.1) (ifaceMap cfg.2) oDev oIface = false ↔ Unchanged s.commits cfg
  same : Unchanged s.commits cfg → s1 = s

/-- The maps of the memfile before anything has been committed. -/
def initialDevs : CfgMap := tableOf [(Dev.radio0.name, some ∅), (Dev.radio1.name, some ∅)]

/-- Every radio is a change from the initial map. -/
theorem compareCfg_initial (hparsed : Parsed sup cfg) (hband : ∃ band dev, sup.dev band = some dev)
    (oIface : CfgMap) : compareCfg (devMap cfg.1) (ifaceMap cfg.2) initialDevs oIface = true := by
  obtain ⟨band, dev, hdev⟩ := hband
  obtain ⟨c, hc⟩ := Option.isSome_iff_exists.mp ((hparsed.radio dev).mpr ⟨band, hdev⟩)
  have hold : initialDevs.lookup dev.name = some ∅ := by
    refine lookup_tableOf ?_ ?_
    · show [Dev.radio0.name, Dev.radio1.name].Nodup
      decide
    · cases dev <;> simp
  have hcountry : c.kvmap.lookup (ascii "country") = some (.str c.country) := by
    refine lookup_tableOf ?_ List.mem_cons_self
    show [ascii "country", ascii "disabled", ascii "hwmode", ascii "htmode", ascii "channel", ascii "txpower"].Nodup
    decide
  have hchange : settingChange c.kvmap ∅ = true :=
    List.any_eq_true.mpr ⟨_, mem_of_lookup hcountry, by simp⟩
  have hany : ((devMap cfg.1).entries.any fun e => (initialDevs.lookup e.1).elim true (settingChange e.2)) = true :=
    List.any_eq_true.mpr ⟨_, mem_of_lookup (lookup_devMap hc), by rw [hold]; exact hchange⟩
  rw [compareCfg, hany]
  simp only [Bool.true_or]

theorem numbers_empty {p : LuaNum → Prop} : Numbers p ∅ := by
  intro t ht
  cases ht

/-- In a new memfile the two maps are set first. -/
theorem check_fresh (hparsed : Parsed sup cfg) (hband : ∃ band dev, sup.dev band = some dev) (nmap : Config)
    (hcommits : s.commits = []) (hmf : s.mf = ⟨∅, false, none⟩) :
    ∃ s1, check env sup nmap s = reset env sup nmap s1 ∧ Ready env cfg s s1 initialDevs ∅ := by
  have hne : devCfgMap ≠ ifaceCfgMap := by decide
  have hempty : ∀ k, (∅ : Table CfgMap).lookup k = none := fun k => AList.lookup_empty k
  have hfin1 : Numbers (fun x => IsFinite x.toFlt) ((∅ : Table CfgMap).insert devCfgMap initialDevs) := by
    refine numbers_insert numbers_empty fun u hu e he => ?_
    have hmem := mem_of_mem_tableOf hu
    simp only [List.mem_cons, List.not_mem_nil, or_false, Prod.mk.injEq, Option.some.injEq] at hmem
    have hu2 : u.2 = ∅ := hmem.elim And.right And.right
    rw [hu2] at he
    cases he
  have hfin2 : Numbers (fun x => IsFinite x.toFlt)
      (((∅ : Table CfgMap).insert devCfgMap initialDevs).insert ifaceCfgMap ∅) :=
    numbers_insert hfin1 fun u hu => by cases hu
  obtain ⟨text1, h1⟩ := exists_text env hfin1
  obtain ⟨text2, h2⟩ := exists_text env hfin2
  let s0 : Process := { s with mf := ⟨(∅ : Table CfgMap).insert devCfgMap initialDevs, false, some text1⟩ }
  let s1 : Process :=
    { s with mf := ⟨((∅ : Table CfgMap).insert devCfgMap initialDevs).insert ifaceCfgMap ∅, false, some text2⟩ }
  have hrun1 : mfInit env devCfgMap initialDevs s = .ok () s0 := by
    have hk : s.mf.map.lookup devCfgMap = none := by rw [hmf]; exact hempty _
    have henc : encode env.fp (mapVal env (s.mf.map.insert devCfgMap initialDevs)) = some text1 := by rw [hmf]; exact h1
    rw [mfInit_none hk henc, hmf]
  have hrun2 : mfInit env ifaceCfgMap ∅ s0 = .ok () s1 := by
    have hk : s0.mf.map.lookup ifaceCfgMap = none := by
      show ((∅ : Table CfgMap).insert devCfgMap initialDevs).lookup ifaceCfgMap = none
      rw [AList.lookup_insert_ne hne.symm]
      exact hempty _
    exact mfInit_none hk h2
  refine ⟨s1, ?_, ?_, ?_, rfl, hfin2, ?_, ?_, ?_⟩
  · unfold check
    rw [show tableOf [(Dev.radio0.name, some ∅), (Dev.radio1.name, some ∅)] = initialDevs from rfl,
      bind_of_ok hrun1, bind_of_ok hrun2]
  · show (((∅ : Table CfgMap).insert devCfgMap initialDevs).insert ifaceCfgMap ∅).lookup devCfgMap = some initialDevs
    rw [AList.lookup_insert_ne hne, AList.lookup_insert]
  · exact AList.lookup_insert _
  · intro k hd hi
    show (((∅ : Table CfgMap).insert devCfgMap initialDevs).insert ifaceCfgMap ∅).lookup k = none
    rw [AList.lookup_insert_ne hi, AList.lookup_insert_ne hd]
    exact hempty k
  · rw [compareCfg_initial hparsed hband, Unchanged, hcommits]
    simp
  · rw [Unchanged, hcommits]
    rintro ⟨last, hlast, _⟩
    cases hlast

/-- Otherwise they are there. -/
theorem check_copied (hparsed : Parsed sup cfg) (nmap : Config) (hlast : s.commits.getLast? = some last)
    (hshape : Parsed sup last) (hcopy : CopiedMap s.mf.map (cfgTable last)) :
    ∃ oDev oIface, check env sup nmap s = reset env sup nmap s ∧ Ready env cfg s s oDev oIface := by
  obtain ⟨oDev, oIface, hdev, hiface, hcdev, hciface⟩ := lookup_copied hcopy
  refine ⟨oDev, oIface, ?_, hdev, hiface, rfl, numbers_of_copied hcopy, onlyMaps_of_copied hcopy, ?_, fun _ => rfl⟩
  · unfold check
    rw [bind_of_ok (mfInit_some hdev), bind_of_ok (mfInit_some hiface)]
  · rw [compareCfg_copied hparsed hshape hcdev hciface, Unchanged, hlast]
    simp

/-- **A call is exact**, and the next one can rely on the memfile. -/
theorem check_step (hsmall : ∀ n : Nat, n ≤ 3 → Survives env.fp (.int n))
    (hband : ∃ band dev, sup.dev band = some dev) {nmap : Config} (hparse : wlCfgParse env sup nmap = .ok cfg)
    (hstore : Storable env sup cfg) (hkept : Kept env sup s) :
    Exact env s (step env sup s (.check nmap)) cfg ∧ Kept env sup (step env sup s (.check nmap)) := by
  have hparsed := wlCfgParse_parsed hparse
  obtain ⟨s1, oDev, oIface, hcheck, hready⟩ :
      ∃ s1 oDev oIface, check env sup nmap s = reset env sup nmap s1 ∧ Ready env cfg s s1 oDev oIface := by
    rcases hkept with ⟨hcommits, hmf⟩ | ⟨last, hlast, hshape, hcopy, _⟩
    · obtain ⟨s1, h⟩ := check_fresh hparsed hband nmap hcommits hmf
      exact ⟨s1, _, _, h⟩
    · obtain ⟨oDev, oIface, h⟩ := check_copied hparsed nmap hlast hshape hcopy
      exact ⟨s, oDev, oIface, h⟩
  have hreset := hcheck.trans (reset_eq hparse hready.dev hready.iface)
  by_cases hunchanged : Unchanged s.commits cfg
  · -- nothing is done
    rw [hready.compare.mpr hunchanged, hready.same hunchanged] at hreset
    have hstep : step env sup s (.check nmap) = s := by
      rw [step, hreset]
      rfl
    rw [hstep]
    refine ⟨?_, hkept⟩
    obtain ⟨last, hlast, hsame⟩ := hunchanged
    rcases hkept with ⟨hcommits, _⟩ | ⟨last', hlast', _, hcopy, hfile⟩
    · rw [hcommits] at hlast
      cases hlast
    · obtain rfl : last = last' := Option.some.inj (Eq.trans (Eq.symm hlast) hlast')
      exact ⟨fun _ => rfl, fun h => absurd ⟨last, hlast, hsame⟩ h, (stores_of_copied hcopy).same hsame,
        (stores_of_copied hfile).same hsame⟩
  · have hcompare : compareCfg (devMap cfg.1) (ifaceMap cfg.2) oDev oIface = true :=
      Bool.eq_true_of_not_eq_false fun h => hunchanged (hready.compare.mp h)
    rw [hcompare] at hreset
    simp only [if_true] at hreset
    obtain ⟨wl, hcommit⟩ := commitCfg_ok env hstore.whole s1
    obtain ⟨mf, hsave, hcopy, hfile⟩ := saveCfgToMemfile_ok (numbers_cfgTable hsmall hparsed hstore)
      (s := { s1 with wl, commits := s1.commits ++ [cfg] }) hready.finite hready.only
    rw [bind_of_ok hcommit, hsave] at hreset
    have hstep : step env sup s (.check nmap) = ⟨wl, mf, s.commits ++ [cfg]⟩ := by
      rw [step, hreset, hready.commits]
    rw [hstep]
    refine ⟨⟨fun h => absurd h hunchanged, fun _ => rfl, stores_of_copied hcopy, stores_of_copied hfile⟩, ?_⟩
    exact .inr ⟨cfg, by simp, hparsed, hcopy, hfile⟩

/-- A new process relies on the file. -/
theorem restart_step (hkept : Kept env sup s) : Kept env sup (step env sup s .restart) := by
  rcases hkept with ⟨hcommits, hmf⟩ | ⟨last, hlast, hshape, _, hfile⟩
  · refine .inl ⟨hcommits, ?_⟩
    show newMemfile env s.mf.file = _
    rw [hmf]
    rfl
  · refine .inr ⟨last, hlast, hshape, hfile, ?_⟩
    show CopiedMap (newMemfile env (newMemfile env s.mf.file).file).map (cfgTable last)
    rw [newMemfile_newMemfile]
    exact hfile

end Call

/-! ## Whole runs -/

/-- The configuration given to a call is accepted, and can be stored. -/
def Admitted (env : Env) (sup : Support) : Event → Prop
  | .check nmap => ∃ cfg, wlCfgParse env sup nmap = .ok cfg ∧ Storable env sup cfg
  | .restart => True

section Runs
variable {env : Env} {sup : Support}

theorem run_kept (hsmall : ∀ n : Nat, n ≤ 3 → Survives env.fp (.int n))
    (hband : ∃ band dev, sup.dev band = some dev) (wl : Wl) {events : List Event}
    (h : ∀ event ∈ events, Admitted env sup event) : Kept env sup (run env sup wl events) := by
  induction events using List.reverseRecOn with
  | nil => exact .inl ⟨rfl, rfl⟩
  | append_singleton events event ih =>
    have hkept := ih fun e he => h e (List.mem_append_left _ he)
    have hlast := h event (List.mem_append_right _ List.mem_cons_self)
    rw [run, List.foldl_append, List.foldl_cons, List.foldl_nil]
    cases event with
    | check nmap =>
      obtain ⟨cfg, hparse, hstore⟩ := hlast
      exact (check_step hsmall hband hparse hstore hkept).2
    | restart => exact restart_step hkept

/-- **Every call of every run is exact**, if the numbers of the configurations survive. -/
theorem check_exact (hsmall : ∀ n : Nat, n ≤ 3 → Survives env.fp (.int n))
    (hband : ∃ band dev, sup.dev band = some dev) (wl : Wl) {events : List Event}
    (hevents : ∀ event ∈ events, Admitted env sup event) {nmap : Config} {cfg : WlCfg}
    (hparse : wlCfgParse env sup nmap = .ok cfg) (hstore : Storable env sup cfg) :
    Exact env (run env sup wl events) (run env sup wl (events ++ [.check nmap])) cfg := by
  have hkept := run_kept hsmall hband wl hevents
  have hrun : run env sup wl (events ++ [.check nmap]) = step env sup (run env sup wl events) (.check nmap) := by
    rw [run, List.foldl_append, List.foldl_cons, List.foldl_nil]
    rfl
  rw [hrun]
  exact (check_step hsmall hband hparse hstore hkept).1

end Runs

/-! ## A process that is restarted -/

/-- The access point with the conversions of the C library. -/
def Env.withLibrary : Env := { Env.lg9563 with fp := cLibrary }

/-- All numbers of the configuration are whole and survive. -/
def storable (cfg : WlCfg) : Bool :=
  ([Dev.radio0, Dev.radio1].all fun dev => (cfg.1 dev).all fun c => survives c.txpower && c.txpower.toInteger.isSome) &&
  cfg.2.entries.all fun e => e.2.wlanid.all survives && survives e.2.hidden && e.2.hidden.toInteger.isSome

theorem storable_withLibrary {sup : Support} {cfg : WlCfg} (h : storable cfg = true) :
    Storable .withLibrary sup cfg := by
  simp only [storable, Bool.and_eq_true, List.all_eq_true] at h
  obtain ⟨hradio, hwlan⟩ := h
  have hpower : ∀ dev c, cfg.1 dev = some c → survives c.txpower = true ∧ c.txpower.toInteger.isSome = true := by
    intro dev c hc
    have hdev := hradio dev (by cases dev <;> decide)
    rw [hc] at hdev
    simpa using hdev
  constructor
  · constructor
    · intro _ dev _ c hc
      exact Option.isSome_iff_exists.mp (hpower dev c hc).2
    · intro e he _
      exact Option.isSome_iff_exists.mp (hwlan e he).2
  · intro dev c hc
    exact survives_cLibrary (hpower dev c hc).1
  · intro e he x hx
    have hid := (hwlan e he).1.1
    rw [hx] at hid
    exact survives_cLibrary hid
  · intro e he
    exact survives_cLibrary (hwlan e he).1.2

/-- The same configuration before and after a restart. -/
theorem check_exact_restart : ∃ cfg, wlCfgParse .withLibrary twoRadios (oneWlan "an") = .ok cfg ∧
    Exact .withLibrary (run .withLibrary twoRadios wirelessFile [.check (oneWlan "an"), .restart])
      (run .withLibrary twoRadios wirelessFile ([.check (oneWlan "an"), .restart] ++ [.check (oneWlan "an")])) cfg := by
  obtain ⟨cfg, hparse⟩ : ∃ cfg, wlCfgParse .withLibrary twoRadios (oneWlan "an") = .ok cfg :=
    exists_of_accepted (by decide +kernel)
  have hcheck : (match wlCfgParse .withLibrary twoRadios (oneWlan "an") with
      | .ok cfg => storable cfg
      | .error _ => false) = true := by decide +kernel
  rw [hparse] at hcheck
  have hstore : Storable .withLibrary twoRadios cfg := storable_withLibrary hcheck
  have hsmall : ∀ n : Nat, n ≤ 3 → Survives Env.withLibrary.fp (.int n) := by
    intro n hn
    refine survives_cLibrary ?_
    have hall : ((List.range 4).all fun n => survives (.int n)) = true := by decide +kernel
    exact List.all_eq_true.mp hall n (List.mem_range.mpr (by omega))
  refine ⟨cfg, hparse, check_exact hsmall ⟨.b2g, .radio0, by decide +kernel⟩ wirelessFile ?_ hparse hstore⟩
  intro event hevent
  simp only [List.mem_cons, List.not_mem_nil, or_false] at hevent
  rcases hevent with rfl | rfl
  · exact ⟨cfg, hparse, hstore⟩
  · trivial

/-- A number that does not survive. -/
def manyDigits : Config := (oneWlan "an").insert (ascii "w#00001#whide") (ascii "123456789012345678")

/-- After a restart the same configuration is committed again. -/
theorem recommitted : ∃ cfg, wlCfgParse .withLibrary twoRadios manyDigits = .ok cfg ∧
    ¬ Exact .withLibrary (run .withLibrary twoRadios wirelessFile [.check manyDigits, .restart])
      (run .withLibrary twoRadios wirelessFile ([.check manyDigits, .restart] ++ [.check manyDigits])) cfg := by
  have hcheck : (match wlCfgParse .withLibrary twoRadios manyDigits with
      | .ok cfg =>
        let before := (run .withLibrary twoRadios wirelessFile [.check manyDigits, .restart]).commits
        let after :=
          (run .withLibrary twoRadios wirelessFile ([.check manyDigits, .restart] ++ [.check manyDigits])).commits
        decide (Unchanged before cfg) && decide (after.length ≠ before.length)
      | .error _ => false) = true := by decide +kernel
  cases hparse : wlCfgParse .withLibrary twoRadios manyDigits with
  | error e =>
    rw [hparse] at hcheck
    cases hcheck
  | ok cfg =>
    rw [hparse] at hcheck
    simp only [Bool.and_eq_true, decide_eq_true_eq] at hcheck
    exact ⟨cfg, rfl, fun h => hcheck.2 (congrArg List.length (h.skipped hcheck.1))⟩

end ApApps.Setconf

import ApApps.Setconf.Commit

/- What the lines of a commit leave, and what the configuration asks for.

   `executed_commitLines` joins the parts of the commit into the file they leave, if the
   shell reads the lines. `counts_iff` and `sectionsOf_perm` put the counters and the
   sections against `Committed`, and `whole_iff` and `strings_iff` put what was parsed
   against the settings. -/
namespace ApApps.Setconf
open Uci Shell Exec Assignments ApApps.Cfg

section
variable {env : Env} {dir : Directory} {sup : Support} {map : Config} {devs : Dev → Option DevCfg} {ifaces : Ifaces}

/-- The shell reads the lines of the commit. -/
structure Readable (dir : Directory) (sup : Support) (devs : Dev → Option DevCfg) (ifaces : Ifaces) : Prop where
  radios : ∀ band dev, sup.dev band = some dev → ∀ cfg, devs dev = some cfg → Tunable dir dev cfg
  ifaces : ∀ e ∈ ifaces.entries, wifiDevs sup e.2.type ≠ [] → Writable dir e.2

/-- **The file that is left.** -/
theorem executed_commitLines (hdoc : Documented dir env.system) (hdir : NoNames dir) (hwhole : Whole sup devs ifaces)
    (hread : Readable dir sup devs ifaces)
    (hdevs : ∀ band dev, sup.dev band = some dev → ∃ cfg, devs dev = some cfg) {u : Files} (hclean : u.staged = u.file)
    (hex : ∀ band dev, sup.dev band = some dev → hasNamed dev.name (others ifaceT u.file)) :
    ∃ f, Tuned sup devs (bandArrSupport env sup) f ∧
      (executed env (commitLines env sup devs ifaces u.file) u).file =
        (others ifaceT u.file).map f ++ sectionsOf sup (env.pairs ifaces.entries) := by
  have hdelete := staged_delete hdoc hdir hclean
  obtain ⟨f, hradios, hf⟩ := staged_radios devs hdoc hdir (nodup_bandArrSupport env sup)
    (fun b hb => by
      obtain ⟨d, hd⟩ := mem_bandArrSupport.mp hb
      obtain ⟨cfg, hcfg⟩ := hdevs b d hd
      obtain ⟨i, hi⟩ := hwhole.power b d hd cfg hcfg
      exact ⟨d, cfg, i, hd, hcfg, hi, hread.radios b d hd cfg hcfg⟩)
    (s := executed env [commitLine] (executed env (deleteLines env u.file) u))
    (fun b _ d hd => by
      rw [executed_commit hdoc, hdelete]
      exact hex b d hd)
  have hentries : ∀ e ∈ env.pairs ifaces.entries, wifiDevs sup e.2.type ≠ [] →
      (∃ i, e.2.hidden.toInteger = some i) ∧ Writable dir e.2 := by
    intro e he hne
    have he := (env.pairs_perm _).mem_iff.mp he
    exact ⟨hwhole.hidden e he hne, hread.ifaces e he hne⟩
  have hsections := staged_ifaces hdoc hdir (env.pairs ifaces.entries) hentries
  refine ⟨f, hf, ?_⟩
  simp only [commitLines, executed_append]
  rw [executed_commit hdoc, hsections, executed_commit hdoc, hradios, executed_commit hdoc, hdelete]

/-- A commit leaves that file, and the counters. -/
theorem wlCfgCommit_ok (hdoc : Documented dir env.system) (hdir : NoNames dir) (hwhole : Whole sup devs ifaces)
    (hread : Readable dir sup devs ifaces)
    (hdevs : ∀ band dev, sup.dev band = some dev → ∃ cfg, devs dev = some cfg) {u : Wl} (hclean : u.staged = u.file)
    (hex : ∀ band dev, sup.dev band = some dev → hasNamed dev.name (others ifaceT u.file)) :
    ∃ f u', Tuned sup devs (bandArrSupport env sup) f ∧ wlCfgCommit env sup (devs, ifaces) u = .ok () u' ∧
      u'.file = (others ifaceT u.file).map f ++ sectionsOf sup (env.pairs ifaces.entries) ∧
      u'.userdata = some ((radiosOf sup (env.pairs ifaces.entries)).foldl (bump sup) (0, 0)) := by
  obtain ⟨f, hf, hfile⟩ := executed_commitLines hdoc hdir hwhole hread hdevs hclean hex
  exact ⟨f, _, hf, wlCfgCommit_eq env hwhole u, hfile, rfl⟩

/-! ## The file in parts -/

theorem ofType_append (t : Bytes) (pkg pkg' : Pkg) : ofType t (pkg ++ pkg') = ofType t pkg ++ ofType t pkg' :=
  List.filter_append ..

theorem others_append (t : Bytes) (pkg pkg' : Pkg) : others t (pkg ++ pkg') = others t pkg ++ others t pkg' :=
  List.filter_append ..

/-- None of the old sections of other types becomes one of an interface. -/
theorem Tuned.type_of_mem {bs : List Band} {f : Section Bytes Bytes Bytes Bytes → Section Bytes Bytes Bytes Bytes}
    (hf : Tuned sup devs bs f) {pkg : Pkg} : ∀ x ∈ (others ifaceT pkg).map f, x.type ≠ ifaceT := by
  intro x hx
  obtain ⟨s, hs, rfl⟩ := List.mem_map.mp hx
  have hne : s.type ≠ ifaceT := by simpa using (List.mem_filter.mp hs).2
  rcases hf.type s with h | h
  · rwa [h]
  · rw [h]
    decide

theorem type_of_mem_sectionsOf {es : List ((_ : Bytes) × IfaceCfg)} {s : Section Bytes Bytes Bytes Bytes}
    (hs : s ∈ sectionsOf sup es) : s.type = ifaceT ∧ s.name = none := by
  obtain ⟨e, _, hs⟩ := List.mem_flatMap.mp hs
  obtain ⟨dev, _, rfl⟩ := List.mem_map.mp hs
  exact ⟨rfl, rfl⟩

/-- The sections of other types are the old ones. -/
theorem others_left {bs : List Band} {f : Section Bytes Bytes Bytes Bytes → Section Bytes Bytes Bytes Bytes}
    (hf : Tuned sup devs bs f) (pkg : Pkg) (es : List ((_ : Bytes) × IfaceCfg)) :
    others ifaceT ((others ifaceT pkg).map f ++ sectionsOf sup es) = (others ifaceT pkg).map f := by
  have hold : others ifaceT ((others ifaceT pkg).map f) = (others ifaceT pkg).map f :=
    List.filter_eq_self.mpr fun x hx => by simpa using hf.type_of_mem x hx
  have hnew : others ifaceT (sectionsOf sup es) = [] :=
    List.filter_eq_nil_iff.mpr fun x hx => by simpa using (type_of_mem_sectionsOf hx).1
  rw [others_append, hold, hnew, List.append_nil]

/-- The interface sections are the new ones. -/
theorem ofType_left {bs : List Band} {f : Section Bytes Bytes Bytes Bytes → Section Bytes Bytes Bytes Bytes}
    (hf : Tuned sup devs bs f) (pkg : Pkg) (es : List ((_ : Bytes) × IfaceCfg)) :
    ofType ifaceT ((others ifaceT pkg).map f ++ sectionsOf sup es) = sectionsOf sup es := by
  have hold : ofType ifaceT ((others ifaceT pkg).map f) = [] :=
    List.filter_eq_nil_iff.mpr fun x hx => by simpa using hf.type_of_mem x hx
  have hnew : ofType ifaceT (sectionsOf sup es) = sectionsOf sup es :=
    List.filter_eq_self.mpr fun x hx => by simpa using (type_of_mem_sectionsOf hx).1
  rw [ofType_append, hold, hnew, List.nil_append]

/-! ## The counters -/

theorem mem_radiosOf {es : List ((_ : Bytes) × IfaceCfg)} {d : Dev} (h : d ∈ radiosOf sup es) :
    ∃ band, sup.dev band = some d := by
  obtain ⟨e, _, hd⟩ := List.mem_flatMap.mp h
  have hof : ∀ b, d ∈ (if sup.has b then getWifiDev sup b else none).toList → ∃ band, sup.dev band = some d := by
    intro b hd
    split at hd
    · rename_i hb
      obtain ⟨d', hd'⟩ := Option.isSome_iff_exists.mp hb
      rw [getWifiDev_eq hd'] at hd
      obtain rfl : d = d' := by simpa using hd
      exact ⟨b, hd'⟩
    · cases hd
  unfold wifiDevs at hd
  simp only at hd
  split at hd
  · exact hof .b2g hd
  · split at hd
    · exact hof .b5g hd
    · split at hd
      · exact (List.mem_append.mp hd).elim (hof .b2g) (hof .b5g)
      · cases hd

theorem device_sectionOf (cfg : IfaceCfg) (dev : Dev) :
    (sectionOf cfg dev).options (ascii "device") = some dev.name := by
  let options := (ifaceSettings dev cfg ((decimal cfg.hidden).getD [])).map fun kv =>
    (ascii kv.1.name, stored (kv.2.takeWhile (· ≠ NUL)))
  have hnodup : (options.map Prod.fst).Nodup := by
    have hkeys : options.map Prod.fst =
        (ifaceSettings dev cfg ((decimal cfg.hidden).getD [])).map fun kv => ascii kv.1.name := rfl
    rw [hkeys]
    show [ascii "device", ascii "disabled", ascii "hidden", ascii "ssid", ascii "encryption", ascii "key",
      ascii "network", ascii "mode"].Nodup
    decide
  have hmem : (ascii IfaceOption.device.name, stored (dev.name.takeWhile (· ≠ NUL))) ∈ options := List.mem_cons_self
  have hstored : stored (dev.name.takeWhile (· ≠ NUL)) = some dev.name := by cases dev <;> decide
  rw [← hstored]
  exact assign_of_mem (f := fun _ => none) (.of_nodup hnodup) hmem

/-- The sections on a radio. -/
theorem countP_sectionsOf (es : List ((_ : Bytes) × IfaceCfg)) (d : Dev) :
    (sectionsOf sup es).countP (fun s => s.options (ascii "device") = some d.name) = (radiosOf sup es).count d := by
  induction es with
  | nil => rfl
  | cons e es ih =>
    rw [sectionsOf, List.flatMap_cons, List.countP_append, radiosOf, List.flatMap_cons, List.count_append]
    refine congrArg₂ (· + ·) ?_ ih
    rw [List.countP_map, List.count_eq_countP]
    refine List.countP_congr fun dev _ => ?_
    simp only [Function.comp_apply, device_sectionOf, Option.some.injEq, decide_eq_true_eq, beq_iff_eq]
    exact ⟨Dev.name_inj, congrArg Dev.name⟩

theorem foldl_bump {d0 : Dev} (h : getWifiDev sup .b2g = some d0) (ds : List Dev) (cnt : Nat × Nat) :
    ds.foldl (bump sup) cnt = (cnt.1 + ds.count d0, cnt.2 + ds.countP (· ≠ d0)) := by
  induction ds generalizing cnt with
  | nil => rfl
  | cons d ds ih =>
    rw [List.foldl_cons, ih, bump, h]
    by_cases hd : d = d0
    · simp [hd, Nat.add_assoc, Nat.add_comm 1]
    · simp [hd, Nat.add_assoc, Nat.add_comm 1]

/-- **The counters are right** if there is a 2g radio, or no section. -/
theorem counts_iff (hband : ∃ band dev, sup.dev band = some dev) (es : List ((_ : Bytes) × IfaceCfg)) :
    (radiosOf sup es).foldl (bump sup) (0, 0) =
        (onRadio sup .b2g (sectionsOf sup es), onRadio sup .b5g (sectionsOf sup es)) ↔
      (∃ dev, sup.dev .b2g = some dev) ∨ radiosOf sup es = [] := by
  cases h2 : sup.dev .b2g with
  | some d2 =>
    refine iff_of_true ?_ (.inl ⟨d2, rfl⟩)
    rw [foldl_bump (getWifiDev_eq h2)]
    simp only [onRadio, h2, countP_sectionsOf, Nat.zero_add, Prod.mk.injEq, true_and]
    cases h5 : sup.dev .b5g with
    | none =>
      refine List.countP_eq_zero.mpr fun d hd => ?_
      obtain ⟨band, hd⟩ := mem_radiosOf hd
      cases band with
      | b2g => simpa using Option.some.inj (hd.symm.trans h2)
      | b5g => rw [h5] at hd; cases hd
    | some d5 =>
      simp only [List.count_eq_countP]
      refine List.countP_congr fun d hd => ?_
      obtain ⟨band, hd⟩ := mem_radiosOf hd
      have hne : d2 ≠ d5 := fun h => sup.distinct d2 h2 (h ▸ h5)
      cases band with
      | b2g =>
        obtain rfl := Option.some.inj (hd.symm.trans h2)
        simp [hne]
      | b5g =>
        obtain rfl := Option.some.inj (hd.symm.trans h5)
        simp [hne.symm]
  | none =>
    obtain ⟨d5, h5⟩ := Support.only_5g h2 hband
    -- the 5g radio is taken for the 2g one
    have hget : getWifiDev sup .b2g = some d5 := by rw [getWifiDev, h2, h5]; rfl
    have hall : ∀ d ∈ radiosOf sup es, d5 = d := by
      intro d hd
      obtain ⟨band, hd⟩ := mem_radiosOf hd
      cases band with
      | b2g => rw [h2] at hd; cases hd
      | b5g => exact Option.some.inj (h5.symm.trans hd)
    rw [foldl_bump hget, List.count_eq_length.mpr hall]
    simp only [onRadio, h2, h5, countP_sectionsOf, List.count_eq_length.mpr hall, Prod.mk.injEq, Nat.zero_add,
      List.length_eq_zero_iff, reduceCtorEq, exists_false, false_or]
    constructor
    · exact fun h => h.1
    · intro h
      simp [h]

/-! ## The sections -/

theorem mem_wifiDevs_ne {wlanid : Bytes} {cfg : IfaceCfg} (h : Entry map wlanid cfg) :
    wifiDevs sup cfg.type ≠ [] ↔ ∃ band dev, sup.dev band = some dev ∧ Selects map wlanid band := by
  rw [wifiDevs_eq h]
  constructor
  · intro hne
    obtain ⟨dev, hdev⟩ := List.exists_mem_of_ne_nil _ hne
    obtain ⟨band, _, hband⟩ := List.mem_filterMap.mp hdev
    split at hband
    · exact ⟨band, dev, hband, ‹_›⟩
    · cases hband
  · rintro ⟨band, dev, hdev, hsel⟩
    refine List.ne_nil_of_mem (List.mem_filterMap.mpr ⟨band, ?_, by rw [if_pos hsel, hdev]⟩)
    cases band <;> decide

/-- The sections of a WLAN are those it asks for. -/
theorem sections_eq {wlanid : Bytes} {cfg : IfaceCfg} (h : Entry map wlanid cfg)
    (hwhole : wifiDevs sup cfg.type ≠ [] → ∃ i, cfg.hidden.toInteger = some i)
    (hnul : wifiDevs sup cfg.type ≠ [] → ∀ kv ∈ stringOptions cfg, NUL ∉ kv.2) :
    (wifiDevs sup cfg.type).map (sectionOf cfg) = wantedOn sup map wlanid := by
  have hwanted : (wifiDevs sup cfg.type).map (wanted map wlanid) = wantedOn sup map wlanid := by
    rw [wifiDevs_eq h, List.map_filterMap, wantedOn]
    refine congrArg (List.filterMap · bands) (funext fun band => ?_)
    split <;> rfl
  rw [← hwanted]
  refine List.map_congr_left fun dev hdev => ?_
  obtain ⟨i, hi⟩ := hwhole (List.ne_nil_of_mem hdev)
  exact sectionOf_eq h hi (hnul (List.ne_nil_of_mem hdev)) dev

/-- The new sections are those the WLANs ask for. -/
theorem sectionsOf_perm (hparse : wifiIfaceCfgParse env map = .ok ifaces) (hwhole : Whole sup devs ifaces)
    (hnul : ∀ e ∈ ifaces.entries, wifiDevs sup e.2.type ≠ [] → ∀ kv ∈ stringOptions e.2, NUL ∉ kv.2) :
    (sectionsOf sup (env.pairs ifaces.entries)).Perm ((idsOf env map).dedup.flatMap (wantedOn sup map)) := by
  obtain ⟨hkeys, hent⟩ := wifiIfaceCfgParse_ok hparse
  have hperm := env.pairs_perm ifaces.entries
  have hids : ifaces.keys.Perm (idsOf env map).dedup :=
    (List.perm_ext_iff_of_nodup ifaces.keys_nodup (List.nodup_dedup _)).mpr fun wlanid => by
      rw [hkeys, List.mem_dedup]
  calc (sectionsOf sup (env.pairs ifaces.entries)).Perm (sectionsOf sup ifaces.entries) :=
        hperm.flatMap_right _
    _ = ifaces.entries.flatMap fun e => wantedOn sup map e.1 :=
        List.flatMap_congr fun e he => sections_eq (ifaceCfgParse_ok (hent e he)) (hwhole.hidden e he) (hnul e he)
    _ = ifaces.keys.flatMap (wantedOn sup map) := by
        rw [AList.keys, List.keys, List.flatMap_map]
    List.Perm _ ((idsOf env map).dedup.flatMap (wantedOn sup map)) := hids.flatMap_right _

/-! ## The condition -/

theorem getHwmode_eq {v mode : Bytes} (h : getHwmode v = some mode) (band : Band) :
    mode = bandMode band ↔ v ∈ protos band := by
  have hne : ascii "11g" ≠ ascii "11a" := by decide
  unfold getHwmode at h
  split at h
  · rename_i hv
    cases h
    rcases hv with rfl | rfl | rfl | rfl | rfl <;> cases band <;> decide
  · split at h
    · rename_i hg hv
      cases h
      rcases hv with rfl | rfl | rfl
      · cases band <;> decide
      · cases band <;> decide
      · exact absurd (.inr (.inr (.inr (.inr rfl)))) hg
    · cases h

theorem getPower_whole {v : Bytes} {power : LuaNum} (h : getPower v = some power) :
    (∃ i, power.toInteger = some i) ↔ upper v = ascii "AUTO" ∨ IsWhole v := by
  unfold getPower at h
  split at h
  · rename_i hv
    cases h
    exact iff_of_true ⟨23, rfl⟩ (.inl hv)
  · rename_i hv
    simp only [hv, false_or, IsWhole, h, Option.bind_some, Option.isSome_iff_exists]

/-- The numbers are whole if those of the settings are. -/
theorem whole_iff (hdevs : wifiDevCfgParse env sup map = .ok devs) (hifaces : wifiIfaceCfgParse env map = .ok ifaces) :
    Whole sup devs ifaces ↔
      (∀ band dev, sup.dev band = some dev → ∀ v, bandSetting map "c_power" band = some v →
        upper v = ascii "AUTO" ∨ IsWhole v) ∧
      ∀ wlanid ∈ idsOf env map, (∃ band dev, sup.dev band = some dev ∧ Selects map wlanid band) →
        ∀ v, settingOf map "c_whide" wlanid = some v → IsWhole v := by
  obtain ⟨hkeys, hent⟩ := wifiIfaceCfgParse_ok hifaces
  have hhidden : ∀ e ∈ ifaces.entries, ∀ v, settingOf map "c_whide" e.1 = some v →
      ((∃ i, e.2.hidden.toInteger = some i) ↔ IsWhole v) := by
    intro e he v hv
    have hh := (ifaceCfgParse_ok (hent e he)).hidden
    rw [hv, Option.bind_some] at hh
    simp only [IsWhole, hh, Option.bind_some, Option.isSome_iff_exists]
  constructor
  · intro h
    constructor
    · intro band dev hdev v hv
      obtain ⟨cfg, hcfg, hparse⟩ := wifiDevCfgParse_ok hdevs hdev
      obtain ⟨_, v', hv', hpower⟩ := devCfgParse_ok hparse
      obtain rfl := Option.some.inj (hv.symm.trans hv')
      exact (getPower_whole hpower).mp (h.power band dev hdev cfg hcfg)
    · intro wlanid hid hsel v hv
      obtain ⟨e, he, rfl⟩ := List.mem_map.mp ((hkeys wlanid).mpr hid)
      exact (hhidden e he v hv).mp (h.hidden e he ((mem_wifiDevs_ne (ifaceCfgParse_ok (hent e he))).mpr hsel))
  · rintro ⟨hpower, hhide⟩
    constructor
    · intro band dev hdev cfg hcfg
      obtain ⟨_, v, hv, hp⟩ := devCfgParse_ok (wifiDevCfgParse_entry hdevs hdev hcfg)
      exact (getPower_whole hp).mpr (hpower band dev hdev v hv)
    · intro e he hne
      have hentry := ifaceCfgParse_ok (hent e he)
      obtain ⟨v, hv, _⟩ := Option.bind_eq_some_iff.mp hentry.hidden
      have hid := (hkeys e.1).mp (List.mem_map_of_mem he)
      exact (hhidden e he v hv).mpr (hhide e.1 hid ((mem_wifiDevs_ne hentry).mp hne) v hv)

/-- No WLAN goes to a radio of a band that is not there. -/
theorem radiosOf_eq_nil (hifaces : wifiIfaceCfgParse env map = .ok ifaces) (h2 : sup.dev .b2g = none)
    (hband : ∃ band dev, sup.dev band = some dev) :
    radiosOf sup (env.pairs ifaces.entries) = [] ↔ ∀ wlanid ∈ idsOf env map, ¬ Selects map wlanid .b5g := by
  obtain ⟨hkeys, hent⟩ := wifiIfaceCfgParse_ok hifaces
  obtain ⟨d5, h5⟩ := Support.only_5g h2 hband
  have hone : ∀ e ∈ ifaces.entries, wifiDevs sup e.2.type ≠ [] ↔ Selects map e.1 .b5g := by
    intro e he
    rw [mem_wifiDevs_ne (ifaceCfgParse_ok (hent e he))]
    constructor
    · rintro ⟨band, dev, hdev, hsel⟩
      cases band with
      | b2g => rw [h2] at hdev; cases hdev
      | b5g => exact hsel
    · exact fun hsel => ⟨.b5g, d5, h5, hsel⟩
  rw [radiosOf, List.flatMap_eq_nil_iff]
  constructor
  · intro h wlanid hid hsel
    obtain ⟨e, he, rfl⟩ := List.mem_map.mp ((hkeys wlanid).mpr hid)
    exact (hone e he).mpr hsel (h e ((env.pairs_perm _).mem_iff.mpr he))
  · intro h e he
    have he := (env.pairs_perm _).mem_iff.mp he
    by_contra hne
    exact h e.1 ((hkeys e.1).mp (List.mem_map_of_mem he)) ((hone e he).mp hne)

/-! ## The strings -/

/-- A property of the strings of a WLAN is one of its settings. -/
theorem strings_iff {wlanid : Bytes} {cfg : IfaceCfg} (h : Entry map wlanid cfg) {P : Bytes → Prop}
    (hnone : P (ascii "none")) :
    (∀ kv ∈ stringOptions cfg, P kv.2) ↔ ∀ name ∈ wlanStrings, ∀ v, settingOf map name wlanid = some v → P v := by
  simp only [stringOptions, wlanStrings, List.forall_mem_cons, List.not_mem_nil, false_implies, implies_true, and_true,
    h.ssid, h.encryption, h.key, Option.some.injEq, forall_eq']
  refine and_congr_right fun _ => and_congr_right fun _ => ?_
  cases settingOf map "c_wpasswd" wlanid with
  | none => simpa using hnone
  | some v => simp

/-- The string of the section of a WLAN that is asked for. -/
theorem wanted_string (map : Config) {wlanid : Bytes} (dev : Dev) {name : String} (hname : name ∈ wlanStrings) {v : Bytes}
    (hv : settingOf map name wlanid = some v) : ∃ k, (wanted map wlanid dev).options k = stored v := by
  simp only [wlanStrings, List.mem_cons, List.not_mem_nil, or_false] at hname
  rcases hname with rfl | rfl | rfl
  · refine ⟨ascii "ssid", ?_⟩
    rw [← Option.bind_some v stored, ← hv]
    rfl
  · refine ⟨ascii "encryption", ?_⟩
    rw [← Option.bind_some v stored, ← hv]
    rfl
  · refine ⟨ascii "key", ?_⟩
    rw [← Option.getD_some (a := v) (b := ascii "none"), ← hv]
    rfl

/-- No value of a section that is made has a NUL. -/
theorem no_nul_sectionOf {cfg : IfaceCfg} {dev : Dev} {k v : Bytes} (h : (sectionOf cfg dev).options k = some v) :
    NUL ∉ v := by
  have hcases := assign_cases (fun _ => none) ((ifaceSettings dev cfg ((decimal cfg.hidden).getD [])).map fun kv =>
    (ascii kv.1.name, stored (kv.2.takeWhile (· ≠ NUL)))) k
  rcases hcases with ⟨hnone, _⟩ | hmem
  · exact nomatch hnone.symm.trans h
  · obtain ⟨kv, _, hkv⟩ := List.mem_map.mp hmem
    have hval : stored (kv.2.takeWhile (· ≠ NUL)) = some v := (Prod.mk.inj hkv).2.trans h
    rw [← stored_eq_some hval]
    exact fun hn => by simpa using List.mem_takeWhile_imp hn

end

end ApApps.Setconf

import ApApps.Setconf.Outcome

/- For which configurations the committed wireless file is what was asked for, whatever else
   the shell and uci do.

   A line that the shell does not read as a request may do anything. In `growing` it adds a
   section, and no request takes that away again (`size_le_executed`), so a commit as it was
   asked for has had all of its lines read (`asks_of_size`). `wlCfgCommit_iff` puts this and
   the file that is left against `Committed`. -/
namespace ApApps.Setconf
open Uci Shell Exec Assignments ApApps.Cfg

/-! ## Lines that are not read -/

/-- A section that nothing asked for. -/
def growing (s : Files) : Files := { s with staged := s.staged ++ [⟨none, devT, fun _ => none⟩] }

/-- How many sections of other types are staged. -/
def size (s : Files) : Nat := (others ifaceT s.staged).length

theorem size_growing (s : Files) : size (growing s) = size s + 1 := by
  have hne : devT ≠ ifaceT := by decide
  simp [size, growing, others, hne]

/-- No request deletes a section of another type. -/
theorem size_le_run (r : Request) (s : Files) : size s ≤ size (r.run s) := by
  unfold Request.run
  cases hcmd : r.cmd with
  | none => exact Nat.le_refl _
  | some c =>
    -- only interface sections are deleted, and no other section becomes one
    have hspares : c.Spares ifaceT := by
      have hne : devT ≠ ifaceT := by decide
      cases r with
      | add => cases hcmd; trivial
      | delete => cases hcmd; rfl
      | setType => cases hcmd; exact hne
      | commit => cases hcmd
      | set target v =>
        cases target with
        | iface => cases hcmd; trivial
        | radio => cases hcmd; trivial
    exact length_others_run hspares _

section Growing
variable {env : Env} {dir : Directory}

/-- What a line does where the other lines add a section. -/
theorem size_line (hsys : env.system = systemWith dir growing) (line : Bytes) (s : Files) :
    size s ≤ size (env.system (line.takeWhile (· ≠ NUL)) s) ∧
      (size (env.system (line.takeWhile (· ≠ NUL)) s) ≤ size s → ∃ r, Asks dir line r) := by
  by_cases hasks : ∃ r, Asks dir line r
  · obtain ⟨r, hr⟩ := hasks
    rw [hsys, systemWith_asked growing hr]
    exact ⟨size_le_run r s, fun _ => ⟨r, hr⟩⟩
  · have hother : env.system (line.takeWhile (· ≠ NUL)) s = growing s := by
      rw [hsys]
      exact dif_neg hasks
    rw [hother, size_growing]
    exact ⟨Nat.le_succ _, fun h => absurd h (Nat.not_succ_le_self _)⟩

theorem size_le_executed (hsys : env.system = systemWith dir growing) (lines : List Bytes) (s : Files) :
    size s ≤ size (executed env lines s) := by
  induction lines generalizing s with
  | nil => exact Nat.le_refl _
  | cons line lines ih => exact (size_line hsys line s).1.trans (ih _)

/-- **Every line has been read** if there are no more sections than before. -/
theorem asks_of_size (hsys : env.system = systemWith dir growing) {lines : List Bytes} {s : Files}
    (h : size (executed env lines s) ≤ size s) : ∀ line ∈ lines, ∃ r, Asks dir line r := by
  induction lines generalizing s with
  | nil => exact fun _ hline => absurd hline List.not_mem_nil
  | cons line lines ih =>
    obtain ⟨hle, hasks⟩ := size_line hsys line s
    have hrest := size_le_executed hsys lines (env.system (line.takeWhile (· ≠ NUL)) s)
    exact List.forall_mem_cons.mpr ⟨hasks (hrest.trans h), ih (h.trans hle)⟩

end Growing

section
variable {env : Env} {dir : Directory} {sup : Support} {map : Config} {devs : Dev → Option DevCfg} {ifaces : Ifaces}

theorem mem_commitLines_channel {band : Band} {dev : Dev} {cfg : DevCfg} (hdev : sup.dev band = some dev)
    (hcfg : devs dev = some cfg) (file : Pkg) :
    setRadioOption dev .channel cfg.channel ∈ commitLines env sup devs ifaces file := by
  have hcmd : setRadioOption dev .channel cfg.channel ∈ devCmds dev cfg ((decimal cfg.txpower).getD []) :=
    List.mem_cons_of_mem _ (List.mem_map.mpr ⟨(.channel, cfg.channel), by simp [radioSettings], rfl⟩)
  have hline : setRadioOption dev .channel cfg.channel ∈ radioLines env sup devs band := by
    rw [radioLines, getWifiDev_eq hdev, Option.bind_some, hcfg, Option.map_some, Option.getD_some,
      (env.pairs_perm _).mem_iff]
    exact hcmd
  have hband : band ∈ bandArrSupport env sup := mem_bandArrSupport.mpr ⟨dev, hdev⟩
  have hradios := List.mem_flatMap.mpr ⟨band, hband, hline⟩
  simp only [commitLines, List.mem_append]
  exact .inl (.inl (.inl (.inr hradios)))

theorem mem_commitLines_string {e : (_ : Bytes) × IfaceCfg} (he : e ∈ ifaces.entries) {dev : Dev}
    (hdev : dev ∈ wifiDevs sup e.2.type) {kv : String × Bytes} (hkv : kv ∈ stringOptions e.2) (file : Pkg) :
    setIfaceOption kv.1 kv.2 ∈ commitLines env sup devs ifaces file := by
  have hcmd : setIfaceOption kv.1 kv.2 ∈ ifaceCmds dev e.2 ((decimal e.2.hidden).getD []) := by
    simp only [stringOptions, List.mem_cons, List.not_mem_nil, or_false] at hkv
    refine List.mem_cons_of_mem _ ?_
    rcases hkv with rfl | rfl | rfl
    · exact List.mem_map.mpr ⟨(.ssid, e.2.ssid), by simp [ifaceSettings], rfl⟩
    · exact List.mem_map.mpr ⟨(.encryption, e.2.encryption), by simp [ifaceSettings], rfl⟩
    · exact List.mem_map.mpr ⟨(.key, e.2.key), by simp [ifaceSettings], rfl⟩
  have hline : setIfaceOption kv.1 kv.2 ∈ ifacesLines sup (env.pairs ifaces.entries) :=
    List.mem_flatMap.mpr ⟨e, (env.pairs_perm _).mem_iff.mpr he,
      List.mem_flatMap.mpr ⟨dev, hdev, List.mem_append_left _ hcmd⟩⟩
  simp only [commitLines, List.mem_append]
  exact .inl (.inr hline)

/-- No string of a WLAN has a single quote. -/
def NoQuote (map : Config) (ids : List Bytes) : Prop :=
  ∀ wlanid ∈ ids, ∀ name ∈ wlanStrings, ∀ v, settingOf map name wlanid = some v → ch '\'' ∉ v

/-- What is known of the entries. -/
theorem entry_of_mem (hifaces : wifiIfaceCfgParse env map = .ok ifaces) {e : (_ : Bytes) × IfaceCfg}
    (he : e ∈ ifaces.entries) : Entry map e.1 e.2 ∧ e.1 ∈ idsOf env map := by
  obtain ⟨hkeys, hent⟩ := wifiIfaceCfgParse_ok hifaces
  exact ⟨ifaceCfgParse_ok (hent e he), (hkeys e.1).mp (List.mem_map_of_mem he)⟩

/-- The strings of the entries are those of the settings. -/
theorem quotes_of_entry (hifaces : wifiIfaceCfgParse env map = .ok ifaces) (hquote : NoQuote map (idsOf env map))
    {e : (_ : Bytes) × IfaceCfg} (he : e ∈ ifaces.entries) : ∀ kv ∈ stringOptions e.2, ch '\'' ∉ kv.2 := by
  obtain ⟨hentry, hid⟩ := entry_of_mem hifaces he
  exact (strings_iff (P := (ch '\'' ∉ ·)) hentry (by decide)).mpr (hquote e.1 hid)

theorem strings_of_legible (hifaces : wifiIfaceCfgParse env map = .ok ifaces)
    (hlegible : Legible dir sup map (idsOf env map)) :
    ∀ e ∈ ifaces.entries, wifiDevs sup e.2.type ≠ [] → ∀ kv ∈ stringOptions e.2, NUL ∉ kv.2 := by
  intro e he hne
  obtain ⟨hentry, hid⟩ := entry_of_mem hifaces he
  exact (strings_iff (P := (NUL ∉ ·)) hentry (by decide)).mpr
    (hlegible.strings e.1 hid ((mem_wifiDevs_ne hentry).mp hne))

/-- The shell reads every line of a legible configuration. -/
theorem readable_of_legible (hdir : NoNames dir) (hdevs : wifiDevCfgParse env sup map = .ok devs)
    (hifaces : wifiIfaceCfgParse env map = .ok ifaces) (hquote : NoQuote map (idsOf env map))
    (hlegible : Legible dir sup map (idsOf env map)) : Readable dir sup devs ifaces := by
  constructor
  · intro band dev hdev cfg hcfg
    obtain ⟨⟨v, hv, hchan⟩, hcountry, hmode, hht⟩ := devCfgParse_strings (wifiDevCfgParse_entry hdevs hdev hcfg)
    refine ⟨hcountry, hmode, hht, ?_⟩
    rw [hchan]
    exact hlegible.channel band dev hdev v hv
  · intro e he hne kv hkv
    have hq := quotes_of_entry hifaces hquote he kv hkv
    have hnul := strings_of_legible hifaces hlegible e he hne kv hkv
    have hasks := (set_literally_of_front hdir.unmatched (front_of_mem hkv) kv.2).mpr ⟨hq, hnul⟩
    exact ⟨hq, by rw [hasks]; exact Option.some_ne_none _⟩

/-- A commit as it was asked for has had its lines read, where the other lines add a section. -/
theorem readable_of_committed (hsys : env.system = systemWith dir growing) (hdir : NoNames dir)
    (hdevs : wifiDevCfgParse env sup map = .ok devs) (hifaces : wifiIfaceCfgParse env map = .ok ifaces)
    (hquote : NoQuote map (idsOf env map)) {u u' : Wl} (hclean : u.staged = u.file)
    (hrun : wlCfgCommit env sup (devs, ifaces) u = .ok () u')
    (hcom : Committed sup map (idsOf env map) u.file u'.file u'.userdata) : Readable dir sup devs ifaces := by
  have hdoc : Documented dir env.system := hsys ▸ documented_systemWith dir growing
  have hfiles : u'.toFiles = executed env (commitLines env sup devs ifaces u.file) u.toFiles := by
    rw [wlCfgCommit_eq env (wlCfgCommit_whole hrun) u] at hrun
    cases hrun
    rfl
  -- the last line writes what is staged to the file
  have hlast : u'.staged = u'.file := by
    rw [hfiles, commitLines, executed_append, executed_commit hdoc]
  -- there are as many other sections as before
  have hsize : size (executed env (commitLines env sup devs ifaces u.file) u.toFiles) ≤ size u.toFiles := by
    obtain ⟨f, hothers, _⟩ := hcom.others
    rw [← hfiles, size, size, hlast, hothers, List.length_map, hclean]
  have hasks := asks_of_size hsys hsize
  constructor
  · intro band dev hdev cfg hcfg
    obtain ⟨_, hcountry, hmode, hht⟩ := devCfgParse_strings (wifiDevCfgParse_entry hdevs hdev hcfg)
    -- the line of the channel is one of those that have been read
    obtain ⟨r, hr⟩ := hasks _ (mem_commitLines_channel hdev hcfg u.file)
    obtain ⟨w, rfl⟩ := asks_of_setRadio hdir hr
    exact ⟨hcountry, hmode, hht, w, hr⟩
  · intro e he hne kv hkv
    obtain ⟨dev, hdev⟩ := List.exists_mem_of_ne_nil _ hne
    obtain ⟨r, hr⟩ := hasks _ (mem_commitLines_string he hdev hkv u.file)
    exact ⟨quotes_of_entry hifaces hquote he kv hkv, by rw [hr]; exact Option.some_ne_none _⟩

/-- The counters are those of the sections. -/
theorem counts_settings (hifaces : wifiIfaceCfgParse env map = .ok ifaces) (hband : ∃ band dev, sup.dev band = some dev) :
    (radiosOf sup (env.pairs ifaces.entries)).foldl (bump sup) (0, 0) =
        (onRadio sup .b2g (sectionsOf sup (env.pairs ifaces.entries)),
          onRadio sup .b5g (sectionsOf sup (env.pairs ifaces.entries))) ↔
      (∃ dev, sup.dev .b2g = some dev) ∨ ∀ wlanid ∈ idsOf env map, ¬ Selects map wlanid .b5g := by
  rw [counts_iff hband]
  cases h2 : sup.dev .b2g with
  | some d => simp
  | none => rw [radiosOf_eq_nil hifaces h2 hband]

/-- The radios of the file that is left have the modes of their bands if the protocols are theirs. -/
theorem modes_iff (hdevs : wifiDevCfgParse env sup map = .ok devs) {file : Pkg}
    (hex : ∀ band dev, sup.dev band = some dev → hasNamed dev.name (others ifaceT file))
    {f : Section Bytes Bytes Bytes Bytes → Section Bytes Bytes Bytes Bytes}
    (hf : Tuned sup devs (bandArrSupport env sup) f) {es : List ((_ : Bytes) × IfaceCfg)} {left : Pkg}
    (hleft : left = (others ifaceT file).map f ++ sectionsOf sup es) :
    (∀ band dev, sup.dev band = some dev → (∃ s ∈ left, s.name = some dev.name) ∧
        ∀ s ∈ left, s.name = some dev.name → s.type = devT ∧ s.options (ascii "hwmode") = some (bandMode band)) ↔
      ∀ band dev, sup.dev band = some dev → ∀ v, bandSetting map "c_proto" band = some v → v ∈ protos band := by
  have hmode : ∀ band dev, sup.dev band = some dev → ∃ cfg v, devs dev = some cfg ∧
      bandSetting map "c_proto" band = some v ∧ (cfg.hwmode = bandMode band ↔ v ∈ protos band) := by
    intro band dev hdev
    obtain ⟨cfg, hcfg, hparse⟩ := wifiDevCfgParse_ok hdevs hdev
    obtain ⟨⟨v, hv, hmode⟩, _⟩ := devCfgParse_ok hparse
    exact ⟨cfg, v, hcfg, hv, getHwmode_eq hmode band⟩
  constructor
  · intro h band dev hdev v hv
    obtain ⟨cfg, v', hcfg, hv', heq⟩ := hmode band dev hdev
    obtain rfl := Option.some.inj (hv.symm.trans hv')
    -- the mode of the radio in the file is that of its entry
    obtain ⟨s, hs, hname⟩ := hex band dev hdev
    have hmem : f s ∈ left := by
      rw [hleft]
      exact List.mem_append_left _ (List.mem_map_of_mem hs)
    have hgot := hf.radio band (mem_bandArrSupport.mpr ⟨dev, hdev⟩) dev cfg s hdev hcfg hname
    have hasked := (h band dev hdev).2 (f s) hmem ((hf.name s).trans hname)
    exact heq.mp (Option.some.inj (hgot.2.symm.trans hasked.2))
  · intro h band dev hdev
    rw [hleft]
    constructor
    · obtain ⟨s, hs, hname⟩ := hex band dev hdev
      exact ⟨f s, List.mem_append_left _ (List.mem_map_of_mem hs), (hf.name s).trans hname⟩
    · intro x hx hname
      rcases List.mem_append.mp hx with hx | hx
      · obtain ⟨s, _, rfl⟩ := List.mem_map.mp hx
        obtain ⟨cfg, v, hcfg, hv, heq⟩ := hmode band dev hdev
        rw [← heq.mpr (h band dev hdev v hv)]
        exact hf.radio band (mem_bandArrSupport.mpr ⟨dev, hdev⟩) dev cfg s hdev hcfg ((hf.name s).symm.trans hname)
      · -- a new section has no name
        rw [(type_of_mem_sectionsOf hx).2] at hname
        cases hname

/-- What a suitable configuration leaves. -/
theorem committed_of_suits (hdoc : Documented dir env.system) (hdir : NoNames dir)
    (hdevs : wifiDevCfgParse env sup map = .ok devs) (hifaces : wifiIfaceCfgParse env map = .ok ifaces)
    (hquote : NoQuote map (idsOf env map)) (hband : ∃ band dev, sup.dev band = some dev) {u : Wl}
    (hclean : u.staged = u.file)
    (hex : ∀ band dev, sup.dev band = some dev → hasNamed dev.name (others ifaceT u.file))
    (hsuits : Suits sup map (idsOf env map)) (hlegible : Legible dir sup map (idsOf env map)) :
    ∃ u', wlCfgCommit env sup (devs, ifaces) u = .ok () u' ∧
      Committed sup map (idsOf env map) u.file u'.file u'.userdata := by
  have hwhole := (whole_iff hdevs hifaces).mpr ⟨hsuits.power, hsuits.hidden⟩
  have hread := readable_of_legible hdir hdevs hifaces hquote hlegible
  obtain ⟨f, u', hf, hrun, hfile, hdata⟩ := wlCfgCommit_ok hdoc hdir hwhole hread (wifiDevCfgParse_some hdevs) hclean hex
  refine ⟨u', hrun, ?_⟩
  constructor
  · exact (modes_iff hdevs hex hf hfile).mpr hsuits.proto
  · rw [hfile, ofType_left hf]
    exact sectionsOf_perm hifaces hwhole (strings_of_legible hifaces hlegible)
  · refine ⟨f, ?_, fun s => ⟨hf.name s, fun hs => hf.other s fun b _ d hd => hs b d hd⟩⟩
    rw [hfile, others_left hf]
  · rw [hdata, hfile, ofType_left hf, (counts_settings hifaces hband).mpr hsuits.counts]

/-- What is known of a configuration whose commit is as it was asked for. -/
theorem suits_of_committed (hdoc : Documented dir env.system) (hdir : NoNames dir)
    (hdevs : wifiDevCfgParse env sup map = .ok devs) (hifaces : wifiIfaceCfgParse env map = .ok ifaces)
    (hread : Readable dir sup devs ifaces) (hband : ∃ band dev, sup.dev band = some dev) {u u' : Wl}
    (hclean : u.staged = u.file)
    (hex : ∀ band dev, sup.dev band = some dev → hasNamed dev.name (others ifaceT u.file))
    (hrun : wlCfgCommit env sup (devs, ifaces) u = .ok () u')
    (hcom : Committed sup map (idsOf env map) u.file u'.file u'.userdata) :
    Suits sup map (idsOf env map) ∧ Legible dir sup map (idsOf env map) := by
  have hwhole := wlCfgCommit_whole hrun
  obtain ⟨f, u1, hf, hrun1, hfile, hdata⟩ := wlCfgCommit_ok hdoc hdir hwhole hread (wifiDevCfgParse_some hdevs) hclean hex
  rw [hrun] at hrun1
  cases hrun1
  obtain ⟨hpower, hhidden⟩ := (whole_iff hdevs hifaces).mp hwhole
  refine ⟨⟨(modes_iff hdevs hex hf hfile).mp hcom.radios, hpower, hhidden, ?_⟩, fun band dev hdev v hv => ?_, ?_⟩
  · have hcounts := hcom.counts
    rw [hdata, hfile, ofType_left hf] at hcounts
    exact (counts_settings hifaces hband).mp (Option.some.inj hcounts)
  · obtain ⟨cfg, hcfg, hparse⟩ := wifiDevCfgParse_ok hdevs hdev
    obtain ⟨⟨v', hv', hchan⟩, _⟩ := devCfgParse_strings hparse
    obtain rfl := Option.some.inj (hv.symm.trans hv')
    rw [← hchan]
    exact (hread.radios band dev hdev cfg hcfg).channel
  · -- a string that is asked for is in a section, and no section has a NUL
    rintro wlanid hid ⟨band, dev, hdev, hsel⟩ name hname v hv hn
    obtain ⟨k, hk⟩ := wanted_string map dev hname hv
    have hwanted : wanted map wlanid dev ∈ (idsOf env map).dedup.flatMap (wantedOn sup map) := by
      refine List.mem_flatMap.mpr ⟨wlanid, List.mem_dedup.mpr hid, List.mem_filterMap.mpr ⟨band, ?_, ?_⟩⟩
      · cases band <;> decide
      · rw [if_pos hsel, hdev, Option.map_some]
    have hmem := hcom.ifaces.mem_iff.mpr hwanted
    rw [hfile, ofType_left hf] at hmem
    obtain ⟨e, _, hmem⟩ := List.mem_flatMap.mp hmem
    obtain ⟨dev', _, hsection⟩ := List.mem_map.mp hmem
    rw [stored_of_ne (List.ne_nil_of_mem hn), ← hsection] at hk
    exact no_nul_sectionOf hk hn

/-- The same surroundings, with another shell and another uci. -/
def Env.withSystem (env : Env) (system : Bytes → Files → Files) : Env := { env with system }

/-- The radios of the supported bands are in the file. -/
def HasRadios (sup : Support) (file : Pkg) : Prop :=
  ∀ band dev, sup.dev band = some dev → ∃ s ∈ file, s.name = some dev.name ∧ s.type ≠ ifaceT

theorem HasRadios.hasNamed {file : Pkg} (h : HasRadios sup file) :
    ∀ band dev, sup.dev band = some dev → hasNamed dev.name (others ifaceT file) := by
  intro band dev hdev
  obtain ⟨s, hs, hname, htype⟩ := h band dev hdev
  exact ⟨s, List.mem_filter.mpr ⟨hs, by simpa using htype⟩, hname⟩

/-- `wl_cfg_commit` returns, and the committed file is what the configuration asks for. -/
def CommitsAsked (env : Env) (sup : Support) (map : Config) (cfg : (Dev → Option DevCfg) × Ifaces) (u : Wl) : Prop :=
  ∃ u', wlCfgCommit env sup cfg u = .ok () u' ∧ Committed sup map (idsOf env map) u.file u'.file u'.userdata

/-- **The committed file is what the configuration asks for** if and only if the configuration suits
the access point: with every shell and uci that do what is documented, if the configuration is
legible, and not with all of them otherwise. The radios of the supported bands have been found in
the file. -/
theorem wlCfgCommit_iff {cfg : (Dev → Option DevCfg) × Ifaces} (hparse : wlCfgParse env sup map = .ok cfg)
    (hquote : NoQuote map (idsOf env map)) (hdir : NoNames dir) (hband : ∃ band dev, sup.dev band = some dev) {u : Wl}
    (hclean : u.staged = u.file) (hradio : HasRadios sup u.file) :
    ((∀ system, Documented dir system → CommitsAsked (env.withSystem system) sup map cfg u) ↔
      Suits sup map (idsOf env map) ∧ Legible dir sup map (idsOf env map)) ∧
    (Legible dir sup map (idsOf env map) → ∀ system, Documented dir system →
      (CommitsAsked (env.withSystem system) sup map cfg u ↔ Suits sup map (idsOf env map))) := by
  obtain ⟨hdevs, hifaces⟩ := wlCfgParse_ok hparse
  have hleft : ∀ system, Documented dir (env.withSystem system).system → Suits sup map (idsOf env map) →
      Legible dir sup map (idsOf env map) → CommitsAsked (env.withSystem system) sup map cfg u :=
    fun system hdoc hsuits hlegible =>
      committed_of_suits hdoc hdir hdevs hifaces hquote hband hclean hradio.hasNamed hsuits hlegible
  have hright : ∀ system, Documented dir (env.withSystem system).system → Readable dir sup cfg.1 cfg.2 →
      CommitsAsked (env.withSystem system) sup map cfg u →
        Suits sup map (idsOf env map) ∧ Legible dir sup map (idsOf env map) := by
    rintro system hdoc hread ⟨u', hrun, hcom⟩
    have hboth := suits_of_committed hdoc hdir hdevs hifaces hread hband hclean hradio.hasNamed hrun hcom
    exact hboth
  refine ⟨⟨fun h => ?_, fun h system hdoc => hleft system hdoc h.1 h.2⟩, fun hlegible system hdoc => ?_⟩
  · -- one of the systems adds a section at every line that is not read
    have hdoc := documented_systemWith dir growing
    obtain ⟨u', hrun, hcom⟩ := h (systemWith dir growing) hdoc
    have hsys : (env.withSystem (systemWith dir growing)).system = systemWith dir growing := rfl
    have hread := readable_of_committed hsys hdir hdevs hifaces hquote hclean hrun hcom
    exact hright _ hdoc hread ⟨u', hrun, hcom⟩
  · have hread := readable_of_legible hdir hdevs hifaces hquote hlegible
    exact ⟨fun h => (hright system hdoc hread h).1, fun hsuits => hleft system hdoc hsuits hlegible⟩

end

/-! ## Two access points -/

/-- The count of the lines is that of the sections; a system is put in by `withSystem`. -/
def Env.lg9563 : Env where
  toEnv := .listed none
  hwVersion := some (ascii "LG9563")
  lines pkg := (ofType ifaceT pkg).length
  lines_ge _ := Nat.le_refl _
  system _ s := s

/-- A configuration with one WLAN that is on both bands; `proto5g` is the protocol of 5g. -/
def oneWlan (proto5g : String) : Config :=
  (([("g_country", "China"), ("a#2g#bswitch", "1"), ("a#2g#proto", "bgn"), ("a#2g#bandwidth", "20"),
    ("a#2g#chanid", "auto"), ("a#2g#power", "auto"), ("a#5g#bswitch", "1"), ("a#5g#proto", proto5g),
    ("a#5g#bandwidth", "40+"), ("a#5g#chanid", "36"), ("a#5g#power", "15"), ("a#wlanids", "[\"00001\"]"),
    ("w#00001#wband", "all"), ("w#00001#wstate", "1"), ("w#00001#whide", "0"), ("w#00001#wssid", "lan"),
    ("w#00001#wencry", "psk2"), ("w#00001#wpasswd", "password")] : List (String × String)).map
      fun kv => (⟨ascii kv.1, ascii kv.2⟩ : (_ : Bytes) × Bytes)).toAList

def twoRadios : Support :=
  doBandDevMap (ascii "LG9563") (some (ascii "platform/qca956x_wmac")) (some (ascii "pci0000:00/0000:00:00.0"))

def onlyRadio1 : Support := doBandDevMap (ascii "LG9563") none (some (ascii "pci0000:00/0000:00:00.0"))

/-- A wireless file with both radios, and one interface. -/
def wirelessFile : Wl :=
  let pkg : Pkg := [⟨some (ascii "radio0"), devT, fun _ => none⟩, ⟨none, ifaceT, fun _ => none⟩,
    ⟨some (ascii "radio1"), devT, fun _ => none⟩]
  ⟨⟨pkg, pkg⟩, none⟩

theorem exists_of_accepted {x : Except LuaError ((Dev → Option DevCfg) × Ifaces)} (h : x.toBool = true) :
    ∃ cfg, x = .ok cfg := by
  cases x with
  | error e => cases h
  | ok cfg => exact ⟨cfg, rfl⟩

theorem hasRadios_wirelessFile (sup : Support) : HasRadios sup wirelessFile.file := by
  intro _ dev _
  cases dev with
  | radio0 => exact ⟨_, List.mem_cons_self, rfl, by decide⟩
  | radio1 => exact ⟨_, List.mem_cons_of_mem _ (List.mem_cons_of_mem _ List.mem_cons_self), rfl, by decide⟩

/-- The channels and the strings are bare. -/
def isPlainConfig (map : Config) (ids : List Bytes) : Bool :=
  let isBare (v : Bytes) := v.all fun c => isPlain c && c ≠ NUL
  (bands.all fun band => (bandSetting map "c_chanid" band).all fun v => isBare (getChannel v)) &&
    ids.all fun wlanid => wlanStrings.all fun name => (settingOf map name wlanid).all isBare

theorem legible_of_plain {dir : Directory} (hdir : NoNames dir) (sup : Support) {map : Config} {ids : List Bytes}
    (h : isPlainConfig map ids = true) : Legible dir sup map ids ∧ NoQuote map ids := by
  obtain ⟨hchan, hstrings⟩ := Bool.and_eq_true_iff.mp h
  have hbare : ∀ wlanid ∈ ids, ∀ name ∈ wlanStrings, ∀ v, settingOf map name wlanid = some v → Bare v := by
    intro wlanid hid name hname v hv
    have hall := List.all_eq_true.mp (List.all_eq_true.mp hstrings wlanid hid) name hname
    rw [hv] at hall
    exact bare_of_all hall
  refine ⟨⟨fun band dev _ v hv => ?_, ?_⟩, ?_⟩
  · have hall := List.all_eq_true.mp hchan band (by cases band <;> decide)
    rw [hv] at hall
    exact ⟨_, asks_setRadio hdir dev .channel (bare_of_all hall)⟩
  · exact fun wlanid hid _ name hname v hv => (hbare wlanid hid name hname v hv).no_nul
  · exact fun wlanid hid name hname v hv => (hbare wlanid hid name hname v hv).no_quote

/-- With the protocol `an` the two radios and the sections of the WLAN are as asked for. -/
theorem wlCfgCommit_iff_an : ∃ cfg dir system, wlCfgParse .lg9563 twoRadios (oneWlan "an") = .ok cfg ∧
    Documented dir system ∧
      CommitsAsked (Env.lg9563.withSystem system) twoRadios (oneWlan "an") cfg wirelessFile := by
  obtain ⟨cfg, hparse⟩ : ∃ cfg, wlCfgParse .lg9563 twoRadios (oneWlan "an") = .ok cfg :=
    exists_of_accepted (by decide +kernel)
  have hids : idsOf .lg9563 (oneWlan "an") = [ascii "00001"] := by decide +kernel
  have hproto : ∀ band, (bandSetting (oneWlan "an") "c_proto" band).all (· ∈ protos band) = true := by
    intro band
    cases band <;> decide +kernel
  have hpower : ∀ band, (bandSetting (oneWlan "an") "c_power" band).all
      (fun v => upper v = ascii "AUTO" ∨ ((tonumber v).bind LuaNum.toInteger).isSome = true) = true := by
    intro band
    cases band <;> decide +kernel
  have hhide : (settingOf (oneWlan "an") "c_whide" (ascii "00001")).all
      (fun v => ((tonumber v).bind LuaNum.toInteger).isSome) = true := by decide +kernel
  have hsuits : Suits twoRadios (oneWlan "an") (idsOf .lg9563 (oneWlan "an")) := by
    refine ⟨fun band dev _ v hv => ?_, fun band dev _ v hv => ?_, fun wlanid hid _ v hv => ?_,
      .inl ⟨.radio0, by decide +kernel⟩⟩
    · have h := hproto band
      rw [hv] at h
      simpa using h
    · have h := hpower band
      rw [hv] at h
      simpa [IsWhole] using h
    · rw [hids] at hid
      obtain rfl := List.mem_singleton.mp hid
      rw [hv] at hhide
      exact hhide
  have hplain : isPlainConfig (oneWlan "an") (idsOf .lg9563 (oneWlan "an")) = true := by decide +kernel
  have hdir : NoNames ⟨fun _ => []⟩ := fun _ _ => rfl
  obtain ⟨hlegible, hquote⟩ := legible_of_plain hdir twoRadios hplain
  have hiff := (wlCfgCommit_iff hparse hquote hdir ⟨.b2g, .radio0, by decide +kernel⟩ rfl
    (hasRadios_wirelessFile _)).1
  have hdoc := documented_systemWith ⟨fun _ => []⟩ id
  exact ⟨cfg, _, _, hparse, hdoc, hiff.mpr ⟨hsuits, hlegible⟩ _ hdoc⟩

/-- With the protocol `n` the 5g radio gets the mode of the other band, whatever else the shell and
uci do. -/
theorem commit_5g_n : ∃ cfg, wlCfgParse .lg9563 twoRadios (oneWlan "n") = .ok cfg ∧
    ∀ dir system, NoNames dir → Documented dir system →
      ¬ CommitsAsked (Env.lg9563.withSystem system) twoRadios (oneWlan "n") cfg wirelessFile := by
  obtain ⟨cfg, hparse⟩ : ∃ cfg, wlCfgParse .lg9563 twoRadios (oneWlan "n") = .ok cfg :=
    exists_of_accepted (by decide +kernel)
  have hplain : isPlainConfig (oneWlan "n") (idsOf .lg9563 (oneWlan "n")) = true := by decide +kernel
  have hproto : bandSetting (oneWlan "n") "c_proto" .b5g = some (ascii "n") := by decide +kernel
  refine ⟨cfg, hparse, ?_⟩
  rintro dir system hdir hdoc ⟨u', hrun, hcom⟩
  obtain ⟨hdevs, hifaces⟩ := wlCfgParse_ok hparse
  obtain ⟨hlegible, hquote⟩ := legible_of_plain hdir twoRadios hplain
  have hread := readable_of_legible hdir hdevs hifaces hquote hlegible
  have hdoc : Documented dir (Env.lg9563.withSystem system).system := hdoc
  obtain ⟨hsuits, _⟩ := suits_of_committed hdoc hdir hdevs hifaces hread ⟨.b2g, .radio0, by decide +kernel⟩ rfl
    (hasRadios_wirelessFile _).hasNamed hrun hcom
  exact absurd (hsuits.proto .b5g .radio1 (by decide +kernel) _ hproto) (by decide)

-- without a 2g radio a section on the 5g radio is counted in `cnt_2g`
example : bump onlyRadio1 (0, 0) .radio1 = (1, 0) := by decide +kernel

-- a channel may be a command of its own
example : osExecute ⟨fun _ => []⟩ (setRadioOption .radio1 .channel (ascii "36;uci add wireless wifi-iface")) = none := by
  decide +kernel

end ApApps.Setconf

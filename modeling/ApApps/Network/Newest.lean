import ApApps.Network.Main

/- The network settings that are left.

   `newest_settings` is about every run: once the coroutine of a check has started, no
   command of an earlier check is executed; and if the newest configuration is static,
   its settings are the last that have been carried out, and the address has not been lost
   before that check, provided that no static configuration comes back after dhcp or after
   a loss (`Fits`). Without that it is taken for unchanged (`settings_missed`). -/
namespace ApApps.Network
open Exec ApApps.Cfg ApApps.Compare

/-! ## The log -/

/-- The newest check whose coroutine has started, and what it read. -/
def lastStarted (log : List Out) : Option (Nat × Config) :=
  log.findSome? fun out => match out with
    | .started id map => some (id, map)
    | .executed .. => none
    | .lost => none

/-- The last command. -/
def lastExecuted (log : List Out) : Option Bytes :=
  log.findSome? fun out => match out with
    | .started .. => none
    | .executed _ cmd => some cmd
    | .lost => none

/-- The address has been lost since the last command. -/
def lostSince : List Out → Bool
  | [] => false
  | .executed .. :: _ => false
  | .lost :: _ => true
  | .started .. :: log => lostSince log

/-- The address had been lost since the last command when the newest coroutine started, and
none has been executed since. -/
def undone : List Out → Bool
  | [] => false
  | .executed .. :: _ => false
  | .lost :: log => undone log
  | .started .. :: log => lostSince log

/-- The number of the newest check whose coroutine has started. -/
def startedId (log : List Out) : Nat := ((lastStarted log).map Prod.fst).getD 0

@[simp] theorem lastStarted_started (id : Nat) (map : Config) (log : List Out) :
    lastStarted (.started id map :: log) = some (id, map) := rfl

@[simp] theorem startedId_started (id : Nat) (map : Config) (log : List Out) :
    startedId (.started id map :: log) = id := rfl

/-- After a coroutine has started, no command of an earlier check is executed. -/
def Ordered (log : List Out) : Prop :=
  log.Pairwise fun later earlier => ∀ k map id cmd, earlier = .started k map → later = .executed id cmd → k ≤ id

/-! ## Configurations and commands -/

def IsStatic (map : Config) : Prop := map.lookup (ascii "a#distr") ≠ some (ascii "dhcp")

/-- A command of `start_dhcpc`. -/
def IsDhcpc (cmd : Bytes) : Prop := cmd = startCmd ∨ cmd = keepCmd

instance (map : Config) : Decidable (IsStatic map) := inferInstanceAs (Decidable (_ ≠ _))

instance (cmd : Bytes) : Decidable (IsDhcpc cmd) := inferInstanceAs (Decidable (_ ∨ _))

/-- A command of `set_static` with the address, the mask, the gateway and the name servers of `map`. -/
def Applies (map : Config) (cmd : Bytes) : Prop :=
  ∃ dns, dns.Perm (parseDns (setting map "a#dns")) ∧ cmd = staticCmd map dns

/-- The settings of `map` are the last that have been carried out, and were not gone when the
newest coroutine started. -/
def CarriedOut (log : List Out) (map : Config) : Prop :=
  (∃ cmd, lastExecuted log = some cmd ∧ Applies map cmd) ∧ undone log = false

/-- The settings are carried out, if the newest configuration is static and its coroutine has
started. -/
def Settled (s : Nw) : Prop :=
  ∀ map, lastStarted s.log = some (s.checkId, map) → IsStatic map → CarriedOut s.log map

/-- When a static configuration is read that equals the one applied last, no `udhcpc` has been run
since and the address has not been lost; and no name server has the name of a key. -/
def Fits (env : Env) (s : Nw) : Event → Prop
  | .start file resolv _ => ∀ map ∈ getParam env file, s.ready ≠ [] → IsStatic map →
      if differs map s.lastStaticMap then ascii "a#ip" ∉ currentDns resolv
      else (∀ cmd ∈ lastExecuted s.log, ¬ IsDhcpc cmd) ∧ lostSince s.log = false
  | _ => True

instance (env : Env) (s : Nw) (ev : Event) : Decidable (Fits env s ev) := by
  cases ev <;> unfold Fits <;> infer_instance

theorem staticCmd_ne {map : Config} {dns : List Bytes} : ¬ IsDhcpc (staticCmd map dns) := by
  have hfirst : ∃ rest, staticCmd map dns = ascii "killall udhcpc" ++ (ascii "\n" ++ rest) := ⟨_, rfl⟩
  obtain ⟨rest, hrest⟩ := hfirst
  rw [hrest]
  -- the character after the first command is another one
  have hstart : (ascii "killall udhcpc" ++ (ascii "\n" ++ rest))[14]? = some 10 := rfl
  rintro (h | h) <;> rw [h] at hstart <;> revert hstart <;> decide

theorem setStatic_applies {env : Env} {map : Config} {omap : List Bytes} (h : ascii "a#ip" ∉ omap) :
    Applies map (setStatic env map omap) := by
  refine ⟨env.pairs (parseDns (setting map "a#dns")), env.pairs_perm _, ?_⟩
  rw [setStatic, if_neg h]

theorem lookup_of_not_differs {map last : Config} (h : differs map last = false) {k v : Bytes}
    (hk : map.lookup k = some v) : last.lookup k = some v := by
  rw [differs, List.any_eq_false] at h
  have hmem := h ⟨k, v⟩ (AList.mem_lookup_iff.mp hk)
  simpa using hmem

/-- The settings that `get_param` has asked for. -/
theorem pick_lookup {cfg map : Config} {ks : List String} (h : pick cfg ks = some map) :
    ∀ k ∈ ks, ∃ v, map.lookup (key k) = some v := by
  induction ks generalizing map with
  | nil => simp
  | cons k0 ks ih =>
    rw [pick] at h
    cases hv : cfg.lookup (key k0) with
    | none => simp [hv] at h
    | some v =>
      simp only [hv, Option.map_eq_some_iff] at h
      obtain ⟨m, hm, rfl⟩ := h
      intro k hk
      by_cases heq : key k = key k0
      · exact ⟨v, by rw [heq, AList.lookup_insert]⟩
      · rcases List.mem_cons.mp hk with rfl | hk
        · exact absurd rfl heq
        · obtain ⟨w, hw⟩ := ih hm k hk
          exact ⟨w, by rw [AList.lookup_insert_ne heq, hw]⟩

theorem not_isStatic_default : ¬ IsStatic defaultCfg := by
  rw [IsStatic, defaultCfg, AList.lookup_insert]
  exact not_not.mpr rfl

/-- A static configuration has all the settings. -/
theorem getParam_full {env : Env} {file : Option Bytes} {map : Config} (h : getParam env file = some map)
    (hs : IsStatic map) : ∀ k ∈ kparr, ∃ v, map.lookup (key k) = some v := by
  have hdefault : some defaultCfg = some map → ∀ k ∈ kparr, ∃ v, map.lookup (key k) = some v := by
    intro h
    cases h
    exact absurd hs not_isStatic_default
  unfold getParam at h
  split at h
  · exact hdefault h
  · split at h
    · exact hdefault h
    · exact hdefault h
    · exact hdefault h
    · exact hdefault h
    · obtain ⟨cfg, _, hcfg⟩ := Option.map_eq_some_iff.mp h
      cases hp : pick cfg kparr with
      | none =>
        rw [hp] at hcfg
        exact hdefault (congrArg some hcfg)
      | some m =>
        rw [hp] at hcfg
        cases hcfg
        exact pick_lookup hp
    · cases h

/-- What is taken for unchanged has the same settings. -/
theorem applies_of_not_differs {map last : Config} (hfull : ∀ k ∈ kparr, ∃ v, map.lookup (key k) = some v)
    (h : differs map last = false) {cmd : Bytes} (hcmd : Applies last cmd) : Applies map cmd := by
  have hsame : ∀ k ∈ kparr, last.lookup (key k) = map.lookup (key k) := by
    intro k hk
    obtain ⟨v, hv⟩ := hfull k hk
    rw [hv, lookup_of_not_differs h hv]
  have hip : setting last "a#ip" = setting map "a#ip" := congrArg (Option.getD · []) (hsame "c_ip" (by decide))
  have hmask : setting last "a#mask" = setting map "a#mask" := congrArg (Option.getD · []) (hsame "c_mask" (by decide))
  have hgw : setting last "a#gw" = setting map "a#gw" := congrArg (Option.getD · []) (hsame "c_gw" (by decide))
  have hdns : setting last "a#dns" = setting map "a#dns" := congrArg (Option.getD · []) (hsame "c_dns" (by decide))
  obtain ⟨dns, hperm, rfl⟩ := hcmd
  exact ⟨dns, hdns ▸ hperm, by rw [staticCmd, staticCmd, hip, hmask, hgw]⟩

/-! ## What holds in every run -/

/-- The coroutines start in the order of the checks, and only dhcp ones sleep. -/
structure Inv (s : Nw) : Prop where
  ready : s.ready = List.range' (startedId s.log + 1) (s.checkId - startedId s.log)
  started_le : startedId s.log ≤ s.checkId
  started : ∀ k map, .started k map ∈ s.log → k ≤ startedId s.log
  none : lastStarted s.log = none → startedId s.log = 0
  asleep : ∀ e ∈ s.asleep, e.1 ≤ startedId s.log ∧ ∀ map, lastStarted s.log = some (e.1, map) → ¬ IsStatic map
  ordered : Ordered s.log

/-- The last command is one of dhcp, or applies the last static map. -/
structure Applied (s : Nw) : Prop where
  none : lastExecuted s.log = none → s.lastStaticMap = ∅
  some : ∀ cmd, lastExecuted s.log = some cmd → IsDhcpc cmd ∨ Applies s.lastStaticMap cmd

section Steps
variable {s : Nw} {id : Nat}

theorem Inv.execute (h : Inv s) (hid : startedId s.log ≤ id) (cmd : Bytes) : Inv (s.execute id cmd) where
  ready := h.ready
  started_le := h.started_le
  started k map hk := by
    rcases List.mem_cons.mp hk with hk | hk
    · cases hk
    · exact h.started k map hk
  none := h.none
  asleep := h.asleep
  ordered := by
    refine List.pairwise_cons.mpr ⟨fun earlier hmem k map id' cmd' hk hc => ?_, h.ordered⟩
    cases hc
    subst hk
    exact (h.started k map hmem).trans hid

theorem Inv.sleep (h : Inv s) (hid : id ≤ startedId s.log)
    (hmap : ∀ map, lastStarted s.log = some (id, map) → ¬ IsStatic map) (loop : Loop) : Inv (s.sleep id loop) where
  ready := h.ready
  started_le := h.started_le
  started := h.started
  none := h.none
  asleep e he := by
    rcases List.mem_cons.mp he with rfl | he
    · exact ⟨hid, hmap⟩
    · exact h.asleep e he
  ordered := h.ordered

theorem Inv.keepDhcpc (h : Inv s) (hid : id ≤ startedId s.log)
    (hmap : ∀ map, lastStarted s.log = some (id, map) → ¬ IsStatic map) : Inv (s.keepDhcpc id) := by
  unfold Nw.keepDhcpc
  split
  · rename_i heq
    exact (h.execute (heq ▸ h.started_le) keepCmd).sleep hid hmap .keep
  · exact h

theorem Inv.startDhcpc (h : Inv s) (hid : id ≤ startedId s.log)
    (hmap : ∀ map, lastStarted s.log = some (id, map) → ¬ IsStatic map) (ok : Bool) : Inv (s.startDhcpc id ok) := by
  unfold Nw.startDhcpc
  split
  · rename_i heq
    have hexec := h.execute (heq ▸ h.started_le) startCmd
    split
    · exact hexec.keepDhcpc hid hmap
    · exact hexec.sleep hid hmap .start
  · exact h.keepDhcpc hid hmap

/-- The next coroutine is the one of the check after the last that has started. -/
theorem Inv.next (h : Inv s) {ids : List Nat} (hready : s.ready = id :: ids) :
    id = startedId s.log + 1 ∧ id ≤ s.checkId ∧ ids = List.range' (id + 1) (s.checkId - id) := by
  have hrange := h.ready
  rw [hready] at hrange
  cases hn : s.checkId - startedId s.log with
  | zero =>
    rw [hn] at hrange
    cases hrange
  | succ n =>
    rw [hn, List.range'_succ] at hrange
    obtain ⟨rfl, rfl⟩ := List.cons.inj hrange
    refine ⟨rfl, by omega, ?_⟩
    rw [show s.checkId - (startedId s.log + 1) = n by omega]

/-- A coroutine starts. -/
theorem Inv.begin (h : Inv s) {ids : List Nat} (hready : s.ready = id :: ids) (map : Config) :
    Inv { s with ready := ids, log := .started id map :: s.log } := by
  obtain ⟨hid, hle, hids⟩ := h.next hready
  constructor
  · exact hids
  · exact hle
  · intro k map' hk
    rcases List.mem_cons.mp hk with hk | hk
    · cases hk
      exact Nat.le_refl _
    · exact (h.started k map' hk).trans (by rw [startedId_started]; omega)
  · nofun
  · intro e he
    have hlt := (h.asleep e he).1
    refine ⟨by rw [startedId_started]; omega, fun map' hlast => ?_⟩
    -- a sleeping coroutine is an earlier one
    have heq := congrArg Prod.fst (Option.some.inj hlast)
    simp only at heq
    omega
  · refine List.pairwise_cons.mpr ⟨fun earlier _ k map' id' cmd' _ hc => ?_, h.ordered⟩
    cases hc

theorem Inv.checkNetwork (h : Inv s) (env : Env) {map : Config} (hlast : lastStarted s.log = some (id, map))
    (omap : List Bytes) (ok : Bool) : Inv (s.checkNetwork env id map omap ok) := by
  have hid : startedId s.log = id := by rw [startedId, hlast]; rfl
  unfold Nw.checkNetwork
  split
  · rename_i hdhcp
    refine h.startDhcpc hid.ge (fun map' hmap' => ?_) ok
    rw [hlast] at hmap'
    cases hmap'
    exact not_not.mpr hdhcp
  · split
    · obtain ⟨hready, hle, hstarted, hnone, hasleep, hordered⟩ := h.execute hid.le (setStatic env map omap)
      exact ⟨hready, hle, hstarted, hnone, hasleep, hordered⟩
    · exact h

theorem Inv.spawn (h : Inv s) : Inv s.spawn := by
  obtain ⟨hready, hle, hstarted, hnone, hasleep, hordered⟩ := h
  refine ⟨?_, hle.trans (Nat.le_succ _), hstarted, hnone, hasleep, hordered⟩
  show s.ready ++ [s.checkId + 1] = List.range' (startedId s.log + 1) (s.checkId + 1 - startedId s.log)
  rw [hready, Nat.succ_sub hle, List.range'_concat, Nat.one_mul,
    show startedId s.log + 1 + (s.checkId - startedId s.log) = s.checkId + 1 by omega]

/-- A loss is no command. -/
theorem Inv.lose (h : Inv s) : Inv { s with log := .lost :: s.log } where
  ready := h.ready
  started_le := h.started_le
  started k map hk := by
    rcases List.mem_cons.mp hk with hk | hk
    · cases hk
    · exact h.started k map hk
  none := h.none
  asleep := h.asleep
  ordered := by
    refine List.pairwise_cons.mpr ⟨fun earlier _ k map id' cmd' _ hc => ?_, h.ordered⟩
    cases hc

theorem Inv.wake (h : Inv s) (i : Nat) (ok : Bool) : Inv (s.wake i ok) := by
  unfold Nw.wake
  cases hi : s.asleep[i]? with
  | none => exact h
  | some e =>
    obtain ⟨id, loop⟩ := e
    obtain ⟨hid, hmap⟩ := h.asleep _ (List.mem_of_getElem? hi)
    have hrest : Inv { s with asleep := s.asleep.eraseIdx i } :=
      ⟨h.ready, h.started_le, h.started, h.none, fun e he => h.asleep e (List.mem_of_mem_eraseIdx he), h.ordered⟩
    cases loop with
    | start => exact hrest.startDhcpc hid hmap ok
    | keep => exact hrest.keepDhcpc hid hmap

/-! ## What holds if no static configuration comes back after dhcp -/

theorem applied_execute (s : Nw) (id : Nat) {cmd : Bytes} (hcmd : IsDhcpc cmd) : Applied (s.execute id cmd) where
  none := nofun
  some cmd' hcmd' := by
    cases hcmd'
    exact .inl hcmd

theorem Applied.keepDhcpc (h : Applied s) : Applied (s.keepDhcpc id) := by
  unfold Nw.keepDhcpc
  split
  · obtain ⟨hnone, hsome⟩ := applied_execute s id (.inr rfl : IsDhcpc keepCmd)
    exact ⟨hnone, hsome⟩
  · exact h

theorem Applied.startDhcpc (h : Applied s) (ok : Bool) : Applied (s.startDhcpc id ok) := by
  unfold Nw.startDhcpc
  split
  · have hexec := applied_execute s id (.inl rfl : IsDhcpc startCmd)
    split
    · exact hexec.keepDhcpc
    · exact ⟨hexec.none, hexec.some⟩
  · exact h.keepDhcpc

/-- A coroutine of dhcp does nothing if it is not that of the newest check. -/
theorem startDhcpc_of_ne (hid : id ≠ s.checkId) (ok : Bool) : s.startDhcpc id ok = s := by
  rw [Nw.startDhcpc, if_neg hid, Nw.keepDhcpc, if_neg hid]

theorem keepDhcpc_frame (s : Nw) (id : Nat) :
    (s.keepDhcpc id).checkId = s.checkId ∧ lastStarted (s.keepDhcpc id).log = lastStarted s.log := by
  unfold Nw.keepDhcpc
  split <;> exact ⟨rfl, rfl⟩

theorem startDhcpc_frame (s : Nw) (id : Nat) (ok : Bool) :
    (s.startDhcpc id ok).checkId = s.checkId ∧ lastStarted (s.startDhcpc id ok).log = lastStarted s.log := by
  unfold Nw.startDhcpc
  split
  · split
    · exact keepDhcpc_frame _ id
    · exact ⟨rfl, rfl⟩
  · exact keepDhcpc_frame s id

/-- What a coroutine of dhcp does leaves a static configuration alone. -/
theorem Settled.dhcpc (h : Settled s) (hmap : ∀ map, lastStarted s.log = some (id, map) → ¬ IsStatic map)
    {s' : Nw} (hframe : s'.checkId = s.checkId ∧ lastStarted s'.log = lastStarted s.log)
    (hne : id ≠ s.checkId → s' = s) : Settled s' := by
  by_cases hid : id = s.checkId
  · intro map hlast hstatic
    rw [hframe.1, hframe.2, ← hid] at hlast
    exact absurd hstatic (hmap map hlast)
  · rw [hne hid]
    exact h

theorem settled_begin (ha : Applied s) {ids : List Nat} (hready : s.ready = id :: ids) {env : Env}
    {file : Option Bytes} {map : Config} (hparam : getParam env file = some map) {resolv : Option (List Bytes)} {ok : Bool}
    (hfits : Fits env s (.start file resolv ok)) :
    let s1 := Nw.checkNetwork env { s with ready := ids, log := .started id map :: s.log } id map (currentDns resolv) ok
    Applied s1 ∧ Settled s1 := by
  have hbegin : Applied { s with ready := ids, log := .started id map :: s.log } := ⟨ha.none, ha.some⟩
  unfold Nw.checkNetwork
  split
  · -- dhcp
    rename_i hdhcp
    refine ⟨hbegin.startDhcpc ok, fun map' hlast hstatic => ?_⟩
    rw [(startDhcpc_frame _ id ok).2, lastStarted_started] at hlast
    obtain rfl : map = map' := congrArg Prod.snd (Option.some.inj hlast)
    exact absurd hdhcp hstatic
  · rename_i hstatic
    have hfits := hfits map hparam (by rw [hready]; nofun) hstatic
    split
    · -- the settings are carried out
      rename_i hdiff
      rw [if_pos hdiff] at hfits
      have happ : Applies map (setStatic env map (currentDns resolv)) := setStatic_applies hfits
      refine ⟨⟨nofun, fun cmd hcmd => ?_⟩, fun map' hlast _ => ?_⟩
      · cases hcmd
        exact .inr happ
      · obtain rfl : map = map' := congrArg Prod.snd (Option.some.inj hlast)
        exact ⟨⟨_, rfl, happ⟩, rfl⟩
    · -- they are taken for unchanged
      rename_i hdiff
      have hsame : differs map s.lastStaticMap = false := Bool.eq_false_iff.mpr hdiff
      rw [if_neg hdiff] at hfits
      refine ⟨hbegin, fun map' hlast _ => ?_⟩
      obtain rfl : map = map' := congrArg Prod.snd (Option.some.inj hlast)
      have hfull := getParam_full hparam hstatic
      cases hcmd : lastExecuted s.log with
      | none =>
        obtain ⟨v, hv⟩ := hfull "c_ip" (by decide)
        have hempty := lookup_of_not_differs hsame hv
        rw [ha.none hcmd] at hempty
        cases hempty
      | some cmd =>
        have happ := (ha.some cmd hcmd).resolve_left (hfits.1 cmd hcmd)
        exact ⟨⟨cmd, hcmd, applies_of_not_differs hfull hsame happ⟩, hfits.2⟩

end Steps

/-! ## Runs -/

theorem inv_boot (file : Option Nat) (found : Bool) : Inv (.boot file found) := by
  have h0 : Inv ⟨0, [], [], ∅, (Memfile.new file).clear, true, []⟩ :=
    ⟨rfl, Nat.le_refl _, by simp, fun _ => rfl, by simp, List.Pairwise.nil⟩
  unfold Nw.boot
  cases found with
  | true => exact h0
  | false => exact h0.spawn

theorem applied_boot (file : Option Nat) (found : Bool) : Applied (.boot file found) ∧ Settled (.boot file found) := by
  cases found <;> exact ⟨⟨fun _ => rfl, nofun⟩, nofun⟩

theorem inv_step {env : Env} {s s' : Nw} (ev : Event) (h : Inv s) (hs : step env ev s = .ok () s') : Inv s' := by
  cases ev with
  | pass attr =>
    cases hs
    unfold Nw.pass
    split
    · exact Inv.spawn ⟨h.ready, h.started_le, h.started, h.none, h.asleep, h.ordered⟩
    · exact ⟨h.ready, h.started_le, h.started, h.none, h.asleep, h.ordered⟩
  | start file resolv ok =>
    cases hready : s.ready with
    | nil =>
      simp only [step, hready] at hs
      cases hs
      exact h
    | cons id ids =>
      cases hparam : getParam env file with
      | none => simp [step, hready, hparam] at hs
      | some map =>
        simp only [step, hready, hparam] at hs
        cases hs
        exact (h.begin hready map).checkNetwork env rfl (currentDns resolv) ok
  | wake i ok =>
    cases hs
    exact h.wake i ok
  | promise addr =>
    cases hs
    unfold Nw.promise
    split
    · split <;> exact ⟨h.ready, h.started_le, h.started, h.none, h.asleep, h.ordered⟩
    · exact h
  | lose =>
    cases hs
    exact h.lose

theorem applied_step {env : Env} {s s' : Nw} (ev : Event) (h : Inv s) (ha : Applied s ∧ Settled s)
    (hfits : Fits env s ev) (hs : step env ev s = .ok () s') : Applied s' ∧ Settled s' := by
  obtain ⟨ha, hset⟩ := ha
  cases ev with
  | pass attr =>
    cases hs
    unfold Nw.pass
    split
    · refine ⟨⟨ha.none, ha.some⟩, fun map hlast _ => ?_⟩
      -- the new check has not started
      have hid : startedId s.log = s.checkId + 1 := by
        rw [startedId, show lastStarted s.log = some (s.checkId + 1, map) from hlast]
        rfl
      have := h.started_le
      omega
    · exact ⟨⟨ha.none, ha.some⟩, hset⟩
  | start file resolv ok =>
    cases hready : s.ready with
    | nil =>
      simp only [step, hready] at hs
      cases hs
      exact ⟨ha, hset⟩
    | cons id ids =>
      cases hparam : getParam env file with
      | none => simp [step, hready, hparam] at hs
      | some map =>
        simp only [step, hready, hparam] at hs
        cases hs
        exact settled_begin ha hready hparam hfits
  | wake i ok =>
    cases hs
    unfold Nw.wake
    cases hi : s.asleep[i]? with
    | none => exact ⟨ha, hset⟩
    | some e =>
      obtain ⟨id, loop⟩ := e
      obtain ⟨_, hmap⟩ := h.asleep _ (List.mem_of_getElem? hi)
      have hrest : Applied { s with asleep := s.asleep.eraseIdx i } := ⟨ha.none, ha.some⟩
      have hset' : Settled { s with asleep := s.asleep.eraseIdx i } := hset
      cases loop with
      | start =>
        exact ⟨hrest.startDhcpc ok, hset'.dhcpc hmap (startDhcpc_frame _ id ok) fun hne => startDhcpc_of_ne hne ok⟩
      | keep =>
        exact ⟨hrest.keepDhcpc, hset'.dhcpc hmap (keepDhcpc_frame _ id) fun hne => if_neg hne⟩
  | promise addr =>
    cases hs
    unfold Nw.promise
    split
    · split <;> exact ⟨⟨ha.none, ha.some⟩, hset⟩
    · exact ⟨ha, hset⟩
  | lose =>
    -- it comes after the start of the newest coroutine
    cases hs
    exact ⟨⟨ha.none, ha.some⟩, hset⟩

theorem inv_run {env : Env} {file : Option Nat} {found : Bool} {evs : List Event} {s : Nw}
    (hrun : runAll (step env) evs (.boot file found) = .ok () s) : Inv s :=
  run_invariant (Q := fun _ _ => True) (fun _ ev _ h _ hs => inv_step ev h hs) (inv_boot file found)
    (along_true evs) hrun

/-- **The newest configuration.** In every run no command of a check is executed after the
coroutine of a later one has started, and the newest coroutine starts if the ready ones do. If
the steps of the run fit, and the newest configuration is static, its settings are those of the
last command and were not gone when it was noticed. -/
theorem newest_settings (env : Env) {file : Option Nat} {found : Bool} {evs : List Event} {s : Nw}
    (hrun : runAll (step env) evs (.boot file found) = .ok () s) :
    Ordered s.log ∧ (s.ready = [] → 0 < s.checkId → ∃ map, lastStarted s.log = some (s.checkId, map)) ∧
      (Along (step env) (Fits env) (.boot file found) evs → Settled s) := by
  have hinv := inv_run hrun
  refine ⟨hinv.ordered, fun hready hpos => ?_, fun hfits => ?_⟩
  · have hlen : s.checkId - startedId s.log = 0 := by
      have hrange := hinv.ready
      rw [hready] at hrange
      simpa using (congrArg List.length hrange).symm
    have hid : startedId s.log = s.checkId := by
      have := hinv.started_le
      omega
    cases hlast : lastStarted s.log with
    | none =>
      rw [hinv.none hlast] at hid
      omega
    | some e =>
      rw [startedId, hlast] at hid
      exact ⟨e.2, by rw [← hid]; rfl⟩
  · have hboth : Inv s ∧ Applied s ∧ Settled s :=
      run_invariant (I := fun s => Inv s ∧ Applied s ∧ Settled s) (fun _ ev _ h hQ hs => ⟨inv_step ev h.1 hs, applied_step ev h.1 h.2 hQ hs⟩)
        ⟨inv_boot file found, applied_boot file found⟩ hfits hrun
    exact hboth.2.2

/-! ## Static, dhcp, and the same again -/

/-- A configuration file with the address 10.0.0.2. -/
def fileText (distr : String) : Bytes :=
  ascii ("\x7b\"a#distr\":\"" ++ distr ++ "\",\"a#ip\":\"10.0.0.2\",\"a#mask\":\"255.0.0.0\"," ++
    "\"a#gw\":\"10.0.0.1\",\"a#dns\":\"10.0.0.1\"\x7d")

/-- The file is found changed, and its coroutine starts. -/
def noticed (time : Nat) (distr : String) : List Event :=
  [.pass (some time), .start (some (fileText distr)) none true]

/-- Dhcp, and then static. -/
def dhcpThenStatic : List Event := noticed 1 "dhcp" ++ noticed 2 "static"

theorem newest_settings_static : ∃ s map, runAll (step (.listed none)) dhcpThenStatic (.boot none true) = .ok () s ∧
    lastStarted s.log = some (s.checkId, map) ∧ IsStatic map ∧ CarriedOut s.log map := by
  have hrun : runAll (step (.listed none)) dhcpThenStatic (.boot none true) = .ok () _ :=
    eq_ok_of_returned (by decide +kernel)
  have hfits : Along (step (.listed none)) (Fits (.listed none)) (.boot none true) dhcpThenStatic :=
    (along_of_check (p := fun s ev => decide (Fits (.listed none) s ev)) (by decide +kernel)).mono
      fun _ _ h => of_decide_eq_true h
  obtain ⟨_, hstarted, hsettled⟩ := newest_settings (.listed none) hrun
  obtain ⟨hready, hpos, hall⟩ : (finalState (runAll (step (.listed none)) dhcpThenStatic (.boot none true))).ready = [] ∧
      0 < (finalState (runAll (step (.listed none)) dhcpThenStatic (.boot none true))).checkId ∧
      ((lastStarted (finalState (runAll (step (.listed none)) dhcpThenStatic (.boot none true))).log).all
        fun e => decide (IsStatic e.2)) = true := by decide +kernel
  obtain ⟨map, hmap⟩ := hstarted hready hpos
  have hstatic : IsStatic map := by
    rw [hmap] at hall
    exact of_decide_eq_true hall
  exact ⟨_, map, hrun, hmap, hstatic, hsettled hfits map hmap hstatic⟩

/-- The same static configuration before and after dhcp. -/
def staticAgain : List Event := noticed 1 "static" ++ noticed 2 "dhcp" ++ noticed 3 "static"

/-- A static configuration, and once more after `promise` has found no address. -/
def staticLost : List Event := noticed 1 "static" ++ [.lose, .promise none] ++ noticed 1 "static"

/-- The static configuration. -/
def staticMap : Config := (getParam (.listed none) (some (fileText "static"))).getD ∅

/-- The newest configuration of the run is static, its coroutine has started, and the settings
are not carried out. -/
def Missed (evs : List Event) : Prop :=
  ∃ s map, runAll (step (.listed none)) evs (.boot none true) = .ok () s ∧
    lastStarted s.log = some (s.checkId, map) ∧ IsStatic map ∧ ¬ CarriedOut s.log map

/-- How a run ends, as far as `Missed` depends on it: it is complete, the newest coroutine has read
a static configuration, the last command is `last`, and the address is gone or not. -/
def endsWith (evs : List Event) (last : Bytes) (gone : Bool) : Bool :=
  let r := runAll (step (.listed none)) evs (.boot none true)
  let s := finalState r
  (returned r).isSome && ((lastStarted s.log).any fun e => e.1 = s.checkId ∧ IsStatic e.2) &&
    (lastExecuted s.log = some last) && (undone s.log = gone)

theorem missed_of_endsWith {evs : List Event} (last : Bytes) (gone : Bool) (h : endsWith evs last gone = true)
    (hlast : IsDhcpc last ∨ gone = true) : Missed evs := by
  simp only [endsWith, Bool.and_eq_true, decide_eq_true_eq] at h
  obtain ⟨⟨⟨hret, hstarted⟩, hcmd⟩, hgone⟩ := h
  obtain ⟨u, hu⟩ := Option.isSome_iff_exists.mp hret
  obtain ⟨⟨id, map⟩, hmap, h⟩ := (Option.any_eq_true ..).mp hstarted
  simp only [decide_eq_true_eq] at h
  obtain ⟨hid, hstatic⟩ := h
  rw [hid] at hmap
  refine ⟨_, map, eq_ok_of_returned hu, hmap, hstatic, ?_⟩
  rintro ⟨⟨cmd, hcmd', dns, _, heq⟩, hnot⟩
  rcases hlast with hdhcp | hgone'
  · rw [Option.some.inj (hcmd.symm.trans hcmd'), heq] at hdhcp
    exact staticCmd_ne hdhcp
  · rw [hgone, hgone'] at hnot
    cases hnot

/-- After dhcp the last command is one of dhcp; after a loss there is none. -/
theorem settings_missed : Missed staticAgain ∧ Missed staticLost := by
  constructor
  · exact missed_of_endsWith keepCmd false (by decide +kernel) (.inl (.inr rfl))
  · have hread : endsWith staticLost (staticCmd staticMap [ascii "10.0.0.1"]) true = true := by decide +kernel
    exact missed_of_endsWith _ true hread (.inr rfl)

end ApApps.Network

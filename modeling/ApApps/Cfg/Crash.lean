import ApApps.Cfg.Store

/- Power losses during `save_config`.

   `save_config` writes the new text into the .tmp file, moves the configuration to the
   .del file, the .tmp file to the configuration, and removes the .del file. The three
   phases are followed with the number of changes that are still made; between the two
   renames there is no configuration file, and the next `load` falls back to the
   default configuration. At every other point the file is the old or the new one. -/
namespace ApApps.Cfg
open Exec ApApps.Cjson

/-- The fields of a configuration, in the order in which `pairs` yields them. -/
def fieldsOf (env : Env) (cfg : Config) : List (Bytes × Bytes) :=
  env.pairs (cfg.entries.map fun kv => (kv.1, kv.2))

theorem mem_fieldsOf {env : Env} {cfg : Config} {k v : Bytes} :
    (k, v) ∈ fieldsOf env cfg ↔ cfg.lookup k = some v := by
  unfold fieldsOf
  rw [(env.pairs_perm _).mem_iff, List.mem_map, ← Option.mem_def, AList.mem_lookup_iff]
  constructor
  · rintro ⟨⟨k', v'⟩, hkv, heq⟩
    cases heq
    exact hkv
  · exact fun h => ⟨⟨k, v⟩, h, rfl⟩

/-- The text `save_config` writes. -/
def fileText (env : Env) (cfg : Config) : Bytes :=
  replaceLoop (ascii ",\"") (ascii ",\n\"") 0 (objectText [ch ','] (fieldsOf env cfg))

/-- A map of strings is always encoded. -/
theorem saveText_eq (env : Env) (cfg : Config) : saveText env cfg = some (fileText env cfg) := by
  unfold saveText
  rw [encode_ofStrings]
  exact gsub_plain (by decide) _

/-! ## Changes to the file system -/

/-- The power lasts for `n` more changes. -/
def Enough (power : Option Nat) (n : Nat) : Prop := ∀ m, power = some m → n ≤ m

theorem enough_none (n : Nat) : Enough none n := fun _ h => nomatch h

theorem enough_some {m n : Nat} : Enough (some m) n ↔ n ≤ m := by
  constructor
  · intro h
    exact h m rfl
  · rintro h _ ⟨⟩
    exact h

/-- What is left of the power after `n` changes. -/
def spent (power : Option Nat) (n : Nat) : Option Nat := power.map (· - n)

@[simp] theorem spent_some (m n : Nat) : spent (some m) n = some (m - n) := rfl

theorem spent_spent (power : Option Nat) (m n : Nat) : spent (spent power m) n = spent power (m + n) := by
  cases power with
  | none => rfl
  | some k => simp [Nat.sub_sub]

theorem Enough.spent {power : Option Nat} {m n : Nat} (h : Enough power (m + n)) : Enough (spent power m) n := by
  cases power with
  | none => exact enough_none n
  | some k =>
    rw [enough_some] at h
    rw [spent_some, enough_some]
    omega

theorem Enough.mono {power : Option Nat} {m n : Nat} (h : Enough power n) (hmn : m ≤ n) : Enough power m :=
  fun k hk => Nat.le_trans hmn (h k hk)

theorem onDisk_done {f : Disk → Disk} {s : Proc} (h : Enough s.power 1) :
    onDisk f s = .ok () { s with disk := f s.disk, power := spent s.power 1 } := by
  unfold onDisk
  cases hp : s.power with
  | none => rfl
  | some m =>
    rw [hp, enough_some] at h
    obtain ⟨k, rfl⟩ : ∃ k, m = k + 1 := ⟨m - 1, by omega⟩
    rfl

theorem onDisk_lost {f : Disk → Disk} {s : Proc} (h : s.power = some 0) :
    onDisk f s = .error .powerLost s := by
  simp [onDisk, h]

theorem not_enough_one {power : Option Nat} (h : ¬ Enough power 1) : power = some 0 := by
  cases power with
  | none => exact absurd (enough_none 1) h
  | some m =>
    rw [enough_some] at h
    congr
    omega

theorem Disk.set_set (d : Disk) (p : Path) (a b : Option Bytes) : (d.set p a).set p b = d.set p b := by
  funext q
  unfold Disk.set
  split <;> rfl

@[simp] theorem Disk.set_same (d : Disk) (p : Path) (a : Option Bytes) : d.set p a p = a := by
  simp [Disk.set]

@[simp] theorem Disk.set_other {p q : Path} (d : Disk) (a : Option Bytes) (h : q ≠ p) : d.set p a q = d q := by
  simp [Disk.set, h]

theorem Disk.set_self {d : Disk} {p : Path} {a : Option Bytes} (h : d p = a) : d.set p a = d := by
  funext q
  by_cases hq : q = p
  · subst hq
    rw [Disk.set_same, h]
  · rw [Disk.set_other _ _ hq]

/-- Writing a file to its end. -/
theorem writeText_done (p : Path) (text : Bytes) {s : Proc} {content : Bytes}
    (h : Enough s.power text.length) (hfile : s.disk p = some content) :
    writeText p text s = .ok () { s with
      disk := s.disk.set p (some (content ++ text)), power := spent s.power text.length } := by
  induction text generalizing s content with
  | nil =>
    have hset : s.disk.set p (some (content ++ [])) = s.disk := Disk.set_self (by simpa using hfile)
    have hpow : spent s.power ([] : Bytes).length = s.power := by cases s.power <;> rfl
    rw [hset, hpow]
    rfl
  | cons c text ih =>
    have hone : Enough s.power 1 := h.mono (by simp)
    have hrest : Enough (spent s.power 1) text.length := by
      apply Enough.spent
      rw [Nat.add_comm]
      exact h
    have hfile' : (s.disk.set p ((s.disk p).map (· ++ [c]))) p = some (content ++ [c]) := by simp [hfile]
    unfold writeText at ih ⊢
    rw [runAll, bind_of_ok (onDisk_done hone),
      ih (s := { s with disk := s.disk.set p ((s.disk p).map (· ++ [c])), power := spent s.power 1 }) hrest hfile',
      Disk.set_set, spent_spent]
    simp [Nat.add_comm]

/-- Losing the power while a file is written. -/
theorem writeText_lost (p : Path) (text : Bytes) {s : Proc} {content : Bytes}
    (h : ¬ Enough s.power text.length) (hfile : s.disk p = some content) :
    ∃ s', writeText p text s = .error .powerLost s' ∧ ∀ q, q ≠ p → s'.disk q = s.disk q := by
  induction text generalizing s content with
  | nil => exact absurd (fun _ _ => Nat.zero_le _) h
  | cons c text ih =>
    unfold writeText at ih ⊢
    by_cases hone : Enough s.power 1
    · have hrest : ¬ Enough (spent s.power 1) text.length := by
        intro hr
        apply h
        cases hp : s.power with
        | none => exact enough_none _
        | some m =>
          rw [hp, enough_some] at hone
          rw [hp, spent_some, enough_some] at hr
          rw [enough_some, List.length_cons]
          omega
      have hfile' : (s.disk.set p ((s.disk p).map (· ++ [c]))) p = some (content ++ [c]) := by simp [hfile]
      obtain ⟨s', hs', hoth⟩ := ih
        (s := { s with disk := s.disk.set p ((s.disk p).map (· ++ [c])), power := spent s.power 1 }) hrest hfile'
      refine ⟨s', ?_, fun q hq => ?_⟩
      · rw [runAll, bind_of_ok (onDisk_done hone), hs']
      · exact (hoth q hq).trans (Disk.set_other _ _ hq)
    · refine ⟨s, ?_, fun q _ => rfl⟩
      rw [runAll, bind_of_error (onDisk_lost (not_enough_one hone))]

theorem rename_done {a b : Path} {s : Proc} {content : Bytes} (h : Enough s.power 1)
    (hfile : s.disk a = some content) :
    rename a b s = .ok true { s with
      disk := (s.disk.set a none).set b (some content), power := spent s.power 1 } := by
  unfold rename
  rw [bind_of_ok (get_ok s)]
  simp only [hfile]
  rw [bind_of_ok (onDisk_done h)]
  rfl

theorem rename_lost {a b : Path} {s : Proc} {content : Bytes} (h : s.power = some 0)
    (hfile : s.disk a = some content) : rename a b s = .error .powerLost s := by
  unfold rename
  rw [bind_of_ok (get_ok s)]
  simp only [hfile]
  rw [bind_of_error (onDisk_lost h)]

/-! ## save_config -/

theorem replaceFile_done {s : Proc} {new : Bytes} (h : Enough s.power 1) (hfile : s.disk .tmp = some new) :
    replaceFile s = .ok () { s with
      disk := (s.disk.set .tmp none).set .conf (some new), power := spent s.power 1, filed := some s.cfg, unmarked := false } := by
  unfold replaceFile
  rw [bind_of_ok (rename_done h hfile)]
  rfl

theorem replaceFile_lost {s : Proc} {new : Bytes} (h : s.power = some 0) (hfile : s.disk .tmp = some new) :
    replaceFile s = .error .powerLost s := by
  unfold replaceFile
  rw [bind_of_error (rename_lost h hfile)]

/-- The state in which the .tmp file has been written. -/
def written (s : Proc) (text : Bytes) : Proc :=
  { s with disk := s.disk.set .tmp (some text), power := spent s.power (1 + text.length), gChange := false }

/-- The three last steps of `save_config`. -/
def moveFiles : M Unit := do
  let ok ← rename .conf .del
  if ok then
    replaceFile
    remove .del
  else exit

/-- `save_config` writes the .tmp file, then moves the files. -/
theorem writeConfig_written (env : Env) {s : Proc} (h : Enough s.power (1 + (fileText env s.cfg).length)) :
    writeConfig env s = moveFiles (written s (fileText env s.cfg)) := by
  have hopen : Enough s.power 1 := h.mono (Nat.le_add_right _ _)
  unfold writeConfig
  rw [bind_of_ok (modify_ok _ s), bind_of_ok (get_ok _)]
  simp only [saveText_eq]
  unfold openWb
  rw [bind_of_ok (onDisk_done (s := { s with gChange := false }) hopen)]
  have hwrite := writeText_done .tmp (fileText env s.cfg)
    (s := { s with gChange := false, disk := s.disk.set .tmp (some []), power := spent s.power 1 })
    (Enough.spent h) (Disk.set_same s.disk .tmp (some []))
  rw [bind_of_ok hwrite]
  simp only [Disk.set_set, spent_spent, List.nil_append]
  rfl

/-- Moving the files with power for it. -/
theorem moveFiles_done {s : Proc} {old new : Bytes} (hconf : s.disk .conf = some old)
    (htmp : s.disk .tmp = some new) (h : Enough s.power 3) :
    moveFiles s = .ok () { s with
      disk := fun p => if p = .conf then some new else none
      power := spent s.power 3
      filed := some s.cfg
      unmarked := false } := by
  have h2 : Enough (spent s.power 1) 1 := Enough.spent (h.mono (by omega))
  have h3 : Enough (spent (spent s.power 1) 1) 1 := by
    rw [spent_spent]
    exact Enough.spent h
  have htmp' : ((s.disk.set .conf none).set .del (some old)) .tmp = some new := by simp [Disk.set, htmp]
  unfold moveFiles
  rw [bind_of_ok (rename_done (h.mono (by omega)) hconf)]
  simp only [if_true]
  rw [bind_of_ok (replaceFile_done
    (s := { s with disk := (s.disk.set .conf none).set .del (some old), power := spent s.power 1 }) h2 htmp')]
  unfold remove
  rw [onDisk_done h3]
  simp only [spent_spent]
  congr 2
  funext p
  cases p <;> simp [Disk.set]

/-- Moving the files until the power is lost after `n` changes. -/
theorem moveFiles_conf {s : Proc} {old new : Bytes} (hconf : s.disk .conf = some old)
    (htmp : s.disk .tmp = some new) {n : Nat} (hp : s.power = some n) :
    (finalState (moveFiles s)).disk .conf = if n = 0 then some old else if n = 1 then none else some new := by
  have htmp' : ((s.disk.set .conf none).set .del (some old)) .tmp = some new := by simp [Disk.set, htmp]
  have hfirst : ∀ k, n = k + 1 → moveFiles s = (replaceFile >>= fun _ => remove .del)
      { s with disk := (s.disk.set .conf none).set .del (some old), power := some k } := by
    rintro k rfl
    have h1 : Enough s.power 1 := by
      rw [hp, enough_some]
      omega
    unfold moveFiles
    rw [bind_of_ok (rename_done h1 hconf)]
    simp only [if_true, hp, spent_some, Nat.add_sub_cancel]
  match n, hp, hfirst with
  | 0, hp, _ =>
    unfold moveFiles
    rw [bind_of_error (rename_lost hp hconf)]
    simpa [finalState] using hconf
  | 1, hp, hfirst =>
    have hrep := replaceFile_lost
      (s := { s with disk := (s.disk.set .conf none).set .del (some old), power := some 0 }) rfl htmp'
    rw [hfirst 0 rfl, bind_of_error hrep]
    simp [finalState, Disk.set]
  | 2, hp, hfirst =>
    have hrep := replaceFile_done
      (s := { s with disk := (s.disk.set .conf none).set .del (some old), power := some 1 })
      (enough_some.mpr (Nat.le_refl 1)) htmp'
    rw [hfirst 1 rfl, bind_of_ok hrep]
    unfold remove
    rw [onDisk_lost rfl]
    simp [finalState, Disk.set]
  | k + 3, hp, _ =>
    have h3 : Enough s.power 3 := by
      rw [hp, enough_some]
      omega
    rw [moveFiles_done hconf htmp h3, if_neg (by omega), if_neg (by omega)]
    rfl

/-- `save_config` with power for all of its changes. -/
theorem writeConfig_done (env : Env) {s : Proc} {old : Bytes} (hconf : s.disk .conf = some old)
    (h : Enough s.power (1 + (fileText env s.cfg).length + 3)) :
    writeConfig env s = .ok () { s with
      disk := fun p => if p = .conf then some (fileText env s.cfg) else none
      power := spent s.power (1 + (fileText env s.cfg).length + 3)
      gChange := false
      filed := some s.cfg
      unmarked := false } := by
  have hdisk : (written s (fileText env s.cfg)).disk .conf = some old := by simp [written, hconf]
  have htmp : (written s (fileText env s.cfg)).disk .tmp = some (fileText env s.cfg) := by simp [written]
  have hpow : Enough (written s (fileText env s.cfg)).power 3 := Enough.spent h
  rw [writeConfig_written env (h.mono (by omega)), moveFiles_done hdisk htmp hpow]
  simp only [written, spent_spent]

/-- How `save_config` leaves the file if the power is lost after `n` changes. -/
theorem writeConfig_conf (env : Env) {s : Proc} {old : Bytes} (hconf : s.disk .conf = some old) {n : Nat}
    (hp : s.power = some n) :
    (finalState (writeConfig env s)).disk .conf =
      if n ≤ (fileText env s.cfg).length + 1 then some old
      else if n = (fileText env s.cfg).length + 2 then none
      else some (fileText env s.cfg) := by
  by_cases hw : Enough s.power (1 + (fileText env s.cfg).length)
  · have hdisk : (written s (fileText env s.cfg)).disk .conf = some old := by simp [written, hconf]
    have htmp : (written s (fileText env s.cfg)).disk .tmp = some (fileText env s.cfg) := by simp [written]
    have hpow : (written s (fileText env s.cfg)).power = some (n - (1 + (fileText env s.cfg).length)) := by
      simp [written, hp]
    rw [writeConfig_written env hw, moveFiles_conf hdisk htmp hpow]
    rw [hp, enough_some] at hw
    by_cases h0 : n ≤ (fileText env s.cfg).length + 1
    · rw [if_pos (by omega), if_pos h0]
    · rw [if_neg (by omega), if_neg h0]
      by_cases h1 : n = (fileText env s.cfg).length + 2
      · rw [if_pos (by omega), if_pos h1]
      · rw [if_neg (by omega), if_neg h1]
  · have hn : n ≤ (fileText env s.cfg).length + 1 := by
      rw [hp, enough_some] at hw
      omega
    rw [if_pos hn]
    unfold writeConfig
    rw [bind_of_ok (modify_ok _ s), bind_of_ok (get_ok _)]
    simp only [saveText_eq]
    unfold openWb
    by_cases hopen : Enough s.power 1
    · rw [bind_of_ok (onDisk_done (s := { s with gChange := false }) hopen)]
      have hlost : ¬ Enough (spent s.power 1) (fileText env s.cfg).length := by
        rw [hp, enough_some] at hw hopen
        rw [hp, spent_some, enough_some]
        omega
      obtain ⟨s', hs', hoth⟩ := writeText_lost .tmp (fileText env s.cfg)
        (s := { s with gChange := false, disk := s.disk.set .tmp (some []), power := spent s.power 1 })
        hlost (Disk.set_same s.disk .tmp (some []))
      rw [bind_of_error hs', finalState, hoth .conf (by decide)]
      simpa using hconf
    · rw [bind_of_error (onDisk_lost (s := { s with gChange := false }) (not_enough_one hopen))]
      exact hconf

/-! ## The next start -/

/-- A file that can be read decodes to a table. -/
theorem truthy_of_readConfig {env : Env} {text : Bytes} {cfg : Config} (h : readConfig env text = some cfg) :
    truthy (decode env.fp text) = true := by
  unfold readConfig at h
  cases hd : decode env.fp text with
  | none => simp [hd] at h
  | some v =>
    cases v with
    | obj fields => rfl
    | _ => simp [hd] at h

theorem parse_of_readConfig {env : Env} {s : Proc} {text : Bytes} {cfg : Config} (hconf : s.disk .conf = some text)
    (h : readConfig env text = some cfg) : parse env s = .ok cfg { s with filed := some cfg, unmarked := false } := by
  unfold parse
  rw [bind_of_ok (get_ok s)]
  simp only [hconf, Option.bind_some, truthy_of_readConfig h, h]
  rfl

/-- `parse` never copies the default configuration. -/
theorem parse_log (env : Env) (s : Proc) : (finalState (parse env s)).log = s.log := by
  unfold parse
  rw [bind_of_ok (get_ok s)]
  split
  · unfold remove
    by_cases h : Enough s.power 1
    · rw [bind_of_ok (onDisk_done h)]
      rfl
    · rw [bind_of_error (onDisk_lost (not_enough_one h))]
      rfl
  · cases (s.disk .conf).bind (readConfig env) with
    | none => rfl
    | some cfg => rfl

/-- While there is a file, `load` does not fall back. -/
theorem load_log (env : Env) {s : Proc} {text : Bytes} (hconf : s.disk .conf = some text) :
    (finalState (load env s)).log = s.log := by
  have hensure : ensureFile env s = .ok () s := by
    unfold ensureFile
    rw [bind_of_ok (get_ok s)]
    simp only [hconf, Option.isSome_some, if_true]
    rfl
  have hlog := parse_log env s
  unfold load
  rw [bind_of_ok hensure]
  cases hp : parse env s with
  | error e s1 =>
    rw [hp] at hlog
    rw [bind_of_error hp]
    exact hlog
  | ok cfg s1 =>
    rw [hp] at hlog
    rw [bind_of_ok hp, bind_of_ok (modify_ok _ s1)]
    split
    · unfold remove
      by_cases h : Enough s1.power 1
      · rw [bind_of_ok (onDisk_done (s := { s1 with cfg := cfg }) h)]
        exact hlog
      · rw [bind_of_error (onDisk_lost (s := { s1 with cfg := cfg }) (not_enough_one h))]
        exact hlog
    · exact hlog

/-- A process that has changed the address from 1 to 2 and is going to save it. -/
def addressChanged : Proc :=
  ⟨fun p => if p = .conf then some (ascii "\x7b\"a#ip\":\"1\"\x7d") else none, none,
    AList.insert (ascii "a#ip") (ascii "2") ∅, true, none, false, []⟩

end ApApps.Cfg

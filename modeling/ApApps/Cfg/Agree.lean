import ApApps.Cfg.Crash
import ApApps.Cfg.Apmgr

/- Memory and file after a save.

   `checkcfg` raises `g_change` with every change it makes, `set` does not. As long as
   no value was changed by `set` alone, the flag says whether the map last written or
   read differs from the one in memory (`Marked`); a save that is reached with such a
   change and without the flag writes nothing and loses it, as that of `upload` does
   with the band list.

   The map last written or read is not a variable of the source. `tied_run` says that it
   belongs to the file: the file has been written from it, or has been read as it. -/
namespace ApApps.Cfg
open Exec ApApps.Cjson

/-- The operations of the module. -/
inductive Op where
  | load
  | set (k v : Bytes)
  | checkcfg (k : Bytes) (new : Option Bytes)
  | save

def opStep (env : Env) : Op → M Unit
  | .load => load env
  | .set k v => setCfg k v
  | .checkcfg k new => do
    let _ ← checkcfg k new
  | .save => saveConfig env

/-- The map last written or read is the one in memory. -/
def Agrees (s : Proc) : Prop := ∀ m, s.filed = some m → ∀ k, m.lookup k = s.cfg.lookup k

/-- The flag is up whenever memory and file differ for another reason than `set`. -/
def Marked (s : Proc) : Prop := s.gChange = false → s.unmarked = false → Agrees s

/-- A save is reached with the flag up, or with nothing changed by `set` since the file was
last written or read. -/
def Flagged (s : Proc) : Op → Prop
  | .save => s.gChange = true ∨ s.unmarked = false
  | _ => True

instance (s : Proc) (op : Op) : Decidable (Flagged s op) := by
  cases op <;> unfold Flagged <;> infer_instance

/-! ## What the operations leave alone -/

/-- The variables that only say what is in memory and what is on file. -/
def SameMemory (s s' : Proc) : Prop :=
  s'.cfg = s.cfg ∧ s'.gChange = s.gChange ∧ s'.filed = s.filed ∧ s'.unmarked = s.unmarked

theorem SameMemory.refl (s : Proc) : SameMemory s s := ⟨rfl, rfl, rfl, rfl⟩

theorem SameMemory.trans ⦃s1 s2 s3 : Proc⦄ (h : SameMemory s1 s2) (h' : SameMemory s2 s3) : SameMemory s1 s3 :=
  ⟨h'.1.trans h.1, h'.2.1.trans h.2.1, h'.2.2.1.trans h.2.2.1, h'.2.2.2.trans h.2.2.2⟩

theorem onDisk_memory {f : Disk → Disk} {s s' : Proc} {u : Unit} (h : onDisk f s = .ok u s') : SameMemory s s' := by
  unfold onDisk at h
  split at h
  · cases h
    exact SameMemory.refl s
  · cases h
  · cases h
    exact SameMemory.refl s

theorem writeText_memory {p : Path} {text : Bytes} {s s' : Proc} (h : writeText p text s = .ok () s') :
    SameMemory s s' := by
  unfold writeText at h
  induction text generalizing s with
  | nil =>
    cases h
    exact SameMemory.refl _
  | cons c text ih =>
    obtain ⟨s1, h1, h2⟩ := runAll_cons_ok.mp h
    exact (onDisk_memory h1).trans (ih h2)

theorem rename_memory {a b : Path} {s s' : Proc} {ok : Bool} (h : rename a b s = .ok ok s') : SameMemory s s' := by
  unfold rename at h
  rw [bind_of_ok (get_ok s)] at h
  cases hd : s.disk a with
  | none =>
    simp only [hd] at h
    cases h
    exact SameMemory.refl s
  | some content =>
    simp only [hd] at h
    obtain ⟨_, s1, h1, h2⟩ := bind_eq_ok.mp h
    cases h2
    exact onDisk_memory h1

/-- What is on file is what is in memory. -/
theorem replaceFile_ok {s s' : Proc} (h : replaceFile s = .ok () s') :
    s'.cfg = s.cfg ∧ s'.gChange = s.gChange ∧ s'.filed = some s.cfg ∧ s'.unmarked = false := by
  obtain ⟨ok, s1, h1, h2⟩ := bind_eq_ok.mp h
  obtain ⟨hcfg, hg, _⟩ := rename_memory h1
  cases ok with
  | true =>
    cases h2
    exact ⟨hcfg, hg, congrArg some hcfg, rfl⟩
  | false =>
    obtain ⟨_, s2, _, h3⟩ := bind_eq_ok.mp h2
    cases h3

theorem moveFiles_ok {s s' : Proc} (h : moveFiles s = .ok () s') :
    s'.cfg = s.cfg ∧ s'.gChange = s.gChange ∧ s'.filed = some s.cfg ∧ s'.unmarked = false := by
  obtain ⟨ok, s1, h1, h2⟩ := bind_eq_ok.mp h
  obtain ⟨hcfg, hg, _⟩ := rename_memory h1
  cases ok with
  | true =>
    obtain ⟨_, s2, h3, h4⟩ := bind_eq_ok.mp h2
    obtain ⟨hcfg2, hg2, hfiled2, hun2⟩ := replaceFile_ok h3
    obtain ⟨hcfg3, hg3, hfiled3, hun3⟩ := onDisk_memory h4
    refine ⟨hcfg3.trans (hcfg2.trans hcfg), hg3.trans (hg2.trans hg), ?_, hun3.trans hun2⟩
    rw [hfiled3, hfiled2, hcfg]
  | false => cases h2

/-- A save that writes leaves memory and file in agreement, and the flag down. -/
theorem writeConfig_ok {env : Env} {s s' : Proc} (h : writeConfig env s = .ok () s') :
    s'.cfg = s.cfg ∧ s'.gChange = false ∧ s'.filed = some s.cfg ∧ s'.unmarked = false := by
  unfold writeConfig at h
  rw [bind_of_ok (modify_ok _ s), bind_of_ok (get_ok _)] at h
  simp only [saveText_eq] at h
  obtain ⟨_, s1, h1, h2⟩ := bind_eq_ok.mp h
  obtain ⟨_, s2, h3, h4⟩ := bind_eq_ok.mp h2
  obtain ⟨hcfg1, hg1, _⟩ := onDisk_memory h1
  obtain ⟨hcfg2, hg2, _⟩ := writeText_memory h3
  obtain ⟨hcfg3, hg3, hfiled3, hun3⟩ := moveFiles_ok h4
  have hcfg : s2.cfg = s.cfg := hcfg2.trans hcfg1
  refine ⟨hcfg3.trans hcfg, hg3.trans (hg2.trans hg1), ?_, hun3⟩
  rw [hfiled3, hcfg]

theorem agrees_of_filed {s : Proc} (h : s.filed = some s.cfg) : Agrees s := by
  intro m hm k
  rw [h] at hm
  cases hm
  rfl

theorem saveConfig_ok {env : Env} {s s' : Proc} (h : saveConfig env s = .ok () s') :
    (s.gChange = false ∧ s' = s) ∨
      (s.gChange = true ∧ s'.cfg = s.cfg ∧ s'.gChange = false ∧ s'.filed = some s.cfg ∧ s'.unmarked = false) := by
  unfold saveConfig at h
  rw [bind_of_ok (get_ok s)] at h
  cases hg : s.gChange with
  | false =>
    rw [if_neg (by simp [hg])] at h
    cases h
    exact .inl ⟨rfl, rfl⟩
  | true =>
    rw [if_pos hg] at h
    exact .inr ⟨rfl, writeConfig_ok h⟩

theorem parse_ok {env : Env} {s s' : Proc} {cfg : Config} (h : parse env s = .ok cfg s') :
    s'.filed = some cfg ∧ s'.unmarked = false := by
  unfold parse at h
  rw [bind_of_ok (get_ok s)] at h
  split at h
  · obtain ⟨_, s1, _, h2⟩ := bind_eq_ok.mp h
    cases h2
  · cases hr : (s.disk .conf).bind (readConfig env) with
    | none =>
      rw [hr] at h
      cases h
    | some m =>
      rw [hr] at h
      cases h
      exact ⟨rfl, rfl⟩

theorem load_ok {env : Env} {s s' : Proc} (h : load env s = .ok () s') : s'.filed = some s'.cfg := by
  obtain ⟨_, s1, _, h2⟩ := bind_eq_ok.mp h
  obtain ⟨cfg, s2, h3, h4⟩ := bind_eq_ok.mp h2
  rw [bind_of_ok (modify_ok _ s2)] at h4
  split at h4
  · obtain ⟨_, s3, _, h5⟩ := bind_eq_ok.mp h4
    cases h5
  · cases h4
    exact (parse_ok h3).1

/-- `checkcfg` changes nothing, or the value and the flag. -/
theorem checkcfg_ok {key : Bytes} {new : Option Bytes} {s s' : Proc} {b : Bool} (h : checkcfg key new s = .ok b s') :
    s' = s ∨ s' = { s with cfg := s.cfg.set key new, gChange := true } := by
  unfold checkcfg at h
  split at h
  · cases h
  · have hget : getCfg key s = .ok (s.cfg.lookup key) s := rfl
    rw [bind_of_ok hget] at h
    cases new with
    | none =>
      cases ho : s.cfg.lookup key with
      | none =>
        rw [ho] at h
        cases h
        exact .inl rfl
      | some o =>
        rw [ho] at h
        cases h
        exact .inr rfl
    | some v =>
      cases ho : s.cfg.lookup key with
      | none =>
        rw [ho] at h
        cases h
        exact .inr rfl
      | some o =>
        rw [ho] at h
        simp only at h
        split at h
        · cases h
          exact .inr rfl
        · cases h
          exact .inl rfl

/-! ## Runs -/

theorem marked_step (env : Env) (s : Proc) (op : Op) (s' : Proc) (hs : Marked s) (hq : Flagged s op)
    (h : opStep env op s = .ok () s') : Marked s' ∧ (op = .save → Agrees s') := by
  cases op with
  | load => exact ⟨fun _ _ => agrees_of_filed (load_ok h), nofun⟩
  | set k v =>
    cases h
    refine ⟨fun hg hun => ?_, nofun⟩
    simp only [Bool.or_eq_false_iff, ne_eq, decide_not, Bool.not_eq_eq_eq_not, Bool.not_false,
      decide_eq_true_eq] at hun
    intro m hm q
    rw [hs hg hun.1 m hm q]
    by_cases hk : q = k
    · subst hk
      rw [AList.lookup_insert, hun.2]
    · rw [AList.lookup_insert_ne hk]
  | checkcfg k new =>
    obtain ⟨b, s1, h1, h2⟩ := bind_eq_ok.mp h
    cases h2
    rcases checkcfg_ok h1 with rfl | rfl
    · exact ⟨hs, nofun⟩
    · exact ⟨nofun, nofun⟩
  | save =>
    rcases saveConfig_ok h with ⟨hg, rfl⟩ | ⟨_, hcfg, _, hfiled, _⟩
    · refine ⟨hs, fun _ => ?_⟩
      rcases hq with hq | hq
      · rw [hg] at hq
        cases hq
      · exact hs hg hq
    · have hagree : Agrees s' := agrees_of_filed (hfiled.trans (congrArg some hcfg.symm))
      exact ⟨fun _ _ => hagree, fun _ => hagree⟩

theorem marked_boot (disk : Disk) : Marked (.boot disk) := fun _ _ _ hm => nomatch hm

/-- **After every save of a run whose changes were flagged, file and memory agree.** -/
theorem agrees_after_save (env : Env) (disk : Disk) (ops : List Op) (s' : Proc)
    (h : runAll (opStep env) (ops ++ [.save]) (.boot disk) = .ok () s')
    (hq : Along (opStep env) Flagged (.boot disk) (ops ++ [.save])) : Agrees s' := by
  obtain ⟨s1, h1, h2⟩ := runAll_append_ok.mp h
  obtain ⟨s2, h3, h4⟩ := runAll_cons_ok.mp h2
  cases h4
  have hs1 : Marked s1 := run_invariant (fun s i s' hs hq h => (marked_step env s i s' hs hq h).1)
    (marked_boot disk) hq.prefix h1
  exact (marked_step env s1 .save _ hs1 (hq.at_step h1) h3).2 rfl

/-! ## The map on file -/

/-- The file has been written from the map last written, or is read as the map last read. -/
def Tied (env : Env) (s : Proc) : Prop :=
  ∀ m, s.filed = some m → ∃ text, s.disk .conf = some text ∧ (text = fileText env m ∨ readConfig env text = some m)

theorem onDisk_disk {f : Disk → Disk} {s s' : Proc} {u : Unit} (h : onDisk f s = .ok u s') : s'.disk = f s.disk := by
  unfold onDisk at h
  split at h
  · cases h
    rfl
  · cases h
  · cases h
    rfl

theorem writeText_disk {p : Path} {text : Bytes} {s s' : Proc} (h : writeText p text s = .ok () s') :
    s'.disk p = (s.disk p).map (· ++ text) := by
  unfold writeText at h
  induction text generalizing s with
  | nil =>
    cases h
    simp
  | cons c text ih =>
    obtain ⟨s1, h1, h2⟩ := runAll_cons_ok.mp h
    rw [ih h2, onDisk_disk h1, Disk.set_same, Option.map_map]
    simp [Function.comp_def]

theorem rename_disk {a b : Path} {s s' : Proc} (h : rename a b s = .ok true s') :
    s'.disk = (s.disk.set a none).set b (s.disk a) := by
  unfold rename at h
  rw [bind_of_ok (get_ok s)] at h
  cases hd : s.disk a with
  | none =>
    simp only [hd] at h
    cases h
  | some content =>
    simp only [hd] at h
    obtain ⟨_, s1, h1, h2⟩ := bind_eq_ok.mp h
    cases h2
    exact onDisk_disk h1

theorem replaceFile_disk {s s' : Proc} (h : replaceFile s = .ok () s') : s'.disk .conf = s.disk .tmp := by
  obtain ⟨ok, s1, h1, h2⟩ := bind_eq_ok.mp h
  cases ok with
  | true =>
    cases h2
    exact (congrFun (rename_disk h1) .conf).trans (Disk.set_same ..)
  | false =>
    obtain ⟨_, s2, _, h3⟩ := bind_eq_ok.mp h2
    cases h3

theorem moveFiles_disk {s s' : Proc} (h : moveFiles s = .ok () s') : s'.disk .conf = s.disk .tmp := by
  obtain ⟨ok, s1, h1, h2⟩ := bind_eq_ok.mp h
  cases ok with
  | true =>
    obtain ⟨_, s2, h3, h4⟩ := bind_eq_ok.mp h2
    have htmp : s1.disk .tmp = s.disk .tmp := by
      rw [rename_disk h1]
      simp [Disk.set]
    rw [onDisk_disk h4, Disk.set_other _ _ (by decide), replaceFile_disk h3, htmp]
  | false => cases h2

/-- A save that writes leaves the text of the map in memory. -/
theorem writeConfig_disk {env : Env} {s s' : Proc} (h : writeConfig env s = .ok () s') :
    s'.disk .conf = some (fileText env s.cfg) := by
  unfold writeConfig at h
  rw [bind_of_ok (modify_ok _ s), bind_of_ok (get_ok _)] at h
  simp only [saveText_eq] at h
  obtain ⟨_, s1, h1, h2⟩ := bind_eq_ok.mp h
  obtain ⟨_, s2, h3, h4⟩ := bind_eq_ok.mp h2
  rw [moveFiles_disk h4, writeText_disk h3, onDisk_disk h1, Disk.set_same]
  rfl

theorem parse_disk {env : Env} {s s' : Proc} {cfg : Config} (h : parse env s = .ok cfg s') :
    ∃ text, s'.disk .conf = some text ∧ readConfig env text = some cfg := by
  unfold parse at h
  rw [bind_of_ok (get_ok s)] at h
  split at h
  · obtain ⟨_, s1, _, h2⟩ := bind_eq_ok.mp h
    cases h2
  · cases hr : (s.disk .conf).bind (readConfig env) with
    | none =>
      rw [hr] at h
      cases h
    | some m =>
      rw [hr] at h
      cases h
      exact Option.bind_eq_some_iff.mp hr

theorem load_disk {env : Env} {s s' : Proc} (h : load env s = .ok () s') :
    ∃ text, s'.disk .conf = some text ∧ readConfig env text = some s'.cfg := by
  obtain ⟨_, s1, _, h2⟩ := bind_eq_ok.mp h
  obtain ⟨cfg, s2, h3, h4⟩ := bind_eq_ok.mp h2
  rw [bind_of_ok (modify_ok _ s2)] at h4
  split at h4
  · obtain ⟨_, s3, _, h5⟩ := bind_eq_ok.mp h4
    cases h5
  · cases h4
    obtain ⟨text, hconf, hread⟩ := parse_disk h3
    exact ⟨text, hconf, hread⟩

theorem tied_step (env : Env) {s s' : Proc} {op : Op} (hs : Tied env s) (h : opStep env op s = .ok () s') :
    Tied env s' := by
  intro m hm
  cases op with
  | load =>
    obtain ⟨text, hconf, hread⟩ := load_disk h
    rw [load_ok h, Option.some.injEq] at hm
    exact ⟨text, hconf, .inr (hm ▸ hread)⟩
  | set k v =>
    cases h
    exact hs m hm
  | checkcfg k new =>
    obtain ⟨b, s1, h1, h2⟩ := bind_eq_ok.mp h
    cases h2
    rcases checkcfg_ok h1 with rfl | rfl
    · exact hs m hm
    · exact hs m hm
  | save =>
    rcases saveConfig_ok h with ⟨_, rfl⟩ | ⟨hg, _, _, hfiled, _⟩
    · exact hs m hm
    · have hwrite : writeConfig env s = .ok () s' := by
        have h : saveConfig env s = .ok () s' := h
        unfold saveConfig at h
        rwa [bind_of_ok (get_ok s), if_pos hg] at h
      rw [hfiled, Option.some.injEq] at hm
      exact ⟨_, writeConfig_disk hwrite, .inl (by rw [hm])⟩

/-- **In every run the map last written or read is the one of the file.** -/
theorem tied_run (env : Env) (disk : Disk) (ops : List Op) (s' : Proc)
    (h : runAll (opStep env) ops (.boot disk) = .ok () s') : Tied env s' :=
  run_invariant (fun _ _ _ hs _ h => tied_step env hs h) (show Tied env (.boot disk) from fun _ hm => nomatch hm)
    (along_true ops) h

/-- The default configuration of the examples: an account, a version, the bands. -/
def bandsFile : Bytes :=
  ascii "\x7b\"a#account\":\"x\",\"a#version\":\"1\",\"a#barr\":\"[]\"\x7d"

def bandsDisk : Disk := fun p => if p = .conf then some bandsFile else none

/-- Loading, giving the band list, changing the address. -/
def bandsRun : List Op :=
  [.load, .set (ascii "a#barr") (ascii "5g"), .checkcfg (ascii "a#ip") (some (ascii "2"))]

theorem agrees_after_save_two :
    Agrees (finalState (runAll (opStep (.listed none)) (bandsRun ++ [.save]) (.boot bandsDisk))) := by
  refine agrees_after_save (.listed none) bandsDisk bandsRun _ (eq_ok_of_returned ?_)
    (Along.mono (fun _ _ h => of_decide_eq_true h)
      (along_of_check (p := fun s op => decide (Flagged s op)) ?_))
  · decide +kernel
  · decide +kernel

/-- `upload` without a WLAN to remove sets the band list and saves nothing. -/
theorem band_list_lost :
    let s := finalState ((load (.listed none) >>= fun _ =>
      upload (.listed none) [ascii "5g"] .null (.num (.fin 1))) (.boot bandsDisk))
    s.cfg.lookup (key "c_barr") = some (ascii "[\"5g\"]") ∧
      (s.filed.map fun m => m.lookup (key "c_barr")) = some (some (ascii "[]")) ∧
      s.disk .conf = some bandsFile := by
  decide +kernel

end ApApps.Cfg

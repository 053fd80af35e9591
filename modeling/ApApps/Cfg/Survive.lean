import ApApps.Cfg.Text

/- What is left of the configuration when the power is lost during `save_config`.

   `const.ap_config` is to name a complete file with the old or the new map at every point
   (`Survives`). It does except in two cases, and `save_survives` says that there is no
   other: between the two renames no file has the name, and `load` falls back to the default
   configuration; and the new file is not read as the map in memory where a string of it
   ends in a comma (`readBack`), unless that happens to be the old map. -/
namespace ApApps.Cfg
open Exec ApApps.Cjson

/-- `load` goes on with the map: it is none of the old format. -/
def Accepted (m : Config) : Prop := m.lookup (ascii "config/country") = none

theorem load_of_readConfig {env : Env} {s : Proc} {text : Bytes} {m : Config} (hconf : s.disk .conf = some text)
    (h : readConfig env text = some m) (hacc : Accepted m) :
    load env s = .ok () { s with filed := some m, unmarked := false, cfg := m } := by
  have hensure : ensureFile env s = .ok () s := by
    unfold ensureFile
    rw [bind_of_ok (get_ok s)]
    simp only [hconf, Option.isSome_some, if_true]
    rfl
  unfold load
  rw [bind_of_ok hensure, bind_of_ok (parse_of_readConfig hconf h), bind_of_ok (modify_ok _ _)]
  rw [Accepted] at hacc
  simp only [hacc, Option.isSome_none]
  rfl

/-- The file is complete and has the old or the new map, and the next `load` obtains it. -/
structure Survives (env : Env) (old new : Config) (d : Disk) : Prop where
  complete : ∃ text m, d .conf = some text ∧ readConfig env text = some m ∧
    (m.lookup = old.lookup ∨ m.lookup = new.lookup)
  noFallback : Event.restore ∉ (finalState (load env (.boot d))).log
  obtains : Accepted old → Accepted new → ∃ s', load env (.boot d) = .ok () s' ∧
    (s'.cfg.lookup = old.lookup ∨ s'.cfg.lookup = new.lookup)

/-- A complete file is all that the next `load` needs. -/
theorem survives_of_read {env : Env} {old new m : Config} {d : Disk} {text : Bytes} (hconf : d .conf = some text)
    (hread : readConfig env text = some m) (hm : m.lookup = old.lookup ∨ m.lookup = new.lookup) :
    Survives env old new d := by
  refine ⟨⟨text, m, hconf, hread, hm⟩, ?_, fun hold hnew => ?_⟩
  · rw [load_log env (s := .boot d) hconf]
    exact List.not_mem_nil
  · have hacc : Accepted m := by
      rcases hm with hm | hm
      · exact (congrFun hm _).trans hold
      · exact (congrFun hm _).trans hnew
    exact ⟨_, load_of_readConfig (s := .boot d) hconf hread hacc, hm⟩

theorem not_survives_of_missing {env : Env} {old new : Config} {d : Disk} (hd : d .conf = none) :
    ¬ Survives env old new d := by
  rintro ⟨⟨text, m, hconf, _, _⟩, _, _⟩
  rw [hd] at hconf
  cases hconf

/-- The file of the new map survives if that map, or the old one, is what is read from it. -/
theorem survives_new_iff {env : Env} {old new : Config} {d : Disk} (hconf : d .conf = some (fileText env new)) :
    Survives env old new d ↔ CommaFree new ∨ readBack env new = old.lookup := by
  obtain ⟨m, hread, hback⟩ := readConfig_fileText env new
  constructor
  · rintro ⟨⟨text, m', hconf', hread', hm⟩, _, _⟩
    rw [hconf, Option.some.injEq] at hconf'
    subst hconf'
    rw [hread, Option.some.injEq] at hread'
    subst hread'
    rw [hback, readBack_eq_iff] at hm
    exact hm.symm
  · intro h
    refine survives_of_read hconf hread ?_
    rw [hback, readBack_eq_iff]
    exact h.symm

/-- **When saving survives a loss of power.** Nothing is saved, or the power is not lost
between the two renames and, if it lasts for the second one, the new file is read as the
new map or as the old one. -/
theorem save_survives (env : Env) (s : Proc) (text : Bytes) (old : Config) (hconf : s.disk .conf = some text)
    (hold : readConfig env text = some old) (n : Nat) :
    Survives env old s.cfg (finalState (saveConfig env { s with power := some n })).disk ↔
      (s.gChange = true → n ≠ (fileText env s.cfg).length + 2 ∧
        ((fileText env s.cfg).length + 2 < n → CommaFree s.cfg ∨ readBack env s.cfg = old.lookup)) := by
  unfold saveConfig
  rw [bind_of_ok (get_ok _)]
  simp only
  by_cases hg : s.gChange = true
  · rw [if_pos hg]
    have hend : (finalState (writeConfig env { s with power := some n })).disk .conf =
        if n ≤ (fileText env s.cfg).length + 1 then some text
        else if n = (fileText env s.cfg).length + 2 then none
        else some (fileText env s.cfg) :=
      writeConfig_conf env (s := { s with power := some n }) hconf rfl
    rcases Nat.lt_trichotomy n ((fileText env s.cfg).length + 2) with hn | hn | hn
    · -- before the first rename
      rw [if_pos (by omega)] at hend
      exact ⟨fun _ _ => ⟨by omega, fun h => by omega⟩, fun _ => survives_of_read hend hold (.inl rfl)⟩
    · -- between the renames
      rw [if_neg (by omega), if_pos hn] at hend
      exact ⟨fun h => absurd h (not_survives_of_missing hend), fun h => absurd hn (h hg).1⟩
    · -- after the second
      rw [if_neg (by omega), if_neg (by omega)] at hend
      rw [survives_new_iff hend]
      exact ⟨fun h _ => ⟨by omega, fun _ => h⟩, fun h => (h hg).2 hn⟩
  · rw [if_neg hg]
    exact ⟨fun _ h => absurd h hg, fun _ => survives_of_read hconf hold (.inl rfl)⟩

/-- The file `addressChanged` has been started with. -/
def addressFile : Bytes := ascii "\x7b\"a#ip\":\"1\"\x7d"

def addressOld : Config := AList.insert (ascii "a#ip") (ascii "1") ∅

theorem readConfig_addressFile : readConfig (.listed none) addressFile = some addressOld := by
  have hentries : (readConfig (.listed none) addressFile).map AList.entries = some addressOld.entries := by
    decide +kernel
  obtain ⟨m, hm, h⟩ := Option.map_eq_some_iff.mp hentries
  rw [hm, AList.ext h]

theorem save_survives_start :
    Survives (.listed none) addressOld addressChanged.cfg
      (finalState (saveConfig (.listed none) { addressChanged with power := some 3 })).disk := by
  refine (save_survives (.listed none) addressChanged addressFile addressOld rfl
    readConfig_addressFile 3).mpr fun _ => ?_
  have hlen : (fileText (.listed none) addressChanged.cfg).length = 12 := by decide +kernel
  rw [hlen]
  exact ⟨by decide, fun h => absurd h (by decide)⟩

/-- Between the renames there is no configuration, and `load` falls back to the default. -/
theorem file_missing :
    let env := Env.listed (some (ascii "\x7b\"a#ip\":\"0\"\x7d"))
    let d := (finalState (saveConfig env { addressChanged with power := some 14 })).disk
    ¬ Survives env addressOld addressChanged.cfg d ∧
      d .conf = none ∧ Event.restore ∈ (finalState (load env (.boot d))).log ∧
      (finalState (load env (.boot d))).cfg.lookup (ascii "a#ip") = some (ascii "0") := by
  intro env d
  have hd : d .conf = none := by decide +kernel
  exact ⟨not_survives_of_missing hd, hd, by decide +kernel, by decide +kernel⟩

end ApApps.Cfg

import ApApps.Sand.Tidy

/- Two brokers that a command does the same to.

   `LockStep R fd c` says that the relation `R` between two brokers is kept by each of
   the changes a command of the connection `c` is made of. Then a whole command keeps
   it and returns the same on both sides (`LockStep.calmHandle`). The two climaps of
   `c` may differ in their buffers. -/
namespace ApApps.Sand
open Incremental ApApps.Redis Exec

structure LockStep (env : Env) (R : St → St → Prop) (fd : Fd) (c : Conn) : Prop where
  lookup : ∀ {s s'}, R s s' → s'.clientmap.lookup fd = s.clientmap.lookup fd
  only : ∀ {s s'}, R s s' → ∀ c', s.clientmap.lookup fd = some c' → c' = c
  climap : ∀ {s s'}, R s s' → ∃ m data, s.heap c = some m ∧ s'.heap c = some { m with data }
  ids : ∀ {s s'}, R s s' → s'.clientid2fd = s.clientid2fd
  logged : ∀ {s s' c' msg frame ok}, R s s' →
    R (s.logged (.write c' msg frame ok)) (s'.logged (.write c' msg frame ok))
  prepared : ∀ {s s' m data}, R s s' → s.heap c = some m → s'.heap c = some { m with data } →
    ∀ map, R (s.prepared fd c m map) (s'.prepared fd c { m with data } map)
  identified : ∀ {s s'}, R s s' → ∀ cd, R (s.identified cd fd) (s'.identified cd fd)
  authorized : ∀ {s s' m data}, R s s' → s.heap c = some m → s'.heap c = some { m with data } →
    R (s.authorized c m) (s'.authorized c { m with data })
  shut : ∀ {s s' m data}, R s s' → s.clientmap.lookup fd = some c → s.heap c = some m →
    s'.heap c = some { m with data } → R (s.shut fd c m) (s'.shut fd c { m with data })
  published : ∀ {s s'}, R s s' → ∀ topic payload,
    R (s.published env topic payload) (s'.published env topic payload)

namespace LockStep
variable {env : Env} {R : St → St → Prop} {fd : Fd} {c : Conn} {s s' : St}

theorem refusal_eq (h : LockStep env R fd c) (hR : R s s') (map : Fields) :
    refusal s' map = refusal s map := by
  unfold refusal
  rw [h.ids hR]

theorem calmClose (h : LockStep env R fd c) (hR : R s s') :
    R (s.calmClose env fd) (s'.calmClose env fd) := by
  have hlookup := h.lookup hR
  cases hl : s.clientmap.lookup fd with
  | none =>
    rw [hl] at hlookup
    rw [calmClose_none hl, calmClose_none hlookup]
    exact hR
  | some c' =>
    obtain rfl := h.only hR c' hl
    rw [hl] at hlookup
    obtain ⟨m, data, hh, hh'⟩ := h.climap hR
    rw [calmClose_eq hl hh, calmClose_eq hlookup hh']
    have hshut := h.shut hR hl hh hh'
    unfold St.closed
    simp only
    cases m.param.bind Param.will with
    | none => exact hshut
    | some will => exact h.published hshut will.1 will.2

theorem announced (h : LockStep env R fd c) (hR : R s s') (map : Fields) :
    R (s.announced env map) (s'.announced env map) := by
  unfold St.announced
  cases connectMessage map with
  | none => exact hR
  | some msg => exact h.published hR msg.1 msg.2

theorem admitted (h : LockStep env R fd c) (hR : R s s') {m : Climap} {data : Bytes}
    (hh : s.heap c = some m) (hh' : s'.heap c = some { m with data }) (map : Fields) :
    R (s.admitted env fd c m map) (s'.admitted env fd c { m with data } map) := by
  have hann := h.announced (h.identified (h.prepared hR hh hh' map) (cdOf map)) map
  have hself : ∀ (s : St) (m : Climap),
      (((s.prepared fd c m map).identified (cdOf map) fd).announced env map).heap c =
        some { m with param := some (cnParam map) } := by
    intro s m
    rw [heap_announced]
    exact Function.update_self c _ _
  exact h.logged (h.authorized hann (hself s m) (hself s' { m with data }))

/-- A command returns the same on both sides. -/
theorem calmCommand (h : LockStep env R fd c) (hR : R s s') {m : Climap} {data : Bytes}
    (hh : s.heap c = some m) (hh' : s'.heap c = some { m with data }) (map : Fields) (cmd : Cmd) :
    (calmCommand env fd c { m with data } map s' cmd).1 = (calmCommand env fd c m map s cmd).1 ∧
      R (calmCommand env fd c m map s cmd).2 (calmCommand env fd c { m with data } map s' cmd).2 := by
  obtain ⟨fd0, data0, param, state, timer, client⟩ := m
  unfold ApApps.Sand.calmCommand
  cases cmd with
  | cn =>
    cases state with
    | stAuth => exact ⟨rfl, h.logged hR⟩
    | stNew =>
      simp only [h.refusal_eq hR]
      cases refusal s map with
      | some err => exact ⟨rfl, h.logged (h.prepared hR hh hh' map)⟩
      | none => exact ⟨rfl, h.admitted hR hh hh' map⟩
  | dc => exact ⟨rfl, h.calmClose hR⟩
  | pb =>
    cases state with
    | stNew => exact ⟨rfl, hR⟩
    | stAuth =>
      cases map.get "tp" with
      | none => exact ⟨rfl, hR⟩
      | some topic =>
        cases map.get "pl" with
        | none => exact ⟨rfl, hR⟩
        | some payload => exact ⟨rfl, h.published hR topic payload⟩
  | pi =>
    cases state with
    | stNew => exact ⟨rfl, hR⟩
    | stAuth => exact ⟨rfl, h.logged hR⟩

/-- **A command in both brokers.** -/
theorem calmHandle (h : LockStep env R fd c) (hR : R s s') (m : Climap) (data : Bytes)
    (hh : s.heap c = some m) (hh' : s'.heap c = some { m with data }) (map : Fields) (cmd : Cmd) :
    (calmHandle env fd c { m with data } map s' cmd).1 = (calmHandle env fd c m map s cmd).1 ∧
      R (calmHandle env fd c m map s cmd).2 (calmHandle env fd c { m with data } map s' cmd).2 := by
  obtain ⟨hret, hstate⟩ := h.calmCommand hR hh hh' map cmd
  unfold ApApps.Sand.calmHandle
  cases hcmd : ApApps.Sand.calmCommand env fd c m map s cmd with
  | mk r s1 =>
    cases hcmd' : ApApps.Sand.calmCommand env fd c { m with data } map s' cmd with
    | mk r' s1' =>
      rw [hcmd, hcmd'] at hret hstate
      have hret : r' = r := hret
      subst hret
      cases r' with
      | none => exact ⟨rfl, hstate⟩
      | some err => exact ⟨rfl, h.calmClose hstate⟩

end LockStep

/-! ## Frames -/

/-- The frames written to the connection. -/
def framesTo (c : Conn) (log : List Out) : List Bytes :=
  log.filterMap fun
    | .write c' _ frame _ => if c' = c then some frame else none
    | _ => none

@[simp] theorem framesTo_append (c : Conn) (log log' : List Out) :
    framesTo c (log ++ log') = framesTo c log ++ framesTo c log' := List.filterMap_append

/-- A publication writes its frame to a connection once for every descriptor of it. -/
theorem framesTo_deliveries {env : Env} (s : St) (topic payload : Bytes) (fds : List Fd) (c : Conn) :
    framesTo c (s.deliveries env topic payload fds) =
      List.replicate (fds.countP fun fd => s.clientmap.lookup fd = some c)
        (env.frame (.pb topic payload)) := by
  induction fds with
  | nil => rfl
  | cons fd fds ih =>
    cases hl : s.clientmap.lookup fd with
    | none =>
      rw [List.countP_cons_of_neg (by simp [hl]), ← ih]
      simp only [St.deliveries, List.filterMap_cons, hl, Option.map_none]
    | some c' =>
      have hcons : s.deliveries env topic payload (fd :: fds) =
          .write c' (.pb topic payload) (env.frame (.pb topic payload)) true ::
            s.deliveries env topic payload fds := by
        simp only [St.deliveries, List.filterMap_cons, hl, Option.map_some]
      rw [hcons]
      by_cases hcc : c' = c
      · rw [List.countP_cons_of_pos (by simp [hl, hcc]), List.replicate_succ, ← ih]
        simp only [framesTo, List.filterMap_cons, hcc, if_true]
      · rw [List.countP_cons_of_neg (by simp [hl, hcc]), ← ih]
        simp only [framesTo, List.filterMap_cons, hcc, if_false]

/-- The order in which the subscribers are served makes no difference. -/
theorem framesTo_published {env : Env} {s s' : St} {c : Conn} (topic payload : Bytes)
    (hsubs : s'.subs topic = s.subs topic)
    (hlookup : ∀ fd, s'.clientmap.lookup fd = some c ↔ s.clientmap.lookup fd = some c)
    (hlog : framesTo c s'.log = framesTo c s.log) :
    framesTo c (s'.published env topic payload).log =
      framesTo c (s.published env topic payload).log := by
  have hperm : (env.visit s'.log (s'.subs topic)).Perm (env.visit s.log (s.subs topic)) := by
    rw [hsubs]
    exact (env.visit_perm _ _).trans (env.visit_perm _ _).symm
  simp only [St.published, framesTo_append, framesTo_deliveries, hlog, hlookup, hperm.countP_eq]

end ApApps.Sand

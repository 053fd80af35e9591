import ApApps.Sand.Runs

/- Between two callbacks every registered connection is either new, without any
   parameters, or authorized with those of a cn command that passed every check; and
   no other state is seen by the other connections, because a refused connection is
   closed before anything is published on its behalf (`refused_cascade`). -/
namespace ApApps.Sand
open Incremental ApApps.Redis Exec

/-- The command passes the checks of `cmd_map.cn` that do not look at the broker. -/
def accepts (map : Fields) : Prop := passes map = true ∧ [] ∉ partsOf map

/-- A connection that has not sent a cn command. -/
structure Climap.Fresh (m : Climap) : Prop where
  state : m.state = .stNew
  param : m.param = none

/-- A connection whose cn command `map` was accepted. -/
structure Climap.Accepted (m : Climap) (map : Fields) : Prop where
  state : m.state = .stAuth
  param : m.param = some (cnParam map)
  accepts : accepts map

theorem Climap.Same.fresh {m m' : Climap} (h : m.Same m') (hf : m.Fresh) : m'.Fresh :=
  ⟨h.state.trans hf.state, h.param.trans hf.param⟩

theorem Climap.Same.accepted {m m' : Climap} {map : Fields} (h : m.Same m')
    (ha : m.Accepted map) : m'.Accepted map :=
  ⟨h.state.trans ha.state, h.param.trans ha.param, ha.accepts⟩

theorem cnParam_topics {map : Fields} (h : accepts map) : (cnParam map).topics = partsOf map := by
  have htp : (cnParam map).tp = some (.table (partsOf map)) := if_pos h
  simp only [Param.topics, htp]

/-- The topics of a refused command are not in a table. -/
theorem cnParam_topics_raw {map : Fields} (h : ¬ accepts map) : (cnParam map).topics = [] := by
  have hraw : (cnParam map).tp = (map.get "tp").map .raw := if_neg h
  unfold Param.topics
  rw [hraw]
  cases map.get "tp" <;> rfl

theorem registered_eq {map : Fields} (h : accepts map) : registered map = partsOf map := by
  rw [registered, if_pos h.1, List.takeWhile_eq_self_iff]
  intro part hpart
  simp only [decide_eq_true_eq]
  rintro rfl
  exact h.2 hpart

theorem accepts_of_refusal {s : St} {map : Fields} (h : refusal s map = none) :
    accepts map ∧ s.clientid2fd (cdOf map) = none := by
  unfold refusal at h
  split at h
  · cases h
  rename_i hvalid
  split at h
  · cases h
  rename_i hversion
  split at h
  · cases h
  rename_i hpass
  split at h
  · cases h
  rename_i hparts
  split at h
  · cases h
  rename_i hcd
  simp only [Bool.not_eq_false] at hvalid hversion hpass
  refine ⟨⟨?_, hparts⟩, by simpa using hcd⟩
  simp only [passes, hvalid, hversion, hpass, Bool.and_self]

/-- A command that passes every check is not refused. -/
theorem refusal_eq_none {s : St} {map : Fields} (ha : accepts map)
    (hfree : s.clientid2fd (cdOf map) = none) : refusal s map = none := by
  obtain ⟨hpasses, hparts⟩ := ha
  simp only [passes, Bool.and_eq_true] at hpasses
  obtain ⟨⟨hvalid, hversion⟩, hpass⟩ := hpasses
  unfold refusal
  rw [if_neg (by simp [hvalid]), if_neg (by simp [hversion]), if_neg (by simp [hpass]),
    if_neg hparts, if_neg (by simp [hfree])]

section Moves
variable {env : Env} {P : St → Conn → Fields → Prop} {s s' : St}

/-- The broker once a refused connection has been taken out of the tables. -/
def St.expelled (s : St) (env : Env) (fd : Fd) (c : Conn) (m : Climap) (map : Fields)
    (err : Bytes) : St :=
  ((s.prepared fd c m map).refusedWith env c err).shut fd c { m with param := some (cnParam map) }

/-- What a refused cn command leads to starts after the connection has been closed. -/
theorem refused_cascade {fd : Fd} {c : Conn} {m : Climap} {map : Fields} {err : Bytes} (hw : WF s)
    (hl : s.clientmap.lookup fd = some c) (hh : s.heap c = some m)
    (hclose : closeClient env fd err ((s.prepared fd c m map).refusedWith env c err) = .ok () s') :
    Cascade env (s.expelled env fd c m map err) s' := by
  obtain ⟨m0, h0, _, ht, hc⟩ := hw.live fd c hl
  rw [hh] at h0
  cases h0
  exact (closeClient_live (s := (s.prepared fd c m map).refusedWith env c err) hl
    (Function.update_self c _ _) ht hc hclose).1

theorem lookup_expelled {fd fd' : Fd} {c c' : Conn} {m : Climap} {map : Fields} {err : Bytes}
    (h : (s.expelled env fd c m map err).clientmap.lookup fd' = some c') :
    fd' ≠ fd ∧ s.clientmap.lookup fd' = some c' := by
  have h : (s.clientmap.erase fd).lookup fd' = some c' := h
  by_cases hfd : fd' = fd
  · subst hfd
    rw [AList.lookup_erase] at h
    cases h
  · rw [AList.lookup_erase_ne hfd] at h
    exact ⟨hfd, h⟩

theorem heap_expelled {fd : Fd} {c c' : Conn} {m : Climap} {map : Fields} {err : Bytes}
    (hcc : c' ≠ c) : (s.expelled env fd c m map err).heap c' = s.heap c' :=
  (Function.update_of_ne hcc _ _).trans (Function.update_of_ne hcc _ _)

theorem heap_prepared (fd : Fd) {c c' : Conn} {m : Climap} {map : Fields} (hcc : c' ≠ c) :
    (s.prepared fd c m map).heap c' = s.heap c' := Function.update_of_ne hcc _ _

theorem heap_authorized {c c' : Conn} {m : Climap} (hcc : c' ≠ c) :
    (s.authorized c m).heap c' = s.heap c' := Function.update_of_ne hcc _ _

/-- Two registered connections with the same descriptor are the same. -/
theorem WF.ne_of_fd_ne (hw : WF s) {fd fd' : Fd} {c c' : Conn}
    (hl : s.clientmap.lookup fd = some c) (hl' : s.clientmap.lookup fd' = some c')
    (hne : fd' ≠ fd) : c' ≠ c := by
  rintro rfl
  obtain ⟨m, hm, hfd, _⟩ := hw.live fd c' hl
  obtain ⟨m', hm', hfd', _⟩ := hw.live fd' c' hl'
  rw [hm] at hm'
  cases hm'
  exact hne (hfd'.symm.trans hfd)

/-! ## The invariant -/

/-- Every registered connection but `x` is new or accepted. -/
def Settled (x : Option Conn) (s : St) : Prop :=
  ∀ fd c m, s.clientmap.lookup fd = some c → s.heap c = some m → some c ≠ x →
    m.Fresh ∨ ∃ map, m.Accepted map

theorem Settled.new : Settled none .new := by
  intro fd c m hl
  simp [St.new] at hl

/-- A registered connection in `st_new` has not sent a cn command. -/
theorem Settled.fresh (h : Settled none s) {fd : Fd} {c : Conn} {m : Climap}
    (hl : s.clientmap.lookup fd = some c) (hh : s.heap c = some m) (hst : m.state = .stNew) :
    m.Fresh := by
  rcases h fd c m hl hh (by simp) with hf | ⟨map, ha⟩
  · exact hf
  · have hauth := ha.state
    rw [hst] at hauth
    cases hauth

theorem Settled.connected (h : Settled none s) {c : Conn} {fd : Fd} :
    Settled none (s.connected c fd) := by
  intro fd' c' m hl hh _
  by_cases hcc : c' = c
  · subst hcc
    have hh : some _ = some m := (Function.update_self c' _ s.heap).symm.trans hh
    cases hh
    exact .inl ⟨rfl, rfl⟩
  · have hh : s.heap c' = some m := (Function.update_of_ne hcc _ _).symm.trans hh
    have hfd : fd' ≠ fd := by
      rintro rfl
      have hself : (s.connected c fd').clientmap.lookup fd' = some c := AList.lookup_insert _
      rw [hself] at hl
      exact hcc (Option.some.inj hl).symm
    have hl : s.clientmap.lookup fd' = some c' := (AList.lookup_insert_ne hfd).symm.trans hl
    exact h fd' c' m hl hh (by simp)

theorem Settled.cascade {x : Option Conn} (h : Settled x s) (hc : Cascade env s s') :
    Settled x s' := by
  intro fd c m' hl hh hx
  rcases hc.heap_same c with ⟨_, hnone⟩ | ⟨m, m1, h0, h1, hsame⟩
  · rw [hh] at hnone
    cases hnone
  · rw [hh] at h1
    cases h1
    rcases h fd c m (hc.lookup_of hl) h0 hx with hf | ⟨map, ha⟩
    · exact .inl (hsame.fresh hf)
    · exact .inr ⟨map, hsame.accepted ha⟩

theorem Settled.expelled (h : Settled none s) (hw : WF s) {fd : Fd} {c : Conn} {m : Climap}
    {map : Fields} {err : Bytes} (hl : s.clientmap.lookup fd = some c) :
    Settled none (s.expelled env fd c m map err) := by
  intro fd' c' m' hl' hh' _
  obtain ⟨hfd, hl'⟩ := lookup_expelled hl'
  rw [heap_expelled (hw.ne_of_fd_ne hl hl' hfd)] at hh'
  exact h fd' c' m' hl' hh' (by simp)

theorem Settled.prepared (h : Settled none s) (fd : Fd) {c : Conn} {m : Climap} {map : Fields} :
    Settled (some c) (s.prepared fd c m map) := by
  intro fd' c' m' hl' hh' hx
  have hcc : c' ≠ c := fun h => hx (by rw [h])
  rw [heap_prepared fd hcc] at hh'
  exact h fd' c' m' hl' hh' (by simp)

theorem Settled.authorized {c : Conn} {m : Climap} {map : Fields} (h : Settled (some c) s)
    (hparam : m.param = some (cnParam map)) (ha : accepts map) :
    Settled none (s.authorized c m) := by
  intro fd' c' m' hl' hh' _
  by_cases hcc : c' = c
  · subst hcc
    have hh' : some _ = some m' := (Function.update_self c' _ s.heap).symm.trans hh'
    cases hh'
    exact .inr ⟨map, rfl, hparam, ha⟩
  · rw [heap_authorized hcc] at hh'
    exact h fd' c' m' hl' hh' (by simpa using hcc)

/-- The climap of the admitted connection while its connect message is published. -/
theorem admitted_param {fd : Fd} {c : Conn} {m m1 : Climap} {map : Fields} {s1 : St}
    (hcas : Cascade env ((s.prepared fd c m map).identified (cdOf map) fd) s1)
    (hh1 : s1.heap c = some m1) : m1.param = some (cnParam map) := by
  obtain ⟨m2, h2, hsame⟩ := hcas.heap_some
    (s := (s.prepared fd c m map).identified (cdOf map) fd) (Function.update_self c _ _)
  rw [hh1] at h2
  cases h2
  exact hsame.param

theorem Settled.withData (h : Settled none s) {c : Conn} {m : Climap} (data : Bytes)
    (hh : s.heap c = some m) : Settled none (s.withData c m data) := by
  intro fd' c' m' hl' hh' hx
  by_cases hcc : c' = c
  · subst hcc
    have hh' : some _ = some m' := (Function.update_self c' _ s.heap).symm.trans hh'
    cases hh'
    rcases h fd' c' m hl' hh hx with hf | ⟨map, ha⟩
    · exact .inl ⟨hf.state, hf.param⟩
    · exact .inr ⟨map, ha.state, ha.param, ha.accepts⟩
  · exact h fd' c' m' hl' ((Function.update_of_ne hcc _ _).symm.trans hh') hx

/-- Once a connection is in `st_auth`, its state and parameters stay. -/
theorem Move.auth (h : Move env P s s') (hw : WF s) {c : Conn} {m : Climap} (hh : s.heap c = some m)
    (hauth : m.state = .stAuth) :
    ∃ m', s'.heap c = some m' ∧ m'.state = m.state ∧ m'.param = m.param := by
  have hne : ∀ {fd c' m'}, s.clientmap.lookup fd = some c' → s.heap c' = some m' →
      m'.state = .stNew → c ≠ c' := by
    rintro fd c' m' hl' hh' hst rfl
    rw [hh] at hh'
    cases hh'
    rw [hst] at hauth
    cases hauth
  cases h with
  | tick ht =>
    obtain ⟨m', h', hsame⟩ := Cascade.heap_some (.single ht) hh
    exact ⟨m', h', hsame.state, hsame.param⟩
  | @data c' m' hh' data =>
    by_cases hcc : c = c'
    · subst hcc
      rw [hh] at hh'
      cases hh'
      exact ⟨_, Function.update_self c _ _, rfl, rfl⟩
    · exact ⟨m, (Function.update_of_ne hcc _ _).trans hh, rfl, rfl⟩
  | log => exact ⟨m, hh, rfl, rfl⟩
  | @refused _ fd c' m' map' err hl' hh' hst hr hP hclose =>
    have h0 : (s.expelled env fd c' m' map' err).heap c = some m :=
      (heap_expelled (hne hl' hh' hst)).trans hh
    obtain ⟨m1, h1, hsame⟩ := (refused_cascade hw hl' hh' hclose).heap_some h0
    exact ⟨m1, h1, hsame.state, hsame.param⟩
  | @admitted _ fd c' m' map' _ hl' hh' hst hr hP hadm =>
    have hcc := hne hl' hh' hst
    obtain ⟨s1, m1, hcas, _, _, _, rfl⟩ := admitClient_ok hadm
    have h0 : ((s.prepared fd c' m' map').identified (cdOf map') fd).heap c = some m :=
      (heap_prepared fd hcc).trans hh
    obtain ⟨m2, h2, hsame⟩ := hcas.heap_some h0
    exact ⟨m2, (heap_authorized hcc).trans h2, hsame.state, hsame.param⟩

/-- An accepted command stays with its connection. -/
theorem Move.accepted (h : Move env P s s') (hw : WF s) {c : Conn} {m : Climap} {map : Fields}
    (hh : s.heap c = some m) (ha : m.Accepted map) : ∃ m', s'.heap c = some m' ∧ m'.Accepted map := by
  obtain ⟨m', hh', hst, hparam⟩ := h.auth hw hh ha.state
  exact ⟨m', hh', hst.trans ha.state, hparam.trans ha.param, ha.accepts⟩

end Moves

end ApApps.Sand

import ApApps.Sand.Settled

/- The registry of client ids. `cmd_map.cn` stores the command before it checks it,
   and `close_client` clears `clientid2fd[param.cd]` without a look at what is there: a
   connection that is refused, for a wrong password or because its id is taken, removes
   the registration of the connection that has the id (`registration_removed`).

   `clientids_of_free`: in a run in which no new connection sends a cn command with an
   id that is registered, the registry is exactly the accepted connections that are
   open. -/
namespace ApApps.Sand
open Incremental ApApps.Redis Exec

/-- The client id of the command is not registered. -/
def FreeId (s : St) (map : Fields) : Prop :=
  ∀ cd, map.get "cd" = some cd → s.clientid2fd cd = none

instance (s : St) (map : Fields) : Decidable (FreeId s map) :=
  match h : map.get "cd" with
  | none => isTrue (by intro cd hcd; rw [h] at hcd; cases hcd)
  | some cd => decidable_of_iff (s.clientid2fd cd = none) ⟨fun hnone cd' hcd => by
      rw [h] at hcd
      cases hcd
      exact hnone, fun hfree => hfree cd h⟩

/-- The registry holds the accepted connections, and the one that is being admitted. -/
def IdsOk (x : Option Conn) (s : St) : Prop :=
  ∀ cd fd, s.clientid2fd cd = some fd ↔
    ∃ c m, s.clientmap.lookup fd = some c ∧ s.heap c = some m ∧ m.clientid = some cd ∧
      (m.state = .stAuth ∨ some c = x)

theorem IdsOk.new : IdsOk none .new := by
  intro cd fd
  simp [St.new]

section IdsOk
variable {env : Env} {s s' : St} {x : Option Conn}

/-- A change of climaps that keeps ids and states keeps the registry right. -/
theorem IdsOk.of_update (h : IdsOk x s) {c : Conn} {m : Climap} (m' : Climap) (hh : s.heap c = some m)
    (hparam : m'.param = m.param) (hst : m'.state = m.state)
    (hmap : s'.clientmap = s.clientmap) (hids : s'.clientid2fd = s.clientid2fd)
    (hheap : s'.heap = Function.update s.heap c (some m')) : IdsOk x s' := by
  intro cd fd
  rw [hids, h, hmap, hheap]
  refine exists_congr fun c' => ?_
  by_cases hcc : c' = c
  · subst hcc
    simp only [Function.update_self, hh, Option.some.injEq, exists_and_left, exists_eq_left',
      Climap.clientid, hparam, hst]
  · simp only [Function.update_of_ne hcc]

theorem IdsOk.connected (h : IdsOk none s) {c : Conn} {fd : Fd} (hheap : s.heap c = none)
    (hl : s.clientmap.lookup fd = none) : IdsOk none (s.connected c fd) := by
  intro cd fd'
  show s.clientid2fd cd = some fd' ↔ _
  rw [h]
  constructor
  · rintro ⟨c', m, hl', hm, hrest⟩
    have hfd : fd' ≠ fd := by
      rintro rfl
      rw [hl] at hl'
      cases hl'
    have hcc : c' ≠ c := by
      rintro rfl
      rw [hheap] at hm
      cases hm
    exact ⟨c', m, (AList.lookup_insert_ne hfd).trans hl', (Function.update_of_ne hcc _ _).trans hm,
      hrest⟩
  · rintro ⟨c', m, hl', hm, hcd, hrest⟩
    by_cases hcc : c' = c
    · subst hcc
      have hm : some _ = some m := (Function.update_self c' _ s.heap).symm.trans hm
      cases hm
      cases hcd
    · have hfd : fd' ≠ fd := by
        rintro rfl
        have hself : (s.connected c fd').clientmap.lookup fd' = some c := AList.lookup_insert _
        rw [hself] at hl'
        exact hcc (Option.some.inj hl').symm
      exact ⟨c', m, (AList.lookup_insert_ne hfd).symm.trans hl',
        (Function.update_of_ne hcc _ _).symm.trans hm, hcd, hrest⟩

/-- The tables lose a connection and, if it has one, its own id. -/
theorem IdsOk.drop (h : IdsOk x s) (hw : WF s) {fd : Fd} {c : Conn} {m : Climap}
    (hl : s.clientmap.lookup fd = some c) (hh : s.heap c = some m)
    (hown : ∀ cd, m.clientid = some cd → s.clientid2fd cd = some fd) : IdsOk x (s.shut fd c m) := by
  have hids : ∀ cd, (s.shut fd c m).clientid2fd cd =
      if m.clientid = some cd then none else s.clientid2fd cd := by
    intro cd
    simp only [St.shut]
    cases hm : m.clientid with
    | none => simp
    | some cd' =>
      by_cases hcd : cd = cd'
      · subst hcd
        simp
      · show Function.update s.clientid2fd cd' none cd = _
        rw [Function.update_of_ne hcd, if_neg (by simpa using Ne.symm hcd)]
  intro cd fd'
  rw [hids]
  split
  · rename_i hcd
    constructor
    · intro hfalse
      cases hfalse
    · -- another connection with this id would be the owner of the entry
      rintro ⟨c', m', hl', hm', hcd', hor⟩
      have hl' : (s.clientmap.erase fd).lookup fd' = some c' := hl'
      have hne : fd' ≠ fd := by
        rintro rfl
        rw [AList.lookup_erase] at hl'
        cases hl'
      rw [AList.lookup_erase_ne hne] at hl'
      have hm' : s.heap c' = some m' :=
        (Function.update_of_ne (hw.ne_of_fd_ne hl hl' hne) _ _).symm.trans hm'
      have hreg := (h cd fd').mpr ⟨c', m', hl', hm', hcd', hor⟩
      rw [hown cd hcd] at hreg
      exact absurd (Option.some.inj hreg).symm hne
  · rename_i hcd
    rw [h]
    constructor
    · rintro ⟨c', m', hl', hm', hcd', hor⟩
      have hne : fd' ≠ fd := by
        rintro rfl
        rw [hl] at hl'
        cases hl'
        rw [hh] at hm'
        cases hm'
        exact hcd hcd'
      exact ⟨c', m', (AList.lookup_erase_ne hne).trans hl',
        (Function.update_of_ne (hw.ne_of_fd_ne hl hl' hne) _ _).trans hm', hcd', hor⟩
    · rintro ⟨c', m', hl', hm', hcd', hor⟩
      have hl' : (s.clientmap.erase fd).lookup fd' = some c' := hl'
      have hne : fd' ≠ fd := by
        rintro rfl
        rw [AList.lookup_erase] at hl'
        cases hl'
      rw [AList.lookup_erase_ne hne] at hl'
      have hm' : s.heap c' = some m' :=
        (Function.update_of_ne (hw.ne_of_fd_ne hl hl' hne) _ _).symm.trans hm'
      exact ⟨c', m', hl', hm', hcd', hor⟩

/-- What holds of the broker as far as client ids are concerned. -/
structure IdInv (x : Option Conn) (s : St) : Prop where
  wf : WF s
  settled : Settled x s
  ids : IdsOk x s

theorem IdInv.tick (h : IdInv x s) (ht : Tick env s s') : IdInv x s' := by
  refine ⟨h.wf.tick ht, h.settled.cascade (.single ht), ?_⟩
  cases ht with
  | deliver => exact h.ids
  | @shut fd c m hl hh =>
    refine h.ids.drop h.wf hl hh fun cd hcd => (h.ids cd fd).mpr ⟨c, m, hl, hh, hcd, ?_⟩
    by_cases hx : some c = x
    · exact .inr hx
    · rcases h.settled fd c m hl hh hx with hf | ⟨map, ha⟩
      · simp [Climap.clientid, hf.param] at hcd
      · exact .inl ha.state

theorem IdInv.cascade (h : IdInv x s) (hc : Cascade env s s') : IdInv x s' :=
  hc.preserves (I := IdInv x) (fun _ _ ht h => h.tick ht) h

theorem clientid_fresh {m : Climap} (hm : m.Fresh) : m.clientid = none := by
  simp only [Climap.clientid, hm.param, Option.bind_none]

/-- The refused connection had registered nothing, and its id was free. -/
theorem IdInv.expelled (h : IdInv none s) {fd : Fd} {c : Conn} {m : Climap} {map : Fields}
    {err : Bytes} (hl : s.clientmap.lookup fd = some c) (hh : s.heap c = some m) (hm : m.Fresh)
    (hfree : FreeId s map) : IdInv none (s.expelled env fd c m map err) where
  wf := by
    have hw : WF ((s.prepared fd c m map).refusedWith env c err) := (h.wf.prepared fd map hh).wrote
    exact hw.shut hl (Function.update_self c _ _)
  settled := h.settled.expelled h.wf hl
  ids := by
    have hids : ∀ cd, (s.expelled env fd c m map err).clientid2fd cd = s.clientid2fd cd := by
      intro cd
      have hfree := hfree cd
      simp only [St.expelled, St.shut, Climap.clientid, Option.bind_some, cnParam]
      cases hcd : map.get "cd" with
      | none => rfl
      | some cd' =>
        by_cases hcc : cd = cd'
        · subst hcc
          simp only [Function.update_self]
          exact (hfree hcd).symm
        · exact Function.update_of_ne hcc _ _
    intro cd fd'
    rw [hids, h.ids]
    constructor
    · rintro ⟨c', m', hl', hm', hcd', hor⟩
      have hcc : c' ≠ c := by
        rintro rfl
        rw [hh] at hm'
        cases hm'
        rw [clientid_fresh hm] at hcd'
        cases hcd'
      have hne : fd' ≠ fd := by
        rintro rfl
        rw [hl] at hl'
        exact hcc (Option.some.inj hl').symm
      exact ⟨c', m', (AList.lookup_erase_ne hne).trans hl', (heap_expelled hcc).trans hm', hcd', hor⟩
    · rintro ⟨c', m', hl', hm', hcd', hor⟩
      obtain ⟨hne, hl'⟩ := lookup_expelled hl'
      rw [heap_expelled (h.wf.ne_of_fd_ne hl hl' hne)] at hm'
      exact ⟨c', m', hl', hm', hcd', hor⟩

/-- The admitted connection takes an id that was free. -/
theorem IdInv.identified (h : IdInv none s) {fd : Fd} {c : Conn} {m : Climap} {map : Fields}
    (hl : s.clientmap.lookup fd = some c) (hh : s.heap c = some m) (hm : m.Fresh)
    (hr : refusal s map = none) :
    IdInv (some c) ((s.prepared fd c m map).identified (cdOf map) fd) where
  wf := (h.wf.prepared fd map hh).identified
  settled := h.settled.prepared fd
  ids := by
    obtain ⟨ha, hfree⟩ := accepts_of_refusal hr
    have hcd : map.get "cd" = some (cdOf map) := by
      have hvalid := ha.1
      cases hcd : map.get "cd" with
      | some cd => simp [cdOf, hcd]
      | none => simp [passes, validParam, hcd, filled] at hvalid
    intro cd fd'
    show Function.update s.clientid2fd (cdOf map) (some fd) cd = some fd' ↔ _
    by_cases hcc : cd = cdOf map
    · subst hcc
      rw [Function.update_self, Option.some.injEq]
      constructor
      · rintro rfl
        exact ⟨c, _, hl, Function.update_self c _ _, hcd, .inr rfl⟩
      · rintro ⟨c', m', hl', hm', hcd', hor⟩
        by_cases hc : c' = c
        · subst hc
          obtain ⟨_, h1, hfd, _⟩ := h.wf.live fd c' hl
          obtain ⟨_, h2, hfd', _⟩ := h.wf.live fd' c' hl'
          rw [h1] at h2
          cases h2
          exact hfd.symm.trans hfd'
        · have hm' : s.heap c' = some m' := (heap_prepared fd hc).symm.trans hm'
          have hst : m'.state = .stAuth := hor.resolve_right (by simpa using hc)
          have hreg := (h.ids (cdOf map) fd').mpr ⟨c', m', hl', hm', hcd', .inl hst⟩
          rw [hfree] at hreg
          cases hreg
    · rw [Function.update_of_ne hcc, h.ids]
      constructor
      · rintro ⟨c', m', hl', hm', hcd', hor⟩
        have hc : c' ≠ c := by
          rintro rfl
          rw [hh] at hm'
          cases hm'
          rw [clientid_fresh hm] at hcd'
          cases hcd'
        exact ⟨c', m', hl', (heap_prepared fd hc).trans hm', hcd',
          hor.imp id (fun h => by cases h)⟩
      · rintro ⟨c', m', hl', hm', hcd', hor⟩
        by_cases hc : c' = c
        · subst hc
          have hm' : some _ = some m' := (Function.update_self c' _ s.heap).symm.trans hm'
          cases hm'
          have hcd' : map.get "cd" = some cd := hcd'
          rw [hcd] at hcd'
          exact absurd (Option.some.inj hcd').symm hcc
        · have hm' : s.heap c' = some m' := (heap_prepared fd hc).symm.trans hm'
          exact ⟨c', m', hl', hm', hcd', .inl (hor.resolve_right (by simpa using hc))⟩

theorem IdInv.authorized {c : Conn} {m : Climap} {map : Fields} (h : IdInv (some c) s)
    (hh : s.heap c = some m) (hparam : m.param = some (cnParam map)) (ha : accepts map) :
    IdInv none ((s.authorized c m).wrote env c (.ca 0 (ascii "ok"))
      (env.frame (.ca 0 (ascii "ok")))) where
  wf := (h.wf.authorized hh).wrote
  settled := h.settled.authorized hparam ha
  ids := by
    intro cd fd'
    refine (h.ids cd fd').trans (exists_congr fun c' => ?_)
    show _ ↔ ∃ m', s.clientmap.lookup fd' = some c' ∧ Function.update s.heap c _ c' = some m' ∧ _
    by_cases hc : c' = c
    · subst hc
      simp only [Function.update_self, hh, Option.some.injEq, exists_and_left, exists_eq_left',
        Climap.clientid, or_true, true_or]
    · simp only [Function.update_of_ne hc, Option.some.injEq, hc, or_false, reduceCtorEq]

theorem IdInv.move (h : IdInv none s) (hm : Move env (fun s _ map => FreeId s map) s s') :
    IdInv none s' := by
  cases hm with
  | tick ht => exact h.tick ht
  | @data c m hh data =>
    exact ⟨h.wf.withData data hh,
      h.settled.withData data hh,
      h.ids.of_update { m with data } hh rfl rfl rfl rfl rfl⟩
  | log => exact ⟨h.wf.of_eq rfl rfl rfl, h.settled, h.ids⟩
  | refused hl hh hst hr hP hclose =>
    exact (h.expelled hl hh (h.settled.fresh hl hh hst) hP).cascade
      (refused_cascade h.wf hl hh hclose)
  | admitted hl hh hst hr hP hadm =>
    obtain ⟨s1, m1, hcas, hh1, _, _, rfl⟩ := admitClient_ok hadm
    exact ((h.identified hl hh (h.settled.fresh hl hh hst) hr).cascade hcas).authorized hh1
      (admitted_param hcas hh1) (accepts_of_refusal hr).1

theorem IdInv.connected (h : IdInv none s) {c : Conn} {fd : Fd} (hheap : s.heap c = none)
    (hl : s.clientmap.lookup fd = none) : IdInv none (s.connected c fd) :=
  ⟨h.wf.connected hheap hl, h.settled.connected, h.ids.connected hheap hl⟩

end IdsOk

/-! ## The registry -/

/-- What the registry holds in a settled broker. -/
theorem IdInv.registered_iff {s : St} (h : IdInv none s) (cd : Bytes) (fd : Fd) :
    s.clientid2fd cd = some fd ↔
      ∃ c m, s.clientmap.lookup fd = some c ∧ s.heap c = some m ∧ m.state = .stAuth ∧
        m.clientid = some cd := by
  rw [h.ids]
  refine exists_congr fun c => exists_congr fun m => ?_
  constructor
  · rintro ⟨hl, hh, hcd, hor⟩
    exact ⟨hl, hh, hor.resolve_right (by simp), hcd⟩
  · rintro ⟨hl, hh, hst, hcd⟩
    exact ⟨hl, hh, hcd, .inl hst⟩

/-- **The registry of client ids.** If no cn command of a new connection carries an id
that is registered, then in every state the broker reaches `clientid2fd[cd] = fd`
exactly if `fd` is an open connection whose cn command with the id `cd` was accepted;
two open authorized connections have different ids; and a registration lasts until
its own connection is closed. -/
theorem clientids_of_free {env : Env} {evs : List Event}
    (hfree : CnAlong env (fun s _ map => FreeId s map) evs) {s : St}
    (hrun : run env evs = .ok () s) :
    (∀ cd fd, s.clientid2fd cd = some fd ↔
      ∃ c m, s.clientmap.lookup fd = some c ∧ s.heap c = some m ∧ m.state = .stAuth ∧
        m.clientid = some cd) ∧
    (∀ fd fd' c c' m m' cd, s.clientmap.lookup fd = some c → s.clientmap.lookup fd' = some c' →
      s.heap c = some m → s.heap c' = some m' → m.state = .stAuth → m'.state = .stAuth →
      m.clientid = some cd → m'.clientid = some cd → c = c') ∧
    (∀ pre post s0, evs = pre ++ post → run env pre = .ok () s0 → ∀ cd fd c,
      s0.clientid2fd cd = some fd → s0.clientmap.lookup fd = some c →
      s.clientmap.lookup fd = some c → s.clientid2fd cd = some fd) := by
  have hconn : ∀ s c fd, WF s → IdInv none s → s.heap c = none →
      s.clientmap.lookup fd = none → IdInv none (s.connected c fd) :=
    fun s c fd _ h hheap hl => h.connected hheap hl
  have hnew : IdInv none .new := ⟨.new, .new, .new⟩
  obtain ⟨_, h⟩ := run_invariant hnew hconn (fun s s' _ h hm => h.move hm) hfree hrun
  refine ⟨h.registered_iff, ?_, ?_⟩
  · intro fd fd' c c' m m' cd hl hl' hh hh' hst hst' hcd hcd'
    have h1 := (h.registered_iff cd fd).mpr ⟨c, m, hl, hh, hst, hcd⟩
    have h2 := (h.registered_iff cd fd').mpr ⟨c', m', hl', hh', hst', hcd'⟩
    rw [h1] at h2
    cases h2
    rw [hl] at hl'
    exact Option.some.inj hl'
  · rintro pre post s0 rfl hpre cd fd c hreg hl0 hl
    obtain ⟨hw0, h0⟩ := run_invariant hnew hconn (fun s s' _ h hm => h.move hm) hfree.prefix hpre
    obtain ⟨c', m0, hl0', hh0, hst0, hcd⟩ := (h0.registered_iff cd fd).mp hreg
    rw [hl0] at hl0'
    cases hl0'
    obtain ⟨map, ha⟩ : ∃ map, m0.Accepted map := by
      rcases h0.settled fd c m0 hl0 hh0 (by simp) with hf | ha
      · have hnew := hf.state
        rw [hst0] at hnew
        cases hnew
      · exact ha
    -- the accepted command of the connection is the same in both states
    obtain ⟨s1, hpre', hpost⟩ := runAll_append_ok.mp hrun
    have hpre : runAll (step env) pre .new = .ok () s0 := hpre
    rw [hpre] at hpre'
    cases hpre'
    have hkeep : WF s ∧ ∃ m, s.heap c = some m ∧ m.Accepted map := by
      have hTrue : Along (step env) (EventOk env fun s _ map => FreeId s map) s0 post :=
        hfree.after hpre
      refine Exec.run_invariant (I := fun s => WF s ∧ ∃ m, s.heap c = some m ∧ m.Accepted map)
        ?_ ⟨hw0, m0, hh0, ha⟩ hTrue hpost
      intro s1 ev s2 hI hP hstep
      refine step_invariant (I := fun s => ∃ m, s.heap c = some m ∧ m.Accepted map) ?_ ?_ hI hP hstep
      · rintro s c' fd' _ ⟨m, hh, ha⟩ hheap _
        have hcc : c ≠ c' := by
          rintro rfl
          rw [hheap] at hh
          cases hh
        exact ⟨m, (Function.update_of_ne hcc _ _).trans hh, ha⟩
      · rintro s s' hw ⟨m, hh, ha⟩ hm
        exact hm.accepted hw hh ha
    obtain ⟨_, m, hh, ha'⟩ := hkeep
    refine (h.registered_iff cd fd).mpr ⟨c, m, hl, hh, ha'.state, ?_⟩
    simpa only [Climap.clientid, ha.param, ha'.param] using hcd

/-- Two clients with ids of their own; the first one leaves. -/
def freeRun : List Event :=
  [.accept 0 5, .chunk 0 (cnFrame "x" "5" "a" []), .accept 1 6, .chunk 1 (cnFrame "y" "5" "a" []),
    .closed 0 none]

theorem clientids_of_free_two : ∃ s, run .calm freeRun = .ok () s ∧
    (∀ cd fd, s.clientid2fd cd = some fd ↔
      ∃ c m, s.clientmap.lookup fd = some c ∧ s.heap c = some m ∧ m.state = .stAuth ∧
        m.clientid = some cd) ∧
    (∀ fd fd' c c' m m' cd, s.clientmap.lookup fd = some c → s.clientmap.lookup fd' = some c' →
      s.heap c = some m → s.heap c' = some m' → m.state = .stAuth → m'.state = .stAuth →
      m.clientid = some cd → m'.clientid = some cd → c = c') ∧
    (∀ pre post s0, freeRun = pre ++ post → run .calm pre = .ok () s0 → ∀ cd fd c,
      s0.clientid2fd cd = some fd → s0.clientmap.lookup fd = some c →
      s.clientmap.lookup fd = some c → s.clientid2fd cd = some fd) := by
  obtain ⟨s, hrun, _⟩ := exists_of_endsIn (p := fun _ => true) (r := run .calm freeRun)
    (by decide +kernel)
  refine ⟨s, hrun, clientids_of_free (CnAlong.mono (fun _ _ map h => of_decide_eq_true h)
    (cnAlong_of_check (p := fun s _ map => decide (FreeId s map)) ?_)) hrun⟩
  decide +kernel

/-- The client 0 has the id "x"; the client 1 asks for the same id and is refused. -/
def duplicateRun : List Event :=
  [.accept 0 5, .chunk 0 (cnFrame "x" "5" "a" []), .accept 1 6, .chunk 1 (cnFrame "x" "5" "a" [])]

/-- Refusing the second client has removed the registration of the first one, which is
still there; a third client then gets the same id. -/
theorem registration_removed :
    (∃ s, run .calm duplicateRun = .ok () s ∧ s.clientid2fd (ascii "x") = none ∧
      ∃ m, s.clientmap.lookup 5 = some 0 ∧ s.heap 0 = some m ∧ m.state = .stAuth ∧
        m.clientid = some (ascii "x")) ∧
    ∃ s, run .calm (duplicateRun ++ [.accept 2 7, .chunk 2 (cnFrame "x" "5" "a" [])]) = .ok () s ∧
      ∃ m m', s.clientmap.lookup 5 = some 0 ∧ s.clientmap.lookup 7 = some 2 ∧
        s.heap 0 = some m ∧ s.heap 2 = some m' ∧ m.state = .stAuth ∧ m'.state = .stAuth ∧
        m.clientid = some (ascii "x") ∧ m'.clientid = some (ascii "x") := by
  have hauth : ∀ {s : St} {c : Conn}, ((s.heap c).map fun m => (m.state, m.clientid)) =
      some (.stAuth, some (ascii "x")) → ∃ m, s.heap c = some m ∧ m.state = .stAuth ∧
        m.clientid = some (ascii "x") := by
    intro s c h
    obtain ⟨m, hm, heq⟩ := Option.map_eq_some_iff.mp h
    rw [Prod.mk.injEq] at heq
    exact ⟨m, hm, heq⟩
  constructor
  · have h : endsIn (fun s => (s.clientid2fd (ascii "x")).isNone && s.clientmap.lookup 5 = some 0 &&
        ((s.heap 0).map fun m => (m.state, m.clientid)) = some (.stAuth, some (ascii "x")))
        (run .calm duplicateRun) = true := by decide +kernel
    obtain ⟨s, hrun, hs⟩ := exists_of_endsIn h
    simp only [Bool.and_eq_true, decide_eq_true_eq, Option.isNone_iff_eq_none] at hs
    obtain ⟨m, hm⟩ := hauth hs.2
    exact ⟨s, hrun, hs.1.1, m, hs.1.2, hm⟩
  · have h : endsIn (fun s => s.clientmap.lookup 5 = some 0 && s.clientmap.lookup 7 = some 2 &&
        ((s.heap 0).map fun m => (m.state, m.clientid)) = some (.stAuth, some (ascii "x")) &&
        ((s.heap 2).map fun m => (m.state, m.clientid)) = some (.stAuth, some (ascii "x")))
        (run .calm (duplicateRun ++ [.accept 2 7, .chunk 2 (cnFrame "x" "5" "a" [])])) = true := by
      decide +kernel
    obtain ⟨s, hrun, hs⟩ := exists_of_endsIn h
    simp only [Bool.and_eq_true, decide_eq_true_eq] at hs
    obtain ⟨m, hm, hst, hcd⟩ := hauth hs.1.2
    obtain ⟨m', hm', hst', hcd'⟩ := hauth hs.2
    exact ⟨s, hrun, m, m', hs.1.1.1, hs.1.1.2, hm, hm', hst, hst', hcd, hcd'⟩

end ApApps.Sand

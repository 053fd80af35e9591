import ApApps.Sand.Settled

/- The subscription table. A cn command whose topic list starts with a topic and has
   an empty part later on is refused after `fd` has been registered under the topics
   before it, and `close_client` does not take it out again, because `param.tp` is
   still a string (`subscription_left_behind`).

   `subscriptions_of_clean`: in a run without such commands `fd` is in
   `topic2client[t]` exactly if `clientmap[fd]` is a connection whose accepted cn
   command listed `t`; the assert of `do_publish` never fails, and a message is
   written to subscribers only. -/
namespace ApApps.Sand
open Incremental ApApps.Redis Exec

/-- The topic list has no empty part, or starts with one, or is not looked at. -/
def CleanTopics (map : Fields) : Prop :=
  passes map = true → (partsOf map).head? = some [] ∨ [] ∉ partsOf map

instance : DecidablePred CleanTopics := fun map => by
  unfold CleanTopics
  infer_instance

/-- The cn command accepted on the connection listed the topic. -/
def Climap.Listed (m : Climap) (t : Bytes) : Prop :=
  m.state = .stAuth ∧
    ∃ param tp, m.param = some param ∧ param.map.get "tp" = some tp ∧ t ∈ splitTabs tp

/-! ## The table and the topics of the connections -/

/-- A descriptor is registered under the topics of its connection, once. -/
structure SubOk (s : St) : Prop where
  mem : ∀ t fd, fd ∈ s.subs t ↔
    ∃ c m, s.clientmap.lookup fd = some c ∧ s.heap c = some m ∧ t ∈ m.topics
  nodup : ∀ t, (s.subs t).Nodup

theorem SubOk.new : SubOk .new where
  mem := by
    intro t fd
    simp [St.subs, St.new]
  nodup := fun t => List.nodup_nil

section SubOk
variable {env : Env} {s s' : St}

/-- A change of climaps that keeps their parameters keeps the table right. -/
theorem SubOk.of_heap (h : SubOk s) (hmap : s'.clientmap = s.clientmap)
    (ht2c : s'.topic2client = s.topic2client)
    (hheap : ∀ c, (s'.heap c).map Climap.param = (s.heap c).map Climap.param) : SubOk s' := by
  have hsubs : ∀ t, s'.subs t = s.subs t := fun t => by simp only [St.subs, ht2c]
  refine ⟨fun t fd => ?_, fun t => by rw [hsubs]; exact h.nodup t⟩
  have htopics : ∀ c, (∃ m, s'.heap c = some m ∧ t ∈ m.topics) ↔
      ∃ m, s.heap c = some m ∧ t ∈ m.topics := by
    intro c
    have hc := hheap c
    have htop : ∀ o : Option Climap, (∃ m, o = some m ∧ t ∈ m.topics) ↔
        ∃ p, o.map Climap.param = some p ∧ t ∈ ((p.map Param.topics).getD []) := by
      intro o
      cases o with
      | none => simp
      | some m =>
        have hm : m.topics = (m.param.map Param.topics).getD [] := by
          unfold Climap.topics
          cases m.param <;> rfl
        simp [hm]
    rw [htop, htop, hc]
  rw [hsubs, h.mem, hmap]
  constructor
  · rintro ⟨c, m, hl, hm⟩
    obtain ⟨m', hm'⟩ := (htopics c).mpr ⟨m, hm⟩
    exact ⟨c, m', hl, hm'⟩
  · rintro ⟨c, m, hl, hm⟩
    obtain ⟨m', hm'⟩ := (htopics c).mp ⟨m, hm⟩
    exact ⟨c, m', hl, hm'⟩

theorem SubOk.of_update (h : SubOk s) {c : Conn} {m : Climap} (m' : Climap) (hh : s.heap c = some m)
    (hparam : m'.param = m.param) (hmap : s'.clientmap = s.clientmap)
    (ht2c : s'.topic2client = s.topic2client)
    (hheap : s'.heap = Function.update s.heap c (some m')) : SubOk s' := by
  refine h.of_heap hmap ht2c fun c' => ?_
  rw [hheap]
  by_cases hcc : c' = c
  · subst hcc
    rw [Function.update_self, hh, Option.map_some, Option.map_some, hparam]
  · rw [Function.update_of_ne hcc]

theorem SubOk.connected (h : SubOk s) {c : Conn} {fd : Fd} (hheap : s.heap c = none)
    (hl : s.clientmap.lookup fd = none) : SubOk (s.connected c fd) := by
  refine ⟨fun t fd' => ?_, h.nodup⟩
  show fd' ∈ s.subs t ↔ _
  rw [h.mem]
  constructor
  · rintro ⟨c', m, hl', hm, ht⟩
    have hfd : fd' ≠ fd := by
      rintro rfl
      rw [hl] at hl'
      cases hl'
    have hcc : c' ≠ c := by
      rintro rfl
      rw [hheap] at hm
      cases hm
    exact ⟨c', m, (AList.lookup_insert_ne hfd).trans hl', (Function.update_of_ne hcc _ _).trans hm,
      ht⟩
  · rintro ⟨c', m, hl', hm, ht⟩
    by_cases hcc : c' = c
    · subst hcc
      have hm : some _ = some m := (Function.update_self c' _ s.heap).symm.trans hm
      cases hm
      cases ht
    · have hfd : fd' ≠ fd := by
        rintro rfl
        have hself : (s.connected c fd').clientmap.lookup fd' = some c := AList.lookup_insert _
        rw [hself] at hl'
        exact hcc (Option.some.inj hl').symm
      exact ⟨c', m, (AList.lookup_insert_ne hfd).symm.trans hl',
        (Function.update_of_ne hcc _ _).symm.trans hm, ht⟩

/-- `close_client` takes the descriptor out of all the topics it is registered under. -/
theorem SubOk.shut (h : SubOk s) (hw : WF s) {fd : Fd} {c : Conn} {m : Climap}
    (hl : s.clientmap.lookup fd = some c) (hh : s.heap c = some m) : SubOk (s.shut fd c m) := by
  have hsubs : ∀ t, (s.shut fd c m).subs t = if t ∈ m.topics then (s.subs t).erase fd else s.subs t := by
    intro t
    simp only [St.subs, St.shut]
    split
    · cases s.topic2client t <;> simp
    · rfl
  refine ⟨fun t fd' => ?_, fun t => ?_⟩
  · have hold : fd' ∈ (s.shut fd c m).subs t ↔ fd' ≠ fd ∧ fd' ∈ s.subs t := by
      rw [hsubs]
      split
      · exact (h.nodup t).mem_erase_iff
      · rename_i ht
        refine ⟨fun hmem => ⟨?_, hmem⟩, fun hmem => hmem.2⟩
        rintro rfl
        obtain ⟨c', m', hl', hm', ht'⟩ := (h.mem t fd').mp hmem
        rw [hl] at hl'
        cases hl'
        rw [hh] at hm'
        cases hm'
        exact ht ht'
    rw [hold, h.mem]
    constructor
    · rintro ⟨hne, c', m', hl', hm', ht⟩
      exact ⟨c', m', (AList.lookup_erase_ne hne).trans hl',
        (Function.update_of_ne (hw.ne_of_fd_ne hl hl' hne) _ _).trans hm', ht⟩
    · rintro ⟨c', m', hl', hm', ht⟩
      have hl' : (s.clientmap.erase fd).lookup fd' = some c' := hl'
      have hne : fd' ≠ fd := by
        rintro rfl
        rw [AList.lookup_erase] at hl'
        cases hl'
      rw [AList.lookup_erase_ne hne] at hl'
      have hm' : s.heap c' = some m' :=
        (Function.update_of_ne (hw.ne_of_fd_ne hl hl' hne) _ _).symm.trans hm'
      exact ⟨hne, c', m', hl', hm', ht⟩
  · rw [hsubs]
    split
    · exact (h.nodup t).erase fd
    · exact h.nodup t

theorem SubOk.cascade (h : SubOk s) (hw : WF s) (hc : Cascade env s s') : SubOk s' := by
  have hboth : WF s' ∧ SubOk s' := by
    refine hc.preserves (I := fun s => WF s ∧ SubOk s) (fun s s' ht h => ⟨h.1.tick ht, ?_⟩) ⟨hw, h⟩
    cases ht with
    | deliver => exact h.2.of_heap rfl rfl fun _ => rfl
    | shut hl hh => exact h.2.shut h.1 hl hh
  exact hboth.2

/-- A clean cn command registers the topics that are then in its table. -/
theorem CleanTopics.registered {map : Fields} (h : CleanTopics map) :
    registered map = (cnParam map).topics := by
  by_cases ha : accepts map
  · rw [registered_eq ha, cnParam_topics ha]
  · rw [cnParam_topics_raw ha, ApApps.Sand.registered]
    split
    · rename_i hpass
      rcases h hpass with hhead | hno
      · cases hparts : partsOf map with
        | nil => rfl
        | cons part parts =>
          rw [hparts] at hhead
          cases hhead
          rfl
      · exact absurd ⟨hpass, hno⟩ ha
    · rfl

/-- A clean cn command registers the connection under the topics it will be taken out of. -/
theorem SubOk.prepared (h : SubOk s) (hw : WF s) {fd : Fd} {c : Conn} {m : Climap} {map : Fields}
    (hl : s.clientmap.lookup fd = some c) (hh : s.heap c = some m) (hm : m.Fresh)
    (hclean : CleanTopics map) : SubOk (s.prepared fd c m map) := by
  have htopics := hclean.registered
  have hfresh : m.topics = [] := by simp only [Climap.topics, hm.param]
  refine ⟨fun t fd' => ?_, fun t => nodup_foldl_addSub h.nodup t⟩
  have hmem : fd' ∈ (s.prepared fd c m map).subs t ↔
      fd' ∈ s.subs t ∨ (fd' = fd ∧ t ∈ registered map) := mem_foldl_addSub
  rw [hmem, htopics, h.mem]
  constructor
  · rintro (⟨c', m', hl', hm', ht⟩ | ⟨rfl, ht⟩)
    · have hcc : c' ≠ c := by
        rintro rfl
        rw [hh] at hm'
        cases hm'
        rw [hfresh] at ht
        cases ht
      exact ⟨c', m', hl', (heap_prepared _ hcc).trans hm', ht⟩
    · exact ⟨c, _, hl, Function.update_self c _ _, ht⟩
  · rintro ⟨c', m', hl', hm', ht⟩
    have hl' : s.clientmap.lookup fd' = some c' := hl'
    by_cases hcc : c' = c
    · subst hcc
      have hm' : some _ = some m' := (Function.update_self c' _ s.heap).symm.trans hm'
      cases hm'
      obtain ⟨_, h1, hfd, _⟩ := hw.live fd c' hl
      obtain ⟨_, h2, hfd', _⟩ := hw.live fd' c' hl'
      rw [h1] at h2
      cases h2
      exact .inr ⟨hfd'.symm.trans hfd, ht⟩
    · rw [heap_prepared _ hcc] at hm'
      exact .inl ⟨c', m', hl', hm', ht⟩

/-- With the table right, the assert of `do_publish` holds. -/
theorem SubOk.not_dangling (h : SubOk s) (hw : WF s) {e : LuaError} (hb : Broken e s) :
    e ≠ .assertFailed "do_publish" := by
  rintro rfl
  rcases hw.broken hb with ⟨_, t, fd, hsub, hl⟩ | ⟨he, _⟩
  · obtain ⟨c, m, hl', _⟩ := (h.mem t fd).mp hsub
    rw [hl] at hl'
    cases hl'
  · cases he

end SubOk

/-! ## The tables over a run -/

/-- A connection is being admitted: its parameters are those of an acceptable command. -/
def Pending (x : Option Conn) (s : St) : Prop :=
  ∀ c m, x = some c → s.heap c = some m → ∃ map, m.param = some (cnParam map) ∧ accepts map

/-- The broker is in order, but for the connection `x` that is being admitted. -/
structure Sane (x : Option Conn) (s : St) : Prop where
  wf : WF s
  subs : SubOk s
  settled : Settled x s
  pending : Pending x s

theorem Sane.new : Sane none .new where
  wf := .new
  subs := .new
  settled := .new
  pending := by
    intro c m h
    cases h

section Sane
variable {env : Env} {s s' : St} {x : Option Conn}

theorem Sane.cascade (h : Sane x s) (hc : Cascade env s s') : Sane x s' where
  wf := h.wf.cascade hc
  subs := h.subs.cascade h.wf hc
  settled := h.settled.cascade hc
  pending := by
    intro c m' hx hh'
    rcases hc.heap_same c with ⟨_, hnone⟩ | ⟨m, m1, h0, h1, hsame⟩
    · rw [hh'] at hnone
      cases hnone
    · rw [hh'] at h1
      cases h1
      rw [hsame.param]
      exact h.pending c m hx h0

theorem Sane.connected (h : Sane none s) {c : Conn} {fd : Fd} (hheap : s.heap c = none)
    (hl : s.clientmap.lookup fd = none) : Sane none (s.connected c fd) where
  wf := h.wf.connected hheap hl
  subs := h.subs.connected hheap hl
  settled := h.settled.connected
  pending := by
    intro c m h
    cases h

/-- A refused connection is gone before anything is published. -/
theorem Sane.expelled (h : Sane none s) {fd : Fd} {c : Conn} {m : Climap} {map : Fields}
    {err : Bytes} (hl : s.clientmap.lookup fd = some c) (hh : s.heap c = some m) (hm : m.Fresh)
    (hclean : CleanTopics map) : Sane none (s.expelled env fd c m map err) where
  wf := by
    have hw : WF ((s.prepared fd c m map).refusedWith env c err) := (h.wf.prepared fd map hh).wrote
    exact hw.shut hl (Function.update_self c _ _)
  subs := by
    have hw : WF ((s.prepared fd c m map).refusedWith env c err) := (h.wf.prepared fd map hh).wrote
    have hs : SubOk ((s.prepared fd c m map).refusedWith env c err) :=
      (h.subs.prepared h.wf hl hh hm hclean).of_heap rfl rfl fun _ => rfl
    exact hs.shut hw hl (Function.update_self c _ _)
  settled := h.settled.expelled h.wf hl
  pending := by
    intro c m h
    cases h

/-- The connection being admitted is the only one that is neither new nor accepted. -/
theorem Sane.identified (h : Sane none s) {fd : Fd} {c : Conn} {m : Climap} {map : Fields}
    (hl : s.clientmap.lookup fd = some c) (hh : s.heap c = some m) (hm : m.Fresh)
    (ha : accepts map) :
    Sane (some c) ((s.prepared fd c m map).identified (cdOf map) fd) where
  wf := (h.wf.prepared fd map hh).identified
  subs := by
    have hclean : CleanTopics map := fun _ => .inr ha.2
    exact (h.subs.prepared h.wf hl hh hm hclean).of_heap rfl rfl fun _ => rfl
  settled := h.settled.prepared fd
  pending := by
    intro c' m' hx hh'
    cases hx
    have hh' : some _ = some m' := (Function.update_self c _ s.heap).symm.trans hh'
    cases hh'
    exact ⟨map, rfl, ha⟩

theorem Sane.authorized {c : Conn} {m : Climap} {map : Fields} (h : Sane (some c) s)
    (hh : s.heap c = some m) (hparam : m.param = some (cnParam map)) (ha : accepts map) :
    Sane none ((s.authorized c m).wrote env c (.ca 0 (ascii "ok"))
      (env.frame (.ca 0 (ascii "ok")))) where
  wf := (h.wf.authorized hh).wrote
  subs := h.subs.of_update { m with state := .stAuth } hh rfl rfl rfl rfl
  settled := h.settled.authorized hparam ha
  pending := by
    intro c m h
    cases h

theorem Sane.withData (h : Sane none s) {c : Conn} {m : Climap} (data : Bytes)
    (hh : s.heap c = some m) : Sane none (s.withData c m data) where
  wf := h.wf.withData data hh
  subs := h.subs.of_update { m with data } hh rfl rfl rfl rfl
  settled := h.settled.withData data hh
  pending := by
    intro c m h
    cases h

theorem Sane.logged (h : Sane x s) (o : Out) : Sane x (s.logged o) where
  wf := h.wf.of_eq rfl rfl rfl
  subs := h.subs.of_heap rfl rfl fun _ => rfl
  settled := h.settled
  pending := h.pending

theorem Sane.move (h : Sane none s) (hm : Move env (fun _ _ map => CleanTopics map) s s') :
    Sane none s' := by
  cases hm with
  | tick ht => exact h.cascade (.single ht)
  | data hh data => exact h.withData data hh
  | log o _ => exact h.logged o
  | refused hl hh hst hr hP hclose =>
    exact (h.expelled hl hh (h.settled.fresh hl hh hst) hP).cascade
      (refused_cascade h.wf hl hh hclose)
  | admitted hl hh hst hr hP hadm =>
    obtain ⟨s1, m1, hcas, hh1, _, _, rfl⟩ := admitClient_ok hadm
    have ha := (accepts_of_refusal hr).1
    exact ((h.identified hl hh (h.settled.fresh hl hh hst) ha).cascade hcas).authorized hh1
      (admitted_param hcas hh1) ha

/-- A fault in a broker in order is no failed assert of `do_publish`. -/
theorem Sane.fault (h : Sane none s) {e : LuaError}
    (hf : Fault env (fun _ _ map => CleanTopics map) e s) : e ≠ .assertFailed "do_publish" := by
  cases hf with
  | broken hb => exact h.subs.not_dangling h.wf hb
  | @refused _ _ _ fd c m map err hl hh hst hr hP hclose =>
    obtain ⟨s1, hcas, hb⟩ := (cascade_closeClient _ _ _).2 _ _ hclose
    have hw : WF ((s.prepared fd c m map).refusedWith env c err) := (h.wf.prepared fd map hh).wrote
    have hs : SubOk ((s.prepared fd c m map).refusedWith env c err) :=
      (h.subs.prepared h.wf hl hh (h.settled.fresh hl hh hst) hP).of_heap rfl rfl fun _ => rfl
    exact (hs.cascade hw hcas).not_dangling (hw.cascade hcas) hb
  | admitted hl hh hst hr hP hadm =>
    obtain ⟨s1, hcas, hb | ⟨rfl, _⟩ | ⟨rfl, _⟩⟩ := admitClient_error hadm
    · have hid := (h.identified hl hh (h.settled.fresh hl hh hst) (accepts_of_refusal hr).1).cascade
        hcas
      exact hid.subs.not_dangling hid.wf hb
    · simp
    · simp
  | gone hl hsite =>
    intro he
    cases he
    exact hsite rfl
  | timer ht => exact restartTimer_error ht _

/-- A subscriber has, or is being given, an accepted command that lists the topic. -/
theorem Sane.subscriber (h : Sane x s) {t : Bytes} {fd : Fd} {c : Conn} {m : Climap}
    (hsub : fd ∈ s.subs t) (hl : s.clientmap.lookup fd = some c) (hh : s.heap c = some m) :
    ∃ map, m.param = some (cnParam map) ∧ accepts map ∧ t ∈ partsOf map ∧
      (some c = x ∨ m.state = .stAuth) := by
  obtain ⟨c', m', hl', hh', ht⟩ := (h.subs.mem t fd).mp hsub
  rw [hl] at hl'
  cases hl'
  rw [hh] at hh'
  cases hh'
  by_cases hx : some c = x
  · obtain ⟨map, hparam, ha⟩ := h.pending c m hx.symm hh
    refine ⟨map, hparam, ha, ?_, .inl hx⟩
    simpa only [Climap.topics, hparam, cnParam_topics ha] using ht
  · rcases h.settled fd c m hl hh hx with hf | ⟨map, ha⟩
    · simp [Climap.topics, hf.param] at ht
    · refine ⟨map, ha.param, ha.accepts, ?_, .inr ha.state⟩
      simpa only [Climap.topics, ha.param, cnParam_topics ha.accepts] using ht

end Sane

/-! ## Publications -/

/-- Every publication was written to a connection whose accepted command, or that of
the connection `x` being admitted, listed the topic. -/
def LogOk (x : Option Conn) (s : St) : Prop :=
  ∀ c t pl frame ok, Out.write c (.pb t pl) frame ok ∈ s.log →
    ∃ m map, s.heap c = some m ∧ m.param = some (cnParam map) ∧ accepts map ∧ t ∈ partsOf map ∧
      (some c = x ∨ m.state = .stAuth)

section LogOk
variable {env : Env} {s s' : St} {x : Option Conn}

/-- Climaps keep their parameters, and the log gets no publication. -/
theorem LogOk.same (h : LogOk x s)
    (hheap : ∀ c m, s.heap c = some m →
      ∃ m', s'.heap c = some m' ∧ m'.param = m.param ∧ m'.state = m.state)
    (hlog : ∀ o, o.isPublication = true → o ∈ s'.log → o ∈ s.log) : LogOk x s' := by
  intro c t pl frame ok ho
  obtain ⟨m, map, hh, hparam, hrest⟩ := h c t pl frame ok (hlog _ rfl ho)
  obtain ⟨m', hh', hp, hst⟩ := hheap c m hh
  exact ⟨m', map, hh', hp.trans hparam, by rw [hst]; exact hrest⟩

theorem heap_update_same {c : Conn} {m m' : Climap} (hh : s.heap c = some m)
    (hparam : m'.param = m.param) (hst : m'.state = m.state) (c' : Conn) (m1 : Climap)
    (h1 : s.heap c' = some m1) :
    ∃ m2, Function.update s.heap c (some m') c' = some m2 ∧ m2.param = m1.param ∧
      m2.state = m1.state := by
  by_cases hcc : c' = c
  · subst hcc
    rw [hh] at h1
    cases h1
    exact ⟨m', Function.update_self c' _ _, hparam, hst⟩
  · exact ⟨m1, (Function.update_of_ne hcc _ _).trans h1, rfl, rfl⟩

theorem LogOk.tick (h : LogOk x s) (hs : Sane x s) (ht : Tick env s s') : LogOk x s' := by
  cases ht with
  | @deliver fd c m topic payload hsub hl hh hc =>
    intro c' t pl frame ok ho
    rcases List.mem_append.mp ho with ho | ho
    · exact h c' t pl frame ok ho
    · -- the new entry is a write to a subscriber
      rw [List.mem_singleton, Out.write.injEq, Msg.pb.injEq] at ho
      obtain ⟨rfl, ⟨rfl, rfl⟩, _, _⟩ := ho
      obtain ⟨map, hparam, ha, hmem, hor⟩ := hs.subscriber hsub hl hh
      exact ⟨m, map, hh, hparam, ha, hmem, hor⟩
  | shut hl hh =>
    refine h.same (heap_update_same hh rfl rfl) fun o ho hmem => ?_
    rcases List.mem_append.mp hmem with hmem | hmem
    · exact hmem
    · simp only [List.mem_cons, List.not_mem_nil, or_false] at hmem
      rcases hmem with rfl | rfl <;> cases ho

theorem LogOk.cascade (h : LogOk x s) (hs : Sane x s) (hc : Cascade env s s') : LogOk x s' := by
  have hboth : Sane x s' ∧ LogOk x s' :=
    hc.preserves (I := fun s => Sane x s ∧ LogOk x s)
      (fun _ _ ht h => ⟨h.1.cascade (.single ht), h.2.tick h.1 ht⟩) ⟨hs, h⟩
  exact hboth.2

/-- A connection that has sent no cn command has been written no publication. -/
theorem LogOk.ne_fresh (h : LogOk none s) {c c' : Conn} {m : Climap} (hh : s.heap c = some m)
    (hm : m.Fresh) {t pl frame : Bytes} {ok : Bool}
    (ho : Out.write c' (.pb t pl) frame ok ∈ s.log) : c' ≠ c := by
  rintro rfl
  obtain ⟨m', map, hh', hparam, _⟩ := h c' t pl frame ok ho
  rw [hh] at hh'
  cases hh'
  rw [hm.param] at hparam
  cases hparam

theorem LogOk.expelled (h : LogOk none s) {fd : Fd} {c : Conn} {m : Climap} {map : Fields}
    {err : Bytes} (hh : s.heap c = some m) (hm : m.Fresh) :
    LogOk none (s.expelled env fd c m map err) := by
  intro c' t pl frame ok ho
  have ho : Out.write c' (.pb t pl) frame ok ∈ s.log := by
    simpa only [St.expelled, St.shut, St.refusedWith, St.wrote, St.prepared, List.mem_append,
      List.mem_cons, List.not_mem_nil, or_false, Out.write.injEq, reduceCtorEq, and_false,
      false_and] using ho
  obtain ⟨m', map', hh', hrest⟩ := h c' t pl frame ok ho
  exact ⟨m', map', (heap_expelled (h.ne_fresh hh hm ho)).trans hh', hrest⟩

theorem LogOk.identified (h : LogOk none s) {fd : Fd} {c : Conn} {m : Climap} {map : Fields}
    (hh : s.heap c = some m) (hm : m.Fresh) :
    LogOk (some c) ((s.prepared fd c m map).identified (cdOf map) fd) := by
  intro c' t pl frame ok ho
  obtain ⟨m', map', hh', hparam, ha', ht, hor⟩ := h c' t pl frame ok ho
  exact ⟨m', map', (heap_prepared fd (h.ne_fresh hh hm ho)).trans hh', hparam, ha', ht,
    hor.imp (fun h => by cases h) id⟩

theorem LogOk.authorized {c : Conn} {m : Climap} (h : LogOk (some c) s) (hh : s.heap c = some m) :
    LogOk none ((s.authorized c m).wrote env c (.ca 0 (ascii "ok"))
      (env.frame (.ca 0 (ascii "ok")))) := by
  intro c' t pl frame ok ho
  have ho : Out.write c' (.pb t pl) frame ok ∈ s.log := by
    simpa only [St.wrote, St.authorized, List.mem_append, List.mem_cons, List.not_mem_nil,
      or_false, Out.write.injEq, reduceCtorEq, and_false, false_and] using ho
  obtain ⟨m', map', hh', hparam', ha', ht, hor⟩ := h c' t pl frame ok ho
  by_cases hcc : c' = c
  · subst hcc
    rw [hh] at hh'
    cases hh'
    exact ⟨_, map', Function.update_self c' _ _, hparam', ha', ht, .inr rfl⟩
  · refine ⟨m', map', (heap_authorized hcc).trans hh', hparam', ha', ht, .inr ?_⟩
    exact hor.resolve_left fun h => hcc (Option.some.inj h)

theorem LogOk.connected (h : LogOk none s) {c : Conn} {fd : Fd} (hheap : s.heap c = none) :
    LogOk none (s.connected c fd) := by
  refine h.same (fun c' m hh => ⟨m, ?_, rfl, rfl⟩) fun o ho hmem => ?_
  · have hcc : c' ≠ c := by
      rintro rfl
      rw [hheap] at hh
      cases hh
    exact (Function.update_of_ne hcc _ _).trans hh
  · rcases List.mem_append.mp hmem with hmem | hmem
    · exact hmem
    · rw [List.mem_singleton] at hmem
      subst hmem
      cases ho

theorem LogOk.move (h : LogOk none s) (hs : Sane none s)
    (hm : Move env (fun _ _ map => CleanTopics map) s s') : LogOk none s' := by
  cases hm with
  | tick ht => exact h.tick hs ht
  | @data c m hh data => exact h.same (heap_update_same hh rfl rfl) fun o _ hmem => hmem
  | log o ho =>
    refine h.same (fun c m hh => ⟨m, hh, rfl, rfl⟩) fun o' ho' hmem => ?_
    rcases List.mem_append.mp hmem with hmem | hmem
    · exact hmem
    · rw [List.mem_singleton] at hmem
      subst hmem
      rw [ho] at ho'
      cases ho'
  | refused hl hh hst hr hP hclose =>
    have hm := hs.settled.fresh hl hh hst
    exact (h.expelled hh hm).cascade (hs.expelled hl hh hm hP) (refused_cascade hs.wf hl hh hclose)
  | admitted hl hh hst hr hP hadm =>
    obtain ⟨s1, m1, hcas, hh1, _, _, rfl⟩ := admitClient_ok hadm
    have hm := hs.settled.fresh hl hh hst
    exact ((h.identified hh hm).cascade (hs.identified hl hh hm (accepts_of_refusal hr).1)
      hcas).authorized hh1

end LogOk

/-! ## The subscription table -/

/-- The topics of a settled connection are those of its accepted command. -/
theorem listed_iff {m : Climap} (h : m.Fresh ∨ ∃ map, m.Accepted map) (t : Bytes) :
    m.Listed t ↔ t ∈ m.topics := by
  rcases h with hf | ⟨map, ha⟩
  · refine ⟨fun hlist => ?_, fun ht => ?_⟩
    · have hst := hlist.1
      rw [hf.state] at hst
      cases hst
    · simp [Climap.topics, hf.param] at ht
  · have htp : ∃ tp, map.get "tp" = some tp := by
      have hvalid := ha.accepts.1
      cases htp : map.get "tp" with
      | some tp => exact ⟨tp, rfl⟩
      | none => simp [passes, validParam, htp, filled] at hvalid
    obtain ⟨tp, htp⟩ := htp
    have htopics : m.topics = splitTabs tp := by
      simp only [Climap.topics, ha.param, cnParam_topics ha.accepts, partsOf, htp, Option.getD_some]
    rw [htopics]
    refine ⟨?_, fun ht => ⟨ha.state, cnParam map, tp, ha.param, htp, ht⟩⟩
    rintro ⟨_, param, tp', hparam, htp', ht⟩
    rw [ha.param] at hparam
    cases hparam
    have htp' : map.get "tp" = some tp' := htp'
    rw [htp] at htp'
    cases htp'
    exact ht

/-- **The subscription table.** If every cn command of a new connection has a clean
topic list, then in every state the broker reaches a descriptor is in the table of a
topic exactly if it belongs to a connection whose accepted command listed the topic;
every publication in the log went to such a connection; and the assert of
`do_publish` never fails. -/
theorem subscriptions_of_clean {env : Env} {evs : List Event}
    (hclean : CnAlong env (fun _ _ map => CleanTopics map) evs) :
    (∀ s, run env evs = .ok () s →
      (∀ t fd, fd ∈ s.subs t ↔
        ∃ c m, s.clientmap.lookup fd = some c ∧ s.heap c = some m ∧ m.Listed t) ∧
      (∀ c t pl frame ok, Out.write c (.pb t pl) frame ok ∈ s.log →
        ∃ m, s.heap c = some m ∧ m.Listed t)) ∧
    (∀ s, run env evs ≠ .error (.assertFailed "do_publish") s) := by
  have hconn : ∀ s c fd, WF s → Sane none s ∧ LogOk none s → s.heap c = none →
      s.clientmap.lookup fd = none → Sane none (s.connected c fd) ∧ LogOk none (s.connected c fd) :=
    fun s c fd _ h hheap hl => ⟨h.1.connected hheap hl, h.2.connected hheap⟩
  have hmove : ∀ s s', WF s → Sane none s ∧ LogOk none s →
      Move env (fun _ _ map => CleanTopics map) s s' → Sane none s' ∧ LogOk none s' :=
    fun s s' _ h hm => ⟨h.1.move hm, h.2.move h.1 hm⟩
  have hnew : Sane none .new ∧ LogOk none .new :=
    ⟨.new, by intro c t pl frame ok h; cases h⟩
  refine ⟨fun s hrun => ?_, fun s hrun => ?_⟩
  · obtain ⟨_, h, hlog⟩ := run_invariant hnew hconn hmove hclean hrun
    refine ⟨fun t fd => ?_, fun c t pl frame ok ho => ?_⟩
    · rw [h.subs.mem]
      refine exists_congr fun c => exists_congr fun m => ?_
      constructor
      · rintro ⟨hl, hh, ht⟩
        exact ⟨hl, hh, (listed_iff (h.settled fd c m hl hh (by simp)) t).mpr ht⟩
      · rintro ⟨hl, hh, ht⟩
        exact ⟨hl, hh, (listed_iff (h.settled fd c m hl hh (by simp)) t).mp ht⟩
    · obtain ⟨m, map, hh, hparam, ha, ht, hor⟩ := hlog c t pl frame ok ho
      have hacc : m.Accepted map := ⟨hor.resolve_left (by simp), hparam, ha⟩
      refine ⟨m, hh, (listed_iff (.inr ⟨map, hacc⟩) t).mpr ?_⟩
      simpa only [Climap.topics, hparam, cnParam_topics ha] using ht
  · obtain ⟨s1, _, h, hf⟩ := run_fault hnew hconn hmove hclean hrun
    exact h.1.fault hf rfl

/-- Two subscribers and a publication. -/
def cleanRun : List Event :=
  [.accept 0 5, .chunk 0 (cnFrame "x" "5" "a	b" []), .accept 1 6,
    .chunk 1 (cnFrame "y" "5" "b" [] ++
      commandFrame [("id", ascii "pb"), ("tp", ascii "b"), ("pl", ascii "z")])]

theorem subscriptions_of_clean_two :
    (∀ s, run .calm cleanRun = .ok () s →
      (∀ t fd, fd ∈ s.subs t ↔
        ∃ c m, s.clientmap.lookup fd = some c ∧ s.heap c = some m ∧ m.Listed t) ∧
      (∀ c t pl frame ok, Out.write c (.pb t pl) frame ok ∈ s.log →
        ∃ m, s.heap c = some m ∧ m.Listed t)) ∧
    (∀ s, run .calm cleanRun ≠ .error (.assertFailed "do_publish") s) := by
  refine subscriptions_of_clean (CnAlong.mono (fun _ _ map h => of_decide_eq_true h)
    (cnAlong_of_check (p := fun _ _ map => decide (CleanTopics map)) ?_))
  decide +kernel

/-- The topic list "a", tab: the connection 0 is refused, but its descriptor 5 stays. -/
def dirtyRun : List Event := [.accept 0 5, .chunk 0 (cnFrame "x" "5" "a	" [])]

/-- A well-behaved client that publishes to that topic. -/
def publisherRun : List Event :=
  [.accept 1 6, .chunk 1 (cnFrame "y" "5" "b" [] ++
    commandFrame [("id", ascii "pb"), ("tp", ascii "a"), ("pl", ascii "z")])]

/-- The descriptor of a refused connection stays in the table: the next publication
to the topic makes the assert of `do_publish` fail. -/
theorem subscription_left_behind :
    (∃ s, run .calm dirtyRun = .ok () s ∧ 5 ∈ s.subs (ascii "a") ∧
      s.clientmap.lookup 5 = none) ∧
    ∃ s, run .calm (dirtyRun ++ publisherRun) = .error (.assertFailed "do_publish") s := by
  constructor
  · have h : endsIn (fun s => 5 ∈ s.subs (ascii "a") && (s.clientmap.lookup 5).isNone)
        (run .calm dirtyRun) = true := by decide +kernel
    obtain ⟨s, hrun, hs⟩ := exists_of_endsIn h
    simp only [Bool.and_eq_true, decide_eq_true_eq, Option.isNone_iff_eq_none] at hs
    exact ⟨s, hrun, hs⟩
  · exact exists_of_raises (by decide +kernel)

end ApApps.Sand

import ApApps.Sand.LockStep

/- What connections that are never accepted can do to the others. A refused cn command
   publishes its will, removes the registration of the id it carries, or stops the
   broker (`will_of_a_stranger`). If no refused command does any of that, the run
   without the events of the connections that are never accepted writes the same
   frames to each of the others (`frames_of_discreet`).

   `Twin` relates the two runs: the second broker is the first one without the
   connections that are not kept. -/
namespace ApApps.Sand
open Incremental ApApps.Redis Exec

/-- The connection has reached `st_auth`. -/
def St.accepted (s : St) (c : Conn) : Bool :=
  ((s.heap c).map fun m => decide (m.state = .stAuth)).getD false

/-- Nobody hears of the will of the command. -/
def Unheard (s : St) (map : Fields) : Prop :=
  match (cnParam map).will with
  | none => True
  | some (wt, _) => s.subs wt = []

instance (s : St) (map : Fields) : Decidable (Unheard s map) := by
  unfold Unheard
  split <;> infer_instance

/-- If the command is refused, it carries an id that is not in use, its topic list is
clean, and nobody hears of its will. -/
structure Discreet (s : St) (map : Fields) : Prop where
  tidy : Tidy s map
  free : refusal s map ≠ none → s.clientid2fd (cdOf map) = none
  unheard : refusal s map ≠ none → Unheard s map

instance (s : St) (map : Fields) : Decidable (Discreet s map) :=
  decidable_of_iff (Tidy s map ∧ (refusal s map ≠ none → s.clientid2fd (cdOf map) = none) ∧
      (refusal s map ≠ none → Unheard s map))
    ⟨fun ⟨h1, h2, h3⟩ => ⟨h1, h2, h3⟩, fun ⟨h1, h2, h3⟩ => ⟨h1, h2, h3⟩⟩

/-! ## Twins -/

/-- `s'` is `s` without the connections that are not kept; these are subscribed to
nothing. -/
structure Twin (keep : Conn → Bool) (s s' : St) : Prop where
  heap : ∀ c, s'.heap c = if keep c then s.heap c else none
  clientmap : ∀ fd, s'.clientmap.lookup fd = (s.clientmap.lookup fd).filter keep
  ids : s'.clientid2fd = s.clientid2fd
  topics : s'.topic2client = s.topic2client
  frames : ∀ c, keep c = true → framesTo c s'.log = framesTo c s.log
  others : ∀ c m, keep c = false → s.heap c = some m → m.topics = []

section Twin
variable {env : Env} {keep : Conn → Bool} {s s' : St}

theorem Twin.heap_keep (h : Twin keep s s') {c : Conn} (hc : keep c = true) :
    s'.heap c = s.heap c := by
  rw [h.heap, if_pos hc]

theorem Twin.lookup_keep (h : Twin keep s s') {fd : Fd} {c : Conn} (hc : keep c = true) :
    s'.clientmap.lookup fd = some c ↔ s.clientmap.lookup fd = some c := by
  rw [h.clientmap, Option.filter_eq_some_iff]
  exact and_iff_left hc

theorem Twin.same_climap (h : Twin keep s s') {c : Conn} {m : Climap} {data : Bytes}
    (hc : keep c = true) (hh : s.heap c = some m) (hh' : s'.heap c = some { m with data }) :
    data = m.data := by
  rw [h.heap_keep hc, hh] at hh'
  exact congrArg Climap.data (Option.some.inj hh').symm

theorem Twin.subs_eq (h : Twin keep s s') (t : Bytes) : s'.subs t = s.subs t := by
  simp only [St.subs, h.topics]

/-- A change of the climap of a kept connection. -/
theorem Twin.heap_update (h : Twin keep s s') {c : Conn} (hc : keep c = true) (m : Climap)
    (c' : Conn) :
    Function.update s'.heap c (some m) c' =
      if keep c' then Function.update s.heap c (some m) c' else none := by
  by_cases hcc : c' = c
  · subst hcc
    rw [Function.update_self, Function.update_self, if_pos hc]
  · rw [Function.update_of_ne hcc, Function.update_of_ne hcc, h.heap]

theorem Twin.others_update (h : Twin keep s s') {c : Conn} (hc : keep c = true) {m : Climap}
    (c' : Conn) (m' : Climap) (hk : keep c' = false)
    (hh : Function.update s.heap c (some m) c' = some m') : m'.topics = [] := by
  have hcc : c' ≠ c := by
    rintro rfl
    rw [hc] at hk
    cases hk
  exact h.others c' m' hk ((Function.update_of_ne hcc _ _).symm.trans hh)

theorem Twin.logged (h : Twin keep s s') (o : Out) : Twin keep (s.logged o) (s'.logged o) where
  heap := h.heap
  clientmap := h.clientmap
  ids := h.ids
  topics := h.topics
  frames := by
    intro c hc
    simp only [St.logged, framesTo_append, h.frames c hc]
  others := h.others

theorem Twin.withData (h : Twin keep s s') {c : Conn} (hc : keep c = true) (m : Climap)
    (data : Bytes) : Twin keep (s.withData c m data) (s'.withData c m data) where
  heap := h.heap_update hc _
  clientmap := h.clientmap
  ids := h.ids
  topics := h.topics
  frames := h.frames
  others := h.others_update hc

theorem Twin.shut (h : Twin keep s s') {fd : Fd} {c : Conn} {m : Climap} (hc : keep c = true) :
    Twin keep (s.shut fd c m) (s'.shut fd c m) where
  heap := h.heap_update hc _
  clientmap := by
    intro fd'
    show (s'.clientmap.erase fd).lookup fd' = ((s.clientmap.erase fd).lookup fd').filter keep
    by_cases hfd : fd' = fd
    · subst hfd
      rw [AList.lookup_erase, AList.lookup_erase, Option.filter_none]
    · rw [AList.lookup_erase_ne hfd, AList.lookup_erase_ne hfd, h.clientmap]
  ids := by
    simp only [St.shut, h.ids]
  topics := by
    simp only [St.shut, h.topics]
  frames := by
    intro c' hc'
    simp only [St.shut, framesTo_append, h.frames c' hc']
  others := h.others_update hc

theorem Twin.published (h : Twin keep s s') (topic payload : Bytes) :
    Twin keep (s.published env topic payload) (s'.published env topic payload) where
  heap := h.heap
  clientmap := h.clientmap
  ids := h.ids
  topics := h.topics
  frames := fun c hc =>
    framesTo_published topic payload (h.subs_eq topic) (fun _ => h.lookup_keep hc) (h.frames c hc)
  others := h.others

/-- Twins while a command of `c` is handled. -/
structure Paired (keep : Conn → Bool) (fd : Fd) (c : Conn) (s s' : St) : Prop where
  twin : Twin keep s s'
  only : ∀ c', s.clientmap.lookup fd = some c' → c' = c
  climap : ∃ m, s.heap c = some m

/-- **A command of a kept connection** does the same to both. -/
theorem Twin.lockStep (env : Env) {fd : Fd} {c : Conn} (hc : keep c = true) :
    LockStep env (Paired keep fd c) fd c where
  lookup := by
    intro s s' h
    rw [h.twin.clientmap]
    cases hl : s.clientmap.lookup fd with
    | none => rfl
    | some c' =>
      obtain rfl := h.only c' hl
      simp [hc]
  only := Paired.only
  climap := by
    intro s s' h
    obtain ⟨m, hh⟩ := h.climap
    exact ⟨m, m.data, hh, (h.twin.heap_keep hc).trans hh⟩
  ids := fun h => h.twin.ids
  logged := fun h => ⟨h.twin.logged _, h.only, h.climap⟩
  prepared := by
    intro s s' m data h hh hh' map
    obtain rfl := h.twin.same_climap hc hh hh'
    refine ⟨⟨h.twin.heap_update hc _, h.twin.clientmap, h.twin.ids, ?_, h.twin.frames,
      h.twin.others_update hc⟩, h.only, _, Function.update_self c _ _⟩
    simp only [St.prepared, h.twin.topics]
  identified := by
    intro s s' h cd
    refine ⟨⟨h.twin.heap, h.twin.clientmap, ?_, h.twin.topics, h.twin.frames, h.twin.others⟩,
      h.only, h.climap⟩
    simp only [St.identified, h.twin.ids]
  authorized := by
    intro s s' m data h hh hh'
    obtain rfl := h.twin.same_climap hc hh hh'
    exact ⟨⟨h.twin.heap_update hc _, h.twin.clientmap, h.twin.ids, h.twin.topics, h.twin.frames,
      h.twin.others_update hc⟩, h.only, _, Function.update_self c _ _⟩
  shut := by
    intro s s' m data h hl hh hh'
    obtain rfl := h.twin.same_climap hc hh hh'
    refine ⟨h.twin.shut hc, fun c' hl' => ?_, _, Function.update_self c _ _⟩
    have hl' : (s.clientmap.erase fd).lookup fd = some c' := hl'
    rw [AList.lookup_erase] at hl'
    cases hl'
  published := fun h topic payload => ⟨h.twin.published topic payload, h.only, h.climap⟩

/-! ## The second broker is in order -/

theorem Twin.subOk (h : Twin keep s s') (hs : SubOk s) : SubOk s' where
  mem := by
    intro t fd
    rw [h.subs_eq, hs.mem]
    constructor
    · rintro ⟨c, m, hl, hh, ht⟩
      have hc : keep c = true := by
        by_contra hk
        rw [h.others c m (by simpa using hk) hh] at ht
        cases ht
      exact ⟨c, m, (h.lookup_keep hc).mpr hl, (h.heap_keep hc).trans hh, ht⟩
    · rintro ⟨c, m, hl, hh, ht⟩
      rw [h.clientmap, Option.filter_eq_some_iff] at hl
      exact ⟨c, m, hl.1, (h.heap_keep hl.2).symm.trans hh, ht⟩
  nodup := by
    intro t
    rw [h.subs_eq]
    exact hs.nodup t

theorem Twin.sane (h : Twin keep s s') (hs : Sane none s) (hw : WF s') : Sane none s' where
  wf := hw
  subs := h.subOk hs.subs
  settled := by
    intro fd c m hl hh hx
    rw [h.clientmap, Option.filter_eq_some_iff] at hl
    exact hs.settled fd c m hl.1 ((h.heap_keep hl.2).symm.trans hh) hx
  pending := by
    intro c m hx
    cases hx

/-! ## Events of kept connections -/

theorem Twin.tidy (h : Twin keep s s') {c : Conn} (hc : keep c = true) (hP : NextTidy c s) :
    NextTidy c s' := by
  intro m map rest hh hst hread
  rw [h.heap_keep hc] at hh
  have hnow := hP m map rest hh hst hread
  have heq : refusal (s'.called c m rest .cn map) map = refusal (s.called c m rest .cn map) map := by
    unfold refusal
    rw [show (s'.called c m rest .cn map).clientid2fd = (s.called c m rest .cn map).clientid2fd from
      h.ids]
  unfold Tidy
  rw [heq]
  exact hnow

/-- A turn of a kept connection. -/
theorem Twin.turn_kept (h : Twin keep s s') (env : Env) {fd : Fd} {c : Conn} (m : Climap) (hc : keep c = true)
    (hl : s.clientmap.lookup fd = some c) :
    (calmTurn env fd c m s').1 = (calmTurn env fd c m s).1 ∧
      Twin keep (calmTurn env fd c m s).2 (calmTurn env fd c m s').2 := by
  have honly : ∀ c', s.clientmap.lookup fd = some c' → c' = c := by
    intro c' hl'
    rw [hl] at hl'
    exact (Option.some.inj hl').symm
  unfold calmTurn
  obtain ⟨next, hnext⟩ := readCommand_total m.data
  rw [hnext]
  cases next with
  | wait => exact ⟨rfl, h⟩
  | refuse rest err =>
    have hpair : Paired keep fd c (s.withData c m rest) (s'.withData c m rest) :=
      ⟨h.withData hc m rest, honly, _, Function.update_self c _ _⟩
    exact ⟨rfl, ((Twin.lockStep env hc).calmClose hpair).twin⟩
  | call cmd map rest =>
    have hpair : Paired keep fd c (s.called c m rest cmd map) (s'.called c m rest cmd map) :=
      ⟨(h.withData hc m rest).logged _, honly, _, Function.update_self c _ _⟩
    obtain ⟨hret, hstate⟩ := (Twin.lockStep env hc).calmHandle hpair { m with data := rest } rest
      (Function.update_self c _ _) (Function.update_self c _ _) map cmd
    exact ⟨hret, hstate.twin⟩

/-- The loop of a kept connection does the same to both. -/
theorem Twin.loop_kept (hok : env.AllOk) {fd : Fd} {c : Conn} (hc : keep c = true) (fuel : Nat)
    (h : Twin keep s s') (hsane : Sane none s) (hs : Serving fd c s) (hs' : Serving fd c s')
    (hl : s.clientmap.lookup fd = some c)
    (hP : CnOk env (fun s _ map => Tidy s map) fd c s) {b : Bool} {s1 : St}
    (hloop : dataLoop env fd c fuel s = .ok b s1) :
    ∃ s1', dataLoop env fd c fuel s' = .ok b s1' ∧ Twin keep s1 s1' := by
  induction fuel generalizing s s' with
  | zero =>
    cases hloop
    exact ⟨s', rfl, h⟩
  | succ fuel ih =>
    obtain ⟨m, hh, _⟩ := hsane.wf.live fd c hl
    have hh' : s'.heap c = some m := (h.heap_keep hc).trans hh
    have hl' : s'.clientmap.lookup fd = some c := (h.lookup_keep hc).mpr hl
    have hsane' : Sane none s' := h.sane hsane hs'.wf
    unfold dataLoop at hloop ⊢
    rw [bind_of_ok (climapOf_eq hh)] at hloop
    rw [bind_of_ok (climapOf_eq hh')]
    by_cases hdata : m.data = []
    · rw [if_pos hdata] at hloop ⊢
      cases hloop
      exact ⟨s', rfl, h⟩
    · rw [if_neg hdata] at hloop ⊢
      obtain ⟨b1, s2, hturn, hrest⟩ := bind_eq_ok.mp hloop
      obtain ⟨b1', s2', hturn'⟩ := turn_total hok hsane' hl' (h.tidy hc (hP.next fun _ _ _ h => h))
      have hcalm := turn_calm hok hsane.wf hl hh hturn
      have hcalm' := turn_calm hok hsane'.wf hl' hh' hturn'
      obtain ⟨hb, htwin⟩ := h.turn_kept env m hc hl
      rw [← hcalm, ← hcalm'] at hb htwin
      have hb : b1' = b1 := hb
      subst hb
      rw [bind_of_ok hturn']
      cases b1' with
      | false =>
        cases hrest
        exact ⟨s2', rfl, htwin⟩
      | true =>
        have hgo := calmTurn_going env (m := m) hl (by rw [← hcalm])
        rw [← hcalm] at hgo
        have hmoves := (moves_turn hs hP).1 _ _ hturn
        have hmoves' := (moves_turn (P := fun _ _ _ => True) hs' fun _ _ _ _ _ _ _ _ => trivial).1
          _ _ hturn'
        exact ih htwin (turn_sane (fun _ _ _ h => h) hsane hs hP hturn) (hs.moves hmoves)
          (hs'.moves hmoves') hgo.1 (hP.turned hturn) hrest

/-- The log of both grows by the same. -/
theorem Twin.appended (h : Twin keep s s') (os : List Out) :
    Twin keep { s with log := s.log ++ os } { s' with log := s'.log ++ os } where
  heap := h.heap
  clientmap := h.clientmap
  ids := h.ids
  topics := h.topics
  frames := by
    intro c hc
    simp only [framesTo_append, h.frames c hc]
  others := h.others

theorem Twin.connected (h : Twin keep s s') {c : Conn} (hc : keep c = true) (fd : Fd) :
    Twin keep (s.connected c fd) (s'.connected c fd) where
  heap := h.heap_update hc _
  clientmap := by
    intro fd'
    show (s'.clientmap.insert fd c).lookup fd' = ((s.clientmap.insert fd c).lookup fd').filter keep
    by_cases hfd : fd' = fd
    · subst hfd
      rw [AList.lookup_insert, AList.lookup_insert, Option.filter_some, if_pos hc]
    · rw [AList.lookup_insert_ne hfd, AList.lookup_insert_ne hfd, h.clientmap]
  ids := h.ids
  topics := h.topics
  frames := by
    intro c' hc'
    simp only [St.connected, framesTo_append, h.frames c' hc']
  others := h.others_update hc

/-- Closing the connection of a registered descriptor in both. -/
theorem Twin.close_kept (hok : env.AllOk) (h : Twin keep s s') (hsane : Sane none s) (hw' : WF s')
    {fd : Fd} {c : Conn} (hc : keep c = true) (hl : s.clientmap.lookup fd = some c) (err : Bytes) :
    ∃ s1 s1', closeClient env fd err s = .ok () s1 ∧ closeClient env fd err s' = .ok () s1' ∧
      Twin keep s1 s1' := by
  obtain ⟨s1, h1⟩ := hsane.closeClient hok fd err
  obtain ⟨s1', h1'⟩ := (h.sane hsane hw').closeClient hok fd err
  refine ⟨s1, s1', h1, h1', ?_⟩
  obtain rfl := closeClient_calmClose hok hsane.wf h1
  obtain rfl := closeClient_calmClose hok hw' h1'
  obtain ⟨m, hh, _⟩ := hsane.wf.live fd c hl
  have hpair : Paired keep fd c s s' := by
    refine ⟨h, fun c' hl' => ?_, m, hh⟩
    rw [hl] at hl'
    exact (Option.some.inj hl').symm
  exact ((Twin.lockStep env hc).calmClose hpair).twin

theorem Twin.enabled_accept (h : Twin keep s s') (hw : WF s) (hw' : WF s') {c : Conn} {fd : Fd}
    (hc : keep c = true) (hen : enabled s (.accept c fd) = true) :
    enabled s' (.accept c fd) = true := by
  obtain ⟨hheap, hfd⟩ : s.heap c = none ∧ fd ∉ s.openFds := by
    simpa [enabled, Option.isNone_iff_eq_none] using hen
  have hfd' : fd ∉ s'.openFds := by
    intro hmem
    obtain ⟨c', hl'⟩ := (hw'.fds fd).mp hmem
    rw [h.clientmap, Option.filter_eq_some_iff] at hl'
    exact hfd ((hw.fds fd).mpr ⟨c', hl'.1⟩)
  simp [enabled, h.heap_keep hc, hheap, hfd']

/-- **An event of a kept connection** does the same to both. -/
theorem Twin.step_kept (hok : env.AllOk) (h : Twin keep s s') (hsane : Sane none s) (hw' : WF s')
    {ev : Event} (hc : keep ev.conn = true) (hen : enabled s ev = true)
    (hP : EventOk env (fun s _ map => Tidy s map) s ev) :
    (∃ s1 s1', step env ev s = .ok () s1 ∧ step env ev s' = .ok () s1' ∧ Twin keep s1 s1') ∨
      ∃ e e' s1 s1', step env ev s = .error e s1 ∧ step env ev s' = .error e' s1' ∧
        Twin keep s1 s1' := by
  have hstep : step env ev s = handle env ev s := if_pos hen
  cases ev with
  | accept c fd =>
    have hen' := h.enabled_accept hsane.wf hw' hc hen
    exact .inl ⟨_, _, (step_accept env hsane.wf hen).2.2, (step_accept env hw' hen').2.2,
      h.connected hc fd⟩
  | chunk c data =>
    have hc : keep c = true := hc
    obtain ⟨hopen, hne⟩ : s.isOpen c = true ∧ data ≠ [] := by simpa [enabled] using hen
    obtain ⟨m, hh, hcl⟩ := isOpen_iff.mp hopen
    have hh' : s'.heap c = some m := (h.heap_keep hc).trans hh
    have hen' : enabled s' (.chunk c data) = true := by
      simp [enabled, isOpen_iff.mpr ⟨m, hh', hcl⟩, hne]
    have hstep' : step env (.chunk c data) s' = handle env (.chunk c data) s' := if_pos hen'
    rw [hstep, hstep', handle_chunk_eq hsane.wf data hh hcl, handle_chunk_eq hw' data hh' hcl]
    have hs := Serving.received hsane.wf data hh hcl
    have hl : (s.received c m data).clientmap.lookup m.fd = some c :=
      hsane.wf.registered c m hh (.inr hcl)
    have hrecv : Sane none (s.received c m data) := (hsane.logged (.recv c data)).withData _ hh
    have htwin : Twin keep (s.received c m data) (s'.received c m data) :=
      (h.logged _).withData hc m _
    obtain ⟨b, s1, hloop, hgo⟩ := dataLoop_total hok (fun _ _ _ h => h) (m.data ++ data).length
      hrecv hs hl (hP hen m hh) (.inr ⟨by simp [hne], by
        intro m' hm'
        have hm' : some _ = some m' := (Function.update_self c _ _).symm.trans hm'
        cases hm'
        simp [hne]⟩)
    obtain ⟨s1', hloop', htwin1⟩ := htwin.loop_kept hok hc (m.data ++ data).length hrecv hs
      (Serving.received hw' data hh' hcl) hl (hP hen m hh) hloop
    rw [bind_of_ok hloop, bind_of_ok hloop']
    cases b with
    | false => exact .inl ⟨s1, s1', rfl, rfl, htwin1⟩
    | true =>
      -- the timer is restarted, or not, from the same climap
      obtain ⟨_, m1, hm1, _⟩ := hgo rfl
      have hm1' : s1'.heap c = some m1 := (htwin1.heap_keep hc).trans hm1
      obtain ⟨os, hrestart | ⟨e, hrestart⟩⟩ := restartTimer_climap c m1
      · exact .inl ⟨_, _, hrestart s1 hm1, hrestart s1' hm1', htwin1.appended os⟩
      · exact .inr ⟨e, e, _, _, hrestart s1 hm1, hrestart s1' hm1', htwin1.appended os⟩
  | closed c err =>
    have hc : keep c = true := hc
    obtain ⟨m, hh, hcl⟩ := isOpen_iff.mp (show s.isOpen c = true from hen)
    have hh' : s'.heap c = some m := (h.heap_keep hc).trans hh
    have hen' : enabled s' (.closed c err) = true := isOpen_iff.mpr ⟨m, hh', hcl⟩
    have hstep' : step env (.closed c err) s' = handle env (.closed c err) s' := if_pos hen'
    rw [hstep, hstep', handle, bind_of_ok (climapOf_eq hh), bind_of_ok (climapOf_eq hh')]
    exact .inl (h.close_kept hok hsane hw' hc (hsane.wf.registered c m hh (.inr hcl)) _)
  | timeout c =>
    have hc : keep c = true := hc
    cases hh : s.heap c with
    | none => simp [enabled, hh] at hen
    | some m =>
      have hh' : s'.heap c = some m := (h.heap_keep hc).trans hh
      have ht : m.timer = true := by simpa [enabled, hh] using hen
      have hen' : enabled s' (.timeout c) = true := by simpa [enabled, hh'] using ht
      have hstep' : step env (.timeout c) s' = handle env (.timeout c) s' := if_pos hen'
      rw [hstep, hstep', handle, bind_of_ok (climapOf_eq hh), bind_of_ok (climapOf_eq hh')]
      exact .inl (h.close_kept hok hsane hw' hc (hsane.wf.registered c m hh (.inl ht)) _)

/-! ## Accepted connections -/

theorem Moves.accepted {P : St → Conn → Fields → Prop} (h : Moves env P s s') (hw : WF s) {c : Conn}
    (hc : s.accepted c = true) : s'.accepted c = true := by
  induction h with
  | refl => exact hc
  | @tail s1 s2 h1 h2 ih =>
    cases hh : s1.heap c with
    | none => simp [St.accepted, hh] at ih
    | some m =>
      have hauth : m.state = .stAuth := by simpa [St.accepted, hh] using ih
      obtain ⟨m', hh', hst, _⟩ := h2.auth (hw.moves h1) hh hauth
      simp [St.accepted, hh', hst, hauth]

/-- An accepted connection stays accepted until the end of a chunk. -/
theorem loop_accepted (hok : env.AllOk) {fd : Fd} {c c' : Conn} (fuel : Nat) (h : Sane none s)
    (hs : Serving fd c s) (hl : s.clientmap.lookup fd = some c)
    (hP : CnOk env (fun s _ map => Tidy s map) fd c s)
    (hstart : Going fd c s ∨ (fuel ≠ 0 ∧ ∀ m, s.heap c = some m → m.data ≠ []))
    (hc : s.accepted c' = true) :
    (finalState ((dataLoop env fd c fuel >>= fun fell =>
      if fell then restartTimer c else pure ()) s)).accepted c' = true := by
  obtain ⟨b, s1, hloop, hgo⟩ := dataLoop_total hok (fun _ _ _ h => h) fuel h hs hl hP hstart
  have hc1 := ((moves_dataLoop fuel hs hP).1 _ _ hloop).accepted hs.wf hc
  rw [bind_of_ok hloop]
  cases b with
  | false => exact hc1
  | true =>
    obtain ⟨_, m, hh, _⟩ := hgo rfl
    obtain ⟨os, hrestart | ⟨e, hrestart⟩⟩ := restartTimer_climap c m
    · rw [if_pos rfl, hrestart s1 hh]
      exact hc1
    · rw [if_pos rfl, hrestart s1 hh]
      exact hc1

/-- A callback takes `st_auth` from no connection. -/
theorem step_accepted (hok : env.AllOk) (h : Sane none s) {ev : Event}
    (hP : EventOk env (fun s _ map => Tidy s map) s ev) {c : Conn} (hc : s.accepted c = true) :
    (finalState (step env ev s)).accepted c = true := by
  rcases step_tidy hok (fun _ _ _ h => h) h hP with ⟨s1, hstep⟩ | ⟨fd, c', s1, hm, hgo, hstep⟩
  · rw [hstep]
    rcases step_moves h.wf hP with ⟨c', fd, rfl, hheap, hl, heq⟩ | hwithin
    · rw [heq] at hstep
      cases hstep
      have hcc : c ≠ c' := by
        rintro rfl
        simp [St.accepted, hheap] at hc
      have hsame : (s.connected c' fd).heap c = s.heap c := Function.update_of_ne hcc _ _
      simpa only [finalState, St.accepted, hsame] using hc
    · exact (hwithin.1 () s1 hstep).accepted h.wf hc
  · rw [hstep]
    have hc1 := hm.accepted h.wf hc
    obtain ⟨_, m, hh, _⟩ := hgo
    obtain ⟨os, hrestart | ⟨e, hrestart⟩⟩ := restartTimer_climap c' m
    · rw [hrestart s1 hh]
      exact hc1
    · rw [hrestart s1 hh]
      exact hc1

/-! ## Events of the other connections -/

/-- What happens to a connection that is not kept is not seen by the second broker. -/
theorem Twin.drop (h : Twin keep s s') {s1 : St} {c : Conn} (hc : keep c = false)
    (hheap : ∀ c', c' ≠ c → s1.heap c' = s.heap c')
    (htopics : ∀ m, s1.heap c = some m → m.topics = [])
    (hmap : ∀ fd, (s1.clientmap.lookup fd).filter keep = (s.clientmap.lookup fd).filter keep)
    (hids : s1.clientid2fd = s.clientid2fd) (ht2c : s1.topic2client = s.topic2client)
    (hframes : ∀ c', keep c' = true → framesTo c' s1.log = framesTo c' s.log) : Twin keep s1 s' where
  heap := by
    intro c'
    by_cases hcc : c' = c
    · rw [h.heap, hcc, hc]
      rfl
    · rw [h.heap, hheap c' hcc]
  clientmap := by
    intro fd
    rw [hmap, h.clientmap]
  ids := h.ids.trans hids.symm
  topics := h.topics.trans ht2c.symm
  frames := fun c' hc' => (h.frames c' hc').trans (hframes c' hc').symm
  others := by
    intro c' m hk hm
    by_cases hcc : c' = c
    · exact htopics m (hcc ▸ hm)
    · exact h.others c' m hk ((hheap c' hcc).symm.trans hm)

/-- A change of the climap of such a connection. -/
theorem Twin.drop_update (h : Twin keep s s') {s1 : St} {c : Conn} {m : Climap}
    (hc : keep c = false) (hheap : s1.heap = Function.update s.heap c (some m))
    (htopics : m.topics = []) (hmap : s1.clientmap = s.clientmap)
    (hids : s1.clientid2fd = s.clientid2fd) (ht2c : s1.topic2client = s.topic2client)
    (hframes : ∀ c', keep c' = true → framesTo c' s1.log = framesTo c' s.log) : Twin keep s1 s' := by
  refine h.drop hc (fun c' hcc => ?_) (fun m' hm' => ?_) (fun fd => by rw [hmap]) hids ht2c hframes
  · rw [hheap, Function.update_of_ne hcc]
  · rw [hheap, Function.update_self] at hm'
    cases hm'
    exact htopics

/-- The log says nothing about frames to other connections. -/
theorem framesTo_of_ne {c c' : Conn} {log : List Out} {o : Out} (hcc : c' ≠ c)
    (ho : ∀ c1 msg frame ok, o = .write c1 msg frame ok → c1 = c) :
    framesTo c' (log ++ [o]) = framesTo c' log := by
  rw [framesTo_append]
  cases o with
  | write c1 msg frame ok =>
    obtain rfl := ho c1 msg frame ok rfl
    simp [framesTo, hcc.symm]
  | _ => simp [framesTo]

theorem keep_ne {c c' : Conn} (hc : keep c = false) (hc' : keep c' = true) : c' ≠ c := by
  rintro rfl
  rw [hc] at hc'
  cases hc'

/-- Such a connection is closed without a trace. -/
theorem Twin.drop_close (h : Twin keep s s') {fd : Fd} {c : Conn} {m : Climap}
    (hc : keep c = false) (hl : s.clientmap.lookup fd = some c) (hh : s.heap c = some m)
    (htopics : m.topics = []) (hids : ∀ cd, m.clientid = some cd → s.clientid2fd cd = none)
    (hwill : ∀ wt wp, m.param.bind Param.will = some (wt, wp) → s.subs wt = []) :
    Twin keep (s.calmClose env fd) s' := by
  have ht2c : (s.shut fd c m).topic2client = s.topic2client := by
    funext t
    simp only [St.shut, htopics, List.not_mem_nil, if_false]
  have hshut : Twin keep (s.shut fd c m) s' := by
    refine h.drop hc (fun c' hcc => Function.update_of_ne hcc _ _) (fun m' hm' => ?_) (fun fd' => ?_)
      ?_ ht2c (fun c' hc' => ?_)
    · have hm' : some _ = some m' := (Function.update_self c _ _).symm.trans hm'
      cases hm'
      exact htopics
    · show ((s.clientmap.erase fd).lookup fd').filter keep = _
      by_cases hfd : fd' = fd
      · subst hfd
        rw [AList.lookup_erase, hl, Option.filter_none, Option.filter_some, hc]
        rfl
      · rw [AList.lookup_erase_ne hfd]
    · simp only [St.shut]
      cases hcd : m.clientid with
      | none => rfl
      | some cd =>
        simp only [Function.update_eq_self_iff]
        exact (hids cd hcd).symm
    · simp only [St.shut, framesTo_append]
      simp [framesTo]
  rw [calmClose_eq hl hh]
  unfold St.closed
  cases hw : m.param.bind Param.will with
  | none => exact hshut
  | some will =>
    -- nobody is subscribed to the topic of the will
    have hnil : (s.shut fd c m).subs will.1 = [] := by
      rw [St.subs, ht2c]
      exact hwill will.1 will.2 hw
    have hvisit : env.visit (s.shut fd c m).log ((s.shut fd c m).subs will.1) = [] := by
      have hperm := env.visit_perm (s.shut fd c m).log ((s.shut fd c m).subs will.1)
      rw [hnil] at hperm ⊢
      exact hperm.eq_nil
    simp only [St.published, hvisit, St.deliveries, List.filterMap_nil, List.append_nil]
    exact hshut

theorem Climap.Fresh.topics {m : Climap} (h : m.Fresh) : m.topics = [] := by
  simp only [Climap.topics, h.param]

/-- A connection that has sent no cn command is closed without a trace. -/
theorem Twin.drop_fresh (h : Twin keep s s') (env : Env) {fd : Fd} {c : Conn} {m : Climap}
    (hc : keep c = false) (hl : s.clientmap.lookup fd = some c) (hh : s.heap c = some m)
    (hm : m.Fresh) : Twin keep (s.calmClose env fd) s' := by
  refine h.drop_close hc hl hh hm.topics (fun cd hcd => ?_) (fun wt wp hw => ?_)
  · simp only [Climap.clientid, hm.param, Option.bind_none, reduceCtorEq] at hcd
  · simp only [hm.param, Option.bind_none, reduceCtorEq] at hw

/-- A refused command that is discreet registers nothing. -/
theorem Discreet.registered {map : Fields} (h : Discreet s map) (hr : refusal s map ≠ none) :
    registered map = [] ∧ (cnParam map).topics = [] := by
  have hno : ¬ accepts map := fun ha => hr (refusal_eq_none ha (h.free hr))
  rw [(h.tidy.clean).registered]
  exact ⟨cnParam_topics_raw hno, cnParam_topics_raw hno⟩

/-- A cn command of such a connection that is refused. -/
theorem Twin.drop_refused (h : Twin keep s s') {fd : Fd} {c : Conn} {m : Climap} {map : Fields}
    (hc : keep c = false) (hl : s.clientmap.lookup fd = some c) (hP : Discreet s map)
    (err : Bytes) (hr : refusal s map ≠ none) :
    Twin keep (((s.prepared fd c m map).answered env c 1 err).calmClose env fd) s' := by
  obtain ⟨hreg, htopics⟩ := hP.registered hr
  have ht2c : ((s.prepared fd c m map).answered env c 1 err).topic2client = s.topic2client := by
    show (registered map).foldl (addSub fd) s.topic2client = _
    rw [hreg, List.foldl_nil]
  have htop : ({ m with param := some (cnParam map) } : Climap).topics = [] := htopics
  have hprep : Twin keep ((s.prepared fd c m map).answered env c 1 err) s' := by
    refine h.drop_update hc rfl htop rfl rfl ht2c fun c' hc' => ?_
    refine framesTo_of_ne (keep_ne hc hc') fun c1 msg frame ok heq => ?_
    cases heq
    rfl
  refine hprep.drop_close hc hl (Function.update_self c _ _) htop (fun cd hcd => ?_)
    (fun wt wp hw => ?_)
  · have hcd : map.get "cd" = some cd := hcd
    have hfree := hP.free hr
    rw [cdOf, hcd, Option.getD_some] at hfree
    exact hfree
  · have hw : (cnParam map).will = some (wt, wp) := hw
    have hquiet := hP.unheard hr
    simp only [Unheard, hw] at hquiet
    rw [St.subs, ht2c]
    exact hquiet

/-- **A turn of a new connection** that is not kept leaves no trace, unless the
connection is accepted. -/
theorem Twin.turn_dropped (h : Twin keep s s') (env : Env) {fd : Fd} {c : Conn} {m : Climap}
    (hc : keep c = false) (hl : s.clientmap.lookup fd = some c) (hm : m.Fresh)
    (hP : ∀ map rest, readCommand m.data = .ok (.call .cn map rest) →
      Discreet (s.called c m rest .cn map) map) :
    ((calmTurn env fd c m s).1 = false ∧ Twin keep (calmTurn env fd c m s).2 s') ∨
      (calmTurn env fd c m s).2.accepted c = true := by
  have hfresh : ∀ rest, ({ m with data := rest } : Climap).Fresh := fun _ => ⟨hm.state, hm.param⟩
  unfold calmTurn
  obtain ⟨next, hnext⟩ := readCommand_total m.data
  rw [hnext]
  cases next with
  | wait => exact .inl ⟨rfl, h⟩
  | refuse rest err =>
    have hrest : Twin keep (s.withData c m rest) s' :=
      h.drop_update hc rfl (hfresh rest).topics rfl rfl rfl fun _ _ => rfl
    exact .inl ⟨rfl, hrest.drop_fresh env hc hl (Function.update_self c _ _) (hfresh rest)⟩
  | call cmd map rest =>
    have hself : (s.called c m rest cmd map).heap c = some { m with data := rest } :=
      Function.update_self c _ _
    have hcalled : Twin keep (s.called c m rest cmd map) s' := by
      refine h.drop_update hc rfl (hfresh rest).topics rfl rfl rfl fun c' hc' => ?_
      exact framesTo_of_ne (keep_ne hc hc') fun _ _ _ _ heq => by cases heq
    have hclose := hcalled.drop_fresh env hc hl hself (hfresh rest)
    have hst : m.state = .stNew := hm.state
    unfold calmHandle calmCommand
    cases cmd with
    | cn =>
      have hP := hP map rest hnext
      simp only [hst]
      cases hr : refusal (s.called c m rest .cn map) map with
      | some err =>
        exact .inl ⟨rfl, hcalled.drop_refused hc hl hP err (by simp [hr])⟩
      | none =>
        right
        unfold St.accepted
        rw [show (St.admitted _ env fd c _ map).heap c = some _ from Function.update_self c _ _]
        rfl
    | dc =>
      have hgone : ((s.called c m rest .dc map).calmClose env fd).clientmap.lookup fd = none := by
        rw [calmClose_eq (s := s.called c m rest .dc map) hl hself, clientmap_closed]
        exact AList.lookup_erase fd _
      refine .inl ⟨rfl, ?_⟩
      show Twin keep (((s.called c m rest .dc map).calmClose env fd).calmClose env fd) s'
      rw [calmClose_none hgone]
      exact hclose
    | pb =>
      simp only [hst]
      exact .inl ⟨trivial, hclose⟩
    | pi =>
      simp only [hst]
      exact .inl ⟨trivial, hclose⟩

/-- A connection that is not accepted is new. -/
theorem Sane.fresh_of_not_accepted (h : Sane none s) {fd : Fd} {c : Conn} {m : Climap}
    (hl : s.clientmap.lookup fd = some c) (hh : s.heap c = some m) (hacc : s.accepted c = false) :
    m.Fresh := by
  rcases h.settled fd c m hl hh (by simp) with hf | ⟨map, ha⟩
  · exact hf
  · simp [St.accepted, hh, ha.state] at hacc

/-- **An event of a connection that is not kept** leaves no trace, if the connection is
not accepted. -/
theorem Twin.step_dropped (hok : env.AllOk) (h : Twin keep s s') (hsane : Sane none s)
    {ev : Event} (hc : keep ev.conn = false) (hen : enabled s ev = true)
    (hP : EventOk env (fun s _ map => Discreet s map) s ev) (hnow : s.accepted ev.conn = false)
    (hacc : (finalState (step env ev s)).accepted ev.conn = false) :
    ∃ s1, step env ev s = .ok () s1 ∧ Twin keep s1 s' := by
  have hstep : step env ev s = handle env ev s := if_pos hen
  -- closing a registered connection that has not been accepted
  have hclose : ∀ {fd : Fd} {c : Conn} {m : Climap} (err : Bytes), keep c = false →
      s.accepted c = false → s.clientmap.lookup fd = some c → s.heap c = some m →
        ∃ s1, closeClient env fd err s = .ok () s1 ∧ Twin keep s1 s' := by
    intro fd c m err hc hnow hl hh
    have hm := hsane.fresh_of_not_accepted hl hh hnow
    obtain ⟨s1, h1⟩ := hsane.closeClient hok fd err
    refine ⟨s1, h1, ?_⟩
    rw [closeClient_calmClose hok hsane.wf h1]
    exact h.drop_fresh env hc hl hh hm
  cases ev with
  | accept c fd =>
    replace hc : keep c = false := hc
    obtain ⟨hheap, hl, heq⟩ := step_accept env hsane.wf hen
    refine ⟨_, heq, h.drop hc (fun c' hcc => Function.update_of_ne hcc _ _) (fun m hm => ?_)
      (fun fd' => ?_) rfl rfl (fun c' hc' => framesTo_of_ne (keep_ne hc hc') fun _ _ _ _ heq => by
        cases heq)⟩
    · have hm : some _ = some m := (Function.update_self c _ s.heap).symm.trans hm
      cases hm
      rfl
    · show ((s.clientmap.insert fd c).lookup fd').filter keep = _
      by_cases hfd : fd' = fd
      · subst hfd
        rw [AList.lookup_insert, hl, Option.filter_none, Option.filter_some, hc]
        rfl
      · rw [AList.lookup_insert_ne hfd]
  | chunk c data =>
    have hc : keep c = false := hc
    obtain ⟨hopen, hne⟩ : s.isOpen c = true ∧ data ≠ [] := by simpa [enabled] using hen
    obtain ⟨m, hh, hcl⟩ := isOpen_iff.mp hopen
    have hs := Serving.received hsane.wf data hh hcl
    have hl : s.clientmap.lookup m.fd = some c := hsane.wf.registered c m hh (.inr hcl)
    have hm := hsane.fresh_of_not_accepted hl hh hnow
    have hrecv : Sane none (s.received c m data) := (hsane.logged (.recv c data)).withData _ hh
    have hself : (s.received c m data).heap c = some { m with data := m.data ++ data } :=
      Function.update_self c _ _
    have hfresh : ({ m with data := m.data ++ data } : Climap).Fresh := ⟨hm.state, hm.param⟩
    have htwin : Twin keep (s.received c m data) s' := by
      refine h.drop_update hc rfl hfresh.topics rfl rfl rfl fun c' hc' => ?_
      exact framesTo_of_ne (keep_ne hc hc') fun _ _ _ _ heq => by cases heq
    -- the loop takes one turn
    obtain ⟨b, s1, hturn⟩ := turn_total hok hrecv hl
      ((hP hen m hh).next fun _ _ _ hP => hP.tidy)
    have hcalm := turn_calm hok hrecv.wf hl hself hturn
    have hloop : dataLoop env m.fd c (m.data ++ data).length (s.received c m data) =
        (if b then dataLoop env m.fd c ((m.data ++ data).length - 1) else pure false) s1 := by
      obtain ⟨n, hn⟩ : ∃ n, (m.data ++ data).length = n + 1 := by
        refine ⟨(m.data ++ data).length - 1, ?_⟩
        have := List.length_pos_iff.mpr hne
        rw [List.length_append]
        omega
      rw [hn, dataLoop, bind_of_ok (climapOf_eq hself), if_neg (by simp [hne]), bind_of_ok hturn]
      rfl
    have hdrop := htwin.turn_dropped env hc hl hfresh
      fun map rest hread => hP hen m hh _ .refl _ map rest hself hm.state hread
    rw [← hcalm] at hdrop
    rcases hdrop with ⟨hb, htwin1⟩ | hacc1
    · have hb : b = false := hb
      subst hb
      refine ⟨s1, ?_, htwin1⟩
      rw [hstep, handle_chunk_eq hsane.wf data hh hcl, bind_of_ok hloop]
      rfl
    · -- an accepted connection stays accepted until the end of the event
      exfalso
      have hs1 : Sane none s1 := turn_sane (fun _ _ _ hP => hP.tidy) hrecv hs (hP hen m hh) hturn
      have hserve := hs.moves ((moves_turn hs (hP hen m hh)).1 _ _ hturn)
      have hend : (finalState (step env (.chunk c data) s)).accepted c = true := by
        rw [hstep, handle_chunk_eq hsane.wf data hh hcl, bind_of_eq hloop]
        cases b with
        | false => exact hacc1
        | true =>
          have hgo := calmTurn_going env (m := { m with data := m.data ++ data })
            (s := s.received c m data) hl (by rw [← hcalm])
          rw [← hcalm] at hgo
          have hP1 := (hP hen m hh).turned hturn
          exact loop_accepted hok _ hs1 hserve hgo.1 (hP1.mono fun _ _ _ hP => hP.tidy) (.inl hgo)
            hacc1
      exact Bool.false_ne_true (hacc.symm.trans hend)
  | closed c err =>
    obtain ⟨m, hh, hcl⟩ := isOpen_iff.mp (show s.isOpen c = true from hen)
    rw [hstep, handle, bind_of_ok (climapOf_eq hh)]
    exact hclose _ hc hnow (hsane.wf.registered c m hh (.inr hcl)) hh
  | timeout c =>
    cases hh : s.heap c with
    | none => simp [enabled, hh] at hen
    | some m =>
      have ht : m.timer = true := by simpa [enabled, hh] using hen
      rw [hstep, handle, bind_of_ok (climapOf_eq hh)]
      exact hclose _ hc hnow (hsane.wf.registered c m hh (.inl ht)) hh

end Twin

/-! ## Two runs -/

theorem Twin.new (keep : Conn → Bool) : Twin keep .new .new where
  heap := by
    intro c
    simp [St.new]
  clientmap := by
    intro fd
    simp [St.new]
  ids := rfl
  topics := rfl
  frames := fun _ _ => rfl
  others := by
    intro c m _ h
    cases h

/-- **Connections that are never accepted have no influence** if their refused
commands are discreet: the run without their events writes the same frames to every
other connection. -/
theorem frames_of_discreet {env : Env} (hok : env.AllOk) {evs : List Event}
    (hen : Along (step env) (fun s ev => enabled s ev = true) .new evs)
    (hP : CnAlong env (fun s _ map => Discreet s map) evs) {c : Conn}
    (hc : (finalState (run env evs)).accepted c = true) :
    framesTo c (finalState (run env (evs.filter fun ev =>
        (finalState (run env evs)).accepted ev.conn))).log =
      framesTo c (finalState (run env evs)).log := by
  have hsane : ∀ s ev s', Sane none s →
      (enabled s ev = true ∧ EventOk env (fun s _ map => Discreet s map) s ev) →
        step env ev s = .ok () s' → Sane none s' := fun s ev s' h hQ hstep =>
    (step_invariant (I := Sane none) (fun _ _ _ _ h hheap hl => h.connected hheap hl)
      (fun _ _ _ h hm => h.move (hm.mono fun _ _ _ hP => hP.tidy.clean)) ⟨h.wf, h⟩ hQ.2 hstep).2
  -- a connection that is not accepted at the end is not accepted before
  have halong := (along_persistent (I := Sane none) (p := fun c (s : St) => s.accepted c = true)
    hsane (fun s ev c h hQ hc => step_accepted hok h (hQ.2.mono fun _ _ _ hP => hP.tidy) hc) .new
    (hen.and hP)).2
  refine runAll_filter (R := fun s s' => Sane none s ∧ WF s' ∧
      Twin (finalState (run env evs)).accepted s s')
    (F := fun s s' => framesTo c s'.log = framesTo c s.log)
    (fun s s' h => h.2.2.frames c hc) ?_ ?_ ⟨.new, .new, .new _⟩ halong
  · rintro s s' ev ⟨h, hw', htwin⟩ ⟨hQ, _⟩ hk
    rcases htwin.step_kept hok h hw' hk hQ.1 (hQ.2.mono fun _ _ _ hP => hP.tidy) with
      ⟨s1, s1', h1, h1', htwin1⟩ | ⟨e, e', s1, s1', h1, h1', htwin1⟩
    · have hw1' : WF s1' := (step_invariant (P := fun _ _ _ => True) (I := fun _ => True)
        (fun _ _ _ _ _ _ _ => trivial) (fun _ _ _ _ _ => trivial) ⟨hw', trivial⟩
        (by cases ev <;> simp [EventOk, CnOk]) h1').1
      exact .inl ⟨s1, s1', h1, h1', hsane s ev s1 h hQ h1, hw1', htwin1⟩
    · exact .inr ⟨e, e', s1, s1', h1, h1', htwin1.frames c hc⟩
  · rintro s s' ev ⟨h, hw', htwin⟩ ⟨hQ, hlater⟩ hk
    have hacc : (finalState (step env ev s)).accepted ev.conn = false := by
      by_contra hcon
      have hcon := hlater ev.conn (by simpa using hcon)
      exact Bool.false_ne_true (hk.symm.trans hcon)
    have hnow : s.accepted ev.conn = false := by
      by_contra hcon
      have hcon := step_accepted hok h (hQ.2.mono fun _ _ _ hP => hP.tidy)
        (show s.accepted ev.conn = true by simpa using hcon)
      exact Bool.false_ne_true (hacc.symm.trans hcon)
    obtain ⟨s1, h1, htwin1⟩ := htwin.step_dropped hok h hk hQ.1 hQ.2 hnow hacc
    exact ⟨s1, h1, hsane s ev s1 h hQ h1, hw', htwin1⟩

/-- A subscriber, a stranger that sends a wrong password, and a publication. -/
def strangerRun : List Event :=
  [.accept 0 5, .chunk 0 (cnFrame "x" "5" "a" []), .accept 1 6,
    .chunk 1 (commandFrame [("id", ascii "cn"), ("cd", ascii "y"), ("vv", ascii "v0.1"),
      ("un", ascii "u"), ("pw", ascii "p"), ("kp", ascii "5"), ("tp", ascii "b")]),
    .chunk 0 (commandFrame [("id", ascii "pb"), ("tp", ascii "a"), ("pl", ascii "z")])]

/-- `Along`, computed for `enabled`. -/
def enabledCheck (env : Env) : St → List Event → Bool
  | _, [] => true
  | s, ev :: evs => enabled s ev &&
    match step env ev s with
    | .ok () s' => enabledCheck env s' evs
    | .error _ _ => true

theorem along_of_enabledCheck {env : Env} {s : St} {evs : List Event}
    (h : enabledCheck env s evs = true) :
    Along (step env) (fun s ev => enabled s ev = true) s evs := by
  induction evs generalizing s with
  | nil => trivial
  | cons ev evs ih =>
    rw [enabledCheck, Bool.and_eq_true] at h
    refine ⟨h.1, fun s' hs' => ih ?_⟩
    have hrest := h.2
    rw [hs'] at hrest
    exact hrest

theorem frames_of_discreet_two :
    framesTo 0 (finalState (run .calm (strangerRun.filter fun ev =>
        (finalState (run .calm strangerRun)).accepted ev.conn))).log =
      framesTo 0 (finalState (run .calm strangerRun)).log := by
  refine frames_of_discreet (fun _ _ => rfl) (along_of_enabledCheck ?_)
    (CnAlong.mono (fun _ _ map h => of_decide_eq_true h)
      (cnAlong_of_check (p := fun s _ map => decide (Discreet s map)) ?_)) ?_
  · decide +kernel
  · decide +kernel
  · decide +kernel

/-- A subscriber, and a stranger with a wrong password and a will. -/
def willRun : List Event :=
  [.accept 0 5, .chunk 0 (cnFrame "x" "5" "a" []), .accept 1 6,
    .chunk 1 (commandFrame [("id", ascii "cn"), ("cd", ascii "y"), ("vv", ascii "v0.1"),
      ("un", ascii "u"), ("pw", ascii "p"), ("kp", ascii "5"), ("tp", ascii "b"),
      ("wt", ascii "a"), ("wp", ascii "z")])]

/-- The will of a connection that gave a wrong password reaches the subscribers. -/
theorem will_of_a_stranger :
    enabledCheck .calm .new willRun = true ∧
      (finalState (run .calm willRun)).accepted 0 = true ∧
      (finalState (run .calm willRun)).accepted 1 = false ∧
      framesTo 0 (finalState (run .calm (willRun.filter fun ev =>
          (finalState (run .calm willRun)).accepted ev.conn))).log ≠
        framesTo 0 (finalState (run .calm willRun)).log := by
  refine ⟨?_, ?_, ?_, ?_⟩
  · decide +kernel
  · decide +kernel
  · decide +kernel
  · decide +kernel

end ApApps.Sand

import ApApps.Sand.Subscriptions

/- The broker when every `uv.write` succeeds. Nothing is closed while a message is
   published, so `do_publish` only adds one write for each subscriber to the log
   (`doPublish_calm`), and `close_client` takes one connection out of the tables and
   publishes its will (`closeClient_calm`). -/
namespace ApApps.Sand
open Incremental ApApps.Redis Exec

/-- Every `uv.write` succeeds. -/
def Env.AllOk (env : Env) : Prop := ∀ log c, env.write log c = none

/-- The writes of a publication to the subscribers `fds`. -/
def St.deliveries (s : St) (env : Env) (topic payload : Bytes) (fds : List Fd) : List Out :=
  fds.filterMap fun fd => (s.clientmap.lookup fd).map fun c =>
    .write c (.pb topic payload) (env.frame (.pb topic payload)) true

/-- The broker after a publication. -/
def St.published (s : St) (env : Env) (topic payload : Bytes) : St :=
  { s with log := s.log ++
      s.deliveries env topic payload (env.visit s.log (s.subs topic)) }

section Calm
variable {env : Env} {s s' : St}

theorem wrote_calm (hok : env.AllOk) (c : Conn) (msg : Msg) (frame : Bytes) :
    s.wrote env c msg frame = s.logged (.write c msg frame true) := by
  simp only [St.wrote, St.logged, hok s.log c, Option.isNone_none]

/-- Serving one subscriber. -/
theorem publishTo_calm (hok : env.AllOk) (close : Fd → Bytes → M Unit) {topic : Bytes}
    (payload : Bytes) {fd : Fd} {c : Conn} {m : Climap} (hsub : fd ∈ s.subs topic)
    (hl : s.clientmap.lookup fd = some c) (hh : s.heap c = some m) (hc : m.client = true) :
    publishTo env close topic payload (env.frame (.pb topic payload)) fd s =
      .ok () (s.logged (.write c (.pb topic payload) (env.frame (.pb topic payload)) true)) := by
  unfold publishTo
  rw [bind_of_ok (show (get : M St) s = .ok s s from rfl), if_pos hsub,
    bind_of_ok (assertClient_eq _ hl), bind_of_ok (uvWrite_eq env _ _ hh hc), hok s.log c,
    wrote_calm hok]
  rfl

/-- A subscriber that can be served is open. -/
theorem publishTo_ok {close : Fd → Bytes → M Unit} {topic payload frame : Bytes} {fd : Fd}
    (hsub : fd ∈ s.subs topic) (h : publishTo env close topic payload frame fd s = .ok () s') :
    ∃ c m, s.clientmap.lookup fd = some c ∧ s.heap c = some m ∧ m.client = true := by
  unfold publishTo at h
  rw [bind_of_ok (show (get : M St) s = .ok s s from rfl), if_pos hsub] at h
  obtain ⟨c, s1, hassert, h1⟩ := bind_eq_ok.mp h
  obtain ⟨rfl, hl⟩ := assertClient_ok hassert
  obtain ⟨err, s2, hwrite, _⟩ := bind_eq_ok.mp h1
  obtain ⟨⟨m, hh, hc⟩, _⟩ := uvWrite_ok hwrite
  exact ⟨c, m, hl, hh, hc⟩

theorem publishLoop_calm (hok : env.AllOk) (close : Fd → Bytes → M Unit) {topic : Bytes}
    (payload : Bytes) {fds : List Fd} (hsub : ∀ fd ∈ fds, fd ∈ s.subs topic)
    (hlive : ∀ fd ∈ fds, ∃ c m, s.clientmap.lookup fd = some c ∧ s.heap c = some m ∧
      m.client = true) :
    publishLoop env close topic payload (env.frame (.pb topic payload)) fds s =
      .ok () { s with log := s.log ++ s.deliveries env topic payload fds } := by
  induction fds generalizing s with
  | nil =>
    simp only [St.deliveries, List.filterMap_nil, List.append_nil]
    rfl
  | cons fd fds ih =>
    obtain ⟨c, m, hl, hh, hc⟩ := hlive fd (by simp)
    rw [publishLoop, bind_of_ok (publishTo_calm hok close payload (hsub fd (by simp)) hl hh hc)]
    rw [ih (s := s.logged _) (fun fd' h => hsub fd' (by simp [h]))
      (fun fd' h => hlive fd' (by simp [h]))]
    simp only [St.deliveries, St.logged, List.filterMap_cons, hl, Option.map_some,
      List.append_assoc, List.cons_append, List.nil_append]

theorem publishLoop_ok (hok : env.AllOk) {close : Fd → Bytes → M Unit} {topic payload : Bytes}
    {fds : List Fd} (hsub : ∀ fd ∈ fds, fd ∈ s.subs topic)
    (h : publishLoop env close topic payload (env.frame (.pb topic payload)) fds s = .ok () s') :
    ∀ fd ∈ fds, ∃ c m, s.clientmap.lookup fd = some c ∧ s.heap c = some m ∧ m.client = true := by
  induction fds generalizing s with
  | nil => simp
  | cons fd fds ih =>
    rw [publishLoop] at h
    obtain ⟨_, s1, hto, hrest⟩ := bind_eq_ok.mp h
    obtain ⟨c, m, hl, hh, hc⟩ := publishTo_ok (hsub fd (by simp)) hto
    rw [publishTo_calm hok close payload (hsub fd (by simp)) hl hh hc] at hto
    cases hto
    intro fd' hfd'
    rcases List.mem_cons.mp hfd' with rfl | hfd'
    · exact ⟨c, m, hl, hh, hc⟩
    · exact ih (s := s.logged _) (fun fd' h => hsub fd' (by simp [h])) hrest fd' hfd'

/-- **A publication that nothing interferes with.** -/
theorem doPublish_calm (hok : env.AllOk) {topic : Bytes} (payload : Bytes)
    (hlive : ∀ fd ∈ s.subs topic, ∃ c m, s.clientmap.lookup fd = some c ∧ s.heap c = some m ∧
      m.client = true) :
    doPublish env topic payload s = .ok () (s.published env topic payload) := by
  have hmem : ∀ fd ∈ env.visit s.log (s.subs topic), fd ∈ s.subs topic :=
    fun fd hfd => (env.visit_perm s.log (s.subs topic)).mem_iff.mp hfd
  rw [doPublish_eq]
  unfold doPublishWith
  rw [bind_of_ok (show (get : M St) s = .ok s s from rfl)]
  by_cases hnil : s.subs topic = []
  · have hvisit : env.visit s.log (s.subs topic) = [] := by
      have hperm := env.visit_perm s.log (s.subs topic)
      rw [hnil] at hperm ⊢
      exact hperm.eq_nil
    rw [if_pos hnil]
    simp only [St.published, St.deliveries, hvisit, List.filterMap_nil, List.append_nil]
    rfl
  · rw [if_neg hnil, bind_of_ok (buildQuery_eq env _ s)]
    exact publishLoop_calm hok _ payload hmem fun fd hfd => hlive fd (hmem fd hfd)

/-- A publication that returns was to open subscribers. -/
theorem doPublish_calm_ok (hok : env.AllOk) {topic payload : Bytes}
    (h : doPublish env topic payload s = .ok () s') :
    (∀ fd ∈ s.subs topic, ∃ c m, s.clientmap.lookup fd = some c ∧ s.heap c = some m ∧
      m.client = true) ∧ s' = s.published env topic payload := by
  have hperm := env.visit_perm s.log (s.subs topic)
  have hlive : ∀ fd ∈ s.subs topic, ∃ c m, s.clientmap.lookup fd = some c ∧ s.heap c = some m ∧
      m.client = true := by
    by_cases hnil : s.subs topic = []
    · simp [hnil]
    · rw [doPublish_eq] at h
      unfold doPublishWith at h
      rw [bind_of_ok (show (get : M St) s = .ok s s from rfl), if_neg hnil,
        bind_of_ok (buildQuery_eq env _ s)] at h
      intro fd hfd
      exact publishLoop_ok hok (fun fd' hfd' => hperm.mem_iff.mp hfd') h fd (hperm.mem_iff.mpr hfd)
  refine ⟨hlive, ?_⟩
  rw [doPublish_calm hok payload hlive] at h
  cases h
  rfl

/-- The broker after `close_client` of a connection. -/
def St.closed (s : St) (env : Env) (fd : Fd) (c : Conn) (m : Climap) : St :=
  match m.param.bind Param.will with
  | none => s.shut fd c m
  | some (wt, wp) => (s.shut fd c m).published env wt wp

/-- **Closing a connection** whose will can be published. -/
theorem closeClient_calm (hok : env.AllOk) {fd : Fd} {c : Conn} {m : Climap} (err : Bytes)
    (hl : s.clientmap.lookup fd = some c) (hh : s.heap c = some m) (ht : m.timer = true)
    (hc : m.client = true) (hcd : m.param.isSome → m.clientid.isSome)
    (hlive : ∀ topic, ∀ fd' ∈ (s.shut fd c m).subs topic, ∃ c' m',
      (s.shut fd c m).clientmap.lookup fd' = some c' ∧ (s.shut fd c m).heap c' = some m' ∧
        m'.client = true) :
    closeClient env fd err s = .ok () (s.closed env fd c m) := by
  rw [closeClient_eq, closeClientWith_some _ err hl hh ht hc]
  unfold St.closed
  cases hp : m.param with
  | none => rfl
  | some param =>
    cases hget : param.map.get "cd" with
    | none =>
      simp only [hp, Climap.clientid, Option.bind_some, hget, Option.isSome_some, forall_const,
        Option.isSome_none, Bool.false_eq_true] at hcd
    | some cd =>
      simp only [hget, Option.bind_some]
      cases hw : param.will with
      | none => rfl
      | some will => exact doPublish_calm hok will.2 (hlive will.1)

/-- `close_client` that returns, of a registered connection. -/
theorem closeClient_calm_ok (hok : env.AllOk) {fd : Fd} {c : Conn} {m : Climap} {err : Bytes}
    (hl : s.clientmap.lookup fd = some c) (hh : s.heap c = some m) (ht : m.timer = true)
    (hc : m.client = true) (h : closeClient env fd err s = .ok () s') :
    s' = s.closed env fd c m := by
  rw [closeClient_eq, closeClientWith_some _ err hl hh ht hc] at h
  unfold St.closed
  cases hp : m.param with
  | none =>
    rw [hp] at h
    cases h
    rfl
  | some param =>
    rw [hp] at h
    simp only [Option.bind_some]
    cases hget : param.map.get "cd" with
    | none =>
      simp only [hget] at h
      cases h
    | some cd =>
      simp only [hget] at h
      cases hw : param.will with
      | none =>
        rw [hw] at h
        cases h
        rfl
      | some will =>
        rw [hw] at h
        exact (doPublish_calm_ok hok h).2

/-- With the tables in order every subscriber is open. -/
theorem SubOk.live (h : SubOk s) (hw : WF s) (topic : Bytes) :
    ∀ fd ∈ s.subs topic, ∃ c m, s.clientmap.lookup fd = some c ∧ s.heap c = some m ∧
      m.client = true := by
  intro fd hfd
  obtain ⟨c, m, hl, hh, _⟩ := (h.mem topic fd).mp hfd
  obtain ⟨m', hh', _, _, hc⟩ := hw.live fd c hl
  rw [hh] at hh'
  cases hh'
  exact ⟨c, m, hl, hh, hc⟩

/-- In a broker in order a connection that has an id, or no parameters, can be closed. -/
theorem closeClient_total (hok : env.AllOk) (hw : WF s) (hs : SubOk s) (fd : Fd) (err : Bytes)
    (hcd : ∀ c m, s.clientmap.lookup fd = some c → s.heap c = some m →
      m.param.isSome → m.clientid.isSome) : ∃ s', closeClient env fd err s = .ok () s' := by
  cases hl : s.clientmap.lookup fd with
  | none =>
    refine ⟨s, ?_⟩
    rw [closeClient_eq]
    exact closeClientWith_none _ err hl
  | some c =>
    obtain ⟨m, hh, _, ht, hc⟩ := hw.live fd c hl
    exact ⟨_, closeClient_calm hok err hl hh ht hc (hcd c m hl hh)
      (fun topic => (hs.shut hw hl hh).live (hw.shut hl hh) topic)⟩

end Calm

end ApApps.Sand

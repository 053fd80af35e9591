import ApApps.Sand.Tidy

/- One publication, with all the closing and publishing it causes.

   `Done` follows the calls of `do_publish` and `close_client` as the source makes them
   and records the publications and what is done to handles. Everything is read off it:
   which connections are closed, which wills are published, and how often each message
   is written to whom. `doPublish_exact` puts it together; a message is written once for
   every publication of it, so a will with the same topic and payload as the publication
   that closed its connection is one more. -/
namespace ApApps.Sand
open Incremental ApApps.Redis Exec

/-! ## What the log says -/

/-- The connections whose client handle was closed, in order. -/
def closedIn (outs : List Out) : List Conn :=
  outs.filterMap fun o => match o with
    | .closeClient c => some c
    | _ => none

/-- The connections a write to which failed. -/
def failedIn (outs : List Out) : List Conn :=
  outs.filterMap fun o => match o with
    | .write c _ _ false => some c
    | _ => none

/-- A write of the message `(topic, payload)` to `c`. -/
def isWriteOf (c : Conn) (topic payload : Bytes) : Out → Bool
  | .write c' (.pb topic' payload') _ _ => c' = c && topic' = topic && payload' = payload
  | _ => false

/-- How often the message is written to `c`. -/
def writesTo (c : Conn) (topic payload : Bytes) (outs : List Out) : Nat :=
  outs.countP (isWriteOf c topic payload)

def Climap.will (m : Climap) : Option (Bytes × Bytes) := m.param.bind Param.will

/-- The will of a connection. -/
def St.willOf (s : St) (c : Conn) : Option (Bytes × Bytes) := (s.heap c).bind Climap.will

theorem closedIn_append (o o' : List Out) : closedIn (o ++ o') = closedIn o ++ closedIn o' :=
  List.filterMap_append

theorem failedIn_append (o o' : List Out) : failedIn (o ++ o') = failedIn o ++ failedIn o' :=
  List.filterMap_append

theorem writesTo_append (c : Conn) (t p : Bytes) (o o' : List Out) :
    writesTo c t p (o ++ o') = writesTo c t p o + writesTo c t p o' := List.countP_append

/-! ## The calls -/

/-- A call of `do_publish`, of the rest of its loop, or of `close_client`. -/
inductive Call where
  | publish (topic payload : Bytes)
  | loop (topic payload : Bytes) (fds : List Fd)
  | close (fd : Fd)

/-- `Done env call s s' pubs outs`: the call takes the broker from `s` to `s'`, with the
publications `pubs` and the log entries `outs`, both in order. -/
inductive Done (env : Env) : Call → St → St → List (Bytes × Bytes) → List Out → Prop
  | silent {s : St} {t p : Bytes} (hsub : s.subs t = []) : Done env (.publish t p) s s [(t, p)] []
  | publish {s s' : St} {t p : Bytes} {pubs : List (Bytes × Bytes)} {outs : List Out} (hsub : s.subs t ≠ [])
      (h : Done env (.loop t p (env.visit s.log (s.subs t))) s s' pubs outs) :
      Done env (.publish t p) s s' ((t, p) :: pubs) outs
  | nil {s : St} {t p : Bytes} : Done env (.loop t p []) s s [] []
  | skip {s s' : St} {t p : Bytes} {fd : Fd} {fds : List Fd} {pubs : List (Bytes × Bytes)} {outs : List Out}
      (hsub : fd ∉ s.subs t) (h : Done env (.loop t p fds) s s' pubs outs) :
      Done env (.loop t p (fd :: fds)) s s' pubs outs
  | sent {s s' : St} {t p : Bytes} {fd : Fd} {fds : List Fd} {c : Conn} {pubs : List (Bytes × Bytes)}
      {outs : List Out} (hsub : fd ∈ s.subs t) (hl : s.clientmap.lookup fd = some c)
      (hw : env.write s.log c = none)
      (h : Done env (.loop t p fds) (s.wrote env c (.pb t p) (env.frame (.pb t p))) s' pubs outs) :
      Done env (.loop t p (fd :: fds)) s s' pubs (.write c (.pb t p) (env.frame (.pb t p)) true :: outs)
  | failed {s s1 s' : St} {t p err : Bytes} {fd : Fd} {fds : List Fd} {c : Conn}
      {pubs pubs' : List (Bytes × Bytes)} {outs outs' : List Out} (hsub : fd ∈ s.subs t)
      (hl : s.clientmap.lookup fd = some c) (hw : env.write s.log c = some err)
      (hclose : Done env (.close fd) (s.wrote env c (.pb t p) (env.frame (.pb t p))) s1 pubs outs)
      (h : Done env (.loop t p fds) s1 s' pubs' outs') :
      Done env (.loop t p (fd :: fds)) s s' (pubs ++ pubs')
        (.write c (.pb t p) (env.frame (.pb t p)) false :: (outs ++ outs'))
  | quiet {s : St} {fd : Fd} {c : Conn} {m : Climap} (hl : s.clientmap.lookup fd = some c)
      (hh : s.heap c = some m) (hw : m.will = none) :
      Done env (.close fd) s (s.shut fd c m) [] [.closeTimer c, .closeClient c]
  | will {s s' : St} {fd : Fd} {c : Conn} {m : Climap} {wt wp : Bytes} {pubs : List (Bytes × Bytes)}
      {outs : List Out} (hl : s.clientmap.lookup fd = some c) (hh : s.heap c = some m)
      (hw : m.will = some (wt, wp)) (h : Done env (.publish wt wp) (s.shut fd c m) s' pubs outs) :
      Done env (.close fd) s s' pubs (.closeTimer c :: .closeClient c :: outs)

/-! ## What a publication needs -/

/-- The broker is in order, and every descriptor of the subscription table is that of a live
connection that has the topic in its list and a client id. -/
structure Deliverable (s : St) : Prop where
  wf : WF s
  nodup : ∀ t, (s.subs t).Nodup
  live : ∀ t fd, fd ∈ s.subs t → ∃ c m, s.clientmap.lookup fd = some c ∧ s.heap c = some m ∧
    t ∈ m.topics ∧ m.clientid.isSome = true

section Deliverable
variable {env : Env} {s s' : St}

theorem Deliverable.wrote (h : Deliverable s) (c : Conn) (msg : Msg) (frame : Bytes) :
    Deliverable (s.wrote env c msg frame) := ⟨h.wf.wrote, h.nodup, h.live⟩

/-- Closing takes the descriptor out of the table. -/
theorem Deliverable.mem_subs_shut (h : Deliverable s) {fd fd' : Fd} {c : Conn} {m : Climap}
    (hl : s.clientmap.lookup fd = some c) (hh : s.heap c = some m) (t : Bytes) :
    fd' ∈ (s.shut fd c m).subs t ↔ fd' ∈ s.subs t ∧ fd' ≠ fd := by
  have hsubs : (s.shut fd c m).subs t = if t ∈ m.topics then (s.subs t).erase fd else s.subs t := by
    unfold St.subs St.shut
    simp only
    split
    · cases s.topic2client t <;> rfl
    · rfl
  rw [hsubs]
  split
  · rw [(h.nodup t).mem_erase_iff, and_comm]
  · rename_i ht
    constructor
    · intro hmem
      refine ⟨hmem, ?_⟩
      rintro rfl
      obtain ⟨c', m', hl', hh', ht', _⟩ := h.live t fd' hmem
      rw [hl] at hl'
      cases hl'
      rw [hh] at hh'
      cases hh'
      exact ht ht'
    · exact And.left

theorem lookup_shut (h : WF s) {fd fd' : Fd} {c c' : Conn} {m : Climap} (hl : s.clientmap.lookup fd = some c) :
    (s.shut fd c m).clientmap.lookup fd' = some c' ↔ s.clientmap.lookup fd' = some c' ∧ c' ≠ c := by
  show (s.clientmap.erase fd).lookup fd' = some c' ↔ _
  by_cases hfd : fd' = fd
  · subst hfd
    rw [AList.lookup_erase]
    constructor
    · nofun
    · rintro ⟨hl', hne⟩
      rw [hl] at hl'
      exact absurd (Option.some.inj hl').symm hne
  · rw [AList.lookup_erase_ne hfd]
    constructor
    · exact fun hl' => ⟨hl', h.ne_of_fd_ne hl hl' hfd⟩
    · exact And.left

/-- Closing a connection keeps the table in order. -/
theorem Deliverable.shut (h : Deliverable s) {fd : Fd} {c : Conn} {m : Climap}
    (hl : s.clientmap.lookup fd = some c) (hh : s.heap c = some m) : Deliverable (s.shut fd c m) where
  wf := h.wf.shut hl hh
  nodup := by
    intro t
    have hsubs : (s.shut fd c m).subs t = if t ∈ m.topics then (s.subs t).erase fd else s.subs t := by
      unfold St.subs St.shut
      simp only
      split
      · cases s.topic2client t <;> rfl
      · rfl
    rw [hsubs]
    split
    · exact (h.nodup t).erase fd
    · exact h.nodup t
  live := by
    intro t fd' hmem
    obtain ⟨hsub, hne⟩ := (h.mem_subs_shut hl hh t).mp hmem
    obtain ⟨c', m', hl', hh', hm'⟩ := h.live t fd' hsub
    have hcc : c' ≠ c := h.wf.ne_of_fd_ne hl hl' hne
    exact ⟨c', m', (lookup_shut h.wf hl).mpr ⟨hl', hcc⟩,
      (Function.update_of_ne hcc _ _).trans hh', hm'⟩

theorem willOf_shut {fd : Fd} {c : Conn} {m : Climap} (hh : s.heap c = some m) (c' : Conn) :
    (s.shut fd c m).willOf c' = s.willOf c' := by
  unfold St.willOf
  by_cases hcc : c' = c
  · subst hcc
    have hself : (s.shut fd c' m).heap c' = some { m with timer := false, client := false } :=
      Function.update_self c' _ _
    rw [hself, hh]
    rfl
  · have hother : (s.shut fd c m).heap c' = s.heap c' := Function.update_of_ne hcc _ _
    rw [hother]

/-! ## What a call leaves behind -/

/-- From `s` to `s'` the connections closed in `outs` have left the tables, each once, and
everything else has stayed. -/
structure Progress (s s' : St) (outs : List Out) : Prop where
  log : s'.log = s.log ++ outs
  live : ∀ fd c, s'.clientmap.lookup fd = some c ↔
    s.clientmap.lookup fd = some c ∧ c ∉ closedIn outs
  subs : ∀ t fd, fd ∈ s'.subs t ↔ fd ∈ s.subs t ∧ ∃ c, s'.clientmap.lookup fd = some c
  will : ∀ c, s'.willOf c = s.willOf c
  nodup : (closedIn outs).Nodup
  closed : ∀ c ∈ closedIn outs, ∃ fd, s.clientmap.lookup fd = some c
  good : Deliverable s'

theorem Progress.refl (h : Deliverable s) : Progress s s [] where
  log := (List.append_nil _).symm
  live := by simp [closedIn]
  subs := by
    intro t fd
    refine ⟨fun hsub => ⟨hsub, ?_⟩, And.left⟩
    obtain ⟨c, _, hl, _⟩ := h.live t fd hsub
    exact ⟨c, hl⟩
  will := fun _ => rfl
  nodup := List.nodup_nil
  closed := by simp [closedIn]
  good := h

theorem Progress.trans {s1 s2 s3 : St} {o o' : List Out} (h : Progress s1 s2 o)
    (h' : Progress s2 s3 o') : Progress s1 s3 (o ++ o') where
  log := by rw [h'.log, h.log, List.append_assoc]
  live := by
    intro fd c
    rw [h'.live, h.live, closedIn_append, List.mem_append, not_or, and_assoc]
  subs := by
    intro t fd
    rw [h'.subs, h.subs]
    constructor
    · rintro ⟨⟨hsub, _⟩, hlive⟩
      exact ⟨hsub, hlive⟩
    · rintro ⟨hsub, c, hl⟩
      exact ⟨⟨hsub, c, ((h'.live fd c).mp hl).1⟩, c, hl⟩
  will := fun c => (h'.will c).trans (h.will c)
  nodup := by
    rw [closedIn_append, List.nodup_append']
    refine ⟨h.nodup, h'.nodup, fun c hc hc' => ?_⟩
    -- what is closed later was still registered
    obtain ⟨fd, hl⟩ := h'.closed c hc'
    exact ((h.live fd c).mp hl).2 hc
  closed := by
    intro c hc
    rw [closedIn_append, List.mem_append] at hc
    rcases hc with hc | hc
    · exact h.closed c hc
    · obtain ⟨fd, hl⟩ := h'.closed c hc
      exact ⟨fd, ((h.live fd c).mp hl).1⟩
  good := h'.good

theorem Progress.wrote (h : Deliverable s) (c : Conn) (msg : Msg) (frame : Bytes) :
    Progress s (s.wrote env c msg frame) [.write c msg frame (env.write s.log c).isNone] :=
  { Progress.refl h with
    log := rfl
    good := h.wrote c msg frame }

theorem Progress.shut (h : Deliverable s) {fd : Fd} {c : Conn} {m : Climap}
    (hl : s.clientmap.lookup fd = some c) (hh : s.heap c = some m) :
    Progress s (s.shut fd c m) [.closeTimer c, .closeClient c] where
  log := rfl
  live := by
    intro fd' c'
    rw [lookup_shut h.wf hl]
    simp [closedIn]
  subs := by
    intro t fd'
    rw [h.mem_subs_shut hl hh]
    refine and_congr_right fun hsub => ?_
    obtain ⟨c', _, hl', _⟩ := h.live t fd' hsub
    constructor
    · exact fun hne => ⟨c', (lookup_shut h.wf hl).mpr ⟨hl', h.wf.ne_of_fd_ne hl hl' hne⟩⟩
    · rintro ⟨c1, hl1⟩ rfl
      obtain ⟨hl1, hne⟩ := (lookup_shut h.wf hl).mp hl1
      rw [hl] at hl1
      exact hne (Option.some.inj hl1).symm
  will := willOf_shut hh
  nodup := List.nodup_singleton c
  closed := by
    intro c' hc'
    obtain rfl : c' = c := by simpa [closedIn] using hc'
    exact ⟨fd, hl⟩
  good := h.shut hl hh

/-- **What every call does to the tables.** -/
theorem Done.progress {call : Call} {pubs : List (Bytes × Bytes)} {outs : List Out}
    (h : Done env call s s' pubs outs) (hs : Deliverable s) : Progress s s' outs := by
  induction h with
  | silent => exact .refl hs
  | publish _ _ ih => exact ih hs
  | nil => exact .refl hs
  | skip _ _ ih => exact ih hs
  | @sent s _ t p fd fds c _ _ hsub hl hw _ ih =>
    have hwrote : Progress s (s.wrote env c (.pb t p) (env.frame (.pb t p))) _ := .wrote hs c _ _
    rw [hw] at hwrote
    exact hwrote.trans (ih hwrote.good)
  | @failed s s1 _ t p err fd fds c _ _ _ _ hsub hl hw _ _ ihclose ih =>
    have hwrote : Progress s (s.wrote env c (.pb t p) (env.frame (.pb t p))) _ := .wrote hs c _ _
    rw [hw] at hwrote
    have hclose := ihclose hwrote.good
    exact hwrote.trans (hclose.trans (ih hclose.good))
  | quiet hl hh => exact .shut hs hl hh
  | will hl hh _ _ ih =>
    have hshut := Progress.shut hs hl hh
    exact hshut.trans (ih hshut.good)

end Deliverable

/-! ## What is closed, published and written -/

/-- The publication a call starts with. -/
def Call.own : Call → List (Bytes × Bytes)
  | .publish topic payload => [(topic, payload)]
  | _ => []

/-- The connection a call is made to close. -/
def Call.target (s : St) : Call → Option Conn
  | .close fd => s.clientmap.lookup fd
  | _ => none

/-- How often the loop of a call still comes to a descriptor with the message. -/
def Call.ahead (s : St) (topic payload : Bytes) (fd : Fd) : Call → Nat
  | .loop t p fds => if t = topic ∧ p = payload ∧ fd ∈ s.subs t then fds.count fd else 0
  | _ => 0

theorem Call.ahead_cons (s : St) (topic payload : Bytes) (fd : Fd) (t p : Bytes) (fd0 : Fd)
    (fds : List Fd) : Call.ahead s topic payload fd (.loop t p (fd0 :: fds)) =
      Call.ahead s topic payload fd (.loop t p fds) +
        if t = topic ∧ p = payload ∧ fd ∈ s.subs t ∧ fd0 = fd then 1 else 0 := by
  rw [Call.ahead, Call.ahead]
  by_cases hmsg : t = topic ∧ p = payload ∧ fd ∈ s.subs t
  · obtain ⟨rfl, rfl, hsub⟩ := hmsg
    rw [if_pos ⟨rfl, rfl, hsub⟩, if_pos ⟨rfl, rfl, hsub⟩, List.count_cons]
    simp [hsub]
  · rw [if_neg hmsg, if_neg hmsg, if_neg (fun h => hmsg ⟨h.1, h.2.1, h.2.2.1⟩)]

section Reading
variable {env : Env} {s s' : St} {call : Call} {pubs : List (Bytes × Bytes)} {outs : List Out}

/-- The wills of the closed connections are published, in the order of the closing, and
nothing else. -/
theorem Done.pubs_eq (h : Done env call s s' pubs outs) (hs : Deliverable s) :
    pubs = call.own ++ (closedIn outs).filterMap s.willOf := by
  induction h with
  | silent => rfl
  | publish _ _ ih => exact congrArg _ (ih hs)
  | nil => rfl
  | skip _ _ ih => exact ih hs
  | @sent s _ t p _ _ c _ _ _ _ _ _ ih => exact ih (hs.wrote c (.pb t p) _)
  | @failed s s1 _ t p _ _ _ c pubs pubs' outs outs' _ _ _ hclose _ ihclose ih =>
    have hprog := hclose.progress (hs.wrote c (.pb t p) _)
    have hwill : s1.willOf = s.willOf := funext hprog.will
    have hclosed : pubs = (closedIn outs).filterMap s.willOf := ihclose (hs.wrote c (.pb t p) _)
    have hrest : pubs' = (closedIn outs').filterMap s1.willOf := ih hprog.good
    calc pubs ++ pubs' = (closedIn outs).filterMap s.willOf ++ (closedIn outs').filterMap s.willOf := by
          rw [hclosed, hrest, hwill]
      _ = (closedIn (outs ++ outs')).filterMap s.willOf := by
          rw [closedIn_append, List.filterMap_append]
  | @quiet s fd c m hl hh hw =>
    have hnone : s.willOf c = none := by
      simp only [St.willOf, hh, Option.bind_some, hw]
    simp [Call.own, closedIn, hnone]
  | @will s _ fd c m wt wp pubs outs hl hh hw _ ih =>
    have hsome : s.willOf c = some (wt, wp) := by
      simp only [St.willOf, hh, Option.bind_some, hw]
    have hsame : (s.shut fd c m).willOf = s.willOf := funext (willOf_shut hh)
    calc pubs = (wt, wp) :: (closedIn outs).filterMap s.willOf := by
          rw [ih (hs.shut hl hh), hsame]
          rfl
      _ = (closedIn (.closeTimer c :: .closeClient c :: outs)).filterMap s.willOf := by
          simp only [closedIn, List.filterMap_cons, hsome]

/-- What is closed is what a write to has failed, apart from what the call was to close. -/
theorem Done.closed_iff (h : Done env call s s' pubs outs) (c : Conn) :
    c ∈ closedIn outs ↔ c ∈ failedIn outs ∨ call.target s = some c := by
  induction h with
  | silent => simp [closedIn, failedIn, Call.target]
  | publish _ _ ih => exact ih
  | nil => simp [closedIn, failedIn, Call.target]
  | skip _ _ ih => exact ih
  | sent _ _ _ _ ih => exact ih
  | @failed s s1 _ t p _ fd _ c' _ _ outs outs' _ hl _ _ _ ihclose ih =>
    have hclose : c ∈ closedIn outs ↔ c ∈ failedIn outs ∨ c' = c :=
      ihclose.trans (or_congr_right (by rw [Call.target]; show s.clientmap.lookup fd = _ ↔ _; simp [hl]))
    have hrest : c ∈ closedIn outs' ↔ c ∈ failedIn outs' := ih.trans (by simp [Call.target])
    have hfailed : failedIn (.write c' (.pb t p) (env.frame (.pb t p)) false :: (outs ++ outs')) =
        c' :: (failedIn outs ++ failedIn outs') := by
      rw [← failedIn_append]
      rfl
    have hclosed : closedIn (.write c' (.pb t p) (env.frame (.pb t p)) false :: (outs ++ outs')) =
        closedIn outs ++ closedIn outs' := by
      rw [← closedIn_append]
      rfl
    rw [hfailed, hclosed, List.mem_append, hclose, hrest, List.mem_cons, List.mem_append]
    simp only [Call.target, reduceCtorEq, or_false]
    tauto
  | @quiet s fd c' m hl hh hw =>
    rw [Call.target, hl]
    simp [closedIn, failedIn, eq_comm]
  | @will s _ fd c' m wt wp pubs outs hl hh hw _ ih =>
    have hrest : c ∈ closedIn outs ↔ c ∈ failedIn outs := ih.trans (by simp [Call.target])
    have hclosed : closedIn (.closeTimer c' :: .closeClient c' :: outs) = c' :: closedIn outs := rfl
    have hfailed : failedIn (.closeTimer c' :: .closeClient c' :: outs) = failedIn outs := rfl
    rw [hclosed, hfailed, List.mem_cons, hrest, Call.target, hl, Option.some.injEq, or_comm,
      @eq_comm _ c c']

/-- A connection that stays is written every message once for each of its publications, if it
is a subscriber. -/
theorem Done.writes_eq (h : Done env call s s' pubs outs) (hs : Deliverable s) {fd : Fd} {c : Conn}
    (hl : s'.clientmap.lookup fd = some c) (topic payload : Bytes) :
    writesTo c topic payload outs =
      (if fd ∈ s.subs topic then pubs.count (topic, payload) else 0) + call.ahead s topic payload fd := by
  induction h with
  | @silent s t p hsub =>
    have hcount : fd ∈ s.subs topic → [(t, p)].count (topic, payload) = 0 := by
      intro hmem
      rw [List.count_eq_zero]
      intro hin
      obtain ⟨rfl, rfl⟩ : topic = t ∧ payload = p := by simpa using hin
      simp [hsub] at hmem
    by_cases hmem : fd ∈ s.subs topic
    · rw [if_pos hmem, hcount hmem]
      rfl
    · rw [if_neg hmem]
      rfl
  | @publish s _ t p pubs outs hsub _ ih =>
    rw [ih hs hl]
    by_cases hmem : fd ∈ s.subs topic
    · -- every subscriber is visited once
      have hone : (env.visit s.log (s.subs topic)).count fd = 1 := by
        rw [(env.visit_perm s.log (s.subs topic)).count_eq]
        exact List.count_eq_one_of_mem (hs.nodup topic) hmem
      rw [if_pos hmem, if_pos hmem, List.count_cons]
      simp only [Call.ahead, Nat.add_zero]
      by_cases hsame : t = topic ∧ p = payload
      · obtain ⟨rfl, rfl⟩ := hsame
        rw [if_pos ⟨rfl, rfl, hmem⟩, hone]
        simp
      · have hpair : ((t, p) == (topic, payload)) = false := by simpa using hsame
        rw [if_neg (fun h => hsame ⟨h.1, h.2.1⟩), hpair]
        rfl
    · have hahead : Call.ahead s topic payload fd (.loop t p (env.visit s.log (s.subs t))) = 0 := by
        rw [Call.ahead, if_neg]
        rintro ⟨rfl, _, hmem'⟩
        exact hmem hmem'
      rw [if_neg hmem, if_neg hmem, hahead]
      rfl
  | nil =>
    simp [writesTo, Call.ahead]
  | @skip s _ t p fd0 fds _ _ hsub _ ih =>
    have hother : ¬ (t = topic ∧ p = payload ∧ fd ∈ s.subs t ∧ fd0 = fd) := by
      rintro ⟨_, _, hmem, rfl⟩
      exact hsub hmem
    rw [ih hs hl, Call.ahead_cons, if_neg hother, Nat.add_zero]
  | @sent s s' t p fd0 fds c0 pubs outs hsub hl0 hw hdone ih =>
    have hgood : Deliverable (s.wrote env c0 (.pb t p) (env.frame (.pb t p))) := hs.wrote c0 _ _
    have hrest : writesTo c topic payload outs = (if fd ∈ s.subs topic then pubs.count (topic, payload) else 0) +
        Call.ahead s topic payload fd (.loop t p fds) := ih hgood hl
    have hlive : s.clientmap.lookup fd = some c :=
      (((hdone.progress hgood).live fd c).mp hl).1
    -- the write is to `c` exactly if the descriptor is its own
    have hown : isWriteOf c topic payload (.write c0 (.pb t p) (env.frame (.pb t p)) true) = true ↔
        t = topic ∧ p = payload ∧ fd ∈ s.subs t ∧ fd0 = fd := by
      have hconn : c0 = c ↔ fd0 = fd := by
        constructor
        · rintro rfl
          by_contra hne
          exact hs.wf.ne_of_fd_ne hlive hl0 hne rfl
        · rintro rfl
          exact Option.some.inj (hl0.symm.trans hlive)
      simp only [isWriteOf, Bool.and_eq_true, decide_eq_true_eq, hconn]
      constructor
      · rintro ⟨⟨rfl, rfl⟩, rfl⟩
        exact ⟨rfl, rfl, hsub, rfl⟩
      · rintro ⟨rfl, rfl, _, rfl⟩
        exact ⟨⟨rfl, rfl⟩, rfl⟩
    rw [writesTo, List.countP_cons, ← writesTo, hrest, Call.ahead_cons, Nat.add_assoc]
    simp only [hown]
  | @failed s s1 s' t p err fd0 fds c0 pubs pubs' outs outs' hsub hl0 hw hclose hdone ihclose ih =>
    have hgood : Deliverable (s.wrote env c0 (.pb t p) (env.frame (.pb t p))) := hs.wrote c0 _ _
    have hprog := hclose.progress hgood
    have hl1 : s1.clientmap.lookup fd = some c := (((hdone.progress hprog.good).live fd c).mp hl).1
    obtain ⟨hl2, hopen⟩ := (hprog.live fd c).mp hl1
    -- the connection the write to failed is closed
    have hcc : c0 ≠ c := by
      rintro rfl
      exact hopen ((hclose.closed_iff c0).mpr (.inr hl0))
    have hfd : fd0 ≠ fd := by
      rintro rfl
      exact hcc (Option.some.inj (hl0.symm.trans hl2))
    have hsubs : ∀ t', fd ∈ s1.subs t' ↔ fd ∈ s.subs t' := by
      intro t'
      rw [hprog.subs]
      exact and_iff_left ⟨c, hl1⟩
    have hfirst : writesTo c topic payload outs =
        (if fd ∈ s.subs topic then pubs.count (topic, payload) else 0) := ihclose hgood hl1
    have hsecond := ih hprog.good hl
    have hloop : Call.ahead s1 topic payload fd (.loop t p fds) =
        Call.ahead s topic payload fd (.loop t p (fd0 :: fds)) := by
      rw [Call.ahead_cons, if_neg (fun h => hfd h.2.2.2), Nat.add_zero]
      simp only [Call.ahead, hsubs]
    rw [hloop] at hsecond
    simp only [hsubs] at hsecond
    rw [writesTo, List.countP_cons, if_neg (by simp [isWriteOf, hcc]), ← writesTo, writesTo_append,
      hfirst, hsecond, List.count_append]
    split <;> omega
  | quiet =>
    simp [writesTo, isWriteOf, Call.ahead]
  | @will s s' fd0 c0 m wt wp pubs outs hl0 hh hw hdone ih =>
    have hgood := hs.shut hl0 hh
    have hl1 := (((hdone.progress hgood).live fd c).mp hl).1
    obtain ⟨hl2, hcc⟩ := (lookup_shut hs.wf hl0).mp hl1
    have hfd : fd ≠ fd0 := by
      rintro rfl
      exact hcc (Option.some.inj (hl2.symm.trans hl0))
    have hrest := ih hgood hl
    have hsubs : fd ∈ (s.shut fd0 c0 m).subs topic ↔ fd ∈ s.subs topic := by
      rw [hs.mem_subs_shut hl0 hh]
      exact and_iff_left hfd
    simp only [hsubs] at hrest
    simp only [writesTo, List.countP_cons, isWriteOf]
    exact hrest

/-- Nothing is written but publications, and to their subscribers. -/
theorem Done.write_sound (h : Done env call s s' pubs outs) (hs : Deliverable s) {c : Conn} {msg : Msg}
    {frame : Bytes} {ok : Bool} (hmem : .write c msg frame ok ∈ outs) :
    ∃ t p fd, msg = .pb t p ∧ frame = env.frame msg ∧ s.clientmap.lookup fd = some c ∧ fd ∈ s.subs t := by
  induction h with
  | silent => cases hmem
  | publish _ _ ih => exact ih hs hmem
  | nil => cases hmem
  | skip _ _ ih => exact ih hs hmem
  | @sent s _ t p fd _ c0 _ _ hsub hl _ _ ih =>
    rcases List.mem_cons.mp hmem with heq | hmem
    · cases heq
      exact ⟨t, p, fd, rfl, rfl, hl, hsub⟩
    · exact ih (hs.wrote c0 (.pb t p) _) hmem
  | @failed s s1 _ t p _ fd _ c0 _ _ outs outs' hsub hl _ hclose _ ihclose ih =>
    have hgood : Deliverable (s.wrote env c0 (.pb t p) (env.frame (.pb t p))) := hs.wrote c0 _ _
    rcases List.mem_cons.mp hmem with heq | hmem
    · cases heq
      exact ⟨t, p, fd, rfl, rfl, hl, hsub⟩
    rcases List.mem_append.mp hmem with hmem | hmem
    · exact ihclose hgood hmem
    · have hprog := hclose.progress hgood
      obtain ⟨t', p', fd', hmsg, hframe, hl', hsub'⟩ := ih hprog.good hmem
      exact ⟨t', p', fd', hmsg, hframe, ((hprog.live fd' c).mp hl').1, ((hprog.subs t' fd').mp hsub').1⟩
  | quiet => simp at hmem
  | @will s _ fd0 c0 m _ _ _ outs hl0 hh _ _ ih =>
    have hmem : .write c msg frame ok ∈ outs := by simpa using hmem
    obtain ⟨t, p, fd, hmsg, hframe, hl, hsub⟩ := ih (hs.shut hl0 hh) hmem
    exact ⟨t, p, fd, hmsg, hframe, ((lookup_shut hs.wf hl0).mp hl).1,
      ((hs.mem_subs_shut hl0 hh t).mp hsub).1⟩

end Reading

/-! ## The calls return -/

/-- A call of the broker's code returns, and does what `Done` says of `call`. -/
def Returns (env : Env) (call : Call) (x : M Unit) (s : St) : Prop :=
  ∃ s' pubs outs, x s = .ok () s' ∧ Done env call s s' pubs outs

section Returns
variable {env : Env} {s : St}

theorem returns_closeClient {n : Nat} (hpub : ∀ s1, Deliverable s1 → s1.clientmap.keys.length < n →
      ∀ t p, Returns env (.publish t p) (doPublish env t p) s1)
    (hs : Deliverable s) (hn : s.clientmap.keys.length ≤ n) {fd : Fd} {c : Conn} {m : Climap} (err : Bytes)
    (hl : s.clientmap.lookup fd = some c) (hh : s.heap c = some m)
    (hid : m.param.isSome = true → m.clientid.isSome = true) :
    Returns env (.close fd) (closeClient env fd err) s := by
  obtain ⟨m0, h0, _, ht, hc⟩ := hs.wf.live fd c hl
  rw [hh] at h0
  cases h0
  have heq := closeClientWith_some (doPublish env) err hl hh ht hc
  rw [← closeClient_eq] at heq
  cases hp : m.param with
  | none =>
    have hwill : m.will = none := by simp [Climap.will, hp]
    simp only [hp] at heq
    exact ⟨_, _, _, heq, .quiet hl hh hwill⟩
  | some param =>
    obtain ⟨cd, hcd⟩ : ∃ cd, param.map.get "cd" = some cd := by
      have hsome := hid (by simp [hp])
      simpa [Climap.clientid, hp, Option.isSome_iff_exists] using hsome
    simp only [hp, hcd] at heq
    cases hw : param.will with
    | none =>
      have hwill : m.will = none := by simp [Climap.will, hp, hw]
      rw [hw] at heq
      exact ⟨_, _, _, heq, .quiet hl hh hwill⟩
    | some will =>
      obtain ⟨wt, wp⟩ := will
      have hwill : m.will = some (wt, wp) := by simp [Climap.will, hp, hw]
      have hlt : (s.shut fd c m).clientmap.keys.length < n := by
        have := length_keys_erase hl
        show (s.clientmap.erase fd).keys.length < n
        omega
      obtain ⟨s', pubs, outs, hok, hdone⟩ := hpub _ (hs.shut hl hh) hlt wt wp
      rw [hw] at heq
      exact ⟨s', pubs, _, heq.trans hok, .will hl hh hwill hdone⟩

/-- A connection that is not a subscriber any more is passed over. -/
theorem publishTo_skip {close : Fd → Bytes → M Unit} {t p frame : Bytes} {fd : Fd}
    (hsub : fd ∉ s.subs t) : publishTo env close t p frame fd s = .ok () s := by
  unfold publishTo
  rw [bind_of_ok (show (get : M St) s = .ok s s from rfl), if_neg hsub]
  rfl

/-- A subscriber is written the frame, and closed if that fails. -/
theorem publishTo_live {close : Fd → Bytes → M Unit} {t p frame : Bytes} {fd : Fd} {c : Conn} {m : Climap}
    (hsub : fd ∈ s.subs t) (hl : s.clientmap.lookup fd = some c) (hh : s.heap c = some m)
    (hc : m.client = true) :
    publishTo env close t p frame fd s =
      (match env.write s.log c with
        | none => pure ()
        | some err => close fd err : M Unit) (s.wrote env c (.pb t p) frame) := by
  unfold publishTo
  rw [bind_of_ok (show (get : M St) s = .ok s s from rfl), if_pos hsub, bind_of_ok (assertClient_eq _ hl)]
  exact bind_of_ok (uvWrite_eq env _ _ hh hc)

theorem returns_publishLoop {n : Nat} (hclose : ∀ s1, Deliverable s1 → s1.clientmap.keys.length ≤ n →
      ∀ fd c m err, s1.clientmap.lookup fd = some c → s1.heap c = some m →
        (m.param.isSome = true → m.clientid.isSome = true) → Returns env (.close fd) (closeClient env fd err) s1)
    (t p : Bytes) (fds : List Fd) (hs : Deliverable s) (hn : s.clientmap.keys.length ≤ n) :
    Returns env (.loop t p fds) (publishLoop env (closeClient env) t p (env.frame (.pb t p)) fds) s := by
  induction fds generalizing s with
  | nil => exact ⟨s, [], [], rfl, .nil⟩
  | cons fd fds ih =>
    rw [publishLoop]
    by_cases hsub : fd ∈ s.subs t
    · obtain ⟨c, m, hl, hh, _, hcd⟩ := hs.live t fd hsub
      obtain ⟨m0, h0, _, _, hc⟩ := hs.wf.live fd c hl
      rw [hh] at h0
      cases h0
      have hgood : Deliverable (s.wrote env c (.pb t p) (env.frame (.pb t p))) := hs.wrote c _ _
      have hturn : publishTo env (closeClient env) t p (env.frame (.pb t p)) fd s = _ :=
        publishTo_live hsub hl hh hc
      cases hw : env.write s.log c with
      | none =>
        rw [hw] at hturn
        obtain ⟨s', pubs, outs, hok, hdone⟩ := ih hgood hn
        exact ⟨s', pubs, _, (bind_of_ok hturn).trans hok, .sent hsub hl hw hdone⟩
      | some err =>
        rw [hw] at hturn
        obtain ⟨s1, pubs, outs, hok, hdone⟩ := hclose _ hgood hn fd c m err hl hh fun _ => hcd
        have hn1 : s1.clientmap.keys.length ≤ n :=
          Nat.le_trans ((cascade_closeClient fd err _).1 () s1 hok).length_le hn
        obtain ⟨s', pubs', outs', hok', hdone'⟩ := ih (hdone.progress hgood).good hn1
        exact ⟨s', _, _, (bind_of_ok (hturn.trans hok)).trans hok', .failed hsub hl hw hdone hdone'⟩
    · obtain ⟨s', pubs, outs, hok, hdone⟩ := ih hs hn
      exact ⟨s', pubs, outs, (bind_of_ok (publishTo_skip hsub)).trans hok, .skip hsub hdone⟩

/-- **A publication returns**: by induction on the number of registered connections, which
every `close_client` makes smaller. -/
theorem returns_doPublish (hs : Deliverable s) (t p : Bytes) :
    Returns env (.publish t p) (doPublish env t p) s := by
  obtain ⟨n, hn⟩ : ∃ n, s.clientmap.keys.length = n := ⟨_, rfl⟩
  induction n using Nat.strong_induction_on generalizing s t p with
  | _ n ih =>
    rw [doPublish_eq]
    unfold doPublishWith
    by_cases hsub : s.subs t = []
    · refine ⟨s, _, _, ?_, .silent hsub⟩
      rw [bind_of_ok (show (get : M St) s = .ok s s from rfl), if_pos hsub]
      rfl
    · obtain ⟨s', pubs, outs, hok, hdone⟩ := returns_publishLoop
        (fun s1 hs1 hn1 fd c m err => returns_closeClient
          (fun s2 hs2 hn2 t p => ih _ hn2 hs2 t p rfl) hs1 hn1 err)
        t p (env.visit s.log (s.subs t)) hs (Nat.le_of_eq hn)
      refine ⟨s', _, outs, ?_, .publish hsub hdone⟩
      rw [bind_of_ok (show (get : M St) s = .ok s s from rfl), if_neg hsub,
        bind_of_ok (buildQuery_eq env _ s)]
      exact hok

end Returns

/-! ## The result -/

/-- What one publication of `(topic, payload)` has done when it returns. The wills are those
of the connections closed on the way. -/
structure Published (env : Env) (topic payload : Bytes) (s s' : St) (outs : List Out) : Prop where
  log : s'.log = s.log ++ outs
  /-- the publications made are this one and the wills of the closed connections, once each -/
  made : Done env (.publish topic payload) s s'
    ((topic, payload) :: (closedIn outs).filterMap s.willOf) outs
  /-- a subscriber that is still there has got the message, and again for each equal will -/
  written : ∀ fd c, fd ∈ s.subs topic → s'.clientmap.lookup fd = some c →
    writesTo c topic payload outs = 1 + ((closedIn outs).filterMap s.willOf).count (topic, payload)
  /-- and the other messages as often as they are wills -/
  wills : ∀ t p fd c, (t, p) ≠ (topic, payload) → fd ∈ s.subs t → s'.clientmap.lookup fd = some c →
    writesTo c t p outs = ((closedIn outs).filterMap s.willOf).count (t, p)
  /-- nobody else has got anything -/
  only : ∀ c msg frame ok, .write c msg frame ok ∈ outs → ∃ t p fd, msg = .pb t p ∧
    frame = env.frame msg ∧ s.clientmap.lookup fd = some c ∧ fd ∈ s.subs t
  closed : ∀ c, c ∈ closedIn outs ↔ c ∈ failedIn outs
  once : (closedIn outs).Nodup
  live : ∀ fd c, s'.clientmap.lookup fd = some c ↔ s.clientmap.lookup fd = some c ∧ c ∉ closedIn outs
  table : Deliverable s'

/-- **A publication is exact.** Whatever writes fail, `do_publish` returns, and what it has
done is `Published`. -/
theorem doPublish_exact (env : Env) {s : St} (hs : Deliverable s) (topic payload : Bytes) :
    ∃ s' outs, doPublish env topic payload s = .ok () s' ∧ Published env topic payload s s' outs := by
  obtain ⟨s', pubs, outs, hok, hdone⟩ : Returns env _ _ s := returns_doPublish hs topic payload
  have hprog := hdone.progress hs
  have hpubs : pubs = (topic, payload) :: (closedIn outs).filterMap s.willOf := hdone.pubs_eq hs
  have hwrites : ∀ t p fd c, fd ∈ s.subs t → s'.clientmap.lookup fd = some c →
      writesTo c t p outs = pubs.count (t, p) := by
    intro t p fd c hsub hl
    rw [hdone.writes_eq hs hl, if_pos hsub]
    rfl
  refine ⟨s', outs, hok, ?_⟩
  exact {
    log := hprog.log
    made := hpubs ▸ hdone
    written := by
      intro fd c hsub hl
      rw [hwrites _ _ _ _ hsub hl, hpubs, List.count_cons_self, Nat.add_comm]
    wills := by
      intro t p fd c hne hsub hl
      rw [hwrites _ _ _ _ hsub hl, hpubs, List.count_cons_of_ne (Ne.symm hne)]
    only := fun c msg frame ok hmem => hdone.write_sound hs hmem
    closed := by
      intro c
      rw [hdone.closed_iff]
      simp [Call.target]
    once := hprog.nodup
    live := hprog.live
    table := hprog.good }

/-- A broker in order is ready to publish. -/
theorem Sane.deliverable {x : Option Conn} {s : St} (h : Sane x s) : Deliverable s where
  wf := h.wf
  nodup := h.subs.nodup
  live := by
    intro t fd hsub
    obtain ⟨c, m, hl, hh, ht⟩ := (h.subs.mem t fd).mp hsub
    obtain ⟨map, hparam, ha, _⟩ := h.subscriber hsub hl hh
    refine ⟨c, m, hl, hh, ht, ?_⟩
    -- an accepted command has a client id
    have hcd : m.clientid = map.get "cd" := by
      simp only [Climap.clientid, hparam, Option.bind_some, cnParam]
    have hvalid := ha.1
    rw [hcd]
    cases hget : map.get "cd" with
    | some cd => rfl
    | none => simp [passes, validParam, hget, filled] at hvalid

/-- So is every broker that has only seen clean topic lists. -/
theorem deliverable_of_run {env : Env} {evs : List Event} {s : St}
    (hclean : CnAlong env (fun _ _ map => CleanTopics map) evs) (hrun : run env evs = .ok () s) :
    Deliverable s :=
  (run_invariant (I := Sane none) .new (fun _ _ _ _ h hheap hl => h.connected hheap hl)
    (fun _ _ _ h hm => h.move hm) hclean hrun).2.deliverable

/-- The first write to the connection 0 is accepted, the later ones fail. -/
def Env.broken0 : Env where
  write := fun log c =>
    if c = 0 ∧ log.any (fun o => match o with
        | .write 0 _ _ _ => true
        | _ => false) then some (ascii "EPIPE") else none
  pairs := fun fields => fields
  pairs_perm := Env.calm.pairs_perm
  visit := fun _ fds => fds
  visit_perm := fun _ _ => .refl _

/-- Two subscribers of one topic; the first one has a will. -/
def willSetup (topic payload : String) : List Event :=
  [.accept 0 5, .chunk 0 (cnFrame "x" "5" "a" [("wt", ascii topic), ("wp", ascii payload)]),
    .accept 1 6, .chunk 1 (cnFrame "y" "5" "a" [])]

theorem deliverable_willSetup {topic payload : String} {s : St}
    (hclean : cnAlongCheck .broken0 (fun _ _ map => decide (CleanTopics map)) .new
      (willSetup topic payload) = true)
    (hrun : run .broken0 (willSetup topic payload) = .ok () s) : Deliverable s :=
  deliverable_of_run ((cnAlong_of_check hclean).mono fun _ _ _ h => of_decide_eq_true h) hrun

/-- The write to the first subscriber fails, and its will goes to the second. -/
theorem doPublish_exact_will : ∃ s, run .broken0 (willSetup "a" "w") = .ok () s ∧
    ∃ s' outs, doPublish .broken0 (ascii "a") (ascii "z") s = .ok () s' ∧
      Published .broken0 (ascii "a") (ascii "z") s s' outs := by
  have hrun : run .broken0 (willSetup "a" "w") = .ok () _ := eq_ok_of_returned (by decide +kernel)
  exact ⟨_, hrun, doPublish_exact .broken0 (deliverable_willSetup (by decide +kernel) hrun) _ _⟩

/-- The will of the first subscriber is the message published: the second gets it twice. -/
theorem written_twice : ∃ s s' outs, run .broken0 (willSetup "a" "z") = .ok () s ∧ Deliverable s ∧
    doPublish .broken0 (ascii "a") (ascii "z") s = .ok () s' ∧ s'.log = s.log ++ outs ∧
    6 ∈ s.subs (ascii "a") ∧ s'.clientmap.lookup 6 = some 1 ∧
    writesTo 1 (ascii "a") (ascii "z") outs = 2 := by
  have hrun : run .broken0 (willSetup "a" "z") = .ok () _ := eq_ok_of_returned (by decide +kernel)
  have hs := deliverable_willSetup (by decide +kernel) hrun
  obtain ⟨s', pubs, outs, hok, hdone⟩ : Returns .broken0 _ _ _ :=
    returns_doPublish hs (ascii "a") (ascii "z")
  have hlog := (hdone.progress hs).log
  have hend : s' = finalState (doPublish .broken0 (ascii "a") (ascii "z")
      (finalState (run .broken0 (willSetup "a" "z")))) := by
    rw [hok]
    rfl
  refine ⟨_, s', outs, hrun, hs, hok, hlog, by decide +kernel, ?_, ?_⟩
  · rw [hend]
    decide +kernel
  · -- the message has not been written before
    have hbefore : writesTo 1 (ascii "a") (ascii "z")
        (finalState (run .broken0 (willSetup "a" "z"))).log = 0 := by decide +kernel
    have hafter : writesTo 1 (ascii "a") (ascii "z") s'.log = 2 := by
      rw [hend]
      decide +kernel
    rw [hlog, writesTo_append, hbefore, Nat.zero_add] at hafter
    exact hafter

end ApApps.Sand

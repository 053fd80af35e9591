import ApApps.Sand.Cascade

/- The commands of the broker and the loop that reads them, one statement for each of
   what they can do.

   `readCommand` never raises, and every command it finds shortens the buffer. A cn
   command of a new connection is decided by `refusal`: `cn_new` says that it is
   refused with that text, or admitted, from the same prepared state. -/
namespace ApApps.Sand
open Incremental ApApps.Redis Exec

/-! ## Reading a command -/

/-- Whatever is found ready is an array of strings, or nil if the count wrapped. -/
theorem readCommand_total (data : Bytes) : ∃ next, readCommand data = .ok next := by
  unfold readCommand
  cases hr : redisParseReady data with
  | incomplete => exact ⟨_, rfl⟩
  | invalid => exact ⟨_, rfl⟩
  | done p =>
    obtain ⟨f, q, rfl, rfl⟩ := redisParseReady_eq_done_iff.mp hr
    simp only [redisParseReply_frame]
    by_cases hneg : headerValue cInt f.digits = -1
    · simp only [Frame.reply, hneg, if_true, checkarr]
      exact ⟨_, rfl⟩
    · simp only [Frame.reply_texts hneg, checkarr_strings, tomap_strings]
      cases (f.elems.map Element.text).all fun s => decide (3 ≤ s.length) with
      | false => exact ⟨_, rfl⟩
      | true =>
        simp only [bind, Except.bind]
        split
        · exact ⟨_, rfl⟩
        · split
          · exact ⟨_, rfl⟩
          · split <;> exact ⟨_, rfl⟩

/-- A command takes its frame, at least one byte, off the buffer. -/
theorem readCommand_call {data : Bytes} {cmd : Cmd} {map : Fields} {rest : Bytes}
    (h : readCommand data = .ok (.call cmd map rest)) :
    ∃ p, redisParseReady data = .done p ∧ 0 < p ∧ p ≤ data.length ∧ rest = data.drop p := by
  unfold readCommand at h
  cases hr : redisParseReady data with
  | incomplete =>
    rw [hr] at h
    cases h
  | invalid =>
    rw [hr] at h
    cases h
  | done p =>
    refine ⟨p, rfl, stableVerdict_redisParseReady.ready_pos hr,
      stableVerdict_redisParseReady.ready_le hr, ?_⟩
    rw [hr] at h
    simp only [bind, Except.bind] at h
    split at h
    · cases h
    · split at h
      · cases h
      · split at h
        · cases h
        · split at h
          · cases h
          · split at h <;> cases h
            rfl

theorem readCommand_call_lt {data : Bytes} {cmd : Cmd} {map : Fields} {rest : Bytes}
    (h : readCommand data = .ok (.call cmd map rest)) : rest.length < data.length := by
  obtain ⟨p, _, hpos, hle, rfl⟩ := readCommand_call h
  rw [List.length_drop]
  omega

/-! ## Registering topics -/

/-- `topic2client` after `fd` has been added to a topic. -/
def addSub (fd : Fd) (t2c : Bytes → Option (List Fd)) (topic : Bytes) : Bytes → Option (List Fd) :=
  let tmap := (t2c topic).getD []
  Function.update t2c topic (some (if fd ∈ tmap then tmap else tmap ++ [fd]))

theorem registerLoop_eq (fd : Fd) (parts : List Bytes) (count : Nat) (topics : List Bytes) (s : St) :
    registerLoop fd parts count topics s =
      .ok (if [] ∈ parts then 0 else count + parts.length, topics ++ parts.takeWhile (· ≠ []))
        { s with topic2client := (parts.takeWhile (· ≠ [])).foldl (addSub fd) s.topic2client } := by
  induction parts generalizing count topics s with
  | nil =>
    simp only [List.takeWhile_nil, List.append_nil, List.length_nil, Nat.add_zero, List.foldl_nil,
      List.not_mem_nil, if_false]
    rfl
  | cons part parts ih =>
    unfold registerLoop
    by_cases hpart : part = []
    · rw [if_pos hpart, List.takeWhile_cons_of_neg (by simpa using hpart), if_pos (by simp [hpart]),
        List.append_nil]
      rfl
    · rw [if_neg hpart, bind_of_ok (show subscribe fd part s = .ok () _ from rfl), ih]
      have hmem : [] ∈ part :: parts ↔ [] ∈ parts := by
        rw [List.mem_cons]
        exact or_iff_right (Ne.symm hpart)
      simp only [hmem, List.takeWhile_cons_of_pos (p := fun x : Bytes => decide (x ≠ []))
        (by simpa using hpart), List.foldl_cons, List.length_cons, List.append_assoc,
        List.cons_append, List.nil_append, Nat.add_assoc, Nat.add_comm 1]
      rfl

/-- Adding `fd` to topics adds nothing else and to no other topic. -/
theorem mem_foldl_addSub {fd fd' : Fd} {topics : List Bytes} {t2c : Bytes → Option (List Fd)}
    {t : Bytes} :
    fd' ∈ (topics.foldl (addSub fd) t2c t).getD [] ↔
      fd' ∈ (t2c t).getD [] ∨ (fd' = fd ∧ t ∈ topics) := by
  induction topics generalizing t2c with
  | nil => simp
  | cons topic topics ih =>
    rw [List.foldl_cons, ih]
    by_cases ht : t = topic
    · subst ht
      simp only [addSub, Function.update_self, Option.getD_some, List.mem_cons, true_or, and_true]
      split
      · rename_i hmem
        constructor
        · rintro (h | ⟨rfl, _⟩)
          · exact .inl h
          · exact .inr rfl
        · rintro (h | rfl)
          · exact .inl h
          · exact .inl hmem
      · rw [List.mem_append, List.mem_singleton]
        tauto
    · simp only [addSub, Function.update_of_ne ht, List.mem_cons, ht, false_or]

theorem nodup_foldl_addSub {fd : Fd} {topics : List Bytes} {t2c : Bytes → Option (List Fd)}
    (h : ∀ t, ((t2c t).getD []).Nodup) (t : Bytes) :
    ((topics.foldl (addSub fd) t2c t).getD []).Nodup := by
  induction topics generalizing t2c with
  | nil => exact h t
  | cons topic topics ih =>
    rw [List.foldl_cons]
    apply ih
    intro t'
    by_cases ht : t' = topic
    · subst ht
      simp only [addSub, Function.update_self, Option.getD_some]
      split
      · exact h t'
      · rename_i hmem
        exact List.Nodup.append (h t') (List.nodup_singleton fd) (by simpa using hmem)
    · simp only [addSub, Function.update_of_ne ht]
      exact h t'

/-! ## Answers -/

/-- `publish_connack` to an open handle returns what `uv.write` returns. -/
theorem publishConnack_eq {env : Env} {s : St} {c : Conn} {m : Climap} (st : Nat) (msg : Bytes)
    (hh : s.heap c = some m) (hc : m.client = true) :
    publishConnack env c st msg s =
      .ok (env.write s.log c) (s.wrote env c (.ca st msg) (env.frame (.ca st msg))) := by
  unfold publishConnack
  rw [bind_of_ok (buildQuery_eq env _ s), uvWrite_eq env _ _ hh hc]

theorem refuse_eq {env : Env} {s : St} {c : Conn} {m : Climap} (err : Bytes)
    (hh : s.heap c = some m) (hc : m.client = true) :
    refuse env c err s =
      .ok (some err) (s.wrote env c (.ca 1 err) (env.frame (.ca 1 err))) := by
  unfold refuse
  rw [bind_of_ok (publishConnack_eq 1 err hh hc)]
  rfl

/-- `close_client` of a connection with open handles: it is taken out of the tables
first, and the rest of the cascade starts from there. -/
theorem closeClient_live {env : Env} {s s' : St} {fd : Fd} {c : Conn} {m : Climap} {err : Bytes}
    (hl : s.clientmap.lookup fd = some c) (hh : s.heap c = some m) (ht : m.timer = true)
    (hc : m.client = true) (h : closeClient env fd err s = .ok () s') :
    Cascade env (s.shut fd c m) s' ∧ (m.param.isSome → m.clientid.isSome) := by
  rw [closeClient_eq, closeClientWith_some _ err hl hh ht hc] at h
  cases hp : m.param with
  | none =>
    rw [hp] at h
    cases h
    exact ⟨.refl, by simp⟩
  | some param =>
    rw [hp] at h
    cases hcd : param.map.get "cd" with
    | none =>
      simp only [hcd] at h
      cases h
    | some cd =>
      simp only [hcd] at h
      refine ⟨?_, fun _ => by simp [Climap.clientid, hp, hcd]⟩
      cases hw : param.will with
      | none =>
        rw [hw] at h
        cases h
        exact .refl
      | some will =>
        rw [hw] at h
        exact (cascade_doPublish will.1 will.2 _).1 _ _ h

/-! ## cn -/

/-- `map.cd`. -/
def cdOf (map : Fields) : Bytes := (map.get "cd").getD []

/-- `tonumber(map.kp)`. -/
def kpOf (map : Fields) : Option LuaNum := (map.get "kp").bind tonumber

/-- The parts of `map.tp`. -/
def partsOf (map : Fields) : List Bytes := splitTabs ((map.get "tp").getD [])

/-- The checks of `cmd_map.cn` on the command alone: the parameters, the version, user
name and password. -/
def passes (map : Fields) : Bool :=
  validParam map (kpOf map) && checkVersion ((map.get "vv").getD []) &&
    checkPassword ((map.get "un").getD []) ((map.get "pw").getD [])

/-- Why `cmd_map.cn` refuses the command of a new connection; nothing if it does not. -/
def refusal (s : St) (map : Fields) : Option Bytes :=
  if validParam map (kpOf map) = false then some (ascii "invalid param")
  else if checkVersion ((map.get "vv").getD []) = false then some (ascii "invalid version")
  else if checkPassword ((map.get "un").getD []) ((map.get "pw").getD []) = false then
    some (ascii "invalid authorization")
  else if [] ∈ partsOf map then some (ascii "invalid topics")
  else if s.clientid2fd (cdOf map) ≠ none then some (ascii "already exist " ++ cdOf map)
  else none

/-- `climap.param` when the command is refused or admitted: `tp` has become a table if
all the parts are good. -/
def cnParam (map : Fields) : Param where
  map := map
  kp := kpOf map
  tp :=
    if passes map = true ∧ [] ∉ partsOf map then some (.table (partsOf map))
    else (map.get "tp").map .raw

/-- The topics `cmd_map.cn` has registered by then. -/
def registered (map : Fields) : List Bytes :=
  if passes map = true then (partsOf map).takeWhile (· ≠ []) else []

/-- The broker when the command is refused or admitted. -/
def St.prepared (s : St) (fd : Fd) (c : Conn) (m : Climap) (map : Fields) : St :=
  { s with
    heap := Function.update s.heap c (some { m with param := some (cnParam map) }),
    topic2client := (registered map).foldl (addSub fd) s.topic2client }

/-- A connection that sent a good cn command before gets an error for another one. -/
theorem cn_again (env : Env) {s : St} {fd : Fd} {c : Conn} {m : Climap} (map : Fields)
    (hl : s.clientmap.lookup fd = some c) (hh : s.heap c = some m) (hst : m.state = .stAuth) :
    cn env fd map s = refuse env c (ascii "invalid state") s := by
  unfold cn
  rw [bind_of_ok (assertClient_eq _ hl), bind_of_ok (climapOf_eq hh),
    if_pos (by rw [hst]; decide)]

/-- **A cn command of a new connection** is refused or admitted, as `refusal` says. -/
theorem cn_new (env : Env) {s : St} {fd : Fd} {c : Conn} {m : Climap} (map : Fields)
    (hl : s.clientmap.lookup fd = some c) (hh : s.heap c = some m) (hst : m.state = .stNew) :
    cn env fd map s =
      match refusal s map with
      | some err => refuse env c err (s.prepared fd c m map)
      | none => admitClient env c fd map (s.prepared fd c m map) := by
  unfold cn
  rw [bind_of_ok (assertClient_eq _ hl), bind_of_ok (climapOf_eq hh),
    if_neg (by rw [hst]; decide)]
  simp only [show (map.get "kp").bind tonumber = kpOf map from rfl,
    show splitTabs ((map.get "tp").getD []) = partsOf map from rfl,
    show (map.get "cd").getD [] = cdOf map from rfl]
  rw [bind_of_ok (show setClimap c _ s = .ok () _ from rfl)]
  unfold refusal
  by_cases hvalid : validParam map (kpOf map) = false
  · have hraw : passes map = false := by simp [passes, hvalid]
    rw [if_pos hvalid, if_pos hvalid]
    simp only [St.prepared, cnParam, registered, hraw]
    rfl
  rw [if_neg hvalid, if_neg hvalid]
  by_cases hversion : checkVersion ((map.get "vv").getD []) = false
  · have hraw : passes map = false := by simp [passes, hversion]
    rw [if_pos hversion, if_pos hversion]
    simp only [St.prepared, cnParam, registered, hraw]
    rfl
  rw [if_neg hversion, if_neg hversion]
  by_cases hpass : checkPassword ((map.get "un").getD []) ((map.get "pw").getD []) = false
  · have hraw : passes map = false := by simp [passes, hpass]
    rw [if_pos hpass, if_pos hpass]
    simp only [St.prepared, cnParam, registered, hraw]
    rfl
  rw [if_neg hpass, if_neg hpass]
  have hok : passes map = true := by
    simp only [Bool.not_eq_false] at hvalid hversion hpass
    simp only [passes, hvalid, hversion, hpass, Bool.and_self]
  rw [bind_of_ok (registerLoop_eq fd (partsOf map) 0 [] _)]
  by_cases hparts : [] ∈ partsOf map
  · simp only [St.prepared, cnParam, registered, hok, hparts]
    rfl
  · -- without an empty part every part is registered, and there is at least one
    have htake : (partsOf map).takeWhile (· ≠ []) = partsOf map := by
      rw [List.takeWhile_eq_self_iff]
      intro part hpart
      simp only [decide_eq_true_eq]
      rintro rfl
      exact hparts hpart
    have hcount : 0 + (partsOf map).length ≠ 0 := by
      have hne : partsOf map ≠ [] := List.splitOn_ne_nil _ _
      have := List.length_pos_iff.mpr hne
      omega
    simp only [if_neg hparts, if_neg hcount, htake, List.nil_append]
    rw [bind_of_ok (show setClimap c _ _ = .ok () _ from rfl),
      bind_of_ok (show (get : M St) _ = .ok _ _ from rfl)]
    simp only [Function.update_idem, St.prepared, cnParam, registered, hok, hparts, htake]
    by_cases hcd : s.clientid2fd (cdOf map) = none
    · rw [if_neg (by simpa using hcd), if_neg (by simpa using hcd)]
      rfl
    · rw [if_pos hcd, if_pos hcd]
      rfl

/-- The broker when an admitted connection is about to hear of it. -/
def St.identified (s : St) (cd : Bytes) (fd : Fd) : St :=
  { s with clientid2fd := Function.update s.clientid2fd cd (some fd) }

theorem setClientid_eq (cd : Bytes) (fd : Fd) (s : St) :
    setClientid cd fd s = .ok () (s.identified cd fd) := rfl

/-- The broker after `climap.state = st_auth`. -/
def St.authorized (s : St) (c : Conn) (m : Climap) : St :=
  { s with heap := Function.update s.heap c (some { m with state := .stAuth }) }

/-- The connect message `cmd_map.cn` publishes. -/
def connectMessage (map : Fields) : Option (Bytes × Bytes) :=
  match map.get "ct", map.get "cp" with
  | some ct, some cp => if ct ≠ [] ∧ cp ≠ [] then some (ct, cp) else none
  | _, _ => none

theorem announce_eq (env : Env) (map : Fields) :
    announce env map =
      match connectMessage map with
      | some (ct, cp) => doPublish env ct cp
      | none => pure () := by
  unfold announce connectMessage
  cases map.get "ct" with
  | none => rfl
  | some ct =>
    cases map.get "cp" with
    | none => rfl
    | some cp =>
      by_cases hfilled : ct ≠ [] ∧ cp ≠ []
      · simp only [if_pos hfilled]
      · simp only [if_neg hfilled]

theorem cascade_announce {env : Env} (map : Fields) :
    Within (Cascade env) Broken (announce env map) := by
  rw [announce_eq]
  cases connectMessage map with
  | none => exact within_pure (fun _ => .refl) ()
  | some msg => exact cascade_doPublish msg.1 msg.2

/-- An admission that returns: the id is taken, the connect message is published, and
the connection becomes authorized and is told so. -/
theorem admitClient_ok {env : Env} {s s' : St} {fd : Fd} {c : Conn} {map : Fields} {r : Option Bytes}
    (h : admitClient env c fd map s = .ok r s') :
    ∃ s1 m, Cascade env (s.identified (cdOf map) fd) s1 ∧ s1.heap c = some m ∧ m.client = true ∧
      r = env.write s1.log c ∧
      s' = (s1.authorized c m).wrote env c (.ca 0 (ascii "ok")) (env.frame (.ca 0 (ascii "ok"))) := by
  unfold admitClient at h
  rw [bind_of_ok (setClientid_eq _ fd s)] at h
  obtain ⟨_, s1, hpub, h1⟩ := bind_eq_ok.mp h
  obtain ⟨m, s2, hm, h2⟩ := bind_eq_ok.mp h1
  obtain ⟨rfl, hheap⟩ := climapOf_ok hm
  obtain ⟨_, s3, hset, h3⟩ := bind_eq_ok.mp h2
  cases hset
  have hauth : (s2.authorized c m).heap c = some { m with state := .stAuth } :=
    Function.update_self c _ _
  unfold publishConnack at h3
  obtain ⟨frame, s4, hq, h4⟩ := bind_eq_ok.mp h3
  rw [buildQuery_eq] at hq
  cases hq
  obtain ⟨⟨m', hm', hc⟩, rfl, rfl⟩ := uvWrite_ok h4
  have hmm : m' = { m with state := .stAuth } := Option.some.inj (hm'.symm.trans hauth)
  rw [hmm] at hc
  exact ⟨s2, m, (cascade_announce map _).1 _ _ hpub, hheap, hc, rfl, rfl⟩

/-- An admission that raises: the connect message could not be published, or its
publication closed the new connection itself. -/
theorem admitClient_error {env : Env} {s s' : St} {fd : Fd} {c : Conn} {map : Fields} {e : LuaError}
    (h : admitClient env c fd map s = .error e s') :
    ∃ s1, Cascade env (s.identified (cdOf map) fd) s1 ∧
      (Broken e s1 ∨
        (e = .nilIndexed ∧ s1.heap c = none) ∨
        (e = .badArgument "write" ∧ ∃ m, s1.heap c = some m ∧ m.client = false)) := by
  unfold admitClient at h
  rw [bind_of_ok (setClientid_eq _ fd s)] at h
  rcases bind_eq_error.mp h with hpub | ⟨_, s1, hpub, h1⟩
  · obtain ⟨s1, hcas, hB⟩ := (cascade_announce map _).2 _ _ hpub
    exact ⟨s1, hcas, .inl hB⟩
  · have hcas := (cascade_announce map _).1 _ _ hpub
    refine ⟨s1, hcas, .inr ?_⟩
    cases hh : s1.heap c with
    | none =>
      rw [bind_of_error (climapOf_none hh)] at h1
      cases h1
      exact .inl ⟨rfl, rfl⟩
    | some m =>
      rw [bind_of_ok (climapOf_eq hh),
        bind_of_ok (show setClimap c _ s1 = .ok () (s1.authorized c m) from rfl)] at h1
      have hauth : (s1.authorized c m).heap c = some { m with state := .stAuth } :=
        Function.update_self c _ _
      cases hc : m.client with
      | true =>
        rw [publishConnack_eq 0 _ hauth hc] at h1
        cases h1
      | false =>
        unfold publishConnack at h1
        rw [bind_of_ok (buildQuery_eq env _ _), uvWrite_closed env _ _ hauth hc] at h1
        cases h1
        exact .inr ⟨rfl, m, rfl, hc⟩

end ApApps.Sand

import ApApps.Sand.Bus
import ApApps.System.Net

/- What the clients of a broker hear from each other.

   `messages_asked`: in every run of the whole system, whatever the network and the kernels
   do, a message that the `on_message` of some client is called with is one that the program
   of a client has published, or the connect message or the will it has been set up with.
   Nothing is made up on the way, and nothing is garbled except that a short string ends at
   its first NUL.

   `delivered_in_order`: as long as the broker's writes are accepted and refused clients are
   `Discreet`, the messages of a client are the first of those that the bus (`Lib.Bus`) lets
   it hear, in their order and without a gap or a repetition; and all of them once it has
   read everything and waits for more.

   Both need that no client mixes the frames of its own coroutines (`Polite`). -/
namespace ApApps.System
open Incremental ApApps.Redis ApApps.Sand ApApps.Sandc Exec

/-- The strings a client is set up with are not longer than those it may publish. -/
def World.Short (w : World) : Prop := ∀ c, ∀ kv ∈ cnFields (w.client c) (w.param c), kv.2.length < 2 ^ 62

/-! ## The frames of a client -/

section Client
variable {env : Sandc.Env} {param : Sandc.Param} {calls : List Sandc.Event} {f : Bytes}

theorem mem_optField {k : String} {v : Option Bytes} {kv : Bytes × Bytes} :
    kv ∈ optField k v ↔ kv.1 = ascii k ∧ v = some kv.2 := by
  cases v with
  | none => simp [optField]
  | some v => simp [optField, Prod.ext_iff, eq_comm]

/-- The keys of the cn command, if every field is there. -/
def cnKeys : List Bytes := ["id", "cd", "vv", "un", "pw", "kp", "tp", "ct", "cp", "wt", "wp"].map ascii

theorem cnKeys_ok : (∀ k ∈ cnKeys, k.length = 2 ∧ NUL ∉ k) ∧ cnKeys.Nodup := by decide

theorem keys_optField (k : String) (v : Option Bytes) : ((optField k v).map Prod.fst).Sublist [ascii k] := by
  cases v with
  | none => exact List.nil_sublist _
  | some v => exact List.Sublist.refl _

theorem keys_cnFields (env : Sandc.Env) (m : Sandc.Param) : ((cnFields env m).map Prod.fst).Sublist cnKeys := by
  simp only [cnFields, List.map_append]
  exact ((((((((List.Sublist.refl [ascii "id", ascii "cd", ascii "vv"]).append (keys_optField "un" _)).append
    (keys_optField "pw" _)).append (keys_optField "kp" _)).append (List.Sublist.refl [ascii "tp"])).append
    (keys_optField "ct" _)).append (keys_optField "cp" _)).append (keys_optField "wt" _)).append (keys_optField "wp" _)

theorem twoByte_of_keys {map : List (Bytes × Bytes)} (h : (map.map Prod.fst).Sublist cnKeys) : TwoByte map where
  length := fun kv hkv => (cnKeys_ok.1 kv.1 (h.subset (List.mem_map_of_mem hkv))).1
  nul := fun kv hkv => (cnKeys_ok.1 kv.1 (h.subset (List.mem_map_of_mem hkv))).2
  nodup := h.nodup cnKeys_ok.2

theorem twoByte_pbFields (topic payload : Bytes) : TwoByte (pbFields topic payload) where
  length := by
    simp only [pbFields, List.forall_mem_cons]
    exact ⟨by decide, by decide, by decide, by simp⟩
  nul := by
    simp only [pbFields, List.forall_mem_cons]
    exact ⟨by decide, by decide, by decide, by simp⟩
  nodup := by
    show [ascii "id", ascii "tp", ascii "pl"].Nodup
    decide

/-- What a client sends: the table of one of its commands, under its name. -/
structure Sends (env : Sandc.Env) (param : Sandc.Param) (calls : List Sandc.Event) (f : Bytes) (name : Bytes)
    (map : List (Bytes × Bytes)) : Prop where
  encoded : encode (env.pairs map) = .ok f
  named : (ascii "id", name) ∈ map
  twoByte : TwoByte map
  short : ∀ kv ∈ map, kv.2.length < 2 ^ 62
  cause : name = ascii "cn" ∧ map = cnFields env param ∨
    (∃ topic payload out, .publish topic payload out ∈ calls ∧ name = ascii "pb" ∧ map = pbFields topic payload) ∨
    name = ascii "pi" ∨ name = ascii "dc"

/-- **Every frame of a client is the table of a command.** -/
theorem sends_of_isFrame (h : IsFrame env param calls f) (hshort : ∀ kv ∈ cnFields env param, kv.2.length < 2 ^ 62) :
    ∃ name map, Sends env param calls f name map := by
  rcases h with ⟨-, -, -, h⟩ | ⟨topic, payload, out, hmem, htopic, hpayload, h⟩ | h | ⟨-, -, h⟩
  · exact ⟨ascii "cn", _, h, by simp [cnFields], twoByte_of_keys (keys_cnFields env param), hshort, .inl ⟨rfl, rfl⟩⟩
  · refine ⟨ascii "pb", _, h, by simp [pbFields], twoByte_pbFields topic payload, ?_,
      .inr (.inl ⟨topic, payload, out, hmem, rfl, rfl⟩)⟩
    simp only [pbFields, List.forall_mem_cons]
    exact ⟨by decide, htopic, hpayload, by simp⟩
  · exact ⟨ascii "pi", _, h, by simp [piFields], ⟨by decide, by decide, by decide⟩, by decide, .inr (.inr (.inl rfl))⟩
  · exact ⟨ascii "dc", _, h, by simp [dcFields], ⟨by decide, by decide, by decide⟩, by decide, .inr (.inr (.inr rfl))⟩

/-- **The command the broker finds in it**, if it finds one, is the one of that name, with the
fields of the table, and none of them is empty. -/
theorem Sends.command {name : Bytes} {map : List (Bytes × Bytes)} (h : Sends env param calls f name map) {cmd : Cmd}
    {fields : Fields} (hcmd : frameCommand f = some (cmd, fields)) :
    Enumerates (received map) fields ∧ cmdMap name = some cmd ∧ (∀ kv ∈ map, formatS kv.2 ≠ []) := by
  have hne : map ≠ [] := List.ne_nil_of_mem h.named
  have hlua : ∀ kv ∈ map, kv.1.length + kv.2.length < 2 ^ 63 := by
    intro kv hkv
    have hk := h.twoByte.length kv hkv
    have hv := h.short kv hkv
    omega
  obtain ⟨hready, ⟨m, hfields, henum, hall⟩ | ⟨hnone, -⟩⟩ :=
    fieldsOf_encode env.pairs (env.pairs_perm map) hne h.twoByte hlua h.encoded
  · rw [frameCommand_eq hready, hfields, Option.bind_some, Option.map_eq_some_iff] at hcmd
    obtain ⟨cmd', hid, heq⟩ := hcmd
    cases heq
    have hname : formatS name = name := by
      have hcases : name = ascii "cn" ∨ name = ascii "pb" ∨ name = ascii "pi" ∨ name = ascii "dc" := by
        rcases h.cause with ⟨hn, -⟩ | ⟨-, -, -, -, hn, -⟩ | hn | hn
        · exact .inl hn
        · exact .inr (.inl hn)
        · exact .inr (.inr (.inl hn))
        · exact .inr (.inr (.inr hn))
      rcases hcases with rfl | rfl | rfl | rfl <;> decide
    have hget : fields.get "id" = some name :=
      Enumerates.get henum (List.mem_map.mpr ⟨_, h.named, by rw [hname]⟩)
    rw [hget, Option.bind_some] at hid
    exact ⟨henum, hid, hall⟩
  · rw [frameCommand_eq hready, hnone] at hcmd
    cases hcmd

end Client

/-! ## What has been asked for -/

/-- The program of a client publishes the message, or has set it as connect message or as will. -/
inductive Asked (w : World) (evs : List Event) : Bytes × Bytes → Prop
  | publish {c : Conn} {topic payload : Bytes} {out : WriteOut} (h : .act c (.publish topic payload out) ∈ evs) :
      Asked w evs (formatS topic, formatS payload)
  | connect {c : Conn} {topic payload : Bytes} (ht : (w.param c).connectTopic = some topic)
      (hp : (w.param c).connectPayload = some payload) : Asked w evs (formatS topic, formatS payload)
  | will {c : Conn} {topic payload : Bytes} (ht : (w.param c).willTopic = some topic)
      (hp : (w.param c).willPayload = some payload) : Asked w evs (formatS topic, formatS payload)

/-- A string that comes through the protocol as it is. -/
structure Clean (v : Bytes) : Prop where
  format : formatS v = v
  ne_nil : v ≠ []
  short : v.length < 2 ^ 62

section Origin
variable {w : World} {evs : List Event} {n : Net} {c : Conn}

/-- **A command that the broker dispatches has been sent.** -/
theorem Linked.dispatched (h : Linked w evs n) (hshort : w.Short) {cmd : Cmd} {map : Fields}
    (hd : .dispatch c cmd map ∈ n.broker.log) :
    ∃ f name fields, Sends (w.client c) (w.param c) (callsBy c evs) f name fields ∧
      frameCommand f = some (cmd, map) := by
  obtain ⟨frames, tail, hwhole, hcmds, hbytes, -⟩ := (h.streamed c).frames
  have hmem : some (cmd, map) ∈ frames.map frameCommand := by
    rw [← hcmds]
    exact List.mem_map_of_mem (List.mem_filterMap.mpr ⟨_, hd, if_pos rfl⟩)
  obtain ⟨f, hf, hcmd⟩ := List.mem_map.mp hmem
  have hframed : Channel.Framed (IsFrame (w.client c) (w.param c) (callsBy c evs)) (n.party c).cli.sent := by
    rcases h.sound c with hfresh | hsound
    · rw [hfresh.sent]
      exact Channel.framed_nil
    · exact hsound.framed
  have hlua : ∀ kv ∈ cnFields (w.client c) (w.param c), kv.1.length + kv.2.length < 2 ^ 63 := by
    intro kv hkv
    have hk := (twoByte_of_keys (keys_cnFields (w.client c) (w.param c))).length kv hkv
    have hv := hshort c kv hkv
    omega
  have hframe := hframed.of_taken stableVerdict_redisParseReady (fun _ hg => hg.ready hlua) hwhole
    (hbytes ▸ h.up c) f hf
  obtain ⟨name, fields, hsends⟩ := sends_of_isFrame hframe (hshort c)
  exact ⟨f, name, fields, hsends, hcmd⟩

/-- The fields of a command that has been dispatched. -/
theorem Linked.clean (h : Linked w evs n) (hshort : w.Short) {cmd : Cmd} {map : Fields}
    (hd : .dispatch c cmd map ∈ n.broker.log) {k v : Bytes} (hv : map k = some v) : Clean v := by
  obtain ⟨f, name, fields, hsends, hcmd⟩ := h.dispatched hshort hd
  obtain ⟨henum, -, hall⟩ := hsends.command hcmd
  obtain ⟨kv, hkv, heq⟩ := List.mem_map.mp ((henum.mem k v).mp hv)
  obtain rfl : formatS kv.2 = v := congrArg Prod.snd heq
  exact ⟨formatS_formatS _, hall kv hkv, Nat.lt_of_le_of_lt (length_formatS_le _) (hsends.short kv hkv)⟩

/-- A field of a cn command is one of the client's parameters. -/
theorem Linked.cn_field (h : Linked w evs n) (hshort : w.Short) {map : Fields}
    (hd : .dispatch c .cn map ∈ n.broker.log) {k : String} {v : Bytes} (hv : map.get k = some v) :
    ∃ u, (ascii k, u) ∈ cnFields (w.client c) (w.param c) ∧ v = formatS u := by
  obtain ⟨f, name, fields, hsends, hcmd⟩ := h.dispatched hshort hd
  obtain ⟨henum, hname, -⟩ := hsends.command hcmd
  have hfields : fields = cnFields (w.client c) (w.param c) := by
    rcases hsends.cause with ⟨-, hf⟩ | ⟨-, -, -, -, hn, -⟩ | hn | hn
    · exact hf
    all_goals
      rw [hn] at hname
      exact absurd hname (by decide)
  rw [← hfields]
  obtain ⟨kv, hkv, heq⟩ := List.mem_map.mp ((henum.mem _ v).mp hv)
  have hk : kv.1 = ascii k := congrArg Prod.fst heq
  refine ⟨kv.2, ?_, (congrArg Prod.snd heq).symm⟩
  rw [← hk]
  exact hkv

theorem ct_of_cnFields {env : Sandc.Env} {m : Sandc.Param} {v : Bytes} (h : (ascii "ct", v) ∈ cnFields env m) :
    m.connectTopic = some v := by
  simpa +decide [cnFields, mem_optField] using h

theorem cp_of_cnFields {env : Sandc.Env} {m : Sandc.Param} {v : Bytes} (h : (ascii "cp", v) ∈ cnFields env m) :
    m.connectPayload = some v := by
  simpa +decide [cnFields, mem_optField] using h

theorem wt_of_cnFields {env : Sandc.Env} {m : Sandc.Param} {v : Bytes} (h : (ascii "wt", v) ∈ cnFields env m) :
    m.willTopic = some v := by
  simpa +decide [cnFields, mem_optField] using h

theorem wp_of_cnFields {env : Sandc.Env} {m : Sandc.Param} {v : Bytes} (h : (ascii "wp", v) ∈ cnFields env m) :
    m.willPayload = some v := by
  simpa +decide [cnFields, mem_optField] using h

/-- **What the broker has been offered, the program of a client has asked for.** -/
theorem Linked.asked (h : Linked w evs n) (hshort : w.Short) {message : Bytes × Bytes}
    (ho : Offered n.broker.log message) : Asked w evs message ∧ Clean message.1 ∧ Clean message.2 := by
  cases ho with
  | @said c map topic payload hd _ htp hpl =>
    refine ⟨?_, h.clean hshort hd htp, h.clean hshort hd hpl⟩
    obtain ⟨f, name, fields, hsends, hcmd⟩ := h.dispatched hshort hd
    obtain ⟨henum, hname, -⟩ := hsends.command hcmd
    rcases hsends.cause with ⟨hn, -⟩ | ⟨topic', payload', out, hmem, -, rfl⟩ | hn | hn
    · rw [hn] at hname
      exact absurd hname (by decide)
    · have htp' : map.get "tp" = some (formatS topic') := Enumerates.get henum (by simp [received, pbFields])
      have hpl' : map.get "pl" = some (formatS payload') := Enumerates.get henum (by simp [received, pbFields])
      cases htp.symm.trans htp'
      cases hpl.symm.trans hpl'
      obtain ⟨ev, hev, hcall⟩ := List.mem_filterMap.mp hmem
      cases ev with
      | act c' ev' =>
        obtain ⟨-, hcall⟩ := Option.ite_none_right_eq_some.mp hcall
        cases hcall
        exact .publish hev
      | accept | arrive | hangup | timeout | read => cases hcall
    · rw [hn] at hname
      exact absurd hname (by decide)
    · rw [hn] at hname
      exact absurd hname (by decide)
  | @hello c map _ hd _ hm =>
    unfold connectMessage at hm
    cases hct : map.get "ct" with
    | none => simp [hct] at hm
    | some ct =>
      cases hcp : map.get "cp" with
      | none => simp [hct, hcp] at hm
      | some cp =>
        simp only [hct, hcp] at hm
        obtain ⟨-, hm⟩ := Option.ite_none_right_eq_some.mp hm
        cases hm
        refine ⟨?_, h.clean hshort hd hct, h.clean hshort hd hcp⟩
        obtain ⟨topic, htopic, rfl⟩ := h.cn_field hshort hd hct
        obtain ⟨payload, hpayload, rfl⟩ := h.cn_field hshort hd hcp
        exact .connect (ct_of_cnFields htopic) (cp_of_cnFields hpayload)
  | @will c map _ hd hm =>
    unfold cnParam Param.will at hm
    simp only at hm
    cases hwt : map.get "wt" with
    | none => simp [hwt] at hm
    | some wt =>
      cases hwp : map.get "wp" with
      | none => simp [hwt, hwp] at hm
      | some wp =>
        simp only [hwt, hwp] at hm
        obtain ⟨-, hm⟩ := Option.ite_none_left_eq_some.mp hm
        cases hm
        refine ⟨?_, h.clean hshort hd hwt, h.clean hshort hd hwp⟩
        obtain ⟨topic, htopic, rfl⟩ := h.cn_field hshort hd hwt
        obtain ⟨payload, hpayload, rfl⟩ := h.cn_field hshort hd hwp
        exact .will (wt_of_cnFields htopic) (wp_of_cnFields hpayload)

end Origin

/-! ## What a client is told -/

/-- What `on_message` has been called with. -/
def messages (log : List Sandc.Out) : List (Option Bytes × Option Bytes) :=
  log.filterMap fun
    | .onMessage topic payload => some (topic, payload)
    | _ => none

/-- The call of `on_message` that a message of the broker is for. -/
def publication : Msg → List (Option Bytes × Option Bytes)
  | .pb topic payload => [(some topic, some payload)]
  | _ => []

theorem messages_append (log log' : List Sandc.Out) : messages (log ++ log') = messages log ++ messages log' :=
  List.filterMap_append

theorem messages_told (log : List Sandc.Out) : messages (told log) = messages log := by
  induction log with
  | nil => rfl
  | cons out log ih =>
    cases out with
    | onMessage topic payload => exact congrArg ((topic, payload) :: ·) ih
    | onConnect | opened | connected | closed | onDisconnect => exact ih

theorem messages_flatMap (frames : List Bytes) :
    messages (frames.flatMap frameTells) = frames.flatMap fun f => messages (frameTells f) := by
  induction frames with
  | nil => rfl
  | cons f frames ih => rw [List.flatMap_cons, messages_append, ih, List.flatMap_cons]

theorem encode_frame (env : Sand.Env) (msg : Msg) : encode (env.pairs msg.fields) = .ok (env.frame msg) := by
  have h := buildQuery_eq env msg .new
  unfold buildQuery at h
  cases hencode : encode (env.pairs msg.fields) with
  | error e =>
    rw [hencode] at h
    cases h
  | ok frame =>
    rw [hencode] at h
    cases h
    rfl

theorem twoByte_fields (msg : Msg) : TwoByte msg.fields := by
  cases msg with
  | pb topic payload => exact twoByte_pbFields topic payload
  | po => exact ⟨by decide, by decide, by decide⟩
  | ca st da =>
    refine ⟨?_, ?_, ?_⟩
    · simp only [Msg.fields, List.forall_mem_cons]
      exact ⟨by decide, by decide, by decide, by simp⟩
    · simp only [Msg.fields, List.forall_mem_cons]
      exact ⟨by decide, by decide, by decide, by simp⟩
    · show [ascii "id", ascii "st", ascii "da"].Nodup
      decide

/-- **What a client makes of a frame of the broker**: a publication that comes through as it is
becomes a call of `on_message`, and nothing else does. -/
theorem told_of_frame (env : Sand.Env) {msg : Msg} (hlua : ∀ kv ∈ msg.fields, kv.1.length + kv.2.length < 2 ^ 63)
    (hclean : ∀ topic payload, msg = .pb topic payload → Clean topic ∧ Clean payload) :
    redisParseReady (env.frame msg) = .done (env.frame msg).length ∧
      messages (frameTells (env.frame msg)) = publication msg := by
  obtain ⟨hready, hfields⟩ := fieldsOf_encode env.pairs (env.pairs_perm msg.fields) msg.fields_ne (twoByte_fields msg)
    hlua (encode_frame env msg)
  refine ⟨hready, ?_⟩
  unfold frameTells reaction
  cases msg with
  | pb topic payload =>
    obtain ⟨htopic, hpayload⟩ := hclean topic payload rfl
    rcases hfields with ⟨m, hm, henum, -⟩ | ⟨-, kv, hkv, hempty⟩
    · have hid : m.get "id" = some (ascii "pb") := Enumerates.get henum (by simp +decide [received, Msg.fields])
      have htp : m.get "tp" = some topic :=
        Enumerates.get henum (by simp [received, Msg.fields, htopic.format])
      have hpl : m.get "pl" = some payload :=
        Enumerates.get henum (by simp [received, Msg.fields, hpayload.format])
      rw [hm]
      simp only [reactionOf, hid, if_true, htp, hpl]
      rfl
    · simp only [Msg.fields, List.mem_cons, List.not_mem_nil, or_false] at hkv
      rcases hkv with rfl | rfl | rfl
      · exact absurd hempty (by decide)
      · rw [htopic.format] at hempty
        exact absurd hempty htopic.ne_nil
      · rw [hpayload.format] at hempty
        exact absurd hempty hpayload.ne_nil
  | ca st da =>
    rcases hfields with ⟨m, hm, henum, -⟩ | ⟨hnone, -⟩
    · have hid : m.get "id" = some (ascii "ca") := Enumerates.get henum (by simp +decide [received, Msg.fields])
      have hca : ascii "ca" ≠ ascii "pb" := by decide
      rw [hm]
      simp only [reactionOf, hid, Option.some.injEq, hca, if_true, if_false]
      by_cases hok : (((m.get "st").bind tonumber).any dispatch.isZero && (m.get "da").isSome) = true
      · simp only [hok, if_true]
        rfl
      · simp only [hok]
        rfl
    · rw [hnone]
      rfl
  | po =>
    rcases hfields with ⟨m, hm, henum, -⟩ | ⟨hnone, -⟩
    · have hid : m.get "id" = some (ascii "po") := Enumerates.get henum (by decide)
      have hpo : ascii "po" ≠ ascii "pb" := by decide
      have hpo' : ascii "po" ≠ ascii "ca" := by decide
      rw [hm]
      simp only [reactionOf, hid, Option.some.injEq, hpo, hpo', if_false]
      rfl
    · rw [hnone]
      rfl

/-- The message of a frame that has been accepted. -/
theorem mem_acceptedTo {c : Conn} {log : List Sand.Out} {f : Bytes} (h : f ∈ acceptedTo c log) :
    ∃ msg, .write c msg f true ∈ log := by
  obtain ⟨o, ho, hf⟩ := List.mem_filterMap.mp h
  cases o with
  | write c' msg frame ok =>
    cases ok with
    | true =>
      have hsome : (if c' = c then some frame else none) = some f := hf
      obtain ⟨rfl, heq⟩ := Option.ite_none_right_eq_some.mp hsome
      rw [← Option.some.inj heq]
      exact ⟨msg, ho⟩
    | false => cases hf
  | closeTimer | closeClient | timerStop | timerStart | recv | dispatch => cases hf

/-- Publication by publication, what is written to `c` is what `c` is told. -/
theorem told_of_acceptedTo {c : Conn} {log : List Sand.Out}
    (h : ∀ msg f, .write c msg f true ∈ log → messages (frameTells f) = publication msg) :
    ((acceptedTo c log).flatMap fun f => messages (frameTells f)) =
      (publicationsTo c log).map fun message => (some message.1, some message.2) := by
  induction log with
  | nil => rfl
  | cons o log ih =>
    have hrest := ih fun msg f hmem => h msg f (List.mem_cons_of_mem o hmem)
    -- one line adds as much on both sides
    have hline : ∀ (frame : Option Bytes) (pub : Option (Bytes × Bytes)), acceptedFor c o = frame →
        Out.publication c o = pub → ((frame.toList.flatMap fun f => messages (frameTells f)) =
          pub.toList.map fun message => (some message.1, some message.2)) →
        ((acceptedTo c (o :: log)).flatMap fun f => messages (frameTells f)) =
          (publicationsTo c (o :: log)).map fun message => (some message.1, some message.2) := by
      intro frame pub hframe hpub hsame
      rw [acceptedTo, publicationsTo, List.filterMap_cons, List.filterMap_cons, hframe, hpub]
      cases frame <;> cases pub <;> simp_all [acceptedTo, publicationsTo]
    cases o with
    | closeTimer | closeClient | timerStop | timerStart | recv | dispatch => exact hrest
    | write c' msg frame ok =>
      cases ok with
      | false => exact hline none none rfl (by cases msg <;> rfl) rfl
      | true =>
        by_cases hc : c' = c
        · subst hc
          have hone := h msg frame List.mem_cons_self
          cases msg with
          | pb topic payload =>
            exact hline (some frame) (some (topic, payload)) (if_pos rfl) (if_pos rfl) (by simpa [publication] using hone)
          | ca st da => exact hline (some frame) none (if_pos rfl) rfl (by simpa [publication] using hone)
          | po => exact hline (some frame) none (if_pos rfl) rfl (by simpa [publication] using hone)
        · refine hline none none (if_neg hc) ?_ rfl
          cases msg with
          | pb topic payload => exact if_neg hc
          | ca | po => rfl

section Told
variable {w : World} {evs : List Event} {n : Net} {c : Conn}

/-- A write of the broker. -/
theorem Linked.written (h : Linked w evs n) (hshort : w.Short) {msg : Msg} {f : Bytes}
    (hmem : .write c msg f true ∈ n.broker.log) :
    redisParseReady f = .done f.length ∧ messages (frameTells f) = publication msg := by
  obtain ⟨rfl, hcaused⟩ := h.honest.log.caused hmem
  refine told_of_frame w.broker ?_ ?_
  · cases msg with
    | pb topic payload =>
      obtain ⟨-, htopic, hpayload⟩ := h.asked hshort hcaused
      have hid : (ascii "id").length = 2 ∧ (ascii "tp").length = 2 ∧ (ascii "pl").length = 2 := by decide
      have hpb : (ascii "pb").length = 2 := by decide
      have ht : topic.length < 2 ^ 62 := htopic.short
      have hp : payload.length < 2 ^ 62 := hpayload.short
      simp only [Msg.fields, List.forall_mem_cons, hid, hpb]
      exact ⟨by omega, by omega, by omega, by simp⟩
    | po => decide
    | ca st da =>
      obtain ⟨map, hd, hcause⟩ := hcaused
      have hcd : (cdOf map).length < 2 ^ 62 := by
        unfold cdOf
        cases hget : map.get "cd" with
        | none => decide
        | some cd => exact (h.clean hshort hd hget).short
      have hst : (sprintfNum st).length < 2 ^ 62 := by
        rcases hcause with ⟨rfl, -⟩ | ⟨rfl, -⟩ <;> decide
      have hda : da.length < 2 ^ 62 + 14 := by
        rcases hcause with ⟨-, rfl, -⟩ | ⟨-, hda⟩
        · decide
        · simp only [refusals, List.mem_cons, List.not_mem_nil, or_false] at hda
          rcases hda with rfl | rfl | rfl | rfl | rfl | rfl
          · decide
          · decide
          · decide
          · decide
          · decide
          · have hlen : (ascii "already exist ").length = 14 := by decide
            rw [List.length_append, hlen]
            omega
      have hid : (ascii "id").length = 2 ∧ (ascii "st").length = 2 ∧ (ascii "da").length = 2 := by decide
      have hca : (ascii "ca").length = 2 := by decide
      simp only [Msg.fields, List.forall_mem_cons, hid, hca]
      exact ⟨by omega, by omega, by omega, by simp⟩
  · rintro topic payload rfl
    exact (h.asked hshort hcaused).2

/-- **What a client has been told**: the first of the frames written to it, all of them if it has
read everything and waits. -/
theorem Linked.told (h : Linked w evs n) (hshort : w.Short) (c : Conn) :
    ∃ frames, frames <+: acceptedTo c n.broker.log ∧ messages (n.party c).cli.log = frames.flatMap (fun f => messages (frameTells f)) ∧
      (.reading ∈ (n.party c).cli.cos → n.toClient c = [] → frames = acceptedTo c n.broker.log) := by
  obtain ⟨frames, hwhole, htold, tail, hinbox, hcos⟩ := (h.reader c).reached
  have hsent : ∀ f ∈ acceptedTo c n.broker.log, redisParseReady f = .done f.length := by
    intro f hf
    obtain ⟨msg, hmem⟩ := mem_acceptedTo hf
    exact (h.written hshort hmem).1
  obtain ⟨hfirst, hall⟩ := Channel.prefix_of_taken stableVerdict_redisParseReady hwhole hsent (hinbox ▸ h.down c)
  refine ⟨frames, hfirst, ?_, fun hreading hempty => hall ?_ ?_⟩
  · rw [← messages_told, htold, messages_flatMap]
  · obtain ⟨rest, hrest⟩ := h.down c
    have hnil : rest = [] := by
      rw [Net.toClient, ← hrest, List.drop_left] at hempty
      exact hempty
    rw [← hinbox, ← hrest, hnil, List.append_nil]
  · obtain ⟨htail, hidle⟩ := hcos .reading (List.mem_filter.mpr ⟨hreading, rfl⟩)
    rw [show tail = (n.party c).cli.data from htail.trans (List.append_nil _)]
    exact hidle rfl

end Told

/-- A refused cn command that reaches the broker is discreet. -/
def DiscreetAt (w : World) (n : Net) : Event → Prop
  | .arrive c k =>
    EventOk w.broker (fun s _ map => Discreet s map) n.broker (.chunk c ((n.toBroker c).take k))
  | _ => True

/-! ## A run of two clients -/

instance (n : Net) : (ev : Event) → Decidable (Polite n ev)
  | .accept .. => isTrue trivial
  | .arrive .. => isTrue trivial
  | .hangup .. => isTrue trivial
  | .timeout .. => isTrue trivial
  | .act c ev => inferInstanceAs (Decidable (Alone (n.party c).cli ev))
  | .read .. => isTrue trivial

/-- `DiscreetAt`, computed. -/
def discreetCheck (w : World) (n : Net) : Event → Bool
  | .arrive c k =>
    eventCheck w.broker (fun s _ map => decide (Discreet s map)) n.broker (.chunk c ((n.toBroker c).take k))
  | _ => true

theorem discreetAt_of_check {w : World} {n : Net} {ev : Event} (h : discreetCheck w n ev = true) :
    DiscreetAt w n ev := by
  cases ev with
  | arrive c k =>
    have hcheck : eventCheck w.broker (fun s _ map => decide (Discreet s map)) n.broker
        (.chunk c ((n.toBroker c).take k)) = true := h
    intro hen m hh s1 hs1 m1 map rest hh1 hst hread
    exact of_decide_eq_true (eventOk_of_check hcheck hen m hh s1 hs1 m1 map rest hh1 hst hread)
  | accept | hangup | timeout | act | read => trivial

def memberParam (cd : String) (topics : List String) : Sandc.Param where
  clientid := ascii cd
  username := some brokerUser
  password := some brokerPassword
  version := ascii "v0.1"
  keepalive := some (.int 5)
  topics := topics.map ascii
  connectTopic := none
  connectPayload := none
  willTopic := some (ascii "w")
  willPayload := some (ascii "bye")

/-- Client 0 listens to the topic of the publications of the others and to that of their wills. -/
def twoWorld : World where
  broker := .calm
  client := fun _ => .plain
  param := fun c => if c = 0 then memberParam "x" ["a", "w"] else memberParam "y" ["b"]

/-- Client 1 publishes a message and is cut off; 0 reads in small pieces. -/
def twoRun : List Event :=
  let go := .act 0 (.resume 0 false false .again)
  [.act 0 (.connect (some 5) (.wrote 1000)), .act 0 .run, .act 1 (.connect (some 5) (.wrote 40)), .accept 0 7,
    .accept 1 8, .arrive 1 30, .arrive 0 1000, .act 1 (.io 0 (.wrote 1000)), .act 1 (.resume 0 false false .again),
    .arrive 1 1000, .act 1 (.publish (ascii "a") (ascii "hi") (.wrote 1000)), .arrive 1 20, go, .read 0 0 7,
    .arrive 1 1000, go, go, go, .hangup 1 none, .read 0 0 1000, go, go, go, go, go, go]

theorem twoWorld_short : twoWorld.Short := by
  intro c
  by_cases hc : c = 0
  · simp only [twoWorld, if_pos hc]
    decide
  · simp only [twoWorld, if_neg hc]
    decide

/-- What the run has to show, found by going through it. -/
theorem twoRun_checked :
    alongCheck (step twoWorld) (fun n ev => decide (Polite n ev) && discreetCheck twoWorld n ev) (.new twoWorld)
        twoRun = true ∧
      returned (run twoWorld twoRun) = some () ∧
      messages ((finalState (run twoWorld twoRun)).party 0).cli.log =
        [(some (ascii "a"), some (ascii "hi")), (some (ascii "w"), some (ascii "bye"))] := by
  decide +kernel

theorem twoRun_polite : Along (step twoWorld) Polite (.new twoWorld) twoRun := by
  apply (along_of_check twoRun_checked.1).mono
  intro n ev h
  exact of_decide_eq_true (Bool.and_eq_true_iff.mp h).1

theorem twoRun_discreet : Along (step twoWorld) (DiscreetAt twoWorld) (.new twoWorld) twoRun := by
  apply (along_of_check twoRun_checked.1).mono
  intro n ev h
  exact discreetAt_of_check (Bool.and_eq_true_iff.mp h).2

theorem twoRun_ok : run twoWorld twoRun = .ok () (finalState (run twoWorld twoRun)) :=
  eq_ok_of_returned twoRun_checked.2.1

/-! ## What is delivered -/

/-- **Nobody hears what nobody has said.** Whatever the clients do and in whatever order, however the
network splits and delays what they send, and whichever writes fail: a message that a client is
called back with is one that the program of a client has asked for. -/
theorem messages_asked (w : World) (hshort : w.Short) {evs : List Event}
    (hpolite : Along (step w) Polite (.new w) evs) {n : Net} (h : run w evs = .ok () n) {c : Conn}
    {tp pl : Option Bytes} (hmem : (tp, pl) ∈ messages (n.party c).cli.log) :
    ∃ topic payload, tp = some topic ∧ pl = some payload ∧ Asked w evs (topic, payload) := by
  have hlinked := linked_of_run hpolite h
  obtain ⟨frames, hfirst, hmessages, -⟩ := hlinked.told hshort c
  rw [hmessages] at hmem
  obtain ⟨f, hf, htold⟩ := List.mem_flatMap.mp hmem
  obtain ⟨msg, hwrite⟩ := mem_acceptedTo (hfirst.subset hf)
  rw [(hlinked.written hshort hwrite).2] at htold
  cases msg with
  | pb topic payload =>
    cases List.mem_singleton.mp htold
    obtain ⟨-, hcaused⟩ := hlinked.honest.log.caused hwrite
    exact ⟨topic, payload, rfl, rfl, (hlinked.asked hshort hcaused).1⟩
  | ca | po => cases htold

theorem messages_asked_two : ∃ topic payload, some (ascii "w") = some topic ∧ some (ascii "bye") = some payload ∧
    Asked twoWorld twoRun (topic, payload) :=
  messages_asked twoWorld twoWorld_short twoRun_polite twoRun_ok (c := 0) (by
    rw [twoRun_checked.2.2]
    exact List.mem_cons_of_mem _ List.mem_cons_self)

/-- A step of the system is a step of the bus, or none. -/
theorem plays_of_step {w : World} (hok : w.broker.AllOk) {n n' : Net} {ev : Event}
    (h : Sane none n.broker ∧ Plays .new n.broker) (hdiscreet : DiscreetAt w n ev) (hstep : step w ev n = .ok () n') :
    Sane none n'.broker ∧ Plays .new n'.broker := by
  have hserve : ∀ bev, EventOk w.broker (fun s _ map => Discreet s map) n.broker bev → n.serve w bev = .ok () n' →
      Sane none n'.broker ∧ Plays .new n'.broker := by
    intro bev hP hs
    unfold Net.serve at hs
    cases hb : Sand.step w.broker bev n.broker with
    | error e b =>
      rw [hb] at hs
      cases hs
    | ok u b =>
      rw [hb] at hs
      cases hs
      exact Plays.step hok h hP hb
  cases ev with
  | accept c fd => exact hserve (.accept c fd) trivial hstep
  | arrive c k => exact hserve (.chunk c ((n.toBroker c).take k)) hdiscreet hstep
  | hangup c err => exact hserve (.closed c err) trivial hstep
  | timeout c => exact hserve (.timeout c) trivial hstep
  | act c ev =>
    cases hstep
    split <;> exact h
  | read c i k =>
    cases hstep
    split <;> exact h

/-- **Messages are delivered in order, without gaps and without repetitions.** If the broker's writes
are accepted and refused clients are discreet, the messages of a client are the first of
those that the bus lets it hear of the calls the broker has got; all of them once the client
has read everything and waits for more. -/
theorem delivered_in_order (w : World) (hshort : w.Short) (hok : w.broker.AllOk) {evs : List Event}
    (hpolite : Along (step w) Polite (.new w) evs) (hdiscreet : Along (step w) (DiscreetAt w) (.new w) evs) {n : Net}
    (h : run w evs = .ok () n) (c : Conn) :
    messages (n.party c).cli.log <+:
        (Bus.heard c .empty (callsOf n.broker.log)).map (fun message => (some message.1, some message.2)) ∧
      (.reading ∈ (n.party c).cli.cos → n.toClient c = [] →
        messages (n.party c).cli.log =
          (Bus.heard c .empty (callsOf n.broker.log)).map fun message => (some message.1, some message.2)) := by
  have hlinked := linked_of_run hpolite h
  have hplays := Exec.run_invariant (I := fun n : Net => Sane none n.broker ∧ Plays .new n.broker)
    (fun _ _ _ h0 hQ hstep => plays_of_step hok h0 hQ hstep) ⟨.new, .refl⟩ hdiscreet h
  have hheard := told_of_acceptedTo (c := c) fun msg f hmem => (hlinked.written hshort hmem).2
  rw [hplays.2.bus.2 c] at hheard
  obtain ⟨frames, ⟨more, hmore⟩, hmessages, hall⟩ := hlinked.told hshort c
  rw [← hheard, hmessages]
  refine ⟨?_, fun hreading hempty => by rw [hall hreading hempty]⟩
  rw [← hmore, List.flatMap_append]
  exact List.prefix_append _ _

theorem delivered_in_order_two :
    (messages ((finalState (run twoWorld twoRun)).party 0).cli.log =
      [(some (ascii "a"), some (ascii "hi")), (some (ascii "w"), some (ascii "bye"))]) ∧
    messages ((finalState (run twoWorld twoRun)).party 0).cli.log <+:
        (Bus.heard 0 .empty (callsOf (finalState (run twoWorld twoRun)).broker.log)).map
          (fun message => (some message.1, some message.2)) ∧
      (.reading ∈ ((finalState (run twoWorld twoRun)).party 0).cli.cos →
        (finalState (run twoWorld twoRun)).toClient 0 = [] →
        messages ((finalState (run twoWorld twoRun)).party 0).cli.log =
          (Bus.heard 0 .empty (callsOf (finalState (run twoWorld twoRun)).broker.log)).map
            fun message => (some message.1, some message.2)) :=
  ⟨twoRun_checked.2.2,
    delivered_in_order twoWorld twoWorld_short (fun _ _ => rfl) twoRun_polite twoRun_discreet twoRun_ok 0⟩

end ApApps.System

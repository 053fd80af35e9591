import ApApps.Cjson.Encode

/- Requests and responses of cfgclient.lua, with `wait_response` of baseclient.lua.

   Every call of `request` is a request of its own, named by the sequence number it takes.
   It waits in turns of 5 ms, and each turn is an event; messages arrive between them, in
   any order, and are given here as `js.decode` returns them. The times are what `se.time`
   returns, whatever that is.

   A response is put into `response_map` with the number of the message it came in, which
   only the statements use. `requests_matched`: a request returns what a message with its
   own number carried, and the two tables are clean exactly if no request has run into its
   timeout. -/
namespace ApApps.Cfgclient
open ApApps.Cjson

/-! ## The state -/

/-- An entry of `response_map`. -/
structure Entry where
  pld : Val
  /-- the message it came in -/
  msg : Nat

/-- Where a request is. -/
inductive Phase where
  | absent
  /-- in the loop of `wait_response`, since `st` -/
  | waiting (st : ℚ)
  /-- with the response, or with nil -/
  | returned (res : Option Entry)

/-- What is published for a request. -/
structure Published where
  outTopic : Bytes
  seq : Nat
  pld : Val

structure St where
  seq : Nat
  outSeqMap : Nat → Bool
  responseMap : Nat → Option Entry
  notifyArr : List Val
  published : List Published
  phase : Nat → Phase
  /-- the messages so far -/
  received : List (Option Val)

def St.new : St where
  seq := 0
  outSeqMap := fun _ => false
  responseMap := fun _ => none
  notifyArr := []
  published := []
  phase := fun _ => .absent
  received := []

/-! ## The functions -/

/-- The `timeout` of `request`, in seconds. -/
def timeout : ℚ := 10

/-- `request`, up to its first wait; `now` is the `st` of `wait_response`. A failed `assert`
has done nothing. -/
def request (s : St) (outTopic : Bytes) (payload : Option Val) (now : ℚ) : St :=
  match payload with
  | none => s
  | some pld =>
    if truthy payload then
      { s with
        seq := s.seq + 1
        outSeqMap := Function.update s.outSeqMap s.seq true
        published := s.published ++ [⟨outTopic, s.seq, pld⟩]
        phase := Function.update s.phase s.seq (.waiting now) }
    else s

/-- A turn of `wait_response`, at the time `now`. -/
def waitTurn (s : St) (seq : Nat) (st now : ℚ) : St :=
  match s.responseMap seq with
  | some res =>
    { s with
      responseMap := Function.update s.responseMap seq none
      phase := Function.update s.phase seq (.returned (some res)) }
  | none =>
    if timeout < now - st then { s with phase := Function.update s.phase seq (.returned none) } else s

/-- `map.pld` and `map.seq`. A string has the fields of the library, which has neither. -/
def fieldOf (map : Val) (name : String) : Except LuaError (Option Val) :=
  match map with
  | .obj fields => .ok (fields.lookup (ascii name))
  | .arr _ => .ok none
  | .str _ => .ok none
  | .null => .error .nilIndexed
  | .bool _ => .error .nilIndexed
  | .num _ => .error .nilIndexed

/-- The request a number names: a float with an integer value is the same key. -/
def seqKey : Val → Option Nat
  | .num (.fin q) => if q.den = 1 ∧ 0 ≤ q.num then some q.num.toNat else none
  | _ => none

/-- The `on_message` callback, on what `js.decode` makes of the payload. -/
def onMessage (s : St) (map : Option Val) : Except LuaError St :=
  match map with
  | none => .ok s
  | some (.bool false) => .ok s
  | some map => do
    match ← fieldOf map "pld" with
    | none => pure s
    | some pld =>
      if !truthy (some pld) then pure s
      else match ← fieldOf map "seq" with
        | none => pure { s with notifyArr := s.notifyArr ++ [pld] }
        | some seq =>
          if !truthy (some seq) then pure { s with notifyArr := s.notifyArr ++ [pld] }
          else match seqKey seq with
            | none => pure s
            | some i =>
              if s.outSeqMap i then
                pure { s with
                  responseMap := Function.update s.responseMap i (some ⟨pld, s.received.length⟩)
                  outSeqMap := Function.update s.outSeqMap i false }
              else pure s

inductive Event where
  | request (outTopic : Bytes) (payload : Option Val) (now : ℚ)
  | wake (seq : Nat) (now : ℚ)
  | message (map : Option Val)

/-- A callback that raises has done nothing. -/
def received (s : St) (map : Option Val) : St :=
  { (onMessage s map).toOption.getD s with received := s.received ++ [map] }

def step (s : St) : Event → St
  | .request outTopic payload now => request s outTopic payload now
  | .wake seq now =>
    match s.phase seq with
    | .waiting st => waitTurn s seq st now
    | _ => s
  | .message map => received s map

def run (s : St) (es : List Event) : St := es.foldl step s

/-! ## What a message does -/

/-- The response in a message, if it is one: the request it names and what it carries. -/
def responseIn : Option Val → Option (Nat × Val)
  | some (.obj fields) =>
    match fields.lookup (ascii "pld"), fields.lookup (ascii "seq") with
    | some pld, some seq =>
      if truthy (some pld) && truthy (some seq) then (seqKey seq).map fun i => (i, pld) else none
    | _, _ => none
  | _ => none

/-- What the callback does on a table. -/
theorem onMessage_obj (s : St) (fields : List (Bytes × Val)) :
    onMessage s (some (.obj fields)) =
      match fields.lookup (ascii "pld") with
      | none => .ok s
      | some pld =>
        if !truthy (some pld) then .ok s
        else match fields.lookup (ascii "seq") with
          | none => .ok { s with notifyArr := s.notifyArr ++ [pld] }
          | some seq =>
            if !truthy (some seq) then .ok { s with notifyArr := s.notifyArr ++ [pld] }
            else match seqKey seq with
              | none => .ok s
              | some i =>
                if s.outSeqMap i then
                  .ok { s with
                    responseMap := Function.update s.responseMap i (some ⟨pld, s.received.length⟩)
                    outSeqMap := Function.update s.outSeqMap i false }
                else .ok s := rfl

theorem done_ok (s s' : St) : (Except.ok s' : Except LuaError St).toOption.getD s = s' := rfl

/-- The callback changes nothing but the list of notices, unless the message is a response
that is waited for. -/
theorem onMessage_cases (s : St) (map : Option Val) :
    (∃ notifyArr, (onMessage s map).toOption.getD s = { s with notifyArr }) ∨
      ∃ i pld, responseIn map = some (i, pld) ∧ s.outSeqMap i = true ∧
        (onMessage s map).toOption.getD s = { s with
          responseMap := Function.update s.responseMap i (some ⟨pld, s.received.length⟩)
          outSeqMap := Function.update s.outSeqMap i false } := by
  have hsame : ∃ notifyArr, s = { s with notifyArr } := ⟨s.notifyArr, rfl⟩
  match map with
  | none => exact .inl hsame
  | some .null => exact .inl hsame
  | some (.bool b) =>
    cases b
    · exact .inl hsame
    · exact .inl hsame
  | some (.num x) => exact .inl hsame
  | some (.str t) => exact .inl hsame
  | some (.arr items) => exact .inl hsame
  | some (.obj fields) =>
    rw [onMessage_obj, responseIn]
    cases hpld : fields.lookup (ascii "pld") with
    | none => exact .inl hsame
    | some pld =>
      cases htruthy : truthy (some pld) with
      | false => exact .inl (by simpa [htruthy, done_ok] using hsame)
      | true =>
        cases hseq : fields.lookup (ascii "seq") with
        | none => exact .inl ⟨s.notifyArr ++ [pld], by simp [htruthy, done_ok]⟩
        | some seq =>
          cases htruthy' : truthy (some seq) with
          | false => exact .inl ⟨s.notifyArr ++ [pld], by simp [htruthy, htruthy', done_ok]⟩
          | true =>
            cases hkey : seqKey seq with
            | none => exact .inl (by simpa [htruthy, htruthy', hkey, done_ok] using hsame)
            | some i =>
              cases hout : s.outSeqMap i with
              | false => exact .inl (by simpa [htruthy, htruthy', hkey, hout, done_ok] using hsame)
              | true =>
                refine .inr ⟨i, pld, ?_, hout, ?_⟩
                · simp [htruthy, htruthy', hkey]
                · simp [htruthy, htruthy', hkey, hout, done_ok]

theorem received_cases (s : St) (map : Option Val) :
    (∃ notifyArr, received s map = { s with notifyArr, received := s.received ++ [map] }) ∨
      ∃ i pld, responseIn map = some (i, pld) ∧ s.outSeqMap i = true ∧
        received s map = { s with
          responseMap := Function.update s.responseMap i (some ⟨pld, s.received.length⟩)
          outSeqMap := Function.update s.outSeqMap i false
          received := s.received ++ [map] } := by
  unfold received
  rcases onMessage_cases s map with ⟨notifyArr, heq⟩ | ⟨i, pld, hresp, hout, heq⟩
  · rw [heq]
    exact .inl ⟨notifyArr, rfl⟩
  · rw [heq]
    exact .inr ⟨i, pld, hresp, hout, rfl⟩

/-! ## Responses and their requests -/

/-- The message an entry came in is a response to this request, with this payload. -/
def Carries (s : St) (i : Nat) (e : Entry) : Prop :=
  ∃ map, s.received[e.msg]? = some map ∧ responseIn map = some (i, e.pld)

/-- The request has run into its timeout. -/
def TimedOut (s : St) (i : Nat) : Prop := s.phase i = .returned none

/-- The tables have entries for requests that have not returned, and for no others. -/
def Clean (s : St) : Prop :=
  ∀ i, s.outSeqMap i = true ∨ (s.responseMap i).isSome = true → ∃ st, s.phase i = .waiting st

/-- It has not got its response. -/
def Phase.unserved : Phase → Bool
  | .waiting _ | .returned none => true
  | .absent | .returned (some _) => false

/-- What is always so. -/
structure Inv (s : St) : Prop where
  fresh : ∀ i, s.seq ≤ i → s.phase i = .absent ∧ s.outSeqMap i = false ∧ s.responseMap i = none
  used : ∀ i, i < s.seq → s.phase i ≠ .absent
  entry : ∀ i e, s.responseMap i = some e → Carries s i e ∧ s.outSeqMap i = false
  served : ∀ i e, s.phase i = .returned (some e) → Carries s i e ∧ s.outSeqMap i = false ∧ s.responseMap i = none
  /-- a request is in one of the tables until it gets its response, so for ever if it has run
  into its timeout -/
  left : ∀ i, (s.phase i).unserved = true → s.outSeqMap i = true ∨ (s.responseMap i).isSome = true

/-- **The tables are clean exactly if no request has run into its timeout.** -/
theorem clean_iff {s : St} (h : Inv s) : Clean s ↔ ∀ i, ¬ TimedOut s i := by
  constructor
  · intro hclean i htimed
    obtain ⟨st, hst⟩ := hclean i (h.left i (by rw [htimed]; rfl))
    rw [TimedOut, hst] at htimed
    cases htimed
  · intro hno i hentry
    cases hp : s.phase i with
    | waiting st => exact ⟨st, rfl⟩
    | absent =>
      exfalso
      have hn : s.seq ≤ i := by
        by_contra hlt
        exact h.used i (by omega) hp
      obtain ⟨_, hout, hres⟩ := h.fresh i hn
      rcases hentry with ho | hr
      · rw [hout] at ho
        cases ho
      · rw [hres] at hr
        cases hr
    | returned res =>
      exfalso
      cases res with
      | none => exact hno i hp
      | some e =>
        obtain ⟨_, hout, hres⟩ := h.served i e hp
        rcases hentry with ho | hr
        · rw [hout] at ho
          cases ho
        · rw [hres] at hr
          cases hr

/-! ## One step -/

theorem inv_new : Inv St.new := ⟨fun _ _ => ⟨rfl, rfl, rfl⟩, nofun, nofun, nofun, nofun⟩

theorem Carries.mono {s s' : St} {i : Nat} {e : Entry} (h : Carries s i e) {more : List (Option Val)}
    (hs : s'.received = s.received ++ more) : Carries s' i e := by
  obtain ⟨map, hmap, hresp⟩ := h
  refine ⟨map, ?_, hresp⟩
  rw [hs]
  exact List.getElem?_append_left (List.getElem?_eq_some_iff.mp hmap).1 |>.trans hmap

theorem inv_request {s : St} (h : Inv s) (outTopic : Bytes) (payload : Option Val) (now : ℚ) :
    Inv (request s outTopic payload now) := by
  unfold request
  split
  · exact h
  · split
    · obtain ⟨habs, hout, hres⟩ := h.fresh s.seq (Nat.le_refl _)
      refine ⟨fun i hi => ?_, fun i hi => ?_, fun i e he => ?_, fun i e he => ?_, fun i hi => ?_⟩
      · have hi : s.seq + 1 ≤ i := hi
        obtain ⟨h1, h2, h3⟩ := h.fresh i (by omega)
        exact ⟨(Function.update_of_ne (by omega) ..).trans h1, (Function.update_of_ne (by omega) ..).trans h2, h3⟩
      · have hi : i < s.seq + 1 := hi
        show Function.update s.phase s.seq (.waiting now) i ≠ .absent
        by_cases hin : i = s.seq
        · subst hin
          rw [Function.update_self]
          nofun
        · rw [Function.update_of_ne hin]
          exact h.used i (by omega)
      · have hin : i ≠ s.seq := by
          rintro rfl
          have he : s.responseMap s.seq = some e := he
          rw [hres] at he
          cases he
        obtain ⟨hcarries, hno⟩ := h.entry i e he
        exact ⟨hcarries, (Function.update_of_ne hin ..).trans hno⟩
      · have he : Function.update s.phase s.seq (.waiting now) i = .returned (some e) := he
        by_cases hin : i = s.seq
        · subst hin
          rw [Function.update_self] at he
          cases he
        · rw [Function.update_of_ne hin] at he
          obtain ⟨hcarries, hno, hgone⟩ := h.served i e he
          exact ⟨hcarries, (Function.update_of_ne hin ..).trans hno, hgone⟩
      · have hi : (Function.update s.phase s.seq (.waiting now) i).unserved = true := hi
        show Function.update s.outSeqMap s.seq true i = true ∨ _
        by_cases hin : i = s.seq
        · subst hin
          exact .inl (Function.update_self ..)
        · rw [Function.update_of_ne hin] at hi ⊢
          exact h.left i hi
    · exact h

/-- A turn of the loop takes the response that is there, or gives up if time is up. -/
theorem inv_waitTurn {s : St} (h : Inv s) {i : Nat} {st : ℚ} (hp : s.phase i = .waiting st) (now : ℚ) :
    Inv (waitTurn s i st now) := by
  have hlt : i < s.seq := by
    by_contra hn
    rw [(h.fresh i (by omega)).1] at hp
    cases hp
  unfold waitTurn
  split
  · next res hres =>
    obtain ⟨hcarries, hout⟩ := h.entry i res hres
    refine ⟨fun j hj => ?_, fun j hj => ?_, fun j e he => ?_, fun j e he => ?_, fun j hj => ?_⟩
    · have hj : s.seq ≤ j := hj
      obtain ⟨h1, h2, h3⟩ := h.fresh j hj
      exact ⟨(Function.update_of_ne (by omega) ..).trans h1, h2, (Function.update_of_ne (by omega) ..).trans h3⟩
    · show Function.update s.phase i (.returned (some res)) j ≠ .absent
      by_cases hji : j = i
      · subst hji
        rw [Function.update_self]
        nofun
      · rw [Function.update_of_ne hji]
        exact h.used j hj
    · have he : Function.update s.responseMap i none j = some e := he
      by_cases hji : j = i
      · subst hji
        rw [Function.update_self] at he
        cases he
      · rw [Function.update_of_ne hji] at he
        exact h.entry j e he
    · have he : Function.update s.phase i (.returned (some res)) j = .returned (some e) := he
      by_cases hji : j = i
      · subst hji
        rw [Function.update_self] at he
        cases he
        exact ⟨hcarries, hout, Function.update_self ..⟩
      · rw [Function.update_of_ne hji] at he
        obtain ⟨h1, h2, h3⟩ := h.served j e he
        exact ⟨h1, h2, (Function.update_of_ne hji ..).trans h3⟩
    · have hj : (Function.update s.phase i (.returned (some res)) j).unserved = true := hj
      show _ ∨ (Function.update s.responseMap i none j).isSome = true
      by_cases hji : j = i
      · subst hji
        rw [Function.update_self] at hj
        cases hj
      · rw [Function.update_of_ne hji] at hj ⊢
        exact h.left j hj
  · split
    · refine ⟨fun j hj => ?_, fun j hj => ?_, h.entry, fun j e he => ?_, fun j hj => ?_⟩
      · have hj : s.seq ≤ j := hj
        obtain ⟨h1, h2⟩ := h.fresh j hj
        exact ⟨(Function.update_of_ne (by omega) ..).trans h1, h2⟩
      · show Function.update s.phase i (.returned none) j ≠ .absent
        by_cases hji : j = i
        · subst hji
          rw [Function.update_self]
          nofun
        · rw [Function.update_of_ne hji]
          exact h.used j hj
      · have he : Function.update s.phase i (.returned none) j = .returned (some e) := he
        by_cases hji : j = i
        · subst hji
          rw [Function.update_self] at he
          cases he
        · rw [Function.update_of_ne hji] at he
          exact h.served j e he
      · have hj : (Function.update s.phase i (.returned none) j).unserved = true := hj
        by_cases hji : j = i
        · subst hji
          exact h.left j (by rw [hp]; rfl)
        · rw [Function.update_of_ne hji] at hj
          exact h.left j hj
    · exact h

/-- A response moves its request from the one table to the other. -/
theorem inv_received {s : St} (h : Inv s) (map : Option Val) : Inv (received s map) := by
  have hmono : ∀ {s' : St} {i : Nat} {e : Entry}, Carries s i e → s'.received = s.received ++ [map] → Carries s' i e :=
    fun hc hs => hc.mono hs
  rcases received_cases s map with ⟨notifyArr, heq⟩ | ⟨i, pld, hresp, hout, heq⟩
  · rw [heq]
    refine ⟨h.fresh, h.used, fun j e he => ?_, fun j e he => ?_, h.left⟩
    · obtain ⟨hc, hrest⟩ := h.entry j e he
      exact ⟨hmono hc rfl, hrest⟩
    · obtain ⟨hc, hrest⟩ := h.served j e he
      exact ⟨hmono hc rfl, hrest⟩
  · have hlt : i < s.seq := by
      by_contra hn
      rw [(h.fresh i (by omega)).2.1] at hout
      cases hout
    rw [heq]
    refine ⟨fun j hj => ?_, h.used, fun j e he => ?_, fun j e he => ?_, fun j hj => ?_⟩
    · have hj : s.seq ≤ j := hj
      obtain ⟨h1, h2, h3⟩ := h.fresh j hj
      exact ⟨h1, (Function.update_of_ne (by omega) ..).trans h2, (Function.update_of_ne (by omega) ..).trans h3⟩
    · have he : Function.update s.responseMap i (some ⟨pld, s.received.length⟩) j = some e := he
      by_cases hji : j = i
      · subst hji
        rw [Function.update_self] at he
        cases he
        refine ⟨⟨map, ?_, hresp⟩, Function.update_self ..⟩
        exact List.getElem?_concat_length
      · rw [Function.update_of_ne hji] at he
        obtain ⟨hc, hno⟩ := h.entry j e he
        exact ⟨hmono hc rfl, (Function.update_of_ne hji ..).trans hno⟩
    · obtain ⟨hc, hno, hgone⟩ := h.served j e he
      have hji : j ≠ i := by
        rintro rfl
        rw [hno] at hout
        cases hout
      exact ⟨hmono hc rfl, (Function.update_of_ne hji ..).trans hno, (Function.update_of_ne hji ..).trans hgone⟩
    · show Function.update s.outSeqMap i false j = true ∨ (Function.update s.responseMap i _ j).isSome = true
      by_cases hji : j = i
      · subst hji
        rw [Function.update_self, Function.update_self]
        exact .inr rfl
      · rw [Function.update_of_ne hji, Function.update_of_ne hji]
        exact h.left j hj

theorem inv_step {s : St} (h : Inv s) (e : Event) : Inv (step s e) := by
  cases e with
  | request outTopic payload now => exact inv_request h outTopic payload now
  | wake i now =>
    simp only [step]
    split
    · next st hp => exact inv_waitTurn h hp now
    · exact h
  | message map => exact inv_received h map

/-- In every run, by induction on its events. -/
theorem inv_run {s : St} (h : Inv s) (es : List Event) : Inv (run s es) := by
  induction es generalizing s with
  | nil => exact h
  | cons e es ih => exact ih (inv_step h e)

/-! ## Timeouts -/

/-- A turn of the loop finds the response, or there is still time. -/
def InTime (s : St) : Event → Prop
  | .wake i now => ∀ st, s.phase i = .waiting st → (s.responseMap i).isSome = true ∨ now - st ≤ timeout
  | _ => True

/-- Every turn of the run does. -/
def AllInTime : St → List Event → Prop
  | _, [] => True
  | s, e :: es => InTime s e ∧ AllInTime (step s e) es

/-- A phase that is changed to or from something else than a timeout. -/
theorem timedOut_update {s s' : St} {i : Nat} {p : Phase} (hs : s'.phase = Function.update s.phase i p)
    (hbefore : ¬ TimedOut s i) (hp : p ≠ .returned none) : (∃ j, TimedOut s' j) ↔ ∃ j, TimedOut s j := by
  have hne : ∀ j, j ≠ i → (TimedOut s' j ↔ TimedOut s j) := fun j hj => by
    rw [TimedOut, TimedOut, hs, Function.update_of_ne hj]
  constructor
  · rintro ⟨j, hj⟩
    by_cases hji : j = i
    · subst hji
      rw [TimedOut, hs, Function.update_self] at hj
      exact absurd hj hp
    · exact ⟨j, (hne j hji).mp hj⟩
  · rintro ⟨j, hj⟩
    have hji : j ≠ i := by
      rintro rfl
      exact hbefore hj
    exact ⟨j, (hne j hji).mpr hj⟩

/-- A request runs into its timeout in a turn that is late, and in no other way; and what
has happened stays. -/
theorem timedOut_step {s : St} (h : Inv s) (e : Event) :
    (∃ i, TimedOut (step s e) i) ↔ (∃ i, TimedOut s i) ∨ ¬ InTime s e := by
  cases e with
  | request outTopic payload now =>
    simp only [InTime, not_true_eq_false, or_false, step]
    unfold request
    split
    · exact Iff.rfl
    · split
      · have habs : ¬ TimedOut s s.seq := by
          rw [TimedOut, (h.fresh s.seq (Nat.le_refl _)).1]
          nofun
        exact timedOut_update rfl habs nofun
      · exact Iff.rfl
  | message map =>
    simp only [InTime, not_true_eq_false, or_false, step]
    rcases received_cases s map with ⟨notifyArr, heq⟩ | ⟨i, pld, _, _, heq⟩
    · rw [heq]
      exact Iff.rfl
    · rw [heq]
      exact Iff.rfl
  | wake i now =>
    cases hp : s.phase i with
    | waiting st =>
      have hbefore : ¬ TimedOut s i := by
        rw [TimedOut, hp]
        nofun
      simp only [step, hp, waitTurn]
      cases hres : s.responseMap i with
      | some res =>
        have hin : InTime s (.wake i now) := fun _ _ => .inl (by rw [hres]; rfl)
        simp only [hin, not_true_eq_false, or_false]
        exact timedOut_update rfl hbefore nofun
      | none =>
        by_cases htime : timeout < now - st
        · have hlate : ¬ InTime s (.wake i now) := fun hin => by
            rcases hin st hp with hsome | hle
            · rw [hres] at hsome
              cases hsome
            · exact absurd htime (not_lt.mpr hle)
          simp only [htime, if_true, hlate, not_false_eq_true, or_true, iff_true]
          exact ⟨i, Function.update_self ..⟩
        · have hin : InTime s (.wake i now) := fun st' hst' => by
            rw [hp] at hst'
            cases hst'
            exact .inr (not_lt.mp htime)
          simp only [htime, if_false, hin, not_true_eq_false, or_false]
    | absent | returned =>
      have hin : InTime s (.wake i now) := fun st hst => by
        rw [hp] at hst
        cases hst
      simp only [step, hp, hin, not_true_eq_false, or_false]

theorem timedOut_run {s : St} (h : Inv s) (es : List Event) :
    (∃ i, TimedOut (run s es) i) ↔ (∃ i, TimedOut s i) ∨ ¬ AllInTime s es := by
  induction es generalizing s with
  | nil => simp [run, AllInTime]
  | cons e es ih =>
    rw [AllInTime, not_and_or, ← or_assoc, ← timedOut_step h e]
    exact ih (inv_step h e)

/-- Every response goes to the request it answers, and to no other. -/
structure Matched (s : St) : Prop where
  /-- a request returns what a message with its own number carried -/
  own : ∀ i e, s.phase i = .returned (some e) → Carries s i e
  /-- no message is the response to two requests -/
  once : ∀ i j e e', s.phase i = .returned (some e) → s.phase j = .returned (some e') → e.msg = e'.msg → i = j

theorem matched_of_inv {s : St} (h : Inv s) : Matched s where
  own i e he := (h.served i e he).1
  once i j e e' he he' hmsg := by
    obtain ⟨map, hmap, hresp⟩ := (h.served i e he).1
    obtain ⟨map', hmap', hresp'⟩ := (h.served j e' he').1
    rw [hmsg, hmap'] at hmap
    cases hmap
    rw [hresp'] at hresp
    exact (Prod.mk.inj (Option.some.inj hresp)).1.symm

/-- **Requests and responses are matched, and the tables are cleaned up exactly if no
request runs into its timeout.** -/
theorem requests_matched (es : List Event) :
    Matched (run St.new es) ∧ (Clean (run St.new es) ↔ AllInTime St.new es) := by
  have hinv := inv_run inv_new es
  refine ⟨matched_of_inv hinv, ?_⟩
  have hnew : ¬ ∃ i, TimedOut St.new i := by
    rintro ⟨i, hi⟩
    cases hi
  rw [clean_iff hinv, ← not_exists, timedOut_run inv_new es, not_or]
  constructor
  · rintro ⟨_, htime⟩
    exact not_not.mp htime
  · intro htime
    exact ⟨hnew, not_not.mpr htime⟩

/-- A response that comes after the timeout stays in `response_map`, and one that never
comes leaves the entry of `out_seq_map`. -/
theorem late_response_stays :
    let late : List Event := [.request (ascii "a/ac") (some (.str (ascii "x"))) 0, .wake 0 11]
    let response : Val := .obj [(ascii "seq", .num (.fin 0)), (ascii "pld", .str (ascii "y"))]
    (run St.new late).outSeqMap 0 = true ∧
      ((run St.new (late ++ [.message (some response)])).responseMap 0).isSome = true ∧
      (match (run St.new (late ++ [.message (some response)])).phase 0 with
        | .returned none => true
        | _ => false) = true := by
  decide +kernel

end ApApps.Cfgclient

import ApApps.Lib.Frames
import ApApps.Sandc.Client

/- The receive loop of sandc.lua over everything the server sends.

   `runInternal` is the routine `run_internal` alone, on what its calls of `se.read`
   return; the functions given to `set_callback` are assumed to return without touching
   the client. What it should do is said over the frames of the stream (`cut`), whatever
   the reads are: `react` is what the client does on a list of frames, `expected` what it
   does on a stream.

   `receives_iff`: the loop does that exactly if every frame it gets to has an id it
   knows, or none. -/
namespace ApApps.Sandc
open Incremental ApApps.Redis ApApps.Sand Exec

/-! ## The routine -/

/-- What `se.read` returns: data, an error, or both. -/
structure Read where
  data : Option Bytes
  rerr : Option Bytes

/-- `on_recv`: the error it returns. Every turn that goes on has shortened the buffer. -/
def onRecvLoop : Nat → M (Option Bytes)
  | 0 => pure none
  | fuel + 1 => do
    match onRecv (← get).data with
    | .error e => throw e
    | .ok .idle => pure none
    | .ok (.handled rest out) => do
      modify fun s => { s with data := rest, log := s.log ++ out }
      onRecvLoop fuel
    | .ok (.fail rest err) => do
      modify fun s => { s with data := rest }
      pure (some err)

/-- An error of `se.read` that ends the loop. -/
def Read.fatal (r : Read) : Option Bytes := r.rerr.filter (· ≠ ascii "TIMEOUT")

/-- The body of the loop of `run_internal`: whether it goes on. -/
def readTurn (r : Read) : M Bool := do
  modify fun s => { s with data := s.data ++ r.data.getD [] }
  match ← onRecvLoop (← get).data.length with
  | some err => do
    closeClient err
    pure false
  | none =>
    match r.fatal with
    | some rerr => do
      closeClient rerr
      pure false
    | none => pure true

/-- `run_internal`, as long as `se.read` returns. -/
def runInternal : List Read → M Unit
  | [] => pure ()
  | r :: reads => do
    if (← get).state = .stStop then pure ()
    else match (← get).client with
      | none => throw (.badArgument "read")
      | some _ => do
        if ← readTurn r then runInternal reads else pure ()

/-! ## What a stream should do -/

/-- The fields of a frame, if they are well formed. -/
def fieldsOf (frame : Bytes) : Option Fields :=
  match checkarr (redisParseReply frame).1 with
  | .ok true => (tomap (redisParseReply frame).1).toOption
  | _ => none

/-- The client knows the id of the frame, if it has one. -/
def knownId (frame : Bytes) : Bool :=
  match (fieldsOf frame).bind (·.get "id") with
  | none => true
  | some id => id = ascii "pb" || id = ascii "ca" || id = ascii "po"

inductive Reaction where
  | call (out : List Out)
  | close (err : Bytes)

/-- What the fields of a frame make the client do. -/
def reactionOf (map : Fields) : Reaction :=
  if map.get "id" = some (ascii "pb") then .call [.onMessage (map.get "tp") (map.get "pl")]
  else if map.get "id" = some (ascii "ca") then
    if ((map.get "st").bind tonumber).any dispatch.isZero && (map.get "da").isSome then .call [.onConnect]
    else .close ((map.get "data").getD (ascii "undefined"))
  else .call []

/-- What a frame makes the client do. -/
def reaction (frame : Bytes) : Reaction :=
  match fieldsOf frame with
  | none => .close (ascii "data error")
  | some map => reactionOf map

/-- What a list of frames makes the client do, and why it closes the connection, if it does. -/
def react : List Bytes → List Out × Option Bytes
  | [] => ([], none)
  | f :: fs =>
    match reaction f with
    | .call out => (out ++ (react fs).1, (react fs).2)
    | .close err => ([], some err)

/-- The frames the client gets to. -/
def reached : List Bytes → List Bytes
  | [] => []
  | f :: fs =>
    match reaction f with
    | .call _ => f :: reached fs
    | .close _ => [f]

/-- Why the connection is closed for what has been received. -/
def stopErr (frames : List Bytes × Rest UInt8) : Option Bytes :=
  match (react frames.1).2, frames.2 with
  | some err, _ => some err
  | none, .broken => some (ascii "parse error")
  | none, .waiting _ => none

/-- `close_client`, from outside. -/
def closing (fd : Fd) : Option Bytes → List Out
  | none => []
  | some err => [.closed fd, .onDisconnect 1 err]

/-- What a stream makes the client do, if `fatal` is the error that ends it. -/
def expected (fd : Fd) (data : Bytes) (fatal : Option Bytes) : List Out :=
  (react (cut redisParseReady data).1).1 ++ closing fd ((stopErr (cut redisParseReady data)).or fatal)

/-- The stream the reads are parts of, and the error that ends it. -/
def stream : List Read → Bytes × Option Bytes
  | [] => ([], none)
  | r :: reads =>
    match r.fatal with
    | some rerr => (r.data.getD [], some rerr)
    | none => (r.data.getD [] ++ (stream reads).1, (stream reads).2)

/-! ## Frames, one after the other -/

theorem react_append {fs : List Bytes} (h : (react fs).2 = none) (gs : List Bytes) :
    react (fs ++ gs) = ((react fs).1 ++ (react gs).1, (react gs).2) ∧ reached (fs ++ gs) = fs ++ reached gs ∧
      reached fs = fs := by
  induction fs with
  | nil => exact ⟨by simp [react], by simp, rfl⟩
  | cons f fs ih =>
    simp only [react] at h
    cases hr : reaction f with
    | call out =>
      rw [hr] at h
      obtain ⟨h1, h2, h3⟩ := ih h
      simp only [List.cons_append, react, reached, hr, h1, h2, h3, List.append_assoc]
      exact ⟨trivial, trivial, trivial⟩
    | close err =>
      rw [hr] at h
      cases h

theorem react_stopped {fs : List Bytes} {err : Bytes} (h : (react fs).2 = some err) (gs : List Bytes) :
    react (fs ++ gs) = react fs ∧ reached (fs ++ gs) = reached fs := by
  induction fs with
  | nil => cases h
  | cons f fs ih =>
    simp only [react] at h
    cases hr : reaction f with
    | call out =>
      rw [hr] at h
      obtain ⟨h1, h2⟩ := ih h
      simp only [List.cons_append, react, reached, hr, h1, h2]
      exact ⟨trivial, trivial⟩
    | close err => simp only [List.cons_append, react, reached, hr, and_self]

/-- The fields of a whole frame, wherever it stands, and what `checkarr` and `tomap` say to it. -/
theorem fieldsOf_frame (f : Frame) (q : Bytes) :
    (checkarr (redisParseReply (f.bytes ++ q)).1 = .ok false ∧ fieldsOf f.bytes = none) ∨
      ∃ map, checkarr (redisParseReply (f.bytes ++ q)).1 = .ok true ∧
        tomap (redisParseReply (f.bytes ++ q)).1 = .ok map ∧ fieldsOf f.bytes = some map := by
  have hself : redisParseReply f.bytes = (f.reply, MULTI_BULK_REPLY) := by
    have h := redisParseReply_frame f []
    rwa [List.append_nil] at h
  unfold fieldsOf
  rw [redisParseReply_frame, hself]
  by_cases hneg : headerValue cInt f.digits = -1
  · left
    simp only [Frame.reply, hneg, if_true, checkarr]
    exact ⟨trivial, trivial⟩
  · simp only [Frame.reply_texts hneg, checkarr_strings, tomap_strings]
    cases (f.elems.map Element.text).all fun s => decide (3 ≤ s.length) with
    | false => exact .inl ⟨rfl, rfl⟩
    | true => exact .inr ⟨_, rfl, rfl, rfl⟩

/-- How `on_recv` does that; `rest` is what it leaves in the buffer. -/
def Reaction.recv (rest : Bytes) : Reaction → Recv
  | .call out => .handled rest out
  | .close err => .fail rest err

theorem dispatch_known {map : Fields} (rest : Bytes) (hid : ∀ id, map.get "id" = some id →
    id = ascii "pb" ∨ id = ascii "ca" ∨ id = ascii "po") :
    dispatch rest map = .ok ((reactionOf map).recv rest) := by
  have hca : ascii "ca" ≠ ascii "pb" := by decide
  have hpo : ascii "po" ≠ ascii "pb" := by decide
  have hpo' : ascii "po" ≠ ascii "ca" := by decide
  unfold dispatch reactionOf
  cases hget : map.get "id" with
  | none => rfl
  | some id =>
    rcases hid id hget with rfl | rfl | rfl
    · simp only [if_true, Reaction.recv]
    · simp only [Option.some.injEq, hca, if_true, if_false]
      split <;> rfl
    · simp only [Option.some.injEq, hpo, hpo', if_true, if_false, Reaction.recv]

/-- A turn of `on_recv` on a frame whose id it knows does what the frame asks for. -/
theorem onRecv_known {data : Bytes} {p : Nat} (h : redisParseReady data = .done p)
    (hid : knownId (data.take p) = true) :
    ∃ rest, onRecv data = .ok ((reaction (data.take p)).recv rest) ∧
      ∀ out, reaction (data.take p) = .call out → rest = data.drop p := by
  obtain ⟨f, q, rfl, rfl⟩ := redisParseReady_eq_done_iff.mp h
  have hne : f.bytes ++ q ≠ [] := by simp [Frame.bytes]
  rw [List.take_left] at hid ⊢
  unfold onRecv
  rw [if_neg hne, h]
  rcases fieldsOf_frame f q with ⟨hcheck, hf⟩ | ⟨map, hcheck, hmap, hf⟩
  · refine ⟨f.bytes ++ q, ?_, ?_⟩
    · simp only [reaction, hf, hcheck]
      rfl
    · intro out hout
      simp only [reaction, hf] at hout
      cases hout
  · refine ⟨q, ?_, fun _ _ => List.drop_left.symm⟩
    simp only [reaction, hcheck, hmap, hf, List.drop_left]
    refine dispatch_known q fun id hget => ?_
    simpa only [knownId, hf, Option.bind_some, hget, Bool.or_eq_true, decide_eq_true_eq, or_assoc] using hid

/-- A frame with another id raises. -/
theorem onRecv_unknown {data : Bytes} {p : Nat} (h : redisParseReady data = .done p)
    (hid : knownId (data.take p) = false) : ∃ e, onRecv data = .error e := by
  obtain ⟨f, q, rfl, rfl⟩ := redisParseReady_eq_done_iff.mp h
  have hne : f.bytes ++ q ≠ [] := by simp [Frame.bytes]
  rw [List.take_left] at hid
  unfold onRecv
  rw [if_neg hne, h]
  rcases fieldsOf_frame f q with ⟨_, hf⟩ | ⟨map, hcheck, hmap, hf⟩
  · simp [knownId, hf] at hid
  · simp only [hcheck, hmap, List.drop_left]
    show ∃ e, dispatch q map = .error e
    unfold dispatch
    cases hget : map.get "id" with
    | none => simp [knownId, hf, hget] at hid
    | some id =>
      simp only [knownId, hf, Option.bind_some, hget, Bool.or_eq_false_iff, decide_eq_false_iff_not] at hid
      simp only [if_neg hid.1.1, if_neg hid.1.2, if_neg hid.2]
      exact ⟨_, rfl⟩

/-! ## The loop -/

/-- The client after it has taken frames off its buffer. -/
def Cli.received (s : Cli) (rest : Bytes) (out : List Out) : Cli := { s with data := rest, log := s.log ++ out }

theorem Cli.received_nil (s : Cli) (rest : Bytes) : s.received rest [] = { s with data := rest } := by
  simp [Cli.received]

theorem Cli.received_received (s : Cli) (rest rest' : Bytes) (out out' : List Out) :
    (s.received rest out).received rest' out' = s.received rest' (out ++ out') := by
  simp [Cli.received]

/-- One turn of `on_recv`. -/
theorem onRecvLoop_succ (fuel : Nat) (s : Cli) :
    onRecvLoop (fuel + 1) s =
      match onRecv s.data with
      | .error e => .error e s
      | .ok .idle => .ok none s
      | .ok (.handled rest out) => onRecvLoop fuel (s.received rest out)
      | .ok (.fail rest err) => .ok (some err) { s with data := rest } := by
  rw [onRecvLoop, bind_of_ok (get_ok s)]
  cases onRecv s.data with
  | error e => rfl
  | ok r =>
    cases r with
    | idle => rfl
    | handled rest out => exact bind_of_ok (modify_ok _ s)
    | fail rest err => exact bind_of_ok (modify_ok _ s)

/-- What the loop over a buffer with these frames should do. -/
def Drains (s : Cli) (fuel : Nat) (frames : List Bytes × Rest UInt8) : Prop :=
  ((∀ f ∈ reached frames.1, knownId f = true) →
    ∃ rest, onRecvLoop fuel s = .ok (stopErr frames) (s.received rest (react frames.1).1) ∧
      (stopErr frames = none → frames.2 = .waiting rest)) ∧
  ((∃ f ∈ reached frames.1, knownId f = false) → ∃ e s', onRecvLoop fuel s = .error e s')

/-- A buffer without a frame. -/
theorem Drains.none_whole {s : Cli} {fuel : Nat} {r : Rest UInt8} (rest : Bytes)
    (h : onRecvLoop fuel s = .ok (stopErr ([], r)) (s.received rest []))
    (hrest : stopErr ([], r) = none → r = .waiting rest) : Drains s fuel ([], r) := by
  refine ⟨fun _ => ⟨rest, h, hrest⟩, ?_⟩
  rintro ⟨f, hf, _⟩
  cases hf

/-- **`on_recv`** does what the frames of its buffer ask for, or raises. -/
theorem onRecvLoop_cut (fuel : Nat) (s : Cli) (hfuel : s.data.length ≤ fuel) :
    Drains s fuel (cut redisParseReady s.data) := by
  induction fuel generalizing s with
  | zero =>
    have hnil : s.data = [] := List.eq_nil_of_length_eq_zero (by omega)
    rw [hnil]
    refine .none_whole [] ?_ fun _ => rfl
    rw [Cli.received_nil, ← hnil]
    rfl
  | succ fuel ih =>
    by_cases hnil : s.data = []
    · rw [hnil]
      refine .none_whole [] ?_ fun _ => rfl
      rw [onRecvLoop_succ, onRecv, if_pos hnil, Cli.received_nil, ← hnil]
      rfl
    · rw [cut_step stableVerdict_redisParseReady hnil]
      cases hv : redisParseReady s.data with
      | incomplete =>
        refine .none_whole s.data ?_ fun _ => rfl
        rw [onRecvLoop_succ, onRecv, if_neg hnil, hv, Cli.received_nil]
        rfl
      | invalid =>
        refine .none_whole s.data ?_ fun h => by cases h
        rw [onRecvLoop_succ, onRecv, if_neg hnil, hv, Cli.received_nil]
        rfl
      | done p =>
        have hpos := stableVerdict_redisParseReady.ready_pos hv
        have hle := stableVerdict_redisParseReady.ready_le hv
        simp only
        cases hid : knownId (s.data.take p) with
        | false =>
          have hmem : s.data.take p ∈ reached (s.data.take p :: (cut redisParseReady (s.data.drop p)).1) := by
            rw [reached]
            split <;> exact List.mem_cons_self
          refine ⟨fun h => ?_, fun _ => ?_⟩
          · rw [h _ hmem] at hid
            cases hid
          · obtain ⟨e, he⟩ := onRecv_unknown hv hid
            exact ⟨e, s, by rw [onRecvLoop_succ, he]⟩
        | true =>
          obtain ⟨rest, hrecv, hrest⟩ := onRecv_known hv hid
          cases hr : reaction (s.data.take p) with
          | close err =>
            rw [hr] at hrecv
            refine ⟨fun _ => ⟨rest, ?_, ?_⟩, ?_⟩
            · simp only [stopErr, react, hr]
              rw [onRecvLoop_succ, hrecv, Cli.received_nil]
              rfl
            · simp only [stopErr, react, hr]
              exact fun h => by cases h
            · simp only [reached, hr]
              rintro ⟨f, hf, hfid⟩
              rw [List.mem_singleton.mp hf, hid] at hfid
              cases hfid
          | call out =>
            rw [hr] at hrecv
            obtain rfl := hrest out hr
            have hlen : (s.received (s.data.drop p) out).data.length ≤ fuel := by
              show (s.data.drop p).length ≤ fuel
              rw [List.length_drop]
              omega
            obtain ⟨hgood, hbad⟩ := ih (s.received (s.data.drop p) out) hlen
            have hturn : onRecvLoop (fuel + 1) s = onRecvLoop fuel (s.received (s.data.drop p) out) := by
              rw [onRecvLoop_succ, hrecv]
              rfl
            refine ⟨fun hknown => ?_, fun hunknown => ?_⟩
            · simp only [reached, hr, List.forall_mem_cons] at hknown
              obtain ⟨rest, heq, hwait⟩ := hgood hknown.2
              refine ⟨rest, ?_, ?_⟩
              · rw [hturn, heq, Cli.received_received]
                simp only [stopErr, react, hr]
                rfl
              · simp only [stopErr, react, hr]
                exact hwait
            · simp only [reached, hr, List.exists_mem_cons_iff, hid, Bool.true_eq_false, false_or] at hunknown
              rw [hturn]
              exact hbad hunknown

/-! ## The routine -/

/-- Which frames of a stream the client gets to. -/
def reachedOf (data : Bytes) : List Bytes := reached (cut redisParseReady data).1

/-- What has been received decides, if it closes the connection. -/
theorem expected_stopped {data err : Bytes} (h : stopErr (cut redisParseReady data) = some err) (fd : Fd)
    (t : Bytes) (fatal fatal' : Option Bytes) :
    expected fd (data ++ t) fatal' = expected fd data fatal ∧ reachedOf (data ++ t) = reachedOf data := by
  unfold expected reachedOf
  rw [cut_append stableVerdict_redisParseReady]
  cases hcut : cut redisParseReady data with
  | mk fs r =>
    rw [hcut] at h
    cases r with
    | waiting rest =>
      cases hstop : (react fs).2 with
      | none => simp [stopErr, hstop] at h
      | some err' =>
        obtain ⟨hreact, hreached⟩ := react_stopped hstop (cut redisParseReady (rest ++ t)).1
        simp only [stopErr, hreact, hreached, hstop, Option.some_or, and_self]
    | broken =>
      cases hstop : (react fs).2 <;> simp only [stopErr, hstop, Option.some_or, and_self]

/-- Otherwise it goes on with what has not been taken off the buffer. -/
theorem expected_waiting {data rest : Bytes} (h : stopErr (cut redisParseReady data) = none)
    (hrest : (cut redisParseReady data).2 = .waiting rest) (fd : Fd) (t : Bytes) (fatal : Option Bytes) :
    expected fd (data ++ t) fatal = (react (cut redisParseReady data).1).1 ++ expected fd (rest ++ t) fatal ∧
      reachedOf (data ++ t) = reachedOf data ++ reachedOf (rest ++ t) := by
  unfold expected reachedOf
  rw [cut_append stableVerdict_redisParseReady]
  cases hcut : cut redisParseReady data with
  | mk fs r =>
    rw [hcut] at h hrest
    subst hrest
    cases hstop : (react fs).2 with
    | some err => simp [stopErr, hstop] at h
    | none =>
      obtain ⟨hreact, hreached, hall⟩ := react_append hstop (cut redisParseReady (rest ++ t)).1
      simp only [stopErr, hreact, hreached, hall, List.append_assoc, and_self]

theorem waiting_of_not_stopped {frames : List Bytes × Rest UInt8} (h : stopErr frames = none) :
    ∃ rest, frames.2 = .waiting rest := by
  unfold stopErr at h
  cases hr : (react frames.1).2 with
  | some err =>
    rw [hr] at h
    cases h
  | none =>
    rw [hr] at h
    cases hf : frames.2 with
    | waiting rest => exact ⟨rest, rfl⟩
    | broken =>
      rw [hf] at h
      cases h

theorem mem_reachedOf_append {data f : Bytes} (h : f ∈ reachedOf data) (t : Bytes) : f ∈ reachedOf (data ++ t) := by
  cases hstop : stopErr (cut redisParseReady data) with
  | some err => rwa [(expected_stopped hstop 0 t none none).2]
  | none =>
    obtain ⟨rest, hrest⟩ := waiting_of_not_stopped hstop
    rw [(expected_waiting hstop hrest 0 t none).2]
    exact List.mem_append_left _ h

/-- What the first read brings is the beginning of the stream. -/
theorem stream_cons (r : Read) (reads : List Read) :
    stream (r :: reads) =
      (r.data.getD [] ++ (if r.fatal.isSome then [] else (stream reads).1), r.fatal.or (stream reads).2) := by
  rw [stream]
  cases r.fatal <;> simp

/-- A turn of `run_internal`, by what `on_recv` returns. -/
theorem readTurn_eq {s s1 : Cli} {r : Read} {err : Option Bytes} {fd : Fd}
    (h : onRecvLoop (s.data ++ r.data.getD []).length { s with data := s.data ++ r.data.getD [] } = .ok err s1)
    (hc : s1.client = some fd) :
    readTurn r s =
      match err.or r.fatal with
      | some err => .ok false (s1.torn fd (.onDisconnect 1 err))
      | none => .ok true s1 := by
  unfold readTurn
  rw [bind_of_ok (modify_ok _ s), bind_of_ok (get_ok _), bind_of_ok h]
  cases err with
  | some err => exact bind_of_ok (closeClient_eq hc err)
  | none =>
    simp only [Option.none_or]
    cases r.fatal with
    | some rerr => exact bind_of_ok (closeClient_eq hc rerr)
    | none => rfl

theorem runInternal_cons {s : Cli} {fd : Fd} (hc : s.client = some fd) (hrun : s.state ≠ .stStop) (r : Read)
    (reads : List Read) :
    runInternal (r :: reads) s = (readTurn r >>= fun more => if more then runInternal reads else pure ()) s := by
  rw [runInternal, bind_of_ok (get_ok s), if_neg hrun, bind_of_ok (get_ok s), hc]

/-- The client does with the reads what the stream should make it do. -/
def Receives (fd : Fd) (reads : List Read) (s : Cli) : Prop :=
  ∃ s', runInternal reads s = .ok () s' ∧
    s'.log = s.log ++ expected fd (s.data ++ (stream reads).1) (stream reads).2

/-- From any turn on; no whole frame is left in the buffer between the turns. -/
theorem receives_from {s : Cli} {fd : Fd} (hc : s.client = some fd) (hrun : s.state ≠ .stStop)
    (hdata : cut redisParseReady s.data = ([], .waiting s.data)) (reads : List Read) :
    Receives fd reads s ↔ ∀ f ∈ reachedOf (s.data ++ (stream reads).1), knownId f = true := by
  induction reads generalizing s with
  | nil =>
    have hnone : expected fd s.data none = [] := by
      unfold expected
      rw [hdata]
      rfl
    refine iff_of_true ⟨s, rfl, ?_⟩ ?_
    · rw [stream, List.append_nil, hnone, List.append_nil]
    · rw [stream, List.append_nil, reachedOf, hdata]
      intro f hf
      cases hf
  | cons r reads ih =>
    have hturn := runInternal_cons hc hrun r reads
    obtain ⟨hgood, hbad⟩ := onRecvLoop_cut (s.data ++ r.data.getD []).length
      { s with data := s.data ++ r.data.getD [] } (Nat.le_refl _)
    simp only at hgood hbad
    by_cases hknown : ∀ f ∈ reachedOf (s.data ++ r.data.getD []), knownId f = true
    · obtain ⟨rest, hloop, hwait⟩ := hgood hknown
      have hread := readTurn_eq hloop hc
      cases hstop : stopErr (cut redisParseReady (s.data ++ r.data.getD [])) with
      | some err =>
        -- the frames received so far close the connection
        have hexp := expected_stopped hstop fd
        rw [hstop, Option.some_or] at hread
        refine iff_of_true ⟨_, by rw [hturn, bind_of_ok hread]; rfl, ?_⟩ ?_
        · rw [stream_cons, ← List.append_assoc, (hexp _ none _).1, expected, hstop]
          simp [Cli.torn, Cli.received, closing]
        · rw [stream_cons, ← List.append_assoc, (hexp _ none none).2]
          exact hknown
      | none =>
        rw [hstop, Option.none_or] at hread
        cases hfatal : r.fatal with
        | some rerr =>
          -- the error does
          rw [hfatal] at hread
          refine iff_of_true ⟨_, by rw [hturn, bind_of_ok hread]; rfl, ?_⟩ ?_
          · rw [stream_cons, hfatal, Option.isSome_some, if_pos rfl, List.append_nil, expected, hstop]
            simp [Cli.torn, Cli.received, closing]
          · rw [stream_cons, hfatal, Option.isSome_some, if_pos rfl, List.append_nil]
            exact hknown
        | none =>
          rw [hfatal] at hread
          obtain hrest := hwait hstop
          have hih := ih (s := Cli.received { s with data := s.data ++ r.data.getD [] } rest
            (react (cut redisParseReady (s.data ++ r.data.getD [])).1).1) hc hrun
            (cut_waiting stableVerdict_redisParseReady hrest)
          have hgo : runInternal (r :: reads) s = runInternal reads (Cli.received
              { s with data := s.data ++ r.data.getD [] } rest
              (react (cut redisParseReady (s.data ++ r.data.getD [])).1).1) := by
            rw [hturn, bind_of_ok hread]
            rfl
          obtain ⟨hexp, hreached⟩ := expected_waiting hstop hrest fd (stream reads).1 (stream reads).2
          have hstream : stream (r :: reads) = (r.data.getD [] ++ (stream reads).1, (stream reads).2) := by
            rw [stream_cons, hfatal]
            rfl
          unfold Receives at hih ⊢
          rw [hgo, hstream, ← List.append_assoc, hexp, hreached, List.forall_mem_append, and_iff_right hknown,
            ← List.append_assoc]
          exact hih
    · have hraise : ¬Receives fd (r :: reads) s := by
        rintro ⟨s', hs', _⟩
        have hunknown : ∃ f ∈ reachedOf (s.data ++ r.data.getD []), knownId f = false := by
          by_contra hall
          refine hknown fun f hf => ?_
          by_contra hid
          exact hall ⟨f, hf, by simpa using hid⟩
        obtain ⟨e, s1, he⟩ := hbad hunknown
        have hread : readTurn r s = .error e s1 := by
          unfold readTurn
          rw [bind_of_ok (modify_ok _ s), bind_of_ok (get_ok _)]
          exact bind_of_error he
        rw [hturn, bind_of_error hread] at hs'
        cases hs'
      refine iff_of_false hraise fun hall => hknown fun f hf => hall f ?_
      rw [stream_cons, ← List.append_assoc]
      exact mem_reachedOf_append hf _

/-- **When the client copes with a stream.** Cut in whatever way, the stream makes the client
do what its frames ask for, exactly if every frame it gets to has an id it knows, or none. -/
theorem receives_iff {s : Cli} {fd : Fd} (hc : s.client = some fd) (hrun : s.state ≠ .stStop)
    (hdata : s.data = []) (reads : List Read) :
    Receives fd reads s ↔ ∀ f ∈ reachedOf (stream reads).1, knownId f = true := by
  have h := receives_from hc hrun (by rw [hdata]; rfl) reads
  rwa [hdata, List.nil_append] at h

/-- A client that is connected. -/
def connectedClient : Cli :=
  { Cli.new ⟨ascii "c", none, none, ascii "v0.1", none, [], none, none, none, none⟩ with
    client := some 3, state := .stRun, isOpen := true }

/-- A publication that comes in two parts, then a frame without an id, then the end. -/
def goodReads : List Read :=
  [⟨some (ascii "*3\r\n$4\r\nidpb\r\n$3\r\nt"), none⟩, ⟨none, some (ascii "TIMEOUT")⟩,
    ⟨some (ascii "pa\r\n$3\r\nplz\r\n*1\r\n+abc\r\n"), some (ascii "EOF")⟩]

theorem receives_iff_good :
    Receives 3 goodReads connectedClient ↔ ∀ f ∈ reachedOf (stream goodReads).1, knownId f = true :=
  receives_iff rfl (by decide) rfl goodReads

/-- An id the client does not know. -/
def strangeReads : List Read := [⟨some (ascii "*1\r\n$4\r\nidxx\r\n"), none⟩]

/-- The frame is not skipped: the routine raises. -/
theorem strange_id_raises :
    (∃ e s', runInternal strangeReads connectedClient = .error e s') ∧ ¬Receives 3 strangeReads connectedClient := by
  have hraise : (returned (runInternal strangeReads connectedClient)).isNone = true := by decide +kernel
  cases hr : runInternal strangeReads connectedClient with
  | ok a s' =>
    rw [hr] at hraise
    cases hraise
  | error e s' =>
    refine ⟨⟨e, s', rfl⟩, ?_⟩
    rintro ⟨s1, hs1, _⟩
    rw [hr] at hs1
    cases hs1

end ApApps.Sandc

import ApApps.Bufio.Reader

/- What the calls of a reader make of a stream.

   `expected` says it without pieces: `read(n)` takes the next `n` bytes, `read_until(pat)`
   the shortest prefix that ends with `pat`, and once the stream has too little for a call,
   that call and all later ones fail. `calls_iff`: the reader does that exactly if no
   pattern it looks for is torn by the pieces. The search of `reader_read_until` sees one
   buffer at a time, so a torn pattern is passed over (`torn_pattern_missed`). -/
namespace ApApps.Bufio
open Exec Pieces

/-- A call with an argument the reader takes. -/
inductive Call where
  | read (n : Nat) (pos : 0 < n)
  | readUntil (pat : Bytes) (ne : pat ≠ [])

def Call.run : Call → M Answer
  | .read n _ => readerRead n
  | .readUntil pat _ => readerReadUntil pat

def runCalls : List Call → M (List Answer)
  | [] => pure []
  | c :: cs => do
    let answer ← c.run
    let answers ← runCalls cs
    pure (answer :: answers)

/-! ## What they should answer -/

/-- How many bytes of the stream answer the call, if it has them. -/
def Call.wants : Call → Bytes → Option Nat
  | .read n _, s => if n ≤ s.length then some n else none
  | .readUntil pat _, s => (findAt pat s).map (· + pat.length)

/-- The answers on a stream that ends with the error `e`. -/
def expected (e : Bytes) : List Call → Bytes → List Answer
  | [], _ => []
  | c :: cs, s =>
    match c.wants s with
    | some k => .ok (s.take k) :: expected e cs (s.drop k)
    | none => (c :: cs).map fun _ => .error (some e)

/-- `read_until` answers with the shortest prefix that ends with the pattern. -/
theorem wants_shortest {pat : Bytes} {hne : pat ≠ []} {s : Bytes} {k : Nat}
    (h : (Call.readUntil pat hne).wants s = some k) :
    pat <:+ s.take k ∧ ∀ t, t <+: s → pat <:+ t → k ≤ t.length := by
  obtain ⟨i, hi, rfl⟩ := Option.map_eq_some_iff.mp h
  exact findAt_shortest hi

/-- It fails only if no prefix does. -/
theorem wants_none {pat : Bytes} {hne : pat ≠ []} {s : Bytes} (h : (Call.readUntil pat hne).wants s = none) :
    ∀ t, t <+: s → ¬ pat <:+ t := by
  rintro t ⟨u, rfl⟩ ⟨v, rfl⟩
  have hno := findAt_eq_none.mp (Option.map_eq_none_iff.mp h) v.length (by simp)
  rw [List.append_assoc, List.drop_left] at hno
  exact hno (List.prefix_append pat u)

/-- The bytes of the answers that did not fail. -/
def received (answers : List Answer) : Bytes :=
  (answers.map fun a => match a with
    | .ok data => data
    | .error _ => []).flatten

/-- Successful answers are consecutive parts of the stream. -/
theorem received_expected (e : Bytes) (cs : List Call) (s : Bytes) : received (expected e cs s) <+: s := by
  induction cs generalizing s with
  | nil => exact List.nil_prefix
  | cons c cs ih =>
    simp only [expected]
    cases c.wants s with
    | none =>
      have hnil : received ((c :: cs).map fun _ => (.error (some e) : Answer)) = [] := by simp [received]
      rw [hnil]
      exact List.nil_prefix
    | some k =>
      have hrest := List.prefix_append_right_inj (s.take k) |>.mpr (ih (s.drop k))
      rwa [List.take_append_drop] at hrest

/-! ## What they answer -/

/-- The pattern a call looks for is not torn by the pieces. -/
def Call.InOnePiece : Call → List Bytes → Prop
  | .read _ _, _ => True
  | .readUntil pat _, ps => ∀ i, findAt pat ps.flatten = some i → Inside i pat.length ps

/-- No pattern is, in what the calls before have left. -/
def Unbroken : List Call → List Bytes → Prop
  | [], _ => True
  | c :: cs, ps => c.InOnePiece ps ∧ ∀ k, c.wants ps.flatten = some k → Unbroken cs (dropPieces k ps)

/-- What a call takes, one piece at a time. -/
def Call.takes : Call → List Bytes → Option Nat
  | .read n _, ps => if n ≤ ps.flatten.length then some n else none
  | .readUntil pat _, ps => collect (lookFind pat) () ps

theorem takes_eq_wants (c : Call) (ps : List Bytes) : c.takes ps = c.wants ps.flatten ↔ c.InOnePiece ps := by
  cases c with
  | read n pos => simp only [Call.takes, Call.wants, Call.InOnePiece]
  | readUntil pat ne => exact collect_find pat ps

theorem takes_le {c : Call} {ps : List Bytes} {k : Nat} (h : c.takes ps = some k) : k ≤ ps.flatten.length := by
  cases c with
  | read n pos =>
    simp only [Call.takes] at h
    split at h
    · next hle =>
      cases h
      exact hle
    · cases h
  | readUntil pat ne =>
    obtain ⟨i, rfl, hi⟩ := collect_find_inside h
    exact hi.le

theorem wants_le {c : Call} {s : Bytes} {k : Nat} (h : c.wants s = some k) : k ≤ s.length := by
  cases c with
  | read n pos =>
    simp only [Call.wants] at h
    split at h
    · next hle =>
      cases h
      exact hle
    · cases h
  | readUntil pat ne =>
    obtain ⟨i, hi, rfl⟩ := Option.map_eq_some_iff.mp h
    exact findAt_le hi

theorem wants_pos {c : Call} {s : Bytes} {k : Nat} (h : c.wants s = some k) : 0 < k := by
  cases c with
  | read n pos =>
    simp only [Call.wants] at h
    split at h
    · cases h
      exact pos
    · cases h
  | readUntil pat ne =>
    obtain ⟨i, _, rfl⟩ := Option.map_eq_some_iff.mp h
    have := List.length_pos_of_ne_nil ne
    show 0 < i + pat.length
    omega

section Run
variable {r : Reader} {p : Bytes} {ps : List Bytes} {e : Bytes}

theorem run_answers (c : Call) (h : r.At p ps e) : Answers (c.takes (p :: ps)) (p :: ps) e [] (c.run r) := by
  cases c with
  | read n pos => exact readerRead_answers h pos
  | readUntil pat ne => exact readerReadUntil_answers h ne

theorem run_failed (c : Call) (h : r.err = some e) : c.run r = .ok (.error (some e)) r := by
  cases c with
  | read n pos =>
    show readerRead n r = _
    unfold readerRead
    rw [if_pos pos, bind_of_ok (turns_ok r)]
    exact refillLoop_failed lookBytes h _ n []
  | readUntil pat ne =>
    show readerReadUntil pat r = _
    unfold readerReadUntil
    rw [bind_of_ok (turns_ok r)]
    exact refillLoop_failed (lookPattern pat) h _ () []

/-- The answers of several calls, by the first. -/
theorem runCalls_cons {c : Call} {a : Answer} {r' : Reader} (h : c.run r = .ok a r') (cs : List Call) :
    returned (runCalls (c :: cs) r) = (returned (runCalls cs r')).map (a :: ·) := by
  show returned ((c.run >>= fun a => runCalls cs >>= fun as => pure (a :: as)) r) = _
  rw [bind_of_ok h]
  cases hcs : runCalls cs r' with
  | ok as r'' =>
    rw [bind_of_ok hcs]
    rfl
  | error err r'' =>
    rw [bind_of_error hcs]
    rfl

/-- After a failure every call fails. -/
theorem runCalls_failed (cs : List Call) (h : r.err = some e) :
    returned (runCalls cs r) = some (cs.map fun _ => .error (some e)) := by
  induction cs with
  | nil => rfl
  | cons c cs ih => rw [runCalls_cons (run_failed c h), ih, Option.map_some, List.map_cons]

/-- By induction on the calls: the first one takes what it wants if its pattern is not
torn, and what it leaves are the pieces of the next. -/
theorem runCalls_iff (cs : List Call) (h : r.At p ps e) :
    returned (runCalls cs r) = some (expected e cs (p :: ps).flatten) ↔ Unbroken cs (p :: ps) := by
  induction cs generalizing r p ps with
  | nil => exact iff_of_true rfl trivial
  | cons c cs ih =>
    have hc := run_answers c h
    simp only [Unbroken, expected, ← takes_eq_wants]
    cases htakes : c.takes (p :: ps) with
    | some k =>
      rw [htakes] at hc
      obtain ⟨r', q, qs, hrun, hdrop, hat⟩ := hc
      rw [runCalls_cons hrun]
      cases hwants : c.wants (p :: ps).flatten with
      | some k' =>
        simp only [Option.some.injEq]
        constructor
        · intro heq
          obtain ⟨as, has, hcons⟩ := Option.map_eq_some_iff.mp heq
          obtain ⟨hhead, htail⟩ := List.cons.inj hcons
          have hk := congrArg List.length (Except.ok.inj hhead)
          rw [List.nil_append, List.length_take, List.length_take, Nat.min_eq_left (takes_le htakes),
            Nat.min_eq_left (wants_le hwants)] at hk
          subst hk
          refine ⟨rfl, fun j hj => ?_⟩
          cases hj
          rw [hdrop, ← ih hat, has, htail, ← flatten_dropPieces, hdrop]
        · rintro ⟨rfl, hrest⟩
          have hcs := (ih hat).mpr (hdrop ▸ hrest k rfl)
          rw [hcs, ← flatten_dropPieces, hdrop]
          rfl
      | none => simp
    | none =>
      rw [htakes] at hc
      obtain ⟨r', hrun, herr⟩ := hc
      rw [runCalls_cons hrun, runCalls_failed cs herr]
      cases hwants : c.wants (p :: ps).flatten with
      | some k' => simp
      | none => simp

end Run

theorem at_readerNew (fd : Nat) (initbuf : Bytes) (pieces : List Bytes) (fin : Bytes) :
    (readerNew fd initbuf pieces fin).At initbuf pieces fin :=
  have hfd : ¬ (fd : Int) < 0 := by omega
  ⟨open_readerNew fd initbuf pieces fin, if_neg hfd, if_neg hfd⟩

/-- Nothing is torn in one piece. -/
theorem unbroken_one (cs : List Call) (s : Bytes) : Unbroken cs [s] := by
  induction cs generalizing s with
  | nil => trivial
  | cons c cs ih =>
    refine ⟨?_, fun k hk => ?_⟩
    · cases c with
      | read n pos => trivial
      | readUntil pat ne =>
        intro i hi
        rw [List.flatten_cons, List.flatten_nil, List.append_nil] at hi
        exact .inl (findAt_le hi)
    · have hle := wants_le hk
      rw [List.flatten_cons, List.flatten_nil, List.append_nil] at hle
      rw [dropPieces, if_pos hle]
      exact ih (s.drop k)

/-- Nor if the piece comes after an empty buffer. -/
theorem unbroken_first (cs : List Call) (s : Bytes) : Unbroken cs [[], s] := by
  cases cs with
  | nil => trivial
  | cons c cs =>
    have h := unbroken_one (c :: cs) s
    refine ⟨?_, fun k hk => ?_⟩
    · cases c with
      | read n pos => trivial
      | readUntil pat ne => exact fun i hi => .inr ⟨Nat.zero_le i, h.1 i hi⟩
    · have hpos := wants_pos hk
      rw [dropPieces, if_neg (by simp only [List.length_nil]; omega)]
      exact h.2 k hk

/-- **Buffered reading does not depend on the pieces exactly if no pattern is torn.** If
the whole stream comes in one piece the calls answer as `expected`; in pieces they do if and
only if the first occurrence of each pattern lies inside one piece. -/
theorem calls_iff (cs : List Call) (fd : Nat) (initbuf : Bytes) (pieces : List Bytes) (fin : Bytes) :
    let stream := initbuf ++ pieces.flatten
    returned (runCalls cs (readerNew fd [] [stream] fin)) = some (expected fin cs stream) ∧
      (returned (runCalls cs (readerNew fd initbuf pieces fin)) = some (expected fin cs stream) ↔
        Unbroken cs (initbuf :: pieces)) := by
  intro stream
  refine ⟨?_, runCalls_iff cs (at_readerNew fd initbuf pieces fin)⟩
  have hone := (runCalls_iff cs (at_readerNew fd [] [stream] fin)).mpr (unbroken_first cs stream)
  rwa [List.flatten_cons, List.flatten_cons, List.flatten_nil, List.append_nil, List.nil_append] at hone

/-- A CRLF that comes in two pieces is not found, in one piece it is. -/
theorem torn_pattern_missed :
    returned (runCalls [.readUntil [CR, LF] (by decide)] (readerNew 3 [] [ascii "a\r", ascii "\nb"] (ascii "EOF"))) =
        some [.error (some (ascii "EOF"))] ∧
      returned (runCalls [.readUntil [CR, LF] (by decide)] (readerNew 3 [] [ascii "a\r\nb"] (ascii "EOF"))) =
        some [.ok (ascii "a\r\n")] := by
  decide +kernel

end ApApps.Bufio

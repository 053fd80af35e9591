import ApApps.Bufio.Alike
import ApApps.Nredis.RoundTrip

/- Replies that are read off a connection one after the other.

   `redis_read_object` is programmed with `read` and `read_until('\r\n')` alone, so it is
   `Steady`: as long as no piece of the stream ends between a CR and its LF, it does not
   matter how the replies are cut (`replies_of_untorn`), for any stream and not only for
   well-formed ones. With the round trip of one reply, what a server has written comes back
   reply by reply (`replies_in_order`). A torn CRLF is what `read_until` does not find
   (`torn_reply_lost`). -/
namespace ApApps.Nredis
open Exec Pieces ApApps.Bufio ApApps.Redis

/-- The line ends that the reader functions look for. -/
abbrev eol : Bytes := [CR, LF]

theorem eol_ne_nil : eol ≠ [] := by decide

/-! ## Every reader function is steady -/

theorem steady_line (make : Bytes → Obj) : Steady eol (readLine make) := by
  apply (steady_readUntil eol_ne_nil).bind
  intro answer
  cases answer with
  | error err => exact steady_pure _
  | ok line => exact steady_pure _

theorem steady_number : Steady eol redisReadNumber := by
  apply (steady_readUntil eol_ne_nil).bind
  intro answer
  cases answer with
  | error err => exact steady_pure _
  | ok line =>
    cases hnumber : tonumber (chomp line) with
    | none =>
      simp only [hnumber]
      exact steady_pure _
    | some number =>
      simp only [hnumber]
      exact steady_pure _

theorem steady_readNum (n : LuaNum) : Steady eol (readNum n) := by
  unfold readNum
  cases n with
  | int i => exact steady_read eol_ne_nil _
  | flt f =>
    cases f with
    | fin q =>
      by_cases hq : q.den = 1
      · simp only [if_pos hq]
        exact steady_read eol_ne_nil _
      · simp only [if_neg hq]
        apply (steady_read eol_ne_nil _).bind
        intro answer
        cases answer with
        | error err => exact steady_pure _
        | ok data => exact steady_throw _
    | inf => exact steady_never eol_ne_nil
    | ninf => exact steady_throw _
    | nan => exact steady_throw _

theorem steady_string : Steady eol redisReadString := by
  apply steady_number.bind
  intro answer
  cases answer with
  | error err => exact steady_pure _
  | ok len =>
    by_cases hneg : isNegative len = true
    · simp only [if_pos hneg]
      exact steady_pure _
    · simp only [if_neg hneg]
      apply (steady_readNum _).bind
      intro answer
      cases answer with
      | error err => exact steady_pure _
      | ok data =>
        by_cases hend : data.drop (data.length - 2) ≠ [CR, LF]
        · simp only [if_pos hend]
          exact steady_pure _
        · simp only [if_neg hend]
          exact steady_pure _

theorem steady_elems {readObject : M (Result Obj)} (h : Steady eol readObject) (n : Nat) (arr : List Obj) :
    Steady eol (readElems readObject n arr) := by
  induction n generalizing arr with
  | zero => exact steady_pure _
  | succ n ih =>
    apply h.bind
    intro answer
    cases answer with
    | error err => exact steady_pure _
    | ok obj => exact ih (arr ++ [obj])

theorem steady_array {readObject : M (Result Obj)} (h : Steady eol readObject) :
    Steady eol (redisReadArray readObject) := by
  apply steady_number.bind
  intro answer
  cases answer with
  | error err => exact steady_pure _
  | ok len =>
    by_cases hneg : isNegative len = true
    · simp only [if_pos hneg]
      exact steady_pure _
    · simp only [if_neg hneg]
      exact steady_elems h _ []

theorem steady_after {readObject : M (Result Obj)} (h : Steady eol readObject) (pfx : Bytes) :
    Steady eol (readAfter readObject pfx) := by
  unfold readAfter
  split
  · exact steady_line .status
  split
  · exact steady_line .error
  split
  · apply steady_number.bind
    intro answer
    cases answer with
    | error err => exact steady_pure _
    | ok number => exact steady_pure _
  split
  · exact steady_string
  split
  · exact steady_array h
  · exact steady_pure _

/-- **An object is read the same whatever the pieces**, by induction on its nesting. -/
theorem steady_object (fuel : Nat) : Steady eol (redisReadObject fuel) := by
  induction fuel with
  | zero => exact steady_pure _
  | succ fuel ih =>
    apply (steady_read eol_ne_nil 1).bind
    intro answer
    cases answer with
    | error err => exact steady_pure _
    | ok pfx => exact steady_after ih pfx

/-! ## One reply after the other -/

/-- `n` times `redis_read`, one call after the other. -/
def redisReads (fuel : Nat) : Nat → M (List (Result Obj))
  | 0 => pure []
  | n + 1 => do
    let obj ← redisReadObject fuel
    let objs ← redisReads fuel n
    pure (obj :: objs)

theorem steady_reads (fuel n : Nat) : Steady eol (redisReads fuel n) := by
  induction n with
  | zero => exact steady_pure _
  | succ n ih => exact (steady_object fuel).bind fun _ => ih.bind fun _ => steady_pure _

/-- **Replies do not depend on the pieces they come in**, if none of them ends between a CR
and its LF: for every stream, every number of reads and every nesting the reads return what
they return when the stream comes in one piece. -/
theorem replies_of_untorn (fd : Nat) {pieces : List Bytes} (h : Untorn eol pieces) (fin : Bytes) (fuel n : Nat) :
    returned (redisReads fuel n (readerNew fd [] pieces fin)) =
      returned (redisReads fuel n (readerNew fd [] [pieces.flatten] fin)) := by
  have hone : Untorn eol [[], pieces.flatten] := (untorn_single eol_ne_nil _).cons_nil
  exact (steady_reads fuel n).returned (alike_readerNew fd (by simp) h.cons_nil hone fin)

/-- A status, a string with a CRLF in it and an array, in five pieces. -/
def fivePieces : List Bytes :=
  [ascii "+O", ascii "K\r\n$4\r\na", ascii "\r\nb\r\n*2\r\n:", ascii "7\r\n$-1", ascii "\r\n"]

theorem replies_of_untorn_five :
    returned (redisReads 9 3 (readerNew 3 [] fivePieces (ascii "EOF"))) =
      returned (redisReads 9 3 (readerNew 3 [] [fivePieces.flatten] (ascii "EOF"))) :=
  replies_of_untorn 3 (by decide +kernel) (ascii "EOF") 9 3

/-- What has been formatted, one object after the other, is read back one by one. -/
theorem reads_all {objs : List Obj} (h : ∀ x ∈ objs, Sendable x) :
    ∃ text, formatElems objs = .ok text ∧ ∀ fuel, text.length ≤ fuel →
      Reads (redisReads fuel objs.length) text (objs.map .ok) := by
  induction objs with
  | nil => exact ⟨[], rfl, fun fuel _ => Reads.pure []⟩
  | cons x objs ih =>
    obtain ⟨t, ht, hx⟩ := sendable_reads (h x List.mem_cons_self)
    obtain ⟨u, hu, hrest⟩ := ih fun y hy => h y (List.mem_cons_of_mem x hy)
    refine ⟨t ++ u, by rw [formatElems, ht, hu]; rfl, fun fuel hfuel => ?_⟩
    rw [List.length_append] at hfuel
    exact (hx fuel (by omega)).bind ((hrest fuel (by omega)).bind_pure rfl)

/-- **What a server has written comes back reply by reply**, whatever the pieces, as long as
no CRLF is torn. -/
theorem replies_in_order {objs : List Obj} (h : ∀ x ∈ objs, Sendable x) :
    ∃ text, formatElems objs = .ok text ∧
      ∀ (fd : Nat) (pieces : List Bytes) (rest fin : Bytes) (fuel : Nat), pieces.flatten = text ++ rest →
        Untorn eol pieces → text.length ≤ fuel →
          returned (redisReads fuel objs.length (readerNew fd [] pieces fin)) = some (objs.map .ok) := by
  obtain ⟨text, htext, hreads⟩ := reads_all h
  refine ⟨text, htext, fun fd pieces rest fin fuel hstream huntorn hfuel => ?_⟩
  have hone : Untorn eol [text ++ rest] := untorn_single eol_ne_nil _
  have halike := alike_readerNew fd (by simp [hstream]) huntorn.cons_nil hone fin
  have hfd : ¬ (fd : Int) < 0 := by omega
  obtain ⟨r', hr', -⟩ := hreads fuel hfuel (readerNew fd (text ++ rest) [] fin) rest fin
    ⟨open_readerNew _ _ _ _, if_neg hfd, if_neg hfd⟩
  rw [(steady_reads fuel objs.length).returned halike, hr']
  rfl

theorem replies_in_order_three :
    ∃ text, formatElems [.status (ascii "OK"), .str (ascii "a\r\nb"), .arr [.num (.int 7), .bool false]] = .ok text ∧
      ∀ (fd : Nat) (pieces : List Bytes) (rest fin : Bytes) (fuel : Nat), pieces.flatten = text ++ rest →
        Untorn eol pieces → text.length ≤ fuel →
          returned (redisReads fuel 3 (readerNew fd [] pieces fin)) =
            some [.ok (.status (ascii "OK")), .ok (.str (ascii "a\r\nb")), .ok (.arr [.num (.int 7), .bool false])] := by
  apply replies_in_order
  intro x hx
  simp only [List.mem_cons, List.not_mem_nil, or_false] at hx
  rcases hx with rfl | rfl | rfl
  · exact .status ⟨by decide, by decide, by decide⟩
  · exact .str (by decide) (by decide)
  · refine .arr (by decide) fun y hy => ?_
    simp only [List.mem_cons, List.not_mem_nil, or_false] at hy
    rcases hy with rfl | rfl
    · exact .num (by decide) (by decide)
    · exact .null

/-- Two replies, the first one torn between CR and LF: they are read as one, and the second
read finds the stream at its end. -/
theorem torn_reply_lost :
    returned (redisReads 9 2 (readerNew 3 [] [ascii "+a\r", ascii "\n+b\r\n"] (ascii "EOF"))) =
        some [.ok (.status (ascii "a\r\n+b")), .error (some (ascii "EOF"))] ∧
      returned (redisReads 9 2 (readerNew 3 [] [ascii "+a\r\n+b\r\n"] (ascii "EOF"))) =
        some [.ok (.status (ascii "a")), .ok (.status (ascii "b"))] := by
  constructor
  · rfl
  · rfl

end ApApps.Nredis

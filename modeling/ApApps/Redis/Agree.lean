import ApApps.Redis.Frame

/- What a caller of redis-parser.c relies on when it calls `parse_reply` right after
   `parse_ready` and cuts the frame off its buffer. -/
namespace ApApps.Redis
open Incremental

/-- The number the `*` header of `s` announces. -/
def headerCount (s : Bytes) : Nat := decimalFrom 0 ((s.drop 1).takeWhile isDigit)

/-- A header that announces less than 2^31 elements is read as announced. -/
theorem headerValue_of_fits {ds : Bytes} (h : decimalFrom 0 ds < 2 ^ 31) :
    headerValue cInt ds = decimalFrom 0 ds :=
  foldl_wrap_of_fits 32 0 _ (by omega)

theorem Frame.headerCount_bytes [Target] (f : Frame) (q : Bytes) :
    headerCount (f.bytes ++ q) = decimalFrom 0 f.digits := by
  have htake : (f.digits ++ [CR, LF] ++ elementsBytes f.elems ++ q).takeWhile isDigit = f.digits := by
    rw [List.append_assoc, List.append_assoc, List.takeWhile_append_of_pos f.hdigits]
    simp [isDigit_cr]
  simp only [headerCount, Frame.bytes, List.cons_append, List.drop_succ_cons, List.drop_zero, htake]

/-- **The readiness check agrees with the reply parser.** Where `parse_ready` says
that the first `p` bytes of `s` are a frame, `parse_reply` gives an array of as many
strings as the header announces, stops at `p`, and looks at those bytes only. Only
the count has to fit its `int`; the `$` lengths may wrap around. -/
theorem parse_reply_of_parse_ready [Target] {s : Bytes} {p : Nat} (hcount : headerCount s < 2 ^ 31)
    (hready : redisParseReady s = .done p) :
    ∃ es : List Bytes,
      redisParseReply s = (.arr (es.map some), MULTI_BULK_REPLY) ∧
      es.length = headerCount s ∧
      (∀ t : Bytes, t.take p = s.take p → redisParseReply t = redisParseReply s) ∧
      (parseReplyHelper s).2.2 = s.drop p ∧
      0 < p ∧ p ≤ s.length := by
  obtain ⟨f, q, rfl, rfl⟩ := redisParseReady_eq_done_iff.mp hready
  rw [f.headerCount_bytes] at hcount
  have hval := headerValue_of_fits hcount
  have hreply := f.reply_texts (by omega)
  refine ⟨f.elems.map Element.text, ?_, ?_, ?_, ?_, ?_, ?_⟩
  · rw [redisParseReply_frame, hreply]
  · rw [List.length_map, f.hcount, hval, f.headerCount_bytes]
    omega
  · intro t ht
    rw [List.take_left] at ht
    have hsplit : t = f.bytes ++ t.drop f.bytes.length := by
      conv => lhs; rw [← List.take_append_drop f.bytes.length t, ht]
    rw [hsplit, redisParseReply_frame, redisParseReply_frame]
  · rw [parseReplyHelper_frame, List.drop_left]
  · exact stableVerdict_redisParseReady.ready_pos hready
  · exact stableVerdict_redisParseReady.ready_le hready

/-- A frame with a bulk and a line, and the first bytes of the next one. -/
theorem parse_reply_of_parse_ready_two :
    ∃ es : List Bytes,
      redisParseReply (ascii "*2\r\n$4\r\nidpb\r\n+tpa\r\n*1") = (.arr (es.map some), MULTI_BULK_REPLY) ∧
      es.length = headerCount (ascii "*2\r\n$4\r\nidpb\r\n+tpa\r\n*1") ∧
      (∀ t : Bytes, t.take 20 = (ascii "*2\r\n$4\r\nidpb\r\n+tpa\r\n*1").take 20 →
        redisParseReply t = redisParseReply (ascii "*2\r\n$4\r\nidpb\r\n+tpa\r\n*1")) ∧
      (parseReplyHelper (ascii "*2\r\n$4\r\nidpb\r\n+tpa\r\n*1")).2.2 =
        (ascii "*2\r\n$4\r\nidpb\r\n+tpa\r\n*1").drop 20 ∧
      0 < 20 ∧ 20 ≤ (ascii "*2\r\n$4\r\nidpb\r\n+tpa\r\n*1").length :=
  parse_reply_of_parse_ready (by decide) (by decide)

end ApApps.Redis

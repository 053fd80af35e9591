import ApApps.Redis.Ready

/- The frames redis-parser.c reads, as a format of its own.

   A frame is a header `*<digits>CR LF` and as many elements as the header says, an
   element a single line or a bulk `$<digits>CR LF <data> CR LF`. `Element` and
   `Frame` carry their well-formedness (the C value of the digits is the length of
   the data, the number of elements), so an ill-formed frame cannot be built.

   `redisParseReady_eq_done_iff`: the readiness check accepts a buffer exactly if it
   begins with a frame. `redisParseReply_frame`: the reply parser, which is written
   separately, reads the same frame: its elements, and the end of the frame. -/
namespace ApApps.Redis
open Incremental

/-! ## Elements -/

/-- The value of a header's digits in the C type `wrap`. -/
def headerValue (wrap : Int → Int) (ds : Bytes) : Int :=
  ds.foldl (fun a c => wrap (wrap (a * 10) + digitVal c)) 0

/-- An element of a frame. -/
inductive Element [Target] where
  /-- a line with no CR LF in `text` -/
  | line (mark : UInt8) (text : Bytes) (hmark : isLineMark mark = true)
      (htext : parseSingleLineReply (text ++ [CR, LF]) = text.length)
  /-- a bulk whose header gives the length of `data` -/
  | bulk (digits data : Bytes) (hdigits : ∀ c ∈ digits, isDigit c = true)
      (hsize : headerValue cSsize digits = data.length)

namespace Element

/-- The element on the wire. -/
def bytes [Target] : Element → Bytes
  | line mark text _ _ => mark :: (text ++ [CR, LF])
  | bulk digits data _ _ => ch '$' :: (digits ++ [CR, LF] ++ data ++ [CR, LF])

/-- The string the element stands for. -/
def text [Target] : Element → Bytes
  | line _ text _ _ => text
  | bulk _ data _ _ => data

end Element

theorem isLineMark_dollar : isLineMark (ch '$') = false := by decide

theorem isDigit_minus : isDigit (ch '-') = false := by decide

/-- The header loop on digits, CR and LF. -/
theorem lengthLoop_header (wrap : Int → Int) {ds : Bytes} (r : Bytes)
    (hds : ∀ c ∈ ds, isDigit c = true) :
    lengthLoop wrap 0 (ds ++ [CR, LF] ++ r) = .done (headerValue wrap ds, LF :: r) := by
  have hassoc : ds ++ [CR, LF] ++ r = ds ++ CR :: (LF :: r) := by simp
  rw [hassoc]
  exact lengthLoop_digits wrap 0 (LF :: r) hds

/-- Digits and CR LF do not begin with a `-`. -/
theorem header_ne_minus {ds r : Bytes} {c : UInt8} {s : Bytes} (hds : ∀ c ∈ ds, isDigit c = true)
    (h : ds ++ [CR, LF] ++ r = c :: s) : c ≠ ch '-' := by
  rintro rfl
  cases ds with
  | nil =>
    simp only [List.nil_append, List.cons_append, List.cons.injEq] at h
    exact absurd h.1 (by decide)
  | cons d ds =>
    simp only [List.cons_append, List.cons.injEq] at h
    have := hds d (by simp)
    rw [h.1, isDigit_minus] at this
    cases this

/-- `p += size` over the data of a bulk ends at its CR LF. -/
theorem drop_data (v q : Bytes) :
    ([CR, LF] ++ (v ++ [CR, LF] ++ q)).drop ((v.length : Int) + 2).toNat = CR :: LF :: q := by
  have hk : ((v.length : Int) + 2).toNat = ([CR, LF] ++ v).length := by
    simp only [List.length_append, List.length_cons, List.length_nil]
    omega
  rw [hk, List.append_assoc, ← List.append_assoc, List.drop_left]
  rfl

theorem drop_element (v q : Bytes) :
    (v ++ [CR, LF] ++ q).drop ((v.length : Int) + 2).toNat = q := by
  have hk : ((v.length : Int) + 2).toNat = (v ++ [CR, LF]).length := by
    simp only [List.length_append, List.length_cons, List.length_nil]
    omega
  rw [hk, List.drop_left]

theorem tooShort_data (v q : Bytes) : tooShort (v ++ [CR, LF] ++ q) v.length = false := by
  simp only [tooShort, Bool.or_eq_false_iff, decide_eq_false_iff_not, List.length_append,
    List.length_cons, List.length_nil]
  push_cast
  omega

/-- With length -1 the byte at `p + size` is the LF of the header. -/
theorem atCRLF_header_lf (p : Bytes) : atCRLF (([CR, LF] ++ p).drop ((-1 : Int) + 2).toNat) = false := by
  cases p with
  | nil => rfl
  | cons c p => rfl

theorem atCRLF_cons (q : Bytes) : atCRLF (CR :: LF :: q) = true := rfl

/-- An element that ends at its CR LF is left behind. -/
theorem finishElement_text (v q : Bytes) :
    finishElement v.length (v ++ [CR, LF] ++ q) = .done ((), q) := by
  unfold finishElement advance
  rw [if_neg (by omega), if_neg (by omega), if_neg, drop_element]
  simp only [List.length_append, List.length_cons, List.length_nil]
  omega

theorem parseBulkReply2_bulk [Target] {ds v : Bytes} (q : Bytes) (hds : ∀ c ∈ ds, isDigit c = true)
    (hsize : headerValue cSsize ds = v.length) :
    parseBulkReply2 (ds ++ [CR, LF] ++ (v ++ [CR, LF] ++ q)) =
      .done ((v.length : Int), v ++ [CR, LF] ++ q) := by
  cases hs : ds ++ [CR, LF] ++ (v ++ [CR, LF] ++ q) with
  | nil => simp at hs
  | cons c s =>
    simp only [parseBulkReply2, if_neg (header_ne_minus hds hs)]
    rw [← hs, lengthLoop_header cSsize _ hds, hsize]
    simp only [Scan.bind_done, expectLF, if_true, bulkData, tooShort_data, drop_data, atCRLF_cons,
      Bool.false_eq_true, if_false]

/-- **The check passes every element.** -/
theorem readyElement_element [Target] (e : Element) (q : Bytes) :
    readyElement (e.bytes ++ q) = .done ((), q) := by
  cases e with
  | line mark text hmark htext =>
    have hfound := parseSingleLineReply_found (s := text ++ [CR, LF]) (by rw [htext]; omega)
    simp only [Element.bytes, List.cons_append, readyElement, if_pos hmark]
    rw [hfound.2.2 q, htext]
    exact finishElement_text text q
  | bulk ds v hds hsize =>
    simp only [Element.bytes, List.cons_append, readyElement, isLineMark_dollar,
      Bool.false_eq_true, if_false, if_true]
    have hassoc : ds ++ [CR, LF] ++ v ++ [CR, LF] ++ q = ds ++ [CR, LF] ++ (v ++ [CR, LF] ++ q) := by
      simp only [List.append_assoc]
    rw [hassoc, parseBulkReply2_bulk q hds hsize]
    exact finishElement_text v q

/-- Where a line is found, it ends with CR LF. -/
theorem singleLine_split {seen_cr : Bool} {n : Nat} {s : Bytes} (h : singleLine seen_cr n s ≠ -2) :
    ∃ u q, s = u ++ LF :: q ∧ singleLine seen_cr n s = n + u.length - 1 ∧
      singleLine seen_cr n (u ++ [LF]) = singleLine seen_cr n s ∧
      (u.getLast? = some CR ∨ (u = [] ∧ seen_cr = true)) := by
  induction s generalizing seen_cr n with
  | nil => exact absurd rfl h
  | cons c s ih =>
    simp only [singleLine] at h ⊢
    split at h
    · rename_i hc
      obtain ⟨u, q, rfl, hlen, hsame, hlast⟩ := ih h
      refine ⟨c :: u, q, rfl, ?_, ?_, ?_⟩
      · rw [if_pos hc, hlen, List.length_cons]
        push_cast
        omega
      · simp only [List.cons_append, singleLine, if_pos hc]
        exact hsame
      · left
        rcases hlast with hlast | ⟨rfl, _⟩
        · rw [List.getLast?_cons, hlast]
          rfl
        · rw [hc]
          rfl
    · rename_i hc
      split at h
      · rename_i hlf
        refine ⟨[], s, by rw [hlf.2]; rfl, ?_, ?_, Or.inr ⟨rfl, hlf.1⟩⟩
        · rw [if_neg hc, if_pos hlf, List.length_nil]
          push_cast
          omega
        · rw [if_neg hc, if_pos hlf, List.nil_append, hlf.1]
          simp only [singleLine]
          rfl
      · rename_i hlf
        obtain ⟨u, q, rfl, hlen, hsame, hlast⟩ := ih h
        refine ⟨c :: u, q, rfl, ?_, ?_, ?_⟩
        · rw [if_neg hc, if_neg hlf, hlen, List.length_cons]
          push_cast
          omega
        · simp only [List.cons_append, singleLine, if_neg hc, if_neg hlf]
          exact hsame
        · left
          rcases hlast with hlast | ⟨_, hf⟩
          · rw [List.getLast?_cons, hlast]
            rfl
          · cases hf

/-- A line that is found is a text and CR LF. -/
theorem parseSingleLineReply_split {s : Bytes} (h : parseSingleLineReply s ≠ -2) :
    ∃ text q, s = text ++ [CR, LF] ++ q ∧
      parseSingleLineReply (text ++ [CR, LF]) = text.length := by
  obtain ⟨u, q, rfl, hlen, hsame, hlast | ⟨_, hf⟩⟩ := singleLine_split h
  · obtain ⟨text, rfl⟩ : ∃ text, u = text ++ [CR] := List.getLast?_eq_some_iff.mp hlast
    refine ⟨text, q, by simp, ?_⟩
    have happ : text ++ [CR, LF] = text ++ [CR] ++ [LF] := by simp
    unfold parseSingleLineReply
    rw [happ, hsame, hlen, List.length_append, List.length_singleton]
    push_cast
    omega
  · cases hf

theorem exists_of_atCRLF {p : Bytes} (h : atCRLF p = true) : ∃ q, p = CR :: LF :: q := by
  cases p with
  | nil => cases h
  | cons a p =>
    cases p with
    | nil => cases h
    | cons b q =>
      simp only [atCRLF, Bool.and_eq_true, decide_eq_true_eq] at h
      exact ⟨q, by rw [h.1, h.2]⟩

/-- A bulk the check reads is a header, its data and CR LF, unless the length
wrapped to -2, which the caller takes for "not yet". -/
theorem parseBulkReply2_split [Target] {src dst : Bytes} {dst_len : Int}
    (h : parseBulkReply2 src = .done (dst_len, dst)) (hne : dst_len ≠ -2) :
    ∃ ds v q, (∀ c ∈ ds, isDigit c = true) ∧ headerValue cSsize ds = v.length ∧
      dst_len = v.length ∧ dst = v ++ [CR, LF] ++ q ∧ src = ds ++ [CR, LF] ++ dst := by
  cases src with
  | nil => cases h
  | cons c src =>
    simp only [parseBulkReply2] at h
    split at h
    · cases h
    obtain ⟨⟨size, p⟩, hlen, h⟩ := Scan.bind_eq_done.mp h
    obtain ⟨⟨u, p'⟩, hlf, h⟩ := Scan.bind_eq_done.mp h
    obtain ⟨ds, hds, hsrc, hval⟩ := lengthLoop_eq_done hlen
    cases p with
    | nil => cases hlf
    | cons d p =>
      simp only [expectLF] at hlf
      split at hlf
      · rename_i hd
        simp only [Scan.done.injEq, Prod.mk.injEq, true_and] at hlf
        subst hlf hd
        unfold bulkData at h
        split at h
        · cases h
        rename_i hroom
        split at h
        · rename_i hcrlf
          simp only [Scan.done.injEq, Prod.mk.injEq] at h
          obtain ⟨rfl, rfl⟩ := h
          simp only [tooShort, Bool.or_eq_true, decide_eq_true_eq, not_or, not_lt] at hroom
          have hm1 : size ≠ -1 := by
            rintro rfl
            exact absurd hcrlf (by rw [atCRLF_header_lf]; decide)
          obtain ⟨k, rfl⟩ : ∃ k : Nat, size = k := ⟨size.toNat, by omega⟩
          have hdrop : ([CR, LF] ++ p).drop ((k : Int) + 2).toNat = p.drop k := by
            have hk : ((k : Int) + 2).toNat = k + 2 := by omega
            rw [hk]
            rfl
          rw [hdrop] at hcrlf
          obtain ⟨q, hq⟩ := exists_of_atCRLF hcrlf
          have hk : (p.take k).length = k := by
            rw [List.length_take]
            omega
          have hp : p = p.take k ++ [CR, LF] ++ q := by
            conv => lhs; rw [← List.take_append_drop k p, hq]
            simp
          refine ⟨ds, p.take k, q, hds, ?_, ?_, hp, ?_⟩
          · rw [hk, headerValue, ← hval]
          · rw [hk]
          · rw [hsrc]
            simp
        · cases h
      · cases hlf

/-- **The check passes nothing else.** -/
theorem readyElement_split [Target] {p q : Bytes} (h : readyElement p = .done ((), q)) :
    ∃ e : Element, p = e.bytes ++ q := by
  cases p with
  | nil => cases h
  | cons c src =>
    simp only [readyElement] at h
    split at h
    · rename_i hmark
      by_cases hf : parseSingleLineReply src = -2
      · simp [finishElement, hf] at h
      · obtain ⟨text, r, rfl, htext⟩ := parseSingleLineReply_split hf
        have hfound := parseSingleLineReply_found (s := text ++ [CR, LF]) (by rw [htext]; omega)
        rw [hfound.2.2 r, htext, finishElement_text] at h
        simp only [Scan.done.injEq, Prod.mk.injEq, true_and] at h
        subst h
        exact ⟨.line c text hmark htext, rfl⟩
    · split at h
      · rename_i hc
        obtain ⟨⟨len, dst⟩, hb, hfin⟩ := Scan.bind_eq_done.mp h
        by_cases hm2 : len = -2
        · simp [finishElement, hm2] at hfin
        · obtain ⟨ds, v, r, hds, hsize, rfl, rfl, rfl⟩ := parseBulkReply2_split hb hm2
          rw [finishElement_text] at hfin
          simp only [Scan.done.injEq, Prod.mk.injEq, true_and] at hfin
          subst hfin
          refine ⟨.bulk ds v hds hsize, ?_⟩
          simp only [Element.bytes, hc, List.cons_append, List.append_assoc]
      · cases h

/-! ## The parser on elements -/

/-- The parser reads a bulk as the check does. -/
theorem parseBulkReply_bulk [Target] {ds v : Bytes} (q : Bytes) (hds : ∀ c ∈ ds, isDigit c = true)
    (hsize : headerValue cSsize ds = v.length) :
    parseBulkReply (ds ++ [CR, LF] ++ (v ++ [CR, LF] ++ q)) =
      ((v.length : Int), v ++ [CR, LF] ++ q) := by
  cases hs : ds ++ [CR, LF] ++ (v ++ [CR, LF] ++ q) with
  | nil => simp at hs
  | cons c s =>
    simp only [parseBulkReply, if_neg (header_ne_minus hds hs)]
    rw [← hs]
    simp only [bulk, lengthLoop_header cSsize _ hds, hsize, if_true, tooShort_data, drop_data,
      atCRLF_cons, Bool.false_eq_true, if_false, Option.getD_some]

theorem take_text (v q : Bytes) : (v ++ [CR, LF] ++ q).take (v.length : Int).toNat = v := by
  have hk : (v.length : Int).toNat = v.length := by omega
  rw [hk, List.append_assoc, List.take_left]

/-- **One element.** The parser reads it as the string it stands for. -/
theorem replyElement_element [Target] (e : Element) (q : Bytes) :
    replyElement (e.bytes ++ q) = some (some e.text, q) := by
  cases e with
  | line mark text hmark htext =>
    have hfound := parseSingleLineReply_found (s := text ++ [CR, LF]) (by rw [htext]; omega)
    simp only [Element.bytes, Element.text, List.cons_append, replyElement, if_pos hmark]
    rw [hfound.2.2 q, htext, if_neg (by omega), if_neg (by omega), take_text, drop_element]
  | bulk ds v hds hsize =>
    simp only [Element.bytes, Element.text, List.cons_append, replyElement, isLineMark_dollar,
      Bool.false_eq_true, if_false, if_true]
    have hassoc : ds ++ [CR, LF] ++ v ++ [CR, LF] ++ q = ds ++ [CR, LF] ++ (v ++ [CR, LF] ++ q) := by
      simp only [List.append_assoc]
    rw [hassoc, parseBulkReply_bulk q hds hsize]
    simp only
    rw [if_neg (by omega), if_neg (by omega), take_text, drop_element]

/-! ## Frames -/

/-- The elements on the wire. -/
def elementsBytes [Target] (es : List Element) : Bytes := (es.map Element.bytes).flatten

theorem elementsBytes_cons [Target] (e : Element) (es : List Element) (q : Bytes) :
    elementsBytes (e :: es) ++ q = e.bytes ++ (elementsBytes es ++ q) := by
  simp only [elementsBytes, List.map_cons, List.flatten_cons, List.append_assoc]

theorem readyLoop_elements [Target] (es : List Element) (q : Bytes) :
    readyLoop es.length (elementsBytes es ++ q) = .done ((), q) := by
  induction es with
  | nil => rfl
  | cons e es ih =>
    rw [List.length_cons, readyLoop, elementsBytes_cons, readyElement_element]
    exact ih

theorem readyLoop_split [Target] {n : Nat} {p q : Bytes} (h : readyLoop n p = .done ((), q)) :
    ∃ es : List Element, es.length = n ∧ p = elementsBytes es ++ q := by
  induction n generalizing p with
  | zero =>
    simp only [readyLoop, Scan.done.injEq, Prod.mk.injEq, true_and] at h
    exact ⟨[], rfl, h⟩
  | succ n ih =>
    obtain ⟨⟨u, r⟩, he, hrest⟩ := Scan.bind_eq_done.mp h
    obtain ⟨e, rfl⟩ := readyElement_split he
    obtain ⟨es, hn, rfl⟩ := ih hrest
    exact ⟨e :: es, by rw [List.length_cons, hn], (elementsBytes_cons e es q).symm⟩

theorem replyLoop_elements [Target] (es : List Element) (q : Bytes) :
    replyLoop es.length (elementsBytes es ++ q) = some (es.map (fun e => some e.text), q) := by
  induction es with
  | nil => rfl
  | cons e es ih =>
    rw [List.length_cons, replyLoop, elementsBytes_cons, replyElement_element]
    simp only [ih, Option.map_some, List.map_cons]

/-- A frame: the header's `int` value is not 0, and where it is not negative it is
the number of elements. -/
structure Frame [Target] where
  digits : Bytes
  elems : List Element
  hdigits : ∀ c ∈ digits, isDigit c = true
  hnonzero : headerValue cInt digits ≠ 0
  hcount : elems.length = (headerValue cInt digits).toNat

namespace Frame

/-- The frame on the wire. -/
def bytes [Target] (f : Frame) : Bytes := ch '*' :: (f.digits ++ [CR, LF] ++ elementsBytes f.elems)

/-- What the parser makes of the frame: a count that wrapped to -1 means nil. -/
def reply [Target] (f : Frame) : Reply :=
  if headerValue cInt f.digits = -1 then .nil else .arr (f.elems.map fun e => some e.text)

/-- Unless the count wrapped to -1, the parser makes an array of the texts. -/
theorem reply_texts [Target] {f : Frame} (h : headerValue cInt f.digits ≠ -1) :
    f.reply = .arr ((f.elems.map Element.text).map some) := by
  unfold reply
  rw [if_neg h, List.map_map]
  rfl

end Frame

/-- The check accepts a frame, whatever follows it. -/
theorem redisParseReady_frame [Target] (f : Frame) (q : Bytes) :
    redisParseReady (f.bytes ++ q) = .done f.bytes.length := by
  have hassoc : f.digits ++ [CR, LF] ++ elementsBytes f.elems ++ q =
      f.digits ++ [CR, LF] ++ (elementsBytes f.elems ++ q) := by
    simp only [List.append_assoc]
  have hready : parseMultiBulkReply2 (f.digits ++ [CR, LF] ++ elementsBytes f.elems ++ q) =
      .done ((), q) := by
    rw [hassoc, parseMultiBulkReply2, lengthLoop_header cInt _ f.hdigits]
    simp only [Scan.bind_done, readyBody, if_neg f.hnonzero, expectLF, if_true]
    rw [← f.hcount]
    exact readyLoop_elements f.elems q
  simp only [Frame.bytes, List.cons_append, redisParseReady, if_true, hready, Scan.bind_done,
    Scan.done.injEq, List.length_cons, List.length_append]
  omega

/-- **The check accepts exactly the buffers that begin with a frame.** -/
theorem redisParseReady_eq_done_iff [Target] {s : Bytes} {p : Nat} :
    redisParseReady s = .done p ↔ ∃ (f : Frame) (q : Bytes), s = f.bytes ++ q ∧ p = f.bytes.length := by
  constructor
  · intro h
    obtain ⟨src, q, rfl, hq, hp, _⟩ := redisParseReady_eq_done h
    obtain ⟨⟨count, r⟩, hcount, hbody⟩ := Scan.bind_eq_done.mp hq
    obtain ⟨ds, hds, rfl, hval⟩ := lengthLoop_eq_done hcount
    simp only [readyBody] at hbody
    split at hbody
    · cases hbody
    rename_i hnz
    obtain ⟨⟨u, r'⟩, hlf, hloop⟩ := Scan.bind_eq_done.mp hbody
    cases r with
    | nil => cases hlf
    | cons d r =>
      simp only [expectLF] at hlf
      split at hlf
      · rename_i hd
        simp only [Scan.done.injEq, Prod.mk.injEq, true_and] at hlf
        subst hlf hd
        obtain ⟨es, hn, rfl⟩ := readyLoop_split hloop
        let f : Frame := ⟨ds, es, hds, by rw [headerValue, ← hval]; exact hnz,
          by rw [headerValue, ← hval]; exact hn⟩
        have hs : ch '*' :: (ds ++ CR :: LF :: (elementsBytes es ++ q)) = f.bytes ++ q := by
          simp [f, Frame.bytes]
        refine ⟨f, q, hs, ?_⟩
        rw [hs, List.length_append] at hp
        omega
      · cases hlf
  · rintro ⟨f, q, rfl, rfl⟩
    exact redisParseReady_frame f q

/-- The count loop on digits, CR and LF. -/
theorem countLoop_header {n : Int} {ds : Bytes} (r : Bytes) (hds : ∀ c ∈ ds, isDigit c = true) :
    countLoop n (ds ++ [CR, LF] ++ r) =
      some (ds.foldl (fun a c => cInt (cInt (a * 10) + digitVal c)) n, LF :: r) := by
  induction ds generalizing n with
  | nil => simp [countLoop]
  | cons c ds ih =>
    have hc : isDigit c = true := hds c (by simp)
    have hne : c ≠ CR := by
      rintro rfl
      rw [isDigit_cr] at hc
      cases hc
    have hm : c ≠ ch '-' := by
      rintro rfl
      rw [isDigit_minus] at hc
      cases hc
    simp only [List.cons_append, countLoop, if_neg hne, if_neg hm, hc, Bool.true_eq_false,
      if_false, List.foldl_cons]
    exact ih (fun x hx => hds x (by simp [hx]))

/-- **The reply parser reads the same frame**: its elements, up to its end. -/
theorem parseReplyHelper_frame [Target] (f : Frame) (q : Bytes) :
    parseReplyHelper (f.bytes ++ q) = (f.reply, MULTI_BULK_REPLY, q) := by
  have hassoc : f.digits ++ [CR, LF] ++ elementsBytes f.elems ++ q =
      f.digits ++ [CR, LF] ++ (elementsBytes f.elems ++ q) := by
    simp only [List.append_assoc]
  have hreply : parseMultiBulkReply (f.digits ++ [CR, LF] ++ elementsBytes f.elems ++ q) =
      some (f.reply, q) := by
    rw [hassoc, parseMultiBulkReply, countLoop_header _ f.hdigits]
    simp only [if_true]
    rw [← headerValue, ← f.hcount, replyLoop_elements]
    unfold Frame.reply
    split
    · rename_i hm1
      -- the header of a nil frame is all of it
      have h0 : f.elems = [] := List.eq_nil_of_length_eq_zero (by rw [f.hcount, hm1]; rfl)
      simp [h0, elementsBytes]
    · rfl
  have hstar : ∀ src v q, parseMultiBulkReply src = some (v, q) →
      parseReplyHelper (ch '*' :: src) = (v, MULTI_BULK_REPLY, q) := by
    intro src v q hsrc
    simp only [parseReplyHelper, hsrc]
    rfl
  exact hstar _ _ _ hreply

theorem redisParseReply_frame [Target] (f : Frame) (q : Bytes) :
    redisParseReply (f.bytes ++ q) = (f.reply, MULTI_BULK_REPLY) := by
  rw [redisParseReply, parseReplyHelper_frame]

end ApApps.Redis

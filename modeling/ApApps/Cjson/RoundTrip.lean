import ApApps.Cjson.Decode

/- What the decoder reads from what the encoder wrote.

   The text of a table of strings may have been reformatted on the way: white space
   after the commas between the fields, and strings that gained characters at their
   end. `Reads text v` says that the decoder takes `text`, whatever follows it, for
   the string `v`; `decode_fields` reads a table all of whose keys and values are read
   so. -/
namespace ApApps.Cjson

/-! ## One character -/

/-- A character that is written as it is. -/
def plain (c : UInt8) : Bool := c ≠ ch '"' && c ≠ NUL && c ≠ ch '\\'

theorem plain_of_char2escape : ∀ c, char2escape c = none → plain c = true := by
  decide +kernel

/-- The text of an escape is undone by the matching branch of the decoder. -/
theorem char2escape_some : ∀ c t, char2escape c = some t →
    (∃ e, t = [ch '\\', e] ∧ e ≠ ch 'u' ∧ escape2char e = some c) ∨
    (∃ x y, t = [ch '\\', ch 'u', ch '0', ch '0', x, y] ∧
      decodeHex4 [ch '0', ch '0', x, y] = some c.toNat ∧ c.toNat ≤ 0x7F) := by
  intro c t h
  have key : ∀ c, ∀ t ∈ char2escape c,
      (t.length = 2 ∧ t[0]? = some (ch '\\') ∧ t[1]? ≠ some (ch 'u') ∧
        (t[1]?.bind escape2char) = some c) ∨
      (t.take 4 = [ch '\\', ch 'u', ch '0', ch '0'] ∧ t.length = 6 ∧
        decodeHex4 (t.drop 2) = some c.toNat ∧ c.toNat ≤ 0x7F) := by
    decide +kernel
  rcases key c t h with ⟨hlen, h0, h1, he⟩ | ⟨ht, hlen, hx, hc⟩
  · match t, hlen with
    | [a, e], _ =>
      simp only [List.getElem?_cons_zero, Option.some.injEq] at h0
      subst h0
      exact .inl ⟨e, rfl, by simpa using h1, by simpa using he⟩
  · match t, hlen with
    | [a, b, c', d, x, y], _ =>
      simp only [List.take_succ_cons, List.take_zero, List.cons.injEq, and_true] at ht
      obtain ⟨rfl, rfl, rfl, rfl⟩ := ht
      exact .inr ⟨x, y, rfl, by simpa using hx, hc⟩

theorem decodeHex4_append (a b c d : UInt8) (rest : Bytes) :
    decodeHex4 (a :: b :: c :: d :: rest) = decodeHex4 [a, b, c, d] := rfl

/-- The escape of a character below 0x80 that is no surrogate. -/
theorem jsonAppendUnicodeEscape_byte {c x y : UInt8} {rest : Bytes}
    (h : decodeHex4 [ch '0', ch '0', x, y] = some c.toNat) (hc : c.toNat ≤ 0x7F) :
    jsonAppendUnicodeEscape (ch '0' :: ch '0' :: x :: y :: rest) = some ([c], rest) := by
  have hs : ¬ (c.toNat &&& 0xF800 = 0xD800) := by
    intro hs
    have : c.toNat &&& 0xF800 ≤ c.toNat := Nat.and_le_left
    omega
  unfold jsonAppendUnicodeEscape
  rw [decodeHex4_append, h]
  simp only [if_neg hs, codepointToUtf8, if_pos hc]
  simp

/-! ## Strings -/

theorem stringLoop_plain {c : UInt8} (h : plain c = true) (fuel : Nat) (tmp rest : Bytes) :
    stringLoop (fuel + 1) tmp (c :: rest) = stringLoop fuel (tmp ++ [c]) rest := by
  simp only [plain, ne_eq, decide_not, Bool.and_eq_true, Bool.not_eq_eq_eq_not, Bool.not_true,
    decide_eq_false_iff_not] at h
  rw [stringLoop.eq_def]
  simp only [if_neg h.1.1, if_neg h.1.2, if_neg h.2]

/-- One pass of the loop reads back one character. -/
theorem stringLoop_escaped (c : UInt8) (fuel : Nat) (tmp rest : Bytes) :
    stringLoop (fuel + 1) tmp ((char2escape c).getD [c] ++ rest) = stringLoop fuel (tmp ++ [c]) rest := by
  cases h : char2escape c with
  | none => exact stringLoop_plain (plain_of_char2escape c h) fuel tmp rest
  | some t =>
    have hq : ch '\\' ≠ ch '"' := by decide
    have hn : ch '\\' ≠ NUL := by decide
    rcases char2escape_some c t h with ⟨e, rfl, hu, he⟩ | ⟨x, y, rfl, hx, hc⟩
    · simp only [Option.getD_some, List.cons_append, List.nil_append]
      rw [stringLoop, if_neg hq, if_neg hn, if_pos rfl]
      simp only [if_neg hu, he]
    · simp only [Option.getD_some, List.cons_append, List.nil_append]
      rw [stringLoop, if_neg hq, if_neg hn, if_pos rfl]
      simp only [if_true, jsonAppendUnicodeEscape_byte hx hc]

theorem stringLoop_escape (s : Bytes) (fuel : Nat) (tmp rest : Bytes) :
    stringLoop (s.length + fuel) tmp (escape s ++ rest) = stringLoop fuel (tmp ++ s) rest := by
  induction s generalizing tmp with
  | nil => simp [escape]
  | cons c s ih =>
    have hf : (c :: s).length + fuel = s.length + fuel + 1 := by simp only [List.length_cons]; omega
    have ht : escape (c :: s) ++ rest = (char2escape c).getD [c] ++ (escape s ++ rest) := by simp [escape]
    rw [hf, ht, stringLoop_escaped, ih]
    simp

theorem stringLoop_plains (s : Bytes) (h : ∀ c ∈ s, plain c = true) (fuel : Nat) (tmp rest : Bytes) :
    stringLoop (s.length + fuel) tmp (s ++ rest) = stringLoop fuel (tmp ++ s) rest := by
  induction s generalizing tmp with
  | nil => simp
  | cons c s ih =>
    have hf : (c :: s).length + fuel = s.length + fuel + 1 := by simp only [List.length_cons]; omega
    rw [hf, List.cons_append, stringLoop_plain (h c List.mem_cons_self),
      ih (fun d hd => h d (List.mem_cons_of_mem _ hd))]
    simp

theorem length_le_escape (s : Bytes) : s.length ≤ (escape s).length := by
  induction s with
  | nil => simp
  | cons c s ih =>
    have hc : 1 ≤ ((char2escape c).getD [c]).length := by
      cases h : char2escape c with
      | none => simp
      | some t =>
        rcases char2escape_some c t h with ⟨e, rfl, _⟩ | ⟨x, y, rfl, _⟩
        · simp
        · simp
    have he : escape (c :: s) = (char2escape c).getD [c] ++ escape s := by simp [escape]
    rw [he, List.length_append, List.length_cons]
    omega

/-- `text` is read as the string `v`, whatever follows it. -/
def Reads (fp : FpConv) (text v : Bytes) : Prop :=
  ∀ rest, jsonNextToken fp (text ++ rest) = (.str v, rest)

/-- A string as the encoder writes it, with more characters before the closing quote. -/
theorem reads_of_appended (fp : FpConv) (s more : Bytes) (h : ∀ c ∈ more, plain c = true) :
    Reads fp (ch '"' :: (escape s ++ more ++ [ch '"'])) (s ++ more) := by
  intro rest
  have hloop : stringLoop ((escape s ++ more ++ [ch '"'] ++ rest).length + 1) []
      (escape s ++ more ++ [ch '"'] ++ rest) = some (s ++ more, rest) := by
    obtain ⟨n, hn⟩ : ∃ n, (escape s ++ more ++ [ch '"'] ++ rest).length + 1 =
        s.length + (more.length + (n + 1)) := by
      have := length_le_escape s
      simp only [List.length_append, List.length_singleton]
      exact ⟨(escape s).length - s.length + rest.length + 1, by omega⟩
    have ht : escape s ++ more ++ [ch '"'] ++ rest = escape s ++ (more ++ (ch '"' :: rest)) := by simp
    rw [hn, ht, stringLoop_escape, stringLoop_plains more h]
    simp [stringLoop]
  have hw : isWhitespace (ch '"') = false := by decide
  have hn : ch '"' ≠ NUL := by decide
  have hc : ch2token (ch '"') = none := by decide
  simp only [List.cons_append, jsonNextToken, hw, hc, if_neg hn, longToken, if_true, jsonNextStringToken,
    Bool.false_eq_true, if_false, hloop]

/-! ## Tables of strings -/

/-- A field of the text: how its key and its value are written, and what they are read as. -/
structure Field where
  keyText : Bytes
  key : Bytes
  valueText : Bytes
  value : Bytes

def Field.text (f : Field) : Bytes := f.keyText ++ ch ':' :: f.valueText

/-- The fields as the loop of `json_parse_object_context` stores them, one after the other. -/
def stored (fields : List (Bytes × Val)) (fs : List Field) : List (Bytes × Val) :=
  fs.foldl (fun fields f => rawset fields f.key (.str f.value)) fields

theorem jsonNextToken_whitespace (fp : FpConv) (ws rest : Bytes) (h : ∀ c ∈ ws, isWhitespace c = true) :
    jsonNextToken fp (ws ++ rest) = jsonNextToken fp rest := by
  induction ws with
  | nil => rfl
  | cons c ws ih =>
    rw [List.cons_append, jsonNextToken, if_pos (h c List.mem_cons_self)]
    exact ih (fun d hd => h d (List.mem_cons_of_mem _ hd))

/-- A character that is a token of its own. -/
theorem jsonNextToken_single (fp : FpConv) {c : UInt8} {token : Token} (h : ch2token c = some token)
    (hw : isWhitespace c = false) (hn : c ≠ NUL) (rest : Bytes) :
    jsonNextToken fp (c :: rest) = (token, rest) := by
  simp [jsonNextToken, hw, if_neg hn, h]

theorem jsonNextToken_comma (fp : FpConv) (rest : Bytes) :
    jsonNextToken fp (ch ',' :: rest) = (.comma, rest) :=
  jsonNextToken_single fp (by decide) (by decide) (by decide) rest

theorem jsonNextToken_colon (fp : FpConv) (rest : Bytes) :
    jsonNextToken fp (ch ':' :: rest) = (.colon, rest) :=
  jsonNextToken_single fp (by decide) (by decide) (by decide) rest

theorem jsonNextToken_objEnd (fp : FpConv) (rest : Bytes) :
    jsonNextToken fp (ch '\x7d' :: rest) = (.objEnd, rest) :=
  jsonNextToken_single fp (by decide) (by decide) (by decide) rest

theorem jsonNextToken_objBegin (fp : FpConv) (rest : Bytes) :
    jsonNextToken fp (ch '\x7b' :: rest) = (.objBegin, rest) :=
  jsonNextToken_single fp (by decide) (by decide) (by decide) rest

/-- The loop over the fields, from the token of a key on. -/
theorem jsonParseObject_fields (fp : FpConv) (depth : Nat) {ws : Bytes} (hws : ∀ c ∈ ws, isWhitespace c = true)
    (f : Field) (fs : List Field) (h : ∀ g ∈ f :: fs, Reads fp g.keyText g.key ∧ Reads fp g.valueText g.value)
    (fuel : Nat) (hfuel : fs.length + 2 ≤ fuel) (fields : List (Bytes × Val)) (rest : Bytes) :
    jsonParseObject fp fuel depth fields (.str f.key)
        (ch ':' :: (f.valueText ++ (fs.flatMap (fun g => ch ',' :: ws ++ g.text) ++ ch '\x7d' :: rest))) =
      some (.obj (stored fields (f :: fs)), rest) := by
  induction fs generalizing f fuel fields with
  | nil =>
    obtain ⟨n, rfl⟩ : ∃ n, fuel = n + 2 := ⟨fuel - 2, by simp only [List.length_nil] at hfuel; omega⟩
    have hv := (h f List.mem_cons_self).2
    simp only [jsonParseObject, jsonNextToken_colon, List.flatMap_nil, List.nil_append, hv _,
      jsonProcessValue, jsonNextToken_objEnd, stored, List.foldl_cons, List.foldl_nil]
  | cons g fs ih =>
    obtain ⟨n, rfl⟩ : ∃ n, fuel = n + 2 := ⟨fuel - 2, by omega⟩
    have hv := (h f List.mem_cons_self).2
    have hk := (h g (by simp)).1
    have hg : ∀ g' ∈ g :: fs, Reads fp g'.keyText g'.key ∧ Reads fp g'.valueText g'.value :=
      fun g' hg' => h g' (List.mem_cons_of_mem _ hg')
    have hnext := ih g hg (n + 1) (by simp only [List.length_cons] at hfuel; omega) (rawset fields f.key (.str f.value))
    have htext : (g :: fs).flatMap (fun g => ch ',' :: ws ++ g.text) ++ ch '\x7d' :: rest =
        ch ',' :: (ws ++ (g.keyText ++ (ch ':' :: (g.valueText ++
          (fs.flatMap (fun g => ch ',' :: ws ++ g.text) ++ ch '\x7d' :: rest))))) := by
      simp [Field.text]
    rw [htext, jsonParseObject]
    simp only [jsonNextToken_colon, hv _, jsonProcessValue, jsonNextToken_comma,
      jsonNextToken_whitespace fp ws _ hws, hk _]
    rw [hnext]
    simp [stored]

/-- A text that is read as a string starts with a character, and not with NUL. -/
theorem Reads.head {fp : FpConv} {text v : Bytes} (h : Reads fp text v) : ∃ c t, text = c :: t ∧ c ≠ NUL := by
  have h0 := h []
  cases text with
  | nil => simp [jsonNextToken] at h0
  | cons c t =>
    refine ⟨c, t, rfl, ?_⟩
    rintro rfl
    have hw : isWhitespace NUL = false := by decide
    simp [jsonNextToken, hw] at h0

theorem length_le_flatMap_cons {α β : Type*} (b : β) (g : α → List β) (l : List α) :
    l.length ≤ (l.flatMap (fun a => b :: g a)).length := by
  induction l with
  | nil => simp
  | cons a l ih =>
    simp only [List.flatMap_cons, List.length_append, List.length_cons]
    omega

/-- Decoding a text that starts with a brace. -/
theorem decode_brace (fp : FpConv) {body : Bytes} (rest : Bytes) {v : Val} (hnul : body.head? ≠ some NUL)
    (h : jsonProcessValue fp (body.length + 2) 0 .objBegin body = some (v, rest))
    (hrest : jsonNextToken fp rest = (.eof, rest)) : decode fp (ch '\x7b' :: body) = some v := by
  have hutf : ¬ (2 ≤ (ch '\x7b' :: body).length ∧
      ((ch '\x7b' :: body)[0]? = some NUL ∨ (ch '\x7b' :: body)[1]? = some NUL)) := by
    rintro ⟨_, h0 | h1⟩
    · rw [List.getElem?_cons_zero, Option.some.injEq] at h0
      exact absurd h0 (by decide)
    · rw [List.getElem?_cons_succ] at h1
      exact hnul (List.head?_eq_getElem?.trans h1)
  rw [decode, if_neg hutf]
  simp only [jsonNextToken_objBegin, List.length_cons, h, hrest]

/-- A table all of whose keys and values are read as strings. -/
theorem decode_fields (fp : FpConv) {ws : Bytes} (hws : ∀ c ∈ ws, isWhitespace c = true) (fs : List Field)
    (h : ∀ f ∈ fs, Reads fp f.keyText f.key ∧ Reads fp f.valueText f.value) :
    decode fp (ch '\x7b' :: ((ch ',' :: ws).intercalate (fs.map Field.text) ++ [ch '\x7d'])) =
      some (.obj (stored [] fs)) := by
  cases fs with
  | nil =>
    refine decode_brace fp [] (by simp [NUL, ch]) ?_ rfl
    simp [jsonProcessValue, jsonNextToken_objEnd, decodeMaxDepth, stored]
  | cons f fs =>
    have hk := (h f List.mem_cons_self).1
    obtain ⟨c, t, htext, hc⟩ := hk.head
    have hbody : (ch ',' :: ws).intercalate ((f :: fs).map Field.text) ++ [ch '\x7d'] =
        f.keyText ++ (ch ':' :: (f.valueText ++
          (fs.flatMap (fun g => ch ',' :: ws ++ g.text) ++ ch '\x7d' :: []))) := by
      rw [List.map_cons, intercalate_cons_flatMap]
      simp [Field.text, List.flatMap_map]
    rw [hbody]
    refine decode_brace fp [] ?_ ?_ rfl
    · rw [htext]
      simpa using hc
    · rw [jsonProcessValue, if_neg (by decide)]
      simp only [hk _]
      refine jsonParseObject_fields fp 1 hws f fs h _ ?_ [] []
      have := length_le_flatMap_cons (ch ',') (fun g : Field => ws ++ g.text) fs
      simp only [List.cons_append, List.length_cons, List.length_append] at this ⊢
      omega

end ApApps.Cjson

import ApApps.Cjson.RoundTrip

/- Tables of tables, from the encoder to the decoder.

   `ReadsVal` says that the decoder takes a text for a value, if a comma or a closing
   brace follows. It is closed under objects (`jsonProcessValue_obj`), and so is
   `Back`: the encoder writes the first value as a text that the decoder reads as the
   second one. A string comes back as it was. A number comes back as what `strtod`
   makes of its fourteen digits. -/
namespace ApApps.Cjson

variable {fp : FpConv}

/-- What follows the value of a field. -/
inductive Closed : Bytes → Prop where
  | comma (rest : Bytes) : Closed (ch ',' :: rest)
  | brace (rest : Bytes) : Closed (ch '\x7d' :: rest)

/-- `text` is read as the value `v`, inside `depth` tables. -/
def ReadsVal (fp : FpConv) (depth : Nat) (text : Bytes) (v : Val) : Prop :=
  ∀ fuel, text.length ≤ fuel → ∀ rest, Closed rest → ∃ token s,
    jsonNextToken fp (text ++ rest) = (token, s) ∧ jsonProcessValue fp fuel depth token s = some (v, rest)

/-- The encoder writes `v` as a text that the decoder reads as `v'`. -/
def Back (fp : FpConv) (depth : Nat) (v v' : Val) : Prop :=
  ∃ text, jsonAppendData fp depth v = some text ∧ ReadsVal fp depth text v'

/-! ## Strings and numbers -/

theorem reads_jsonAppendString (s : Bytes) : Reads fp (jsonAppendString s) s := by
  have h := reads_of_appended fp s [] (by simp)
  simpa [jsonAppendString] using h

theorem back_str (depth : Nat) (s : Bytes) : Back fp depth (.str s) (.str s) := by
  refine ⟨jsonAppendString s, rfl, fun fuel hfuel rest _ => ⟨.str s, rest, reads_jsonAppendString s rest, ?_⟩⟩
  obtain ⟨n, rfl⟩ : ∃ n, fuel = n + 1 := ⟨fuel - 1, by simp only [jsonAppendString, List.length_cons] at hfuel; omega⟩
  rfl

/-- The characters a numeral of the encoder starts with. -/
def numeralStart (c : UInt8) : Bool := c = ch '-' || isDigit c

/-- The numeral `text` is read as `x`. -/
structure ReadsNum (fp : FpConv) (text : Bytes) (x : Flt) : Prop where
  start : text.head?.any numeralStart = true
  read : ∀ rest, Closed rest → fp.strtod (text ++ rest) = some (x, rest)

/-- The encoder refuses the other numbers. -/
def IsFinite (x : Flt) : Prop := ¬ (x = .inf ∨ x = .ninf ∨ x = .nan)

theorem numeralStart_token : ∀ c, numeralStart c = true →
    isWhitespace c = false ∧ c ≠ NUL ∧ ch2token c = none ∧ c ≠ ch '"' ∧ (c = ch '-' ∨ isDigit c = true) := by
  decide +kernel

theorem jsonNextToken_of_strtod {text rest : Bytes} {x : Flt} (hstart : text.head?.any numeralStart = true)
    (hread : fp.strtod (text ++ rest) = some (x, rest)) : jsonNextToken fp (text ++ rest) = (.num x, rest) := by
  obtain ⟨c, t, rfl⟩ : ∃ c t, text = c :: t := by
    cases text with
    | nil => exact absurd hstart (by simp)
    | cons c t => exact ⟨c, t, rfl⟩
  obtain ⟨hw, hn, hc, hq, hd⟩ := numeralStart_token c (by simpa using hstart)
  simp only [List.cons_append] at hread ⊢
  simp only [jsonNextToken, hw, hc, if_neg hn, longToken, if_neg hq, if_pos hd, jsonNextNumberToken, hread,
    Bool.false_eq_true, if_false]

theorem jsonNextToken_numeral {text : Bytes} {x : Flt} (h : ReadsNum fp text x) {rest : Bytes}
    (hrest : Closed rest) : jsonNextToken fp (text ++ rest) = (.num x, rest) :=
  jsonNextToken_of_strtod h.start (h.read rest hrest)

theorem back_num {x y : Flt} (hx : IsFinite x) (h : ReadsNum fp (fp.gFmt x) y) (depth : Nat) :
    Back fp depth (.num x) (.num y) := by
  refine ⟨fp.gFmt x, by rw [jsonAppendData, if_neg hx], fun fuel hfuel rest hrest =>
    ⟨.num y, rest, jsonNextToken_numeral h hrest, ?_⟩⟩
  have hne : fp.gFmt x ≠ [] := by
    intro hnil
    have hstart := h.start
    rw [hnil] at hstart
    cases hstart
  obtain ⟨n, rfl⟩ : ∃ n, fuel = n + 1 :=
    ⟨fuel - 1, by have := List.length_pos_of_ne_nil hne; omega⟩
  rfl

/-! ## Objects -/

/-- A field: its value, how that is written and what it is read as. -/
structure Written where
  key : Bytes
  value : Val
  text : Bytes
  back : Val

/-- The text of a field. -/
def Written.field (w : Written) : Bytes := jsonAppendString w.key ++ ch ':' :: w.text

theorem length_field (w : Written) : w.field.length = (jsonAppendString w.key).length + w.text.length + 1 := by
  simp only [Written.field, List.length_append, List.length_cons]
  omega

/-- The text of an object, without the brace it starts with. -/
def bodyText : List Written → Bytes
  | [] => [ch '\x7d']
  | w :: ws => w.field ++ (ws.flatMap fun w => ch ',' :: w.field) ++ [ch '\x7d']

theorem jsonAppendObject_written {depth : Nat} (ws : List Written)
    (h : ∀ w ∈ ws, jsonAppendData fp depth w.value = some w.text) :
    jsonAppendObject fp depth (ws.map fun w => (w.key, w.value)) = some (ws.flatMap fun w => ch ',' :: w.field) := by
  induction ws with
  | nil => rfl
  | cons w ws ih =>
    have hw := h w List.mem_cons_self
    have hws := ih fun w' hw' => h w' (List.mem_cons_of_mem _ hw')
    simp only [List.map_cons, jsonAppendObject, hw, hws, List.flatMap_cons, Written.field]
    simp

/-- The encoder writes an object field by field. -/
theorem jsonAppendData_written {depth : Nat} (hdepth : depth < encodeMaxDepth) (ws : List Written)
    (h : ∀ w ∈ ws, jsonAppendData fp (depth + 1) w.value = some w.text) :
    jsonAppendData fp depth (.obj (ws.map fun w => (w.key, w.value))) = some (ch '\x7b' :: bodyText ws) := by
  have hlt : ¬ encodeMaxDepth < depth + 1 := by omega
  cases ws with
  | nil =>
    rw [List.map_nil, jsonAppendData, if_neg hlt]
    rfl
  | cons w ws =>
    have hw := h w List.mem_cons_self
    have hws := jsonAppendObject_written ws fun w' hw' => h w' (List.mem_cons_of_mem _ hw')
    rw [List.map_cons, jsonAppendData, if_neg hlt, hw, hws]
    simp [bodyText, Written.field]

/-- An object can be written if its values can. -/
theorem exists_text_obj {depth : Nat} (hdepth : depth < encodeMaxDepth) {fields : List (Bytes × Val)}
    (h : ∀ kv ∈ fields, ∃ text, jsonAppendData fp (depth + 1) kv.2 = some text) :
    ∃ text, jsonAppendData fp depth (.obj fields) = some text := by
  have hlt : ¬ encodeMaxDepth < depth + 1 := by omega
  have htail : ∀ fields : List (Bytes × Val), (∀ kv ∈ fields, ∃ text, jsonAppendData fp (depth + 1) kv.2 = some text) →
      ∃ text, jsonAppendObject fp (depth + 1) fields = some text := by
    intro fields
    induction fields with
    | nil => exact fun _ => ⟨[], rfl⟩
    | cons kv fields ih =>
      intro h
      obtain ⟨head, hhead⟩ := h kv List.mem_cons_self
      obtain ⟨tail, htail⟩ := ih fun kv' hkv' => h kv' (List.mem_cons_of_mem _ hkv')
      rw [jsonAppendObject, hhead, htail]
      exact ⟨_, rfl⟩
  cases fields with
  | nil =>
    rw [jsonAppendData, if_neg hlt]
    exact ⟨_, rfl⟩
  | cons kv fields =>
    obtain ⟨head, hhead⟩ := h kv List.mem_cons_self
    obtain ⟨tail, htail⟩ := htail fields fun kv' hkv' => h kv' (List.mem_cons_of_mem _ hkv')
    rw [jsonAppendData, if_neg hlt, hhead, htail]
    exact ⟨_, rfl⟩

/-- The fields, as the loop of the decoder stores them. -/
def storedAll (fields : List (Bytes × Val)) (ws : List Written) : List (Bytes × Val) :=
  ws.foldl (fun fields w => rawset fields w.key w.back) fields

/-- The loop over the fields, from the token of a key on. Every pass reads more than it takes fuel. -/
theorem jsonParseObject_written {depth : Nat} (w : Written) (ws : List Written)
    (h : ∀ w' ∈ w :: ws, ReadsVal fp depth w'.text w'.back) (fuel : Nat)
    (hfuel : w.text.length + (ws.flatMap fun w => ch ',' :: w.field).length + 1 ≤ fuel)
    (fields : List (Bytes × Val)) (rest : Bytes) :
    jsonParseObject fp fuel depth fields (.str w.key)
        (ch ':' :: (w.text ++ ((ws.flatMap fun w => ch ',' :: w.field) ++ ch '\x7d' :: rest))) =
      some (.obj (storedAll fields (w :: ws)), rest) := by
  induction ws generalizing w fuel fields with
  | nil =>
    obtain ⟨n, rfl⟩ : ∃ n, fuel = n + 1 := ⟨fuel - 1, by omega⟩
    obtain ⟨token, s, htoken, hvalue⟩ := h w List.mem_cons_self n
      (by simp only [List.flatMap_nil, List.length_nil] at hfuel; omega) _ (.brace rest)
    simp only [jsonParseObject, jsonNextToken_colon, List.flatMap_nil, List.nil_append, htoken, hvalue,
      jsonNextToken_objEnd, storedAll, List.foldl_cons, List.foldl_nil]
  | cons v ws ih =>
    obtain ⟨n, rfl⟩ : ∃ n, fuel = n + 1 := ⟨fuel - 1, by omega⟩
    simp only [List.flatMap_cons, List.length_append, List.length_cons, length_field] at hfuel
    have htext : ((v :: ws).flatMap fun w => ch ',' :: w.field) ++ ch '\x7d' :: rest =
        ch ',' :: (jsonAppendString v.key ++ (ch ':' :: (v.text ++
          ((ws.flatMap fun w => ch ',' :: w.field) ++ ch '\x7d' :: rest)))) := by
      simp [Written.field]
    obtain ⟨token, s, htoken, hvalue⟩ := h w List.mem_cons_self n (by omega) _ (.comma
      (jsonAppendString v.key ++ (ch ':' :: (v.text ++
        ((ws.flatMap fun w => ch ',' :: w.field) ++ ch '\x7d' :: rest)))))
    have hnext := ih v (fun w' hw' => h w' (List.mem_cons_of_mem _ hw')) n
      (by omega) (rawset fields w.key w.back)
    rw [htext, jsonParseObject]
    simp only [jsonNextToken_colon, htoken, hvalue, jsonNextToken_comma, reads_jsonAppendString v.key _]
    rw [hnext]
    simp [storedAll]

/-- **An object is read back field by field**, whatever follows it. -/
theorem jsonProcessValue_obj {depth : Nat} (hdepth : depth < decodeMaxDepth) (ws : List Written)
    (h : ∀ w ∈ ws, ReadsVal fp (depth + 1) w.text w.back) {fuel : Nat} (hfuel : (bodyText ws).length < fuel)
    (rest : Bytes) :
    jsonProcessValue fp fuel depth .objBegin (bodyText ws ++ rest) = some (.obj (storedAll [] ws), rest) := by
  obtain ⟨n, rfl⟩ : ∃ n, fuel = n + 1 := ⟨fuel - 1, by omega⟩
  have hlt : ¬ decodeMaxDepth < depth + 1 := by omega
  rw [jsonProcessValue, if_neg hlt]
  cases ws with
  | nil =>
    simp only [bodyText, List.singleton_append, jsonNextToken_objEnd, storedAll, List.foldl_nil]
  | cons w ws =>
    have hbody : bodyText (w :: ws) ++ rest = jsonAppendString w.key ++ (ch ':' :: (w.text ++
        ((ws.flatMap fun w => ch ',' :: w.field) ++ ch '\x7d' :: rest))) := by
      simp [bodyText, Written.field]
    have hlen : w.text.length + (ws.flatMap fun w => ch ',' :: w.field).length + 1 ≤ n := by
      simp only [bodyText, List.length_append, List.length_cons, List.length_nil, length_field] at hfuel
      omega
    rw [hbody]
    simp only [reads_jsonAppendString w.key _]
    exact jsonParseObject_written w ws h n hlen [] rest

theorem jsonNextToken_obj (ws : List Written) (rest : Bytes) :
    jsonNextToken fp (ch '\x7b' :: bodyText ws ++ rest) = (.objBegin, bodyText ws ++ rest) :=
  jsonNextToken_objBegin fp (bodyText ws ++ rest)

/-- Fields with different keys are stored in the order of the text. -/
theorem storedAll_eq {ws : List Written} {fields : List (Bytes × Val)}
    (h : (fields.map Prod.fst ++ ws.map Written.key).Nodup) :
    storedAll fields ws = fields ++ ws.map fun w => (w.key, w.back) := by
  induction ws generalizing fields with
  | nil => simp [storedAll]
  | cons w ws ih =>
    have hkey : w.key ∉ fields.map Prod.fst := by
      intro hmem
      exact (List.nodup_append.mp h).2.2 _ hmem _ (by simp) rfl
    have hset : rawset fields w.key w.back = fields ++ [(w.key, w.back)] := by
      rw [rawset, List.filter_eq_self.mpr]
      intro kv hkv
      have hne : kv.1 ≠ w.key := fun heq => hkey (heq ▸ List.mem_map_of_mem hkv)
      simpa using hne
    have hrest : ((fields ++ [(w.key, w.back)]).map Prod.fst ++ ws.map Written.key).Nodup := by simpa using h
    have hfold : storedAll fields (w :: ws) = storedAll (rawset fields w.key w.back) ws := rfl
    rw [hfold, hset, ih hrest]
    simp

section Object
variable {depth : Nat} {ws : List Written}

theorem back_obj (hdepth : depth < 1000) (hnodup : (ws.map Written.key).Nodup)
    (hwrite : ∀ w ∈ ws, jsonAppendData fp (depth + 1) w.value = some w.text)
    (hread : ∀ w ∈ ws, ReadsVal fp (depth + 1) w.text w.back) :
    Back fp depth (.obj (ws.map fun w => (w.key, w.value))) (.obj (ws.map fun w => (w.key, w.back))) := by
  refine ⟨_, jsonAppendData_written hdepth ws hwrite, fun fuel hfuel rest _ => ⟨_, _, jsonNextToken_obj ws rest, ?_⟩⟩
  have hlen : (bodyText ws).length < fuel := by
    rw [List.length_cons] at hfuel
    omega
  rw [jsonProcessValue_obj hdepth ws hread hlen, storedAll_eq (by simpa using hnodup), List.nil_append]

theorem bodyText_head (ws : List Written) : (bodyText ws).head? ≠ some NUL := by
  cases ws with
  | nil => decide
  | cons w ws =>
    simp only [bodyText, Written.field, jsonAppendString, List.cons_append, List.head?_cons, ne_eq,
      Option.some.injEq]
    decide

/-- **What a table is decoded as**, after it has been encoded. -/
theorem decode_obj (hnodup : (ws.map Written.key).Nodup)
    (hwrite : ∀ w ∈ ws, jsonAppendData fp 1 w.value = some w.text)
    (hread : ∀ w ∈ ws, ReadsVal fp 1 w.text w.back) :
    ∃ text, encode fp (.obj (ws.map fun w => (w.key, w.value))) = some text ∧
      decode fp text = some (.obj (ws.map fun w => (w.key, w.back))) := by
  refine ⟨_, jsonAppendData_written (by decide) ws hwrite, decode_brace fp [] (bodyText_head ws) ?_ rfl⟩
  have hlen : (bodyText ws).length < (bodyText ws).length + 2 := by omega
  have h := jsonProcessValue_obj (by decide) ws hread hlen []
  rwa [List.append_nil, storedAll_eq (by simpa using hnodup), List.nil_append] at h

end Object

/-! ## The conversions of the C library -/

/-- The decimal exponent of a positive number. -/
def decimalExponent (q : ℚ) : Int :=
  if 1 ≤ q then (Nat.toDigits 10 q.floor.toNat).length - 1
  else -(((List.range 330).find? fun k : Nat => 1 ≤ q * scale 10 k).getD 330 : Nat)

def stripZeros (digits : Bytes) : Bytes := digits.rdropWhile (· = ch '0')

/-- The digits after the point, with the point if there are any. -/
def fraction (digits : Bytes) : Bytes :=
  let digits := stripZeros digits
  if digits = [] then [] else ch '.' :: digits

/-- `%.14g` of a positive number: fourteen digits, without the zeros at the end. -/
def gFmtPositive (q : ℚ) : Bytes :=
  let e := decimalExponent q
  let m := (roundHalfEven (q / scale 10 (e - 13))).toNat
  let (m, e) := if m = 10 ^ 14 then (10 ^ 13, e + 1) else (m, e)
  let digits := ascii (toString m)
  if e < -4 ∨ 14 ≤ e then
    let exponent := ascii (toString e.natAbs)
    digits.take 1 ++ fraction (digits.drop 1) ++ ch 'e' :: (if e < 0 then ch '-' else ch '+') ::
      (if exponent.length < 2 then ch '0' :: exponent else exponent)
  else if 0 ≤ e then digits.take (e.toNat + 1) ++ fraction (digits.drop (e.toNat + 1))
  else ch '0' :: fraction (List.replicate (e.natAbs - 1) (ch '0') ++ digits)

/-- The characters of a decimal numeral. -/
def numeralChar (c : UInt8) : Bool := isDigit c || c ∈ ascii "+-.eE"

/-- `%.14g` of a finite number, and `strtod` on a decimal numeral. -/
def cLibrary : FpConv where
  strtod s := (str2d (s.takeWhile numeralChar)).map fun x => (x, s.dropWhile numeralChar)
  gFmt
    | .fin q => if q = 0 then ascii "0" else if q < 0 then ch '-' :: gFmtPositive (-q) else gFmtPositive q
    | .inf => ascii "inf"
    | .ninf => ascii "-inf"
    | .nan => ascii "nan"

/-- A decimal numeral is read up to the first character that cannot be in one. -/
theorem strtod_cLibrary {text rest : Bytes} {x : Flt} (hall : text.all numeralChar = true)
    (hval : str2d text = some x) (hstop : rest.head?.any numeralChar = false) :
    cLibrary.strtod (text ++ rest) = some (x, rest) := by
  have hchars : ∀ c ∈ text, numeralChar c = true := by simpa using hall
  have hrest : rest.takeWhile numeralChar = [] ∧ rest.dropWhile numeralChar = rest := by
    cases rest with
    | nil => exact ⟨rfl, rfl⟩
    | cons c r =>
      have hc : ¬ numeralChar c = true := by simpa using hstop
      exact ⟨List.takeWhile_cons_of_neg hc, List.dropWhile_cons_of_neg hc⟩
  have hdrop : (text ++ rest).dropWhile numeralChar = rest := by
    rw [List.dropWhile_append_of_pos hchars, hrest.2]
  simp only [cLibrary]
  rw [List.takeWhile_append_of_pos hchars, hrest.1, List.append_nil, hval, Option.map_some, hdrop]

theorem readsNum_cLibrary {text : Bytes} {x : Flt} (hstart : text.head?.any numeralStart = true)
    (hall : text.all numeralChar = true) (hval : str2d text = some x) : ReadsNum cLibrary text x := by
  refine ⟨hstart, fun rest hrest => strtod_cLibrary hall hval ?_⟩
  cases hrest <;> rfl

end ApApps.Cjson

import ApApps.Cjson.Nested

/- Arrays, and values that may stand in them.

   `ReadsItem` is `ReadsVal` with a third thing that may follow a value, the bracket at the
   end of an array. It is closed under objects and arrays (`readsItem_obj`,
   `readsItem_arr`), so it holds of any value whose numbers come back. -/
namespace ApApps.Cjson

variable {fp : FpConv}

/-- What follows a value in an object or an array. -/
inductive Stops : Bytes → Prop where
  | comma (rest : Bytes) : Stops (ch ',' :: rest)
  | brace (rest : Bytes) : Stops (ch '\x7d' :: rest)
  | bracket (rest : Bytes) : Stops (ch ']' :: rest)

theorem Closed.stops {rest : Bytes} (h : Closed rest) : Stops rest := by
  cases h with
  | comma r => exact .comma r
  | brace r => exact .brace r

/-- `text` is read as the value `v`, inside `depth` tables. -/
def ReadsItem (fp : FpConv) (depth : Nat) (text : Bytes) (v : Val) : Prop :=
  ∀ fuel, text.length ≤ fuel → ∀ rest, Stops rest → ∃ token s,
    jsonNextToken fp (text ++ rest) = (token, s) ∧ jsonProcessValue fp fuel depth token s = some (v, rest)

theorem ReadsItem.readsVal {depth : Nat} {text : Bytes} {v : Val} (h : ReadsItem fp depth text v) :
    ReadsVal fp depth text v := fun fuel hfuel rest hrest => h fuel hfuel rest hrest.stops

/-! ## Values without others in them -/

theorem exists_fuel {text : Bytes} {fuel : Nat} (h : text.length ≤ fuel) (hne : text ≠ []) :
    ∃ n, fuel = n + 1 := by
  have hpos := List.length_pos_of_ne_nil hne
  exact ⟨fuel - 1, by omega⟩

/-- A value that is one token. -/
theorem readsItem_token {text : Bytes} {token : Token} {v : Val} (hne : text ≠ [])
    (htoken : ∀ rest, Stops rest → jsonNextToken fp (text ++ rest) = (token, rest))
    (hvalue : ∀ n depth rest, jsonProcessValue fp (n + 1) depth token rest = some (v, rest)) (depth : Nat) :
    ReadsItem fp depth text v := by
  intro fuel hfuel rest hrest
  obtain ⟨n, rfl⟩ := exists_fuel hfuel hne
  exact ⟨token, rest, htoken rest hrest, hvalue n depth rest⟩

theorem readsItem_null (depth : Nat) : ReadsItem fp depth (ascii "null") .null :=
  readsItem_token (List.cons_ne_nil _ _) (fun _ _ => rfl) (fun _ _ _ => rfl) depth

theorem readsItem_bool (b : Bool) (depth : Nat) :
    ReadsItem fp depth (if b then ascii "true" else ascii "false") (.bool b) := by
  cases b with
  | true => exact readsItem_token (List.cons_ne_nil _ _) (fun _ _ => rfl) (fun _ _ _ => rfl) depth
  | false => exact readsItem_token (List.cons_ne_nil _ _) (fun _ _ => rfl) (fun _ _ _ => rfl) depth

theorem readsItem_str (s : Bytes) (depth : Nat) : ReadsItem fp depth (jsonAppendString s) (.str s) :=
  readsItem_token (List.cons_ne_nil _ _) (fun rest _ => reads_jsonAppendString s rest) (fun _ _ _ => rfl) depth

/-- The numeral `text` is read as `x`, whatever may follow it. -/
structure ReadsNumeral (fp : FpConv) (text : Bytes) (x : Flt) : Prop where
  start : text.head?.any numeralStart = true
  read : ∀ rest, Stops rest → fp.strtod (text ++ rest) = some (x, rest)

theorem readsItem_num {text : Bytes} {x : Flt} (h : ReadsNumeral fp text x) (depth : Nat) :
    ReadsItem fp depth text (.num x) := by
  have hne : text ≠ [] := by
    rintro rfl
    exact absurd h.start (by simp)
  exact readsItem_token hne (fun rest hrest => jsonNextToken_of_strtod h.start (h.read rest hrest))
    (fun _ _ _ => rfl) depth

theorem readsNumeral_cLibrary {text : Bytes} {x : Flt} (hstart : text.head?.any numeralStart = true)
    (hall : text.all numeralChar = true) (hval : str2d text = some x) : ReadsNumeral cLibrary text x := by
  refine ⟨hstart, fun rest hrest => strtod_cLibrary hall hval ?_⟩
  cases hrest <;> rfl

/-! ## Objects and arrays -/

theorem readsItem_obj {depth : Nat} (hdepth : depth < decodeMaxDepth) {ws : List Written}
    (hnodup : (ws.map Written.key).Nodup) (h : ∀ w ∈ ws, ReadsItem fp (depth + 1) w.text w.back) :
    ReadsItem fp depth (ch '\x7b' :: bodyText ws) (.obj (ws.map fun w => (w.key, w.back))) := by
  intro fuel hfuel rest _
  refine ⟨_, _, jsonNextToken_obj ws rest, ?_⟩
  have hlen : (bodyText ws).length < fuel := by
    rw [List.length_cons] at hfuel
    omega
  rw [jsonProcessValue_obj hdepth ws (fun w hw => (h w hw).readsVal) hlen, storedAll_eq (by simpa using hnodup),
    List.nil_append]

/-- An item of an array: its value, how that is written and what it is read as. -/
structure WrittenItem where
  value : Val
  text : Bytes
  back : Val

/-- The items after the first, and the bracket. -/
def itemsText (ws : List WrittenItem) : Bytes := (ws.flatMap fun w => ch ',' :: w.text) ++ [ch ']']

theorem jsonAppendArray_written {depth : Nat} (ws : List WrittenItem)
    (h : ∀ w ∈ ws, jsonAppendData fp depth w.value = some w.text) :
    jsonAppendArray fp depth (ws.map WrittenItem.value) = some (ws.flatMap fun w => ch ',' :: w.text) := by
  induction ws with
  | nil => rfl
  | cons w ws ih =>
    have hw := h w List.mem_cons_self
    have hws := ih fun w' hw' => h w' (List.mem_cons_of_mem _ hw')
    simp only [List.map_cons, jsonAppendArray, hw, hws, List.flatMap_cons]
    simp

/-- The encoder writes an array item by item. -/
theorem jsonAppendData_arr {depth : Nat} (hdepth : depth < encodeMaxDepth) (w : WrittenItem) (ws : List WrittenItem)
    (h : ∀ w' ∈ w :: ws, jsonAppendData fp (depth + 1) w'.value = some w'.text) :
    jsonAppendData fp depth (.arr ((w :: ws).map WrittenItem.value)) = some (ch '[' :: (w.text ++ itemsText ws)) := by
  have hlt : ¬ encodeMaxDepth < depth + 1 := by omega
  have hw := h w List.mem_cons_self
  have hws := jsonAppendArray_written ws fun w' hw' => h w' (List.mem_cons_of_mem _ hw')
  rw [List.map_cons, jsonAppendData, if_neg hlt, hw, hws]
  simp [itemsText]

theorem jsonNextToken_arrEnd (rest : Bytes) : jsonNextToken fp (ch ']' :: rest) = (.arrEnd, rest) :=
  jsonNextToken_single fp (by decide) (by decide) (by decide) rest

theorem jsonNextToken_arrBegin (rest : Bytes) : jsonNextToken fp (ch '[' :: rest) = (.arrBegin, rest) :=
  jsonNextToken_single fp (by decide) (by decide) (by decide) rest

/-- The loop over the items, from the token of one on. Every pass reads more than it takes fuel. -/
theorem jsonParseArray_written {depth : Nat} (w : WrittenItem) (ws : List WrittenItem)
    (h : ∀ w' ∈ w :: ws, ReadsItem fp depth w'.text w'.back) (fuel : Nat)
    (hfuel : w.text.length + (itemsText ws).length ≤ fuel) (items : List Val) (rest : Bytes) :
    ∃ token s, jsonNextToken fp (w.text ++ (itemsText ws ++ rest)) = (token, s) ∧ token ≠ .arrEnd ∧
      jsonParseArray fp fuel depth items token s =
        some (.arr (items ++ (w :: ws).map WrittenItem.back), rest) := by
  induction ws generalizing w fuel items with
  | nil =>
    obtain ⟨n, rfl⟩ : ∃ n, fuel = n + 1 := ⟨fuel - 1, by simp [itemsText] at hfuel; omega⟩
    obtain ⟨token, s, htoken, hvalue⟩ := h w List.mem_cons_self n (by simp [itemsText] at hfuel; omega) _ (.bracket rest)
    refine ⟨token, s, htoken, ?_, ?_⟩
    · rintro rfl
      cases n <;> cases hvalue
    · rw [jsonParseArray]
      simp only [hvalue, jsonNextToken_arrEnd, List.map_cons, List.map_nil]
  | cons v ws ih =>
    have htext : itemsText (v :: ws) ++ rest = ch ',' :: (v.text ++ (itemsText ws ++ rest)) := by
      simp [itemsText]
    have hlen : (itemsText (v :: ws)).length = v.text.length + (itemsText ws).length + 1 := by
      simp [itemsText]
    obtain ⟨n, rfl⟩ : ∃ n, fuel = n + 1 := ⟨fuel - 1, by omega⟩
    obtain ⟨token, s, htoken, hvalue⟩ := h w List.mem_cons_self n (by omega) _
      (.comma (v.text ++ (itemsText ws ++ rest)))
    obtain ⟨token', s', htoken', -, hnext⟩ := ih v (fun w' hw' => h w' (List.mem_cons_of_mem _ hw')) n
      (by omega) (items ++ [w.back])
    refine ⟨token, s, by rw [htext]; exact htoken, ?_, ?_⟩
    · rintro rfl
      cases n <;> cases hvalue
    · rw [jsonParseArray]
      simp only [hvalue, jsonNextToken_comma, htoken', hnext]
      simp

theorem readsItem_arr {depth : Nat} (hdepth : depth < decodeMaxDepth) (w : WrittenItem) (ws : List WrittenItem)
    (h : ∀ w' ∈ w :: ws, ReadsItem fp (depth + 1) w'.text w'.back) :
    ReadsItem fp depth (ch '[' :: (w.text ++ itemsText ws)) (.arr ((w :: ws).map WrittenItem.back)) := by
  intro fuel hfuel rest _
  rw [List.length_cons, List.length_append] at hfuel
  obtain ⟨n, rfl⟩ : ∃ n, fuel = n + 1 := ⟨fuel - 1, by omega⟩
  obtain ⟨token, s, htoken, hne, hloop⟩ := jsonParseArray_written w ws h n (by omega) [] rest
  refine ⟨.arrBegin, w.text ++ (itemsText ws ++ rest), ?_, ?_⟩
  · rw [List.cons_append, List.append_assoc]
    exact jsonNextToken_arrBegin _
  · have hlt : ¬ decodeMaxDepth < depth + 1 := by omega
    rw [jsonProcessValue, if_neg hlt]
    simp only [htoken]
    cases token with
    | arrEnd => exact absurd rfl hne
    | _ => exact hloop

end ApApps.Cjson

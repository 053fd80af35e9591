import ApApps.Cjson.Table

/- Plain values come back from JSON as they were.

   A copy (`IsCopy`) is the text the encoder writes for a value and the value the decoder
   reads from it. The copies of the entries of a table are put into the order in which they
   are written, by `pairs` or by the index, and are the entries of a copy of the table. -/
namespace ApApps.Cjson

/-! ## Entries -/

section Entries
variable {α β : Type}

theorem fieldOf_eq_some_iff {es : List (Key × α)} (h : (es.map Prod.fst).Nodup) {k : Key} {v : α} :
    fieldOf k es = some v ↔ (k, v) ∈ es := by
  induction es with
  | nil => simp [fieldOf]
  | cons e es ih =>
    obtain ⟨k', v'⟩ := e
    rw [List.map_cons, List.nodup_cons] at h
    rw [fieldOf]
    by_cases hk : k' = k
    · rw [if_pos hk, List.mem_cons, Prod.mk.injEq]
      constructor
      · intro hv
        exact .inl ⟨hk.symm, (Option.some.inj hv).symm⟩
      · rintro (⟨-, hv⟩ | hmem)
        · rw [hv]
        · -- the key comes once
          rw [hk] at h
          exact absurd (List.mem_map_of_mem (f := Prod.fst) hmem) h.1
    · rw [if_neg hk, ih h.2, List.mem_cons, Prod.mk.injEq]
      simp [Ne.symm hk]

theorem fieldOf_perm {es es' : List (Key × α)} (h : es.Perm es') (hnodup : (es.map Prod.fst).Nodup) (k : Key) :
    fieldOf k es = fieldOf k es' := by
  have hnodup' : (es'.map Prod.fst).Nodup := (h.map Prod.fst).nodup_iff.mp hnodup
  ext v
  rw [fieldOf_eq_some_iff hnodup, fieldOf_eq_some_iff hnodup', h.mem_iff]

/-- Related entries have related values at each key. -/
theorem rel_fieldOf {R : α → β → Prop} {es : List (Key × α)} {cs : List (Key × β)}
    (h : List.Forall₂ (fun e c => c.1 = e.1 ∧ R e.2 c.2) es cs) (k : Key) :
    Option.Rel R (fieldOf k es) (fieldOf k cs) := by
  induction h with
  | nil => exact .none
  | cons hec _ ih =>
    obtain ⟨hkey, hR⟩ := hec
    rw [fieldOf, fieldOf, hkey]
    split
    · exact .some hR
    · exact ih

theorem keys_eq_of_forall₂ {R : α → β → Prop} {es : List (Key × α)} {cs : List (Key × β)}
    (h : List.Forall₂ (fun e c => c.1 = e.1 ∧ R e.2 c.2) es cs) : cs.map Prod.fst = es.map Prod.fst := by
  induction h with
  | nil => rfl
  | cons hec _ ih => rw [List.map_cons, List.map_cons, hec.1, ih]

theorem fieldOf_setField (k k' : Key) (v : Option α) (es : List (Key × α)) :
    fieldOf k' (setField k v es) = if k' = k then v else fieldOf k' es := by
  have hlast : fieldOf k' (v.map fun v => (k, v)).toList = if k' = k then v else none := by
    cases v with
    | none => simp [fieldOf]
    | some v => simp [fieldOf, eq_comm]
  unfold setField
  induction es with
  | nil => simpa [fieldOf] using hlast
  | cons e es ih =>
    by_cases he : e.1 = k
    · rw [List.filter_cons_of_neg (by simpa using he), ih, fieldOf, he]
      by_cases hk : k' = k
      · rw [if_pos hk, if_pos hk]
      · rw [if_neg hk, if_neg hk, if_neg (Ne.symm hk)]
    · rw [List.filter_cons_of_pos (by simpa using he), List.cons_append, fieldOf, fieldOf, ih]
      by_cases hk' : e.1 = k'
      · rw [if_pos hk', if_pos hk', if_neg fun h => he (hk'.trans h)]
      · rw [if_neg hk', if_neg hk']

end Entries

/-! ## The same value -/

/-- Tables are the same if their entries are. -/
theorem same_table {es es' : List (Key × Value)} (h : ∀ k, Option.Rel Same (fieldOf k es) (fieldOf k es')) :
    Same (.table es) (.table es') := by
  intro path
  cases path with
  | nil => exact .some rfl
  | cons k path =>
    have hk := h k
    rw [Value.follow, Value.follow]
    generalize fieldOf k es = v at hk ⊢
    generalize fieldOf k es' = v' at hk ⊢
    cases hk with
    | none => exact .none
    | some hsame => exact hsame path

/-- Tables with entries that are not the same are not the same. -/
theorem Same.field {es es' : List (Key × Value)} (h : Same (.table es) (.table es')) (k : Key) :
    (fieldOf k es).isSome = (fieldOf k es').isSome := by
  have hpath := h [k]
  rw [Value.follow, Value.follow] at hpath
  cases hes : fieldOf k es with
  | none =>
    cases hes' : fieldOf k es' with
    | none => rfl
    | some v' =>
      rw [hes, hes'] at hpath
      cases v' <;> cases hpath
  | some v =>
    cases hes' : fieldOf k es' with
    | none =>
      rw [hes, hes'] at hpath
      cases v <;> cases hpath
    | some v' => rfl

/-- A scalar leads nowhere. -/
theorem same_scalar {v w : Value} (hleaf : v.leaf.eq w.leaf = true) (hv : ∀ es, v ≠ .table es)
    (hw : ∀ es, w ≠ .table es) : Same v w := by
  have hnone : ∀ u : Value, (∀ es, u ≠ .table es) → ∀ k path, u.follow (k :: path) = none := by
    intro u hu k path
    cases u with
    | table es => exact absurd rfl (hu es)
    | _ => rfl
  intro path
  cases path with
  | nil =>
    rw [Value.follow, Value.follow]
    exact .some hleaf
  | cons k path =>
    rw [hnone v hv, hnone w hw]
    exact .none

/-! ## Scalars -/

variable {env : Runtime}

/-- What the encoder writes for a value, and what the decoder makes of it. -/
structure IsCopy (env : Runtime) (depth allowed : Nat) (v : Value) (c : WrittenItem) : Prop where
  value : toVal env v = some c.value
  writes : jsonAppendData env.fp depth c.value = some c.text
  reads : ReadsItem env.fp depth c.text c.back
  same : Same v (ofVal c.back)
  plain : Plain env.fp allowed (ofVal c.back)

theorem LuaNum.eq_toFlt {x : LuaNum} (h : IsFinite x.toFlt) : (LuaNum.flt x.toFlt).eq (.flt x.toFlt) = true := by
  simp only [LuaNum.eq, Bool.and_eq_true, decide_eq_true_eq, true_and]
  intro hnan
  exact h (.inr (.inr hnan))

theorem KeptNum.flt {fp : FpConv} {x : LuaNum} (h : KeptNum fp x) : KeptNum fp (.flt x.toFlt) :=
  ⟨h.finite, LuaNum.eq_toFlt h.finite, h.reads⟩

theorem copy_num {x : LuaNum} (h : KeptNum env.fp x) (depth allowed : Nat) :
    IsCopy env depth allowed (.num x) ⟨.num x.toFlt, env.fp.gFmt x.toFlt, .num x.toFlt⟩ where
  value := rfl
  writes := by rw [jsonAppendData, if_neg h.finite]
  reads := readsItem_num h.reads depth
  same := same_scalar h.exact (fun _ h => by cases h) (fun _ h => by cases h)
  plain := .num allowed h.flt

/-! ## Tables -/

theorem exists_copies {depth allowed : Nat} {es : List (Key × Value)}
    (h : ∀ e ∈ es, ∃ c, IsCopy env depth allowed e.2 c) : ∃ cs : List (Key × WrittenItem),
      List.Forall₂ (fun e c => c.1 = e.1 ∧ IsCopy env depth allowed e.2 c.2) es cs ∧
      toVals env es = some (cs.map fun c => (c.1, c.2.value)) := by
  induction es with
  | nil => exact ⟨[], .nil, rfl⟩
  | cons e es ih =>
    obtain ⟨k, v⟩ := e
    obtain ⟨c, hc⟩ := h (k, v) List.mem_cons_self
    obtain ⟨cs, hcs, hvals⟩ := ih fun e he => h e (List.mem_cons_of_mem _ he)
    refine ⟨(k, c) :: cs, .cons ⟨rfl, hc⟩ hcs, ?_⟩
    rw [toVals, hc.value, hvals]
    rfl

/-- The entries of a copy of a table, in any order. -/
def copyEntries (cs : List (Key × WrittenItem)) : List (Key × Value) := cs.map fun c => (c.1, ofVal c.2.back)

theorem same_copyEntries {depth allowed : Nat} {es : List (Key × Value)} {cs ms : List (Key × WrittenItem)}
    (hcs : List.Forall₂ (fun e c => c.1 = e.1 ∧ IsCopy env depth allowed e.2 c.2) es cs) (hperm : cs.Perm ms)
    (hnodup : (es.map Prod.fst).Nodup) : Same (.table es) (.table (copyEntries ms)) := by
  have hkeys : (copyEntries cs).map Prod.fst = es.map Prod.fst := by
    rw [← keys_eq_of_forall₂ hcs, copyEntries, List.map_map]
    rfl
  have hentries : (copyEntries cs).Perm (copyEntries ms) := hperm.map _
  apply same_table
  intro k
  rw [← fieldOf_perm hentries (hkeys ▸ hnodup) k]
  apply rel_fieldOf
  rw [copyEntries, List.forall₂_map_right_iff]
  exact hcs.imp fun e c hec => ⟨hec.1, hec.2.same⟩

theorem forall_copy {depth allowed : Nat} {es : List (Key × Value)} {cs : List (Key × WrittenItem)}
    (hcs : List.Forall₂ (fun e c => c.1 = e.1 ∧ IsCopy env depth allowed e.2 c.2) es cs) :
    ∀ c ∈ cs, ∃ v, IsCopy env depth allowed v c.2 := by
  induction hcs with
  | nil => exact fun _ h => absurd h List.not_mem_nil
  | cons hec _ ih =>
    intro c hc
    rcases List.mem_cons.mp hc with rfl | hc
    · exact ⟨_, hec.2⟩
    · exact ih c hc

/-! ## Objects -/

theorem mapM_eq_some {α β : Type} {f : α → Option β} {g : α → β} {l : List α} (h : ∀ a ∈ l, f a = some (g a)) :
    l.mapM f = some (l.map g) := by
  induction l with
  | nil => rfl
  | cons a l ih =>
    obtain ⟨ha, hl⟩ := List.forall_mem_cons.mp h
    rw [List.mapM_cons, ha, ih hl]
    rfl

/-- A permutation of the images is the image of a permutation. -/
theorem exists_perm_map {α β : Type} {f : α → β} {l : List β} {cs : List α} (h : l.Perm (cs.map f)) :
    ∃ ms : List α, ms.Perm cs ∧ l = ms.map f := by
  induction l generalizing cs with
  | nil =>
    rw [List.map_eq_nil_iff.mp h.symm.eq_nil]
    exact ⟨[], .nil, rfl⟩
  | cons b l ih =>
    obtain ⟨c, hc, rfl⟩ := List.mem_map.mp (h.subset List.mem_cons_self)
    obtain ⟨us, vs, rfl⟩ := List.append_of_mem hc
    have hmid : (us ++ c :: vs).Perm (c :: (us ++ vs)) := List.perm_middle
    have hrest : l.Perm ((us ++ vs).map f) := (h.trans (hmid.map f)).cons_inv
    obtain ⟨ms, hms, rfl⟩ := ih hrest
    exact ⟨c :: ms, (hms.cons c).trans hmid.symm, rfl⟩

/-- The string a key is. -/
def keyBytes : Key → Bytes
  | .str s => s
  | _ => []

theorem str_keyBytes {k : Key} (h : ∃ s, k = .str s) : .str (keyBytes k) = k := by
  obtain ⟨s, rfl⟩ := h
  rfl

/-- A table with strings for keys is written as an object. -/
theorem tableVal_object {vals : List (Key × Val)} (h : ∀ e ∈ vals, ∃ s, e.1 = .str s) :
    tableVal env vals = some (.obj ((env.pairs vals).map fun e => (keyBytes e.1, e.2))) := by
  have hfields : ((env.pairs vals).mapM fun e => (keyText env.fp e.1).map fun k => (k, e.2)) =
      some ((env.pairs vals).map fun e => (keyBytes e.1, e.2)) := by
    apply mapM_eq_some
    intro e he
    obtain ⟨s, hs⟩ := h e ((env.pairs_perm vals).subset he)
    rw [hs]
    rfl
  cases vals with
  | nil =>
    have hlayout : luaArrayLength ([] : List (Key × Val)) = .array 0 := rfl
    rw [tableVal, hlayout]
    exact congrArg (Option.map Val.obj) hfields
  | cons e vals =>
    obtain ⟨s, hs⟩ := h e List.mem_cons_self
    have hlayout : luaArrayLength (e :: vals) = .object := by
      rw [luaArrayLength, List.mapM_cons, hs]
      rfl
    rw [tableVal, hlayout]
    exact congrArg (Option.map Val.obj) hfields

theorem ofFields_eq {ms : List (Key × WrittenItem)} (h : ∀ c ∈ ms, ∃ s, c.1 = .str s) :
    ofFields (ms.map fun c => (keyBytes c.1, c.2.back)) = copyEntries ms := by
  induction ms with
  | nil => rfl
  | cons c ms ih =>
    obtain ⟨hc, hms⟩ := List.forall_mem_cons.mp h
    rw [List.map_cons, ofFields, ih hms, str_keyBytes hc]
    rfl

/-- **An object.** The copies of its entries stand in the order of `pairs`. -/
theorem copy_object {depth allowed : Nat} (hdepth : depth < 1000) {es : List (Key × Value)}
    (hnodup : (es.map Prod.fst).Nodup) (hkeys : ∀ e ∈ es, ∃ s, e.1 = .str s)
    (h : ∀ e ∈ es, ∃ c, IsCopy env (depth + 1) allowed e.2 c) :
    ∃ c es', IsCopy env depth (allowed + 1) (.table es) c ∧ ofVal c.back = .table es' ∧
      PlainMap env.fp allowed es' ∧ (depth = 0 → decode env.fp c.text = some c.back) := by
  obtain ⟨cs, hcs, hvals⟩ := exists_copies h
  have hcskeys := keys_eq_of_forall₂ hcs
  have hstr : ∀ c ∈ cs, ∃ s, c.1 = .str s := by
    intro c hc
    have hmem : c.1 ∈ es.map Prod.fst := hcskeys ▸ List.mem_map_of_mem hc
    obtain ⟨e, he, heq⟩ := List.mem_map.mp hmem
    exact heq ▸ hkeys e he
  obtain ⟨ms, hperm, hms⟩ := exists_perm_map (env.pairs_perm (cs.map fun c => (c.1, c.2.value)))
  have hmsstr : ∀ c ∈ ms, ∃ s, c.1 = .str s := fun c hc => hstr c (hperm.subset hc)
  have hmscopy : ∀ c ∈ ms, ∃ v, IsCopy env (depth + 1) allowed v c.2 :=
    fun c hc => forall_copy hcs c (hperm.subset hc)
  have hmsnodup : (ms.map Prod.fst).Nodup := by
    rw [(hperm.map Prod.fst).nodup_iff, hcskeys]
    exact hnodup
  -- the fields of the text
  let ws : List Written := ms.map fun c => ⟨keyBytes c.1, c.2.value, c.2.text, c.2.back⟩
  have hwsnodup : (ws.map Written.key).Nodup := by
    have hkeysEq : (ms.map Prod.fst) = (ws.map Written.key).map Key.str := by
      rw [List.map_map, List.map_map]
      exact List.map_congr_left fun c hc => (str_keyBytes (hmsstr c hc)).symm
    rw [hkeysEq] at hmsnodup
    exact hmsnodup.of_map _
  have hwrites : ∀ w ∈ ws, jsonAppendData env.fp (depth + 1) w.value = some w.text := by
    intro w hw
    obtain ⟨c, hc, rfl⟩ := List.mem_map.mp hw
    obtain ⟨_, hcopy⟩ := hmscopy c hc
    exact hcopy.writes
  have hreads : ∀ w ∈ ws, ReadsItem env.fp (depth + 1) w.text w.back := by
    intro w hw
    obtain ⟨c, hc, rfl⟩ := List.mem_map.mp hw
    obtain ⟨_, hcopy⟩ := hmscopy c hc
    exact hcopy.reads
  have hback : ofVal (.obj (ws.map fun w => (w.key, w.back))) = .table (copyEntries ms) := by
    rw [List.map_map, ofVal]
    exact congrArg Value.table (ofFields_eq hmsstr)
  have hplain : PlainMap env.fp allowed (copyEntries ms) := by
    refine ⟨?_, ?_, ?_⟩
    · rw [copyEntries, List.map_map]
      exact hmsnodup
    · intro e he
      obtain ⟨c, hc, rfl⟩ := List.mem_map.mp he
      exact hmsstr c hc
    · intro e he
      obtain ⟨c, hc, rfl⟩ := List.mem_map.mp he
      obtain ⟨_, hcopy⟩ := hmscopy c hc
      exact hcopy.plain
  have hwritten := jsonAppendData_written hdepth ws hwrites
  refine ⟨⟨.obj (ws.map fun w => (w.key, w.value)), ch '\x7b' :: bodyText ws, .obj (ws.map fun w => (w.key, w.back))⟩,
    copyEntries ms, ⟨?_, hwritten, readsItem_obj hdepth hwsnodup hreads, ?_, ?_⟩, hback, hplain, ?_⟩
  · rw [toVal, hvals, Option.bind_some, tableVal_object, hms]
    · simp only [List.map_map, ws]
      rfl
    · intro e he
      obtain ⟨c, hc, rfl⟩ := List.mem_map.mp he
      exact hstr c hc
  · rw [hback]
    exact same_copyEntries hcs hperm.symm hnodup
  · rw [hback]
    exact .object hplain.nodup hplain.keys hplain.values
  · rintro rfl
    obtain ⟨text, htext, hdecode⟩ := decode_obj hwsnodup hwrites fun w hw => (hreads w hw).readsVal
    rw [encode, hwritten] at htext
    cases htext
    exact hdecode

/-! ## Arrays -/

theorem length_indexed {α : Type} (items : List α) : (indexed items).length = items.length := by
  rw [indexed, List.length_map, List.length_zipIdx]

theorem getElem_indexed {α : Type} (items : List α) (i : Nat) (h : i < (indexed items).length) :
    (indexed items)[i] = (.num (.int (i + 1)), items.get ⟨i, length_indexed items ▸ h⟩) := by
  simp [indexed]

theorem nodup_indexed {α : Type} (items : List α) : ((indexed items).map Prod.fst).Nodup := by
  rw [List.nodup_iff_getElem?_ne_getElem?]
  intro i j hij hj
  rw [List.length_map] at hj
  rw [List.getElem?_map, List.getElem?_map, List.getElem?_eq_getElem (hij.trans hj), List.getElem?_eq_getElem hj,
    getElem_indexed, getElem_indexed]
  simp only [Option.map_some, ne_eq, Option.some.injEq, Key.num.injEq, LuaNum.int.injEq]
  omega

theorem foldl_max_eq {l : List Nat} {n : Nat} (hle : ∀ x ∈ l, x ≤ n) : ∀ a ≤ n, (n ∈ l ∨ a = n) → l.foldl max a = n := by
  induction l with
  | nil =>
    rintro a - (h | h)
    · exact absurd h List.not_mem_nil
    · exact h
  | cons x l ih =>
    intro a ha h
    obtain ⟨hx, hl⟩ := List.forall_mem_cons.mp hle
    rw [List.foldl_cons]
    refine ih hl (max a x) (max_le ha hx) ?_
    rcases h with h | h
    · rcases List.mem_cons.mp h with rfl | h
      · exact .inr (max_eq_right ha)
      · exact .inl h
    · exact .inr (by rw [h]; exact max_eq_left hx)

/-- `lua_array_length` of an array without holes is its length. -/
theorem luaArrayLength_indexed {α β : Type} {vals : List (Key × α)} {items : List β} (hne : items ≠ [])
    (hperm : (vals.map Prod.fst).Perm ((indexed items).map Prod.fst)) :
    luaArrayLength vals = .array items.length := by
  have hindex : ∀ e ∈ vals, ∃ i < items.length, e.1 = .num (.int ((i : Nat) + 1)) := by
    intro e he
    have hmem := hperm.subset (List.mem_map_of_mem he)
    obtain ⟨x, hx, heq⟩ := List.mem_map.mp hmem
    obtain ⟨i, hi, rfl⟩ := List.getElem_of_mem hx
    rw [getElem_indexed] at heq
    exact ⟨i, length_indexed items ▸ hi, heq.symm⟩
  have hindexed : ∀ i : Nat, (Key.num (.int ((i : Int) + 1))).index = some (i + 1) := by
    intro i
    rw [Key.index, if_pos (by omega)]
    exact congrArg some (by omega)
  have hall : (vals.mapM fun e => e.1.index) = some (vals.map fun e => e.1.index.getD 0) := by
    apply mapM_eq_some
    intro e he
    obtain ⟨i, -, hi⟩ := hindex e he
    rw [hi, hindexed]
    rfl
  have hlen : (vals.map fun e => e.1.index.getD 0).length = items.length := by
    rw [List.length_map, ← List.length_map (f := Prod.fst), hperm.length_eq, List.length_map, length_indexed]
  have hmax : (vals.map fun e => e.1.index.getD 0).foldl max 0 = items.length := by
    refine foldl_max_eq ?_ 0 (Nat.zero_le _) (.inl ?_)
    · intro x hx
      obtain ⟨e, he, rfl⟩ := List.mem_map.mp hx
      obtain ⟨i, hi, heq⟩ := hindex e he
      rw [heq, hindexed]
      exact hi
    · -- the last item
      have hpos := List.length_pos_of_ne_nil hne
      have hlast : items.length - 1 < (indexed items).length := by
        rw [length_indexed]
        omega
      have hmem : Key.num (.int (((items.length - 1 : Nat) : Int) + 1)) ∈ vals.map Prod.fst := by
        refine hperm.symm.subset (List.mem_map.mpr ⟨_, List.getElem_mem hlast, ?_⟩)
        rw [getElem_indexed]
      obtain ⟨e, he, heq⟩ := List.mem_map.mp hmem
      refine List.mem_map.mpr ⟨e, he, ?_⟩
      rw [heq, hindexed]
      exact Nat.sub_add_cancel hpos
  have hsparse : ¬ (items.length * 2 < items.length ∧ 10 < items.length) := by omega
  rw [luaArrayLength, hall]
  simp only [hmax, hlen, if_neg hsparse]

/-- The items of an array, if `ms` are its entries in the order of the indices. -/
theorem arrayItems_eq {vals : List (Key × Val)} {ms : List (Key × WrittenItem)}
    (hperm : (ms.map fun c => (c.1, c.2.value)).Perm vals) (hnodup : (ms.map Prod.fst).Nodup)
    (hkeys : ∀ i (h : i < ms.length), ms[i].1 = .num (.int (i + 1))) :
    arrayItems ms.length vals = ms.map fun c => c.2.value := by
  have hmsnodup : ((ms.map fun c => (c.1, c.2.value)).map Prod.fst).Nodup := by
    rw [List.map_map]
    exact hnodup
  refine List.ext_getElem (by simp [arrayItems]) fun i h1 h2 => ?_
  rw [List.length_map] at h2
  have hmem : (Key.num (.int (i + 1)), ms[i].2.value) ∈ ms.map fun c => (c.1, c.2.value) :=
    List.mem_map.mpr ⟨ms[i], List.getElem_mem h2, by rw [hkeys i h2]⟩
  have hfield := (fieldOf_eq_some_iff hmsnodup).mpr hmem
  rw [fieldOf_perm hperm hmsnodup] at hfield
  simp only [arrayItems, List.getElem_map, List.getElem_range, hfield, Option.getD_some]

theorem ofItems_eq (vs : List Val) : ofItems vs = vs.map ofVal := by
  induction vs with
  | nil => rfl
  | cons v vs ih => rw [ofItems, ih, List.map_cons]

/-- **An array.** The copies of its entries stand in the order of the indices. -/
theorem copy_array {depth allowed : Nat} (hdepth : depth < 1000) {es : List (Key × Value)} {items : List Value}
    (hne : items ≠ []) (hitems : es.Perm (indexed items))
    (h : ∀ e ∈ es, ∃ c, IsCopy env (depth + 1) allowed e.2 c) :
    ∃ c, IsCopy env depth (allowed + 1) (.table es) c := by
  obtain ⟨cs, hcs, hvals⟩ := exists_copies h
  have hcskeys := keys_eq_of_forall₂ hcs
  have hnodup : (es.map Prod.fst).Nodup := (hitems.map Prod.fst).nodup_iff.mpr (nodup_indexed items)
  obtain ⟨ms, hms, hperm⟩ := List.perm_comp_forall₂ hitems.symm hcs
  have hmslen : ms.length = items.length := by rw [← hms.length_eq, length_indexed]
  have hmskeys : ∀ i (h : i < ms.length), ms[i].1 = .num (.int (i + 1)) := by
    intro i hi
    have hi' : i < (indexed items).length := by rw [length_indexed, ← hmslen]; exact hi
    have hget := (hms.get hi' hi).1
    rw [List.get_eq_getElem, List.get_eq_getElem, getElem_indexed] at hget
    exact hget
  have hmscopy : ∀ c ∈ ms, ∃ v, IsCopy env (depth + 1) allowed v c.2 := forall_copy hms
  have hmsnodup : (ms.map Prod.fst).Nodup := by
    rw [keys_eq_of_forall₂ hms]
    exact nodup_indexed items
  have hlayout : luaArrayLength (cs.map fun c => (c.1, c.2.value)) = .array items.length := by
    apply luaArrayLength_indexed hne
    rw [List.map_map]
    exact (hcskeys ▸ (hitems.map Prod.fst) : (cs.map Prod.fst).Perm ((indexed items).map Prod.fst))
  have hentries : copyEntries ms = indexed (ms.map fun c => ofVal c.2.back) := by
    refine List.ext_getElem (by simp [length_indexed, copyEntries]) fun i h1 h2 => ?_
    have hi : i < ms.length := by simpa [copyEntries] using h1
    rw [getElem_indexed]
    simp only [copyEntries, List.get_eq_getElem, List.getElem_map, hmskeys i hi]
  have hback : ofVal (.arr (ms.map fun c => c.2.back)) = .table (copyEntries ms) := by
    rw [hentries, ofVal, ofItems_eq, List.map_map]
    rfl
  obtain ⟨m, ms', rfl⟩ : ∃ m ms', ms = m :: ms' := by
    cases ms with
    | nil => exact absurd (List.eq_nil_of_length_eq_zero hmslen.symm) hne
    | cons m ms' => exact ⟨m, ms', rfl⟩
  have hwrites : ∀ w ∈ m.2 :: ms'.map Prod.snd, jsonAppendData env.fp (depth + 1) w.value = some w.text := by
    intro w hw
    rw [← List.map_cons] at hw
    obtain ⟨c, hc, rfl⟩ := List.mem_map.mp hw
    obtain ⟨_, hcopy⟩ := hmscopy c hc
    exact hcopy.writes
  have hreads : ∀ w ∈ m.2 :: ms'.map Prod.snd, ReadsItem env.fp (depth + 1) w.text w.back := by
    intro w hw
    rw [← List.map_cons] at hw
    obtain ⟨c, hc, rfl⟩ := List.mem_map.mp hw
    obtain ⟨_, hcopy⟩ := hmscopy c hc
    exact hcopy.reads
  have hbacks : (m.2 :: ms'.map Prod.snd).map WrittenItem.back = (m :: ms').map fun c => c.2.back := by
    rw [← List.map_cons, List.map_map]
    rfl
  refine ⟨⟨_, _, _⟩, ⟨?_, jsonAppendData_arr hdepth m.2 (ms'.map Prod.snd) hwrites,
    readsItem_arr hdepth m.2 (ms'.map Prod.snd) hreads, ?_, ?_⟩⟩
  · rw [toVal, hvals, Option.bind_some, tableVal, hlayout, ← hmslen]
    have hitemsEq := arrayItems_eq (hperm.map fun c => (c.1, c.2.value)) hmsnodup hmskeys
    simp only [List.length_cons] at hitemsEq ⊢
    rw [hitemsEq, ← List.map_cons, List.map_map]
    rfl
  · rw [hbacks, hback]
    exact same_copyEntries hcs hperm.symm hnodup
  · rw [hbacks, hback]
    have hvaluesNe : (m :: ms').map (fun c => ofVal c.2.back) ≠ [] := List.cons_ne_nil _ _
    refine .array hvaluesNe (hentries ▸ .refl _) ?_
    intro e he
    obtain ⟨c, hc, rfl⟩ := List.mem_map.mp he
    obtain ⟨_, hcopy⟩ := hmscopy c hc
    exact hcopy.plain

/-! ## All of them -/

/-- **A plain value comes back the same.** -/
theorem copy_of_plain {v : Value} {allowed : Nat} (h : Plain env.fp allowed v) :
    ∀ depth, depth + allowed ≤ 1000 → ∃ c, IsCopy env depth allowed v c := by
  induction h with
  | null allowed =>
    intro depth _
    exact ⟨⟨.null, ascii "null", .null⟩, rfl, rfl, readsItem_null depth,
      same_scalar rfl (fun _ h => by cases h) (fun _ h => by cases h), .null allowed⟩
  | bool allowed b =>
    intro depth _
    exact ⟨⟨.bool b, if b then ascii "true" else ascii "false", .bool b⟩, rfl, by rw [jsonAppendData],
      readsItem_bool b depth, same_scalar (decide_eq_true rfl) (fun _ h => by cases h) (fun _ h => by cases h),
      .bool allowed b⟩
  | num allowed hx =>
    intro depth _
    exact ⟨_, copy_num hx depth allowed⟩
  | str allowed s =>
    intro depth _
    exact ⟨⟨.str s, jsonAppendString s, .str s⟩, rfl, rfl, readsItem_str s depth,
      same_scalar (decide_eq_true rfl) (fun _ h => by cases h) (fun _ h => by cases h), .str allowed s⟩
  | array hne hperm _ ih =>
    intro depth hdepth
    exact copy_array (by omega) hne hperm fun e he => ih e he (depth + 1) (by omega)
  | object hnodup hkeys _ ih =>
    intro depth hdepth
    obtain ⟨c, _, hcopy, _⟩ := copy_object (by omega) hnodup hkeys fun e he => ih e he (depth + 1) (by omega)
    exact ⟨c, hcopy⟩

/-- What a table with strings for keys is decoded as, after it has been encoded. -/
theorem decode_plainMap {es : List (Key × Value)} (h : PlainMap env.fp 999 es) :
    ∃ w text back es', toVal env (.table es) = some w ∧ encode env.fp w = some text ∧
      decode env.fp text = some back ∧ ofVal back = .table es' ∧ Same (.table es) (.table es') ∧
      PlainMap env.fp 999 es' := by
  have hcopies : ∀ e ∈ es, ∃ c, IsCopy env (0 + 1) 999 e.2 c :=
    fun e he => copy_of_plain (h.values e he) 1 (by decide)
  obtain ⟨c, es', hcopy, hback, hplain, hdecode⟩ := copy_object (by decide) h.nodup h.keys hcopies
  exact ⟨c.value, c.text, c.back, es', hcopy.value, hcopy.writes, hdecode rfl, hback, hback ▸ hcopy.same, hplain⟩

theorem Same.refl_of_plain {fp : FpConv} {v : Value} {allowed : Nat} (h : Plain fp allowed v) : Same v v := by
  induction h with
  | null => exact same_scalar rfl (fun _ h => by cases h) (fun _ h => by cases h)
  | bool => exact same_scalar (decide_eq_true rfl) (fun _ h => by cases h) (fun _ h => by cases h)
  | num allowed hx =>
    exact same_scalar (LuaNum.eq_trans hx.exact (LuaNum.eq_symm hx.exact)) (fun _ h => by cases h) (fun _ h => by cases h)
  | str => exact same_scalar (decide_eq_true rfl) (fun _ h => by cases h) (fun _ h => by cases h)
  | array hne hperm _ ih =>
    refine same_table fun k => ?_
    cases hk : fieldOf k _ with
    | none => exact .none
    | some v =>
      have hnodup := (hperm.map Prod.fst).nodup_iff.mpr (nodup_indexed _)
      exact .some (ih (k, v) ((fieldOf_eq_some_iff hnodup).mp hk))
  | object hnodup hkeys _ ih =>
    refine same_table fun k => ?_
    cases hk : fieldOf k _ with
    | none => exact .none
    | some v => exact .some (ih (k, v) ((fieldOf_eq_some_iff hnodup).mp hk))

end ApApps.Cjson

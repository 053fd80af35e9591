import ApApps.Setconf.Memfile

/- What `compare_cfg` compares, and what is left of a table in the file.

   Two tables are the same by `R` (`SameBy R`) if they have the same keys and, at each
   key, values related by `R`. `compareCfg_false_iff` says when the loops of
   `compare_cfg`, which go one way, find out whether tables are the same. A table in the
   file is a copy of the one in memory (`exists_copy`), if every number of it survives
   the way through the file. -/
namespace ApApps.Setconf
open Cjson ApApps.Cfg

/-! ## The same table -/

theorem Item.eq_symm {a b : Item} (h : a.eq b = true) : b.eq a = true := by
  cases a with
  | num x =>
    cases b with
    | num y => exact LuaNum.eq_symm h
    | str t => cases h
  | str s =>
    cases b with
    | num y => cases h
    | str t => simpa [Item.eq, eq_comm] using h

theorem Item.eq_trans {a b c : Item} (h : a.eq b = true) (h' : b.eq c = true) : a.eq c = true := by
  cases b with
  | num y =>
    cases a with
    | num x =>
      cases c with
      | num z => exact LuaNum.eq_trans h h'
      | str u => cases h'
    | str s => cases h
  | str t =>
    cases a with
    | num x => cases h
    | str s =>
      obtain rfl : s = t := by simpa [Item.eq] using h
      exact h'

section Tables
variable {α β γ : Type}

/-- The same keys, and related values. -/
def SameBy (R : α → β → Prop) (t : Table α) (t' : Table β) : Prop :=
  ∀ k, Option.Rel R (t.lookup k) (t'.lookup k)

theorem option_rel_isSome {R : α → β → Prop} {a : Option α} {b : Option β} (h : Option.Rel R a b) :
    a.isSome = b.isSome := by
  cases h <;> rfl

theorem option_rel_mono {R S : α → β → Prop} (h : ∀ a b, R a b → S a b) {a : Option α} {b : Option β}
    (hab : Option.Rel R a b) : Option.Rel S a b := by
  cases hab with
  | none => exact .none
  | some hab => exact .some (h _ _ hab)

theorem option_rel_symm {R : α → β → Prop} {S : β → α → Prop} (h : ∀ a b, R a b → S b a) {a : Option α} {b : Option β}
    (hab : Option.Rel R a b) : Option.Rel S b a := by
  cases hab with
  | none => exact .none
  | some hab => exact .some (h _ _ hab)

theorem option_rel_trans {R : α → β → Prop} {S : β → γ → Prop} {T : α → γ → Prop} (h : ∀ a b c, R a b → S b c → T a c)
    {a : Option α} {b : Option β} {c : Option γ} (hab : Option.Rel R a b) (hbc : Option.Rel S b c) :
    Option.Rel T a c := by
  cases hab with
  | none =>
    cases hbc
    exact .none
  | some hab =>
    cases hbc with
    | some hbc => exact .some (h _ _ _ hab hbc)

theorem SameBy.mono {R S : α → β → Prop} (h : ∀ a b, R a b → S a b) {t : Table α} {t' : Table β}
    (ht : SameBy R t t') : SameBy S t t' :=
  fun k => option_rel_mono h (ht k)

theorem SameBy.symm {R : α → β → Prop} {S : β → α → Prop} (h : ∀ a b, R a b → S b a) {t : Table α} {t' : Table β}
    (ht : SameBy R t t') : SameBy S t' t :=
  fun k => option_rel_symm h (ht k)

theorem SameBy.trans {R : α → β → Prop} {S : β → γ → Prop} {T : α → γ → Prop} (h : ∀ a b c, R a b → S b c → T a c)
    {t : Table α} {t' : Table β} {t'' : Table γ} (ht : SameBy R t t') (ht' : SameBy S t' t'') : SameBy T t t'' :=
  fun k => option_rel_trans h (ht k) (ht' k)

theorem lookup_of_mem {t : Table α} {e : (_ : Bytes) × α} (h : e ∈ t.entries) : t.lookup e.1 = some e.2 :=
  AList.mem_lookup_iff.mpr h

theorem mem_of_lookup {t : Table α} {k : Bytes} {a : α} (h : t.lookup k = some a) : ⟨k, a⟩ ∈ t.entries :=
  AList.mem_lookup_iff.mp h

/-- One table is covered by the other, and the other has no more keys. -/
theorem sameBy_iff {R : α → β → Prop} {t : Table α} {t' : Table β} :
    SameBy R t t' ↔ (∀ e ∈ t.entries, ∃ b ∈ t'.lookup e.1, R e.2 b) ∧ ∀ e ∈ t'.entries, (t.lookup e.1).isSome = true := by
  constructor
  · intro h
    refine ⟨fun e he => ?_, fun e he => ?_⟩
    · have hk := h e.1
      rw [lookup_of_mem he] at hk
      cases hb : t'.lookup e.1 with
      | none =>
        rw [hb] at hk
        cases hk
      | some b =>
        rw [hb] at hk
        obtain ⟨hab⟩ := hk
        exact ⟨b, rfl, hab⟩
    · rw [option_rel_isSome (h e.1), lookup_of_mem he]
      rfl
  · rintro ⟨hcover, hkeys⟩ k
    cases ha : t.lookup k with
    | none =>
      cases hb : t'.lookup k with
      | none => exact .none
      | some b =>
        have hk := hkeys _ (mem_of_lookup hb)
        rw [ha] at hk
        cases hk
    | some a =>
      obtain ⟨b, hb, hab⟩ := hcover _ (mem_of_lookup ha)
      rw [show t'.lookup k = some b from hb]
      exact .some hab

instance {R : α → β → Prop} [DecidableRel R] (t : Table α) (t' : Table β) : Decidable (SameBy R t t') :=
  decidable_of_iff _ sameBy_iff.symm

end Tables

/-- Two tables of settings are equal. -/
def SameKvmap (t t' : Kvmap) : Prop := SameBy (fun a b : Item => a.eq b = true) t t'

instance : DecidableRel SameKvmap := fun t t' => inferInstanceAs (Decidable (SameBy _ t t'))

/-- Two maps of such tables are equal. -/
def SameCfgMap (t t' : CfgMap) : Prop := SameBy SameKvmap t t'

instance : DecidableRel SameCfgMap := fun t t' => inferInstanceAs (Decidable (SameBy _ t t'))

/-! ## compare_cfg -/

/-- `t` has the keys of `t'`. -/
def Covers {α β : Type} (t : Table α) (t' : Table β) : Prop :=
  ∀ k, (t'.lookup k).isSome = true → (t.lookup k).isSome = true

/-- The loop over the settings of one table, when the other one has no more. -/
theorem settingChange_false_iff {cfg oCfg : Kvmap} (hkeys : Covers cfg oCfg) :
    settingChange cfg oCfg = false ↔ SameKvmap cfg oCfg := by
  have hloop : settingChange cfg oCfg = false ↔ ∀ e ∈ cfg.entries, ∃ b ∈ oCfg.lookup e.1, e.2.eq b = true := by
    simp only [settingChange, List.any_eq_false, Bool.not_eq_true', Bool.not_eq_false, Option.any_eq_true]
    exact Iff.rfl
  rw [hloop, SameKvmap, sameBy_iff]
  refine (and_iff_left ?_).symm
  intro e he
  exact hkeys e.1 (by rw [lookup_of_mem he]; rfl)

/-- **The loops find every difference**, and nothing else, if the old radios and the old settings of
each radio and WLAN are among the new ones. -/
theorem compareCfg_false_iff {dev iface oDev oIface : CfgMap} (hdevs : Covers dev oDev)
    (hdev : ∀ k a b, dev.lookup k = some a → oDev.lookup k = some b → Covers a b)
    (hiface : ∀ k a b, iface.lookup k = some a → oIface.lookup k = some b → Covers a b) :
    compareCfg dev iface oDev oIface = false ↔ SameCfgMap dev oDev ∧ SameCfgMap iface oIface := by
  simp only [compareCfg, Bool.or_eq_false_iff, List.any_eq_false, Bool.not_eq_true, SameCfgMap, sameBy_iff]
  have hradio : (∀ e ∈ dev.entries, (oDev.lookup e.1).elim true (settingChange e.2) = false) ↔
      ∀ e ∈ dev.entries, ∃ b ∈ oDev.lookup e.1, SameKvmap e.2 b := by
    refine forall₂_congr fun e he => ?_
    cases hb : oDev.lookup e.1 with
    | none => simp
    | some b => simpa using settingChange_false_iff (hdev e.1 e.2 b (lookup_of_mem he) hb)
  have hwlan : ((∀ e ∈ iface.entries, (oIface.lookup e.1).isNone = false) ∧
      ∀ e ∈ iface.entries, (oIface.lookup e.1).elim false (settingChange e.2) = false) ↔
      ∀ e ∈ iface.entries, ∃ b ∈ oIface.lookup e.1, SameKvmap e.2 b := by
    rw [← forall₂_and]
    refine forall₂_congr fun e he => ?_
    cases hb : oIface.lookup e.1 with
    | none => simp
    | some b => simpa using settingChange_false_iff (hiface e.1 e.2 b (lookup_of_mem he) hb)
  have hold : (∀ e ∈ oDev.entries, (dev.lookup e.1).isSome = true) :=
    fun e he => hdevs e.1 (by rw [lookup_of_mem he]; rfl)
  have hdel : (∀ e ∈ oIface.entries, (iface.lookup e.1).isNone = false) ↔
      ∀ e ∈ oIface.entries, (iface.lookup e.1).isSome = true := by
    simp only [Option.isNone_eq_false_iff]
  rw [← hwlan, ← hradio, hdel]
  constructor
  · rintro ⟨⟨⟨h1, h2⟩, h3⟩, h4⟩
    exact ⟨⟨h1, hold⟩, ⟨h2, h4⟩, h3⟩
  · rintro ⟨⟨h1, _⟩, ⟨h2, h4⟩, h3⟩
    exact ⟨⟨⟨h1, h2⟩, h3⟩, h4⟩

/-! ## Through the file -/

/-- The number is written as a numeral that is read as an equal number. -/
def Survives (fp : FpConv) (x : LuaNum) : Prop :=
  IsFinite x.toFlt ∧ ∃ y, ReadsNum fp (fp.gFmt x.toFlt) y ∧ (LuaNum.flt y).eq x = true

/-- The same for the C library, computed. -/
def survives (x : LuaNum) : Bool :=
  let text := cLibrary.gFmt x.toFlt
  x.toFlt ∉ [.inf, .ninf, .nan] && text.head?.any numeralStart && text.all numeralChar &&
    (str2d text).any fun y => (LuaNum.flt y).eq x

theorem survives_cLibrary {x : LuaNum} (h : survives x = true) : Survives cLibrary x := by
  simp only [survives, Bool.and_eq_true, decide_eq_true_eq] at h
  obtain ⟨⟨⟨hfin, hstart⟩, hall⟩, hread⟩ := h
  obtain ⟨y, hy, heq⟩ := (Option.any_eq_true _ _).mp hread
  exact ⟨by simpa [IsFinite] using hfin, y, readsNum_cLibrary hstart hall hy, heq⟩

/-- An equal value that can be written. -/
def Copied (b a : Item) : Prop := b.eq a = true ∧ ∀ x, b = .num x → IsFinite x.toFlt

/-- The value `a` is written by `val`, read by `item`, and is `b` then. -/
def CopyOf {α : Type} (fp : FpConv) (depth : Nat) (val : α → Val) (item : Val → Option α) (a b : α) : Prop :=
  ∃ v, Back fp depth (val a) v ∧ item v = some b

theorem isFinite_of_eq {x : LuaNum} {y : Flt} (hx : IsFinite x.toFlt) (h : (LuaNum.flt y).eq x = true) :
    IsFinite y := by
  cases x with
  | int i =>
    have hy : (LuaNum.flt y).toInteger = some i := by simpa [LuaNum.eq] using h
    rw [LuaNum.eq_fin_of_toInteger hy]
    simp [IsFinite]
  | flt f =>
    simp only [LuaNum.eq, Bool.and_eq_true, decide_eq_true_eq] at h
    exact h.1 ▸ hx

/-- A setting. -/
theorem exists_copy_item {fp : FpConv} (depth : Nat) {a : Item} (h : ∀ x, a = .num x → Survives fp x) :
    ∃ b, CopyOf fp depth itemVal valItem a b ∧ Copied b a := by
  cases a with
  | str s => exact ⟨.str s, ⟨.str s, back_str depth s, rfl⟩, by simp [Item.eq], nofun⟩
  | num x =>
    obtain ⟨hfin, y, hread, heq⟩ := h x rfl
    refine ⟨.num (.flt y), ⟨.num y, back_num hfin hread depth, rfl⟩, heq, ?_⟩
    rintro z hz
    cases hz
    exact isFinite_of_eq hfin heq

section Tables
variable {α : Type} {env : Env} {depth : Nat} {val : α → Val} {item : Val → Option α} {R : α → α → Prop}

/-- The fields `ws` are those of the table `t`, and are read as those of `t'`. -/
structure Fields (env : Env) (depth : Nat) (val : α → Val) (item : Val → Option α) (R : α → α → Prop)
    (t : Table α) (ws : List Written) (t' : Table α) : Prop where
  value : tableVal env val t = .obj (ws.map fun w => (w.key, w.value))
  nodup : (ws.map Written.key).Nodup
  write : ∀ w ∈ ws, jsonAppendData env.fp (depth + 1) w.value = some w.text
  read : ∀ w ∈ ws, ReadsVal env.fp (depth + 1) w.text w.back
  back : valTable item (.obj (ws.map fun w => (w.key, w.back))) = some t'
  same : SameBy R t' t

/-- The same, for the entries of the table in any order. -/
theorem exists_fields_list {l : List ((_ : Bytes) × α)}
    (h : ∀ e ∈ l, ∃ b, CopyOf env.fp (depth + 1) val item e.2 b ∧ R b e.2) :
    ∃ (ws : List Written) (l' : List ((_ : Bytes) × α)),
      l.map (fun e => (e.1, val e.2)) = ws.map (fun w => (w.key, w.value)) ∧ ws.map Written.key = l.map Sigma.fst ∧
      (∀ w ∈ ws, jsonAppendData env.fp (depth + 1) w.value = some w.text ∧ ReadsVal env.fp (depth + 1) w.text w.back) ∧
      (ws.map fun w => (w.key, w.back)).mapM (fun kv => (item kv.2).map fun v => (⟨kv.1, v⟩ : (_ : Bytes) × α)) =
        some l' ∧
      ∀ k, Option.Rel R (l'.dlookup k) (l.dlookup k) := by
  induction l with
  | nil => exact ⟨[], [], rfl, rfl, by simp, rfl, fun _ => .none⟩
  | cons e l ih =>
    obtain ⟨ws, l', hval, hkey, hws, hback, hrel⟩ := ih fun e' he' => h e' (List.mem_cons_of_mem _ he')
    obtain ⟨b, ⟨v, ⟨text, hwrite, hread⟩, hitem⟩, hb⟩ := h e List.mem_cons_self
    refine ⟨⟨e.1, val e.2, text, v⟩ :: ws, ⟨e.1, b⟩ :: l', ?_, ?_, ?_, ?_, ?_⟩
    · rw [List.map_cons, List.map_cons, hval]
    · rw [List.map_cons, List.map_cons, hkey]
    · intro w hw
      rcases List.mem_cons.mp hw with rfl | hw
      · exact ⟨hwrite, hread⟩
      · exact hws w hw
    · rw [List.map_cons, List.mapM_cons, hback, hitem]
      rfl
    · intro k
      by_cases hk : k = e.1
      · subst hk
        rw [List.dlookup_cons_eq, show e = ⟨e.1, e.2⟩ from rfl, List.dlookup_cons_eq]
        exact .some hb
      · rw [List.dlookup_cons_ne l' ⟨e.1, b⟩ hk, List.dlookup_cons_ne l e hk]
        exact hrel k

theorem exists_fields {t : Table α} (h : ∀ e ∈ t.entries, ∃ b, CopyOf env.fp (depth + 1) val item e.2 b ∧ R b e.2) :
    ∃ ws t', Fields env depth val item R t ws t' := by
  have hperm := env.pairs_perm t.entries
  obtain ⟨ws, l', hval, hkey, hws, hback, hrel⟩ := exists_fields_list (l := env.pairs t.entries)
    fun e he => h e (hperm.mem_iff.mp he)
  have hnodup : (env.pairs t.entries).NodupKeys := (List.perm_nodupKeys hperm).mpr t.nodupKeys
  refine ⟨ws, l'.toAList, congrArg Val.obj hval, ?_, fun w hw => (hws w hw).1, fun w hw => (hws w hw).2, ?_, fun k => ?_⟩
  · rw [hkey]
    exact hnodup
  · rw [valTable, hback]
    rfl
  · rw [AList.lookup_to_alist, AList.lookup, ← List.perm_dlookup k hnodup hperm]
    exact hrel k

/-- A table inside another one. -/
theorem exists_copy_table (hdepth : depth < 1000) {t : Table α}
    (h : ∀ e ∈ t.entries, ∃ b, CopyOf env.fp (depth + 1) val item e.2 b ∧ R b e.2) :
    ∃ t', CopyOf env.fp depth (tableVal env val) (valTable item) t t' ∧ SameBy R t' t := by
  obtain ⟨ws, t', hf⟩ := exists_fields h
  refine ⟨t', ⟨_, ?_, hf.back⟩, hf.same⟩
  rw [hf.value]
  exact back_obj hdepth hf.nodup hf.write hf.read

end Tables

/-- A copy of the tables of the memfile. -/
def CopiedMap : Table CfgMap → Table CfgMap → Prop := SameBy (SameBy (SameBy Copied))

/-- The numbers of the tables satisfy `p`. -/
def Numbers (p : LuaNum → Prop) (m : Table CfgMap) : Prop :=
  ∀ t ∈ m.entries, ∀ u ∈ t.2.entries, ∀ e ∈ u.2.entries, ∀ x, e.2 = .num x → p x

/-- **What `save_file` has written is read as a copy**, if the numbers survive. -/
theorem exists_copy {env : Env} {m : Table CfgMap} (h : Numbers (Survives env.fp) m) :
    ∃ text v m', encode env.fp (mapVal env m) = some text ∧ decode env.fp text = some (.obj v) ∧
      valMap (.obj v) = some m' ∧ CopiedMap m' m := by
  obtain ⟨ws, m', hf⟩ : ∃ ws m', Fields env 0 (tableVal env (tableVal env itemVal)) (valTable (valTable valItem))
      (SameBy (SameBy Copied)) m ws m' :=
    exists_fields fun t ht => exists_copy_table (by decide) fun u hu => exists_copy_table (by decide) fun e he =>
      exists_copy_item _ (h t ht u hu e he)
  obtain ⟨text, hencode, hdecode⟩ := decode_obj hf.nodup hf.write hf.read
  exact ⟨text, _, m', by rw [mapVal, hf.value, hencode], hdecode, hf.back, hf.same⟩

/-- A table in another one can be written if its values can. -/
theorem exists_text_table {α : Type} {env : Env} {depth : Nat} {val : α → Val} (hdepth : depth < encodeMaxDepth)
    {t : Table α} (h : ∀ e ∈ t.entries, ∃ text, jsonAppendData env.fp (depth + 1) (val e.2) = some text) :
    ∃ text, jsonAppendData env.fp depth (tableVal env val t) = some text := by
  refine exists_text_obj hdepth fun kv hkv => ?_
  obtain ⟨e, he, rfl⟩ := List.mem_map.mp hkv
  exact h e ((env.pairs_perm _).mem_iff.mp he)

/-- Tables of finite numbers can be saved. -/
theorem exists_text (env : Env) {m : Table CfgMap} (h : Numbers (fun x => IsFinite x.toFlt) m) :
    ∃ text, encode env.fp (mapVal env m) = some text := by
  refine exists_text_table (by decide) fun t ht => exists_text_table (by decide) fun u hu =>
    exists_text_table (by decide) fun e he => ?_
  have hfin := h t ht u hu e he
  cases hitem : e.2 with
  | num x => exact ⟨env.fp.gFmt x.toFlt, by rw [itemVal, jsonAppendData, if_neg (hfin x hitem)]⟩
  | str s => exact ⟨_, rfl⟩

end ApApps.Setconf

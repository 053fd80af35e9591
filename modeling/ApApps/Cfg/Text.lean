import ApApps.Lib.Assign
import ApApps.Cjson.RoundTrip
import ApApps.Cfg.Crash

/- What `parse` reads from the file `save_config` wrote.

   `save_config` puts a line break between every comma and quote of the encoded text.
   Between two fields that is white space. Inside a string the pair occurs where the
   string ends in a comma, and only there: an inner quote is written with a backslash
   before it. So a key or value that ends in a comma is read back with a line break at
   its end (`sealed`), and every other one as it was. -/
namespace ApApps.Cfg
open Exec ApApps.Cjson Assignments

/-! ## Breaking lines -/

/-- `s:gsub(',"', ',\n"')`. -/
def breakLines (s : Bytes) : Bytes := replaceLoop (ascii ",\"") (ascii ",\n\"") 0 s

/-- The text of one character of a string. -/
def escapeChar (c : UInt8) : Bytes := (char2escape c).getD [c]

theorem breakLines_pair (s : Bytes) :
    breakLines (ch ',' :: ch '"' :: s) = ch ',' :: LF :: breakLines (ch '"' :: s) := by
  have hquote : breakLines (ch '"' :: s) = ch '"' :: breakLines s := by
    refine replaceLoop_cons_of_not ?_
    rintro ⟨t, ht⟩
    have h0 : ch ',' = ch '"' := (List.cons.inj ht).1
    exact absurd h0 (by decide)
  rw [hquote]
  exact replaceLoop_match (ascii ",\n\"") s (show ascii ",\"" ≠ [] by decide)

theorem breakLines_cons {c : UInt8} {s : Bytes} (h : ¬ (c = ch ',' ∧ s.head? = some (ch '"'))) :
    breakLines (c :: s) = c :: breakLines s := by
  refine replaceLoop_cons_of_not ?_
  rintro ⟨t, ht⟩
  have hinj := List.cons.inj ht
  exact h ⟨hinj.1.symm, by rw [← hinj.2]; rfl⟩

theorem breakLines_append : ∀ (a : Bytes) {b : Bytes},
    ¬ (a.getLast? = some (ch ',') ∧ b.head? = some (ch '"')) → breakLines (a ++ b) = breakLines a ++ breakLines b
  | [], b, _ => rfl
  | [c], b, h => by
    rw [List.singleton_append, breakLines_cons (by simpa using h), breakLines_cons (by simp)]
    rfl
  | c :: d :: a, b, h => by
    have hrest : ¬ ((d :: a).getLast? = some (ch ',') ∧ b.head? = some (ch '"')) := by
      rwa [List.getLast?_cons_cons] at h
    have ih := breakLines_append (d :: a) hrest
    by_cases hp : c = ch ',' ∧ d = ch '"'
    · obtain ⟨rfl, rfl⟩ := hp
      rw [List.cons_append, List.cons_append, breakLines_pair, breakLines_pair, ← List.cons_append, ih]
      rfl
    · have h1 : ¬ (c = ch ',' ∧ (d :: a).head? = some (ch '"')) := by simpa using hp
      have h2 : ¬ (c = ch ',' ∧ (d :: a ++ b).head? = some (ch '"')) := by simpa using hp
      rw [List.cons_append, breakLines_cons h2, breakLines_cons h1, ih]
      rfl

/-! ## Strings -/

theorem escapeChar_facts : ∀ c, escapeChar c ≠ [] ∧ (escapeChar c).head? ≠ some (ch '"') ∧
    breakLines (escapeChar c) = escapeChar c ∧ ((escapeChar c).getLast? = some (ch ',') ↔ c = ch ',') := by
  decide +kernel

theorem escape_append (a b : Bytes) : escape (a ++ b) = escape a ++ escape b := by simp [escape]

theorem escape_singleton (c : UInt8) : escape [c] = escapeChar c := by simp [escape, escapeChar]

theorem escape_head (s : Bytes) : (escape s).head? ≠ some (ch '"') := by
  cases s with
  | nil => simp [escape]
  | cons c s =>
    obtain ⟨hne, hhead, _⟩ := escapeChar_facts c
    have he : escape (c :: s) = escapeChar c ++ escape s := by
      rw [← escape_singleton, ← escape_append, List.singleton_append]
    rw [he, List.head?_append_of_ne_nil _ hne]
    exact hhead

/-- The text of a string holds no comma before a quote. -/
theorem breakLines_escape (s : Bytes) : breakLines (escape s) = escape s := by
  induction s with
  | nil => rfl
  | cons c s ih =>
    have he : escape (c :: s) = escapeChar c ++ escape s := by
      rw [← escape_singleton, ← escape_append, List.singleton_append]
    rw [he, breakLines_append _ (fun h => escape_head s h.2), ih, (escapeChar_facts c).2.2.1]

/-- The string ends in a comma. -/
def endsInComma (s : Bytes) : Bool := s.getLast? = some (ch ',')

theorem escape_getLast (s : Bytes) : (escape s).getLast? = some (ch ',') ↔ endsInComma s = true := by
  unfold endsInComma
  rw [decide_eq_true_iff]
  rcases List.eq_nil_or_concat s with rfl | ⟨t, c, rfl⟩
  · simp [escape]
  · obtain ⟨hne, _, _, hlast⟩ := escapeChar_facts c
    rw [List.concat_eq_append, escape_append, escape_singleton, List.getLast?_append_of_ne_nil _ hne, hlast]
    simp

/-- What is read before the closing quote in addition to the string. -/
def extra (s : Bytes) : Bytes := if endsInComma s then [LF] else []

/-- What a string is read back as. -/
def sealed (s : Bytes) : Bytes := s ++ extra s

theorem breakLines_string (s : Bytes) :
    breakLines (jsonAppendString s) = ch '"' :: (escape s ++ extra s ++ [ch '"']) := by
  have hquote : ∀ t, breakLines (ch '"' :: t) = ch '"' :: breakLines t :=
    fun t => breakLines_cons (by simp [ch])
  unfold jsonAppendString extra
  rw [hquote]
  by_cases h : endsInComma s = true
  · rw [if_pos h]
    obtain ⟨t, ht⟩ : ∃ t, escape s = t ++ [ch ','] :=
      List.getLast?_eq_some_iff.mp ((escape_getLast s).mpr h)
    have hcomma : ∀ u : Bytes, ¬ (t.getLast? = some (ch ',') ∧ (ch ',' :: u).head? = some (ch '"')) := by
      rintro u ⟨_, hu⟩
      simp [ch] at hu
    have hfix : breakLines t ++ [ch ','] = t ++ [ch ','] := by
      have := breakLines_escape s
      rw [ht, breakLines_append t (hcomma [])] at this
      exact this
    rw [ht, List.append_assoc, List.singleton_append, breakLines_append t (hcomma _), breakLines_pair,
      List.append_cancel_right hfix]
    simp [breakLines, replaceLoop, ascii, ch]
  · rw [if_neg h, List.append_nil, breakLines_append _ (fun hb => h ((escape_getLast s).mp hb.1)),
      breakLines_escape]
    rfl

/-- A string of the file is read back sealed. -/
theorem reads_sealed (fp : FpConv) (s : Bytes) : Reads fp (breakLines (jsonAppendString s)) (sealed s) := by
  rw [breakLines_string]
  refine reads_of_appended fp s (extra s) fun c hc => ?_
  unfold extra at hc
  split at hc
  · rw [List.mem_singleton] at hc
    subst hc
    decide
  · simp at hc

/-! ## The whole file -/

/-- A field of the file. -/
def fieldOf (kv : Bytes × Bytes) : Field :=
  ⟨breakLines (jsonAppendString kv.1), sealed kv.1, breakLines (jsonAppendString kv.2), sealed kv.2⟩

theorem breakLines_fieldText (kv : Bytes × Bytes) (rest : Bytes) :
    breakLines (fieldText kv ++ rest) = (fieldOf kv).text ++ breakLines rest := by
  have hlast : ∀ s, (jsonAppendString s).getLast? ≠ some (ch ',') := by
    intro s
    have hs : jsonAppendString s = (ch '"' :: escape s) ++ [ch '"'] := rfl
    rw [hs, List.getLast?_concat]
    simp [ch]
  have hcolon : breakLines (ch ':' :: (jsonAppendString kv.2 ++ rest)) =
      ch ':' :: breakLines (jsonAppendString kv.2 ++ rest) := breakLines_cons (by simp [ch])
  have htext : fieldText kv ++ rest = jsonAppendString kv.1 ++ ch ':' :: (jsonAppendString kv.2 ++ rest) := by
    simp [fieldText]
  rw [htext, breakLines_append _ (fun h => hlast _ h.1), hcolon, breakLines_append _ (fun h => hlast _ h.1)]
  simp [Field.text, fieldOf]

theorem breakLines_fields (fields : List (Bytes × Bytes)) :
    breakLines (fields.flatMap (fun kv => ch ',' :: fieldText kv) ++ [ch '\x7d']) =
      fields.flatMap (fun kv => ch ',' :: LF :: (fieldOf kv).text) ++ [ch '\x7d'] := by
  induction fields with
  | nil => rfl
  | cons kv fields ih =>
    obtain ⟨t, ht⟩ : ∃ t, fieldText kv = ch '"' :: t := ⟨_, rfl⟩
    have hpair : breakLines (ch ',' :: (fieldText kv ++
        (fields.flatMap (fun kv => ch ',' :: fieldText kv) ++ [ch '\x7d']))) =
        ch ',' :: LF :: breakLines (fieldText kv ++
          (fields.flatMap (fun kv => ch ',' :: fieldText kv) ++ [ch '\x7d'])) := by
      rw [ht]
      exact breakLines_pair _
    rw [List.flatMap_cons, List.append_assoc, List.cons_append, hpair, breakLines_fieldText, ih]
    simp

theorem fileText_eq (env : Env) (cfg : Config) :
    fileText env cfg = ch '\x7b' ::
      ([ch ',', LF].intercalate ((fieldsOf env cfg).map (fun kv => (fieldOf kv).text)) ++ [ch '\x7d']) := by
  have hbrace : ∀ t, breakLines (ch '\x7b' :: t) = ch '\x7b' :: breakLines t :=
    fun t => breakLines_cons (by simp [ch])
  show breakLines (objectText [ch ','] (fieldsOf env cfg)) = _
  unfold objectText
  rw [hbrace]
  cases fieldsOf env cfg with
  | nil => rfl
  | cons kv fields =>
    rw [List.map_cons, intercalate_cons_flatMap, List.map_cons, intercalate_cons_flatMap, List.append_assoc,
      breakLines_fieldText, List.flatMap_map, List.flatMap_map]
    have hrest := breakLines_fields fields
    simp only [List.cons_append, List.nil_append] at hrest ⊢
    rw [hrest]
    simp

/-- The decoder reads the file field by field. -/
theorem decode_fileText (env : Env) (cfg : Config) :
    decode env.fp (fileText env cfg) = some (.obj (stored [] ((fieldsOf env cfg).map fieldOf))) := by
  have h := decode_fields env.fp (show ∀ c ∈ [LF], isWhitespace c = true by simp [isWhitespace]) ((fieldsOf env cfg).map fieldOf) (by
    intro f hf
    obtain ⟨kv, _, rfl⟩ := List.mem_map.mp hf
    exact ⟨reads_sealed env.fp kv.1, reads_sealed env.fp kv.2⟩)
  rw [fileText_eq, ← h]
  simp [Function.comp_def]

/-! ## The map that is read -/

theorem configOf_filter (k : Bytes) (fields : List (Bytes × Val)) (cfg : Config)
    (h : configOf fields = some cfg) :
    ∃ cfg', configOf (fields.filter (fun kv => kv.1 ≠ k)) = some cfg' ∧
      ∀ q, q ≠ k → cfg'.lookup q = cfg.lookup q := by
  induction fields generalizing cfg with
  | nil =>
    cases h
    exact ⟨∅, rfl, fun _ _ => rfl⟩
  | cons kv fields ih =>
    obtain ⟨k', v⟩ := kv
    cases v with
    | str v =>
      rw [configOf, Option.map_eq_some_iff] at h
      obtain ⟨cfg1, h1, rfl⟩ := h
      obtain ⟨cfg', h', hq⟩ := ih cfg1 h1
      by_cases hk : k' = k
      · subst hk
        refine ⟨cfg', by simpa using h', fun q hne => ?_⟩
        rw [hq q hne, AList.lookup_insert_ne hne]
      · refine ⟨cfg'.insert k' v, ?_, fun q hne => ?_⟩
        · rw [List.filter_cons_of_pos (by simpa using hk), configOf, h']
          rfl
        · by_cases hqk : q = k'
          · subst hqk
            rw [AList.lookup_insert, AList.lookup_insert]
          · rw [AList.lookup_insert_ne hqk, AList.lookup_insert_ne hqk, hq q hne]
    | _ => simp [configOf] at h

theorem configOf_concat (k v : Bytes) (fields : List (Bytes × Val)) (cfg : Config)
    (h : configOf fields = some cfg) (hk : ∀ kv ∈ fields, kv.1 ≠ k) :
    ∃ cfg', configOf (fields ++ [(k, .str v)]) = some cfg' ∧
      ∀ q, cfg'.lookup q = if q = k then some v else cfg.lookup q := by
  induction fields generalizing cfg with
  | nil =>
    cases h
    refine ⟨AList.insert k v ∅, rfl, fun q => ?_⟩
    by_cases hq : q = k
    · subst hq
      rw [AList.lookup_insert, if_pos rfl]
    · rw [AList.lookup_insert_ne hq, if_neg hq]
  | cons kv fields ih =>
    obtain ⟨k', v'⟩ := kv
    have hk' : k' ≠ k := hk (k', v') List.mem_cons_self
    cases v' with
    | str v' =>
      rw [configOf, Option.map_eq_some_iff] at h
      obtain ⟨cfg1, h1, rfl⟩ := h
      obtain ⟨cfg', h', hq⟩ := ih cfg1 h1 (fun kv hkv => hk kv (List.mem_cons_of_mem _ hkv))
      refine ⟨cfg'.insert k' v', ?_, fun q => ?_⟩
      · rw [List.cons_append, configOf, h']
        rfl
      · by_cases hqk : q = k'
        · subst hqk
          rw [AList.lookup_insert, AList.lookup_insert, if_neg hk']
        · rw [AList.lookup_insert_ne hqk, AList.lookup_insert_ne hqk, hq q]
    | _ => simp [configOf] at h

/-- Storing a string field is inserting it into the map. -/
theorem configOf_rawset (k v : Bytes) {fields : List (Bytes × Val)} {cfg : Config}
    (h : configOf fields = some cfg) :
    ∃ cfg', configOf (rawset fields k (.str v)) = some cfg' ∧
      ∀ q, cfg'.lookup q = if q = k then some v else cfg.lookup q := by
  obtain ⟨cfg1, h1, hq1⟩ := configOf_filter k fields cfg h
  obtain ⟨cfg', h', hq'⟩ := configOf_concat k v _ cfg1 h1 (by
    intro kv hkv
    simpa using List.of_mem_filter hkv)
  refine ⟨cfg', h', fun q => ?_⟩
  rw [hq']
  split
  · rfl
  · rename_i hne
    exact hq1 q hne

/-- The map of a list of fields: each is assigned to its key, one after the other. -/
theorem configOf_stored (fs : List Field) {fields : List (Bytes × Val)} {cfg : Config}
    (h : configOf fields = some cfg) :
    ∃ cfg', configOf (stored fields fs) = some cfg' ∧
      cfg'.lookup = assign cfg.lookup (fs.map fun f => (f.key, some f.value)) := by
  induction fs generalizing fields cfg with
  | nil => exact ⟨cfg, h, rfl⟩
  | cons f fs ih =>
    obtain ⟨cfg1, h1, hq1⟩ := configOf_rawset f.key f.value h
    obtain ⟨cfg', h', hq'⟩ := ih h1
    have hone : cfg1.lookup = Function.update cfg.lookup f.key (some f.value) := by
      funext q
      rw [hq1, Function.update_apply]
    exact ⟨cfg', h', by rw [hq', hone, List.map_cons, assign_cons]⟩

/-- The map that is read from the file of `cfg`: every key and every value sealed, in the
order in which they have been written. -/
def readBack (env : Env) (cfg : Config) : Bytes → Option Bytes :=
  assign (fun _ => none) ((fieldsOf env cfg).map fun kv => (sealed kv.1, some (sealed kv.2)))

/-- What is read from the file. -/
theorem readConfig_fileText (env : Env) (cfg : Config) :
    ∃ m, readConfig env (fileText env cfg) = some m ∧ m.lookup = readBack env cfg := by
  obtain ⟨m, hm, hq⟩ := configOf_stored ((fieldsOf env cfg).map fieldOf) (show configOf [] = some ∅ from rfl)
  refine ⟨m, ?_, ?_⟩
  · unfold readConfig
    rw [decode_fileText]
    exact hm
  · rw [hq, readBack, List.map_map]
    rfl

/-- A key that is read back is the one of a setting, sealed like its value. -/
theorem readBack_cases (env : Env) (cfg : Config) (q : Bytes) :
    (readBack env cfg q = none ∧ ∀ k v, cfg.lookup k = some v → sealed k ≠ q) ∨
      ∃ k v, cfg.lookup k = some v ∧ sealed k = q ∧ readBack env cfg q = some (sealed v) := by
  rcases assign_cases (fun _ => none)
    ((fieldsOf env cfg).map fun kv => (sealed kv.1, some (sealed kv.2))) q with ⟨hnone, hno⟩ | hmem
  · refine .inl ⟨hnone, fun k v hkv hkey => ?_⟩
    apply hno (some (sealed v))
    rw [← hkey]
    exact List.mem_map_of_mem (mem_fieldsOf.mpr hkv)
  · obtain ⟨⟨k, v⟩, hkv, heq⟩ := List.mem_map.mp hmem
    obtain ⟨hkey, hval⟩ := Prod.mk.inj heq
    exact .inr ⟨k, v, mem_fieldsOf.mp hkv, hkey, hval.symm⟩

/-- What is read back does not end in a comma. -/
theorem endsInComma_sealed (s : Bytes) : endsInComma (sealed s) = false := by
  unfold sealed extra
  by_cases h : endsInComma s = true
  · rw [if_pos h]
    simp [endsInComma, LF, ch]
  · rw [if_neg h, List.append_nil]
    simpa using h

theorem sealed_of_not {s : Bytes} (h : endsInComma s = false) : sealed s = s := by
  simp [sealed, extra, h]

/-- No key and no value ends in a comma. -/
def CommaFree (cfg : Config) : Prop :=
  ∀ k v, cfg.lookup k = some v → endsInComma k = false ∧ endsInComma v = false

/-- What is read back is what was saved exactly if no string ends in a comma. -/
theorem readBack_eq_iff (env : Env) (cfg : Config) : readBack env cfg = cfg.lookup ↔ CommaFree cfg := by
  constructor
  · intro heq k v hkv
    have hread : readBack env cfg k = some v := (congrFun heq k).trans hkv
    rcases readBack_cases env cfg k with ⟨hnone, _⟩ | ⟨k', v', _, hkey, hval⟩
    · rw [hread] at hnone
      cases hnone
    · rw [hread, Option.some.injEq] at hval
      exact ⟨hkey ▸ endsInComma_sealed k', hval ▸ endsInComma_sealed v'⟩
  · intro hfree
    funext k
    rcases readBack_cases env cfg k with ⟨hnone, hno⟩ | ⟨k', v', hkv, hkey, hval⟩
    · cases hk : cfg.lookup k with
      | none => exact hnone
      | some v => exact absurd (sealed_of_not (hfree k v hk).1) (hno k v hk)
    · obtain ⟨h1, h2⟩ := hfree k' v' hkv
      rw [sealed_of_not h1] at hkey
      rw [sealed_of_not h2] at hval
      rw [hval, ← hkey, hkv]

/-- **Saving and reading back is the identity exactly on the configurations without a
trailing comma.** -/
theorem parse_saveConfig (env : Env) (s : Proc) (hchange : s.gChange = true)
    (hconf : (s.disk .conf).isSome = true) (hpower : s.power = none) :
    ∃ m s', (saveConfig env >>= fun _ => parse env) s = .ok m s' ∧
      ((∀ k, m.lookup k = s.cfg.lookup k) ↔ CommaFree s.cfg) := by
  obtain ⟨old, hold⟩ := Option.isSome_iff_exists.mp hconf
  obtain ⟨m, hm, hback⟩ := readConfig_fileText env s.cfg
  have hsave := writeConfig_done env hold (hpower ▸ enough_none _)
  have hsave' : saveConfig env s = writeConfig env s := by
    unfold saveConfig
    rw [bind_of_ok (get_ok s), if_pos hchange]
  rw [bind_of_ok (hsave'.trans hsave)]
  refine ⟨m, _, parse_of_readConfig (by simp) hm, ?_⟩
  rw [← readBack_eq_iff env, ← hback]
  exact funext_iff.symm

/-- A process that has a network name ending in a comma to save. -/
def trailingComma : Proc :=
  ⟨fun p => if p = .conf then some (ascii "\x7b\x7d") else none, none,
    AList.insert (ascii "w#00000#wssid") (ascii "guest,") ∅, true, none, false, []⟩

theorem parse_saveConfig_address : ∃ m s',
    (saveConfig (.listed none) >>= fun _ => parse (.listed none)) addressChanged = .ok m s' ∧
      ((∀ k, m.lookup k = addressChanged.cfg.lookup k) ↔ CommaFree addressChanged.cfg) :=
  parse_saveConfig (.listed none) addressChanged rfl rfl rfl

/-- The name is read back with a line break at its end. -/
theorem comma_lost :
    (returned ((saveConfig (.listed none) >>= fun _ => parse (.listed none)) trailingComma)).map
      (fun m => m.lookup (ascii "w#00000#wssid")) = some (some (ascii "guest,\n")) ∧
    trailingComma.cfg.lookup (ascii "w#00000#wssid") = some (ascii "guest,") := by
  decide +kernel

end ApApps.Cfg

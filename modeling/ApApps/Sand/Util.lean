import ApApps.Redis.Query

/- sandutil.lua: the field maps of the sand protocol and their wire format. A
   message is a map from two-byte keys to strings, sent as a redis query whose
   elements are key and value written together.

   `decode_encode`: what `build_query(toarr(m))` writes is read back as `m`, and no
   shorter piece of it is taken for a message or for garbage. -/
namespace ApApps.Sand
open Incremental ApApps.Redis

/-- A Lua table from strings to strings. -/
abbrev Fields := Bytes → Option Bytes

def Fields.empty : Fields := fun _ => none

/-- `map[k] = v`. -/
def Fields.set (map : Fields) (k v : Bytes) : Fields := fun x => if x = k then some v else map x

/-- `map.name`. -/
def Fields.get (map : Fields) (name : String) : Option Bytes := map (ascii name)

/-- The binary search of `luaH_getn` for a border of an array with a nil at its end. -/
def border (elems : List (Option Bytes)) : Nat → Nat → Nat → Nat
  | 0, i, _ => i
  | fuel + 1, i, j =>
    if j - i ≤ 1 then i
    else if elems.getD ((i + j) / 2 - 1) none = none then border elems fuel i ((i + j) / 2)
    else border elems fuel ((i + j) / 2) j

/-- `#arr` for the array part of a table. -/
def luaLen (elems : List (Option Bytes)) : Nat :=
  if elems.getLast? = some none then border elems elems.length 0 elems.length else elems.length

/-- The loop of `tomap` over the entries of the array. -/
def tomapLoop : Fields → List (Option Bytes) → Except LuaError Fields
  | map, [] => .ok map
  | _, none :: _ => .error .nilIndexed
  | map, some s :: rest => tomapLoop (map.set (s.take 2) (s.drop 2)) rest

/-- A string has a length but no numbered fields; nil and numbers have no length. -/
def tomap : Reply → Except LuaError Fields
  | .arr elems => tomapLoop .empty (elems.take (luaLen elems))
  | .str s => if s = [] then .ok .empty else .error .nilIndexed
  | .nil => .error .nilIndexed
  | .num _ => .error .nilIndexed

/-- `string.format("%s%s", k, v)` for every pair, in the order of `pairs`. -/
def toarr (map : List (Bytes × Bytes)) : List Bytes := map.map fun (k, v) => formatS k ++ formatS v

/-- `ipairs` stops at the first nil; a string has no numbered fields at all. -/
def checkarr : Reply → Except LuaError Bool
  | .nil => .ok false
  | .str _ => .ok true
  | .num _ => .error .nilIndexed
  | .arr elems => .ok ((elems.takeWhile Option.isSome).all fun s => 3 ≤ (s.getD []).length)

/-- The frame of a message given in the order of `pairs`. -/
def encode (map : List (Bytes × Bytes)) : Except LuaError Bytes :=
  redisBuildQuery ((toarr map).map .text)

/-! ## Arrays of strings -/

@[simp] theorem luaLen_strings (vs : List Bytes) : luaLen (vs.map some) = vs.length := by
  unfold luaLen
  rw [if_neg, List.length_map]
  rw [List.getLast?_map]
  cases vs.getLast? <;> simp

theorem checkarr_strings (vs : List Bytes) :
    checkarr (.arr (vs.map some)) = .ok (vs.all fun s => 3 ≤ s.length) := by
  have htake : (vs.map some).takeWhile Option.isSome = vs.map some := by
    rw [List.takeWhile_eq_self_iff]
    intro s hs
    obtain ⟨v, _, rfl⟩ := List.mem_map.mp hs
    rfl
  simp only [checkarr, htake, List.all_map]
  rfl

theorem tomapLoop_strings (map : Fields) (vs : List Bytes) :
    tomapLoop map (vs.map some) =
      .ok (vs.foldl (fun m s => m.set (s.take 2) (s.drop 2)) map) := by
  induction vs generalizing map with
  | nil => rfl
  | cons v vs ih => exact ih _

/-- An array of strings is always turned into a map. -/
theorem tomap_strings (vs : List Bytes) :
    tomap (.arr (vs.map some)) =
      .ok (vs.foldl (fun m s => m.set (s.take 2) (s.drop 2)) .empty) := by
  have htake : (vs.map some).take (luaLen (vs.map some)) = vs.map some := by
    rw [luaLen_strings, ← List.length_map (f := some), List.take_length]
  rw [tomap, htake, tomapLoop_strings]

/-! ## Decoding undoes encoding -/

/-- `ps` lists the entries of `m`, each once: an order in which `pairs` can run. -/
structure Enumerates (ps : List (Bytes × Bytes)) (m : Fields) : Prop where
  nodup : (ps.map Prod.fst).Nodup
  mem : ∀ k v, m k = some v ↔ (k, v) ∈ ps

/-- The fields of a message: two-byte keys, non-empty values, no NUL. -/
structure WireFields (ps : List (Bytes × Bytes)) : Prop where
  key_length : ∀ kv ∈ ps, kv.1.length = 2
  key_nul : ∀ kv ∈ ps, NUL ∉ kv.1
  value_ne : ∀ kv ∈ ps, kv.2 ≠ []
  value_nul : ∀ kv ∈ ps, NUL ∉ kv.2

theorem WireFields.tail {kv : Bytes × Bytes} {ps : List (Bytes × Bytes)}
    (h : WireFields (kv :: ps)) : WireFields ps where
  key_length := fun x hx => h.key_length x (by simp [hx])
  key_nul := fun x hx => h.key_nul x (by simp [hx])
  value_ne := fun x hx => h.value_ne x (by simp [hx])
  value_nul := fun x hx => h.value_nul x (by simp [hx])

theorem toarr_wire {ps : List (Bytes × Bytes)} (h : WireFields ps) :
    toarr ps = ps.map fun kv => kv.1 ++ kv.2 := by
  unfold toarr
  apply List.map_congr_left
  intro kv hkv
  show formatS kv.1 ++ formatS kv.2 = kv.1 ++ kv.2
  rw [formatS_of_no_nul (h.key_nul kv hkv), formatS_of_no_nul (h.value_nul kv hkv)]

theorem checkarr_toarr {ps : List (Bytes × Bytes)} (h : WireFields ps) :
    checkarr (.arr ((toarr ps).map some)) = .ok true := by
  rw [checkarr_strings, toarr_wire h]
  have hall : (ps.map fun kv => kv.1 ++ kv.2).all (fun s => decide (3 ≤ s.length)) = true := by
    rw [List.all_eq_true]
    intro s hs
    obtain ⟨kv, hkv, rfl⟩ := List.mem_map.mp hs
    have h2 := h.key_length kv hkv
    have hv := List.length_pos_iff.mpr (h.value_ne kv hkv)
    rw [decide_eq_true_eq, List.length_append]
    omega
  rw [hall]

/-- Setting the fields one after the other gives every key its value. -/
theorem foldl_set {ps : List (Bytes × Bytes)} (m : Fields) (h : WireFields ps)
    (hnodup : (ps.map Prod.fst).Nodup) (k : Bytes) :
    (∀ v, (k, v) ∈ ps → (toarr ps).foldl (fun m s => m.set (s.take 2) (s.drop 2)) m k = some v) ∧
      (k ∉ ps.map Prod.fst →
        (toarr ps).foldl (fun m s => m.set (s.take 2) (s.drop 2)) m k = m k) := by
  induction ps generalizing m with
  | nil => exact ⟨fun v hv => by simp at hv, fun _ => rfl⟩
  | cons kv ps ih =>
    obtain ⟨hk, hnodup⟩ := List.nodup_cons.mp hnodup
    obtain ⟨ih1, ih2⟩ := ih (m.set kv.1 kv.2) h.tail hnodup
    have hkey := h.key_length kv (by simp)
    have hstep : (toarr (kv :: ps)).foldl (fun m s => m.set (s.take 2) (s.drop 2)) m =
        (toarr ps).foldl (fun m s => m.set (s.take 2) (s.drop 2)) (m.set kv.1 kv.2) := by
      rw [toarr_wire h, toarr_wire h.tail, List.map_cons, List.foldl_cons,
        List.take_left' hkey, List.drop_left' hkey]
    rw [hstep]
    constructor
    · intro v hv
      rcases List.mem_cons.mp hv with rfl | hv
      · rw [ih2 hk]
        simp [Fields.set]
      · exact ih1 v hv
    · intro hnot
      rw [List.map_cons, List.mem_cons, not_or] at hnot
      rw [ih2 hnot.2]
      simp [Fields.set, hnot.1]

theorem tomap_toarr {ps : List (Bytes × Bytes)} {m : Fields} (h : WireFields ps)
    (hm : Enumerates ps m) : tomap (.arr ((toarr ps).map some)) = .ok m := by
  rw [tomap_strings]
  congr 1
  funext k
  obtain ⟨h1, h2⟩ := foldl_set Fields.empty h hm.nodup k
  cases hk : m k with
  | some v => exact h1 v ((hm.mem k v).mp hk)
  | none =>
    apply h2
    intro hmem
    obtain ⟨kv, hkv, rfl⟩ := List.mem_map.mp hmem
    rw [(hm.mem kv.1 kv.2).mpr hkv] at hk
    cases hk

/-- Two bytes make at most 2^16 keys. -/
theorem length_lt_of_two_bytes {ps : List (Bytes × Bytes)} (h : ∀ kv ∈ ps, kv.1.length = 2)
    (hnodup : (ps.map Prod.fst).Nodup) : ps.length < 2 ^ 31 := by
  let code : Bytes → Nat := fun k => (k.getD 0 0).toNat * 256 + (k.getD 1 0).toNat
  have hinj : ((ps.map Prod.fst).map code).Nodup := by
    refine List.Nodup.map_on ?_ hnodup
    intro a ha b hb hab
    obtain ⟨kv, hkv, rfl⟩ := List.mem_map.mp ha
    obtain ⟨kw, hkw, rfl⟩ := List.mem_map.mp hb
    have h1 := h kv hkv
    have h2 := h kw hkw
    match hx : kv.1, hy : kw.1 with
    | [a0, a1], [b0, b1] =>
      simp only [code, hx, hy, List.getD_cons_zero, List.getD_cons_succ] at hab
      have := a1.toNat_lt
      have := b1.toNat_lt
      have e0 : a0.toNat = b0.toNat := by omega
      have e1 : a1.toNat = b1.toNat := by omega
      rw [UInt8.toNat_inj.mp e0, UInt8.toNat_inj.mp e1]
    | [], _ => rw [hx] at h1; cases h1
    | [_], _ => rw [hx] at h1; cases h1
    | _ :: _ :: _ :: _, _ => rw [hx] at h1; cases h1
    | [_, _], [] => rw [hy] at h2; cases h2
    | [_, _], [_] => rw [hy] at h2; cases h2
    | [_, _], _ :: _ :: _ :: _ => rw [hy] at h2; cases h2
  have hsub : (ps.map Prod.fst).map code ⊆ List.range 65536 := by
    intro x hx
    obtain ⟨k, _, rfl⟩ := List.mem_map.mp hx
    have h0 := (k.getD 0 0).toNat_lt
    have h1 := (k.getD 1 0).toNat_lt
    rw [List.mem_range]
    show (k.getD 0 0).toNat * 256 + (k.getD 1 0).toNat < 65536
    omega
  have hle := hinj.subperm hsub |>.length_le
  rw [List.length_map, List.length_map, List.length_range] at hle
  omega

/-- **Decoding undoes encoding.** For every order in which `pairs` lists a message
and whatever follows it in the buffer: `parse_ready` finds exactly the frame,
`parse_reply` an array that `checkarr` accepts, and `tomap` of it is the message;
and every piece of the frame that is not all of it is "not yet". The strings are
Lua strings, so their lengths are `lua_Integer`s. -/
theorem decode_encode {m : Fields} {ps : List (Bytes × Bytes)} (hm : Enumerates ps m)
    (hne : ps ≠ []) (hwire : WireFields ps) (hlua : ∀ s ∈ toarr ps, s.length < 2 ^ 63) :
    ∃ f, encode ps = .ok f ∧
      (∀ rest, redisParseReady (f ++ rest) = .done f.length ∧
        checkarr (redisParseReply (f ++ rest)).1 = .ok true ∧
        tomap (redisParseReply (f ++ rest)).1 = .ok m) ∧
      (∀ g, g <+: f → g ≠ [] → g ≠ f → redisParseReady g = .incomplete) := by
  have hvs : toarr ps ≠ [] := by
    rw [toarr_wire hwire]
    simpa using hne
  have hn : (toarr ps).length < 2 ^ 31 := by
    rw [toarr_wire hwire, List.length_map]
    exact length_lt_of_two_bytes hwire.key_length hm.nodup
  obtain ⟨f, hquery, hreply⟩ := redisBuildQuery_frame hvs hn hlua
  refine ⟨f.bytes, hquery, ?_, ?_⟩
  · intro rest
    rw [redisParseReady_frame, redisParseReply_frame, hreply]
    exact ⟨rfl, checkarr_toarr hwire, tomap_toarr hwire hm⟩
  · rintro g ⟨t, ht⟩ hg hgf
    have hready := redisParseReady_frame f []
    rw [List.append_nil, ← ht] at hready
    have hlen : (g ++ t).length = f.bytes.length := by rw [ht]
    have ht0 : t ≠ [] := by
      rintro rfl
      rw [List.append_nil] at ht
      exact hgf ht
    have htpos := List.length_pos_iff.mpr ht0
    rw [List.length_append] at hlen
    -- a verdict on the piece would stand for the whole frame
    cases hv : redisParseReady g with
    | incomplete => rfl
    | done p =>
      have hle := stableVerdict_redisParseReady.ready_le hv
      rw [stableVerdict_redisParseReady.ready_append hv t, Scan.done.injEq,
        List.length_append] at hready
      omega
    | invalid =>
      rw [stableVerdict_redisParseReady.invalid_append hg hv t] at hready
      cases hready

/-- The message `{id = "dc", pl = "\r\n$"}`. -/
def pairOfFields : List (Bytes × Bytes) :=
  [(ascii "id", ascii "dc"), (ascii "pl", ascii "\r\n$")]

theorem decode_encode_pair :
    ∃ f, encode pairOfFields = .ok f ∧
      (∀ rest, redisParseReady (f ++ rest) = .done f.length ∧
        checkarr (redisParseReply (f ++ rest)).1 = .ok true ∧
        tomap (redisParseReply (f ++ rest)).1 =
          .ok ((Fields.empty.set (ascii "pl") (ascii "\r\n$")).set (ascii "id") (ascii "dc"))) ∧
      (∀ g, g <+: f → g ≠ [] → g ≠ f → redisParseReady g = .incomplete) := by
  refine decode_encode ⟨by decide, ?_⟩ (by decide) ⟨by decide, by decide, by decide, by decide⟩
    (by decide)
  intro k v
  simp only [Fields.set, Fields.empty, pairOfFields, List.mem_cons, Prod.mk.injEq, List.not_mem_nil,
    or_false]
  have hne : ascii "pl" ≠ ascii "id" := by decide
  by_cases hid : k = ascii "id"
  · subst hid
    simp [hne.symm, eq_comm]
  · by_cases hpl : k = ascii "pl"
    · subst hpl
      simp [hne, eq_comm]
    · simp [hid, hpl]

end ApApps.Sand

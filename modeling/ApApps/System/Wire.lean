import ApApps.Sand.Stream
import ApApps.Sandc.Writers
import ApApps.Sandc.Reader

/- What one side of the sand protocol finds in a frame that the other side has built.

   A value goes through `string.format("%s%s", k, v)` on its way, so a short one ends at its
   first NUL (`formatS`), and a field whose value is empty then makes `checkarr` refuse the
   whole frame. `fieldsOf_encode` says which of the two happens, for any table with keys of
   two bytes and in whatever order `pairs` takes it; values are not restricted.

   `frameCommand_eq` is the broker's reading of a frame and `frameTells` the client's; both go
   through the same fields. -/
namespace ApApps.System
open Incremental ApApps.Redis ApApps.Sand ApApps.Sandc

/-- The fields of a table as the other side gets them. -/
def received (map : List (Bytes × Bytes)) : List (Bytes × Bytes) := map.map fun kv => (kv.1, formatS kv.2)

/-- A table that the protocol can carry: keys of two bytes, each once. -/
structure TwoByte (map : List (Bytes × Bytes)) : Prop where
  length : ∀ kv ∈ map, kv.1.length = 2
  nul : ∀ kv ∈ map, NUL ∉ kv.1
  nodup : (map.map Prod.fst).Nodup

theorem formatS_formatS (v : Bytes) : formatS (formatS v) = formatS v := by
  unfold formatS
  by_cases hlong : 100 ≤ v.length
  · simp only [if_pos hlong]
  · rw [if_neg hlong]
    have hself : (v.takeWhile (· ≠ NUL)).takeWhile (· ≠ NUL) = v.takeWhile (· ≠ NUL) :=
      List.takeWhile_eq_self_iff.mpr fun x hx => List.mem_takeWhile_imp (p := fun x => decide (x ≠ NUL)) hx
    rw [hself, ite_self]

section Fields
variable {map : List (Bytes × Bytes)} {m : Fields}

theorem TwoByte.perm {map' : List (Bytes × Bytes)} (h : TwoByte map) (hperm : map'.Perm map) : TwoByte map' where
  length := fun kv hkv => h.length kv (hperm.mem_iff.mp hkv)
  nul := fun kv hkv => h.nul kv (hperm.mem_iff.mp hkv)
  nodup := (hperm.map Prod.fst).nodup_iff.mpr h.nodup

theorem TwoByte.received (h : TwoByte map) : TwoByte (received map) where
  length := by
    intro kv hkv
    obtain ⟨kw, hkw, rfl⟩ := List.mem_map.mp hkv
    exact h.length kw hkw
  nul := by
    intro kv hkv
    obtain ⟨kw, hkw, rfl⟩ := List.mem_map.mp hkv
    exact h.nul kw hkw
  nodup := by
    have hkeys : (System.received map).map Prod.fst = map.map Prod.fst := by
      rw [System.received, List.map_map]
      rfl
    rw [hkeys]
    exact h.nodup

theorem Enumerates.perm {map' : List (Bytes × Bytes)} (h : Enumerates map' m) (hperm : map'.Perm map) :
    Enumerates map m where
  nodup := (hperm.map Prod.fst).nodup_iff.mp h.nodup
  mem := fun k v => (h.mem k v).trans hperm.mem_iff

/-- The value of a key. -/
theorem Enumerates.get {name : String} {v : Bytes} (h : Enumerates map m) (hmem : (ascii name, v) ∈ map) :
    m.get name = some v := (h.mem (ascii name) v).mpr hmem

/-- The array of a table, as it is written. -/
theorem toarr_received (h : TwoByte map) : toarr map = (received map).map fun kv => kv.1 ++ kv.2 := by
  unfold toarr received
  rw [List.map_map]
  refine List.map_congr_left fun kv hkv => ?_
  exact congrArg (· ++ formatS kv.2) (formatS_of_no_nul (h.nul kv hkv))

/-- `tomap` takes key and value apart again. -/
theorem tomap_joined (h : TwoByte map) (m0 : Fields) (hfree : ∀ kv ∈ map, m0 kv.1 = none) (k v : Bytes) :
    (map.map fun kv => kv.1 ++ kv.2).foldl (fun m s => m.set (s.take 2) (s.drop 2)) m0 k = some v ↔
      m0 k = some v ∨ (k, v) ∈ map := by
  induction map generalizing m0 with
  | nil => simp
  | cons kv map ih =>
    obtain ⟨hk, hnodup⟩ := List.nodup_cons.mp h.nodup
    have hlen := h.length kv List.mem_cons_self
    have hrest : TwoByte map :=
      ⟨fun x hx => h.length x (List.mem_cons_of_mem kv hx), fun x hx => h.nul x (List.mem_cons_of_mem kv hx), hnodup⟩
    rw [List.map_cons, List.foldl_cons, List.take_left' hlen, List.drop_left' hlen, ih hrest]
    · by_cases hkv : k = kv.1
      · subst hkv
        have hnone := hfree kv List.mem_cons_self
        have hnot : (kv.1, v) ∉ map := fun hmem => hk (List.mem_map.mpr ⟨_, hmem, rfl⟩)
        simp only [Fields.set, if_true, Option.some.injEq, hnot, or_false, hnone, List.mem_cons, Prod.ext_iff,
          true_and, reduceCtorEq, false_or]
        exact eq_comm
      · simp only [Fields.set, List.mem_cons, Prod.ext_iff, hkv, false_and, false_or, if_false]
    · intro kw hkw
      have hne : kw.1 ≠ kv.1 := fun heq => hk (List.mem_map.mpr ⟨kw, hkw, heq⟩)
      rw [Fields.set, if_neg hne]
      exact hfree kw (List.mem_cons_of_mem kv hkw)

/-- The fields that arrive, if none of them is empty. -/
theorem tomap_received (h : TwoByte map) :
    ∃ m, tomap (.arr ((toarr map).map some)) = .ok m ∧ Enumerates (received map) m := by
  refine ⟨_, tomap_strings _, h.received.nodup, fun k v => ?_⟩
  rw [toarr_received h, tomap_joined h.received .empty fun _ _ => rfl]
  simp [Fields.empty]

/-- `checkarr` wants a value in every field. -/
theorem checkarr_received (h : TwoByte map) :
    checkarr (.arr ((toarr map).map some)) = .ok true ↔ ∀ kv ∈ map, formatS kv.2 ≠ [] := by
  rw [checkarr_strings, toarr_received h, Except.ok.injEq, List.all_map, received, List.all_map, List.all_eq_true]
  refine forall_congr' fun kv => forall_congr' fun hkv => ?_
  have hlen := h.length kv hkv
  simp only [Function.comp, decide_eq_true_eq, List.length_append, hlen, ← List.length_pos_iff]
  omega

end Fields

/-! ## Frames -/

section Frames
variable {map : List (Bytes × Bytes)} {f : Bytes}

theorem fieldsOf_of_accepted {v : Reply} {typ : Nat} (hparse : redisParseReply f = (v, typ))
    (hcheck : checkarr v = .ok true) : fieldsOf f = (tomap v).toOption := by
  simp only [fieldsOf, hparse, hcheck]

theorem fieldsOf_of_refused {v : Reply} {typ : Nat} (hparse : redisParseReply f = (v, typ))
    (hcheck : checkarr v = .ok false) : fieldsOf f = none := by
  simp only [fieldsOf, hparse, hcheck]

/-- **What is in a frame.** A frame that `build_query(toarr(map))` has built is found whole, and
its fields are those of the table, unless a value is empty. -/
theorem fieldsOf_encode (pairs : List (Bytes × Bytes) → List (Bytes × Bytes)) (hperm : (pairs map).Perm map)
    (hne : map ≠ []) (htwo : TwoByte map) (hlua : ∀ kv ∈ map, kv.1.length + kv.2.length < 2 ^ 63)
    (h : encode (pairs map) = .ok f) :
    redisParseReady f = .done f.length ∧
      ((∃ m, fieldsOf f = some m ∧ Enumerates (received map) m ∧ ∀ kv ∈ map, formatS kv.2 ≠ []) ∨
        (fieldsOf f = none ∧ ∃ kv ∈ map, formatS kv.2 = [])) := by
  have hpairs : TwoByte (pairs map) := htwo.perm hperm
  have hvs : toarr (pairs map) ≠ [] := by
    intro hnil
    have hempty : pairs map = [] := by simpa [toarr] using hnil
    rw [hempty] at hperm
    exact hne hperm.nil_eq.symm
  have hn : (toarr (pairs map)).length < 2 ^ 31 := by
    rw [toarr, List.length_map]
    exact length_lt_of_two_bytes hpairs.length hpairs.nodup
  have hlen : ∀ s ∈ toarr (pairs map), s.length < 2 ^ 63 := by
    intro s hs
    obtain ⟨⟨k, v⟩, hkv, rfl⟩ := List.mem_map.mp hs
    have hle := hlua _ (hperm.mem_iff.mp hkv)
    have hk := length_formatS_le k
    have hv := length_formatS_le v
    simp only [List.length_append] at hle ⊢
    omega
  obtain ⟨frame, hquery, hreply⟩ := redisBuildQuery_frame hvs hn hlen
  have hf : f = frame.bytes := Except.ok.inj (h.symm.trans hquery)
  have hready := redisParseReady_frame frame []
  have hparse := redisParseReply_frame frame []
  rw [List.append_nil, ← hf] at hready hparse
  rw [hreply] at hparse
  refine ⟨hready, ?_⟩
  by_cases hall : ∀ kv ∈ map, formatS kv.2 ≠ []
  · obtain ⟨m, htomap, henum⟩ := tomap_received hpairs
    refine .inl ⟨m, ?_, Enumerates.perm henum (hperm.map _), hall⟩
    rw [fieldsOf_of_accepted hparse ((checkarr_received hpairs).mpr fun kv hkv => hall kv (hperm.mem_iff.mp hkv)),
      htomap]
    rfl
  · obtain ⟨kv, hkv, hempty⟩ : ∃ kv ∈ map, formatS kv.2 = [] := by
      by_contra hno
      exact hall fun kv hkv hempty => hno ⟨kv, hkv, hempty⟩
    refine .inr ⟨?_, kv, hkv, hempty⟩
    have hbad : checkarr (.arr ((toarr (pairs map)).map some)) = .ok false := by
      rw [checkarr_strings]
      refine congrArg Except.ok (Bool.eq_false_iff.mpr fun htrue => ?_)
      have hok : checkarr (.arr ((toarr (pairs map)).map some)) = .ok true := by rw [checkarr_strings, htrue]
      exact (checkarr_received hpairs).mp hok kv (hperm.mem_iff.mpr hkv) hempty
    exact fieldsOf_of_refused hparse hbad

/-- **The broker's reading of a frame.** -/
theorem frameCommand_eq (hf : redisParseReady f = .done f.length) :
    frameCommand f =
      (fieldsOf f).bind fun map => ((map.get "id").bind cmdMap).map fun cmd => (cmd, map) := by
  obtain ⟨frame, q, hbytes, hq⟩ := redisParseReady_eq_done_iff.mp hf
  have hnil : q = [] := by
    have hlen := congrArg List.length hbytes
    rw [List.length_append] at hlen
    exact List.eq_nil_of_length_eq_zero (by omega)
  subst hnil
  rw [List.append_nil] at hbytes
  subst hbytes
  unfold frameCommand readCommand
  rw [hf]
  have hself := fieldsOf_frame frame []
  rw [List.append_nil] at hself
  rcases hself with ⟨hcheck, hfields⟩ | ⟨map, hcheck, hmap, hfields⟩
  · rw [hfields]
    simp only [bind, Except.bind, hcheck]
    rfl
  · rw [hfields]
    simp only [bind, Except.bind, hcheck, hmap]
    cases hid : map.get "id" with
    | none => simp [pure, Except.pure, hid]
    | some id =>
      cases hcmd : cmdMap id with
      | none => simp [pure, Except.pure, hid, hcmd]
      | some cmd => simp [pure, Except.pure, hid, hcmd]

end Frames

end ApApps.System

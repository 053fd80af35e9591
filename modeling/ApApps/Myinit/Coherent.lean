import ApApps.Myinit.Memfile

/- The memfile and its file.

   After `save` and `force_save` the file is to have the table that is in memory
   (`Coherent`). `clear` does not raise the flag, so `save` after it leaves the old table in
   the file. `coherent_iff` is about every run in which the values are ones JSON has a
   notation for: nothing else goes wrong. -/
namespace ApApps.Myinit
open Exec Cjson

/-- After the operation a process that starts sees the table that is in memory; and `save`
tells whether it has written the file. -/
def Coherent (env : Runtime) (s : Memfile) : Op → Prop
  | .save => ∃ b s', mfSave env s = .ok b s' ∧ Same s'.map (new env s'.file).map ∧
      (b = true ↔ s'.writes ≠ s.writes)
  | .forceSave => ∃ s', mfForceSave env s = .ok () s' ∧ Same s'.map (new env s'.file).map
  | _ => True

/-- The values that are set are plain. -/
def ValuesKept (env : Runtime) (_ : Memfile) : Op → Prop
  | .set _ (some v) => Plain env.fp 999 v
  | _ => True

/-- With the flag down, `save` does not find the table empty but entries in the file. -/
def NotCleared (env : Runtime) (s : Memfile) : Op → Prop
  | .save => s.change = false → s.map = .table [] → (loadFile env s.file).1 = .table []
  | _ => True

/-- A table with plain values at strings. -/
def IsPlainMap (env : Runtime) (v : Value) : Prop := ∃ es, v = .table es ∧ PlainMap env.fp 999 es

/-- What holds between two operations. -/
structure Inv (env : Runtime) (s : Memfile) : Prop where
  map : IsPlainMap env s.map
  file : IsPlainMap env (loadFile env s.file).1
  synced : s.change = false → s.map = .table [] ∨ Same s.map (loadFile env s.file).1

variable {env : Runtime} {s s' : Memfile}

/-! ## Tables -/

theorem plainMap_nil (env : Runtime) : IsPlainMap env (.table []) :=
  ⟨[], rfl, List.nodup_nil, fun _ h => absurd h List.not_mem_nil, fun _ h => absurd h List.not_mem_nil⟩

theorem plainMap_setField {fp : FpConv} {depth : Nat} {es : List (Key × Value)} (h : PlainMap fp depth es) (k : Bytes)
    {v : Option Value} (hv : ∀ w ∈ v, Plain fp depth w) : PlainMap fp depth (setField (.str k) v es) := by
  have hfilter : ∀ e ∈ es.filter (fun e => e.1 ≠ Key.str k), e ∈ es := fun e he => List.mem_of_mem_filter he
  have hkeys : (es.filter fun e => e.1 ≠ Key.str k).map Prod.fst = (es.map Prod.fst).filter fun k' => k' ≠ Key.str k := by
    rw [List.filter_map]
    rfl
  have hlast : ∀ e ∈ (v.map fun v => (Key.str k, v)).toList, e.1 = .str k ∧ e.2 ∈ v := by
    intro e he
    cases v with
    | none => exact absurd he List.not_mem_nil
    | some w =>
      rw [List.mem_singleton.mp he]
      exact ⟨rfl, rfl⟩
  refine ⟨?_, ?_, ?_⟩
  · rw [Cjson.setField, List.map_append, List.nodup_append, hkeys]
    refine ⟨h.nodup.filter _, ?_, ?_⟩
    · cases v with
      | none => exact List.nodup_nil
      | some w => exact List.nodup_singleton _
    · intro k1 h1 k2 h2 heq
      obtain ⟨e, he, rfl⟩ := List.mem_map.mp h2
      have hne := (List.mem_filter.mp h1).2
      rw [heq, (hlast e he).1] at hne
      simp at hne
  · intro e he
    rcases List.mem_append.mp he with he | he
    · exact h.keys e (hfilter e he)
    · exact ⟨k, (hlast e he).1⟩
  · intro e he
    rcases List.mem_append.mp he with he | he
    · exact h.values e (hfilter e he)
    · exact hv e.2 (hlast e he).2

theorem same_refl {v : Value} (h : IsPlainMap env v) : Same v v := by
  obtain ⟨es, rfl, hes⟩ := h
  exact .refl_of_plain (.object hes.nodup hes.keys hes.values : Plain env.fp 1000 _)

/-- Only the empty table is the same as it. -/
theorem same_nil_iff {v : Value} (h : IsPlainMap env v) : Same (.table []) v ↔ v = .table [] := by
  obtain ⟨es, rfl, hes⟩ := h
  constructor
  · intro hsame
    cases es with
    | nil => rfl
    | cons e es =>
      have hfield := hsame.field e.1
      rw [fieldOf, fieldOf, if_pos rfl] at hfield
      cases hfield
  · intro heq
    rw [heq]
    exact same_refl (plainMap_nil env)

/-! ## Files -/

/-- Reading the file again yields the same. -/
theorem loadFile_again (env : Runtime) (file : Option Bytes) :
    loadFile env (loadFile env file).2 = loadFile env file := by
  cases file with
  | none => rfl
  | some text =>
    cases hd : decode env.fp text with
    | none => simp only [loadFile, hd]
    | some v => cases v with
      | bool b => cases b <;> simp only [loadFile, hd]
      | _ => simp only [loadFile, hd]

/-- A plain table can be written, and the file then has it. -/
theorem encodeText_ok (h : IsPlainMap env s.map) : ∃ text, encodeText env s.map = some (some text) ∧
    IsPlainMap env (loadFile env (some text)).1 ∧ Same s.map (loadFile env (some text)).1 := by
  obtain ⟨es, hmap, hes⟩ := h
  obtain ⟨w, text, back, es', hw, htext, hback, hof, hsame, hplain⟩ := decode_plainMap hes
  have hencode : encodeValue env s.map = some text := by
    rw [encodeValue, hmap, hw, Option.bind_some, htext]
  have hload : (loadFile env (some text)).1 = .table es' := by
    cases back with
    | bool b => cases hof
    | _ => simp only [loadFile, hback, hof]
  refine ⟨text, by rw [encodeText, hencode, Option.map_some], ?_, ?_⟩
  · rw [hload]
    exact ⟨es', rfl, hplain⟩
  · rw [hload, hmap]
    exact hsame

/-! ## Operations -/

theorem mfForceSave_ok (h : IsPlainMap env s.map) : ∃ text, mfForceSave env s =
    .ok () { s with change := false, file := some text, writes := s.writes + 1 } ∧
    IsPlainMap env (loadFile env (some text)).1 ∧ Same s.map (loadFile env (some text)).1 := by
  obtain ⟨text, hencode, hfile, hsame⟩ := encodeText_ok h
  have hsave : saveFile env s = .ok () { s with file := some text, writes := s.writes + 1 } := by
    simp only [saveFile, Ins.saveFile, hencode, Option.map_some]
  refine ⟨text, ?_, hfile, hsame⟩
  unfold mfForceSave
  rw [bind_of_ok hsave]
  exact modify_ok _ _

theorem mfSave_down (h : s.change = false) : mfSave env s = .ok false s := by
  simp only [mfSave, Ins.save_down h, h, Bool.false_eq_true, if_false]

theorem mfSave_up (hmap : IsPlainMap env s.map) (h : s.change = true) : ∃ text, mfSave env s =
    .ok true { s with change := false, file := some text, writes := s.writes + 1 } ∧
    IsPlainMap env (loadFile env (some text)).1 ∧ Same s.map (loadFile env (some text)).1 := by
  obtain ⟨text, hencode, hfile, hsame⟩ := encodeText_ok hmap
  refine ⟨text, ?_, hfile, hsame⟩
  simp only [mfSave, Ins.save_up h hencode, h, if_true]

theorem step_inv {op : Op} (hI : Inv env s) (hop : ValuesKept env s op) (h : step env op s = .ok () s') :
    Inv env s' := by
  cases op with
  | set k v =>
    obtain ⟨es, hmap, hes⟩ := hI.map
    have hentries : entriesOf s.map = some es := congrArg entriesOf hmap
    have htable : isTable (some s.map) = true := congrArg (fun m => isTable (some m)) hmap
    simp only [step, mfSet, hentries, htable, Bool.or_true, if_true, Ins.set] at h
    split at h
    · cases h
      exact hI
    · cases h
      have hv : ∀ w ∈ v, Plain env.fp 999 w := by
        intro w hw
        rw [Option.mem_def.mp hw] at hop
        exact hop
      exact ⟨⟨_, rfl, plainMap_setField hes k hv⟩, hI.file, fun hc => nomatch hc⟩
  | setchange =>
    cases h
    exact ⟨hI.map, hI.file, fun hc => nomatch hc⟩
  | forceSave =>
    obtain ⟨text, hsave, hfile, hsame⟩ := mfForceSave_ok hI.map
    rw [step, hsave] at h
    cases h
    exact ⟨hI.map, hfile, fun _ => .inr hsame⟩
  | save =>
    cases hc : s.change with
    | false =>
      have hstep : step env .save s = .ok () s := bind_of_ok (mfSave_down hc)
      rw [hstep] at h
      cases h
      exact hI
    | true =>
      obtain ⟨text, hsave, hfile, hsame⟩ := mfSave_up hI.map hc
      rw [step, bind_of_ok hsave] at h
      cases h
      exact ⟨hI.map, hfile, fun _ => .inr hsame⟩
  | reload =>
    cases h
    have hagain := congrArg Prod.fst (loadFile_again env s.file)
    exact ⟨hI.file, hagain ▸ hI.file, fun _ => .inr (hagain ▸ same_refl hI.file)⟩
  | clear =>
    cases h
    exact ⟨plainMap_nil env, hI.file, fun _ => .inl rfl⟩

/-- An operation leaves memory and file the same if and only if it does not save what has
been cleared with the flag down. -/
theorem coherent_step {op : Op} (hI : Inv env s) : Coherent env s op ↔ NotCleared env s op := by
  cases op with
  | save =>
    cases hc : s.change with
    | true =>
      obtain ⟨text, hsave, -, hsame⟩ := mfSave_up hI.map hc
      constructor
      · intro _ hdown
        rw [hc] at hdown
        cases hdown
      · intro _
        exact ⟨true, _, hsave, hsame, by simp⟩
    | false =>
      have hsave : mfSave env s = .ok false s := mfSave_down hc
      constructor
      · rintro ⟨b, s', hok, hsame, -⟩ - hnil
        rw [hsave] at hok
        cases hok
        rw [hnil] at hsame
        exact (same_nil_iff hI.file).mp hsame
      · intro hnot
        refine ⟨false, s, hsave, ?_, by simp⟩
        rcases hI.synced hc with hnil | hsame
        · rw [hnil]
          exact (same_nil_iff hI.file).mpr (hnot hc hnil)
        · exact hsame
  | forceSave =>
    obtain ⟨text, hsave, -, hsame⟩ := mfForceSave_ok hI.map
    exact ⟨fun _ => trivial, fun _ => ⟨_, hsave, hsame⟩⟩
  | _ => exact Iff.rfl

/-- **In every run in which plain values are set, memory and file are the same after
each save if and only if none of them finds the flag down, the table cleared and entries
in the file.** -/
theorem coherent_iff {file : Option Bytes} {ops : List Op} (hfile : IsPlainMap env (new env file).map)
    (hkept : Along (step env) (ValuesKept env) (new env file) ops) :
    Along (step env) (Coherent env) (new env file) ops ↔ Along (step env) (NotCleared env) (new env file) ops := by
  have hagain := congrArg Prod.fst (loadFile_again env file)
  have hinv : Inv env (new env file) := ⟨hfile, hagain ▸ hfile, fun _ => .inr (hagain ▸ same_refl hfile)⟩
  exact along_iff (I := Inv env) (fun _ _ _ hI hop h => step_inv hI hop h) (fun _ _ hI _ => coherent_step hI) hinv hkept

/-! ## What has been cleared -/

/-- A runtime that yields every table in the order in which it is listed. -/
def listed : Runtime := ⟨cLibrary, id, fun l => .refl l⟩

theorem keptNum_five : KeptNum cLibrary (.int 5) :=
  ⟨by unfold IsFinite; decide +kernel, by decide +kernel,
    readsNumeral_cLibrary (by decide +kernel) (by decide +kernel) (by decide +kernel)⟩

/-- A number and an array are set and saved, and then the table is cleared and set again. -/
def setAgain : List Op :=
  [.set (ascii "lasttime") (some (.num (.int 5))), .set (ascii "map") (some (.table (indexed [.str [], .null]))),
    .save, .clear, .set (ascii "lasttime") (some (.num (.int 5))), .save]

theorem coherent_setAgain : Along (step listed) (Coherent listed) (new listed none) setAgain ↔
    Along (step listed) (NotCleared listed) (new listed none) setAgain := by
  refine coherent_iff (plainMap_nil _) ⟨.num _ keptNum_five, fun _ _ => ⟨?_, fun _ _ => ⟨trivial, fun _ _ =>
    ⟨trivial, fun _ _ => ⟨.num _ keptNum_five, fun _ _ => ⟨trivial, fun _ _ => trivial⟩⟩⟩⟩⟩⟩
  refine .array (List.cons_ne_nil (Value.str []) [.null]) (.refl _) ?_
  intro e he
  rcases List.mem_cons.mp he with rfl | he
  · exact .str _ _
  · rw [List.mem_singleton.mp he]
    exact .null _

def clearedOps : List Op := [.set (ascii "k") (some (.str (ascii "v"))), .save, .clear]

/-- The table in memory is empty after `clear`, the flag is down, and the file still has `k`. -/
theorem save_after_clear : ¬ Along (step listed) (Coherent listed) (new listed none) (clearedOps ++ [.save]) := by
  intro h
  have hrun : runAll (step listed) clearedOps (new listed none) =
      .ok () (finalState (runAll (step listed) clearedOps (new listed none))) := eq_ok_of_returned (by decide +kernel)
  have hdown : (finalState (runAll (step listed) clearedOps (new listed none))).change = false := by decide +kernel
  have hmap : ((finalState (runAll (step listed) clearedOps (new listed none))).map.follow
      [.str (ascii "k")]).isSome = false := by decide +kernel
  have hfile : ((new listed (finalState (runAll (step listed) clearedOps (new listed none))).file).map.follow
      [.str (ascii "k")]).isSome = true := by decide +kernel
  obtain ⟨b, s', hok, hsame, -⟩ := h.at_step hrun
  rw [mfSave_down hdown] at hok
  cases hok
  have hpath := hsame [.str (ascii "k")]
  generalize Value.follow _ _ = leaf at hpath hmap
  generalize Value.follow _ _ = leaf' at hpath hfile
  cases hpath with
  | none => cases hfile
  | some => cases hmap

end ApApps.Myinit

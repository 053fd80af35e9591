import ApApps.Lib.Assign

/- A configuration store in the manner of uci: a list of sections with a type, options
   and maybe a name. `@type[k]` is the `k`-th section of a type, counted from the end
   if `k` is negative.

   `foldl_delete`: deleting by index from the last section of a type down to the first
   leaves none of it and nothing else out. `length_others_run`: which commands leave the
   sections of the other types. `foldl_named`: what a run of settings does to a named
   section is a list of assignments, so their order does not matter. -/
namespace Uci
open Assignments

variable {N T K V : Type}

structure Section (N T K V : Type) where
  name : Option N
  type : T
  options : K → Option V

/-- The sections of a file, in order. -/
abbrev Package (N T K V : Type) := List (Section N T K V)

section Types
variable [DecidableEq T]

/-- The sections of a type. -/
def ofType (t : T) (pkg : Package N T K V) : Package N T K V := pkg.filter (·.type = t)

/-- The sections of the other types. -/
def others (t : T) (pkg : Package N T K V) : Package N T K V := pkg.filter (·.type ≠ t)

/-- The position among the sections of its type that `[k]` stands for. -/
def position (t : T) (k : Int) (pkg : Package N T K V) : Option Nat :=
  let n := if k < 0 then k + (ofType t pkg).length else k
  if n < 0 then none else some n.toNat

/-- The package without the `n`-th section of a type. -/
def eraseNth (t : T) : Nat → Package N T K V → Package N T K V
  | _, [] => []
  | 0, s :: pkg => if s.type = t then pkg else s :: eraseNth t 0 pkg
  | n + 1, s :: pkg => if s.type = t then s :: eraseNth t n pkg else s :: eraseNth t (n + 1) pkg

/-- The package with the `n`-th section of a type changed. -/
def modifyNth (t : T) (f : Section N T K V → Section N T K V) : Nat → Package N T K V → Package N T K V
  | _, [] => []
  | 0, s :: pkg => if s.type = t then f s :: pkg else s :: modifyNth t f 0 pkg
  | n + 1, s :: pkg => if s.type = t then s :: modifyNth t f n pkg else s :: modifyNth t f (n + 1) pkg

theorem ofType_cons_self {t : T} {s : Section N T K V} (pkg : Package N T K V) (h : s.type = t) :
    ofType t (s :: pkg) = s :: ofType t pkg :=
  List.filter_cons_of_pos (by simpa using h)

theorem ofType_cons_ne {t : T} {s : Section N T K V} (pkg : Package N T K V) (h : s.type ≠ t) :
    ofType t (s :: pkg) = ofType t pkg :=
  List.filter_cons_of_neg (by simpa using h)

theorem others_cons_self {t : T} {s : Section N T K V} (pkg : Package N T K V) (h : s.type = t) :
    others t (s :: pkg) = others t pkg :=
  List.filter_cons_of_neg (by simpa using h)

theorem others_cons_ne {t : T} {s : Section N T K V} (pkg : Package N T K V) (h : s.type ≠ t) :
    others t (s :: pkg) = s :: others t pkg :=
  List.filter_cons_of_pos (by simpa using h)

theorem others_eraseNth (t : T) (n : Nat) (pkg : Package N T K V) :
    others t (eraseNth t n pkg) = others t pkg := by
  induction pkg generalizing n with
  | nil => rfl
  | cons s pkg ih =>
    by_cases hs : s.type = t
    · cases n with
      | zero => rw [eraseNth, if_pos hs, others_cons_self pkg hs]
      | succ n => rw [eraseNth, if_pos hs, others_cons_self _ hs, others_cons_self pkg hs, ih]
    · cases n <;> rw [eraseNth, if_neg hs, others_cons_ne _ hs, others_cons_ne pkg hs, ih]

theorem ofType_eraseNth (t : T) (n : Nat) (pkg : Package N T K V) :
    ofType t (eraseNth t n pkg) = (ofType t pkg).eraseIdx n := by
  induction pkg generalizing n with
  | nil => rfl
  | cons s pkg ih =>
    by_cases hs : s.type = t
    · cases n with
      | zero => rw [eraseNth, if_pos hs, ofType_cons_self pkg hs, List.eraseIdx_cons_zero]
      | succ n =>
        rw [eraseNth, if_pos hs, ofType_cons_self _ hs, ofType_cons_self pkg hs, List.eraseIdx_cons_succ, ih]
    · cases n <;> rw [eraseNth, if_neg hs, ofType_cons_ne _ hs, ofType_cons_ne pkg hs, ih]

theorem modifyNth_append (t : T) (f : Section N T K V → Section N T K V) (pkg : Package N T K V)
    {s : Section N T K V} (hs : s.type = t) :
    modifyNth t f (ofType t pkg).length (pkg ++ [s]) = pkg ++ [f s] := by
  induction pkg with
  | nil => simp [modifyNth, ofType, hs]
  | cons x pkg ih =>
    by_cases hx : x.type = t
    · rw [ofType_cons_self pkg hx, List.length_cons, List.cons_append, modifyNth, if_pos hx, ih]
      rfl
    · have hstep : ∀ n, modifyNth t f n (x :: (pkg ++ [s])) = x :: modifyNth t f n (pkg ++ [s]) := by
        intro n
        cases n <;> rw [modifyNth, if_neg hx]
      rw [ofType_cons_ne pkg hx, List.cons_append, hstep, ih]
      rfl

theorem length_others (t : T) (pkg : Package N T K V) :
    (others t pkg).length = (pkg.map Section.type).countP (· ≠ t) := by
  rw [others, ← List.countP_eq_length_filter, List.countP_map]
  rfl

theorem types_modifyNth (t : T) {f : Section N T K V → Section N T K V} (hf : ∀ s, (f s).type = s.type) (n : Nat)
    (pkg : Package N T K V) : (modifyNth t f n pkg).map Section.type = pkg.map Section.type := by
  induction pkg generalizing n with
  | nil => cases n <;> rfl
  | cons s pkg ih =>
    cases n with
    | zero =>
      rw [modifyNth]
      split
      · rw [List.map_cons, List.map_cons, hf]
      · rw [List.map_cons, List.map_cons, ih]
    | succ n =>
      rw [modifyNth]
      split
      · rw [List.map_cons, List.map_cons, ih]
      · rw [List.map_cons, List.map_cons, ih]

end Types

section Names
variable [DecidableEq N]

/-- The package with the sections of a name changed. -/
def modifyNamed (name : N) (f : Section N T K V → Section N T K V) (pkg : Package N T K V) :
    Package N T K V :=
  pkg.map fun s => if s.name = some name then f s else s

def hasNamed (name : N) (pkg : Package N T K V) : Prop := ∃ s ∈ pkg, s.name = some name

instance (name : N) (pkg : Package N T K V) : Decidable (hasNamed name pkg) := by
  unfold hasNamed
  infer_instance

theorem modifyNamed_modifyNamed (name : N) (f g : Section N T K V → Section N T K V)
    (hf : ∀ s, (f s).name = s.name) (pkg : Package N T K V) :
    modifyNamed name g (modifyNamed name f pkg) = modifyNamed name (fun s => g (f s)) pkg := by
  unfold modifyNamed
  rw [List.map_map]
  refine List.map_congr_left fun s _ => ?_
  by_cases hs : s.name = some name
  · simp [hs, hf]
  · simp [hs]

theorem hasNamed_modifyNamed {name name' : N} {f : Section N T K V → Section N T K V}
    (hf : ∀ s, (f s).name = s.name) {pkg : Package N T K V} (h : hasNamed name' pkg) :
    hasNamed name' (modifyNamed name f pkg) := by
  obtain ⟨s, hs, hn⟩ := h
  refine ⟨_, List.mem_map_of_mem hs, ?_⟩
  by_cases hname : s.name = some name
  · rw [if_pos hname, hf, hn]
  · rw [if_neg hname, hn]

end Names

/-! ## Commands -/

inductive Cmd (N T K V : Type) where
  /-- `add <type>` -/
  | add (t : T)
  /-- `delete @<type>[k]` -/
  | delete (t : T) (k : Int)
  /-- `set @<type>[k].<key>=<value>`; without a value the option is removed -/
  | setAt (t : T) (k : Int) (key : K) (v : Option V)
  /-- `set <name>=<type>` -/
  | setType (name : N) (t : T)
  /-- `set <name>.<key>=<value>`; without a value the option is removed -/
  | setOption (name : N) (key : K) (v : Option V)

/-- A setting of the section `name`. -/
def Cmd.Sets (name : N) : Cmd N T K V → Prop
  | .setType n _ => n = name
  | .setOption n _ _ => n = name
  | _ => False

/-- The assignments of a run of settings. -/
def assignments (cmds : List (Cmd N T K V)) : List (K × Option V) :=
  cmds.filterMap fun c => match c with
    | .setOption _ k v => some (k, v)
    | _ => none

/-- The type a run of settings leaves. -/
def typeAfter (t : T) (cmds : List (Cmd N T K V)) : T :=
  cmds.foldl (fun t c => match c with
    | .setType _ t' => t'
    | _ => t) t

variable [DecidableEq N] [DecidableEq T] [DecidableEq K]

/-- `set` of one option. -/
def Section.set (s : Section N T K V) (k : K) (v : Option V) : Section N T K V :=
  { s with options := Function.update s.options k v }

/-- A command whose section does not exist does nothing. -/
def Cmd.run (pkg : Package N T K V) : Cmd N T K V → Package N T K V
  | .add t => pkg ++ [⟨none, t, fun _ => none⟩]
  | .delete t k =>
    match position t k pkg with
    | some n => eraseNth t n pkg
    | none => pkg
  | .setAt t k key v =>
    match position t k pkg with
    | some n => modifyNth t (·.set key v) n pkg
    | none => pkg
  | .setType name t =>
    if hasNamed name pkg then modifyNamed name (fun s => { s with type := t }) pkg
    else pkg ++ [⟨some name, t, fun _ => none⟩]
  | .setOption name key v => modifyNamed name (·.set key v) pkg

/-! ## Deleting -/

theorem run_delete (t : T) (k : Int) (pkg : Package N T K V) :
    Cmd.run pkg (.delete t k) = (position t k pkg).elim pkg fun n => eraseNth t n pkg := by
  rw [Cmd.run]
  cases position t k pkg <;> rfl

theorem others_delete (t : T) (k : Int) (pkg : Package N T K V) :
    others t (Cmd.run pkg (.delete t k)) = others t pkg := by
  rw [run_delete]
  cases position t k pkg with
  | none => rfl
  | some n => exact others_eraseNth t n pkg

/-- Deleting what may be the last section of the type. -/
theorem length_delete_le {t : T} {n : Nat} {pkg : Package N T K V} (h : (ofType t pkg).length ≤ n + 1) :
    (ofType t (Cmd.run pkg (.delete t n))).length ≤ n := by
  have hpos : position t (n : Int) pkg = some n := by
    have hn : ¬ (n : Int) < 0 := by omega
    simp [position, hn]
  rw [run_delete, hpos, Option.elim_some, ofType_eraseNth, List.length_eraseIdx]
  split <;> omega

/-- A delete that finds nothing. -/
theorem delete_of_empty {t : T} {pkg : Package N T K V} (h : ofType t pkg = []) (k : Int) :
    ofType t (Cmd.run pkg (.delete t k)) = [] := by
  rw [run_delete]
  cases position t k pkg with
  | none => exact h
  | some n => rw [Option.elim_some, ofType_eraseNth, h, List.eraseIdx_nil]

/-- **Deleting `[n - 1]`, `[n - 2]`, and so on to `[-1]`** removes every section of the type, if
there are at most `n`, and no other. -/
theorem foldl_delete {t : T} {n : Nat} {pkg : Package N T K V} (h : (ofType t pkg).length ≤ n) :
    (((List.range (n + 1)).map fun i : Nat => Cmd.delete t ((n : Int) - 1 - i)).foldl Cmd.run pkg) = others t pkg := by
  have hsteps : ∀ i ≤ n, let pkg' := ((List.range i).map fun i : Nat => Cmd.delete t ((n : Int) - 1 - i)).foldl Cmd.run pkg
      others t pkg' = others t pkg ∧ (ofType t pkg').length ≤ n - i := by
    intro i hi
    induction i with
    | zero => exact ⟨rfl, h⟩
    | succ i ih =>
      obtain ⟨hothers, hlen⟩ := ih (by omega)
      rw [List.range_succ, List.map_append, List.foldl_append]
      have hidx : (n : Int) - 1 - i = ((n - (i + 1) : Nat) : Int) := by omega
      refine ⟨(others_delete t _ _).trans hothers, ?_⟩
      simp only [List.map_cons, List.map_nil, List.foldl_cons, List.foldl_nil, hidx]
      exact length_delete_le (by omega)
  obtain ⟨hothers, hlen⟩ := hsteps n (Nat.le_refl n)
  rw [List.range_succ, List.map_append, List.foldl_append]
  have hnone := List.length_eq_zero_iff.mp (Nat.le_zero.mp (hlen.trans (Nat.le_of_eq (Nat.sub_self n))))
  -- the last one, `[-1]`, finds nothing
  have hempty := delete_of_empty hnone ((n : Int) - 1 - n)
  have hothers' := (others_delete t ((n : Int) - 1 - n) _).trans hothers
  rw [← hothers']
  refine (List.filter_eq_self.mpr fun s hs => ?_).symm
  simp only [ne_eq, decide_not, Bool.not_eq_true', decide_eq_false_iff_not]
  intro ht
  have hmem : s ∈ ofType t _ := List.mem_filter.mpr ⟨hs, by simpa using ht⟩
  simp only [List.map_cons, List.map_nil, List.foldl_cons, List.foldl_nil] at hmem
  rw [hempty] at hmem
  cases hmem

/-! ## What is not deleted -/

/-- The command deletes no section of another type, and makes none one of this type. -/
def Cmd.Spares (t : T) : Cmd N T K V → Prop
  | .delete t' _ => t' = t
  | .setType _ t' => t' ≠ t
  | _ => True

/-- There are no fewer sections of other types after a command that spares them. -/
theorem length_others_run {t : T} {c : Cmd N T K V} (h : c.Spares t) (pkg : Package N T K V) :
    (others t pkg).length ≤ (others t (c.run pkg)).length := by
  have happend : ∀ s, (others t pkg).length ≤ (others t (pkg ++ [s])).length := by
    intro s
    simp [others]
  cases c with
  | add t' => exact happend _
  | delete t' k =>
    obtain rfl : t' = t := h
    rw [others_delete]
  | setAt t' k key v =>
    rw [Cmd.run]
    cases position t' k pkg with
    | none => exact Nat.le_refl _
    | some n =>
      have htypes := types_modifyNth t' (f := (·.set key v)) (fun _ => rfl) n pkg
      simp only [length_others, htypes, Nat.le_refl]
  | setType name t' =>
    rw [Cmd.run]
    split
    · simp only [length_others, modifyNamed, List.map_map, List.countP_map]
      refine List.countP_mono_left fun s _ hs => ?_
      have ht : t' ≠ t := h
      simp only [Function.comp_apply, decide_eq_true_eq] at hs ⊢
      split
      · exact ht
      · exact hs
    · exact happend _
  | setOption name key v =>
    have htypes : (modifyNamed name (·.set key v) pkg).map Section.type = pkg.map Section.type := by
      rw [modifyNamed, List.map_map]
      refine List.map_congr_left fun s _ => ?_
      rw [Function.comp_apply]
      split
      · rfl
      · rfl
    rw [Cmd.run]
    simp only [length_others, htypes, Nat.le_refl]

/-! ## Adding -/

/-- Setting an option of the section added last. -/
theorem setAt_last {t : T} (pkg : Package N T K V) {s : Section N T K V} (hs : s.type = t) (key : K) (v : Option V) :
    Cmd.run (pkg ++ [s]) (.setAt t (-1) key v) = pkg ++ [s.set key v] := by
  have hpos : position t (-1) (pkg ++ [s]) = some (ofType t pkg).length := by
    have hlen : (ofType t (pkg ++ [s])).length = (ofType t pkg).length + 1 := by
      simp [ofType, hs]
    simp [position, hlen]
  rw [Cmd.run, hpos]
  exact modifyNth_append t _ pkg hs

/-- A section that is added, and then has options set one after the other. -/
theorem foldl_add {t : T} (pkg : Package N T K V) (kvs : List (K × Option V)) :
    (Cmd.add t :: kvs.map fun kv => Cmd.setAt t (-1) kv.1 kv.2).foldl Cmd.run pkg =
      pkg ++ [⟨none, t, assign (fun _ => none) kvs⟩] := by
  have hset : ∀ s : Section N T K V, s.type = t →
      (kvs.map fun kv => Cmd.setAt t (-1) kv.1 kv.2).foldl Cmd.run (pkg ++ [s]) =
        pkg ++ [{ s with options := assign s.options kvs }] := by
    induction kvs with
    | nil => exact fun s _ => rfl
    | cons kv kvs ih =>
      intro s hs
      rw [List.map_cons, List.foldl_cons, setAt_last pkg hs, ih (s.set kv.1 kv.2) hs]
      rfl
  exact hset ⟨none, t, fun _ => none⟩ rfl

/-! ## Named sections -/

/-- A section after a run of settings of it. -/
def Section.after (cmds : List (Cmd N T K V)) (s : Section N T K V) : Section N T K V :=
  ⟨s.name, typeAfter s.type cmds, assign s.options (assignments cmds)⟩

/-- **A run of settings of an existing section** changes its type and its options. -/
theorem foldl_named {name : N} {cmds : List (Cmd N T K V)} (hc : ∀ c ∈ cmds, c.Sets name)
    {pkg : Package N T K V} (h : hasNamed name pkg) :
    cmds.foldl Cmd.run pkg = modifyNamed name (.after cmds) pkg := by
  induction cmds generalizing pkg with
  | nil =>
    have hid : ∀ s : Section N T K V, (if s.name = some name then s.after [] else s) = s := by
      intro s
      split <;> rfl
    simp only [modifyNamed, hid, List.map_id']
    rfl
  | cons c cmds ih =>
    have hrest := fun c' hc' => hc c' (List.mem_cons_of_mem _ hc')
    -- the first command is a change of the section, too
    obtain ⟨f, hf, hrun, hafter⟩ : ∃ f : Section N T K V → Section N T K V, (∀ s, (f s).name = s.name) ∧
        Cmd.run pkg c = modifyNamed name f pkg ∧ ∀ s, (f s).after cmds = s.after (c :: cmds) := by
      cases c with
      | setType n t =>
        obtain rfl : n = name := hc _ List.mem_cons_self
        exact ⟨fun s => { s with type := t }, fun _ => rfl, if_pos h, fun _ => rfl⟩
      | setOption n k v =>
        obtain rfl : n = name := hc _ List.mem_cons_self
        exact ⟨(·.set k v), fun _ => rfl, rfl, fun _ => rfl⟩
      | add => exact (hc _ List.mem_cons_self).elim
      | delete => exact (hc _ List.mem_cons_self).elim
      | setAt => exact (hc _ List.mem_cons_self).elim
    rw [List.foldl_cons, hrun, ih hrest (hasNamed_modifyNamed hf h), modifyNamed_modifyNamed name f _ hf]
    simp only [hafter]

end Uci

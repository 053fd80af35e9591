import ApApps.Lib.Machine
import ApApps.Compare.Chk

/- The programs that watch one file with `new_chk_file`: setconf, network, report and base
   look at it and read it if `check` says so, cfgmgr also writes it, and calls
   `save_current` after an update, but not after a replacement of the configuration. Other
   processes write it whenever they like.

   `changes_noticed` is about every run: where `check` finds nothing, the content last
   read or written is that of the file, and after the last write every program gets
   there. The condition (`Fits`) is that no other content arrives with a modification
   time a program has recorded, and none between a write of its own and `save_current`.
   `missed_in_one_second` is the run of a program that misses a write.

   A file appears at once, with the time of the rename's source; a program does nothing
   else between `check` and reading the file, nor between `save` and `save_current`. -/
namespace ApApps.Compare
open Exec

/-- Where a program is. -/
inductive Phase where
  /-- before the next `check`, or the next command -/
  | idle
  /-- `check` has said so, the file has not been read yet -/
  | changed
  /-- `cfg.save()` has been called, `save_current` not yet -/
  | saved
  deriving DecidableEq, Repr

/-- A program, with the content of the file it last read or wrote. -/
structure Consumer where
  mf : Memfile
  known : Option Bytes
  phase : Phase

/-- The content of the file, and its modification time. -/
abbrev File := Option (Bytes × Nat)

/-- `lfs.attributes(path)`, of which `modification` is used. -/
def attr (file : File) : Option Nat := file.map Prod.snd

/-- What a program does. -/
inductive Act where
  | check
  | read
  /-- the `cfg.save()` of `cmd_map.update`, which writes the file if something has changed -/
  | update (own : File)
  /-- the one of `cmd_map.replace`, which no `save_current` comes after -/
  | replace (own : File)
  | saveCurrent
  /-- `chk:save()` -/
  | save
  /-- `chk:clear()` -/
  | clear
  /-- the program starts again: it reads the file first, or clears the file check -/
  | restart (reads : Bool)

/-- A program that starts, from what the file of its memfile has. -/
def Consumer.boot (saved : Option Nat) (reads : Bool) : Consumer :=
  if reads then ⟨.new saved, none, .changed⟩ else ⟨(Memfile.new saved).clear, none, .idle⟩

/-- The result of `check`. -/
def Consumer.checks (con : Consumer) (file : File) : Bool := (Compare.check (attr file) con.mf).1

/-- The step of a program, and what it leaves of the file. -/
def Consumer.next (con : Consumer) (file : File) : Act → Consumer × File
  | .check =>
    if con.phase = .idle then
      match Compare.check (attr file) con.mf with
      | (true, mf) => ({ con with mf, phase := .changed }, file)
      | (false, mf) => ({ con with mf }, file)
    else (con, file)
  | .read =>
    if con.phase = .changed then ({ con with known := (file.map Prod.fst).or con.known, phase := .idle }, file)
    else (con, file)
  | .update own =>
    if con.phase = .idle then
      ({ con with known := (own.map Prod.fst).or con.known, phase := .saved }, own.or file)
    else (con, file)
  | .replace own =>
    if con.phase = .idle then ({ con with known := (own.map Prod.fst).or con.known }, own.or file) else (con, file)
  | .saveCurrent =>
    if con.phase = .saved then ({ con with mf := Compare.saveCurrent (attr file) con.mf, phase := .idle }, file)
    else (con, file)
  | .save => ({ con with mf := con.mf.save }, file)
  | .clear => ({ con with mf := con.mf.clear }, file)
  | .restart reads => (.boot con.mf.file reads, file)

section System
variable {ι : Type} [DecidableEq ι]

structure Sys (ι : Type) where
  file : File
  consumer : ι → Consumer

inductive Event (ι : Type) where
  /-- another process writes the file, or renames one to it -/
  | write (content : Bytes) (modification : Nat)
  | remove
  | act (i : ι) (a : Act)

def Sys.boot (file : File) (saved : ι → Option Nat) (reads : ι → Bool) : Sys ι :=
  ⟨file, fun i => .boot (saved i) (reads i)⟩

def Sys.next (s : Sys ι) : Event ι → Sys ι
  | .write content modification => { s with file := some (content, modification) }
  | .remove => { s with file := none }
  | .act i a =>
    let (con, file) := (s.consumer i).next s.file a
    ⟨file, Function.update s.consumer i con⟩

def step (ev : Event ι) : EStateM LuaError (Sys ι) Unit := fun s => .ok () (s.next ev)

/-! ## What must not happen -/

/-- A file with another content has another time than the one a waiting program has recorded. -/
def Accepts (con : Consumer) (content : Bytes) (modification : Nat) : Prop :=
  con.phase = .idle → con.mf.lasttime = some modification → con.known = some content

/-- Every write is accepted by the programs that have not done it, and the file has the content
a program knows when it calls `save_current`. -/
def Fits (s : Sys ι) : Event ι → Prop
  | .write content modification => ∀ i, Accepts (s.consumer i) content modification
  | .act i (.update (some (content, modification))) =>
    (s.consumer i).phase = .idle → ∀ j, j ≠ i → Accepts (s.consumer j) content modification
  | .act i (.replace (some (content, modification))) =>
    (s.consumer i).phase = .idle → ∀ j, j ≠ i → Accepts (s.consumer j) content modification
  | .act i .saveCurrent => (s.consumer i).phase = .saved → ∀ f ∈ s.file, (s.consumer i).known = some f.1
  | _ => True

instance (con : Consumer) (content : Bytes) (modification : Nat) : Decidable (Accepts con content modification) :=
  inferInstanceAs (Decidable (_ → _ → _))

instance [Fintype ι] (s : Sys ι) (ev : Event ι) : Decidable (Fits s ev) :=
  match ev with
  | .write content modification => inferInstanceAs (Decidable (∀ i, Accepts (s.consumer i) content modification))
  | .act i (.update (some (content, modification))) =>
    inferInstanceAs (Decidable ((s.consumer i).phase = .idle → ∀ j, j ≠ i → Accepts (s.consumer j) content modification))
  | .act i (.replace (some (content, modification))) =>
    inferInstanceAs (Decidable ((s.consumer i).phase = .idle → ∀ j, j ≠ i → Accepts (s.consumer j) content modification))
  | .act i .saveCurrent =>
    inferInstanceAs (Decidable ((s.consumer i).phase = .saved → ∀ f ∈ s.file, (s.consumer i).known = some f.1))
  | .remove => isTrue trivial
  | .act _ (.update none) => isTrue trivial
  | .act _ (.replace none) => isTrue trivial
  | .act _ .check => isTrue trivial
  | .act _ .read => isTrue trivial
  | .act _ .save => isTrue trivial
  | .act _ .clear => isTrue trivial
  | .act _ (.restart _) => isTrue trivial

/-! ## What holds in every run -/

/-- A waiting program that has recorded the time of the file knows its content. -/
def Current (con : Consumer) (file : File) : Prop :=
  ∀ content modification, file = some (content, modification) → Accepts con content modification

theorem check_false {con : Consumer} {file : File} {content : Bytes} {modification : Nat}
    (hfile : file = some (content, modification)) (h : con.checks file = false) :
    con.mf.lasttime = some modification := by
  subst hfile
  by_contra hne
  simp [Consumer.checks, attr, Compare.check, hne] at h

/-- What `check` leaves. -/
theorem next_check (con : Consumer) (file : File) (hidle : con.phase = .idle) :
    (con.next file .check = (con, file) ∧ con.checks file = false) ∨
      ((con.next file .check).1.phase = .changed ∧ (con.next file .check).2 = file) := by
  unfold Consumer.next Consumer.checks
  rw [if_pos hidle]
  cases hc : Compare.check (attr file) con.mf with
  | mk b mf =>
    cases b with
    | true => exact .inr ⟨rfl, rfl⟩
    | false =>
      -- the memfile is the same
      have hmf : mf = con.mf := by
        unfold Compare.check at hc
        split at hc
        · exact (congrArg Prod.snd hc).symm
        · split at hc
          · exact (congrArg Prod.snd hc).symm
          · cases hc
      exact .inl ⟨by rw [hmf], rfl⟩

/-- A step of a program keeps it current, and hands on a file that the others accept. -/
theorem current_next {con : Consumer} {file : File} (h : Current con file) (a : Act)
    (hsave : a = .saveCurrent → con.phase = .saved → ∀ f ∈ file, con.known = some f.1) :
    Current (con.next file a).1 (con.next file a).2 := by
  cases a with
  | check =>
    by_cases hidle : con.phase = .idle
    · rcases next_check con file hidle with ⟨heq, _⟩ | ⟨hchanged, hfile⟩
      · rw [heq]
        exact h
      · intro content modification _ hidle'
        rw [hchanged] at hidle'
        cases hidle'
    · rw [Consumer.next, if_neg hidle]
      exact h
  | read =>
    simp only [Consumer.next]
    split
    · intro content modification hfile _ _
      simp only at hfile
      rw [hfile]
      rfl
    · exact h
  | update own =>
    simp only [Consumer.next]
    split
    · intro content modification _ hidle
      cases hidle
    · exact h
  | replace own =>
    simp only [Consumer.next]
    split
    · intro content modification hfile hidle hlast
      cases own with
      | none => exact h content modification hfile hidle hlast
      | some own =>
        cases hfile
        rfl
    · exact h
  | saveCurrent =>
    simp only [Consumer.next]
    split
    · rename_i hsaved
      intro content modification hfile _ _
      exact hsave rfl hsaved (content, modification) hfile
    · exact h
  | save =>
    intro content modification hfile hidle hlast
    exact h content modification hfile hidle ((Memfile.lasttime_save con.mf).symm.trans hlast)
  | clear =>
    intro content modification _ _ hlast
    cases hlast
  | restart reads =>
    intro content modification _ hidle hlast
    cases reads with
    | true => cases hidle
    | false => cases hlast

/-- The file after a step of a program: its own, if it has written one. -/
theorem next_file (con : Consumer) (file : File) (a : Act) :
    (con.next file a).2 = file ∨ ∃ own, con.phase = .idle ∧ (a = .update (some own) ∨ a = .replace (some own)) ∧
      (con.next file a).2 = some own := by
  cases a with
  | update own =>
    simp only [Consumer.next]
    split
    · rename_i hidle
      cases own with
      | none => exact .inl rfl
      | some own => exact .inr ⟨own, hidle, .inl rfl, rfl⟩
    · exact .inl rfl
  | replace own =>
    simp only [Consumer.next]
    split
    · rename_i hidle
      cases own with
      | none => exact .inl rfl
      | some own => exact .inr ⟨own, hidle, .inr rfl, rfl⟩
    · exact .inl rfl
  | check =>
    by_cases hidle : con.phase = .idle
    · rcases next_check con file hidle with ⟨heq, _⟩ | ⟨_, hfile⟩
      · exact .inl (by rw [heq])
      · exact .inl hfile
    · exact .inl (by rw [Consumer.next, if_neg hidle])
  | read =>
    simp only [Consumer.next]
    split <;> exact .inl rfl
  | saveCurrent =>
    simp only [Consumer.next]
    split <;> exact .inl rfl
  | save => exact .inl rfl
  | clear => exact .inl rfl
  | restart => exact .inl rfl

theorem current_boot (file : File) (saved : Option Nat) (reads : Bool) : Current (.boot saved reads) file := by
  intro content modification _ hidle hlast
  cases reads with
  | true => cases hidle
  | false => cases hlast

theorem current_step {s s' : Sys ι} (ev : Event ι) (h : ∀ i, Current (s.consumer i) s.file) (hfits : Fits s ev)
    (hs : step ev s = .ok () s') : ∀ i, Current (s'.consumer i) s'.file := by
  cases hs
  cases ev with
  | write content modification =>
    intro i content' modification' hfile
    cases hfile
    exact hfits i
  | remove =>
    intro i content modification hfile
    cases hfile
  | act i a =>
    intro j
    show Current (Function.update s.consumer i _ j) ((s.consumer i).next s.file a).2
    by_cases hj : j = i
    · subst hj
      rw [Function.update_self]
      refine current_next (h j) a fun ha hsaved => ?_
      subst ha
      exact hfits hsaved
    · rw [Function.update_of_ne hj]
      rcases next_file (s.consumer i) s.file a with hfile | ⟨⟨c, m⟩, hidle, ha, hfile⟩
      · rw [hfile]
        exact h j
      · rw [hfile]
        intro content modification heq
        cases heq
        rcases ha with rfl | rfl
        · exact hfits hidle j hj
        · exact hfits hidle j hj

/-! ## After the last write -/

/-- A step of a program that neither writes the file nor starts the program again. -/
def Act.Quiet : Act → Prop
  | .update _ => False
  | .replace _ => False
  | .restart _ => False
  | _ => True

/-- A step that leaves the file alone. -/
def Quiet : Event ι → Prop
  | .act _ a => a.Quiet
  | _ => False

/-- The program knows the content, or is about to read it. -/
def Informed (con : Consumer) (content : Bytes) : Prop := con.phase = .changed ∨ con.known = some content

theorem informed_next {con : Consumer} {content : Bytes} {modification : Nat} (h : Informed con content) {a : Act}
    (hquiet : a.Quiet) :
    Informed (con.next (some (content, modification)) a).1 content ∧
      (con.next (some (content, modification)) a).2 = some (content, modification) := by
  cases a with
  | check =>
    by_cases hidle : con.phase = .idle
    · rcases next_check con (some (content, modification)) hidle with ⟨heq, _⟩ | ⟨hchanged, hfile⟩
      · rw [heq]
        exact ⟨h, rfl⟩
      · exact ⟨.inl hchanged, hfile⟩
    · rw [Consumer.next, if_neg hidle]
      exact ⟨h, rfl⟩
  | read =>
    simp only [Consumer.next]
    split
    · exact ⟨.inr rfl, rfl⟩
    · exact ⟨h, rfl⟩
  | saveCurrent =>
    simp only [Consumer.next]
    split
    · rename_i hsaved
      refine ⟨.inr (h.resolve_left fun hchanged => ?_), rfl⟩
      rw [hsaved] at hchanged
      cases hchanged
    · exact ⟨h, rfl⟩
  | save => exact ⟨h, rfl⟩
  | clear => exact ⟨h, rfl⟩
  | update => exact hquiet.elim
  | replace => exact hquiet.elim
  | restart => exact hquiet.elim

theorem quiet_file {con : Consumer} {file : File} {a : Act} (hquiet : a.Quiet) :
    (con.next file a).2 = file := by
  rcases next_file con file a with hfile | ⟨own, _, rfl | rfl, _⟩
  · exact hfile
  · exact hquiet.elim
  · exact hquiet.elim

theorem informed_run {i : ι} {content : Bytes} {modification : Nat} {rest : List (Event ι)}
    (hquiet : ∀ ev ∈ rest, Quiet ev) {s s' : Sys ι} (hfile : s.file = some (content, modification))
    (h : Informed (s.consumer i) content) (hrun : runAll step rest s = .ok () s') : Informed (s'.consumer i) content := by
  induction rest generalizing s with
  | nil =>
    cases hrun
    exact h
  | cons ev rest ih =>
    obtain ⟨s1, hstep, hrest⟩ := runAll_cons_ok.mp hrun
    have hev := hquiet ev List.mem_cons_self
    cases hstep
    cases ev with
    | write => exact hev.elim
    | remove => exact hev.elim
    | act j a =>
      refine ih (fun ev' hev' => hquiet ev' (List.mem_cons_of_mem _ hev')) ?_ ?_ hrest
      · exact (quiet_file (a := a) hev).trans hfile
      · show Informed (Function.update s.consumer j _ i) content
        by_cases hij : i = j
        · subst hij
          rw [Function.update_self, hfile]
          exact (informed_next h hev).1
        · rw [Function.update_of_ne hij]
          exact h

/-- **No change goes unnoticed** in a run whose steps fit: where `check` finds nothing, the
content of the file is the one last read or written; and once a program has polled after the
last write, it has read that content or is about to. -/
theorem changes_noticed {file : File} {saved : ι → Option Nat} {reads : ι → Bool} {evs : List (Event ι)} {s : Sys ι}
    (hrun : runAll step evs (.boot file saved reads) = .ok () s) (hfits : Along step Fits (.boot file saved reads) evs)
    {i : ι} (hidle : (s.consumer i).phase = .idle) {content : Bytes} {modification : Nat}
    (hfile : s.file = some (content, modification)) :
    ((s.consumer i).checks s.file = false → (s.consumer i).known = some content) ∧
      ∀ rest s', (∀ ev ∈ rest, Quiet ev) → runAll step (.act i .check :: rest) s = .ok () s' →
        (s'.consumer i).phase ≠ .changed → (s'.consumer i).known = some content := by
  have hcurrent : ∀ i, Current (s.consumer i) s.file :=
    run_invariant (I := fun s : Sys ι => ∀ i, Current (s.consumer i) s.file)
      (fun _ ev _ h hQ hs => current_step ev h hQ hs)
      (fun i => current_boot file (saved i) (reads i)) hfits hrun
  have hfalse : (s.consumer i).checks s.file = false → (s.consumer i).known = some content := fun hcheck =>
    hcurrent i content modification hfile hidle (check_false hfile hcheck)
  refine ⟨hfalse, fun rest s' hquiet hrest hphase => ?_⟩
  obtain ⟨s1, hstep, hrest⟩ := runAll_cons_ok.mp hrest
  cases hstep
  have hinformed : Informed ((s.consumer i).next s.file .check).1 content := by
    rcases next_check (s.consumer i) s.file hidle with ⟨heq, hcheck⟩ | ⟨hchanged, _⟩
    · rw [heq]
      exact .inr (hfalse hcheck)
    · exact .inl hchanged
  have hfile1 : (s.next (.act i .check)).file = some (content, modification) :=
    (quiet_file (a := .check) trivial).trans hfile
  have hinformed1 : Informed ((s.next (.act i .check)).consumer i) content := by
    show Informed (Function.update s.consumer i _ i) content
    rw [Function.update_self]
    exact hinformed
  exact (informed_run hquiet hfile1 hinformed1 hrest).resolve_left hphase

/-! ## Writes that are missed -/

/-- Another content with the recorded time is not found. -/
theorem missed_of_not_accepts {con : Consumer} {content : Bytes} {modification : Nat}
    (h : ¬ Accepts con content modification) :
    con.checks (some (content, modification)) = false ∧ con.known ≠ some content := by
  unfold Accepts at h
  push Not at h
  obtain ⟨_, hlast, hknown⟩ := h
  refine ⟨?_, hknown⟩
  rw [Consumer.checks, attr, Option.map_some, check_some, if_pos hlast]

/-- What another process has written before `save_current` is not found. -/
theorem missed_of_saveCurrent {con : Consumer} {content : Bytes} {modification : Nat} (hsaved : con.phase = .saved) :
    (con.next (some (content, modification)) .saveCurrent).1.checks (some (content, modification)) = false := by
  rw [Consumer.next, if_pos hsaved, Consumer.checks, attr, Option.map_some, check_some, if_pos]
  exact (Memfile.lasttime_save _).trans (Memfile.lasttime_set con.mf modification)

end System

/-! ## cfgmgr and setconf -/

/-- Both read the file; then cfgmgr (`true`) writes it. -/
def configured : List (Event Bool) :=
  [.act true .read, .act false .check, .act false .read, .act true (.update (some (ascii "new", 4))), .act true .saveCurrent]

theorem changes_noticed_two : ∃ s s' : Sys Bool,
    runAll step configured (.boot (some (ascii "old", 3)) (fun _ => none) id) = .ok () s ∧
      runAll step [.act false .check, .act true .check, .act false .read] s = .ok () s' ∧
      (s'.consumer false).known = some (ascii "new") := by
  have hfits : Along step Fits (.boot (some (ascii "old", 3)) (fun _ => none) id) configured :=
    (along_of_check (p := fun s ev => decide (Fits s ev)) (by decide)).mono fun _ _ h => of_decide_eq_true h
  refine ⟨_, _, rfl, rfl, (changes_noticed rfl hfits (i := false) (by decide) rfl).2
    [.act true .check, .act false .read] _ ?_ rfl (by decide)⟩
  intro ev hev
  simp only [List.mem_cons, List.not_mem_nil, or_false] at hev
  rcases hev with rfl | rfl <;> trivial

/-! ## Two writes in one second -/

/-- A file that is written, checked and read, and written again in the same second. -/
def oneSecond : List (Event Unit) :=
  [.write (ascii "old") 5, .act () .check, .act () .read, .write (ascii "new") 5]

theorem missed_in_one_second : ∃ s : Sys Unit, runAll step oneSecond (.boot none (fun _ => none) fun _ => false) = .ok () s ∧
    (s.consumer ()).phase = .idle ∧ s.file = some (ascii "new", 5) ∧ (s.consumer ()).checks s.file = false ∧
    (s.consumer ()).known = some (ascii "old") := by
  refine ⟨_, rfl, ?_, ?_, ?_, ?_⟩ <;> decide

end ApApps.Compare

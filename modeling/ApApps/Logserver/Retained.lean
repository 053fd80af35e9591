import ApApps.Logserver.Names

/- Which archives are kept.

   `delete_log` is to keep the archives with the highest sequence numbers, one less than
   `maxfiles` (`KeepsNewest`). It sorts them by their names, in which the stamp of the version
   comes first, so it does that if and only if no archive that is to be removed has a higher
   stamp than one that is to be kept (`keepsNewest_iff`). `retains_iff` is about every run of
   flushes and restarts; after a downgrade the archive just written is removed
   (`written_and_removed`). -/
namespace ApApps.Logserver
open Exec

/-! ## What is to be kept -/

/-- The number of an archive. -/
def idKey (filename : Bytes) : Nat := (idOf filename).getD 0

/-- How many archives have a higher number. -/
def newer (dir : List Bytes) (filename : Bytes) : Nat :=
  Retention.rank idKey (archives dir).toFinset filename

/-- The archives are named as `flush` names them, and no two have the same number. -/
structure LogDir (dir : List Bytes) : Prop where
  nodup : dir.Nodup
  named : ∀ filename ∈ archives dir, ∃ a : Archive, a.name = filename
  distinct : ∀ a b : Archive, a.name ∈ dir → b.name ∈ dir → a.id = b.id → a.name = b.name

/-- `delete_log` removes all archives but those with the highest numbers, and has seen every number. -/
structure Server.KeepsNewest (x86 : Bool) (s : Server) : Prop where
  kept : ∀ filename, filename ∈ (s.deleteLog x86).dir ↔
    filename ∈ s.dir ∧ (filename ∈ archives s.dir → newer s.dir filename < maxfiles x86 - 1)
  seen : ∀ a : Archive, a.name ∈ s.dir → a.id ≤ (s.deleteLog x86).currentId

/-- No archive that is to be removed has a higher stamp than one that is to be kept. -/
def StampsFollow (x86 : Bool) (dir : List Bytes) : Prop :=
  ∀ a b : Archive, a.name ∈ dir → b.name ∈ dir →
    newer dir a.name < maxfiles x86 - 1 → maxfiles x86 - 1 ≤ newer dir b.name → b.version ≤ a.version

/-! ## Directories -/

theorem idKey_name (a : Archive) : idKey a.name = a.id := by rw [idKey, idOf_name, Option.getD_some]

theorem mem_archives {dir : List Bytes} (a : Archive) : a.name ∈ archives dir ↔ a.name ∈ dir := by
  rw [archives, List.mem_filter, idOf_name]
  simp

theorem LogDir.idKey_injOn {dir : List Bytes} (h : LogDir dir) : Set.InjOn idKey (archives dir).toFinset := by
  intro x hx y hy heq
  have hx := List.mem_toFinset.mp (Finset.mem_coe.mp hx)
  have hy := List.mem_toFinset.mp (Finset.mem_coe.mp hy)
  obtain ⟨a, rfl⟩ := h.named x hx
  obtain ⟨b, rfl⟩ := h.named y hy
  rw [idKey_name, idKey_name] at heq
  exact h.distinct a b ((mem_archives a).mp hx) ((mem_archives b).mp hy) heq

theorem LogDir.sub {dir dir' : List Bytes} (h : LogDir dir) (hsub : dir'.Sublist dir) : LogDir dir' where
  nodup := h.nodup.sublist hsub
  named := fun filename hmem => h.named filename ((hsub.filter _).subset hmem)
  distinct := fun a b ha hb => h.distinct a b (hsub.subset ha) (hsub.subset hb)

/-- A higher number is a lower rank. -/
theorem id_lt_of_newer_lt {dir : List Bytes} {a b : Archive} (ha : a.name ∈ dir) (hb : b.name ∈ dir)
    (hdir : LogDir dir) (h : newer dir a.name < newer dir b.name) : b.id < a.id := by
  by_contra hle
  rcases (not_lt.mp hle).lt_or_eq with hlt | heq
  · have hkey : idKey a.name < idKey b.name := by
      rw [idKey_name, idKey_name]
      exact hlt
    have hrank := Retention.rank_lt_rank (List.mem_toFinset.mpr ((mem_archives b).mpr hb)) hkey
    unfold newer at h
    omega
  · rw [hdir.distinct a b ha hb heq] at h
    exact lt_irrefl _ h

/-! ## delete_log -/

theorem nextCurrentId_ge (dir : List Bytes) (cur : Nat) :
    cur ≤ nextCurrentId dir cur ∧ ∀ filename ∈ dir, ∀ id, idOf filename = some id → id ≤ nextCurrentId dir cur := by
  induction dir generalizing cur with
  | nil => exact ⟨le_refl _, fun _ h => nomatch h⟩
  | cons f dir ih =>
    rw [nextCurrentId, List.foldl_cons, ← nextCurrentId]
    cases hf : idOf f with
    | none =>
      obtain ⟨hcur, hids⟩ := ih cur
      refine ⟨hcur, ?_⟩
      intro filename hmem id hid
      rcases List.mem_cons.mp hmem with rfl | hmem
      · rw [hf] at hid
        cases hid
      · exact hids filename hmem id hid
    | some n =>
      obtain ⟨hcur, hids⟩ := ih (if cur < n then n else cur)
      have hboth : cur ≤ (if cur < n then n else cur) ∧ n ≤ (if cur < n then n else cur) := by split <;> omega
      refine ⟨hboth.1.trans hcur, ?_⟩
      intro filename hmem id hid
      rcases List.mem_cons.mp hmem with rfl | hmem
      · rw [hf] at hid
        cases hid
        exact hboth.2.trans hcur
      · exact hids filename hmem id hid

theorem Server.deleteLog_seen (x86 : Bool) (s : Server) (a : Archive) (h : a.name ∈ s.dir) :
    a.id ≤ (s.deleteLog x86).currentId :=
  (nextCurrentId_ge s.dir s.currentId).2 a.name h a.id (idOf_name a)

/-- What `collect_del_files` returns are the archives that are not among the first by name. -/
theorem mem_collectDelFiles {x86 : Bool} {dir : List Bytes} (h : dir.Nodup) (filename : Bytes) :
    filename ∈ collectDelFiles x86 dir ↔ filename ∈ archives dir ∧
      maxfiles x86 - 1 ≤ Retention.rank nameKey (archives dir).toFinset filename :=
  Retention.mem_drop_sorted (h.filter _) (nameKey_injective.injOn) _ _

theorem Server.mem_deleteLog {x86 : Bool} {s : Server} (h : s.dir.Nodup) (filename : Bytes) :
    filename ∈ (s.deleteLog x86).dir ↔ filename ∈ s.dir ∧ (filename ∈ archives s.dir →
      Retention.rank nameKey (archives s.dir).toFinset filename < maxfiles x86 - 1) := by
  rw [Server.deleteLog, List.mem_filter, decide_eq_true_iff, mem_collectDelFiles h, not_and, not_le]

/-- **What `delete_log` keeps are the archives with the highest numbers if and only if none of
the others has a higher stamp than one of them.** -/
theorem Server.keepsNewest_iff {x86 : Bool} {s : Server} (h : LogDir s.dir) :
    s.KeepsNewest x86 ↔ StampsFollow x86 s.dir := by
  have hnameKey : Set.InjOn nameKey (archives s.dir).toFinset := nameKey_injective.injOn
  have hsame := Retention.keeps_same_iff hnameKey h.idKey_injOn (maxfiles x86 - 1)
  have hkept : s.KeepsNewest x86 ↔ ∀ f ∈ (archives s.dir).toFinset,
      Retention.rank nameKey (archives s.dir).toFinset f < maxfiles x86 - 1 ↔
      Retention.rank idKey (archives s.dir).toFinset f < maxfiles x86 - 1 := by
    constructor
    · intro hk f hf
      have hmem := List.mem_toFinset.mp hf
      have hdir : f ∈ s.dir := List.mem_of_mem_filter hmem
      have hiff := (hk.kept f).symm.trans (Server.mem_deleteLog h.nodup f)
      simp only [hdir, hmem, true_and, true_imp_iff] at hiff
      exact hiff.symm
    · intro hall
      refine ⟨fun f => ?_, s.deleteLog_seen x86⟩
      rw [Server.mem_deleteLog h.nodup f]
      refine and_congr_right fun _ => forall_congr' fun hmem => ?_
      exact hall f (List.mem_toFinset.mpr hmem)
  rw [hkept, hsame]
  constructor
  · intro hall a b ha hb hnew hold
    have hkey := hall a.name (List.mem_toFinset.mpr ((mem_archives a).mpr ha)) b.name
      (List.mem_toFinset.mpr ((mem_archives b).mpr hb)) hnew hold
    have hid := id_lt_of_newer_lt ha hb h (lt_of_lt_of_le hnew hold)
    rcases (nameKey_lt_iff hid.ne).mp hkey with hlt | ⟨heq, -⟩
    · exact hlt.le
    · exact heq.le
  · intro hfollow x hx y hy hnew hold
    obtain ⟨a, rfl⟩ := h.named x (List.mem_toFinset.mp hx)
    obtain ⟨b, rfl⟩ := h.named y (List.mem_toFinset.mp hy)
    have ha := (mem_archives a).mp (List.mem_toFinset.mp hx)
    have hb := (mem_archives b).mp (List.mem_toFinset.mp hy)
    have hid := id_lt_of_newer_lt ha hb h (lt_of_lt_of_le hnew hold)
    rw [nameKey_lt_iff hid.ne]
    rcases (hfollow a b ha hb hnew hold).lt_or_eq with hlt | heq
    · exact .inl hlt
    · exact .inr ⟨heq, hid⟩

/-! ## Runs -/

/-- The flush packs `log.current` into an archive. -/
def Flush.Rotates (x86 : Bool) (f : Flush) : Prop := f.cached = true ∧ maxLogsize x86 < f.size

/-- Wherever `flush` calls `delete_log`, the newest archives are kept; and the archive it
writes gets a number above all that are there, and is still there afterwards. -/
structure Retains (x86 : Bool) (s : Server) (f : Flush) : Prop where
  opening : f.cached = true → s.opened = false → s.KeepsNewest x86
  fresh : f.Rotates x86 → ∀ name, (s.openlog x86).nextName x86 f = some name →
    ∃ a : Archive, a.name = name ∧ ∀ b : Archive, b.name ∈ (s.openlog x86).dir → b.id < a.id
  rotating : f.Rotates x86 → ∀ name, (s.openlog x86).nextName x86 f = some name →
    ((s.openlog x86).rotate name f).KeepsNewest x86
  written : f.Rotates x86 → f.packed = true → ∀ name, (s.openlog x86).nextName x86 f = some name →
    name ∈ (s.flush x86 f).dir

/-- The stamps follow the numbers wherever `flush` calls `delete_log`. -/
structure Follows (x86 : Bool) (s : Server) (f : Flush) : Prop where
  opening : f.cached = true → s.opened = false → StampsFollow x86 s.dir
  rotating : f.Rotates x86 → ∀ name, (s.openlog x86).nextName x86 f = some name →
    StampsFollow x86 ((s.openlog x86).rotate name f).dir

/-- The next number has six digits. -/
def SixDigits (x86 : Bool) (s : Server) (f : Flush) : Prop :=
  f.Rotates x86 → (s.openlog x86).currentId + 1 < 10 ^ 6

/-- A property of flushes, of every event. -/
def OfFlush (P : Server → Flush → Prop) (s : Server) : Event → Prop
  | .flush f => P s f
  | .restart => True

/-- What holds between two steps. -/
structure Inv (s : Server) : Prop where
  dir : LogDir s.dir
  seen : s.opened = true → ∀ a : Archive, a.name ∈ s.dir → a.id ≤ s.currentId

theorem versionStamp_spec (x86 : Bool) (version : Bytes) : (versionStamp x86 version).length = 10 ∧
    ∀ c ∈ versionStamp x86 version, isDigit c = true := by
  have hdef : versionStamp x86 version = ((version.tails.findSome? fun s =>
      (digitsAfter (if x86 then ch '-' else ch '.') 10 s).map Prod.fst).getD noStamp) := rfl
  rw [hdef]
  cases hfind : version.tails.findSome? fun s => (digitsAfter (if x86 then ch '-' else ch '.') 10 s).map Prod.fst with
  | none =>
    rw [Option.getD_none]
    exact ⟨rfl, by decide +kernel⟩
  | some ds =>
    obtain ⟨t, -, ht⟩ := List.exists_of_findSome?_eq_some hfind
    obtain ⟨⟨_, rest⟩, hat, rfl⟩ := Option.map_eq_some_iff.mp ht
    exact digitsAfter_spec hat

/-- The next archive has the next number. -/
theorem Server.exists_next {x86 : Bool} {s : Server} {f : Flush} {name : Bytes}
    (h : s.nextName x86 f = some name) (hid : s.currentId + 1 < 10 ^ 6) :
    ∃ a : Archive, a.name = name ∧ a.id = s.currentId + 1 := by
  unfold Server.nextName at h
  split at h
  · cases h
    exact ⟨⟨noStamp, s.currentId + 1, f.time, rfl, by decide +kernel, hid⟩, rfl, rfl⟩
  · cases h
  · rename_i line _
    cases h
    obtain ⟨hlen, hdigits⟩ := versionStamp_spec x86 line
    exact ⟨⟨versionStamp x86 line, s.currentId + 1, f.time, hlen, hdigits, hid⟩, rfl, rfl⟩

theorem Server.openlog_inv (x86 : Bool) {s : Server} (h : Inv s) :
    Inv (s.openlog x86) ∧ (s.openlog x86).opened = true := by
  unfold Server.openlog
  split
  · rename_i ho
    exact ⟨h, ho⟩
  · have hsub : (s.deleteLog x86).dir.Sublist s.dir := List.filter_sublist
    refine ⟨⟨h.dir.sub hsub, fun _ a ha => ?_⟩, rfl⟩
    exact s.deleteLog_seen x86 a (hsub.subset ha)

/-- A directory with an archive more, whose number is new. -/
theorem LogDir.add {dir : List Bytes} {a : Archive} (h : LogDir dir) (hnew : ∀ b : Archive, b.name ∈ dir → b.id < a.id) :
    LogDir (dir ++ [a.name]) := by
  have hnot : a.name ∉ dir := fun hmem => lt_irrefl _ (hnew a hmem)
  have hid : ∀ b : Archive, b.name = a.name → b.id = a.id := by
    intro b hb
    have hboth := idOf_name b
    rw [hb, idOf_name] at hboth
    exact (Option.some.inj hboth).symm
  refine ⟨?_, ?_, ?_⟩
  · rw [List.nodup_append]
    refine ⟨h.nodup, List.nodup_singleton _, ?_⟩
    intro x hx y hy heq
    rw [List.mem_singleton.mp hy] at heq
    exact hnot (heq ▸ hx)
  · intro f hf
    rw [archives, List.filter_append, List.mem_append] at hf
    rcases hf with hf | hf
    · exact h.named f hf
    · rw [List.mem_singleton.mp (List.mem_of_mem_filter hf)]
      exact ⟨a, rfl⟩
  · intro b c hb hc heq
    rw [List.mem_append, List.mem_singleton] at hb hc
    rcases hb with hb | hb <;> rcases hc with hc | hc
    · exact h.distinct b c hb hc heq
    · have := hnew b hb
      have := hid c hc
      omega
    · have := hnew c hc
      have := hid b hb
      omega
    · rw [hb, hc]

theorem Server.rotate_dir {s : Server} {f : Flush} {a : Archive} (h : Inv s) (ho : s.opened = true)
    (ha : a.id = s.currentId + 1) :
    (s.rotate a.name f).dir = (if f.packed = true then s.dir ++ [a.name] else s.dir) ∧ LogDir (s.rotate a.name f).dir := by
  have hnew : ∀ b : Archive, b.name ∈ s.dir → b.id < a.id := by
    intro b hb
    have := h.seen ho b hb
    omega
  have hnot : a.name ∉ s.dir := fun hmem => lt_irrefl _ (hnew a hmem)
  have hdir : (s.rotate a.name f).dir = if f.packed = true then s.dir ++ [a.name] else s.dir := by
    simp [Server.rotate, hnot]
  refine ⟨hdir, ?_⟩
  rw [hdir]
  split
  · exact h.dir.add hnew
  · exact h.dir

/-- The flush opens the log, and packs it if it is too large. -/
theorem Server.flush_cases (x86 : Bool) (f : Flush) (s : Server) :
    (f.cached = false ∧ s.flush x86 f = s) ∨
    (f.cached = true ∧ ¬ f.Rotates x86 ∧ s.flush x86 f = s.openlog x86) ∨
    (f.Rotates x86 ∧ (s.openlog x86).nextName x86 f = none ∧ s.flush x86 f = (s.openlog x86).restart) ∨
    (f.Rotates x86 ∧ ∃ name, (s.openlog x86).nextName x86 f = some name ∧
      s.flush x86 f = ((s.openlog x86).rotate name f).openlog x86) := by
  unfold Server.flush Flush.Rotates
  cases hc : f.cached with
  | false => exact .inl ⟨rfl, rfl⟩
  | true =>
    right
    by_cases hsize : maxLogsize x86 < f.size
    · right
      cases hn : (s.openlog x86).nextName x86 f with
      | none =>
        refine .inl ⟨⟨rfl, hsize⟩, rfl, ?_⟩
        simp only [if_pos hsize, hn, if_true]
      | some name =>
        refine .inr ⟨⟨rfl, hsize⟩, name, rfl, ?_⟩
        simp only [if_pos hsize, hn, if_true]
    · refine .inl ⟨rfl, fun h => hsize h.2, ?_⟩
      simp only [if_neg hsize, if_true]

theorem flush_inv {x86 : Bool} {s : Server} {f : Flush} (h : Inv s) (hsix : SixDigits x86 s f) :
    Inv (s.flush x86 f) := by
  obtain ⟨hinv, ho⟩ := Server.openlog_inv x86 h
  rcases s.flush_cases x86 f with ⟨-, heq⟩ | ⟨-, -, heq⟩ | ⟨-, -, heq⟩ | ⟨hrot, name, hname, heq⟩
  · rwa [heq]
  · rwa [heq]
  · rw [heq]
    exact ⟨hinv.dir, fun hopened => nomatch hopened⟩
  · rw [heq]
    obtain ⟨a, rfl, ha⟩ := Server.exists_next hname (hsix hrot)
    obtain ⟨-, hdir⟩ := Server.rotate_dir (f := f) hinv ho ha
    exact (Server.openlog_inv x86 ⟨hdir, fun hopened => nomatch hopened⟩).1

/-- The archive with the highest number is among those to be kept. -/
theorem newer_last {dir : List Bytes} {a : Archive} (hnew : ∀ b : Archive, b.name ∈ dir → b.id ≤ a.id)
    (h : LogDir dir) : newer dir a.name = 0 := by
  rw [newer, Retention.rank, Finset.card_eq_zero, Finset.filter_eq_empty_iff]
  intro x hx hlt
  obtain ⟨b, rfl⟩ := h.named x (List.mem_toFinset.mp hx)
  rw [idKey_name, idKey_name] at hlt
  have := hnew b ((mem_archives b).mp (List.mem_toFinset.mp hx))
  omega

theorem retains_step {x86 : Bool} {s : Server} {f : Flush} (h : Inv s) (hsix : SixDigits x86 s f) :
    Retains x86 s f ↔ Follows x86 s f := by
  obtain ⟨hinv, ho⟩ := Server.openlog_inv x86 h
  have hnext : f.Rotates x86 → ∀ name, (s.openlog x86).nextName x86 f = some name → ∃ a : Archive, a.name = name ∧
      a.id = (s.openlog x86).currentId + 1 := fun hrot name hname => Server.exists_next hname (hsix hrot)
  constructor
  · intro hr
    refine ⟨fun hc hclosed => (Server.keepsNewest_iff h.dir).mp (hr.opening hc hclosed), ?_⟩
    intro hrot name hname
    obtain ⟨a, rfl, ha⟩ := hnext hrot name hname
    exact (Server.keepsNewest_iff (Server.rotate_dir hinv ho ha).2).mp (hr.rotating hrot a.name hname)
  · intro hf
    have hkeeps : f.Rotates x86 → ∀ name, (s.openlog x86).nextName x86 f = some name →
        ((s.openlog x86).rotate name f).KeepsNewest x86 := by
      intro hrot name hname
      obtain ⟨a, rfl, ha⟩ := hnext hrot name hname
      exact (Server.keepsNewest_iff (Server.rotate_dir hinv ho ha).2).mpr (hf.rotating hrot a.name hname)
    have hfresh : f.Rotates x86 → ∀ name, (s.openlog x86).nextName x86 f = some name →
        ∃ a : Archive, a.name = name ∧ ∀ b : Archive, b.name ∈ (s.openlog x86).dir → b.id < a.id := by
      intro hrot name hname
      obtain ⟨a, rfl, ha⟩ := hnext hrot name hname
      refine ⟨a, rfl, fun b hb => ?_⟩
      have := hinv.seen ho b hb
      omega
    refine ⟨fun hc hclosed => (Server.keepsNewest_iff h.dir).mpr (hf.opening hc hclosed), hfresh, hkeeps, ?_⟩
    intro hrot hpacked name hname
    obtain ⟨a, rfl, hnew⟩ := hfresh hrot name hname
    obtain ⟨a', ha', hid⟩ := hnext hrot a.name hname
    obtain ⟨hdir, hlog⟩ := Server.rotate_dir (f := f) hinv ho hid
    rw [ha', if_pos hpacked] at hdir
    rw [ha'] at hlog
    have hmem : a.name ∈ ((s.openlog x86).rotate a.name f).dir := by
      rw [hdir]
      exact List.mem_append_right _ List.mem_cons_self
    have hlast : newer ((s.openlog x86).rotate a.name f).dir a.name = 0 := by
      refine newer_last (fun b hb => ?_) hlog
      rw [hdir, List.mem_append, List.mem_singleton] at hb
      rcases hb with hb | hb
      · exact (hnew b hb).le
      · rw [← idKey_name b, hb, idKey_name]
    have hmax : 0 < maxfiles x86 - 1 := by cases x86 <;> decide
    rcases s.flush_cases x86 f with ⟨hc, -⟩ | ⟨-, hnot, -⟩ | ⟨-, hnone, -⟩ | ⟨-, name, hname', heq⟩
    · rw [hrot.1] at hc
      cases hc
    · exact absurd hrot hnot
    · rw [hname] at hnone
      cases hnone
    · rw [hname] at hname'
      cases hname'
      rw [heq]
      exact ((hkeeps hrot a.name hname).kept a.name).mpr ⟨hmem, fun _ => by rw [hlast]; exact hmax⟩

/-- **In every run from any directory with archives, also across restarts and other versions:
the newest archives are kept, new ones get a number above all others and stay, if and only
if the stamps follow the numbers wherever `delete_log` is called.** -/
theorem retains_iff {x86 : Bool} {evs : List Event} {s : Server} (h : LogDir s.dir) (hstart : s.opened = false)
    (hsix : Along (step x86) (OfFlush (SixDigits x86)) s evs) :
    Along (step x86) (OfFlush (Retains x86)) s evs ↔ Along (step x86) (OfFlush (Follows x86)) s evs := by
  have hinv : Inv s := ⟨h, fun ho => by rw [hstart] at ho; cases ho⟩
  refine along_iff (I := Inv) ?_ ?_ hinv hsix
  · intro s ev s' hs hq hstep
    cases ev with
    | flush f =>
      cases hstep
      exact flush_inv hs hq
    | restart =>
      cases hstep
      exact ⟨hs.dir, fun ho => nomatch ho⟩
  · intro s ev hs hq
    cases ev with
    | flush f => exact retains_step hs hq
    | restart => rfl

/-! ## After a downgrade -/

def oldArchive (id : Nat) (h : id < 10 ^ 6) : Archive :=
  ⟨ascii "2000000000", id, ⟨2020, 1, 1, 0, 0, 0⟩, rfl, by decide +kernel, h⟩

/-- Two archives of a newer version. -/
def twoOld : Server := ⟨[(oldArchive 1 (by decide)).name, (oldArchive 2 (by decide)).name], false, 0⟩

theorem logDir_twoOld : LogDir twoOld.dir := by
  have hnone : LogDir [] := ⟨List.nodup_nil, fun _ h => absurd h List.not_mem_nil, fun _ _ h => absurd h List.not_mem_nil⟩
  have hone : LogDir ([] ++ [(oldArchive 1 (by decide)).name]) := hnone.add fun _ h => absurd h List.not_mem_nil
  refine hone.add fun b hb => ?_
  have hid := congrArg idKey (List.mem_singleton.mp hb)
  rw [idKey_name, idKey_name] at hid
  rw [hid]
  decide

/-- `log.current` has grown too large, and an older version is installed. -/
def downgraded : Flush :=
  ⟨true, 300000, ⟨2020, 1, 2, 0, 0, 0⟩, some (some (ascii "ap.1000000000")), true⟩

def upgraded : Flush :=
  ⟨true, 300000, ⟨2020, 1, 2, 0, 0, 0⟩, some (some (ascii "ap.3000000000")), true⟩

/-- A newer version, a restart, and then an older one. -/
theorem retains_iff_versions :
    Along (step false) (OfFlush (Retains false)) twoOld [.flush upgraded, .restart, .flush downgraded] ↔
    Along (step false) (OfFlush (Follows false)) twoOld [.flush upgraded, .restart, .flush downgraded] := by
  have hcheck : alongCheck (step false) (fun s ev => match ev with
      | .flush _ => decide ((s.openlog false).currentId + 1 < 10 ^ 6)
      | .restart => true) twoOld [.flush upgraded, .restart, .flush downgraded] = true := by decide +kernel
  refine retains_iff logDir_twoOld rfl ((along_of_check hcheck).mono fun s ev h => ?_)
  cases ev with
  | flush f => exact fun _ => of_decide_eq_true h
  | restart => trivial

theorem sixDigits_downgraded : Along (step false) (OfFlush (SixDigits false)) twoOld [.flush downgraded] := by
  refine ⟨fun _ => ?_, fun _ _ => trivial⟩
  decide +kernel

/-- The archive just written, number 3, is the one that is removed. -/
theorem written_and_removed : LogDir twoOld.dir ∧ twoOld.opened = false ∧
    Along (step false) (OfFlush (SixDigits false)) twoOld [.flush downgraded] ∧
    ¬ Along (step false) (OfFlush (Retains false)) twoOld [.flush downgraded] := by
  refine ⟨logDir_twoOld, rfl, sixDigits_downgraded, fun h => ?_⟩
  have hremoved : ∀ name, (twoOld.openlog false).nextName false downgraded = some name →
      name ∉ (twoOld.flush false downgraded).dir := by
    intro name hname
    have hthird : (twoOld.openlog false).nextName false downgraded =
        some (ascii "log_end_1000000000_000003_20200102_000000") := by decide +kernel
    rw [hthird] at hname
    cases hname
    decide +kernel
  obtain ⟨name, hname⟩ : ∃ name, (twoOld.openlog false).nextName false downgraded = some name := ⟨_, rfl⟩
  exact hremoved name hname (h.1.written ⟨rfl, by decide⟩ rfl name hname)

end ApApps.Logserver

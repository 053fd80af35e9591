import ApApps.Myinit.Coherent

/- report/logrpt.lua and report/uploadlog.lua: every five minutes the log is sent to the AC.

   A cycle sends `log.current`, the newest archive and the text of the error files; the
   archive only if its path is not the one the memfile remembers, the text only if the size
   of the files is not the one it remembers. `set_history_path` and `set_error_filesize` are
   there to remember what has been sent (`readhistory_remembered`, `readLuaerror_remembered`),
   but `upload_aplog_once` calls neither: the memfile stays as it was, and the same
   archive goes out in every cycle (`archive_sent_twice`). `uploadedOnce_iff` says in which
   runs nothing is sent again.

   Left out: `upload_aplog_imme`, what is printed, how a request is delivered, and files
   that can be opened but not read. -/
namespace ApApps.Report
open Exec Cjson Myinit

/-- What a cycle finds: the setting `g_upload_log`, what `ls` has printed (nothing if
`popen` fails), the text of the files that can be opened and the size of those there are. -/
structure Cycle where
  uploadLog : Option Value
  newest : Option Bytes
  files : Bytes → Option Bytes
  sizes : Bytes → Option Nat

/-- What `send_log` is given: the files by their names; the path of the archive that is
among them, and the size of the error files if their text is. -/
structure Upload where
  kvmap : List (Key × Bytes)
  archive : Option Bytes
  errorSize : Option Nat

/-- The memfile `report`, and what has been sent so far. -/
structure State where
  report : Memfile
  uploads : List Upload

abbrev M := EStateM LuaError State

/-- A function of the memfile. -/
def onReport {α : Type} (x : Myinit.M α) : M α := fun s =>
  match x s.report with
  | .ok a m => .ok a { s with report := m }
  | .error e m => .error e { s with report := m }

/-! ## Lua -/

/-- `v or d`. -/
def orElse : Option Value → Value → Value
  | none, d => d
  | some (.bool false), d => d
  | some v, _ => v

/-- `tonumber(v)`. -/
def tonumberOf : Option Value → Option LuaNum
  | some (.num x) => some x
  | some (.str s) => tonumber s
  | _ => none

/-- What follows the last slash that is not at the end. -/
def afterSlash : Bytes → Option Bytes
  | [] => none
  | c :: s => (afterSlash s).or (if c = ch '/' ∧ s ≠ [] then some s else none)

/-- `filepath:match(".+/(.+)")`: the slash is not the first byte either. -/
def baseName (filepath : Bytes) : Option Bytes := afterSlash filepath.tail

example : baseName (ascii "/tmp/ugw/log/log.current") = some (ascii "log.current") := by decide

/-! ## logrpt.lua -/

/-- `readfile`; its callers use the content only if there is a name. -/
def readfile (files : Bytes → Option Bytes) (filepath : Bytes) : Option (Bytes × Bytes) :=
  (files filepath).bind fun s => (baseName filepath).map fun filename => (filename, s)

def historyLogpath : Bytes := ascii "history_logpath"

/-- `filepath` of `readhistory`: the output of `ls` without the line end. -/
def Cycle.newestPath (c : Cycle) : Option Bytes :=
  (c.newest.map fun out => out.filter fun b => b ≠ CR ∧ b ≠ LF).filter fun filepath => 3 ≤ filepath.length

def readhistory (c : Cycle) : Myinit.M (Option (Bytes × Bytes × Bytes)) :=
  match c.newestPath with
  | none => return none
  | some filepath => do
    let lastPath := orElse (← mfGet historyLogpath) (.str [])
    if lastPath.leaf.eq (.str filepath) then
      return none
    return (readfile c.files filepath).map fun (filename, content) => (filename, content, filepath)

def setHistoryPath (path : Bytes) : Myinit.M Unit := mfSet historyLogpath (some (.str path))

def errorFilesize : Bytes := ascii "error_filesize"

def errorFilepath : List Bytes := [ascii "/tmp/ugw/log/apmgr.error", ascii "/tmp/ugw/log/logserver.error"]

/-- `total` of `read_luaerror`. -/
def Cycle.total (c : Cycle) : Nat := (errorFilepath.map fun filepath => (c.sizes filepath).getD 0).sum

/-- `table.concat(log_arr, "\n")`. -/
def errorText (files : Bytes → Option Bytes) : Bytes :=
  [LF].intercalate (errorFilepath.flatMap fun filepath =>
    match readfile files filepath with
    | some (_, s) => [ascii "----------------------" ++ filepath, s]
    | none => [])

def readLuaerror (c : Cycle) : Myinit.M (Option (Bytes × Bytes × Nat)) := do
  let lastSize := (tonumberOf (← mfGet errorFilesize)).getD (.int 0)
  if lastSize.eq (.int c.total) then
    return none
  return some (ascii "lua.error", errorText c.files, c.total)

def setErrorFilesize (size : Nat) : Myinit.M Unit := mfSet errorFilesize (some (.num (.int size)))

/-! ## uploadlog.lua -/

/-- `tonumber(report_cfg[keys.c_upload_log]) ~= 1` is false. -/
def Cycle.enabled (c : Cycle) : Bool := (tonumberOf c.uploadLog).any fun x => x.eq (.int 1)

/-- `if filename then kvmap[filename] = s end`. -/
def addFile (file : Option (Bytes × Bytes)) (kvmap : List (Key × Bytes)) : List (Key × Bytes) :=
  match file with
  | some (filename, s) => setField (.str filename) (some s) kvmap
  | none => kvmap

def sendLog (upload : Upload) : M Unit := modify fun s => { s with uploads := s.uploads ++ [upload] }

/-- `new_history_path` and `new_error_size` are not used but to say what is sent. -/
def uploadAplogOnce (c : Cycle) : M Unit := do
  if c.enabled then
    let kvmap := addFile (readfile c.files (ascii "/tmp/ugw/log/log.current")) []
    let history ← onReport (readhistory c)
    let kvmap := addFile (history.map fun (filename, s, _) => (filename, s)) kvmap
    let luaError ← onReport (readLuaerror c)
    let kvmap := addFile (luaError.map fun (filename, s, _) => (filename, s)) kvmap
    sendLog ⟨kvmap, history.map fun h => h.2.2, luaError.map fun e => e.2.2⟩

/-- The program has been started. -/
def start (env : Runtime) (file : Option Bytes) : State := ⟨new env file, []⟩

/-! ## What is sent -/

/-- No archive is sent twice, and between two sizes that follow each other there is a
difference. -/
structure UploadedOnce (uploads : List Upload) : Prop where
  archives : (uploads.filterMap Upload.archive).Nodup
  errors : (uploads.filterMap Upload.errorSize).IsChain (· ≠ ·)

variable {es : List (Key × Value)} {m : Memfile} {s : State}

/-- The path `readhistory` is to leave out. -/
def lastPath (es : List (Key × Value)) : Value := orElse (fieldOf (.str historyLogpath) es) (.str [])

/-- The size at which `read_luaerror` has nothing new. -/
def lastSize (es : List (Key × Value)) : LuaNum := (tonumberOf (fieldOf (.str errorFilesize) es)).getD (.int 0)

/-- The newest archive, if it can be read. -/
def Cycle.archive (c : Cycle) : Option Bytes := c.newestPath.filter fun filepath => (readfile c.files filepath).isSome

/-- The archive is the one the memfile remembers. -/
def rememberedPath (es : List (Key × Value)) (filepath : Bytes) : Bool := (lastPath es).leaf.eq (.str filepath)

/-- The size is the one the memfile remembers. -/
def rememberedSize (es : List (Key × Value)) (total : Nat) : Bool := (lastSize es).eq (.int total)

/-- The newest archives that can be read and are not remembered, of the cycles with uploading enabled. -/
def newArchives (es : List (Key × Value)) (cycles : List Cycle) : List Bytes :=
  ((cycles.filter Cycle.enabled).filterMap Cycle.archive).filter fun filepath => !rememberedPath es filepath

/-- The sizes of the error files that are not remembered, of the same cycles. -/
def newSizes (es : List (Key × Value)) (cycles : List Cycle) : List Nat :=
  ((cycles.filter Cycle.enabled).map Cycle.total).filter fun total => !rememberedSize es total

/-- What `readhistory` returns. -/
def historyOf (es : List (Key × Value)) (c : Cycle) : Option (Bytes × Bytes × Bytes) :=
  (c.newestPath.filter fun filepath => !rememberedPath es filepath).bind fun filepath =>
    (readfile c.files filepath).map fun (filename, content) => (filename, content, filepath)

/-- What `read_luaerror` returns. -/
def luaErrorOf (es : List (Key × Value)) (c : Cycle) : Option (Bytes × Bytes × Nat) :=
  if rememberedSize es c.total then none else some (ascii "lua.error", errorText c.files, c.total)

/-- What a cycle sends. -/
def uploadOf (es : List (Key × Value)) (c : Cycle) : Upload :=
  ⟨addFile ((luaErrorOf es c).map fun (filename, s, _) => (filename, s))
      (addFile ((historyOf es c).map fun (filename, s, _) => (filename, s))
        (addFile (readfile c.files (ascii "/tmp/ugw/log/log.current")) [])),
    (historyOf es c).map fun h => h.2.2, (luaErrorOf es c).map fun e => e.2.2⟩

/-! ## One cycle -/

theorem mfGet_ok (hmap : entriesOf m.map = some es) (k : Bytes) : mfGet k m = .ok (fieldOf (.str k) es) m := by
  rw [mfGet, hmap]

theorem readhistory_ok (hmap : entriesOf m.map = some es) (c : Cycle) : readhistory c m = .ok (historyOf es c) m := by
  rw [readhistory, historyOf]
  cases hpath : c.newestPath with
  | none => rfl
  | some filepath =>
    dsimp only
    rw [bind_of_ok (mfGet_ok hmap historyLogpath)]
    rw [show (orElse (fieldOf (.str historyLogpath) es) (.str [])).leaf.eq (.str filepath) =
      rememberedPath es filepath from rfl]
    rw [Option.filter_some]
    cases rememberedPath es filepath <;> rfl

theorem readLuaerror_ok (hmap : entriesOf m.map = some es) (c : Cycle) : readLuaerror c m = .ok (luaErrorOf es c) m := by
  rw [readLuaerror, luaErrorOf, bind_of_ok (mfGet_ok hmap errorFilesize)]
  rw [show ((tonumberOf (fieldOf (.str errorFilesize) es)).getD (.int 0)).eq (.int c.total) =
    rememberedSize es c.total from rfl]
  cases rememberedSize es c.total <;> rfl

theorem onReport_ok {α : Type} {x : Myinit.M α} {a : α} (h : x s.report = .ok a s.report) :
    onReport x s = .ok a s := by
  rw [onReport, h]

/-- A cycle leaves the memfile as it was. -/
theorem uploadAplogOnce_ok (hmap : entriesOf s.report.map = some es) (c : Cycle) : uploadAplogOnce c s =
    .ok () (if c.enabled then { s with uploads := s.uploads ++ [uploadOf es c] } else s) := by
  rw [uploadAplogOnce]
  cases hen : c.enabled with
  | false => rfl
  | true =>
    rw [if_pos rfl, if_pos rfl, bind_of_ok (onReport_ok (readhistory_ok hmap c)),
      bind_of_ok (onReport_ok (readLuaerror_ok hmap c))]
    rfl

/-- Where the map cannot be indexed, a cycle that is enabled raises before it sends anything. -/
theorem uploadAplogOnce_error (hmap : entriesOf s.report.map = none) {c : Cycle} (hen : c.enabled = true) :
    uploadAplogOnce c s = .error .nilIndexed s := by
  have hget : ∀ k, mfGet k s.report = .error .nilIndexed s.report := by
    intro k
    rw [mfGet, hmap]
  have hlua : onReport (readLuaerror c) s = .error .nilIndexed s := by
    rw [onReport, readLuaerror, bind_of_error (hget errorFilesize)]
  rw [uploadAplogOnce, if_pos hen]
  cases hpath : c.newestPath with
  | none =>
    have hhistory : onReport (readhistory c) s = .ok none s := by
      rw [onReport, readhistory, hpath]
      rfl
    rw [bind_of_ok hhistory, bind_of_error hlua]
  | some filepath =>
    have hhistory : onReport (readhistory c) s = .error .nilIndexed s := by
      rw [onReport, readhistory, hpath]
      dsimp only
      rw [bind_of_error (hget historyLogpath)]
    rw [bind_of_error hhistory]

/-! ## Runs -/

theorem runAll_ok (hmap : entriesOf s.report.map = some es) (cycles : List Cycle) : runAll uploadAplogOnce cycles s =
    .ok () { s with uploads := s.uploads ++ (cycles.filter Cycle.enabled).map (uploadOf es) } := by
  induction cycles generalizing s with
  | nil =>
    rw [List.filter_nil, List.map_nil, List.append_nil]
    rfl
  | cons c cycles ih =>
    rw [runAll, bind_of_ok (uploadAplogOnce_ok hmap c)]
    cases hen : c.enabled with
    | false =>
      rw [if_neg Bool.false_ne_true, ih hmap, List.filter_cons_of_neg (by rw [hen]; decide)]
    | true =>
      have h := ih (s := { s with uploads := s.uploads ++ [uploadOf es c] }) hmap
      rw [if_pos rfl, h, List.filter_cons_of_pos hen, List.map_cons, List.append_assoc]
      rfl

/-- Where the map cannot be indexed, nothing is sent at all. -/
theorem runAll_not_indexed (hmap : entriesOf s.report.map = none) (cycles : List Cycle) :
    (finalState (runAll uploadAplogOnce cycles s)).uploads = s.uploads := by
  induction cycles with
  | nil => rfl
  | cons c cycles ih =>
    by_cases hen : c.enabled = true
    · rw [finalState_cons_error (uploadAplogOnce_error hmap hen)]
    · have hskip : uploadAplogOnce c s = .ok () s := by
        rw [uploadAplogOnce, if_neg hen]
        rfl
      rw [finalState_cons_ok hskip, ih]

theorem uploadOf_archive (es : List (Key × Value)) (c : Cycle) :
    (uploadOf es c).archive = c.archive.filter fun filepath => !rememberedPath es filepath := by
  show (historyOf es c).map (fun h => h.2.2) = _
  rw [historyOf, Cycle.archive]
  cases c.newestPath with
  | none => rfl
  | some filepath =>
    rw [Option.filter_some, Option.filter_some]
    cases hold : rememberedPath es filepath <;> cases hread : readfile c.files filepath <;>
      simp [Option.filter_some, hold, hread]

theorem uploadOf_errorSize (es : List (Key × Value)) (c : Cycle) :
    (uploadOf es c).errorSize = (some c.total).filter fun total => !rememberedSize es total := by
  show (luaErrorOf es c).map (fun e => e.2.2) = _
  rw [luaErrorOf, Option.filter_some]
  cases rememberedSize es c.total <;> rfl

theorem filterMap_archive (es : List (Key × Value)) (cycles : List Cycle) :
    ((cycles.filter Cycle.enabled).map (uploadOf es)).filterMap Upload.archive = newArchives es cycles := by
  rw [newArchives, List.filterMap_map, List.filter_filterMap]
  exact List.filterMap_congr fun c _ => uploadOf_archive es c

theorem filterMap_errorSize (es : List (Key × Value)) (cycles : List Cycle) :
    ((cycles.filter Cycle.enabled).map (uploadOf es)).filterMap Upload.errorSize = newSizes es cycles := by
  rw [newSizes, ← List.filterMap_eq_map (f := Cycle.total), List.filterMap_map, List.filter_filterMap]
  exact List.filterMap_congr fun c _ => uploadOf_errorSize es c

/-- **In a run nothing is sent again if and only if no archive is the newest one in two of
the cycles, unless the memfile remembers it from the start, and the size of the error files
has changed from each cycle to the next, those left out in which it is the remembered one.** -/
theorem uploadedOnce_iff (env : Runtime) (file : Option Bytes) (cycles : List Cycle) :
    UploadedOnce (finalState (runAll uploadAplogOnce cycles (start env file))).uploads ↔
      ∀ es, entriesOf (start env file).report.map = some es →
        (newArchives es cycles).Nodup ∧ (newSizes es cycles).IsChain (· ≠ ·) := by
  cases hmap : entriesOf (start env file).report.map with
  | some es =>
    have hsent : (finalState (runAll uploadAplogOnce cycles (start env file))).uploads =
        (cycles.filter Cycle.enabled).map (uploadOf es) := by
      rw [runAll_ok hmap]
      exact List.nil_append _
    rw [hsent]
    constructor
    · intro h es' hes
      cases hes
      exact ⟨filterMap_archive es cycles ▸ h.archives, filterMap_errorSize es cycles ▸ h.errors⟩
    · intro h
      obtain ⟨harchives, herrors⟩ := h es rfl
      exact ⟨(filterMap_archive es cycles).symm ▸ harchives, (filterMap_errorSize es cycles).symm ▸ herrors⟩
  | none =>
    rw [runAll_not_indexed hmap]
    refine ⟨fun _ es hes => ?_, fun _ => ⟨List.nodup_nil, List.isChain_nil⟩⟩
    cases hes

/-- Five minutes pass and the log directory is as it was: one archive, and an error. -/
def sameCycle : Cycle where
  uploadLog := some (.str (ascii "1"))
  newest := some (ascii "/tmp/ugw/log/log_end_1700000000_000001_20240101_000000\n")
  files filepath := if filepath = ascii "/tmp/ugw/log/logserver.error" then some (ascii "stack traceback")
    else if filepath = ascii "/tmp/ugw/log/log_end_1700000000_000001_20240101_000000" then some (ascii "packed")
    else none
  sizes filepath := if filepath = ascii "/tmp/ugw/log/logserver.error" then some 15 else none

/-- The memfile of a system that has just been started. -/
def fresh : State := start listed none

theorem archive_sent_twice : ¬ ∀ (env : Runtime) (file : Option Bytes) (cycles : List Cycle),
    (∀ c ∈ cycles, c.enabled = true) →
      UploadedOnce (finalState (runAll uploadAplogOnce cycles (start env file))).uploads := by
  intro h
  have hen : sameCycle.enabled = true := by decide +kernel
  have honce := h listed none [sameCycle, sameCycle] fun c hc => by
    rcases List.mem_cons.mp hc with rfl | hc
    · exact hen
    · rw [List.mem_singleton.mp hc]
      exact hen
  have htwice : ¬ ((finalState (runAll uploadAplogOnce [sameCycle, sameCycle] fresh)).uploads.filterMap
      Upload.archive).Nodup := by decide +kernel
  exact htwice honce.archives

/-! ## What the marks are for -/

/-- A string or a number that has been set is there afterwards. -/
theorem mfSet_scalar {k : Bytes} {v : Value} (hv : v.leaf.eq v.leaf = true) (hscalar : isTable (some v) = false)
    (hmap : m.map = .table es) : ∃ m' es' v', mfSet k (some v) m = .ok () m' ∧ m'.map = .table es' ∧
      fieldOf (.str k) es' = some v' ∧ v'.leaf.eq v.leaf = true := by
  have hentries : entriesOf m.map = some es := congrArg entriesOf hmap
  have htable : isTable (some m.map) = true := congrArg (fun v => isTable (some v)) hmap
  rw [mfSet, hentries, hscalar, htable]
  dsimp only
  cases hsame : sameScalar (fieldOf (.str k) es) (some v) with
  | true =>
    cases hold : fieldOf (.str k) es with
    | none =>
      rw [hold] at hsame
      cases hsame
    | some v' =>
      rw [hold] at hsame
      exact ⟨m, es, v', rfl, hmap, hold, hsame⟩
  | false =>
    exact ⟨{ m with map := .table (setField (.str k) (some v) es), change := true }, _, v, rfl, rfl,
      (fieldOf_setField ..).trans (if_pos rfl), hv⟩

/-- The archive that has been remembered is not read again. -/
theorem readhistory_remembered (hmap : m.map = .table es) {c : Cycle} {path : Bytes} (hpath : c.newestPath = some path) :
    ∃ m', setHistoryPath path m = .ok () m' ∧ readhistory c m' = .ok none m' := by
  obtain ⟨m', es', v, hset, hmap', hfield, heq⟩ := mfSet_scalar (k := historyLogpath) (v := .str path)
    (decide_eq_true rfl) rfl hmap
  refine ⟨m', hset, ?_⟩
  have hold : rememberedPath es' path = true := by
    rw [rememberedPath, lastPath, hfield]
    cases v with
    | str s => exact heq
    | _ => cases heq
  rw [readhistory_ok (congrArg entriesOf hmap'), historyOf, hpath, Option.filter_some, hold]
  rfl

/-- Errors are not read again while their files have the size that has been remembered. -/
theorem readLuaerror_remembered (hmap : m.map = .table es) {c : Cycle} :
    ∃ m', setErrorFilesize c.total m = .ok () m' ∧ readLuaerror c m' = .ok none m' := by
  obtain ⟨m', es', v, hset, hmap', hfield, heq⟩ := mfSet_scalar (k := errorFilesize) (v := .num (.int c.total))
    (decide_eq_true rfl) rfl hmap
  refine ⟨m', hset, ?_⟩
  have hold : rememberedSize es' c.total = true := by
    rw [rememberedSize, lastSize, hfield]
    cases v with
    | num x => exact heq
    | _ => cases heq
  rw [readLuaerror_ok (congrArg entriesOf hmap'), luaErrorOf, if_pos hold]

end ApApps.Report

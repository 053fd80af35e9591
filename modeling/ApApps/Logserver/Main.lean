import ApApps.Lib.Machine
import ApApps.Lib.Retention
import ApApps.Lua.Number

/- logserver/main.lua: the log file and its archives.

   What is received is kept in a cache, and `flush` writes it to `log.current`. When the file
   has grown too large it is packed into an archive, whose name has the version of the
   firmware, a sequence number and the time; before `log.current` is opened `delete_log`
   removes archives. `lfs.dir` yields the names in the directory in any order, `x86` is
   `arch.isx86()`. `logserver.sh` starts the program again when it has ended (`restart`).

   Left out: the socket, what is written to the log and what is only printed. Removing a
   file is taken to succeed. -/
namespace ApApps.Logserver

def maxLogsize (x86 : Bool) : Nat := if x86 then 1024 * 1024 * 4 else 1024 * 200

def maxfiles (x86 : Bool) : Nat := if x86 then 10 else 3

/-! ## Patterns -/

/-- The pattern of `width` digits between two bytes: at the start of `s`, the first byte and
that many digits, and what follows them. -/
def digitsAfter (first : UInt8) (width : Nat) : Bytes → Option (Bytes × Bytes)
  | [] => none
  | c :: s =>
    if c = first ∧ (s.take width).length = width ∧ (s.take width).all isDigit then
      some (s.take width, s.drop width)
    else none

/-- `_(%d%d%d%d%d%d)_` at the start of `s`. -/
def idAt (s : Bytes) : Option Bytes :=
  match digitsAfter (ch '_') 6 s with
  | some (ds, c :: _) => if c = ch '_' then some ds else none
  | _ => none

/-- `filename:match("_(%d%d%d%d%d%d)_")`. -/
def idMatch (filename : Bytes) : Option Bytes := filename.tails.findSome? idAt

/-- `tonumber` of the match. -/
def idOf (filename : Bytes) : Option Nat := (idMatch filename).map (digitsVal 10)

def noStamp : Bytes := ascii "0000000000"

/-- `get_version_stamp`, from the first line of the version file, if there is one. -/
def versionStamp (x86 : Bool) (version : Bytes) : Bytes :=
  let mark := if x86 then ch '-' else ch '.'
  (version.tails.findSome? fun s => (digitsAfter mark 10 s).map Prod.fst).getD noStamp

/-! ## Names of archives -/

/-- `%0<width>d` of a number that is not negative. -/
def formatD (width n : Nat) : Bytes :=
  let ds := Nat.toDigits 10 n
  (List.replicate (width - ds.length) '0' ++ ds).map ch

/-- The fields of `os.date("*t")`. -/
structure Date where
  year : Nat
  month : Nat
  day : Nat
  hour : Nat
  min : Nat
  sec : Nat
  deriving DecidableEq

/-- The part of the name after the sequence number. -/
def Date.text (t : Date) : Bytes :=
  formatD 4 t.year ++ formatD 2 t.month ++ formatD 2 t.day ++ ascii "_" ++
    formatD 2 t.hour ++ formatD 2 t.min ++ formatD 2 t.sec

/-- `log_end_%s_%06d_%04d%02d%02d_%02d%02d%02d`. -/
def archiveName (stamp : Bytes) (id : Nat) (t : Date) : Bytes :=
  ascii "log_end_" ++ stamp ++ ascii "_" ++ formatD 6 id ++ ascii "_" ++ t.text

/-! ## The program -/

/-- The files in `logdir`, whether `fp` is set, and `current_id`. -/
structure Server where
  dir : List Bytes
  opened : Bool
  currentId : Nat

/-- Strings are compared byte by byte. -/
def nameKey (filename : Bytes) : List Nat := filename.map UInt8.toNat

/-- `arr` of `collect_del_files`. -/
def archives (dir : List Bytes) : List Bytes := dir.filter fun filename => (idOf filename).isSome

/-- `collect_del_files`: the archives from the `maxfiles`th on, the greatest name first. -/
def collectDelFiles (x86 : Bool) (dir : List Bytes) : List Bytes :=
  (Retention.sorted nameKey (archives dir)).drop (maxfiles x86 - 1)

/-- What `collect_del_files` does to `current_id`. -/
def nextCurrentId (dir : List Bytes) (currentId : Nat) : Nat :=
  dir.foldl (fun cur filename => match idOf filename with
    | some id => if cur < id then id else cur
    | none => cur) currentId

/-- `delete_log`. -/
def Server.deleteLog (x86 : Bool) (s : Server) : Server :=
  { s with
    dir := s.dir.filter fun filename => filename ∉ collectDelFiles x86 s.dir
    currentId := nextCurrentId s.dir s.currentId }

/-- `openlog`. -/
def Server.openlog (x86 : Bool) (s : Server) : Server :=
  if s.opened then s else { s.deleteLog x86 with opened := true }

/-- A call of `flush`. -/
structure Flush where
  /-- the cache is not empty -/
  cached : Bool
  /-- `fp:seek()` -/
  size : Nat
  time : Date
  /-- the version file, if it is there, and its first line, if it has one -/
  version : Option (Option Bytes)
  /-- `tar` makes the archive -/
  packed : Bool

/-- The program has ended and is started again. -/
def Server.restart (s : Server) : Server := { s with opened := false, currentId := 0 }

/-- The name of the next archive, or nothing if `get_version_stamp` raises. -/
def Server.nextName (x86 : Bool) (f : Flush) (s : Server) : Option Bytes :=
  match f.version with
  | none => some (archiveName noStamp (s.currentId + 1) f.time)
  | some none => none
  | some (some line) => some (archiveName (versionStamp x86 line) (s.currentId + 1) f.time)

/-- `log.current` is closed and packed into an archive. -/
def Server.rotate (name : Bytes) (f : Flush) (s : Server) : Server :=
  { s with opened := false, dir := if f.packed ∧ name ∉ s.dir then s.dir ++ [name] else s.dir }

/-- `flush`. An error ends the program. -/
def Server.flush (x86 : Bool) (f : Flush) (s : Server) : Server :=
  if f.cached then
    let s := s.openlog x86
    if maxLogsize x86 < f.size then
      match s.nextName x86 f with
      | none => s.restart
      | some name => (s.rotate name f).openlog x86
    else s
  else s

inductive Event where
  | flush (f : Flush)
  | restart

def step (x86 : Bool) (ev : Event) : EStateM LuaError Server Unit := fun s =>
  match ev with
  | .flush f => .ok () (s.flush x86 f)
  | .restart => .ok () s.restart

end ApApps.Logserver

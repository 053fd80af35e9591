import ApApps.Lib.Machine
import ApApps.Cjson.Copy

/- memfile.lua: a table in memory and in a file.

   `Ins` is an instance and the file at its path, for any kind of table: a Lua value here,
   and in the models of the programs what they keep in it. In this one `writes` counts how
   often the file has been written, which the source does not record. Only `set` changes a
   value; `nil` is none.

   A file may hold any JSON value. A number, `true` or `null` cannot be indexed, but a
   string can: Lua looks the key up in the string library (`entriesOf`).

   Left out: what is logged, errors of the file system, and keys that name a function of
   the string library. -/
namespace ApApps.Myinit
open Exec Cjson

/-- An instance, and what is at its path. -/
structure Ins (T F : Type) where
  map : T
  change : Bool
  file : F
  deriving DecidableEq, Repr

section Ins
variable {T F : Type}

/-- `new(filename)`; `load` is `load_file`: the map, and what is left at the path. -/
def Ins.new (load : F → T × F) (file : F) : Ins T F := ⟨(load file).1, false, (load file).2⟩

/-- `ins:set(k, v)`, if it makes `map` of the map; `same` says that the value is no table and
is the old one. -/
def Ins.set (ins : Ins T F) (same : Bool) (map : T) : Ins T F :=
  if same then ins else { ins with map, change := true }

/-- `save_file`; a map that cannot be encoded is not written. -/
def Ins.saveFile (encode : T → Option F) (ins : Ins T F) : Option (Ins T F) :=
  (encode ins.map).map fun file => { ins with file }

/-- `ins:save()`. -/
def Ins.save (encode : T → Option F) (ins : Ins T F) : Option (Ins T F) :=
  if ins.change then (ins.saveFile encode).map fun ins => { ins with change := false } else some ins

/-- `ins:reload()`. -/
def Ins.reload (load : F → T × F) (ins : Ins T F) : Ins T F :=
  { ins with map := (load ins.file).1, file := (load ins.file).2 }

/-- `ins:clear()`. -/
def Ins.clear (empty : T) (ins : Ins T F) : Ins T F := { ins with map := empty }

variable {encode : T → Option F} {ins : Ins T F}

theorem Ins.save_down (h : ins.change = false) : ins.save encode = some ins := by
  rw [Ins.save, h]
  rfl

theorem Ins.save_up (h : ins.change = true) {file : F} (hfile : encode ins.map = some file) :
    ins.save encode = some { ins with change := false, file } := by
  rw [Ins.save, h, if_pos rfl, Ins.saveFile, hfile]
  rfl

end Ins

/-! ## With a Lua value -/

/-- The instance with a Lua value for its map. -/
structure Memfile extends Ins Value (Option Bytes) where
  writes : Nat

abbrev M := EStateM LuaError Memfile

/-- `load_file`: the table, and the file; one that cannot be decoded is removed. -/
def loadFile (env : Runtime) (file : Option Bytes) : Value × Option Bytes :=
  match file with
  | none => (.table [], none)
  | some s =>
    match decode env.fp s with
    | none => (.table [], none)
    | some (.bool false) => (.table [], none)
    | some v => (ofVal v, some s)

/-- `js.encode`. -/
def encodeValue (env : Runtime) (v : Value) : Option Bytes := (toVal env v).bind (encode env.fp)

/-- What is written to the file. -/
def encodeText (env : Runtime) (v : Value) : Option (Option Bytes) := (encodeValue env v).map some

/-- `save_file`: if the map cannot be encoded, `fp:write` is given nil. -/
def saveFile (env : Runtime) : M Unit := fun s =>
  match s.toIns.saveFile (encodeText env) with
  | none => .error (.badArgument "write") s
  | some ins => .ok () ⟨ins, s.writes + 1⟩

/-- `type(v) == "table"`. -/
def isTable : Option Value → Bool
  | some (.table _) => true
  | _ => false

/-- `ov == v`, where `v` is not a table. -/
def sameScalar : Option Value → Option Value → Bool
  | none, none => true
  | some ov, some v => ov.leaf.eq v.leaf
  | _, _ => false

/-- What `map[k]` finds: the entries of a table, nothing in a string, and `none` for a
value that cannot be indexed. -/
def entriesOf : Value → Option (List (Key × Value))
  | .table es => some es
  | .str _ => some []
  | _ => none

/-- `ins:get(k)`. -/
def mfGet (k : Bytes) : M (Option Value) := fun s =>
  match entriesOf s.map with
  | some es => .ok (fieldOf (.str k) es) s
  | none => .error .nilIndexed s

/-- `ins:set(k, v)`. Only a table can be assigned to. -/
def mfSet (k : Bytes) (v : Option Value) : M Unit := fun s =>
  match entriesOf s.map with
  | some es =>
    let same := !isTable v && sameScalar (fieldOf (.str k) es) v
    if same || isTable (some s.map) then
      .ok () { s with toIns := s.toIns.set same (.table (setField (.str k) v es)) }
    else .error .nilIndexed s
  | none => .error .nilIndexed s

/-- `ins:setchange()`. -/
def mfSetchange : M Unit := modify fun s => { s with change := true }

/-- `ins:force_save()`. -/
def mfForceSave (env : Runtime) : M Unit := do
  saveFile env
  modify fun s => { s with change := false }

/-- `ins:save()`. -/
def mfSave (env : Runtime) : M Bool := fun s =>
  match s.toIns.save (encodeText env) with
  | none => .error (.badArgument "write") s
  | some ins => .ok s.change ⟨ins, if s.change then s.writes + 1 else s.writes⟩

/-- `ins:reload()`. -/
def mfReload (env : Runtime) : M Unit := modify fun s => { s with toIns := s.toIns.reload (loadFile env) }

/-- `ins:clear()`. -/
def mfClear : M Unit := modify fun s => { s with toIns := s.toIns.clear (.table []) }

/-- `new(filename)`, from what is at the path. -/
def new (env : Runtime) (file : Option Bytes) : Memfile := ⟨.new (loadFile env) file, 0⟩

inductive Op where
  | set (k : Bytes) (v : Option Value)
  | setchange
  | forceSave
  | save
  | reload
  | clear

def step (env : Runtime) : Op → M Unit
  | .set k v => mfSet k v
  | .setchange => mfSetchange
  | .forceSave => mfForceSave env
  | .save => do
    let _ ← mfSave env
  | .reload => mfReload env
  | .clear => mfClear

end ApApps.Myinit

import ApApps.Myinit.Memfile

/- compare.lua: the file check of `new_chk_file`, over memfile.lua.

   The memfile of a file check has one key, `lasttime`. A modification time is in whole
   seconds, as lfs reports it. -/
namespace ApApps.Compare

/-! ## The memfile -/

/-- `lasttime` is all there is in memory, and in the file. -/
abbrev Memfile := Myinit.Ins (Option Nat) (Option Nat)

/-- `get("lasttime")`. -/
def Memfile.lasttime (mf : Memfile) : Option Nat := mf.map

/-- `new`, from what the file has. -/
def Memfile.new (file : Option Nat) : Memfile := Myinit.Ins.new (fun f => (f, f)) file

/-- `set("lasttime", v)`. -/
def Memfile.set (mf : Memfile) (v : Nat) : Memfile := Myinit.Ins.set mf (mf.lasttime = some v) (some v)

/-- `save`; a time can be encoded. -/
def Memfile.save (mf : Memfile) : Memfile := (Myinit.Ins.save some mf).getD mf

/-- `clear`. -/
def Memfile.clear (mf : Memfile) : Memfile := Myinit.Ins.clear none mf

/-! ## mt_chk_file -/

/-- `check`; `attr` is `attr.modification`, if there are attributes. -/
def check (attr : Option Nat) (mf : Memfile) : Bool × Memfile :=
  match attr with
  | none => (false, mf)
  | some modification =>
    if mf.lasttime = some modification then (false, mf) else (true, mf.set modification)

/-- `save_current`. -/
def saveCurrent (attr : Option Nat) (mf : Memfile) : Memfile :=
  match attr with
  | none => mf
  | some modification => (mf.set modification).save

/-! ## Lemmas -/

theorem check_some (modification : Nat) (mf : Memfile) :
    check (some modification) mf =
      if mf.lasttime = some modification then (false, mf) else (true, mf.set modification) := rfl

@[simp] theorem Memfile.lasttime_set (mf : Memfile) (v : Nat) : (mf.set v).lasttime = some v := by
  by_cases h : mf.lasttime = some v
  · have hset : mf.set v = mf := by
      rw [Memfile.set, decide_eq_true h]
      rfl
    rw [hset, h]
  · rw [Memfile.set, decide_eq_false h]
    rfl

@[simp] theorem Memfile.lasttime_save (mf : Memfile) : mf.save.lasttime = mf.lasttime := by
  cases h : mf.change with
  | true =>
    rw [Memfile.save, Myinit.Ins.save_up h rfl, Option.getD_some]
    rfl
  | false => rw [Memfile.save, Myinit.Ins.save_down h, Option.getD_some]

end ApApps.Compare

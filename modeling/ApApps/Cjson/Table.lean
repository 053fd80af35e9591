import ApApps.Cjson.Arrays

/- Lua values and JSON.

   A Lua table is the list of its entries. `toVal` is what the encoder makes of a value:
   `lua_array_length` decides whether a table is written as an array or as an object, and
   the order in which `lua_next` yields the entries (`pairs`) is left open. `ofVal` is the
   Lua value that the decoder builds.

   Two values are the same if every path of keys leads to equal scalars in both, or to a
   table in both (`Same`). `Plain` values are the ones JSON has a notation for. -/
namespace ApApps.Cjson

/-- A key of a table; `other` is a boolean, a table, a function and so on. -/
inductive Key where
  | num (x : LuaNum)
  | str (s : Bytes)
  | other (id : Nat)
  deriving DecidableEq

/-- A value that is not nil; `other` is a function, a thread or a userdata. -/
inductive Value where
  /-- `cjson.null` -/
  | null
  | bool (b : Bool)
  | num (x : LuaNum)
  | str (s : Bytes)
  | other (id : Nat)
  | table (entries : List (Key × Value))

/-- How the encoder and `pairs` depend on what is not in the program. -/
structure Runtime where
  fp : FpConv
  pairs : {α : Type} → List α → List α
  pairs_perm : ∀ {α : Type} (l : List α), (pairs l).Perm l

/-! ## Tables -/

/-- `t[k]`. -/
def fieldOf {α : Type} (k : Key) : List (Key × α) → Option α
  | [] => none
  | e :: es => if e.1 = k then some e.2 else fieldOf k es

/-- `t[k] = v`; assigning nil removes the entry. -/
def setField {α : Type} (k : Key) (v : Option α) (es : List (Key × α)) : List (Key × α) :=
  es.filter (fun e => e.1 ≠ k) ++ (v.map fun v => (k, v)).toList

/-! ## The encoder -/

/-- The key as an index: a whole number from 1 on. -/
def Key.index : Key → Option Nat
  | .num (.int i) => if 1 ≤ i then some i.toNat else none
  | .num (.flt (.fin q)) => if q.den = 1 ∧ 1 ≤ q.num then some q.num.toNat else none
  | _ => none

/-- What `lua_array_length` finds out. -/
inductive Layout where
  | array (max : Nat)
  | object
  /-- "excessively sparse array" -/
  | sparse

/-- `lua_array_length`, with `encode_sparse_ratio` 2 and `encode_sparse_safe` 10. -/
def luaArrayLength {α : Type} (es : List (Key × α)) : Layout :=
  match es.mapM fun e => e.1.index with
  | none => .object
  | some is =>
    let max := is.foldl max 0
    if is.length * 2 < max ∧ 10 < max then .sparse else .array max

/-- A key, as `json_append_object` writes it between quotes. -/
def keyText (fp : FpConv) : Key → Option Bytes
  | .num x => if x.toFlt = .inf ∨ x.toFlt = .ninf ∨ x.toFlt = .nan then none else some (fp.gFmt x.toFlt)
  | .str s => some s
  | .other _ => none

/-- The items of an array; a hole is written as null. -/
def arrayItems (len : Nat) (es : List (Key × Val)) : List Val :=
  (List.range len).map fun i : Nat => (fieldOf (.num (.int ((i : Int) + 1))) es).getD .null

/-- A table whose values have been converted. -/
def tableVal (env : Runtime) (es : List (Key × Val)) : Option Val :=
  match luaArrayLength es with
  | .sparse => none
  | .array (n + 1) => some (.arr (arrayItems (n + 1) es))
  | _ => ((env.pairs es).mapM fun e => (keyText env.fp e.1).map fun k => (k, e.2)).map .obj

mutual

/-- What `json_append_data` writes, or nothing if it raises. -/
def toVal (env : Runtime) : Value → Option Val
  | .null => some .null
  | .bool b => some (.bool b)
  | .num x => some (.num x.toFlt)
  | .str s => some (.str s)
  | .other _ => none
  | .table es => (toVals env es).bind (tableVal env)

def toVals (env : Runtime) : List (Key × Value) → Option (List (Key × Val))
  | [] => some []
  | (k, v) :: es => do
    let v ← toVal env v
    let es ← toVals env es
    return (k, v) :: es

end

/-! ## The decoder -/

/-- The entries of an array. -/
def indexed {α : Type} (items : List α) : List (Key × α) :=
  items.zipIdx.map fun e => (.num (.int ((e.2 : Int) + 1)), e.1)

mutual

/-- The value `json_process_value` leaves on the stack. -/
def ofVal : Val → Value
  | .null => .null
  | .bool b => .bool b
  | .num x => .num (.flt x)
  | .str s => .str s
  | .arr items => .table (indexed (ofItems items))
  | .obj fields => .table (ofFields fields)

def ofItems : List Val → List Value
  | [] => []
  | v :: vs => ofVal v :: ofItems vs

def ofFields : List (Bytes × Val) → List (Key × Value)
  | [] => []
  | (k, v) :: fields => (.str k, ofVal v) :: ofFields fields

end

/-! ## The same value -/

/-- What is at the end of a path; of a table only that it is one. -/
inductive Leaf where
  | null
  | bool (b : Bool)
  | num (x : LuaNum)
  | str (s : Bytes)
  | other (id : Nat)
  | table

def Value.leaf : Value → Leaf
  | .null => .null
  | .bool b => .bool b
  | .num x => .num x
  | .str s => .str s
  | .other id => .other id
  | .table _ => .table

/-- `v[k1][k2]...`. -/
def Value.follow : Value → List Key → Option Leaf
  | v, [] => some v.leaf
  | .table es, k :: path => (fieldOf k es).bind fun v => v.follow path
  | _, _ :: _ => none

/-- `a == b`. -/
def Leaf.eq : Leaf → Leaf → Bool
  | .num x, .num y => x.eq y
  | .null, .null => true
  | .bool a, .bool b => a = b
  | .str s, .str t => s = t
  | .other i, .other j => i = j
  | .table, .table => true
  | _, _ => false

/-- Every path leads to the same in both. -/
def Same (v w : Value) : Prop :=
  ∀ path, Option.Rel (fun a b => a.eq b = true) (v.follow path) (w.follow path)

/-! ## Values that JSON has a notation for -/

/-- The number is a double, and `%.14g` and `strtod` bring it back. -/
structure KeptNum (fp : FpConv) (x : LuaNum) : Prop where
  finite : IsFinite x.toFlt
  exact : x.eq (.flt x.toFlt) = true
  reads : ReadsNumeral fp (fp.gFmt x.toFlt) x.toFlt

/-- Scalars, arrays without holes, and tables with strings for keys, `depth` deep at most. -/
inductive Plain (fp : FpConv) : Nat → Value → Prop where
  | null (depth : Nat) : Plain fp depth .null
  | bool (depth : Nat) (b : Bool) : Plain fp depth (.bool b)
  | num (depth : Nat) {x : LuaNum} (h : KeptNum fp x) : Plain fp depth (.num x)
  | str (depth : Nat) (s : Bytes) : Plain fp depth (.str s)
  | array {depth : Nat} {es : List (Key × Value)} {items : List Value} (hne : items ≠ [])
      (hperm : es.Perm (indexed items)) (h : ∀ e ∈ es, Plain fp depth e.2) : Plain fp (depth + 1) (.table es)
  | object {depth : Nat} {es : List (Key × Value)} (hnodup : (es.map Prod.fst).Nodup)
      (hkeys : ∀ e ∈ es, ∃ s, e.1 = .str s) (h : ∀ e ∈ es, Plain fp depth e.2) : Plain fp (depth + 1) (.table es)

/-- A table with strings for keys. -/
structure PlainMap (fp : FpConv) (depth : Nat) (es : List (Key × Value)) : Prop where
  nodup : (es.map Prod.fst).Nodup
  keys : ∀ e ∈ es, ∃ s, e.1 = .str s
  values : ∀ e ∈ es, Plain fp depth e.2

end ApApps.Cjson

import ApApps.Lua.Number

/- lua_cjson.c, the encoder, with the settings of `json_create_config` (at most 1000
   nested tables, NaN and infinities refused).

   A Lua table is an array or an object of strings to values; its fields stand in the
   order in which `lua_next` yields them. The conversions between numbers and their
   text are those of the C library (`FpConv`). `cjson.safe` turns every error into
   nil, so an encoder that fails returns none. -/
namespace ApApps.Cjson

/-- The Lua values JSON text can stand for. -/
inductive Val where
  /-- `cjson.null`, a light userdata -/
  | null
  | bool (b : Bool)
  | num (x : Flt)
  | str (s : Bytes)
  | arr (items : List Val)
  | obj (fields : List (Bytes × Val))

/-- `if v then`: nil and false are false, `cjson.null` is not. -/
def truthy : Option Val → Bool
  | none => false
  | some (.bool b) => b
  | some _ => true

/-- fpconv.c: `strtod`, which returns the number and what follows it, or nothing if it
consumes nothing, and `snprintf` with `%.14g`. -/
structure FpConv where
  strtod : Bytes → Option (Flt × Bytes)
  gFmt : Flt → Bytes

/-- A hexadecimal digit, as `char2escape` writes it. -/
def hexDigit (n : UInt8) : UInt8 := if n < 10 then 48 + n else 87 + n

/-- `char2escape`: the text written in place of a character that is not written as it is. -/
def char2escape (c : UInt8) : Option Bytes :=
  if c = 8 then some (ascii "\\b")
  else if c = TAB then some (ascii "\\t")
  else if c = LF then some (ascii "\\n")
  else if c = 12 then some (ascii "\\f")
  else if c = CR then some (ascii "\\r")
  else if c = ch '"' then some (ascii "\\\"")
  else if c = ch '/' then some (ascii "\\/")
  else if c = ch '\\' then some (ascii "\\\\")
  else if c < 32 ∨ c = 127 then some (ascii "\\u00" ++ [hexDigit (c >>> 4), hexDigit (c &&& 15)])
  else none

/-- The loop of `json_append_string`. -/
def escape (s : Bytes) : Bytes := s.flatMap (fun c => (char2escape c).getD [c])

def jsonAppendString (s : Bytes) : Bytes := ch '"' :: (escape s ++ [ch '"'])

def encodeMaxDepth : Nat := 1000

mutual

/-- `json_append_data`; an empty table is written as an object. -/
def jsonAppendData (fp : FpConv) (depth : Nat) : Val → Option Bytes
  | .null => some (ascii "null")
  | .bool b => some (if b then ascii "true" else ascii "false")
  | .num x => if x = .inf ∨ x = .ninf ∨ x = .nan then none else some (fp.gFmt x)
  | .str s => some (jsonAppendString s)
  | .arr [] => if encodeMaxDepth < depth + 1 then none else some (ascii "\x7b\x7d")
  | .arr (v :: vs) =>
    if encodeMaxDepth < depth + 1 then none
    else do
      let head ← jsonAppendData fp (depth + 1) v
      let tail ← jsonAppendArray fp (depth + 1) vs
      return ch '[' :: (head ++ tail ++ [ch ']'])
  | .obj [] => if encodeMaxDepth < depth + 1 then none else some (ascii "\x7b\x7d")
  | .obj ((k, v) :: fields) =>
    if encodeMaxDepth < depth + 1 then none
    else do
      let head ← jsonAppendData fp (depth + 1) v
      let tail ← jsonAppendObject fp (depth + 1) fields
      return ch '\x7b' :: (jsonAppendString k ++ ch ':' :: (head ++ tail ++ [ch '\x7d']))

/-- The items of `json_append_array` after the first. -/
def jsonAppendArray (fp : FpConv) (depth : Nat) : List Val → Option Bytes
  | [] => some []
  | v :: vs => do
    let head ← jsonAppendData fp depth v
    let tail ← jsonAppendArray fp depth vs
    return ch ',' :: (head ++ tail)

/-- The fields of `json_append_object` after the first. -/
def jsonAppendObject (fp : FpConv) (depth : Nat) : List (Bytes × Val) → Option Bytes
  | [] => some []
  | (k, v) :: fields => do
    let head ← jsonAppendData fp depth v
    let tail ← jsonAppendObject fp depth fields
    return ch ',' :: (jsonAppendString k ++ ch ':' :: (head ++ tail))

end

/-- `js.encode`. -/
def encode (fp : FpConv) (v : Val) : Option Bytes := jsonAppendData fp 0 v

/-! ## Objects whose values are strings -/

/-- A field, as `json_append_object` writes it. -/
def fieldText (kv : Bytes × Bytes) : Bytes := jsonAppendString kv.1 ++ ch ':' :: jsonAppendString kv.2

/-- A table of strings. -/
def ofStrings (fields : List (Bytes × Bytes)) : Val := .obj (fields.map (fun kv => (kv.1, .str kv.2)))

/-- The text of a table of strings, its fields separated by `sep`. -/
def objectText (sep : Bytes) (fields : List (Bytes × Bytes)) : Bytes :=
  ch '\x7b' :: (sep.intercalate (fields.map fieldText) ++ [ch '\x7d'])

theorem jsonAppendObject_strings (fp : FpConv) (depth : Nat) (fields : List (Bytes × Bytes)) :
    jsonAppendObject fp depth (fields.map (fun kv => (kv.1, .str kv.2))) =
      some (fields.flatMap (fun kv => ch ',' :: fieldText kv)) := by
  induction fields with
  | nil => rfl
  | cons kv fields ih =>
    obtain ⟨k, v⟩ := kv
    simp only [List.map_cons, jsonAppendObject, jsonAppendData, ih, List.flatMap_cons, fieldText]
    simp

theorem intercalate_cons_flatMap {α : Type*} (sep a : List α) (rest : List (List α)) :
    sep.intercalate (a :: rest) = a ++ rest.flatMap (fun x => sep ++ x) := by
  induction rest generalizing a with
  | nil => simp
  | cons b rest ih =>
    rw [List.intercalate_cons_cons, ih b]
    simp

/-- The encoder writes a table of strings field by field. -/
theorem encode_ofStrings (fp : FpConv) (fields : List (Bytes × Bytes)) :
    encode fp (ofStrings fields) = some (objectText [ch ','] fields) := by
  cases fields with
  | nil => rfl
  | cons kv fields =>
    obtain ⟨k, v⟩ := kv
    unfold encode ofStrings objectText
    rw [List.map_cons, jsonAppendData, jsonAppendObject_strings, List.map_cons, intercalate_cons_flatMap]
    simp only [jsonAppendData]
    rw [if_neg (by decide)]
    simp [fieldText, List.flatMap_map]

end ApApps.Cjson

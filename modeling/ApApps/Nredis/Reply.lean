import ApApps.Bufio.Reader
import ApApps.Lua.Number
import ApApps.Redis.Query

/- `redis_read_object`, `redis_format` and `redis_format_command` of nredis.lua.

   The reader functions answer like those of bufio.lua, with a value or with nil and an
   error. Tables are the three kinds redis knows, `{ ok = s }`, `{ err = s }` and arrays;
   the Lua stack is taken to be deep enough. What is formatted is read back:
   `Nredis/RoundTrip.lean`. -/
namespace ApApps.Nredis
open Exec ApApps.Bufio ApApps.Redis

inductive Obj where
  | num (x : LuaNum)
  | str (s : Bytes)
  | bool (b : Bool)
  /-- `{ ok = s }` -/
  | status (s : Bytes)
  /-- `{ err = s }` -/
  | error (s : Bytes)
  | arr (elems : List Obj)
  /-- a value of another type -/
  | other (objtype : String)

/-- What a reader function returns: a value, or `nil, err`. -/
abbrev Result (α : Type) := Except (Option Bytes) α

/-! ## Reading -/

/-- `string.sub(line, 1, -3)`. -/
def chomp (line : Bytes) : Bytes := line.take (line.length - 2)

/-- What the two functions for a line have in common; `make` is the table. -/
def readLine (make : Bytes → Obj) : M (Result Obj) := do
  match ← readerReadUntil [CR, LF] with
  | .error err => pure (.error err)
  | .ok line => pure (.ok (make (chomp line)))

def redisReadStatus : M (Result Obj) := readLine .status

def redisReadError : M (Result Obj) := readLine .error

def redisReadNumber : M (Result LuaNum) := do
  match ← readerReadUntil [CR, LF] with
  | .error err => pure (.error err)
  | .ok line =>
    match tonumber (chomp line) with
    | none => pure (.error (some (ascii "redis error, bad number: " ++ line)))
    | some number => pure (.ok number)

/-- `reader:read(n)` for any number. Of a fraction as much is read as of the next integer,
and then `string.sub` refuses it; an infinite number is never there. -/
def readNum (n : LuaNum) : M Answer :=
  match n with
  | .int n => readerRead n.toNat
  | .flt (.fin q) =>
    if q.den = 1 then readerRead q.num.toNat
    else do
      match ← readerRead q.ceil.toNat with
      | .error err => pure (.error err)
      | .ok _ => throw (.badArgument "sub")
  | .flt .inf => do refillLoop (fun _ => pure (.inr ())) (← turns) () []
  | .flt _ => throw (.assertFailed "reader_read")

/-- `len < 0`. -/
def isNegative (len : LuaNum) : Bool := !(LuaNum.int 0).le len

/-- `len + 2`. -/
def plusTwo : LuaNum → LuaNum
  | .int i => .int (luaInteger (i + 2))
  | .flt (.fin q) => .flt (Flt.round (q + 2))
  | .flt f => .flt f

def redisReadString : M (Result Obj) := do
  match ← redisReadNumber with
  | .error err => pure (.error err)
  | .ok len =>
    if isNegative len then pure (.ok (.bool false))
    else match ← readNum (plusTwo len) with
      | .error err => pure (.error err)
      | .ok data =>
        if data.drop (data.length - 2) ≠ [CR, LF] then
          pure (.error (some (ascii "redis error, bad string: " ++ data)))
        else pure (.ok (.str (chomp data)))

/-- How often `for i = 1, len` runs: `forlimit` takes the floor of a float and clips it. -/
def loopCount : LuaNum → Nat
  | .int i => i.toNat
  | .flt (.fin q) => min q.floor.toNat (2 ^ 63 - 1)
  | .flt .inf => 2 ^ 63 - 1
  | .flt _ => 0

/-- The loop of `redis_read_array`, for `n` more elements. -/
def readElems (readObject : M (Result Obj)) : Nat → List Obj → M (Result Obj)
  | 0, arr => pure (.ok (.arr arr))
  | n + 1, arr => do
    match ← readObject with
    | .error err => pure (.error err)
    | .ok obj => readElems readObject n (arr ++ [obj])

def redisReadArray (readObject : M (Result Obj)) : M (Result Obj) := do
  match ← redisReadNumber with
  | .error err => pure (.error err)
  | .ok len =>
    if isNegative len then pure (.ok (.bool false))
    else readElems readObject (loopCount len) []

/-- What `redis_read_object` does after the prefix. -/
def readAfter (readObject : M (Result Obj)) (pfx : Bytes) : M (Result Obj) :=
  if pfx = ascii "+" then redisReadStatus
  else if pfx = ascii "-" then redisReadError
  else if pfx = ascii ":" then do
    match ← redisReadNumber with
    | .error err => pure (.error err)
    | .ok number => pure (.ok (.num number))
  else if pfx = ascii "$" then redisReadString
  else if pfx = ascii "*" then redisReadArray readObject
  else pure (.error (some (ascii "redis error, bad prefix: " ++ pfx)))

/-- The nesting is bounded by `fuel`; every object has a prefix of its own. -/
def redisReadObject : Nat → M (Result Obj)
  | 0 => pure (.error none)
  | fuel + 1 => do
    match ← readerRead 1 with
    | .error err => pure (.error err)
    | .ok pfx => readAfter (redisReadObject fuel) pfx

/-- `redis_parse`: what it returns, and what it leaves the reader as. -/
def redisParse (str : Bytes) : EStateM.Result LuaError Reader (Result Obj) :=
  redisReadObject (str.length + 1) (readerNew (-1) str [] [])

/-! ## Formatting -/

/-- What `%d` makes of an integer. -/
def formatD (i : Int) : Bytes := if i < 0 then ch '-' :: sprintfNum i.natAbs else sprintfNum i.natAbs

/-- `redis_format_command`, of what `tostring` makes of the arguments. -/
def redisFormatCommand (args : List Bytes) : Bytes :=
  args.foldl (fun cmd arg => cmd ++ (ascii "$" ++ formatD arg.length ++ [CR, LF] ++ formatS arg ++ [CR, LF]))
    (ascii "*" ++ formatD args.length ++ [CR, LF])

mutual

def redisFormat : Obj → Except LuaError Bytes
  | .str s => .ok (ascii "$" ++ formatD s.length ++ [CR, LF] ++ formatS s ++ [CR, LF])
  | .num x =>
    match x.toInteger with
    | none => .error (.badArgument "format")
    | some i => .ok (ascii ":" ++ formatD i ++ [CR, LF])
  | .bool b => .ok (if b then ascii ":1\r\n" else ascii "$-1\r\n")
  | .status s => .ok (ascii "+" ++ formatS s ++ [CR, LF])
  | .error s => .ok (ascii "-" ++ formatS s ++ [CR, LF])
  | .arr elems => do
    let res ← formatElems elems
    pure (ascii "*" ++ formatD elems.length ++ [CR, LF] ++ res)
  | .other objtype => .error (.message ("redis_format() not support type: " ++ objtype))

/-- The elements, one after the other. -/
def formatElems : List Obj → Except LuaError Bytes
  | [] => .ok []
  | elem :: elems => do
    let s ← redisFormat elem
    let rest ← formatElems elems
    pure (s ++ rest)

end

end ApApps.Nredis

import ApApps.Lib.Scan
import ApApps.Lua.Number

/- redis-parser.c: the readiness check (`redis_parse_ready` and the scanners with a
   `2` in their name), the reply parser (`redis_parse_reply`) and the query builder
   (`redis_build_query`).

   A C pointer `p` into the buffer is the list of the bytes from `p` up to `last`,
   so `p >= last` is `[]` and the position of `p` is the difference of two lengths.
   A `dst_len` is an `Int` with the two codes of the source: -2 (no element) and -1
   (a nil element). The size of a bulk is an `ssize_t`, so what is computed depends on
   the `Target`. -/
namespace ApApps.Redis
open Incremental

/-! ## Shared by both parsers -/

/-- The scan of `parse_single_line_reply` over the bytes from `p` on: `n` is
`p - src`, the result is `dst_len`. -/
def singleLine : Bool → Nat → Bytes → Int
  | _, _, [] => -2
  | seen_cr, n, c :: p =>
    if c = CR then singleLine true (n + 1) p
    else if seen_cr ∧ c = LF then n - 1
    else singleLine false (n + 1) p

/-- The length of the line at `src` without its CR LF, -2 if there is no CR LF. -/
def parseSingleLineReply (src : Bytes) : Int := singleLine false 0 src

/-- Whether the element at `p` is a single line: `case '+': case '-': case ':':`. -/
def isLineMark (c : UInt8) : Bool := c = ch '+' || c = ch '-' || c = ch ':'

/-! ## The readiness check -/

/-- `while (*p != '\r') { n *= 10; n += *p - '0'; p++; }` of a header, with the
arithmetic of the C type `wrap`; what is left starts after the CR. -/
def lengthLoop (wrap : Int → Int) : Int → Bytes → Scan (Int × Bytes)
  | _, [] => .incomplete
  | n, c :: p =>
    if c = CR then .done (n, p)
    else if isDigit c = false then .invalid
    else lengthLoop wrap (wrap (wrap (n * 10) + digitVal c)) p

/-- `if (p >= last) return 1; if (*p++ != '\n') return -1;` -/
def expectLF : Bytes → Scan (Unit × Bytes)
  | [] => .incomplete
  | c :: p => if c = LF then .done ((), p) else .invalid

/-- The two bytes at `p` are CR LF. -/
def atCRLF : Bytes → Bool
  | c :: c' :: _ => c = CR && c' = LF
  | _ => false

/-- `last - p < size + sizeof("\r\n") - 1`, compared as `size_t`: a size below -2
counts as more than any buffer holds. -/
def tooShort (p : Bytes) (size : Int) : Bool := size + 2 < 0 || p.length < size + 2

/-- The data of a bulk of `size` bytes: `dst_len` and `dst`. The two bytes before
`p` are the CR LF of the header, so `p += size` with a `size` that wrapped to -1 or
-2 steps back onto them. -/
def bulkData (size : Int) (p : Bytes) : Scan (Int × Bytes) :=
  if tooShort p size then .incomplete
  else if atCRLF (([CR, LF] ++ p).drop (size + 2).toNat) then .done (size, p)
  else .invalid

def parseBulkReply2 [Target] : Bytes → Scan (Int × Bytes)
  | [] => .incomplete
  | c :: src =>
    if c = ch '-' then .invalid
    else (lengthLoop cSsize 0 (c :: src)).bind fun (size, p) =>
      (expectLF p).bind fun (_, p) => bulkData size p

/-- `p = dst + n`. Where that is past `last` the source returns "not yet" by the
next `p >= last` or, after the last element, by `p > last`. -/
def advance (n : Nat) (dst : Bytes) : Scan (Unit × Bytes) :=
  if dst.length < n then .incomplete else .done ((), dst.drop n)

/-- The end of one turn of the element loop of `parse_multi_bulk_reply2`. -/
def finishElement (dst_len : Int) (dst : Bytes) : Scan (Unit × Bytes) :=
  if dst_len = -2 then .incomplete
  else if dst_len = -1 then advance 2 dst
  else advance (dst_len + 2).toNat dst

/-- One turn of the element loop of `parse_multi_bulk_reply2`. -/
def readyElement [Target] : Bytes → Scan (Unit × Bytes)
  | [] => .incomplete
  | c :: src =>
    if isLineMark c then finishElement (parseSingleLineReply src) src
    else if c = ch '$' then (parseBulkReply2 src).bind fun (dst_len, dst) => finishElement dst_len dst
    else .invalid

/-- `for (i = 1; i <= count; i++)` of `parse_multi_bulk_reply2`. -/
def readyLoop [Target] : Nat → Bytes → Scan (Unit × Bytes)
  | 0, p => .done ((), p)
  | n + 1, p => (readyElement p).bind fun (_, p) => readyLoop n p

/-- The body of a frame whose header gave `count`. -/
def readyBody [Target] (count : Int) (p : Bytes) : Scan (Unit × Bytes) :=
  if count = 0 then .invalid
  else (expectLF p).bind fun (_, p) => readyLoop count.toNat p

def parseMultiBulkReply2 [Target] (src : Bytes) : Scan (Unit × Bytes) :=
  (lengthLoop cInt 0 src).bind fun (count, p) => readyBody count p

/-- `parse_ready(s)`: `done p` is `true, p`, `incomplete` is `nil` alone and
`invalid` is `nil, "invalid string"`. -/
def redisParseReady [Target] : Bytes → Scan Nat
  | [] => .invalid
  | c :: p =>
    if c = ch '*' then
      (parseMultiBulkReply2 p).bind fun (_, q) => .done (p.length + 1 - q.length)
    else .invalid

/-! ## The reply parser -/

/-- A value `parse_reply` gives to Lua. -/
inductive Reply where
  | nil
  | str (s : Bytes)
  | num (n : Flt)
  | arr (elems : List (Option Bytes))
  deriving DecidableEq

def BAD_REPLY : Nat := 0
def STATUS_REPLY : Nat := 1
def ERROR_REPLY : Nat := 2
def INTEGER_REPLY : Nat := 3
def BULK_REPLY : Nat := 4
def MULTI_BULK_REPLY : Nat := 5

/-- `while (*p != '\r') { if not a digit goto invalid; p++; CHECK_EOF }`, up to the CR. -/
def skipDigits : Bytes → Option Bytes
  | [] => none
  | c :: p => if c = CR then some (c :: p) else if isDigit c = false then none else skipDigits p

/-- `parse_bulk_reply` after a `-`: a nil bulk; `dst` is at its CR. -/
def nilBulk (src : Bytes) : Option (Int × Bytes) :=
  match skipDigits src with
  | none => none
  | some p => if tooShort p 0 then none else if atCRLF p then some (-1, p) else none

/-- `parse_bulk_reply` from the size on; every `goto invalid` is `none`. -/
def bulk [Target] (src : Bytes) : Option (Int × Bytes) :=
  match lengthLoop cSsize 0 src with
  | .done (size, c :: p) =>
    if c = LF then
      if tooShort p size then none
      else if atCRLF (([CR, LF] ++ p).drop (size + 2).toNat) then some (size, p)
      else none
    else none
  | _ => none

/-- `dst_len` and `dst`; `invalid:` gives -2 and NULL. -/
def parseBulkReply [Target] : Bytes → Int × Bytes
  | [] => (-2, [])
  | c :: src => ((if c = ch '-' then nilBulk src else bulk (c :: src))).getD (-2, [])

/-- `while (*p != '\r') { p++; CHECK_EOF }`, past the CR. -/
def skipToCR : Bytes → Option Bytes
  | [] => none
  | c :: p => if c = CR then some p else skipToCR p

/-- The count loop of `parse_multi_bulk_reply`: a `-` anywhere in it means nil. -/
def countLoop : Int → Bytes → Option (Int × Bytes)
  | _, [] => none
  | count, c :: p =>
    if c = CR then some (count, p)
    else if c = ch '-' then
      match p with
      | [] => none
      | d :: q => if isDigit d = false then none else (skipToCR (d :: q)).map fun r => (-1, r)
    else if isDigit c = false then none
    else countLoop (cInt (cInt (count * 10) + digitVal c)) p

/-- One turn of the element loop of `parse_multi_bulk_reply`: the value it stores
and the pointer after it. -/
def replyElement [Target] : Bytes → Option (Option Bytes × Bytes)
  | [] => none
  | c :: src =>
    let elem : Option (Int × Bytes) :=
      if isLineMark c then some (parseSingleLineReply src, src)
      else if c = ch '$' then some (parseBulkReply src)
      else none
    match elem with
    | none => none
    | some (dst_len, dst) =>
      if dst_len = -2 then none
      else if dst_len = -1 then some (none, dst.drop 2)
      else some (some (dst.take dst_len.toNat), dst.drop (dst_len + 2).toNat)

/-- `for (i = 1; i <= count; i++)` of `parse_multi_bulk_reply`. -/
def replyLoop [Target] : Nat → Bytes → Option (List (Option Bytes) × Bytes)
  | 0, p => some ([], p)
  | n + 1, p =>
    match replyElement p with
    | none => none
    | some (e, p) => (replyLoop n p).map fun (es, q) => (e :: es, q)

/-- The value pushed and the new `*src`; `none` is PARSE_ERROR. -/
def parseMultiBulkReply [Target] (src : Bytes) : Option (Reply × Bytes) :=
  match countLoop 0 src with
  | some (count, c :: p) =>
    if c = LF then
      if count = -1 then some (.nil, p)
      else (replyLoop count.toNat p).map fun (es, q) => (.arr es, q)
    else none
  | _ => none

/-- The cases `+`, `-` and `:` of `parse_reply_helper`: `bad` is the text of the
failure and `value` what the line becomes. -/
def lineReply (s src : Bytes) (bad : Bytes) (value : Bytes → Reply) (typ : Nat) :
    Reply × Nat × Bytes :=
  let dst_len := parseSingleLineReply src
  if dst_len = -2 then (.str bad, BAD_REPLY, s)
  else (value (src.take dst_len.toNat), typ, s.drop (dst_len.toNat + 3))

/-- `lua_tonumber` of a string: 0 if it is no numeral. -/
def luaToNumber (s : Bytes) : Flt := ((tonumber s).map LuaNum.toFlt).getD (.fin 0)

/-- The value, its type code and the new `*src`. -/
def parseReplyHelper [Target] : Bytes → Reply × Nat × Bytes
  | [] => (.str (ascii "empty reply"), BAD_REPLY, [])
  | c :: p =>
    let s := c :: p
    if c = ch '+' then lineReply s p (ascii "bad status reply") .str STATUS_REPLY
    else if c = ch '-' then lineReply s p (ascii "bad error reply") .str ERROR_REPLY
    else if c = ch ':' then
      lineReply s p (ascii "bad integer reply") (fun l => .num (luaToNumber l)) INTEGER_REPLY
    else if c = ch '$' then
      let (dst_len, dst) := parseBulkReply p
      if dst_len = -2 then (.str (ascii "bad bulk reply"), BAD_REPLY, s)
      else if dst_len = -1 then (.nil, BULK_REPLY, dst.drop 2)
      else (.str (dst.take dst_len.toNat), BULK_REPLY, dst.drop (dst_len + 2).toNat)
    else if c = ch '*' then
      match parseMultiBulkReply p with
      | none => (.str (ascii "bad multi bulk reply"), BAD_REPLY, s)
      | some (v, q) => (v, MULTI_BULK_REPLY, q)
    else (.str (ascii "invalid reply"), BAD_REPLY, s)

/-- `parse_reply(s)`: the value and its type code. -/
def redisParseReply [Target] (s : Bytes) : Reply × Nat :=
  let (v, typ, _) := parseReplyHelper s
  (v, typ)

end ApApps.Redis

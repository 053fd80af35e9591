import ApApps.Cjson.Encode

/- lua_cjson.c, the decoder, with the settings of `json_create_config` (at most 1000
   nested tables, invalid numbers accepted).

   `json->ptr` is the list of the bytes that are still to be read; reading at its end
   gives NUL, the terminator of a Lua string. The loops of the source take a fuel: one
   more than the length of the text is enough, since every pass reads a byte of it. Of
   an error only the fact is kept, not the message. -/
namespace ApApps.Cjson

/-- `json_token_type_t` with the value of the token. -/
inductive Token where
  | objBegin
  | objEnd
  | arrBegin
  | arrEnd
  | str (s : Bytes)
  | num (x : Flt)
  | bool (b : Bool)
  | null
  | colon
  | comma
  | eof
  | error
  deriving DecidableEq

/-- `hexdigit2int`; a letter is forced to lower case. -/
def hexdigit2int (c : UInt8) : Option Nat :=
  if isDigit c then some (c.toNat - 48)
  else
    let c := c ||| 0x20
    if 97 ≤ c ∧ c ≤ 102 then some (c.toNat - 87) else none

/-- `decode_hex4` on the characters at the front. -/
def decodeHex4 : Bytes → Option Nat
  | a :: b :: c :: d :: _ => do
    let a ← hexdigit2int a
    let b ← hexdigit2int b
    let c ← hexdigit2int c
    let d ← hexdigit2int d
    return a <<< 12 + b <<< 8 + c <<< 4 + d
  | _ => none

/-- `codepoint_to_utf8`, for the code points two UTF-16 units can give. -/
def codepointToUtf8 (cp : Nat) : Bytes :=
  if cp ≤ 0x7F then [cp.toUInt8]
  else if cp ≤ 0x7FF then [(cp >>> 6 ||| 0xC0).toUInt8, (cp &&& 0x3F ||| 0x80).toUInt8]
  else if cp ≤ 0xFFFF then
    [(cp >>> 12 ||| 0xE0).toUInt8, (cp >>> 6 &&& 0x3F ||| 0x80).toUInt8, (cp &&& 0x3F ||| 0x80).toUInt8]
  else
    [(cp >>> 18 ||| 0xF0).toUInt8, (cp >>> 12 &&& 0x3F ||| 0x80).toUInt8,
      (cp >>> 6 &&& 0x3F ||| 0x80).toUInt8, (cp &&& 0x3F ||| 0x80).toUInt8]

/-- The low half of a surrogate pair: `\u` and its four digits. -/
def lowSurrogate : Bytes → Option (Nat × Bytes)
  | b :: u :: s =>
    if b = ch '\\' ∧ u = ch 'u' then
      match decodeHex4 s with
      | some lo => if lo &&& 0xFC00 = 0xDC00 then some (lo, s.drop 4) else none
      | none => none
    else none
  | _ => none

/-- `json_append_unicode_escape`, after the `\u`: the bytes it appends and what follows. -/
def jsonAppendUnicodeEscape (s : Bytes) : Option (Bytes × Bytes) :=
  match decodeHex4 s with
  | none => none
  | some cp =>
    if cp &&& 0xF800 = 0xD800 then
      if cp &&& 0x400 ≠ 0 then none
      else match lowSurrogate (s.drop 4) with
        | some (lo, rest) =>
          some (codepointToUtf8 (((cp &&& 0x3FF) <<< 10 ||| lo &&& 0x3FF) + 0x10000), rest)
        | none => none
    else some (codepointToUtf8 cp, s.drop 4)

/-- `escape2char`, the escapes of one character. -/
def escape2char (c : UInt8) : Option UInt8 :=
  if c = ch '"' ∨ c = ch '\\' ∨ c = ch '/' then some c
  else if c = ch 'b' then some 8
  else if c = ch 't' then some TAB
  else if c = ch 'n' then some LF
  else if c = ch 'f' then some 12
  else if c = ch 'r' then some CR
  else none

/-- The loop of `json_next_string_token`, after the opening quote; `tmp` is what it has
appended. The result is the string and what follows the closing quote. -/
def stringLoop : Nat → Bytes → Bytes → Option (Bytes × Bytes)
  | 0, _, _ => none
  | _ + 1, _, [] => none
  | fuel + 1, tmp, c :: s =>
    if c = ch '"' then some (tmp, s)
    else if c = NUL then none
    else if c = ch '\\' then
      match s with
      | [] => none
      | e :: s =>
        if e = ch 'u' then
          match jsonAppendUnicodeEscape s with
          | some (utf8, s) => stringLoop fuel (tmp ++ utf8) s
          | none => none
        else match escape2char e with
          | some c => stringLoop fuel (tmp ++ [c]) s
          | none => none
    else stringLoop fuel (tmp ++ [c]) s

def jsonNextStringToken (s : Bytes) : Token × Bytes :=
  match stringLoop (s.length + 1) [] s with
  | some (v, rest) => (.str v, rest)
  | none => (.error, s)

/-- `T_WHITESPACE`. -/
def isWhitespace (c : UInt8) : Bool := c = 32 || c = TAB || c = LF || c = CR

/-- `!strncasecmp(p, word, 3)` for a word in lower case. -/
def startsWithNoCase (word s : Bytes) : Bool := (s.take 3).map (· ||| 0x20) = word

/-- `json_is_invalid_number`. -/
def jsonIsInvalidNumber (s : Bytes) : Bool :=
  match s with
  | [] => false
  | c :: t =>
    if c = ch '+' then true
    else
      let p := if c = ch '-' then t else c :: t
      match p with
      | [] => false
      | d :: q =>
        if d = ch '0' then
          match q with
          | [] => false
          | e :: _ => e ||| 0x20 = ch 'x' || isDigit e
        else if d ≤ ch '9' then false
        else startsWithNoCase (ascii "inf") p || startsWithNoCase (ascii "nan") p

def jsonNextNumberToken (fp : FpConv) (s : Bytes) : Token × Bytes :=
  match fp.strtod s with
  | some (x, rest) => (.num x, rest)
  | none => (.error, s)

/-- The end of `json_next_token`: the characters that start a longer token. -/
def longToken (fp : FpConv) (c : UInt8) (s : Bytes) : Token × Bytes :=
  if c = ch '"' then jsonNextStringToken s
  else if c = ch '-' ∨ isDigit c then jsonNextNumberToken fp (c :: s)
  else if ascii "true" <+: c :: s then (.bool true, s.drop 3)
  else if ascii "false" <+: c :: s then (.bool false, s.drop 4)
  else if ascii "null" <+: c :: s then (.null, s.drop 3)
  else if jsonIsInvalidNumber (c :: s) then jsonNextNumberToken fp (c :: s)
  else (.error, c :: s)

/-- `ch2token`, for the characters that are a token of their own. -/
def ch2token (c : UInt8) : Option Token :=
  if c = ch '\x7b' then some .objBegin
  else if c = ch '\x7d' then some .objEnd
  else if c = ch '[' then some .arrBegin
  else if c = ch ']' then some .arrEnd
  else if c = ch ',' then some .comma
  else if c = ch ':' then some .colon
  else none

/-- `json_next_token`: the next token and what follows it. -/
def jsonNextToken (fp : FpConv) : Bytes → Token × Bytes
  | [] => (.eof, [])
  | c :: s =>
    if isWhitespace c then jsonNextToken fp s
    else if c = NUL then (.eof, c :: s)
    else match ch2token c with
      | some token => (token, s)
      | none => longToken fp c s

def decodeMaxDepth : Nat := 1000

/-- `lua_rawset` with a string key. -/
def rawset (fields : List (Bytes × Val)) (k : Bytes) (v : Val) : List (Bytes × Val) :=
  fields.filter (fun kv => kv.1 ≠ k) ++ [(k, v)]

mutual

/-- `json_process_value`. -/
def jsonProcessValue (fp : FpConv) : Nat → Nat → Token → Bytes → Option (Val × Bytes)
  | 0, _, _, _ => none
  | fuel + 1, depth, token, s =>
    match token with
    | .str v => some (.str v, s)
    | .num x => some (.num x, s)
    | .bool b => some (.bool b, s)
    | .null => some (.null, s)
    | .objBegin =>
      if decodeMaxDepth < depth + 1 then none
      else
        match jsonNextToken fp s with
        | (.objEnd, s) => some (.obj [], s)
        | (token, s) => jsonParseObject fp fuel (depth + 1) [] token s
    | .arrBegin =>
      if decodeMaxDepth < depth + 1 then none
      else
        match jsonNextToken fp s with
        | (.arrEnd, s) => some (.arr [], s)
        | (token, s) => jsonParseArray fp fuel (depth + 1) [] token s
    | _ => none

/-- The loop of `json_parse_object_context`. -/
def jsonParseObject (fp : FpConv) : Nat → Nat → List (Bytes × Val) → Token → Bytes → Option (Val × Bytes)
  | 0, _, _, _, _ => none
  | fuel + 1, depth, fields, token, s =>
    match token with
    | .str k =>
      match jsonNextToken fp s with
      | (.colon, s) =>
        let (token, s) := jsonNextToken fp s
        match jsonProcessValue fp fuel depth token s with
        | some (v, s) =>
          match jsonNextToken fp s with
          | (.objEnd, s) => some (.obj (rawset fields k v), s)
          | (.comma, s) =>
            let (token, s) := jsonNextToken fp s
            jsonParseObject fp fuel depth (rawset fields k v) token s
          | _ => none
        | none => none
      | _ => none
    | _ => none

/-- The loop of `json_parse_array_context`. -/
def jsonParseArray (fp : FpConv) : Nat → Nat → List Val → Token → Bytes → Option (Val × Bytes)
  | 0, _, _, _, _ => none
  | fuel + 1, depth, items, token, s =>
    match jsonProcessValue fp fuel depth token s with
    | some (v, s) =>
      match jsonNextToken fp s with
      | (.arrEnd, s) => some (.arr (items ++ [v]), s)
      | (.comma, s) =>
        let (token, s) := jsonNextToken fp s
        jsonParseArray fp fuel depth (items ++ [v]) token s
      | _ => none
    | none => none

end

/-- `js.decode` of a string. -/
def decode (fp : FpConv) (s : Bytes) : Option Val :=
  -- UTF-16 or UTF-32
  if 2 ≤ s.length ∧ (s[0]? = some NUL ∨ s[1]? = some NUL) then none
  else
    let (token, rest) := jsonNextToken fp s
    match jsonProcessValue fp (s.length + 1) 0 token rest with
    | some (v, rest) =>
      match jsonNextToken fp rest with
      | (.eof, _) => some v
      | _ => none
    | none => none

end ApApps.Cjson

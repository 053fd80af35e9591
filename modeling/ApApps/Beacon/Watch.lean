import ApApps.Cjson.Encode

/- The beacon program (content.lua, main.lua): which access point announces the
   controller on the local network.

   A listening round of `watch` is the list of what `client:receive()` returned in it;
   a call that times out returns nothing. A Lua string is compared byte by byte, as
   `strcoll` does in the C locale.

   Left out: how `kvmap` is read from the state file, which does not change here, and
   the watch over the broadcast address, which ends the program. -/
namespace ApApps.Beacon
open ApApps.Cjson

/-! ## content.lua -/

/-- An object of `content.new`. -/
structure Content where
  kvmap : Bytes → Option Val
  currentIp : Option Bytes

/-- `ext_fields`. -/
def extFields : List Bytes := [ascii "apid", ascii "achost", ascii "acport", ascii "connecting"]

/-- `isconnect`. -/
def Content.isconnect (ins : Content) : Bool := truthy (ins.kvmap (ascii "connecting"))

/-- The loop of `get_content`: the pairs it inserts, or nothing if a field is missing. -/
def Content.fields (ins : Content) : List Bytes → Option (List Val)
  | [] => some []
  | field :: rest =>
    match ins.kvmap field with
    | none => none
    | some v =>
      if !truthy (some v) then none
      else if field = ascii "connecting" then ins.fields rest
      else (ins.fields rest).map (fun arr => .arr [.str field, v] :: arr)

/-- `get_content`. -/
def Content.getContent (fp : FpConv) (ins : Content) : Option Bytes :=
  match ins.currentIp with
  | none => none
  | some ip =>
    match ins.fields extFields with
    | none => none
    | some arr => encode fp (.arr (arr ++ [.arr [.str (ascii "mqttip"), .str ip]]))

/-! ## main.lua -/

/-- The variables of the program; `saved` is what was given to `save_broadcast`. -/
structure Ap where
  ins : Content
  enableBroadcast : Bool
  saved : List Bytes

/-- What one pass of the loop of `beacon` sends. -/
def beacon (fp : FpConv) (ap : Ap) : Option Bytes :=
  if ap.ins.isconnect && ap.enableBroadcast then ap.ins.getContent fp else none

/-- `broad_map`: the distinct messages of a round and their number. -/
structure BroadMap where
  count : Nat
  map : List Bytes

/-- One pass of the listening loop. -/
def BroadMap.receive (broad : BroadMap) : Option Bytes → BroadMap
  | some s => if s ∈ broad.map then broad else ⟨broad.count + 1, s :: broad.map⟩
  | none => broad

def listen (received : List (Option Bytes)) : BroadMap := received.foldl BroadMap.receive ⟨0, []⟩

/-- The order of Lua strings. -/
def strKey (s : Bytes) : List Nat := s.map UInt8.toNat

/-- `table.sort`. -/
def sortStrings (arr : List Bytes) : List Bytes := arr.insertionSort fun a b => strKey a ≤ strKey b

/-- One listening round of `watch`; `pairs` is the order in which the messages are listed. -/
def watch (fp : FpConv) (pairs : List Bytes → List Bytes) (received : List (Option Bytes)) (ap : Ap) : Ap :=
  let broad := listen received
  if broad.count = 0 then { ap with enableBroadcast := true }
  else
    let arr := sortStrings (pairs broad.map)
    { ap with
      enableBroadcast := arr.head? = ap.ins.getContent fp
      saved := if broad.count = 1 then ap.saved ++ arr.head?.toList else ap.saved }

end ApApps.Beacon

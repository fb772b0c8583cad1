/-
Zesterm.Proto.Msgpack — MessagePack in the browser: `msgpack.ts` and
`msgpack-encode.ts`.

A value is what the wire's types hold: an integer is a `number` or a
`bigint`, an object its entries in their order. Floats and `undefined` are
left out, and so are the texts of the errors and the growth of the buffer.
The reader calls itself for what stands inside an array or a map; it may do
so once for each byte of its input, which is more often than it needs to.
-/
import Zesterm.Core.Text
import Zesterm.Lib.Reading

namespace Zesterm

namespace Msgpack

open Coding

inductive Value where
  | null
  | bool (b : Bool)
  | number (n : Int)
  | bigint (n : Int)
  | str (s : Str)
  | bytes (bytes : List UInt8)
  | array (items : List Value)
  | map (entries : List (Str × Value))

/-! ## Encoding -/

/-- `#int`: the narrowest form that fits. -/
def int (n : Int) : Option (List UInt8) :=
  if 0 ≤ n then
    if n ≤ 0x7f then some (bigEndian 1 n.toNat)
    else if n ≤ 0xff then some (0xcc :: bigEndian 1 n.toNat)
    else if n ≤ 0xffff then some (0xcd :: bigEndian 2 n.toNat)
    else if n ≤ 0xffffffff then some (0xce :: bigEndian 4 n.toNat)
    else if n ≤ 0xffffffffffffffff then some (0xcf :: bigEndian 8 n.toNat)
    else none
  else if -0x20 ≤ n then some (bigEndian 1 (n % 2 ^ 8).toNat)
  else if -0x80 ≤ n then some (0xd0 :: bigEndian 1 (n % 2 ^ 8).toNat)
  else if -0x8000 ≤ n then some (0xd1 :: bigEndian 2 (n % 2 ^ 16).toNat)
  else if -0x80000000 ≤ n then some (0xd2 :: bigEndian 4 (n % 2 ^ 32).toNat)
  else if -0x8000000000000000 ≤ n then some (0xd3 :: bigEndian 8 (n % 2 ^ 64).toNat)
  else none

def str (s : Str) : List UInt8 :=
  let bytes := toUtf8 s
  let header :=
    if bytes.length ≤ 31 then bigEndian 1 (0xa0 ||| bytes.length)
    else if bytes.length ≤ 0xff then 0xd9 :: bigEndian 1 bytes.length
    else if bytes.length ≤ 0xffff then 0xda :: bigEndian 2 bytes.length
    else 0xdb :: bigEndian 4 bytes.length
  header ++ bytes

def arrayHeader (len : Nat) : List UInt8 :=
  if len ≤ 15 then bigEndian 1 (0x90 ||| len)
  else if len ≤ 0xffff then 0xdc :: bigEndian 2 len
  else 0xdd :: bigEndian 4 len

def mapHeader (len : Nat) : List UInt8 :=
  if len ≤ 15 then bigEndian 1 (0x80 ||| len)
  else if len ≤ 0xffff then 0xde :: bigEndian 2 len
  else 0xdf :: bigEndian 4 len

/-- The bytes of a byte array, as integers. -/
def byteItems : List UInt8 → Option (List UInt8)
  | [] => some []
  | b :: bs => do return (← int b.toNat) ++ (← byteItems bs)

mutual

/-- Encode one value. -/
def encode : Value → Option (List UInt8)
  | .null => some [0xc0]
  | .bool b => some [if b then 0xc3 else 0xc2]
  | .number n => int n
  | .bigint n => int n
  | .str s => some (str s)
  | .bytes bytes => (byteItems bytes).map (arrayHeader bytes.length ++ ·)
  | .array items => (encodeItems items).map (arrayHeader items.length ++ ·)
  | .map entries => (encodeEntries entries).map (mapHeader entries.length ++ ·)

def encodeItems : List Value → Option (List UInt8)
  | [] => some []
  | v :: vs => do return (← encode v) ++ (← encodeItems vs)

def encodeEntries : List (Str × Value) → Option (List UInt8)
  | [] => some []
  | (key, v) :: es => do return str key ++ (← encode v) ++ (← encodeEntries es)

end

/-! ## Decoding -/

/-- `#i8` and its like: two's complement of `k` bytes. -/
def signed (k : Nat) : Reader UInt8 Int := do
  let n ← number k
  return if n < 2 ^ (8 * k - 1) then (n : Int) else (n : Int) - 2 ^ (8 * k)

/-- A `number` where that is lossless, a `bigint` where it is not. -/
def safe (n : Int) : Value :=
  if -(2 ^ 53 - 1) ≤ n ∧ n ≤ 2 ^ 53 - 1 then .number n else .bigint n

/-- What `TextDecoder` takes a byte order mark for. -/
def bom : Char := '\uFEFF'

/-- A text decoder drops a byte order mark that begins the text. -/
def dropBom : Str → Str
  | [] => []
  | c :: s => if c = bom then s else c :: s

/-- `#str`: malformed UTF-8 is refused. -/
def text (len : Nat) : Reader UInt8 Str :=
  narrow (take len) fun bytes => (fromUtf8 bytes).map dropBom

def readItems (value : Reader UInt8 Value) : (len : Nat) → Reader UInt8 (List Value)
  | 0 => pure []
  | len + 1 => do
    let item ← value
    return item :: (← readItems value len)

local instance : LawfulBEq Str := inferInstance

/-- `out[key] = item` on a plain object, which keeps no own `__proto__`. -/
def assign (out : List (Str × Value)) (key : Str) (item : Value) : List (Str × Value) :=
  if key = "__proto__".toList then out
  else if key ∈ out.map Prod.fst then out.map fun e => if e.1 = key then (key, item) else e
  else out ++ [(key, item)]

/-- A key has to be a string. -/
def keyOf : Value → Option Str
  | .str key => some key
  | _ => none

def readEntries (value : Reader UInt8 Value) :
    (len : Nat) → List (Str × Value) → Reader UInt8 (List (Str × Value))
  | 0, out => pure out
  | len + 1, out => do
    let key ← narrow value keyOf
    let item ← value
    readEntries value len (assign out key item)

/-- What follows a type byte. -/
def body (value : Reader UInt8 Value) (b : Nat) : Reader UInt8 Value :=
  let readArray (len : Nat) : Reader UInt8 Value := do return .array (← readItems value len)
  let readMap (len : Nat) : Reader UInt8 Value := do return .map (← readEntries value len [])
  if b ≤ 0x7f then pure (.number b)
  else if 0xe0 ≤ b then pure (.number (b - 0x100))
  else if b ≤ 0x8f then readMap (b &&& 0x0f)
  else if b ≤ 0x9f then readArray (b &&& 0x0f)
  else if b ≤ 0xbf then do return .str (← text (b &&& 0x1f))
  else if b = 0xc0 then pure .null
  else if b = 0xc2 then pure (.bool false)
  else if b = 0xc3 then pure (.bool true)
  else if b = 0xc4 then do return .bytes (← take (← number 1))
  else if b = 0xc5 then do return .bytes (← take (← number 2))
  else if b = 0xc6 then do return .bytes (← take (← number 4))
  else if b = 0xcc then do return .number (← number 1)
  else if b = 0xcd then do return .number (← number 2)
  else if b = 0xce then do return .number (← number 4)
  else if b = 0xcf then do return safe (← number 8)
  else if b = 0xd0 then do return .number (← signed 1)
  else if b = 0xd1 then do return .number (← signed 2)
  else if b = 0xd2 then do return .number (← signed 4)
  else if b = 0xd3 then do return safe (← signed 8)
  else if b = 0xd9 then do return .str (← text (← number 1))
  else if b = 0xda then do return .str (← text (← number 2))
  else if b = 0xdb then do return .str (← text (← number 4))
  else if b = 0xdc then do readArray (← number 2)
  else if b = 0xdd then do readArray (← number 4)
  else if b = 0xde then do readMap (← number 2)
  else if b = 0xdf then do readMap (← number 4)
  else fun _ => none

/-- `Reader.value`. -/
def value : (fuel : Nat) → Reader UInt8 Value
  | 0 => fun _ => none
  | fuel + 1 => do body (value fuel) (← number 1)

/-- Decode exactly one value, and insist it was the whole input. -/
def decode (bytes : List UInt8) : Option Value :=
  match value bytes.length bytes with
  | some (v, []) => some v
  | _ => none

end Msgpack

end Zesterm

import SourceModels.MessagePack.Value

/-! Reading one MessagePack value from the front of a byte string. Reading never fails: it leaves a
torn value where the bytes end too early, where a byte starts no value, and where more arrays, maps
and extensions are open than allowed. -/
namespace SourceModels.MessagePack

inductive Kind where
  | text
  | binary
  | array
  | map
  | extension
  deriving DecidableEq, Repr

inductive Lead where
  | whole (v : Value)
  | unsigned (width : Nat)
  | signed (width : Nat)
  | float (width : Nat)
  | sized (kind : Kind) (size : Nat)
  | counted (kind : Kind) (width : Nat)
  | reserved

def lead (b : UInt8) : Lead :=
  let n := b.toNat
  if n < 0x80 then .whole (.unsigned n)
  else if n < 0x90 then .sized .map (n - 0x80)
  else if n < 0xA0 then .sized .array (n - 0x90)
  else if n < 0xC0 then .sized .text (n - 0xA0)
  else if 0xE0 ≤ n then .whole (.signed (n - 256))
  else match n with
    | 0xC0 => .whole .nil
    | 0xC2 => .whole (.bool false)
    | 0xC3 => .whole (.bool true)
    | 0xC4 => .counted .binary 1
    | 0xC5 => .counted .binary 2
    | 0xC6 => .counted .binary 4
    | 0xC7 => .counted .extension 1
    | 0xC8 => .counted .extension 2
    | 0xC9 => .counted .extension 4
    | 0xCA => .float 4
    | 0xCB => .float 8
    | 0xCC => .unsigned 1
    | 0xCD => .unsigned 2
    | 0xCE => .unsigned 4
    | 0xCF => .unsigned 8
    | 0xD0 => .signed 1
    | 0xD1 => .signed 2
    | 0xD2 => .signed 4
    | 0xD3 => .signed 8
    | 0xD4 => .sized .extension 1
    | 0xD5 => .sized .extension 2
    | 0xD6 => .sized .extension 4
    | 0xD7 => .sized .extension 8
    | 0xD8 => .sized .extension 16
    | 0xD9 => .counted .text 1
    | 0xDA => .counted .text 2
    | 0xDB => .counted .text 4
    | 0xDC => .counted .array 2
    | 0xDD => .counted .array 4
    | 0xDE => .counted .map 2
    | 0xDF => .counted .map 4
    | _ => .reserved

def twosComplement (raw : Bytes) : Int :=
  let n := Bytes.ofBigEndian raw
  if n < 2 ^ (8 * raw.length - 1) then n else n - 2 ^ (8 * raw.length)

def readRaw (n : Nat) (make : Bytes → Value) (bytes : Bytes) : Value × Bytes :=
  match Bytes.split? n bytes with
  | some (raw, rest) => (make raw, rest)
  | none => (.torn, [])

def readItems (item : Bytes → Value × Bytes) : (count : Nat) → Bytes → (seen : List Value) →
    List Value × Bytes
  | 0, bytes, seen => (seen.reverse, bytes)
  | count + 1, bytes, seen =>
    match item bytes with
    | (.torn, rest) => ((Value.torn :: seen).reverse, rest)
    | (v, rest) => readItems item count rest (v :: seen)

def readSized (item : Option (Bytes → Value × Bytes)) (kind : Kind) (size : Nat) (bytes : Bytes) :
    Value × Bytes :=
  match kind, item with
  | .text, _ => readRaw size .text bytes
  | .binary, _ => readRaw size .binary bytes
  | _, none => (.torn, [])
  | .array, some item =>
    let (items, rest) := readItems item size bytes []
    (.array items, rest)
  | .map, some item =>
    let (flat, rest) := readItems item (2 * size) bytes []
    (.map flat, rest)
  | .extension, some _ =>
    match bytes with
    | [] => (.torn, [])
    | b :: rest => readRaw size (.extension b) rest

def readWith (item : Option (Bytes → Value × Bytes)) : Bytes → Value × Bytes
  | [] => (.torn, [])
  | b :: rest =>
    match lead b with
    | .whole v => (v, rest)
    | .unsigned width => readRaw width (fun raw => .unsigned (Bytes.ofBigEndian raw)) rest
    | .signed width => readRaw width (fun raw => .signed (twosComplement raw)) rest
    | .float width => readRaw width .float rest
    | .sized kind size => readSized item kind size rest
    | .counted kind width =>
      match Bytes.split? width rest with
      | some (raw, rest) => readSized item kind (Bytes.ofBigEndian raw) rest
      | none => (.torn, [])
    | .reserved => (.torn, [])

def readWithin : (depth : Nat) → Bytes → Value × Bytes
  | 0 => readWith none
  | depth + 1 => readWith (some (readWithin depth))

def maxOpen : Nat := 1023

def read (bytes : Bytes) : Value := (readWithin maxOpen bytes).1

end SourceModels.MessagePack

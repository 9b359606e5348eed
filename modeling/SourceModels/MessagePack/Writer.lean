import SourceModels.MessagePack.Value

/-! Writing MessagePack: every number, length and count in its shortest form. Lengths and counts are
kept in 32 bits, so a larger one is written modulo 2^32. -/
namespace SourceModels.MessagePack

def lengthBound : Nat := 2 ^ 32

def marked (lead : UInt8) (width n : Nat) : Bytes := lead :: Bytes.bigEndian width n

def writeUnsigned (n : Nat) : Bytes :=
  if n < 128 then [UInt8.ofNat n]
  else if n < 2 ^ 8 then marked 0xCC 1 n
  else if n < 2 ^ 16 then marked 0xCD 2 n
  else if n < 2 ^ 32 then marked 0xCE 4 n
  else marked 0xCF 8 n

def writeSigned (i : Int) : Bytes :=
  if -32 ≤ i ∧ i < 0 then [UInt8.ofNat (i + 256).toNat]
  else if -128 ≤ i ∧ i < 128 then marked 0xD0 1 (i % 2 ^ 8).toNat
  else if -32768 ≤ i ∧ i < 32768 then marked 0xD1 2 (i % 2 ^ 16).toNat
  else if -2147483648 ≤ i ∧ i < 2147483648 then marked 0xD2 4 (i % 2 ^ 32).toNat
  else marked 0xD3 8 (i % 2 ^ 64).toNat

def textHeader (length : Nat) : Bytes :=
  let n := length % lengthBound
  if n < 32 then [UInt8.ofNat (0xA0 + n)]
  else if n < 2 ^ 8 then marked 0xD9 1 n
  else if n < 2 ^ 16 then marked 0xDA 2 n
  else marked 0xDB 4 n

def binaryHeader (length : Nat) : Bytes :=
  let n := length % lengthBound
  if n < 2 ^ 8 then marked 0xC4 1 n
  else if n < 2 ^ 16 then marked 0xC5 2 n
  else marked 0xC6 4 n

def arrayHeader (count : Nat) : Bytes :=
  let n := count % lengthBound
  if n < 16 then [UInt8.ofNat (0x90 + n)]
  else if n < 2 ^ 16 then marked 0xDC 2 n
  else marked 0xDD 4 n

def mapHeader (count : Nat) : Bytes :=
  let n := count % lengthBound
  if n < 16 then [UInt8.ofNat (0x80 + n)]
  else if n < 2 ^ 16 then marked 0xDE 2 n
  else marked 0xDF 4 n

def extensionHeader (kind : UInt8) (length : Nat) : Bytes :=
  let n := length % lengthBound
  if n = 1 then [0xD4, kind]
  else if n = 2 then [0xD5, kind]
  else if n = 4 then [0xD6, kind]
  else if n = 8 then [0xD7, kind]
  else if n = 16 then [0xD8, kind]
  else if n < 2 ^ 8 then marked 0xC7 1 n ++ [kind]
  else if n < 2 ^ 16 then marked 0xC8 2 n ++ [kind]
  else marked 0xC9 4 n ++ [kind]

namespace Value

mutual

def writeOnto (tail : Bytes) : Value → Bytes
  | .nil => 0xC0 :: tail
  | .bool b => (if b then 0xC3 else 0xC2) :: tail
  | .unsigned n => writeUnsigned n ++ tail
  | .signed i => writeSigned i ++ tail
  | .float raw => (if raw.length = 4 then 0xCA else 0xCB) :: (raw ++ tail)
  | .text raw => textHeader raw.length ++ (raw ++ tail)
  | .binary raw => binaryHeader raw.length ++ (raw ++ tail)
  | .array items => arrayHeader items.length ++ writeAllOnto tail items
  | .map flat => mapHeader (flat.length / 2) ++ writeAllOnto tail flat
  | .extension kind raw => extensionHeader kind raw.length ++ (raw ++ tail)
  | .torn => 0xC1 :: tail

def writeAllOnto (tail : Bytes) : List Value → Bytes
  | [] => tail
  | v :: rest => writeOnto (writeAllOnto tail rest) v

end

def write (v : Value) : Bytes := v.writeOnto []

def writeAll (values : List Value) : Bytes := writeAllOnto [] values

mutual

theorem writeOntoAppend (tail : Bytes) : (v : Value) → v.writeOnto tail = v.write ++ tail
  | .nil => rfl
  | .bool _ => rfl
  | .unsigned _ => by simp [write, writeOnto]
  | .signed _ => by simp [write, writeOnto]
  | .float _ => by simp [write, writeOnto]
  | .text _ => by simp [write, writeOnto]
  | .binary _ => by simp [write, writeOnto]
  | .array items => by
    have all := writeAllOntoAppend tail items
    simp only [write, writeOnto, all, writeAll, List.append_assoc]
  | .map flat => by
    have all := writeAllOntoAppend tail flat
    simp only [write, writeOnto, all, writeAll, List.append_assoc]
  | .extension _ _ => by simp [write, writeOnto]
  | .torn => rfl

theorem writeAllOntoAppend (tail : Bytes) :
    (values : List Value) → writeAllOnto tail values = writeAll values ++ tail
  | [] => rfl
  | v :: rest => by
    have all := writeAllOntoAppend tail rest
    simp only [writeAll, writeAllOnto]
    rw [all, writeOntoAppend, writeOntoAppend (writeAllOnto [] rest) v, writeAll, List.append_assoc]

end

@[simp]
theorem writeAllNil : writeAll [] = [] := rfl

@[simp]
theorem writeAllCons (v : Value) (rest : List Value) :
    writeAll (v :: rest) = v.write ++ writeAll rest := by
  rw [writeAll, writeAllOnto, writeOntoAppend, writeAll]

theorem writeArray (items : List Value) :
    write (.array items) = arrayHeader items.length ++ writeAll items := rfl

theorem writeMap (flat : List Value) :
    write (.map flat) = mapHeader (flat.length / 2) ++ writeAll flat := rfl

end Value

end SourceModels.MessagePack

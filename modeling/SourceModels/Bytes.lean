/-! Byte strings, their hexadecimal spelling and numbers in network order. -/
namespace SourceModels

-- powers are the core library's own, also beside a library that has others
@[default_instance 20000]
instance (priority := 1100) corePower {α : Type} [NatPow α] : Pow α Nat := instPowNat

abbrev Bytes := List UInt8

namespace Bytes

def ofText (text : String) : Bytes := text.toList.flatMap String.utf8EncodeChar

def ofChars (chars : List Char) : Bytes := chars.flatMap String.utf8EncodeChar

def hexDigit (n : Nat) : Char := if n < 10 then Char.ofNat (48 + n) else Char.ofNat (87 + n)

def hexChars (bytes : Bytes) : List Char :=
  bytes.flatMap fun b => [hexDigit (b.toNat / 16), hexDigit (b.toNat % 16)]

def hex (bytes : Bytes) : String := String.ofList (hexChars bytes)

def bigEndian : (width : Nat) → Nat → Bytes
  | 0, _ => []
  | width + 1, n => UInt8.ofNat (n / 256 ^ width) :: bigEndian width n

def ofBigEndian (bytes : Bytes) : Nat := bytes.foldl (fun n b => n * 256 + b.toNat) 0

def split? (n : Nat) (bytes : Bytes) : Option (Bytes × Bytes) :=
  let front := bytes.take n
  if front.length = n then some (front, bytes.drop n) else none

def le : Bytes → Bytes → Bool
  | [], _ => true
  | _ :: _, [] => false
  | a :: as, b :: bs => if a < b then true else if b < a then false else le as bs

end Bytes

def textLe (a b : String) : Bool := Bytes.le (Bytes.ofText a) (Bytes.ofText b)

end SourceModels

import SourceModels.Text.Utf8

/-! JSON documents as they are written: strings keep their escapes and numbers their digits until
someone asks what they say. An object lists its keys and values in turn. -/
namespace SourceModels.Json

inductive Value where
  | null
  | bool (b : Bool)
  | number (text : Bytes)
  | string (raw : Bytes)
  | array (items : List Value)
  | object (flat : List Value)
  deriving Repr, Inhabited

def isDigit (b : UInt8) : Bool := 48 ≤ b && b ≤ 57

def hexDigit? (b : UInt8) : Option Nat :=
  if 48 ≤ b ∧ b ≤ 57 then some (b.toNat - 48)
  else if 97 ≤ b ∧ b ≤ 102 then some (b.toNat - 87)
  else if 65 ≤ b ∧ b ≤ 70 then some (b.toNat - 55)
  else none

def hexFour? (a b c d : UInt8) : Option Nat := do
  some (((← hexDigit? a) * 16 + (← hexDigit? b)) * 256 + (← hexDigit? c) * 16 + (← hexDigit? d))

def escaped? (b : UInt8) : Option UInt8 :=
  match b with
  | 34 => some 34
  | 92 => some 92
  | 47 => some 47
  | 98 => some 8
  | 102 => some 12
  | 110 => some 10
  | 114 => some 13
  | 116 => some 9
  | _ => none

def fromSurrogates (high low : Nat) : Char :=
  Char.ofNat (0x10000 + (high - 0xD800) * 0x400 + (low - 0xDC00))

def unescapeFrom : (seen : Bytes) → Bytes → Option Bytes
  | seen, [] => some seen.reverse
  | seen, 92 :: 117 :: a :: b :: c :: d :: rest =>
    match hexFour? a b c d with
    | none => none
    | some n =>
      if 0xDC00 ≤ n ∧ n ≤ 0xDFFF then none
      else if 0xD800 ≤ n ∧ n ≤ 0xDBFF then
        match rest with
        | 92 :: 117 :: e :: f :: g :: h :: rest =>
          match hexFour? e f g h with
          | none => none
          | some m =>
            if 0xDC00 ≤ m ∧ m ≤ 0xDFFF then
              unescapeFrom ((String.utf8EncodeChar (fromSurrogates n m)).reverse ++ seen) rest
            else none
        | _ => none
      else unescapeFrom ((String.utf8EncodeChar (Char.ofNat n)).reverse ++ seen) rest
  | seen, 92 :: b :: rest =>
    match escaped? b with
    | some c => unescapeFrom (c :: seen) rest
    | none => none
  | _, [92] => none
  | seen, b :: rest => unescapeFrom (b :: seen) rest

namespace Value

def text? : Value → Option String
  | .string raw => (unescapeFrom [] raw).bind Utf8.decode?
  | _ => none

def texts? : Value → Option (List String)
  | .array items => items.mapM text?
  | _ => none

def word? : Value → Option UInt32
  | .number text =>
    if text.all isDigit then
      let n := text.foldl (fun n b => n * 10 + (b.toNat - 48)) 0
      if n < 2 ^ 32 then some (UInt32.ofNat n) else none
    else none
  | _ => none

end Value

end SourceModels.Json

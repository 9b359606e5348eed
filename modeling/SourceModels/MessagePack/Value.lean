import SourceModels.Text.Utf8

/-! MessagePack values. A map lists its keys and values in turn. Where bytes give out, or hold what
no value starts with, reading leaves a torn value in that place. -/
namespace SourceModels.MessagePack

inductive Value where
  | nil
  | bool (b : Bool)
  | unsigned (n : Nat)
  | signed (i : Int)
  | float (raw : Bytes)
  | text (raw : Bytes)
  | binary (raw : Bytes)
  | array (items : List Value)
  | map (flat : List Value)
  | extension (kind : UInt8) (raw : Bytes)
  | torn
  deriving Repr, Inhabited

namespace Value

def ofText (text : String) : Value := .text (Bytes.ofText text)

def ofTexts (texts : List String) : Value := .array (texts.map ofText)

def ofWord (n : UInt32) : Value := .unsigned n.toNat

mutual

def isWhole : Value → Bool
  | .torn => false
  | .array items => allWhole items
  | .map flat => allWhole flat
  | _ => true

def allWhole : List Value → Bool
  | [] => true
  | v :: rest => isWhole v && allWhole rest

end

mutual

/-- How many arrays, maps and extensions are open at most while the value is read. -/
def depth : Value → Nat
  | .array items => maxDepth items + 1
  | .map flat => maxDepth flat + 1
  | .extension _ _ => 1
  | _ => 0

def maxDepth : List Value → Nat
  | [] => 0
  | v :: rest => max (depth v) (maxDepth rest)

end

def text? : Value → Option String
  | .text raw => Utf8.decode? raw
  | .binary raw => Utf8.decode? raw
  | _ => none

def natural? (bound : Nat) : Value → Option Nat
  | .unsigned n => if n < bound then some n else none
  | .signed i => if 0 ≤ i ∧ i.toNat < bound then some i.toNat else none
  | _ => none

def word? (v : Value) : Option UInt32 := (v.natural? (2 ^ 32)).map UInt32.ofNat

def bytes? : Value → Option Bytes
  | .binary raw => some raw
  | .text raw => some raw
  | .array items => items.mapM fun v => (v.natural? 256).map UInt8.ofNat
  | _ => none

def elements? : Value → Option (List Value)
  | .array items => some items
  | .binary raw => some (raw.map fun b => .unsigned b.toNat)
  | _ => none

def texts? (v : Value) : Option (List String) := v.elements?.bind (List.mapM text?)

def words? (v : Value) : Option (List UInt32) := v.elements?.bind (List.mapM word?)

inductive Key where
  | field (index : Nat)
  | other
  | invalid
  deriving DecidableEq, Repr

def key (names : List String) : Value → Key
  | .text raw => named raw
  | .binary raw => named raw
  | .unsigned n => if n < names.length then .field n else .other
  | _ => .invalid
where
  named (raw : Bytes) : Key :=
    match names.findIdx? (fun name => Bytes.ofText name = raw) with
    | some i => .field i
    | none => .other

end Value

end SourceModels.MessagePack

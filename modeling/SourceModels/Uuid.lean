import SourceModels.Bytes

/-! Sixteen-byte identifiers. -/
namespace SourceModels

structure Uuid where
  bytes : Bytes
  length_eq : bytes.length = 16
  deriving DecidableEq, Repr

namespace Uuid

def ofBytes? (bytes : Bytes) : Option Uuid :=
  if h : bytes.length = 16 then some ⟨bytes, h⟩ else none

def zero : Uuid := ⟨List.replicate 16 0, by simp⟩

instance : Inhabited Uuid := ⟨zero⟩

def ofRandom (random : Uuid) : Uuid :=
  ⟨(random.bytes.set 6 (random.bytes.getD 6 0 &&& 0x0F ||| 0x40)).set 8
    (random.bytes.getD 8 0 &&& 0x3F ||| 0x80), by simp [random.length_eq]⟩

def render (uuid : Uuid) : String :=
  let part (start count : Nat) := Bytes.hex ((uuid.bytes.drop start).take count)
  "-".intercalate [part 0 4, part 4 2, part 6 2, part 8 2, part 10 6]

end Uuid

end SourceModels

import SourceModels.MessagePack.Reader
import SourceModels.MessagePack.Writer

/-! Numbers in network order and the headers of sized values, as reading takes them in. -/
namespace SourceModels.Bytes

theorem bigEndianLength (width n : Nat) : (bigEndian width n).length = width := by
  induction width with
  | zero => rfl
  | succ width ih => simp [bigEndian, ih]

theorem bigEndianFold (width n start : Nat) :
    (bigEndian width n).foldl (fun n b => n * 256 + b.toNat) start =
      start * 256 ^ width + n % 256 ^ width := by
  induction width generalizing start with
  | zero => simp [bigEndian, Nat.mod_one]
  | succ width ih =>
    have digit : (UInt8.ofNat (n / 256 ^ width)).toNat = n / 256 ^ width % 256 := by simp
    have parts : n % (256 ^ width * 256) = n % 256 ^ width + 256 ^ width * (n / 256 ^ width % 256) :=
      Nat.mod_mul
    rw [bigEndian, List.foldl_cons, ih, digit, Nat.pow_succ, parts, Nat.add_mul, Nat.mul_assoc,
      Nat.mul_comm 256, Nat.mul_comm (n / 256 ^ width % 256)]
    omega

theorem bigEndianReads {width n : Nat} (bound : n < 256 ^ width) :
    ofBigEndian (bigEndian width n) = n := by
  simp [ofBigEndian, bigEndianFold, Nat.mod_eq_of_lt bound]

theorem splitAppend {n : Nat} {front : Bytes} (size : front.length = n) (tail : Bytes) :
    split? n (front ++ tail) = some (front, tail) := by
  subst size
  simp [split?]

end SourceModels.Bytes

namespace SourceModels.MessagePack

theorem rawRead {n : Nat} {raw : Bytes} (size : raw.length = n) (make : Bytes → Value)
    (tail : Bytes) : readRaw n make (raw ++ tail) = (make raw, tail) := by
  simp [readRaw, Bytes.splitAppend size]

inductive Header : Bytes → Kind → Nat → Prop where
  | sized {b : UInt8} {kind : Kind} {size : Nat} (known : lead b = .sized kind size) :
      Header [b] kind size
  | counted {b : UInt8} {kind : Kind} {width size : Nat} (counts : lead b = .counted kind width)
      (bound : size < 256 ^ width) : Header (marked b width size) kind size

theorem Header.read {header : Bytes} {kind : Kind} {size : Nat} (announced : Header header kind size)
    (item : Option (Bytes → Value × Bytes)) (rest : Bytes) :
    readWith item (header ++ rest) = readSized item kind size rest := by
  cases announced with
  | sized known => simp [readWith, known]
  | @counted b kind width size counts bound =>
    have split := Bytes.splitAppend (Bytes.bigEndianLength width size) rest
    simp only [marked, List.cons_append, readWith, counts, split, Bytes.bigEndianReads bound]

theorem leadSmall {n : Nat} (small : n < 256) : (UInt8.ofNat n).toNat = n := by
  simp [Nat.mod_eq_of_lt small]

theorem textAnnounced {length : Nat} (bound : length < lengthBound) :
    Header (textHeader length) .text length := by
  have same : length % lengthBound = length := Nat.mod_eq_of_lt bound
  simp only [textHeader, same]
  split
  · rename_i small
    apply Header.sized
    have byte := leadSmall (show 0xA0 + length < 256 by omega)
    simp only [lead, byte]
    rw [if_neg (by omega), if_neg (by omega), if_neg (by omega), if_pos (by omega)]
    simp
  split
  · exact .counted rfl (by omega)
  split
  · exact .counted rfl (by omega)
  · exact .counted rfl bound

theorem binaryAnnounced {length : Nat} (bound : length < lengthBound) :
    Header (binaryHeader length) .binary length := by
  have same : length % lengthBound = length := Nat.mod_eq_of_lt bound
  simp only [binaryHeader, same]
  split
  · exact .counted rfl (by omega)
  split
  · exact .counted rfl (by omega)
  · exact .counted rfl bound

theorem arrayAnnounced {count : Nat} (bound : count < lengthBound) :
    Header (arrayHeader count) .array count := by
  have same : count % lengthBound = count := Nat.mod_eq_of_lt bound
  simp only [arrayHeader, same]
  split
  · rename_i small
    apply Header.sized
    have byte := leadSmall (show 0x90 + count < 256 by omega)
    simp only [lead, byte]
    rw [if_neg (by omega), if_neg (by omega), if_pos (by omega)]
    simp
  split
  · exact .counted rfl (by omega)
  · exact .counted rfl bound

theorem mapAnnounced {count : Nat} (bound : count < lengthBound) :
    Header (mapHeader count) .map count := by
  have same : count % lengthBound = count := Nat.mod_eq_of_lt bound
  simp only [mapHeader, same]
  split
  · rename_i small
    apply Header.sized
    have byte := leadSmall (show 0x80 + count < 256 by omega)
    simp only [lead, byte]
    rw [if_neg (by omega), if_pos (by omega)]
    simp
  split
  · exact .counted rfl (by omega)
  · exact .counted rfl bound

theorem extensionAnnounced (kind : UInt8) {length : Nat} (bound : length < lengthBound) :
    ∃ header, extensionHeader kind length = header ++ [kind] ∧ Header header .extension length := by
  have same : length % lengthBound = length := Nat.mod_eq_of_lt bound
  simp only [extensionHeader, same]
  split
  · rename_i one
    exact ⟨[0xD4], rfl, .sized (by rw [one]; rfl)⟩
  split
  · rename_i two
    exact ⟨[0xD5], rfl, .sized (by rw [two]; rfl)⟩
  split
  · rename_i four
    exact ⟨[0xD6], rfl, .sized (by rw [four]; rfl)⟩
  split
  · rename_i eight
    exact ⟨[0xD7], rfl, .sized (by rw [eight]; rfl)⟩
  split
  · rename_i sixteen
    exact ⟨[0xD8], rfl, .sized (by rw [sixteen]; rfl)⟩
  split
  · exact ⟨_, rfl, .counted rfl (by omega)⟩
  split
  · exact ⟨_, rfl, .counted rfl (by omega)⟩
  · exact ⟨_, rfl, .counted rfl bound⟩

end SourceModels.MessagePack

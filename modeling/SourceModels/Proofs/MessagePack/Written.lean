import SourceModels.Proofs.MessagePack.Spelling

/-! Written values: each is spelled in its shortest form, so that reading gives it back. -/
namespace SourceModels.MessagePack

theorem twosComplementReads {width half : Nat} {i : Int} (whole : 2 * half = 256 ^ (width + 1))
    (low : -half ≤ i) (high : i < half) :
    twosComplement (Bytes.bigEndian (width + 1) (i % (2 * half)).toNat) = i := by
  have bits : 2 ^ (8 * (width + 1)) = 2 * half := by rw [Nat.pow_mul, whole]
  have sign : 2 ^ (8 * (width + 1) - 1) = half := by
    have double : 2 ^ (8 * (width + 1)) = 2 ^ (8 * (width + 1) - 1) * 2 := rfl
    omega
  have remainder : i % (2 * half) = if 0 ≤ i then i else i + 2 * half := by
    split
    · exact Int.emod_eq_of_lt (by omega) (by omega)
    · rw [← Int.add_emod_right]
      exact Int.emod_eq_of_lt (by omega) (by omega)
  have reads : Bytes.ofBigEndian (Bytes.bigEndian (width + 1) (i % (2 * half)).toNat) =
      (i % (2 * half)).toNat := by
    apply Bytes.bigEndianReads
    rw [remainder]
    split <;> omega
  have power : ((2 : Int) ^ (8 * (width + 1))) = 2 * half := by exact_mod_cast bits
  simp only [twosComplement, Bytes.bigEndianLength, reads, sign, power]
  rw [remainder]
  split <;> split <;> omega

theorem unsignedSpelled {n : Nat} (bound : n < 2 ^ 64) :
    Spells (.unsigned n) (writeUnsigned n) := by
  simp only [writeUnsigned]
  split
  · rename_i small
    exact .small small
  split
  · exact .unsigned rfl (by omega)
  split
  · exact .unsigned rfl (by omega)
  split
  · exact .unsigned rfl (by omega)
  · exact .unsigned rfl bound

theorem signedWide {b : UInt8} {width half : Nat} {i : Int} (known : lead b = .signed (width + 1))
    (whole : 2 * half = 256 ^ (width + 1)) (low : -half ≤ i) (high : i < half) :
    Spells (.signed i) (marked b (width + 1) (i % (2 * half)).toNat) := by
  have spelled := @Spells.signed b (Bytes.bigEndian (width + 1) (i % (2 * half)).toNat)
    (by rw [Bytes.bigEndianLength, known])
  rwa [twosComplementReads whole low high] at spelled

theorem signedSpelled {i : Int} (low : -2 ^ 63 ≤ i) (high : i < 2 ^ 63) :
    Spells (.signed i) (writeSigned i) := by
  simp only [writeSigned]
  split
  · rename_i small
    exact .negative small
  split
  · exact signedWide rfl (show 2 * 2 ^ 7 = 256 ^ (0 + 1) from rfl) (by omega) (by omega)
  split
  · exact signedWide rfl (show 2 * 2 ^ 15 = 256 ^ (1 + 1) from rfl) (by omega) (by omega)
  split
  · exact signedWide rfl (show 2 * 2 ^ 31 = 256 ^ (3 + 1) from rfl) (by omega) (by omega)
  · exact signedWide rfl (show 2 * 2 ^ 63 = 256 ^ (7 + 1) from rfl) (by omega) (by omega)

namespace Value

mutual

def Fits : Value → Prop
  | .nil => True
  | .bool _ => True
  | .unsigned n => n < 2 ^ 64
  | .signed i => -2 ^ 63 ≤ i ∧ i < 2 ^ 63
  | .float raw => raw.length = 4 ∨ raw.length = 8
  | .text raw => raw.length < lengthBound
  | .binary raw => raw.length < lengthBound
  | .array items => items.length < lengthBound ∧ AllFit items
  | .map flat => flat.length % 2 = 0 ∧ flat.length / 2 < lengthBound ∧ AllFit flat
  | .extension _ raw => raw.length < lengthBound
  | .torn => False

def AllFit : List Value → Prop
  | [] => True
  | v :: rest => Fits v ∧ AllFit rest

end

mutual

theorem Fits.spelled : {v : Value} → v.Fits → Spells v v.write
  | .nil, _ => .nil
  | .bool b, _ => by cases b <;> exact .bool _
  | .unsigned n, fits => by
    have spelled := unsignedSpelled fits
    simpa [write, writeOnto] using spelled
  | .signed i, fits => by
    have spelled := signedSpelled fits.1 fits.2
    simpa [write, writeOnto] using spelled
  | .float raw, fits => by
    simp only [write, writeOnto, List.append_nil]
    apply Spells.float
    rcases fits with four | eight
    · rw [four]
      rfl
    · rw [eight]
      rfl
  | .text raw, fits => by
    simpa [write, writeOnto] using Spells.text (textAnnounced fits)
  | .binary raw, fits => by
    simpa [write, writeOnto] using Spells.binary (binaryAnnounced fits)
  | .array items, fits => by
    rw [writeArray]
    exact .array (arrayAnnounced fits.1) (AllFit.spelled fits.2)
  | .map flat, fits => by
    obtain ⟨even, bound, all⟩ := fits
    rw [writeMap]
    exact .map (mapAnnounced bound) (by omega) (AllFit.spelled all)
  | .extension kind raw, fits => by
    obtain ⟨header, written, announced⟩ := extensionAnnounced kind fits
    simpa [write, writeOnto, written] using Spells.extension announced

theorem AllFit.spelled : {values : List Value} → AllFit values → SpellsAll values (writeAll values)
  | [], _ => .nil
  | v :: rest, fits => by
    rw [writeAllCons]
    exact .cons (Fits.spelled fits.1) (AllFit.spelled fits.2)

end

theorem allFitAll (values : List Value) : AllFit values ↔ ∀ v ∈ values, v.Fits := by
  induction values with
  | nil => simp [AllFit]
  | cons v rest ih => simp [AllFit, ih]

end Value

theorem writtenRead {v : Value} (fits : v.Fits) (room : v.depth ≤ maxOpen) (tail : Bytes) :
    read (v.write ++ tail) = v := by
  rw [read, fits.spelled.read room]

theorem writtenTorn {v : Value} (fits : v.Fits) (deep : maxOpen < v.depth) (tail : Bytes) :
    (read (v.write ++ tail)).isWhole = false :=
  fits.spelled.tooDeep deep tail

end SourceModels.MessagePack

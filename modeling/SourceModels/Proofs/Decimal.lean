import SourceModels.Text.Decimal

/-! What decimal digits stand for, padded with zeros or not. -/
namespace SourceModels.Decimal

structure Spells (chars : List Char) (n : Nat) : Prop where
  digits : ∀ c ∈ chars, isDigit c = true
  nonempty : chars ≠ []
  value : value chars = n

theorem valueDigits (chars : List Char) : value chars = Nat.ofDigitChars 10 chars 0 := by
  have step : (fun (n : Nat) c => n * 10 + digitValue c) =
      fun n c => 10 * n + (c.toNat - '0'.toNat) := by
    funext n c
    rw [Nat.mul_comm, digitValue]
  rw [value, Nat.ofDigitChars_eq_foldl, step]

theorem digitPlain {c : Char} (digit : c.isDigit = true) : isDigit c = true := by
  simpa [isDigit, Char.isDigit, Char.le_def] using digit

theorem paddedChars (width n : Nat) : (padded width n).toList =
    List.replicate (width - (Nat.toDigits 10 n).length) '0' ++ Nat.toDigits 10 n := by
  simp [padded, Nat.repr_eq_ofList_toDigits]

theorem paddedSpells (width n : Nat) : Spells (padded width n).toList n where
  digits := by
    rw [paddedChars]
    intro c inside
    rcases List.mem_append.mp inside with zero | digit
    · rw [List.eq_of_mem_replicate zero]
      rfl
    · exact digitPlain (Nat.isDigit_of_mem_toDigits (by decide) (by decide) digit)
  nonempty := by simp [paddedChars]
  value := by simp [paddedChars, valueDigits, Nat.ofDigitChars_append]

theorem paddedLength {width n : Nat} (positive : 0 < width) (room : n < 10 ^ width) :
    (padded width n).toList.length = width := by
  have digits : (Nat.toDigits 10 n).length ≤ width :=
    (Nat.length_toDigits_le_iff (by decide) positive).mpr room
  simp only [paddedChars, List.length_append, List.length_replicate]
  omega

theorem paddedShort {width most n : Nat} (positive : 0 < most) (fits : width ≤ most)
    (room : n < 10 ^ most) : (padded width n).toList.length ≤ most := by
  have digits : (Nat.toDigits 10 n).length ≤ most :=
    (Nat.length_toDigits_le_iff (by decide) positive).mpr room
  simp only [paddedChars, List.length_append, List.length_replicate]
  omega

end SourceModels.Decimal

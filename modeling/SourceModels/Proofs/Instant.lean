import SourceModels.Instant
import SourceModels.Proofs.Decimal

/-! The stored text of an instant names that instant. -/
namespace SourceModels.Instant
open Decimal

theorem digitNoBlank {c : Char} (digit : isDigit c = true) : Text.isBlank c = false := by
  have range : 48 ≤ c.toNat ∧ c.toNat ≤ 57 := by
    simp only [isDigit, Bool.and_eq_true, decide_eq_true_eq, Char.le_def, UInt32.le_iff_toNat_le]
      at digit
    exact digit
  simp only [Text.isBlank, Text.blankRanges, List.any_eq_false, List.forall_mem_cons,
    Bool.and_eq_true, decide_eq_true_eq, List.not_mem_nil]
  refine ⟨?_, ?_, ?_, ?_, ?_, ?_, ?_, ?_, ?_, ?_, by simp⟩ <;> omega

theorem digitsRead {chars : List Char} {n most : Nat} (spelled : Spells chars n)
    (short : chars.length ≤ most) {rest : List Char}
    (stop : chars.length = most ∨ rest.takeWhile isDigit = []) :
    digits? most (chars ++ rest) = some (n, rest) := by
  have front : ((chars ++ rest).take most).takeWhile isDigit = chars := by
    rw [List.take_append, List.take_of_length_le short,
      List.takeWhile_append_of_pos spelled.digits]
    rcases stop with full | ends
    · simp [full]
    · cases rest with
      | nil => simp
      | cons c rest =>
        have mark : isDigit c = false := by
          by_cases digit : isDigit c = true
          · simp [digit] at ends
          · simpa using digit
        cases most - chars.length <;> simp [mark]
  simp only [digits?, front]
  rw [if_neg spelled.nonempty, spelled.value, List.drop_left']
  rfl

theorem skipDigits {chars : List Char} {n : Nat} (spelled : Spells chars n) (rest : List Char) :
    skipBlanks (chars ++ rest) = chars ++ rest := by
  cases chars with
  | nil => exact absurd rfl spelled.nonempty
  | cons c others =>
    have first := digitNoBlank (spelled.digits c List.mem_cons_self)
    simp [skipBlanks, first]

theorem fieldRead {n : Nat} (room : n < 100) (rest : List Char) :
    field? ((padded 2 n).toList ++ rest) = some (n, rest) := by
  have spelled := paddedSpells 2 n
  have width : (padded 2 n).toList.length = 2 := paddedLength (by decide) room
  rw [field?, skipDigits spelled, digitsRead spelled (by omega) (.inl width)]

theorem yearPlain {chars : List Char} {n : Nat} (spelled : Spells chars n)
    (width : chars.length = 4) (rest : List Char) : year? (chars ++ rest) = some ((n : Int), rest) := by
  have read := digitsRead spelled (Nat.le_of_eq width) (@Or.inl _ (rest.takeWhile isDigit = []) width)
  cases chars with
  | nil => exact absurd rfl spelled.nonempty
  | cons c others =>
    have digit := spelled.digits c List.mem_cons_self
    have noMinus : c ≠ '-' := by
      intro same
      simp [same, isDigit] at digit
    have noPlus : c ≠ '+' := by
      intro same
      simp [same, isDigit] at digit
    rw [List.cons_append] at read ⊢
    unfold year?
    split
    · rename_i same
      exact absurd (List.cons.inj same).1 noMinus
    · rename_i same
      exact absurd (List.cons.inj same).1 noPlus
    · rw [read]
      rfl

theorem yearSigned {chars : List Char} {n : Nat} (spelled : Spells chars n) {c : Char}
    (mark : isDigit c = false) (rest : List Char) :
    year? ('-' :: (chars ++ c :: rest)) = some (-(n : Int), c :: rest) ∧
      year? ('+' :: (chars ++ c :: rest)) = some ((n : Int), c :: rest) := by
  have ends : (c :: rest).takeWhile isDigit = [] := by simp [mark]
  have read : digits? (chars ++ c :: rest).length (chars ++ c :: rest) = some (n, c :: rest) :=
    digitsRead spelled (by simp) (.inr ends)
  simp only [year?, read, Option.map_some, and_self]

theorem yearRead (year : Int) {c : Char} (mark : isDigit c = false) (rest : List Char) :
    year? (skipBlanks ((renderYear year).toList ++ c :: rest)) = some (year, c :: rest) := by
  unfold renderYear
  split
  · have spelled := paddedSpells 4 year.toNat
    have width : (padded 4 year.toNat).toList.length = 4 :=
      paddedLength (by decide) (by omega)
    have same : (year.toNat : Int) = year := by omega
    rw [skipDigits spelled, yearPlain spelled width, same]
  · have signs := yearSigned (paddedSpells 4 year.natAbs) mark rest
    split
    · have text : ("-" ++ padded 4 year.natAbs).toList ++ c :: rest =
          '-' :: ((padded 4 year.natAbs).toList ++ c :: rest) := by simp
      have same : -(year.natAbs : Int) = year := by omega
      rw [text, skipBlanks, List.dropWhile_cons_of_neg (by decide), signs.1, same]
    · have text : ("+" ++ padded 4 year.natAbs).toList ++ c :: rest =
          '+' :: ((padded 4 year.natAbs).toList ++ c :: rest) := by simp
      have same : (year.natAbs : Int) = year := by omega
      rw [text, skipBlanks, List.dropWhile_cons_of_neg (by decide), signs.2, same]

theorem fractionOf {chars : List Char} {n : Nat} (spelled : Spells chars n)
    (short : chars.length ≤ 9) {c : Char} (mark : isDigit c = false) (rest : List Char) :
    fraction? ('.' :: (chars ++ c :: rest)) = some (n * 10 ^ (9 - chars.length), c :: rest) := by
  have digits : (chars ++ c :: rest).takeWhile isDigit = chars := by
    rw [List.takeWhile_append_of_pos spelled.digits]
    simp [mark]
  simp only [fraction?, digits]
  rw [if_neg spelled.nonempty, List.take_of_length_le short, spelled.value, List.drop_left']
  rfl

theorem fractionRead {nanosecond : Nat} (bound : nanosecond < 1000000000) (rest : List Char) :
    fraction? ((renderFraction nanosecond).toList ++ 'Z' :: rest) =
      some (nanosecond, 'Z' :: rest) := by
  have places : ∀ width n : Nat, 0 < width → width ≤ 9 → n < 10 ^ width →
      fraction? (("." ++ padded width n).toList ++ 'Z' :: rest) =
        some (n * 10 ^ (9 - width), 'Z' :: rest) := by
    intro width n positive short room
    have length : (padded width n).toList.length = width := paddedLength positive room
    have text : ("." ++ padded width n).toList ++ 'Z' :: rest =
        '.' :: ((padded width n).toList ++ 'Z' :: rest) := by simp
    rw [text, fractionOf (paddedSpells width n) (by omega) (by decide), length]
  unfold renderFraction
  split
  · rename_i none
    rw [none]
    rfl
  split
  · rw [places 3 _ (by decide) (by decide) (by omega)]
    simp only [Option.some.injEq, Prod.mk.injEq, and_true]
    omega
  split
  · rw [places 6 _ (by decide) (by decide) (by omega)]
    simp only [Option.some.injEq, Prod.mk.injEq, and_true]
    omega
  · rw [places 9 _ (by decide) (by decide) bound]
    simp

theorem markRead {c : Char} (mark : Text.isBlank c = false) (rest : List Char) :
    mark? c (c :: rest) = some rest := by
  simp [mark?, skipBlanks, mark]

theorem universalKept {t : Instant} (valid : t.isValid = true) : fromZone t 0 = t := by
  have clock : t.hour ≤ 23 ∧ t.minute ≤ 59 := by
    simp only [isValid, Bool.and_eq_true, decide_eq_true_eq] at valid
    omega
  have early : ¬ ((t.hour * 60 + t.minute : Nat) : Int) - 0 < 0 := by omega
  have late : ¬ 1440 ≤ ((t.hour * 60 + t.minute : Nat) : Int) - 0 := by omega
  have hour : (((t.hour * 60 + t.minute : Nat) : Int) - 0) % 1440 = (t.hour * 60 + t.minute : Nat) := by
    omega
  simp only [fromZone, if_neg early, if_neg late, hour, Int.toNat_natCast]
  have hours : (t.hour * 60 + t.minute) / 60 = t.hour := by omega
  have minutes : (t.hour * 60 + t.minute) % 60 = t.minute := by omega
  rw [hours, minutes]

theorem fieldsBounded {t : Instant} (valid : t.isValid = true) :
    t.month < 100 ∧ t.day < 100 ∧ t.hour < 100 ∧ t.minute < 100 ∧ t.second < 100 ∧
      t.nanosecond < 1000000000 := by
  have days : daysInMonth t.year t.month ≤ 31 := by
    unfold daysInMonth
    split
    · split <;> decide
    split <;> decide
  simp only [isValid, Bool.and_eq_true, decide_eq_true_eq] at valid
  omega

theorem storedChars (t : Instant) : t.stored.toList =
    (renderYear t.year).toList ++ '-' :: ((padded 2 t.month).toList ++
      '-' :: ((padded 2 t.day).toList ++ 'T' :: ((padded 2 t.hour).toList ++
      ':' :: ((padded 2 t.minute).toList ++ ':' :: ((padded 2 t.second).toList ++
      ((renderFraction t.nanosecond).toList ++ ['Z'])))))) := by
  simp [stored, renderWith]

theorem readOn {α β : Type} {read : Option α} {next : α → Option β} {a : α} {b : β}
    (first : read = some a) (later : next a = some b) : read.bind next = some b :=
  Option.bind_eq_some_iff.mpr ⟨a, first, later⟩

theorem storedRead {t : Instant} (valid : t.isValid = true) : parse? t.stored = some t := by
  obtain ⟨month, day, hour, minute, second, nanosecond⟩ := fieldsBounded valid
  have separator : ∀ rest, separator? ('T' :: rest) = some rest := fun rest => by simp [separator?]
  have zone : zone? (skipBlanks ['Z']) = some (0, []) := by decide
  rw [parse?, storedChars]
  refine readOn (yearRead t.year (by decide) _) ?_
  refine readOn (markRead (by decide) _) (readOn (fieldRead month _) ?_)
  refine readOn (markRead (by decide) _) (readOn (fieldRead day _) ?_)
  refine readOn (separator _) (readOn (fieldRead hour _) ?_)
  refine readOn (markRead (by decide) _) (readOn (fieldRead minute _) ?_)
  refine readOn (markRead (by decide) _) (readOn (fieldRead second _) ?_)
  refine readOn (fractionRead nanosecond _) (readOn zone ?_)
  change (if skipBlanks [] = [] ∧ t.isValid = true then
    if (fromZone t 0).isValid = true then some (fromZone t 0) else none else none) = some t
  rw [universalKept valid, if_pos ⟨rfl, valid⟩, if_pos valid]

theorem yearShort {year : Int} (low : minYear ≤ year) (high : year ≤ maxYear) :
    (renderYear year).toList.length ≤ 7 := by
  simp only [minYear, maxYear] at low high
  unfold renderYear
  split
  · have width := @paddedShort 4 4 year.toNat (by decide) (by decide) (by omega)
    omega
  · have width := @paddedShort 4 6 year.natAbs (by decide) (by decide) (by omega)
    split <;> simp only [String.toList_append, List.length_append] <;> exact Nat.add_le_add (by decide) width

theorem fractionShort {nanosecond : Nat} (bound : nanosecond < 1000000000) :
    (renderFraction nanosecond).toList.length ≤ 10 := by
  have places : ∀ width n : Nat, 0 < width → width ≤ 9 → n < 10 ^ width →
      ("." ++ padded width n).toList.length ≤ 10 := by
    intro width n positive short room
    have length : (padded width n).toList.length = width := paddedLength positive room
    have point : ("." : String).toList.length = 1 := by decide
    simp only [String.toList_append, List.length_append]
    omega
  unfold renderFraction
  split
  · decide
  split
  · exact places 3 _ (by decide) (by decide) (by omega)
  split
  · exact places 6 _ (by decide) (by decide) (by omega)
  · exact places 9 _ (by decide) (by decide) bound

theorem storedShort {t : Instant} (valid : t.isValid = true) : t.stored.toList.length ≤ 33 := by
  obtain ⟨month, day, hour, minute, second, nanosecond⟩ := fieldsBounded valid
  have years : minYear ≤ t.year ∧ t.year ≤ maxYear := by
    simp only [isValid, Bool.and_eq_true, decide_eq_true_eq] at valid
    omega
  have year := yearShort years.1 years.2
  have fraction := fractionShort nanosecond
  have two : ∀ {n : Nat}, n < 100 → (padded 2 n).toList.length = 2 := fun room =>
    paddedLength (by decide) room
  simp only [storedChars, List.length_append, List.length_cons, List.length_nil, two month, two day,
    two hour, two minute, two second]
  omega

end SourceModels.Instant

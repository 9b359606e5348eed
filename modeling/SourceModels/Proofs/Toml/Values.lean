import SourceModels.Proofs.Decimal
import SourceModels.Proofs.Toml.Strings
import SourceModels.Toml.Document

/-! The values that are written, each read back where a line ends behind it. -/
namespace SourceModels.Toml

structure Written (chars : List Char) (item : Item) : Prop where
  first : ∃ c more, chars = c :: more ∧ isBlankChar c = false
  read : ∀ rest, value? maxDepth (chars ++ '\n' :: rest) = some (item, '\n' :: rest)

structure Digits (digits : List Char) : Prop where
  digit : ∀ c ∈ digits, Decimal.isDigit c = true
  filled : digits ≠ []
  first : digits = ['0'] ∨ digits.head? ≠ some '0'

theorem leadingDigit {n : Nat} (positive : 0 < n) : (Nat.toDigits 10 n).head? ≠ some '0' := by
  induction n using Nat.strongRecOn with
  | ind n ih =>
    by_cases single : n < 10
    · have digit : ∀ d : Fin 10, 0 < d.val → [Nat.digitChar d].head? ≠ some '0' := by decide
      rw [Nat.toDigits_of_lt_base single]
      exact digit ⟨n, single⟩ positive
    · have earlier := ih (n / 10) (by omega) (by omega)
      obtain ⟨d, more, same⟩ := List.exists_cons_of_ne_nil (@Nat.toDigits_ne_nil (n / 10) 10)
      rw [same] at earlier
      rw [Nat.toDigits_of_base_le (by decide) (Nat.not_lt.mp single), same]
      exact earlier

theorem numberDigits (n : Nat) : Digits (toString n).toList ∧
    Decimal.value (toString n).toList = n := by
  have chars : (toString n).toList = Nat.toDigits 10 n := Nat.toList_repr
  rw [chars]
  refine ⟨⟨?_, Nat.toDigits_ne_nil, ?_⟩, ?_⟩
  · intro c inside
    exact Decimal.digitPlain (Nat.isDigit_of_mem_toDigits (by decide) (by decide) inside)
  · by_cases zero : n = 0
    · subst zero
      exact .inl (Nat.toDigits_zero 10)
    · exact .inr (leadingDigit (Nat.pos_of_ne_zero zero))
  · rw [Decimal.valueDigits, Nat.ofDigitChars_toDigits (by decide) (by decide)]

section
variable {digits rest : List Char}

theorem fixedLeft (all : ∀ c ∈ digits, Decimal.isDigit c = true) {width n : Nat} {left : List Char}
    (read : fixed? width (digits ++ '\n' :: rest) = some (n, left)) :
    ∃ fewer, left = fewer ++ '\n' :: rest ∧ ∀ c ∈ fewer, Decimal.isDigit c = true := by
  simp only [fixed?, Option.ite_none_right_eq_some, Option.some.injEq, Prod.mk.injEq] at read
  obtain ⟨⟨full, numeric⟩, _, rfl⟩ := read
  rcases Nat.lt_or_ge digits.length width with short | within
  · obtain ⟨more, rfl⟩ := Nat.exists_eq_add_of_lt short
    have end' : '\n' ∈ (digits ++ '\n' :: rest).take (digits.length + (more + 1)) := by
      simp [List.take_length_add_append]
    exact absurd (List.all_eq_true.mp numeric _ end') (by decide)
  refine ⟨digits.drop width, List.drop_append_of_le_length within, ?_⟩
  exact fun c inside => all c (List.mem_of_mem_drop inside)

theorem charNone (all : ∀ c ∈ digits, Decimal.isDigit c = true) {c : Char}
    (other : Decimal.isDigit c = false ∧ c ≠ '\n') : char? c (digits ++ '\n' :: rest) = none := by
  cases digits with
  | nil => exact if_neg other.2.symm
  | cons d more =>
    refine if_neg ?_
    rintro rfl
    rw [all d List.mem_cons_self] at other
    exact absurd other.1 (by simp)

theorem noDatetime (all : ∀ c ∈ digits, Decimal.isDigit c = true) :
    datetime? (digits ++ '\n' :: rest) = none := by
  have noDate : date? (digits ++ '\n' :: rest) = none := by
    cases year : fixed? 4 (digits ++ '\n' :: rest) with
    | none => simp [date?, year]
    | some found =>
      obtain ⟨fewer, same, numeric⟩ := fixedLeft all year
      simp [date?, year, same, @charNone _ rest numeric '-' (by decide)]
  have noTime : time? (digits ++ '\n' :: rest) = none := by
    cases hour : twoDigits? 23 (digits ++ '\n' :: rest) with
    | none => simp [time?, hour]
    | some found =>
      obtain ⟨n, left⟩ := found
      obtain ⟨fewer, same, numeric⟩ := fixedLeft all (Option.eq_some_of_filter_eq_some hour)
      simp [time?, hour, same, @charNone _ rest numeric ':' (by decide)]
  simp [datetime?, noDate, noTime]

theorem digitOther {c d : Char} (digit : Decimal.isDigit c = true)
    (other : Decimal.isDigit d = false) : c ≠ d := by
  rintro rfl
  rw [digit] at other
  contradiction

theorem digitsRead (all : ∀ c ∈ digits, Decimal.isDigit c = true) (seen : List Char) :
    digitsAfter? Decimal.isDigit seen (digits ++ '\n' :: rest) =
      some (seen.reverse ++ digits, '\n' :: rest) := by
  induction digits generalizing seen with
  | nil => simp [digitsAfter?, Decimal.isDigit]
  | cons c more ih =>
    obtain ⟨digit, others⟩ := List.forall_mem_cons.mp all
    have mark := @digitOther c '_' digit rfl
    have step : digitsAfter? Decimal.isDigit seen (c :: (more ++ '\n' :: rest)) =
        digitsAfter? Decimal.isDigit (c :: seen) (more ++ '\n' :: rest) := by
      rw [digitsAfter?]
      · exact if_pos digit
      · exact fun _ _ same => absurd same mark
      · exact fun same => absurd same mark
    rw [List.cons_append, step, ih others]
    simp

theorem signNone {c : Char} (digit : Decimal.isDigit c = true) (left : List Char) :
    sign? (c :: left) = (false, c :: left) := by
  unfold sign?
  split
  · rename_i same
    exact absurd (List.cons.inj same).1 (digitOther digit rfl)
  · rename_i same
    exact absurd (List.cons.inj same).1 (digitOther digit rfl)
  · rfl

theorem decimalRead (number : Digits digits) :
    decimal? (digits ++ '\n' :: rest) = some (false, digits, '\n' :: rest) := by
  obtain ⟨c, more, rfl⟩ := List.exists_cons_of_ne_nil number.filled
  obtain ⟨digit, others⟩ := List.forall_mem_cons.mp number.digit
  rw [decimal?, List.cons_append, signNone digit]
  dsimp only
  split
  · rename_i same
    obtain ⟨rfl, rfl⟩ := List.cons.inj same
    have single := number.first.resolve_right (by simp)
    rw [(List.cons.inj single).2]
    rfl
  · rw [digitRun?, if_pos digit, digitsRead others]
    rfl

theorem noFloat (number : Digits digits) : float? (digits ++ '\n' :: rest) = none := by
  simp [float?, decimalRead number, exponent?]

theorem noSpecial (number : Digits digits) : specialFloat? (digits ++ '\n' :: rest) = none := by
  obtain ⟨c, more, rfl⟩ := List.exists_cons_of_ne_nil number.filled
  have digit := number.digit c List.mem_cons_self
  rw [specialFloat?, List.cons_append, signNone digit]
  dsimp only
  split
  · rename_i same
    exact absurd (List.cons.inj same).1 (digitOther digit rfl)
  · rename_i same
    exact absurd (List.cons.inj same).1 (digitOther digit rfl)
  · rfl

theorem integerRead (number : Digits digits) (fits : Decimal.value digits < 2 ^ 63) :
    integer? (digits ++ '\n' :: rest) = some (.integer (Decimal.value digits), '\n' :: rest) := by
  have plain : ∀ c left, digits ++ '\n' :: rest = '0' :: c :: left → c = '\n' := by
    intro c left same
    rcases number.first with rfl | other
    · exact (List.cons.inj (List.cons.inj same).2).1.symm
    · obtain ⟨d, more, rfl⟩ := List.exists_cons_of_ne_nil number.filled
      exact absurd (congrArg some (List.cons.inj same).1) other
  unfold integer?
  split
  · rename_i same
    exact absurd (plain _ _ same) (by decide)
  · rename_i same
    exact absurd (plain _ _ same) (by decide)
  · rename_i same
    exact absurd (plain _ _ same) (by decide)
  · have inside : minInteger ≤ (Decimal.value digits : Int) ∧
        (Decimal.value digits : Int) ≤ maxInteger := by
      unfold minInteger maxInteger
      omega
    simp [decimalRead number, inRange?, inside]

theorem numberRead (number : Digits digits) (fits : Decimal.value digits < 2 ^ 63) :
    number? (digits ++ '\n' :: rest) = some (.integer (Decimal.value digits), '\n' :: rest) := by
  rw [number?, noDatetime number.digit, noFloat number, noSpecial number, integerRead number fits]
  rfl

theorem valueNumber {c : Char} (digit : Decimal.isDigit c = true) (depth : Nat) (left : List Char) :
    value? depth (c :: left) = number? (c :: left) := by
  unfold value?
  split
  all_goals first
    | rfl
    | rename_i same
      exact absurd (List.cons.inj same).1 (digitOther digit rfl)

end

theorem numberWritten {n : Nat} (fits : n < 2 ^ 63) :
    Written (toString n).toList (.integer n) := by
  obtain ⟨number, value⟩ := numberDigits n
  obtain ⟨c, more, same⟩ := List.exists_cons_of_ne_nil number.filled
  have digit : Decimal.isDigit c = true := number.digit c (by rw [same]; exact List.mem_cons_self)
  refine ⟨⟨c, more, same, ?_⟩, fun rest => ?_⟩
  · have space := @digitOther c ' ' digit rfl
    have tab := @digitOther c '\t' digit rfl
    simp [isBlankChar, space, tab]
  · have read := @numberRead _ rest number (by rwa [value])
    rw [value, same] at read
    rw [same, List.cons_append, valueNumber digit]
    exact read

theorem flagWritten (b : Bool) : Written (if b then "true" else "false").toList (.bool b) := by
  cases b
  · exact ⟨⟨_, _, rfl, rfl⟩, fun _ => rfl⟩
  · exact ⟨⟨_, _, rfl, rfl⟩, fun _ => rfl⟩

theorem stringFirst (text : String) :
    ∃ quote more, writeString text = quote :: more ∧ (quote = '"' ∨ quote = '\'') :=
  quotedFirst (quoteQuoted text.toList)

theorem valueString (text : String) {rest : List Char} (depth : Nat)
    (ends : rest.head? ≠ some '"' ∧ rest.head? ≠ some '\'') :
    value? depth (writeString text ++ rest) = some (.string text, rest) := by
  have read := stringRead text ends
  obtain ⟨quote, more, same, marked⟩ := stringFirst text
  rw [same, List.cons_append] at read ⊢
  rcases marked with rfl | rfl
  · rw [value?, read]
    rfl
  · rw [value?, read]
    rfl

theorem stringWritten (text : String) : Written (writeString text) (.string text) := by
  obtain ⟨quote, more, same, marked⟩ := stringFirst text
  refine ⟨⟨quote, more, same, ?_⟩, fun rest => valueString text _ (by simp)⟩
  rcases marked with rfl | rfl <;> rfl

structure Solid (c : Char) : Prop where
  blank : isBlankChar c = false
  comment : c ≠ '#'
  newline : ∀ rest, newline? (c :: rest) = none

theorem skipFilled {c : Char} (filled : isBlankChar c = false) (rest : List Char) :
    skipBlanks (c :: rest) = c :: rest :=
  List.dropWhile_cons_of_neg (by simp [filled])

theorem skipSolid {c : Char} (solid : Solid c) (rest : List Char) :
    skipBlanks (c :: rest) = c :: rest := skipFilled solid.blank rest

theorem linesBlank {c : Char} (solid : Solid c) {left rest : List Char}
    (skipped : skipBlanks left = c :: rest) (fuel : Nat) :
    skipLines (fuel + 1) left = c :: rest := by
  simp only [skipLines, skipped]
  split
  · rename_i same
    exact absurd (List.cons.inj same).1 solid.comment
  · simp only [solid.newline]

theorem linesSolid {c : Char} (solid : Solid c) (fuel : Nat) (rest : List Char) :
    skipLines fuel (c :: rest) = c :: rest := by
  cases fuel with
  | zero => rfl
  | succ fuel => exact linesBlank solid (skipSolid solid rest) fuel

theorem quoteSolid {quote : Char} (marked : quote = '"' ∨ quote = '\'') : Solid quote := by
  rcases marked with rfl | rfl <;> exact ⟨rfl, by decide, fun _ => rfl⟩

def itemLine (text : String) : List Char :=
  [' ', ' ', ' ', ' '] ++ writeString text ++ [',', '\n']

theorem itemSkipped (text : String) (rest : List Char) (fuel : Nat) :
    skipLines (fuel + 2) ('\n' :: (itemLine text ++ rest)) =
      writeString text ++ ',' :: '\n' :: rest := by
  obtain ⟨quote, more, same, marked⟩ := stringFirst text
  have solid := quoteSolid marked
  have whole : itemLine text ++ rest =
      ' ' :: ' ' :: ' ' :: ' ' :: quote :: (more ++ ',' :: '\n' :: rest) := by
    simp [itemLine, same]
  rw [whole, same]
  exact linesBlank solid (skipSolid solid _) fuel

section
variable {depth fuel : Nat} {seen : List Item} {left rest : List Char}

theorem commaSolid : Solid ',' := ⟨rfl, by decide, fun _ => rfl⟩

theorem closeSolid : Solid ']' := ⟨rfl, by decide, fun _ => rfl⟩

theorem elementsEnd (skipped : skipLines left.length left = ']' :: rest) :
    elements? (value? depth) (fuel + 1) seen left = some (.array seen.reverse, rest) := by
  simp only [elements?, skipped]

theorem stringUnlikeClose (text : String) (rest left : List Char) :
    writeString text ++ rest ≠ ']' :: left := by
  obtain ⟨quote, more, same, marked⟩ := stringFirst text
  rw [same, List.cons_append]
  rcases marked with rfl | rfl <;> exact fun same => absurd (List.cons.inj same).1 (by decide)

theorem elementsMore {text : String}
    (skipped : skipLines left.length left = writeString text ++ ',' :: rest) :
    elements? (value? depth) (fuel + 1) seen left =
      elements? (value? depth) fuel (.string text :: seen) rest := by
  have read := @valueString text (',' :: rest) depth (by simp)
  rw [elements?, skipped]
  split
  · rename_i closed
    exact absurd closed (stringUnlikeClose text _ _)
  · simp only [read, linesSolid commaSolid]

theorem elementsLast {text : String}
    (skipped : skipLines left.length left = writeString text ++ ']' :: rest) :
    elements? (value? depth) (fuel + 1) seen left =
      some (.array (.string text :: seen).reverse, rest) := by
  have read := @valueString text (']' :: rest) depth (by simp)
  rw [elements?, skipped]
  split
  · rename_i closed
    exact absurd closed (stringUnlikeClose text _ _)
  · simp only [read, linesSolid closeSolid]

end

theorem elementsLines {depth : Nat} (texts : List String) (rest : List Char) {fuel : Nat}
    (enough : texts.length < fuel) (seen : List Item) :
    elements? (value? depth) fuel seen ('\n' :: (texts.flatMap itemLine ++ ']' :: rest)) =
      some (.array (seen.reverse ++ texts.map .string), rest) := by
  induction texts generalizing fuel seen with
  | nil =>
    obtain ⟨fuel, rfl⟩ := Nat.exists_eq_succ_of_ne_zero (Nat.ne_zero_of_lt enough)
    have skipped : skipLines ('\n' :: ']' :: rest).length ('\n' :: ']' :: rest) = ']' :: rest :=
      linesSolid closeSolid _ rest
    rw [List.map_nil, List.append_nil]
    exact elementsEnd skipped
  | cons text others ih =>
    obtain ⟨fuel, rfl⟩ := Nat.exists_eq_succ_of_ne_zero (Nat.ne_zero_of_lt enough)
    have later := ih (Nat.lt_of_succ_lt_succ enough) (.string text :: seen)
    rw [List.reverse_cons, List.append_assoc, List.singleton_append] at later
    rw [List.flatMap_cons, List.append_assoc, List.map_cons, ← later]
    exact elementsMore (itemSkipped text _ _)

theorem itemsLong (texts : List String) : texts.length ≤ (texts.flatMap itemLine).length := by
  induction texts with
  | nil => exact Nat.le_refl 0
  | cons text others ih =>
    simp only [List.flatMap_cons, List.length_append, List.length_cons, itemLine]
    omega

theorem arrayWritten (texts : List String) :
    Written (writeStrings texts) (.array (texts.map .string)) := by
  have opened : ∀ left, value? maxDepth ('[' :: left) =
      elements? (value? 78) (left.length + 1) [] left := fun _ => rfl
  match texts with
  | [] => exact ⟨⟨_, _, rfl, rfl⟩, fun rest => elementsEnd (linesSolid closeSolid _ _)⟩
  | [text] =>
    refine ⟨⟨_, _, rfl, rfl⟩, fun rest => ?_⟩
    obtain ⟨quote, more, same, marked⟩ := stringFirst text
    have skipped : skipLines (writeString text ++ ']' :: '\n' :: rest).length
        (writeString text ++ ']' :: '\n' :: rest) = writeString text ++ ']' :: '\n' :: rest := by
      rw [same]
      exact linesSolid (quoteSolid marked) _ _
    simp only [writeStrings, List.cons_append, List.append_assoc, List.nil_append]
    exact (opened _).trans (elementsLast skipped)
  | first :: second :: others =>
    refine ⟨⟨_, _, rfl, rfl⟩, fun rest => ?_⟩
    have whole : writeStrings (first :: second :: others) ++ '\n' :: rest =
        '[' :: '\n' :: ((first :: second :: others).flatMap itemLine ++ ']' :: '\n' :: rest) :=
      List.append_assoc ('[' :: '\n' :: (first :: second :: others).flatMap itemLine) [']'] _
    have long := itemsLong (first :: second :: others)
    rw [whole, opened]
    refine elementsLines _ _ ?_ []
    simp only [List.length_cons, List.length_append] at long ⊢
    omega

end SourceModels.Toml

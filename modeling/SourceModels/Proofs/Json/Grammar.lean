import Mathlib.Data.List.Basic
import SourceModels.Json.Reader

/-! How the tokens of a document are spelled, and that reading cuts bytes into the tokens that they
spell. -/
namespace SourceModels.Json

inductive StringBody : Bytes → Prop where
  | nil : StringBody []
  | plain {b : UInt8} {rest : Bytes} (visible : ¬ b < 32) (other : b ≠ 34 ∧ b ≠ 92)
      (more : StringBody rest) : StringBody (b :: rest)
  | escape {b c : UInt8} {rest : Bytes} (known : escaped? b = some c) (more : StringBody rest) :
      StringBody (92 :: b :: rest)
  | unicode {a b c d : UInt8} {n : Nat} {rest : Bytes} (known : hexFour? a b c d = some n)
      (more : StringBody rest) : StringBody (92 :: 117 :: a :: b :: c :: d :: rest)

def Digits (ds : Bytes) : Prop := ds ≠ [] ∧ ∀ b ∈ ds, isDigit b = true

def Whole (ds : Bytes) : Prop := ds = [48] ∨ Digits ds ∧ ds.head? ≠ some 48

def Fraction (text : Bytes) : Prop := text = [] ∨ ∃ ds, text = 46 :: ds ∧ Digits ds

def Exponent (text : Bytes) : Prop :=
  text = [] ∨ ∃ mark sign ds, text = mark :: (sign ++ ds) ∧ (mark = 101 ∨ mark = 69) ∧
    (sign = [] ∨ sign = [43] ∨ sign = [45]) ∧ Digits ds

def Number (text : Bytes) : Prop :=
  ∃ sign whole fraction exponent, text = sign ++ (whole ++ (fraction ++ exponent)) ∧
    (sign = [] ∨ sign = [45]) ∧ Whole whole ∧ Fraction fraction ∧ Exponent exponent

inductive Token.Spelled : Token → Bytes → Prop where
  | openArray : Spelled .openArray [91]
  | closeArray : Spelled .closeArray [93]
  | openObject : Spelled .openObject [123]
  | closeObject : Spelled .closeObject [125]
  | colon : Spelled .colon [58]
  | comma : Spelled .comma [44]
  | null : Spelled (.scalar .null) (Bytes.ofText "null")
  | yes : Spelled (.scalar (.bool true)) (Bytes.ofText "true")
  | no : Spelled (.scalar (.bool false)) (Bytes.ofText "false")
  | string {raw : Bytes} (body : StringBody raw) :
      Spelled (.scalar (.string raw)) (34 :: (raw ++ [34]))
  | number {text : Bytes} (number : Number text) : Spelled (.scalar (.number text)) text

inductive Cut : List Token → Bytes → Prop where
  | nil {blanks : Bytes} (blank : ∀ b ∈ blanks, isSpace b = true) : Cut [] blanks
  | cons {blanks front back : Bytes} {token : Token} {tokens : List Token}
      (blank : ∀ b ∈ blanks, isSpace b = true) (spelled : token.Spelled front)
      (others : Cut tokens back) : Cut (token :: tokens) (blanks ++ (front ++ back))

theorem unicodeUnescaped : escaped? 117 = none := by decide

theorem readEscape {seen rest : Bytes} {b c : UInt8} (known : escaped? b = some c) :
    readString seen (92 :: b :: rest) = readString (b :: 92 :: seen) rest := by
  have other : b ≠ 117 := by
    rintro rfl
    exact absurd (unicodeUnescaped.symm.trans known) (by simp)
  rw [readString]
  · simp only [known]
  · rintro _ _ _ _ _ rfl
    contradiction

theorem readPlain {seen rest : Bytes} {b : UInt8} (visible : ¬ b < 32) (other : b ≠ 34 ∧ b ≠ 92) :
    readString seen (b :: rest) = readString (b :: seen) rest := by
  rw [readString]
  · simp only [visible, if_false]
  all_goals simp_all

theorem stringRead {seen bytes raw rest : Bytes} :
    readString seen bytes = some (raw, rest) ↔
      ∃ body, StringBody body ∧ bytes = body ++ 34 :: rest ∧ raw = seen.reverse ++ body := by
  constructor
  · intro read
    fun_induction readString seen bytes with
    | case1 => contradiction
    | case2 seen after =>
      cases read
      exact ⟨[], .nil, rfl, by simp⟩
    | case3 seen a b c d after n known ih =>
      obtain ⟨body, more, rfl, rfl⟩ := ih read
      exact ⟨_, .unicode known more, rfl, by simp⟩
    | case4 => contradiction
    | case5 seen b after _ c known ih =>
      obtain ⟨body, more, rfl, rfl⟩ := ih read
      exact ⟨_, .escape known more, rfl, by simp⟩
    | case6 => contradiction
    | case7 => contradiction
    | case8 seen b after mark unicode escape visible ih =>
      obtain ⟨body, more, rfl, rfl⟩ := ih read
      have other : b ≠ 34 ∧ b ≠ 92 := by
        refine ⟨mark, ?_⟩
        rintro rfl
        cases body with
        | nil => exact escape _ _ rfl rfl
        | cons c body => exact escape _ _ rfl rfl
      exact ⟨_, .plain visible other more, rfl, by simp⟩
  · rintro ⟨body, spelled, rfl, rfl⟩
    induction spelled generalizing seen with
    | nil => simp [readString]
    | plain visible other more ih => simp [readPlain visible other, ih]
    | escape known more ih => simp [readEscape known, ih]
    | unicode known more ih => simp [readString, known, ih]

def Stops (others : List UInt8) (rest : Bytes) : Prop :=
  ∀ b, rest.head? = some b → isDigit b = false ∧ b ∉ others

theorem Stops.fewer {others fewer : List UInt8} {rest : Bytes} (stops : Stops others rest)
    (sub : fewer ⊆ others) : Stops fewer rest := fun b first =>
  ⟨(stops b first).1, fun inside => (stops b first).2 (sub inside)⟩

theorem stopsAt {others : List UInt8} {b : UInt8} {rest : Bytes}
    (stops : isDigit b = false ∧ b ∉ others) : Stops others (b :: rest) := by
  rintro _ ⟨⟩
  exact stops

theorem digitsRead {bytes ds rest : Bytes} (read : digits bytes = (ds, rest)) (some : ds ≠ []) :
    Digits ds ∧ bytes = ds ++ rest := by
  cases read
  have all := @List.all_takeWhile _ isDigit bytes
  exact ⟨⟨some, List.all_eq_true.mp all⟩, List.takeWhile_append_dropWhile.symm⟩

theorem Digits.alone {ds rest : Bytes} (all : Digits ds) (stops : Stops [] rest) :
    digits (ds ++ rest) = (ds, rest) := by
  have none : rest.takeWhile isDigit = [] ∧ rest.dropWhile isDigit = rest := by
    cases rest with
    | nil => exact ⟨rfl, rfl⟩
    | cons b more => simp [(stops b rfl).1]
  rw [digits, List.takeWhile_append_of_pos all.2, List.dropWhile_append_of_pos all.2, none.1,
    none.2, List.append_nil]

theorem wholeRead {bytes whole rest : Bytes} (read : readWhole bytes = some (whole, rest)) :
    Whole whole ∧ bytes = whole ++ rest := by
  unfold readWhole at read
  split at read
  · cases read
    exact ⟨.inl rfl, rfl⟩
  · rename_i other
    cases cut : digits bytes with
    | mk ds after =>
      simp only [cut, Option.ite_none_left_eq_some, Option.some.injEq, Prod.mk.injEq] at read
      obtain ⟨some, rfl, rfl⟩ := read
      obtain ⟨all, rfl⟩ := digitsRead cut some
      refine ⟨.inr ⟨all, fun zero => ?_⟩, rfl⟩
      obtain ⟨more, rfl⟩ := List.head?_eq_some_iff.mp zero
      exact other _ rfl

theorem Whole.alone {whole rest : Bytes} (number : Whole whole) (stops : Stops [] rest) :
    readWhole (whole ++ rest) = some (whole, rest) := by
  rcases number with rfl | ⟨all, other⟩
  · rfl
  · have cut := all.alone stops
    unfold readWhole
    split
    · rename_i after same
      cases whole with
      | nil => exact absurd rfl all.1
      | cons b more =>
        cases same
        exact absurd rfl other
    · simp only [cut, if_neg all.1]

theorem fractionRead {bytes fraction rest : Bytes}
    (read : readFraction bytes = some (fraction, rest)) :
    Fraction fraction ∧ bytes = fraction ++ rest := by
  unfold readFraction at read
  split at read
  · rename_i after
    cases cut : digits after with
    | mk ds last =>
      simp only [cut, Option.ite_none_left_eq_some, Option.some.injEq, Prod.mk.injEq] at read
      obtain ⟨some, rfl, rfl⟩ := read
      obtain ⟨all, rfl⟩ := digitsRead cut some
      exact ⟨.inr ⟨ds, rfl, all⟩, rfl⟩
  · cases read
    exact ⟨.inl rfl, rfl⟩

theorem Fraction.alone {fraction rest : Bytes} (number : Fraction fraction)
    (stops : Stops [46] rest) : readFraction (fraction ++ rest) = some (fraction, rest) := by
  rcases number with rfl | ⟨ds, rfl, all⟩
  · cases rest with
    | nil => rfl
    | cons b more =>
      have other := (stops b rfl).2
      unfold readFraction
      split
      · rename_i same
        cases same
        simp at other
      · rfl
  · simp only [List.cons_append, readFraction, all.alone (stops.fewer (by simp)), if_neg all.1]

def exponentSign (bytes : Bytes) : Bytes × Bytes :=
  match bytes with
  | 43 :: rest => ([43], rest)
  | 45 :: rest => ([45], rest)
  | _ => ([], bytes)

theorem readExponentSigned {mark : UInt8} {bytes : Bytes} (marked : mark = 101 ∨ mark = 69) :
    readExponent (mark :: bytes) =
      let (sign, rest) := exponentSign bytes
      let (ds, rest) := digits rest
      if ds = [] then none else some (mark :: sign ++ ds, rest) :=
  if_pos marked

theorem exponentSignCut {bytes sign rest : Bytes} (cut : exponentSign bytes = (sign, rest)) :
    bytes = sign ++ rest ∧ (sign = [] ∨ sign = [43] ∨ sign = [45]) := by
  unfold exponentSign at cut
  split at cut <;> cases cut <;> simp

theorem exponentSignAlone {sign ds rest : Bytes} (signed : sign = [] ∨ sign = [43] ∨ sign = [45])
    (all : Digits ds) : exponentSign (sign ++ (ds ++ rest)) = (sign, ds ++ rest) := by
  rcases signed with rfl | rfl | rfl
  · obtain ⟨b, more, rfl⟩ := List.exists_cons_of_ne_nil all.1
    have digit := all.2 b List.mem_cons_self
    unfold exponentSign
    split
    · rename_i same
      cases same
      contradiction
    · rename_i same
      cases same
      contradiction
    · rfl
  · rfl
  · rfl

theorem exponentRead {bytes exponent rest : Bytes}
    (read : readExponent bytes = some (exponent, rest)) :
    Exponent exponent ∧ bytes = exponent ++ rest := by
  cases bytes with
  | nil =>
    cases read
    exact ⟨.inl rfl, rfl⟩
  | cons mark after =>
    by_cases marked : mark = 101 ∨ mark = 69
    · rw [readExponentSigned marked] at read
      cases signs : exponentSign after with
      | mk sign unsigned =>
        cases cut : digits unsigned with
        | mk ds last =>
          simp only [signs, cut, Option.ite_none_left_eq_some, Option.some.injEq,
            Prod.mk.injEq] at read
          obtain ⟨some, rfl, rfl⟩ := read
          obtain ⟨rfl, signed⟩ := exponentSignCut signs
          obtain ⟨all, rfl⟩ := digitsRead cut some
          exact ⟨.inr ⟨mark, sign, ds, rfl, marked, signed, all⟩, by simp⟩
    · simp only [readExponent, if_neg marked] at read
      cases read
      exact ⟨.inl rfl, rfl⟩

theorem Exponent.alone {exponent rest : Bytes} (number : Exponent exponent)
    (stops : Stops [101, 69] rest) : readExponent (exponent ++ rest) = some (exponent, rest) := by
  rcases number with rfl | ⟨mark, sign, ds, rfl, marked, signed, all⟩
  · cases rest with
    | nil => rfl
    | cons b more =>
      have other := (stops b rfl).2
      simp only [List.mem_cons, List.not_mem_nil, or_false] at other
      simp only [List.nil_append, readExponent, if_neg other]
  · rw [List.cons_append, List.append_assoc, readExponentSigned marked,
      exponentSignAlone signed all]
    simp only [all.alone (stops.fewer (by simp)), if_neg all.1, List.cons_append]

def numberSign (bytes : Bytes) : Bytes × Bytes :=
  match bytes with
  | 45 :: rest => ([45], rest)
  | _ => ([], bytes)

theorem readNumberSigned (bytes : Bytes) : readNumber bytes =
    let (sign, rest) := numberSign bytes
    (readWhole rest).bind fun (whole, rest) => (readFraction rest).bind fun (fraction, rest) =>
      (readExponent rest).bind fun (exponent, rest) =>
        some (sign ++ whole ++ fraction ++ exponent, rest) := rfl

theorem numberSignCut {bytes sign rest : Bytes} (cut : numberSign bytes = (sign, rest)) :
    bytes = sign ++ rest ∧ (sign = [] ∨ sign = [45]) := by
  unfold numberSign at cut
  split at cut <;> cases cut <;> simp

theorem numberRead {bytes text rest : Bytes} (read : readNumber bytes = some (text, rest)) :
    Number text ∧ bytes = text ++ rest := by
  rw [readNumberSigned] at read
  cases signs : numberSign bytes with
  | mk sign unsigned =>
    simp only [signs, Option.bind_eq_some_iff, Prod.exists, Option.some.injEq,
      Prod.mk.injEq] at read
    obtain ⟨whole, more, wholes, fraction, most, fractions, exponent, last, exponents, rfl, rfl⟩ :=
      read
    obtain ⟨rfl, signed⟩ := numberSignCut signs
    obtain ⟨numbered, rfl⟩ := wholeRead wholes
    obtain ⟨parted, rfl⟩ := fractionRead fractions
    obtain ⟨scaled, rfl⟩ := exponentRead exponents
    exact ⟨⟨sign, whole, fraction, exponent, by simp, signed, numbered, parted, scaled⟩, by simp⟩

theorem Whole.first {whole : Bytes} (number : Whole whole) :
    ∃ b more, whole = b :: more ∧ isDigit b = true := by
  rcases number with rfl | ⟨all, _⟩
  · exact ⟨48, [], rfl, rfl⟩
  · obtain ⟨b, more, rfl⟩ := List.exists_cons_of_ne_nil all.1
    exact ⟨b, more, rfl, all.2 b List.mem_cons_self⟩

theorem Number.alone {text rest : Bytes} (number : Number text) (stops : Stops [46, 101, 69] rest) :
    readNumber (text ++ rest) = some (text, rest) := by
  obtain ⟨sign, whole, fraction, exponent, rfl, signed, numbered, parted, scaled⟩ := number
  have last : Stops [46] (exponent ++ rest) := by
    rcases scaled with rfl | ⟨mark, _, _, rfl, rfl | rfl, _⟩
    · exact stops.fewer (by simp)
    · exact stopsAt (by decide)
    · exact stopsAt (by decide)
  have middle : Stops [] (fraction ++ (exponent ++ rest)) := by
    rcases parted with rfl | ⟨_, rfl, _⟩
    · exact last.fewer (by simp)
    · exact stopsAt (by decide)
  have signs : numberSign (sign ++ (whole ++ (fraction ++ (exponent ++ rest)))) =
      (sign, whole ++ (fraction ++ (exponent ++ rest))) := by
    rcases signed with rfl | rfl
    · obtain ⟨b, more, rfl, digit⟩ := numbered.first
      unfold numberSign
      split
      · rename_i same
        cases same
        contradiction
      · rfl
    · rfl
  simp only [readNumberSigned, List.append_assoc, signs, numbered.alone middle, parted.alone last,
    scaled.alone (stops.fewer (by simp)), Option.bind_some]

theorem wordRead {more : String} {v : Value} {rest after : Bytes} {token : Token} :
    readToken.word rest more v = some (token, after) ↔
      token = .scalar v ∧ rest = Bytes.ofText more ++ after := by
  simp only [readToken.word, Option.map_eq_some_iff, List.isPrefixOf?_eq_some_iff_append_eq,
    Prod.mk.injEq]
  constructor
  · rintro ⟨_, rfl, rfl, rfl⟩
    exact ⟨rfl, rfl⟩
  · rintro ⟨rfl, rfl⟩
    exact ⟨_, rfl, rfl, rfl⟩

theorem tokenRead {b : UInt8} {rest after : Bytes} {token : Token}
    (read : readToken b rest = some (token, after)) :
    ∃ front, token.Spelled front ∧ b :: rest = front ++ after := by
  unfold readToken at read
  split at read
  case h_7 =>
    simp only [Option.map_eq_some_iff, Prod.exists, Prod.mk.injEq] at read
    obtain ⟨raw, last, body, rfl, rfl⟩ := read
    obtain ⟨_, spelled, rfl, rfl⟩ := stringRead.mp body
    exact ⟨_, .string spelled, by simp⟩
  case h_8 =>
    obtain ⟨rfl, rfl⟩ := wordRead.mp read
    exact ⟨_, .null, rfl⟩
  case h_9 =>
    obtain ⟨rfl, rfl⟩ := wordRead.mp read
    exact ⟨_, .yes, rfl⟩
  case h_10 =>
    obtain ⟨rfl, rfl⟩ := wordRead.mp read
    exact ⟨_, .no, rfl⟩
  case h_11 =>
    simp only [Option.map_eq_some_iff, Prod.exists, Prod.mk.injEq] at read
    obtain ⟨text, last, number, rfl, rfl⟩ := read
    obtain ⟨spelled, same⟩ := numberRead number
    exact ⟨_, .number spelled, same⟩
  all_goals
    cases read
    exact ⟨[_], by constructor, rfl⟩

theorem Number.first {text : Bytes} (number : Number text) :
    ∃ b more, text = b :: more ∧ (b = 45 ∨ isDigit b = true) := by
  obtain ⟨sign, whole, _, _, rfl, rfl | rfl, numbered, _⟩ := number
  · obtain ⟨b, more, rfl, digit⟩ := numbered.first
    exact ⟨b, _, rfl, .inr digit⟩
  · exact ⟨45, _, rfl, .inl rfl⟩

theorem readTokenNumber {b : UInt8} (first : b = 45 ∨ isDigit b = true) (rest : Bytes) :
    readToken b rest = (readNumber (b :: rest)).map fun (text, rest) =>
      (.scalar (.number text), rest) := by
  unfold readToken
  split
  case h_11 => rfl
  all_goals exact absurd first (by decide)

def Token.isScalar : Token → Bool
  | .scalar _ => true
  | _ => false

theorem Token.Spelled.alone {token : Token} {front : Bytes} (spelled : token.Spelled front)
    {after : Bytes} (stops : token.isScalar = true → Stops [46, 101, 69] after) :
    ∃ b more, front = b :: more ∧ isSpace b = false ∧
      readToken b (more ++ after) = some (token, after) := by
  cases spelled with
  | null => exact ⟨110, _, rfl, by decide, wordRead.mpr ⟨rfl, rfl⟩⟩
  | yes => exact ⟨116, _, rfl, by decide, wordRead.mpr ⟨rfl, rfl⟩⟩
  | no => exact ⟨102, _, rfl, by decide, wordRead.mpr ⟨rfl, rfl⟩⟩
  | @string raw body =>
    have read : readString [] (raw ++ 34 :: after) = some (raw, after) :=
      stringRead.mpr ⟨raw, body, rfl, rfl⟩
    exact ⟨34, raw ++ [34], rfl, by decide, by simp [readToken, read]⟩
  | number number =>
    have read := number.alone (stops rfl)
    obtain ⟨b, more, rfl, first⟩ := number.first
    refine ⟨b, more, rfl, ?_, ?_⟩
    · rw [← Bool.not_eq_true]
      intro space
      simp only [isSpace, Bool.or_eq_true, beq_iff_eq, or_assoc] at space
      rcases space with rfl | rfl | rfl | rfl <;> exact absurd first (by decide)
    · rw [readTokenNumber first, ← List.cons_append, read]
      rfl
  | _ => exact ⟨_, [], rfl, by decide, rfl⟩

theorem dropBlanks {blanks bytes : Bytes} (blank : ∀ b ∈ blanks, isSpace b = true) :
    (blanks ++ bytes).dropWhile isSpace = bytes.dropWhile isSpace :=
  List.dropWhile_append_of_pos blank

theorem tokensRead {fuel : Nat} {seen tokens : List Token} {bytes : Bytes}
    (read : tokensFrom fuel seen bytes = some tokens) :
    ∃ more, tokens = seen.reverse ++ more ∧ Cut more bytes := by
  induction fuel generalizing seen bytes with
  | zero => contradiction
  | succ fuel ih =>
    have blank := List.all_eq_true.mp (@List.all_takeWhile _ isSpace bytes)
    have whole := @List.takeWhile_append_dropWhile _ isSpace bytes
    rw [tokensFrom] at read
    split at read
    · rename_i none
      cases read
      rw [none, List.append_nil] at whole
      exact ⟨[], by simp, whole ▸ .nil blank⟩
    · rename_i b rest left
      split at read
      · rename_i token after found
        obtain ⟨more, rfl, cut⟩ := ih read
        obtain ⟨front, spelled, same⟩ := tokenRead found
        rw [left, same] at whole
        exact ⟨token :: more, by simp, whole ▸ .cons blank spelled cut⟩
      · contradiction

def Apart : List Token → Prop
  | token :: next :: rest =>
    (token.isScalar = true → next.isScalar = false) ∧ Apart (next :: rest)
  | _ => True

theorem Apart.tail {token : Token} {tokens : List Token} (apart : Apart (token :: tokens)) :
    Apart tokens := by
  cases tokens with
  | nil => trivial
  | cons next rest => exact apart.2

theorem spaceStops {b : UInt8} {rest : Bytes} (space : isSpace b = true) :
    Stops [46, 101, 69] (b :: rest) := by
  simp only [isSpace, Bool.or_eq_true, beq_iff_eq, or_assoc] at space
  rcases space with rfl | rfl | rfl | rfl <;> exact stopsAt (by decide)

theorem Cut.stops {token : Token} {tokens : List Token} {bytes : Bytes} (cut : Cut tokens bytes)
    (apart : Apart (token :: tokens)) (scalar : token.isScalar = true) :
    Stops [46, 101, 69] bytes := by
  cases cut with
  | nil blank =>
    cases bytes with
    | nil => exact nofun
    | cons b rest => exact spaceStops (blank b List.mem_cons_self)
  | @cons blanks _ _ _ _ blank spelled others =>
    cases blanks with
    | cons b rest => exact spaceStops (blank b List.mem_cons_self)
    | nil =>
      have sign := apart.1 scalar
      clear blank
      cases spelled <;> first | contradiction | exact stopsAt (by decide)

theorem Cut.read {tokens : List Token} {bytes : Bytes} (cut : Cut tokens bytes)
    (apart : Apart tokens) {fuel : Nat} (enough : bytes.length < fuel) (seen : List Token) :
    tokensFrom fuel seen bytes = some (seen.reverse ++ tokens) := by
  induction cut generalizing fuel seen with
  | @nil blanks blank =>
    obtain ⟨fuel, rfl⟩ := Nat.exists_eq_succ_of_ne_zero (Nat.ne_zero_of_lt enough)
    have none := @dropBlanks blanks [] blank
    rw [List.append_nil, List.dropWhile_nil] at none
    simp [tokensFrom, none]
  | @cons blanks front back token tokens blank spelled others ih =>
    obtain ⟨fuel, rfl⟩ := Nat.exists_eq_succ_of_ne_zero (Nat.ne_zero_of_lt enough)
    obtain ⟨b, more, rfl, filled, read⟩ := spelled.alone (others.stops apart)
    have left : (blanks ++ (b :: more ++ back)).dropWhile isSpace = b :: (more ++ back) := by
      rw [dropBlanks blank, List.cons_append, List.dropWhile_cons_of_neg (by simp [filled])]
    simp only [List.length_append, List.length_cons] at enough
    have later := ih apart.tail (show back.length < fuel by omega) (token :: seen)
    simp only [tokensFrom, left, read, later, List.reverse_cons, List.append_assoc,
      List.singleton_append]

theorem tokensCut {tokens : List Token} {bytes : Bytes} (apart : Apart tokens) :
    Json.tokens bytes = some tokens ↔ Cut tokens bytes := by
  constructor
  · intro read
    obtain ⟨more, same, cut⟩ := tokensRead read
    rw [same]
    exact cut
  · exact fun cut => cut.read apart (Nat.lt_succ_self _) []

end SourceModels.Json

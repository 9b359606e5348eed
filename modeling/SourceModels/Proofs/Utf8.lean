import SourceModels.Text.Utf8

/-! The bytes of a text are UTF-8 throughout and spell that text, and no others do. -/
namespace SourceModels

theorem mapSome {α β : Type} {f : α → Option β} {xs : List α} {ys : List β} :
    xs.mapM f = some ys ↔ xs.map f = ys.map some := by
  induction xs generalizing ys with
  | nil => cases ys <;> simp
  | cons x rest ih =>
    simp only [List.mapM_cons, Option.bind_eq_bind, Option.pure_def, Option.bind_eq_some_iff,
      Option.some.injEq]
    constructor
    · rintro ⟨y, first, others, later, rfl⟩
      simp [first, ih.mp later]
    · intro same
      cases ys with
      | nil => simp at same
      | cons y others =>
        simp only [List.map_cons, List.cons.injEq] at same
        exact ⟨y, same.1, others, ih.mpr same.2, rfl⟩

end SourceModels

namespace SourceModels.Utf8

theorem frontEncoded (c : Char) (tail : Bytes) :
    front? (String.utf8EncodeChar c ++ tail) = some c := by
  have short : (String.utf8EncodeChar c).length ≤ 4 := by
    rw [String.length_utf8EncodeChar]
    exact c.utf8Size_le_four
  rw [front?, List.take_append, List.take_of_length_le short, List.toByteArray_append]
  exact ByteArray.utf8DecodeChar?_utf8EncodeChar_append

theorem nextEncoded {c : Char} {b : UInt8} {rest tail : Bytes}
    (bytes : b :: rest = String.utf8EncodeChar c ++ tail) : next b rest = (.char c, tail) := by
  simp [next, bytes, frontEncoded, List.drop_left']

theorem encodedNonempty (c : Char) (tail : Bytes) :
    ∃ b rest, String.utf8EncodeChar c ++ tail = b :: rest := by
  cases bytes : String.utf8EncodeChar c with
  | nil => exact absurd bytes String.utf8EncodeChar_ne_nil
  | cons b rest => exact ⟨b, rest ++ tail, rfl⟩

theorem piecesOfChars (chars : List Char) (fuel : Nat) (seen : List Piece)
    (enough : chars.length ≤ fuel) :
    piecesFrom fuel (Bytes.ofChars chars) seen = seen.reverse ++ chars.map .char := by
  induction chars generalizing fuel seen with
  | nil => cases fuel <;> simp [Bytes.ofChars, piecesFrom]
  | cons c rest ih =>
    cases fuel with
    | zero => simp at enough
    | succ fuel =>
      obtain ⟨b, after, bytes⟩ := encodedNonempty c (Bytes.ofChars rest)
      have whole : Bytes.ofChars (c :: rest) = b :: after := bytes
      have later := ih fuel (.char c :: seen) (by simpa using enough)
      simp [whole, piecesFrom, nextEncoded bytes.symm, later]

theorem lengthOfChars (chars : List Char) : chars.length ≤ (Bytes.ofChars chars).length := by
  induction chars with
  | nil => simp
  | cons c rest ih =>
    obtain ⟨b, after, bytes⟩ := encodedNonempty c []
    have whole : Bytes.ofChars (c :: rest) = String.utf8EncodeChar c ++ Bytes.ofChars rest := rfl
    rw [List.append_nil] at bytes
    rw [whole, bytes]
    simp only [List.length_cons, List.length_append]
    omega

theorem lengthBounded (chars : List Char) : (Bytes.ofChars chars).length ≤ 4 * chars.length := by
  induction chars with
  | nil => simp [Bytes.ofChars]
  | cons c rest ih =>
    have first := c.utf8Size_le_four
    have whole : Bytes.ofChars (c :: rest) = String.utf8EncodeChar c ++ Bytes.ofChars rest := rfl
    simp only [whole, List.length_append, String.length_utf8EncodeChar, List.length_cons]
    omega

theorem ofTextChars (text : String) : Bytes.ofText text = Bytes.ofChars text.toList := rfl

theorem piecesOfText (text : String) : pieces (Bytes.ofText text) = text.toList.map .char := by
  rw [pieces, ofTextChars, piecesOfChars _ _ _ (lengthOfChars _)]
  rfl

theorem charsOfPieces (chars : List Char) :
    (chars.map Piece.char).mapM Piece.char? = some chars := by
  induction chars with
  | nil => rfl
  | cons c rest ih => simp [ih, Piece.char?]

@[simp]
theorem decodeText (text : String) : decode? (Bytes.ofText text) = some text := by
  rw [decode?, piecesOfText, charsOfPieces]
  simp

theorem frontDecoded {bytes : Bytes} {c : Char} (front : front? bytes = some c) :
    ∃ rest, bytes = String.utf8EncodeChar c ++ rest := by
  obtain ⟨more, same⟩ := ByteArray.exists_of_utf8DecodeChar?_eq_some front
  have listed := congrArg (fun array => array.data.toList) same
  simp only [List.data_toByteArray, ByteArray.data_append, Array.toList_append] at listed
  refine ⟨more.data.toList ++ bytes.drop 4, ?_⟩
  rw [← List.append_assoc, ← listed, List.take_append_drop]

theorem nextDecoded {b : UInt8} {rest after : Bytes} {c : Char}
    (read : next b rest = (.char c, after)) : b :: rest = String.utf8EncodeChar c ++ after := by
  unfold next at read
  split at read
  · rename_i d front
    obtain ⟨more, same⟩ := frontDecoded front
    rw [same, List.drop_left' (String.length_utf8EncodeChar d)] at read
    cases read
    exact same
  · simp at read

theorem piecesAfter (fuel : Nat) (bytes : Bytes) (seen : List Piece) :
    piecesFrom fuel bytes seen = seen.reverse ++ piecesFrom fuel bytes [] := by
  induction fuel generalizing bytes seen with
  | zero => simp [piecesFrom]
  | succ fuel ih =>
    cases bytes with
    | nil => simp [piecesFrom]
    | cons b rest =>
      simp only [piecesFrom]
      rw [ih _ (_ :: seen), ih _ [_]]
      simp

theorem charsDecoded {fuel : Nat} {bytes : Bytes} {chars : List Char}
    (enough : bytes.length ≤ fuel) (read : piecesFrom fuel bytes [] = chars.map .char) :
    bytes = Bytes.ofChars chars := by
  induction fuel generalizing bytes chars with
  | zero =>
    have none : bytes = [] := List.eq_nil_of_length_eq_zero (Nat.le_zero.mp enough)
    subst none
    simp only [piecesFrom, List.reverse_nil, List.nil_eq, List.map_eq_nil_iff] at read
    simp [read, Bytes.ofChars]
  | succ fuel ih =>
    cases bytes with
    | nil =>
      simp only [piecesFrom, List.reverse_nil, List.nil_eq, List.map_eq_nil_iff] at read
      simp [read, Bytes.ofChars]
    | cons b rest =>
      simp only [piecesFrom] at read
      rw [piecesAfter, List.reverse_singleton, List.singleton_append] at read
      cases chars with
      | nil => simp at read
      | cons c others =>
        simp only [List.map_cons, List.cons.injEq] at read
        obtain ⟨first, later⟩ := read
        have whole : b :: rest = String.utf8EncodeChar c ++ (next b rest).2 :=
          nextDecoded (Prod.ext first rfl)
        have some := c.utf8Size_pos
        have spent := congrArg List.length whole
        rw [List.length_append, String.length_utf8EncodeChar] at spent
        rw [List.length_cons] at enough spent
        rw [whole, ih (by omega) later]
        rfl

theorem piecesOfMap {pieces : List Piece} {chars : List Char}
    (read : pieces.mapM Piece.char? = some chars) : pieces = chars.map .char := by
  induction pieces generalizing chars with
  | nil => simp_all
  | cons piece rest ih =>
    simp only [List.mapM_cons, Option.bind_eq_bind, Option.pure_def, Option.bind_eq_some_iff,
      Option.some.injEq] at read
    obtain ⟨c, first, others, later, rfl⟩ := read
    cases piece with
    | char d =>
      cases first
      rw [ih later, List.map_cons]
    | broken => simp [Piece.char?] at first

theorem decodedText {bytes : Bytes} {text : String} (read : decode? bytes = some text) :
    bytes = Bytes.ofText text := by
  rw [decode?, Option.map_eq_some_iff] at read
  obtain ⟨chars, all, rfl⟩ := read
  rw [ofTextChars, String.toList_ofList]
  exact charsDecoded (Nat.le_refl _) (piecesOfMap all)

end SourceModels.Utf8

namespace SourceModels.Bytes

theorem ofTextInjective {a b : String} (same : ofText a = ofText b) : a = b := by
  have read := Utf8.decodeText a
  rw [same, Utf8.decodeText] at read
  exact (Option.some.inj read).symm

theorem ofCharsAppend (front back : List Char) :
    ofChars (front ++ back) = ofChars front ++ ofChars back := List.flatMap_append

theorem plainAlone {c : Char} {b : UInt8} (inside : b ∈ String.utf8EncodeChar c) (plain : b < 128) :
    String.utf8EncodeChar c = [b] := by
  have bound : b.toNat < 128 := UInt8.lt_iff_toNat_lt.mp plain
  simp only [String.utf8EncodeChar] at inside ⊢
  split at inside
  · rename_i small
    rw [if_pos small, List.mem_singleton.mp inside]
  -- every byte of a longer form is 128 or more
  all_goals exfalso
  split at inside
  · simp only [List.mem_cons, List.not_mem_nil, or_false] at inside
    rcases inside with rfl | rfl <;> simp only [UInt8.toNat_ofNat'] at bound <;> omega
  split at inside
  · simp only [List.mem_cons, List.not_mem_nil, or_false] at inside
    rcases inside with rfl | rfl | rfl <;> simp only [UInt8.toNat_ofNat'] at bound <;> omega
  · simp only [List.mem_cons, List.not_mem_nil, or_false] at inside
    rcases inside with rfl | rfl | rfl | rfl <;> simp only [UInt8.toNat_ofNat'] at bound <;> omega

theorem plainCut {chars : List Char} {front rest : Bytes} {b : UInt8}
    (cut : ofChars chars = front ++ b :: rest) (plain : b < 128) :
    ∃ before after, chars = before ++ after ∧ front = ofChars before ∧ ofChars after = b :: rest := by
  induction chars generalizing front with
  | nil => simp [ofChars] at cut
  | cons c more ih =>
    cases front with
    | nil => exact ⟨[], c :: more, rfl, rfl, cut⟩
    | cons a front =>
      have first : ofChars (c :: more) = String.utf8EncodeChar c ++ ofChars more := rfl
      rw [first, List.append_eq_append_iff] at cut
      rcases cut with ⟨inner, begun, later⟩ | ⟨inner, whole, later⟩
      · obtain ⟨before, after, rfl, same, others⟩ := ih later
        exact ⟨c :: before, after, rfl, by rw [begun, same]; rfl, others⟩
      · cases inner with
        | nil =>
          rw [List.nil_append] at later
          exact ⟨[c], more, rfl, by simpa [ofChars] using whole.symm, later.symm⟩
        | cons d inner =>
          obtain ⟨rfl, _⟩ := List.cons.inj later
          have alone := plainAlone (b := b) (c := c) (by simp [whole]) plain
          rw [alone] at whole
          simp at whole

theorem ofCharsStarts {mark chars : List Char} {back : Bytes}
    (starts : ofChars chars = ofChars mark ++ back) :
    ∃ after, chars = mark ++ after ∧ ofChars after = back := by
  induction mark generalizing chars with
  | nil => exact ⟨chars, rfl, by simpa [ofChars] using starts⟩
  | cons m more ih =>
    have first : ofChars (m :: more) = String.utf8EncodeChar m ++ ofChars more := rfl
    rw [first, List.append_assoc] at starts
    have read := Utf8.frontEncoded m (ofChars more ++ back)
    rw [← starts] at read
    cases chars with
    | nil =>
      obtain ⟨b, rest, bytes⟩ := Utf8.encodedNonempty m (ofChars more ++ back)
      rw [bytes] at starts
      simp [ofChars] at starts
    | cons c others =>
      have own : ofChars (c :: others) = String.utf8EncodeChar c ++ ofChars others := rfl
      rw [own, Utf8.frontEncoded] at read
      obtain rfl := Option.some.inj read
      rw [own, List.append_cancel_left_eq] at starts
      obtain ⟨after, rfl, same⟩ := ih starts
      exact ⟨after, rfl, same⟩

theorem startsAlike {mark chars : List Char} : ofChars mark <+: ofChars chars ↔ mark <+: chars := by
  constructor
  · rintro ⟨back, same⟩
    obtain ⟨after, rfl, _⟩ := ofCharsStarts same.symm
    exact ⟨after, rfl⟩
  · rintro ⟨after, rfl⟩
    exact ⟨ofChars after, (ofCharsAppend mark after).symm⟩

section
variable {mark chars : List Char} {b : UInt8} {rest : Bytes}

theorem occursAlike (opens : ofChars mark = b :: rest) (plain : b < 128) :
    ofChars mark <:+: ofChars chars ↔ mark <:+: chars := by
  constructor
  · rintro ⟨front, back, same⟩
    rw [opens, List.append_assoc, List.cons_append] at same
    obtain ⟨before, after, rfl, _, later⟩ := plainCut same.symm plain
    rw [← List.cons_append, ← opens] at later
    obtain ⟨ends, rfl, _⟩ := ofCharsStarts later
    exact ⟨before, ends, by simp⟩
  · rintro ⟨before, after, rfl⟩
    exact ⟨ofChars before, ofChars after, by simp only [ofCharsAppend]⟩

theorem endsAlike (opens : ofChars mark = b :: rest) (plain : b < 128) :
    ofChars mark <:+ ofChars chars ↔ mark <:+ chars := by
  constructor
  · rintro ⟨front, same⟩
    rw [opens] at same
    obtain ⟨before, after, rfl, _, later⟩ := plainCut same.symm plain
    rw [← opens, ← List.append_nil (ofChars mark)] at later
    obtain ⟨ends, rfl, none⟩ := ofCharsStarts later
    have last := Nat.le_trans (Utf8.lengthOfChars ends) (Nat.le_of_eq (congrArg List.length none))
    have empty : ends = [] := List.eq_nil_of_length_eq_zero (Nat.le_zero.mp last)
    exact ⟨before, by simp [empty]⟩
  · rintro ⟨before, rfl⟩
    exact ⟨ofChars before, (ofCharsAppend before mark).symm⟩

end

end SourceModels.Bytes

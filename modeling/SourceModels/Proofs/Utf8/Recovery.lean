import SourceModels.Proofs.Utf8

/-! What tolerant reading makes of any bytes: the characters that stand in them, in order, and one
replacement for each longest start of a character that does not come to an end. -/
namespace SourceModels.Utf8

def Starts (front : Bytes) : Prop := ∃ c, front <+: String.utf8EncodeChar c

/-- The bytes from the piece on do not begin with a character. Of those that a character could begin
with the piece has all, or it is a single byte where there are none. -/
structure IllFormed (piece rest : Bytes) : Prop where
  noCharacter : ∀ c, ¬ String.utf8EncodeChar c <+: piece ++ rest
  filled : piece ≠ []
  starts : piece.length = 1 ∨ Starts piece
  longest : ∀ front, front <+: piece ++ rest → Starts front → front.length ≤ piece.length

inductive Recovered : Bytes → List Char → Prop where
  | none : Recovered [] []
  | char (c : Char) {rest : Bytes} {chars : List Char} (more : Recovered rest chars) :
      Recovered (String.utf8EncodeChar c ++ rest) (c :: chars)
  | broken {piece rest : Bytes} {chars : List Char} (illFormed : IllFormed piece rest)
      (more : Recovered rest chars) : Recovered (piece ++ rest) ('\uFFFD' :: chars)

def Follows : (wanted : Nat) → (lo hi : UInt8) → Bytes → Prop
  | _, _, _, [] => True
  | 0, _, _, _ :: _ => False
  | wanted + 1, lo, hi, b :: rest => (lo ≤ b ∧ b ≤ hi) ∧ Follows wanted 0x80 0xBF rest

/-- The forms of two, three and four bytes. The range of the second byte leaves out what has a
shorter form, the surrogates, and what is above the last character. -/
def Leads (b wanted lo hi : Nat) : Prop :=
  (0xC2 ≤ b ∧ b ≤ 0xDF) ∧ wanted = 1 ∧ lo = 0x80 ∧ hi = 0xBF ∨
  (0xE0 ≤ b ∧ b ≤ 0xEF) ∧ wanted = 2 ∧ (b = 0xE0 ∧ lo = 0xA0 ∨ b ≠ 0xE0 ∧ lo = 0x80) ∧
    (b = 0xED ∧ hi = 0x9F ∨ b ≠ 0xED ∧ hi = 0xBF) ∨
  (0xF0 ≤ b ∧ b ≤ 0xF4) ∧ wanted = 3 ∧ (b = 0xF0 ∧ lo = 0x90 ∨ b ≠ 0xF0 ∧ lo = 0x80) ∧
    (b = 0xF4 ∧ hi = 0x8F ∨ b ≠ 0xF4 ∧ hi = 0xBF)

instance (b wanted lo hi : Nat) : Decidable (Leads b wanted lo hi) :=
  inferInstanceAs (Decidable (_ ∨ _ ∨ _))

theorem leadForms (b : UInt8) :
    (∀ form ∈ lead b, Leads b.toNat form.1 form.2.1.toNat form.2.2.toNat) ∧
    (lead b = none → b.toNat < 0xC2 ∨ 0xF4 < b.toNat) := by
  have all : ∀ n : Fin 256,
      (∀ form ∈ lead (.ofFin n), Leads n form.1 form.2.1.toNat form.2.2.toNat) ∧
      (lead (.ofFin n) = none → (n : Nat) < 0xC2 ∨ 0xF4 < (n : Nat)) := by decide +kernel
  exact all b.toFin

theorem leadLeads {b lo hi : UInt8} {wanted : Nat} (leads : lead b = some (wanted, lo, hi)) :
    Leads b.toNat wanted lo.toNat hi.toNat := (leadForms b).1 _ leads

theorem leadWithin {b : UInt8} (bounds : 0xC2 ≤ b.toNat ∧ b.toNat ≤ 0xF4) :
    ∃ wanted lo hi, lead b = some (wanted, lo, hi) ∧ Leads b.toNat wanted lo.toNat hi.toNat := by
  cases leads : lead b with
  | none =>
    have outside := (leadForms b).2 leads
    omega
  | some form => exact ⟨_, _, _, rfl, leadLeads leads⟩

theorem encodedFollows {c : Char} {b : UInt8} {rest : Bytes}
    (spelled : String.utf8EncodeChar c = b :: rest) :
    rest = [] ∨ ∃ lo hi, lead b = some (rest.length, lo, hi) ∧ Follows rest.length lo hi rest := by
  have valid : c.val.toNat < 0xD800 ∨ 0xDFFF < c.val.toNat ∧ c.val.toNat < 0x110000 := c.valid
  unfold String.utf8EncodeChar at spelled
  generalize c.val.toNat = v at spelled valid
  dsimp only at spelled
  split at spelled
  · exact .inl (List.cons.inj spelled).2.symm
  right
  -- the same for each of the longer forms: the first byte tells which of them it is
  split at spelled
  case' isFalse => split at spelled
  all_goals
    obtain ⟨first, tail⟩ := List.cons.inj spelled
    have number := congrArg UInt8.toNat first
    rw [UInt8.toNat_ofNat'] at number
    obtain ⟨wanted, lo, hi, leads, form⟩ := @leadWithin b (by omega)
    have count : wanted = rest.length := by
      simp only [← tail, List.length_cons, List.length_nil]
      unfold Leads at form
      omega
    refine ⟨lo, hi, count ▸ leads, ?_⟩
    subst tail
    unfold Leads at form
    simp only [Follows, List.length_cons, List.length_nil, UInt8.le_iff_toNat_le,
      UInt8.toNat_ofNat', UInt8.reduceToNat, and_true] at count ⊢
    omega

theorem charOf {v : Nat} (valid : v < 0xD800 ∨ 0xDFFF < v ∧ v < 0x110000) :
    ∃ c : Char, c.val.toNat = v := by
  have number : (UInt32.ofNat v).toNat = v := by
    rw [UInt32.toNat_ofNat']
    omega
  refine ⟨⟨.ofNat v, ?_⟩, number⟩
  rw [UInt32.isValidChar, number]
  exact valid

theorem followsEncoded {b lo hi : UInt8} {wanted : Nat} {rest : Bytes}
    (leads : lead b = some (wanted, lo, hi)) (full : rest.length = wanted)
    (follows : Follows wanted lo hi rest) : ∃ c, String.utf8EncodeChar c = b :: rest := by
  have form := leadLeads leads
  unfold Leads at form
  rcases form with ⟨bounds, rfl, form⟩ | ⟨bounds, rfl, form⟩ | ⟨bounds, rfl, form⟩
  · match rest with
    | [x] =>
    simp only [Follows, UInt8.le_iff_toNat_le, and_true] at follows
    obtain ⟨c, number⟩ := @charOf (b.toNat % 32 * 64 + x.toNat % 64) (by omega)
    refine ⟨c, ?_⟩
    rw [String.utf8EncodeChar, number]
    rw [if_neg (by omega), if_pos (by omega)]
    simp only [List.cons.injEq, ← UInt8.toNat_inj, UInt8.toNat_ofNat', and_true]
    omega
  · match rest with
    | [x, y] =>
    simp only [Follows, UInt8.le_iff_toNat_le, UInt8.reduceToNat, and_true] at follows
    obtain ⟨c, number⟩ :=
      @charOf (b.toNat % 16 * 4096 + x.toNat % 64 * 64 + y.toNat % 64) (by omega)
    refine ⟨c, ?_⟩
    rw [String.utf8EncodeChar, number]
    rw [if_neg (by omega), if_neg (by omega), if_pos (by omega)]
    simp only [List.cons.injEq, ← UInt8.toNat_inj, UInt8.toNat_ofNat', and_true]
    omega
  · match rest with
    | [x, y, z] =>
    simp only [Follows, UInt8.le_iff_toNat_le, UInt8.reduceToNat, and_true] at follows
    obtain ⟨c, number⟩ := @charOf
      (b.toNat % 8 * 262144 + x.toNat % 64 * 4096 + y.toNat % 64 * 64 + z.toNat % 64) (by omega)
    refine ⟨c, ?_⟩
    rw [String.utf8EncodeChar, number]
    rw [if_neg (by omega), if_neg (by omega), if_neg (by omega)]
    simp only [List.cons.injEq, ← UInt8.toNat_inj, UInt8.toNat_ofNat', and_true]
    omega

section
variable {wanted : Nat} {lo hi : UInt8} {front rest : Bytes}

theorem followsNone : Follows wanted lo hi [] := by
  cases wanted <;> trivial

theorem followsShort (follows : Follows wanted lo hi rest) : rest.length ≤ wanted := by
  induction wanted generalizing lo hi rest with
  | zero =>
    cases rest with
    | nil => exact Nat.le_refl 0
    | cons _ _ => exact follows.elim
  | succ wanted ih =>
    cases rest with
    | nil => exact Nat.zero_le _
    | cons b more => exact Nat.succ_le_succ (ih follows.2)

theorem followsFront {back : Bytes} (follows : Follows wanted lo hi (front ++ back)) :
    Follows wanted lo hi front := by
  induction wanted generalizing lo hi front with
  | zero =>
    cases front with
    | nil => trivial
    | cons _ _ => exact follows
  | succ wanted ih =>
    cases front with
    | nil => trivial
    | cons b more => exact ⟨follows.1, ih follows.2⟩

theorem followsFilled (range : lo ≤ hi) (follows : Follows wanted lo hi front) :
    ∃ more, (front ++ more).length = wanted ∧ Follows wanted lo hi (front ++ more) := by
  induction wanted generalizing lo hi front with
  | zero =>
    have none := List.eq_nil_of_length_eq_zero (Nat.le_zero.mp (followsShort follows))
    exact ⟨[], by simp [none], by simpa using follows⟩
  | succ wanted ih =>
    have usual : (0x80 : UInt8) ≤ 0xBF := by decide
    cases front with
    | nil =>
      obtain ⟨more, full, later⟩ := @ih 0x80 0xBF [] usual followsNone
      exact ⟨lo :: more, congrArg (· + 1) full, ⟨UInt8.le_refl lo, range⟩, later⟩
    | cons b others =>
      obtain ⟨more, full, later⟩ := ih usual follows.2
      exact ⟨more, congrArg (· + 1) full, follows.1, later⟩

theorem tailFollows : Follows wanted lo hi (rest.take (tailLength wanted lo hi rest)) := by
  induction wanted generalizing lo hi rest with
  | zero => simp [tailLength, Follows]
  | succ wanted ih =>
    cases rest with
    | nil => simp [Follows]
    | cons b more =>
      rw [tailLength]
      split
      · rename_i within
        exact ⟨within, ih⟩
      · trivial

theorem tailLongest (starts : front <+: rest) (follows : Follows wanted lo hi front) :
    front.length ≤ tailLength wanted lo hi rest := by
  induction wanted generalizing lo hi front rest with
  | zero => exact Nat.le_trans (followsShort follows) (Nat.zero_le _)
  | succ wanted ih =>
    cases front with
    | nil => exact Nat.zero_le _
    | cons b more =>
      obtain ⟨back, rfl⟩ := starts
      rw [List.cons_append, tailLength, if_pos follows.1]
      exact Nat.succ_le_succ (ih ⟨back, rfl⟩ follows.2)

end

theorem leadRange {b lo hi : UInt8} {wanted : Nat} (leads : lead b = some (wanted, lo, hi)) :
    lo ≤ hi := by
  have form := leadLeads leads
  unfold Leads at form
  rw [UInt8.le_iff_toNat_le]
  omega

theorem brokenLongest {b : UInt8} {rest front : Bytes} (begins : front <+: b :: rest)
    (starts : Starts front) : front.length ≤ brokenLength b rest := by
  unfold brokenLength
  obtain ⟨c, back, spelled⟩ := starts
  cases front with
  | nil => exact Nat.zero_le _
  | cons d more =>
    obtain ⟨rfl, inside⟩ := List.cons_prefix_cons.mp begins
    rcases encodedFollows spelled.symm with none | ⟨lo, hi, leads, follows⟩
    · obtain ⟨rfl, _⟩ := List.append_eq_nil_iff.mp none
      split <;> simp
    · have within := tailLongest inside (followsFront follows)
      simp only [leads, List.length_cons]
      omega

theorem brokenStarts (b : UInt8) (rest : Bytes) :
    brokenLength b rest = 1 ∨ Starts ((b :: rest).take (brokenLength b rest)) := by
  unfold brokenLength
  cases leads : lead b with
  | none => exact .inl rfl
  | some form =>
    obtain ⟨wanted, lo, hi⟩ := form
    right
    obtain ⟨more, full, follows⟩ :=
      followsFilled (leadRange leads) (@tailFollows wanted lo hi rest)
    obtain ⟨c, spelled⟩ := followsEncoded leads full follows
    exact ⟨c, more, by rw [spelled]; simp only [Nat.add_comm 1, List.take_succ_cons]; rfl⟩

theorem brokenFilled (b : UInt8) (rest : Bytes) : 0 < brokenLength b rest := by
  unfold brokenLength
  split <;> omega

theorem brokenNext {b : UInt8} {rest after : Bytes} (read : next b rest = (.broken, after)) :
    ∃ piece, b :: rest = piece ++ after ∧ IllFormed piece after := by
  unfold next at read
  split at read
  · simp at read
  rename_i unread
  obtain rfl := congrArg Prod.snd read
  have whole := List.take_append_drop (brokenLength b rest) (b :: rest)
  refine ⟨_, whole.symm, ?_⟩
  constructor
  case noCharacter =>
    rw [whole]
    rintro c ⟨back, same⟩
    rw [← same, frontEncoded] at unread
    contradiction
  case filled =>
    obtain ⟨less, length⟩ := Nat.exists_eq_succ_of_ne_zero (Nat.ne_of_gt (brokenFilled b rest))
    simp [length]
  case starts =>
    refine (brokenStarts b rest).imp_left fun one => ?_
    simp [one]
  case longest =>
    rw [whole]
    intro front begins starts
    have short := brokenLongest begins starts
    have inside := begins.length_le
    rw [List.length_take]
    omega

theorem recoveredFrom {fuel : Nat} {bytes : Bytes} (enough : bytes.length ≤ fuel) :
    Recovered bytes ((piecesFrom fuel bytes []).map Piece.orReplacement) := by
  induction fuel generalizing bytes with
  | zero =>
    obtain rfl := List.eq_nil_of_length_eq_zero (Nat.le_zero.mp enough)
    exact .none
  | succ fuel ih =>
    cases bytes with
    | nil => exact .none
    | cons b rest =>
      rw [List.length_cons] at enough
      simp only [piecesFrom]
      rw [piecesAfter, List.reverse_singleton, List.singleton_append, List.map_cons]
      cases read : next b rest with
      | mk piece after =>
        cases piece with
        | char c =>
          have whole := nextDecoded read
          have spent := congrArg List.length whole
          have some := c.utf8Size_pos
          rw [List.length_append, String.length_utf8EncodeChar, List.length_cons] at spent
          rw [whole]
          exact .char c (ih (by omega))
        | broken =>
          obtain ⟨piece, whole, illFormed⟩ := brokenNext read
          have spent := congrArg List.length whole
          have some := List.length_pos_iff.mpr illFormed.filled
          rw [List.length_append, List.length_cons] at spent
          rw [whole]
          exact .broken illFormed (ih (by omega))

theorem lossyRecovered (bytes : Bytes) : Recovered bytes (decodeLossy bytes).toList := by
  rw [decodeLossy, String.toList_ofList]
  exact recoveredFrom (Nat.le_refl _)

theorem IllFormed.unique {piece piece' rest rest' : Bytes} (one : IllFormed piece rest)
    (other : IllFormed piece' rest') (same : piece ++ rest = piece' ++ rest') : piece = piece' := by
  have atMost : ∀ {p q r s : Bytes}, IllFormed p r → IllFormed q s → p ++ r = q ++ s →
      p.length ≤ q.length := by
    intro p q r s first second equal
    rcases first.starts with single | starts
    · have filled := List.length_pos_iff.mpr second.filled
      omega
    · exact second.longest p ⟨r, equal⟩ starts
  have length := Nat.le_antisymm (atMost one other same) (atMost other one same.symm)
  exact (List.append_inj same length).1

theorem Recovered.unique {bytes : Bytes} {chars chars' : List Char} (one : Recovered bytes chars)
    (other : Recovered bytes chars') : chars = chars' := by
  induction one generalizing chars' with
  | none =>
    generalize same : ([] : Bytes) = bytes at other
    cases other with
    | none => rfl
    | char c _ => simp at same
    | broken illFormed _ => simp [illFormed.filled] at same
  | @char c rest chars more ih =>
    generalize same : String.utf8EncodeChar c ++ rest = bytes at other
    cases other with
    | none => simp at same
    | @char d rest' _ more' =>
      have read := frontEncoded c rest
      rw [same, frontEncoded] at read
      obtain rfl := Option.some.inj read
      rw [List.append_cancel_left_eq] at same
      subst same
      rw [ih more']
    | broken illFormed _ => exact absurd ⟨rest, same⟩ (illFormed.noCharacter c)
  | @broken piece rest chars illFormed more ih =>
    generalize same : piece ++ rest = bytes at other
    cases other with
    | none => simp [illFormed.filled] at same
    | @char c rest' _ _ => exact absurd ⟨rest', same.symm⟩ (illFormed.noCharacter c)
    | broken illFormed' more' =>
      obtain rfl := illFormed.unique illFormed' same
      rw [List.append_cancel_left_eq] at same
      subst same
      rw [ih more']

theorem recoveredIff {bytes : Bytes} {text : String} :
    Recovered bytes text.toList ↔ decodeLossy bytes = text := by
  constructor
  · intro recovered
    exact String.toList_inj.mp ((lossyRecovered bytes).unique recovered)
  · rintro rfl
    exact lossyRecovered bytes

theorem recoveredChars (chars : List Char) : Recovered (Bytes.ofChars chars) chars := by
  induction chars with
  | nil => exact .none
  | cons c rest ih => exact .char c ih

@[simp]
theorem lossyText (text : String) : decodeLossy (Bytes.ofText text) = text :=
  recoveredIff.mp (recoveredChars text.toList)

end SourceModels.Utf8

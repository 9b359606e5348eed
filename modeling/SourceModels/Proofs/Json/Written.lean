import SourceModels.Json.Writer
import SourceModels.Proofs.Json.Documents
import SourceModels.Proofs.Json.Records
import SourceModels.Proofs.Utf8

/-! What is written is a document: every text is spelled by a string that says it again, and an
object of texts by the object of those strings. -/
namespace SourceModels.Json

inductive Spells (c : Char) : Bytes → Prop where
  | plain (visible : ∀ b ∈ String.utf8EncodeChar c, ¬ b < 32 ∧ b ≠ 34 ∧ b ≠ 92) :
      Spells c (String.utf8EncodeChar c)
  | letter {b code : UInt8} (known : escaped? b = some code)
      (means : String.utf8EncodeChar c = [code]) : Spells c [92, b]
  | number {a b d e : UInt8} (known : hexFour? a b d e = some c.toNat) (low : c.toNat < 0xD800) :
      Spells c [92, 117, a, b, d, e]

theorem controlSpelled (n : Fin 32) :
    hexFour? 48 48 (UInt8.ofNat (Bytes.hexDigit (n / 16)).toNat)
      (UInt8.ofNat (Bytes.hexDigit (n % 16)).toNat) = some n.val ∧
    Bytes.ofChars ['\\', 'u', '0', '0', Bytes.hexDigit (n / 16), Bytes.hexDigit (n % 16)] =
      [92, 117, 48, 48, UInt8.ofNat (Bytes.hexDigit (n / 16)).toNat,
        UInt8.ofNat (Bytes.hexDigit (n % 16)).toNat] := by
  revert n
  decide +kernel

theorem singleByte {c : Char} {b : UInt8} (alone : String.utf8EncodeChar c = [b]) :
    c.toNat = b.toNat := by
  have one : c.utf8Size = 1 := by rw [← String.length_utf8EncodeChar, alone, List.length_singleton]
  rw [String.utf8EncodeChar_eq_singleton one, List.singleton_inj] at alone
  have small : c.val.toNat ≤ 127 :=
    UInt32.le_iff_toNat_le.mp (Char.utf8Size_eq_one_iff.mp one)
  rw [← alone, UInt32.toNat_toUInt8]
  exact (Nat.mod_eq_of_lt (Nat.lt_of_le_of_lt small (by decide))).symm

theorem visibleBytes {c : Char} (quote : c ≠ '"') (back : c ≠ '\\') (low : ¬ c.toNat < 32) :
    ∀ b ∈ String.utf8EncodeChar c, ¬ b < 32 ∧ b ≠ 34 ∧ b ≠ 92 := by
  intro b inside
  by_cases plain : b < 128
  · have number := singleByte (Bytes.plainAlone inside plain)
    refine ⟨fun small => low (number ▸ UInt8.lt_iff_toNat_lt.mp small), ?_, ?_⟩
    · rintro rfl
      exact quote (Char.toNat_inj.mp number)
    · rintro rfl
      exact back (Char.toNat_inj.mp number)
  · refine ⟨fun small => plain (UInt8.lt_trans small (by decide)), ?_, ?_⟩
    · rintro rfl
      exact plain (by decide)
    · rintro rfl
      exact plain (by decide)

theorem escapeSpells (c : Char) : Spells c (Bytes.ofChars (escapeChar c)) := by
  unfold escapeChar
  split
  · subst c
    exact @Spells.letter _ 34 34 rfl rfl
  rename_i quote
  split
  · subst c
    exact @Spells.letter _ 92 92 rfl rfl
  rename_i back
  split
  · subst c
    exact @Spells.letter _ 110 10 rfl rfl
  split
  · subst c
    exact @Spells.letter _ 114 13 rfl rfl
  split
  · subst c
    exact @Spells.letter _ 116 9 rfl rfl
  split
  · subst c
    exact @Spells.letter _ 98 8 rfl rfl
  split
  · subst c
    exact @Spells.letter _ 102 12 rfl rfl
  split
  · rename_i low
    obtain ⟨known, spelled⟩ := controlSpelled ⟨c.toNat, low⟩
    rw [spelled]
    exact .number known (Nat.lt_trans low (by decide))
  · rename_i low
    have own : Bytes.ofChars [c] = String.utf8EncodeChar c := List.append_nil _
    rw [own]
    exact .plain (visibleBytes quote back low)

theorem plainBody {bytes rest : Bytes} (visible : ∀ b ∈ bytes, ¬ b < 32 ∧ b ≠ 34 ∧ b ≠ 92)
    (body : StringBody rest) : StringBody (bytes ++ rest) := by
  induction bytes with
  | nil => exact body
  | cons b more ih =>
    obtain ⟨first, others⟩ := List.forall_mem_cons.mp visible
    exact .plain first.1 first.2 (ih others)

theorem Spells.body {c : Char} {bytes rest : Bytes} (spells : Spells c bytes)
    (body : StringBody rest) : StringBody (bytes ++ rest) := by
  cases spells with
  | plain visible => exact plainBody visible body
  | letter known means => exact .escape known body
  | number known low => exact .unicode known body

theorem unescapePlain {bytes : Bytes} (visible : ∀ b ∈ bytes, ¬ b < 32 ∧ b ≠ 34 ∧ b ≠ 92)
    (seen rest : Bytes) :
    unescapeFrom seen (bytes ++ rest) = unescapeFrom (bytes.reverse ++ seen) rest := by
  induction bytes generalizing seen with
  | nil => rfl
  | cons b more ih =>
    obtain ⟨first, others⟩ := List.forall_mem_cons.mp visible
    have step : unescapeFrom seen (b :: (more ++ rest)) = unescapeFrom (b :: seen) (more ++ rest) := by
      rw [unescapeFrom]
      all_goals simp [first.2.2]
    rw [List.cons_append, step, ih others]
    simp

theorem unescapeLetter {b code : UInt8} (known : escaped? b = some code) (seen rest : Bytes) :
    unescapeFrom seen (92 :: b :: rest) = unescapeFrom (code :: seen) rest := by
  have other : b ≠ 117 := by
    rintro rfl
    exact absurd (unicodeUnescaped.symm.trans known) (by simp)
  rw [unescapeFrom]
  · simp only [known]
  · simp [other]

theorem Spells.unescaped {c : Char} {bytes : Bytes} (spells : Spells c bytes) (seen rest : Bytes) :
    unescapeFrom seen (bytes ++ rest) =
      unescapeFrom ((String.utf8EncodeChar c).reverse ++ seen) rest := by
  cases spells with
  | plain visible => exact unescapePlain visible seen rest
  | letter known means =>
    rw [means]
    exact unescapeLetter known seen rest
  | number known low =>
    simp only [List.cons_append, List.nil_append, unescapeFrom, known]
    rw [if_neg (by omega), if_neg (by omega), Char.ofNat_toNat]

def rawChars (chars : List Char) : Bytes := Bytes.ofChars (chars.flatMap escapeChar)

theorem rawNext (c : Char) (chars : List Char) :
    rawChars (c :: chars) = Bytes.ofChars (escapeChar c) ++ rawChars chars := by
  rw [rawChars, List.flatMap_cons, Bytes.ofCharsAppend]
  rfl

theorem rawBody (chars : List Char) : StringBody (rawChars chars) := by
  induction chars with
  | nil => exact .nil
  | cons c rest ih =>
    rw [rawNext]
    exact (escapeSpells c).body ih

theorem rawUnescaped (chars : List Char) (seen : Bytes) :
    unescapeFrom seen (rawChars chars) = some (seen.reverse ++ Bytes.ofChars chars) := by
  induction chars generalizing seen with
  | nil => simp [rawChars, Bytes.ofChars, unescapeFrom]
  | cons c rest ih =>
    rw [rawNext, (escapeSpells c).unescaped, ih]
    simp [Bytes.ofChars]

def Value.ofText (text : String) : Value := .string (rawChars text.toList)

@[simp]
theorem writtenText (text : String) : (Value.ofText text).text? = some text := by
  simp only [Value.ofText, Value.text?, rawUnescaped, List.reverse_nil, List.nil_append,
    Option.bind_some, ← Utf8.ofTextChars, Utf8.decodeText]

theorem quoteSpelled (text : String) :
    Token.Spelled (.scalar (.ofText text)) (Bytes.ofChars (quote text)) := by
  have whole : Bytes.ofChars (quote text) = 34 :: (rawChars text.toList ++ [34]) := by
    rw [quote, Bytes.ofCharsAppend]
    rfl
  rw [whole]
  exact .string (rawBody text.toList)

theorem Cut.next {token : Token} {tokens : List Token} {front back : Bytes}
    (spelled : token.Spelled front) (others : Cut tokens back) :
    Cut (token :: tokens) (front ++ back) := @Cut.cons [] _ _ _ _ nofun spelled others

def flatTexts (members : List (String × String)) : List Value :=
  members.flatMap fun m => [.ofText m.1, .ofText m.2]

theorem flatSays (members : List (String × String)) : Texts (flatTexts members) members := by
  induction members with
  | nil => exact .nil
  | cons m rest ih => exact .cons (writtenText m.1) (writtenText m.2) ih

def member (m : String × String) : List Char := quote m.1 ++ ':' :: quote m.2

def tokensBehind : List (String × String) → List Token
  | [] => [.closeObject]
  | m :: rest =>
    .comma :: .scalar (.ofText m.1) :: .colon :: .scalar (.ofText m.2) :: tokensBehind rest

def charsBehind : List (String × String) → List Char
  | [] => ['\x7d']
  | m :: rest => ',' :: (member m ++ charsBehind rest)

theorem objectNext (m : String × String) (rest : List (String × String)) :
    object (m :: rest) = '{' :: (member m ++ charsBehind rest) := by
  have behind : List.flatten (List.intersperse [','] (member m :: rest.map member)) ++ ['\x7d'] =
      member m ++ charsBehind rest := by
    induction rest generalizing m with
    | nil => simp [charsBehind]
    | cons n more ih =>
      simp only [List.map_cons, List.intersperse_cons_cons, List.flatten_cons, List.append_assoc,
        List.cons_append, List.nil_append, ih, charsBehind]
  rw [← behind]
  rfl

theorem membersListed (members : List (String × String)) :
    ListedMembers (flatTexts members) (tokensBehind members) [] := by
  induction members with
  | nil => exact .close
  | cons m rest ih => exact .next .scalar ih

theorem memberCut {m : String × String} {tokens : List Token} {chars : List Char}
    (others : Cut tokens (Bytes.ofChars chars)) :
    Cut (.scalar (.ofText m.1) :: .colon :: .scalar (.ofText m.2) :: tokens)
      (Bytes.ofChars (member m ++ chars)) := by
  rw [member, List.append_assoc, Bytes.ofCharsAppend, List.cons_append]
  refine .next (quoteSpelled m.1) (@Cut.next .colon _ [58] _ .colon ?_)
  have last := Cut.next (quoteSpelled m.2) others
  rwa [← Bytes.ofCharsAppend] at last

theorem behindCut (members : List (String × String)) :
    Cut (tokensBehind members) (Bytes.ofChars (charsBehind members)) := by
  induction members with
  | nil => exact @Cut.next .closeObject _ [125] _ .closeObject (@Cut.nil [] nofun)
  | cons m rest ih => exact @Cut.next .comma _ [44] _ .comma (memberCut ih)

theorem objectDocument (members : List (String × String)) :
    Document (.object (flatTexts members)) (Bytes.ofChars (object members)) := by
  cases members with
  | nil =>
    exact ⟨[.openObject, .closeObject], @Cut.next .openObject _ [123] _ .openObject
      (@Cut.next .closeObject _ [125] _ .closeObject (@Cut.nil [] nofun)), .emptyObject⟩
  | cons m rest =>
    rw [objectNext]
    exact ⟨_, @Cut.next .openObject _ [123] _ .openObject (memberCut (behindCut rest)),
      .object .scalar (membersListed rest)⟩

theorem Document.unique {v w : Value} {bytes : Bytes} (one : Document v bytes)
    (other : Document w bytes) : v = w :=
  Option.some.inj ((documentRead.mpr one).symm.trans (documentRead.mpr other))

end SourceModels.Json

import Mathlib.Algebra.GroupWithZero.Nat
import SourceModels.Proofs.Json.Documents
import SourceModels.Proofs.Utf8

/-! How much of a document its values take up: what is read from bytes is no heavier than they are
many, and a text is shorter than the string it is written in. -/
namespace SourceModels.Json

namespace Value

mutual

def weight : Value → Nat
  | .string raw => raw.length + 1
  | .array items => weights items + 1
  | .object flat => weights flat + 1
  | _ => 1

def weights : List Value → Nat
  | [] => 0
  | v :: rest => weight v + weights rest

end

theorem weightPositive (v : Value) : 0 < v.weight := by
  cases v <;> simp [weight]

theorem lengthWeights (values : List Value) : values.length ≤ weights values := by
  induction values with
  | nil => simp
  | cons v rest ih =>
    have positive := v.weightPositive
    rw [List.length_cons, weights]
    omega

theorem weightOfMember {v : Value} {values : List Value} (inside : v ∈ values) :
    v.weight ≤ weights values := by
  induction inside with
  | head rest => simp [weights]
  | tail other _ ih =>
    rw [weights]
    omega

end Value

def Token.weight : Token → Nat
  | .scalar v => v.weight
  | .openArray => 1
  | .openObject => 1
  | _ => 0

def tokenWeights (tokens : List Token) : Nat := (tokens.map Token.weight).sum

@[simp]
theorem tokenWeightsNone : tokenWeights [] = 0 := rfl

@[simp]
theorem tokenWeightsNext (token : Token) (tokens : List Token) :
    tokenWeights (token :: tokens) = token.weight + tokenWeights tokens := rfl

theorem Token.Spelled.weight {token : Token} {front : Bytes} (spelled : token.Spelled front) :
    token.weight ≤ front.length := by
  cases spelled with
  | string body => simp [Token.weight, Value.weight]
  | number number =>
    obtain ⟨b, more, rfl, _⟩ := number.first
    simp [Token.weight, Value.weight]
  | _ => decide +kernel

theorem Cut.weight {tokens : List Token} {bytes : Bytes} (cut : Cut tokens bytes) :
    tokenWeights tokens ≤ bytes.length := by
  induction cut with
  | nil => exact Nat.zero_le _
  | cons _ spelled _ ih =>
    have first := spelled.weight
    simp only [tokenWeightsNext, List.length_append]
    omega

mutual

theorem Listed.weight {v : Value} {tokens rest : List Token} (listed : Listed v tokens rest) :
    v.weight + tokenWeights rest = tokenWeights tokens := by
  cases listed with
  | scalar => rfl
  | emptyArray => simp [Value.weight, Value.weights, Token.weight]
  | array first others =>
    have one := first.weight
    have more := others.weight
    simp only [Value.weight, Value.weights, tokenWeightsNext, Token.weight]
    omega
  | emptyObject => simp [Value.weight, Value.weights, Token.weight]
  | object first others =>
    have one := first.weight
    have more := others.weight
    simp only [Value.weight, Value.weights, tokenWeightsNext, Token.weight]
    omega

theorem ListedItems.weight {items : List Value} {tokens rest : List Token}
    (listed : ListedItems items tokens rest) :
    Value.weights items + tokenWeights rest = tokenWeights tokens := by
  cases listed with
  | close => simp [Value.weights, Token.weight]
  | next first others =>
    have one := first.weight
    have more := others.weight
    simp only [Value.weights, tokenWeightsNext, Token.weight]
    omega

theorem ListedMembers.weight {flat : List Value} {tokens rest : List Token}
    (listed : ListedMembers flat tokens rest) :
    Value.weights flat + tokenWeights rest = tokenWeights tokens := by
  cases listed with
  | close => simp [Value.weights, Token.weight]
  | next first others =>
    have one := first.weight
    have more := others.weight
    simp only [Value.weight, Value.weights, tokenWeightsNext, Token.weight]
    omega

end

theorem readWeight {bytes : Bytes} {v : Value} (read : read? bytes = some v) :
    v.weight ≤ bytes.length := by
  obtain ⟨tokens, cut, listed⟩ := documentRead.mp read
  have same := listed.weight
  rw [tokenWeightsNone, Nat.add_zero] at same
  exact same ▸ cut.weight

theorem unescapedLength {seen raw text : Bytes} (read : unescapeFrom seen raw = some text) :
    text.length ≤ seen.length + raw.length := by
  fun_induction unescapeFrom seen raw with
  | case1 =>
    cases read
    simp
  | case5 seen a b c d n _ _ _ e f g h rest m _ _ ih =>
    have later := ih read
    have few := (fromSurrogates n m).utf8Size_le_four
    simp only [List.length_append, List.length_reverse, String.length_utf8EncodeChar,
      List.length_cons] at later ⊢
    omega
  | case8 seen a b c d rest n _ _ _ ih =>
    have later := ih read
    have few := (Char.ofNat n).utf8Size_le_four
    simp only [List.length_append, List.length_reverse, String.length_utf8EncodeChar,
      List.length_cons] at later ⊢
    omega
  | case9 seen b rest _ c _ ih =>
    have later := ih read
    simp only [List.length_cons] at later ⊢
    omega
  | case12 seen b rest _ _ _ ih =>
    have later := ih read
    simp only [List.length_cons] at later ⊢
    omega
  | _ => simp at read

namespace Value

theorem textShorter {v : Value} {text : String} (read : v.text? = some text) :
    (Bytes.ofText text).length < v.weight := by
  cases v with
  | string raw =>
    obtain ⟨bytes, unescaped, decoded⟩ := Option.bind_eq_some_iff.mp read
    have length := unescapedLength unescaped
    rw [Utf8.decodedText decoded] at length
    simp only [weight, List.length_nil] at length ⊢
    omega
  | _ => simp [text?] at read

end Value

end SourceModels.Json

import SourceModels.Proofs.MessagePack.Records
import SourceModels.Proofs.MessagePack.Spelling
import SourceModels.SyntaxTree.Stored

/-! Values with a torn part are read as no tree, in whatever part of them it is. -/
namespace SourceModels
open MessagePack

namespace MessagePack.Value

theorem textWhole {v : Value} {text : String} (read : v.text? = some text) : v.isWhole = true := by
  cases v <;> first | rfl | simp [text?] at read

theorem wordWhole {v : Value} {n : UInt32} (read : v.word? = some n) : v.isWhole = true := by
  cases v <;> first | rfl | simp [word?, natural?] at read

theorem itemsWhole {α : Type} {read : Value → Option α}
    (each : ∀ v a, read v = some a → v.isWhole = true) {items : List Value} {out : List α}
    (reads : items.mapM read = some out) : allWhole items = true := by
  induction items generalizing out with
  | nil => rfl
  | cons v rest ih =>
    simp only [List.mapM_cons, Option.bind_eq_bind, Option.bind_eq_some_iff] at reads
    obtain ⟨a, first, others, later, _⟩ := reads
    simp [allWhole, each v a first, ih later]

theorem textsWhole {v : Value} {texts : List String} (read : v.texts? = some texts) :
    v.isWhole = true := by
  cases v with
  | array items => exact itemsWhole (fun _ _ => textWhole) read
  | binary raw => rfl
  | _ => simp [texts?, elements?] at read

end MessagePack.Value

theorem Position.flatWhole {flat : List Value} {parts out : Partial}
    (read : ofFlat parts flat = some out) : Value.allWhole flat = true := by
  have keyed : Value.Keyed fields
      (fun parts i v grown => v.word?.bind (parts.put i) = some grown) parts flat out :=
    Value.keyedRead (fun _ => rfl) (fun _ _ => rfl) (fun _ _ _ _ => rfl) flat read
  refine keyed.allWhole fun made => ?_
  obtain ⟨n, word, _⟩ := Option.bind_eq_some_iff.mp made
  exact Value.wordWhole word

theorem Position.valueWhole {v : Value} {p : Position} (read : ofValue? v = some p) :
    v.isWhole = true := by
  unfold ofValue? at read
  split at read
  · simp only [Option.bind_eq_some_iff] at read
    obtain ⟨parts, flat, _⟩ := read
    exact flatWhole flat
  · simp only [Option.bind_eq_bind, Option.bind_eq_some_iff] at read
    obtain ⟨_, offset, _, line, _, column, _⟩ := read
    simp [Value.isWhole, Value.allWhole, Value.wordWhole offset, Value.wordWhole line,
      Value.wordWhole column]
  · rfl
  · contradiction

theorem Position.orNilWhole {v : Value} {p : Option Position} (read : orNil? v = some p) :
    v.isWhole = true := by
  unfold orNil? at read
  split at read
  · rfl
  · simp only [Option.map_eq_some_iff] at read
    obtain ⟨_, value, _⟩ := read
    exact valueWhole value

theorem Properties.flatWhole {flat : List Value} {properties out : Properties}
    (read : ofFlat properties flat = some out) : Value.allWhole flat = true := by
  fun_induction ofFlat properties flat with
  | case1 properties key v rest ih =>
    simp only [Option.bind_eq_bind, Option.bind_eq_some_iff] at read
    obtain ⟨name, named, text, valued, later⟩ := read
    simp [Value.allWhole, Value.textWhole named, Value.textWhole valued, ih name text later]
  | case2 => rfl
  | case3 => simp at read

theorem Properties.valueWhole {v : Value} {properties : Properties}
    (read : ofValue? v = some properties) : v.isWhole = true := by
  unfold ofValue? at read
  split at read
  · exact flatWhole read
  · contradiction

namespace SyntaxTree

theorem plainWhole {index : Nat} {v : Value} {field : Field}
    (read : plainField? index v = some field) : v.isWhole = true := by
  unfold plainField? at read
  split at read
  · obtain ⟨_, text, _⟩ := Option.map_eq_some_iff.mp read
    exact Value.textWhole text
  · obtain ⟨_, text, _⟩ := Option.map_eq_some_iff.mp read
    exact Value.textWhole text
  · obtain ⟨_, texts, _⟩ := Option.map_eq_some_iff.mp read
    exact Value.textsWhole texts
  · obtain ⟨_, properties, _⟩ := Option.map_eq_some_iff.mp read
    exact Properties.valueWhole properties
  · obtain ⟨_, position, _⟩ := Option.map_eq_some_iff.mp read
    exact Position.orNilWhole position
  · obtain ⟨_, position, _⟩ := Option.map_eq_some_iff.mp read
    exact Position.orNilWhole position
  · contradiction

theorem fieldPlain {index : Nat} {v : Value} (notArray : ∀ items, v ≠ .array items)
    (notBinary : ∀ raw, v ≠ .binary raw) : field? index v = plainField? index v := by
  unfold field?
  split
  · exact absurd rfl (notArray _)
  · exact absurd rfl (notBinary _)
  · rfl

mutual

theorem valueWhole : (v : Value) → {t : SyntaxTree} → ofValue? v = some t → v.isWhole = true
  | .map flat, _, given => by
    simp only [ofValue?, Option.bind_eq_some_iff] at given
    obtain ⟨parts, flat, _⟩ := given
    exact flatWhole _ flat
  | .array items, _, given => by
    simp only [ofValue?, Option.bind_eq_some_iff] at given
    obtain ⟨parts, items, _⟩ := given
    exact itemsWhole _ items
  | .nil, _, _ => rfl
  | .bool _, _, _ => rfl
  | .unsigned _, _, _ => rfl
  | .signed _, _, _ => rfl
  | .float _, _, _ => rfl
  | .text _, _, _ => rfl
  | .binary _, _, _ => rfl
  | .extension _ _, _, _ => rfl
  | .torn, _, given => by simp [ofValue?] at given

theorem flatWhole : (flat : List Value) → {parts out : Partial} →
    ofFlat parts flat = some out → Value.allWhole flat = true
  | [], _, _, _ => rfl
  | [_], _, _, given => by simp [ofFlat] at given
  | key :: v :: rest, parts, out, given => by
    simp only [ofFlat] at given
    split at given
    · rename_i i known
      simp only [Option.bind_eq_some_iff] at given
      obtain ⟨grown, ⟨field, value, _⟩, later⟩ := given
      have first := Value.keyWhole (show Value.key fields key ≠ .invalid by simp [known])
      simp [Value.allWhole, first, fieldWhole v value, flatWhole rest later]
    · rename_i known
      have first := Value.keyWhole (show Value.key fields key ≠ .invalid by simp [known])
      split at given
      · rename_i whole
        simp [Value.allWhole, first, whole, flatWhole rest given]
      · contradiction
    · contradiction

theorem itemsWhole : (items : List Value) → {index : Nat} → {parts out : Partial} →
    ofItems index parts items = some out → Value.allWhole items = true
  | [], _, _, _, _ => rfl
  | v :: rest, _, _, _, given => by
    simp only [ofItems, Option.bind_eq_some_iff] at given
    obtain ⟨grown, ⟨field, value, _⟩, later⟩ := given
    simp [Value.allWhole, fieldWhole v value, itemsWhole rest later]

theorem fieldWhole : (v : Value) → {index : Nat} → {field : Field} →
    field? index v = some field → v.isWhole = true
  | .array items, index, field, given => by
    unfold field? at given
    split at given
    · rename_i same
      obtain ⟨_, trees, _⟩ := Option.map_eq_some_iff.mp given
      injection same with same
      subst same
      exact valuesWhole items trees
    · rename_i same
      injection same
    · exact plainWhole given
  | .nil, _, _, _ => rfl
  | .bool _, _, _, _ => rfl
  | .unsigned _, _, _, _ => rfl
  | .signed _, _, _, _ => rfl
  | .float _, _, _, _ => rfl
  | .text _, _, _, _ => rfl
  | .binary _, _, _, _ => rfl
  | .map flat, index, field, given => by
    rw [fieldPlain (by simp) (by simp)] at given
    exact plainWhole given
  | .extension _ _, _, _, _ => rfl
  | .torn, index, field, given => by
    rw [fieldPlain (by simp) (by simp)] at given
    exact plainWhole given

theorem valuesWhole : (values : List Value) → {trees : List SyntaxTree} →
    ofValues values = some trees → Value.allWhole values = true
  | [], _, _ => rfl
  | v :: rest, _, given => by
    simp only [ofValues, Option.bind_eq_bind, Option.bind_eq_some_iff] at given
    obtain ⟨t, first, others, later, _⟩ := given
    simp [Value.allWhole, valueWhole v first, valuesWhole rest later]

end

end SyntaxTree

end SourceModels

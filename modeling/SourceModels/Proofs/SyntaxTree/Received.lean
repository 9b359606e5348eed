import SourceModels.Proofs.Json.Sizes
import SourceModels.Proofs.SyntaxTree.Values
import SourceModels.SyntaxTree.Received

/-! Trees out of documents: their texts and counts fit where the document does, and each level of a
tree takes two levels of the document. -/
namespace SourceModels
open MessagePack

theorem Json.Value.textsShort {v : Json.Value} {texts : List String}
    (read : v.texts? = some texts) : texts.length < v.weight ∧
      ∀ text ∈ texts, (Bytes.ofText text).length < v.weight := by
  cases v with
  | array items =>
    have listed : items.map text? = texts.map some := mapSome.mp read
    have same := congrArg List.length listed
    have few := lengthWeights items
    rw [List.length_map, List.length_map] at same
    refine ⟨by rw [weight]; omega, ?_⟩
    intro text inside
    have found : some text ∈ items.map text? := listed ▸ List.mem_map_of_mem inside
    obtain ⟨item, member, known⟩ := List.mem_map.mp found
    have short := textShorter known
    have part := weightOfMember member
    rw [weight]
    omega
  | _ => simp [texts?] at read

namespace Properties

theorem insertLength (key value : String) (entries : List (String × String)) :
    (insertEntry key value entries).length ≤ entries.length + 1 := by
  induction entries with
  | nil => simp [insertEntry]
  | cons first rest ih =>
    simp only [insertEntry]
    split
    · simp
    · split <;> simp [ih]

theorem membersShort {flat : List Json.Value} {properties out : Properties} {bound : Nat}
    (read : ofMembers properties flat = some out) (small : Json.Value.weights flat < bound)
    (before : ∀ e ∈ properties.entries,
      (Bytes.ofText e.1).length < bound ∧ (Bytes.ofText e.2).length < bound) :
    out.entries.length ≤ properties.entries.length + flat.length ∧ ∀ e ∈ out.entries,
      (Bytes.ofText e.1).length < bound ∧ (Bytes.ofText e.2).length < bound := by
  fun_induction ofMembers properties flat with
  | case1 properties key v rest ih =>
    simp only [Option.bind_eq_bind, Option.bind_eq_some_iff] at read
    obtain ⟨name, named, text, valued, later⟩ := read
    simp only [Json.Value.weights] at small
    have nameShort := Json.Value.textShorter named
    have textShort := Json.Value.textShorter valued
    obtain ⟨few, short⟩ := ih name text later (by omega) (by
      intro e inside
      rcases insertedEntry inside with rfl | old
      · exact ⟨Nat.lt_trans nameShort (by omega), Nat.lt_trans textShort (by omega)⟩
      · exact before e old)
    have one := insertLength name text properties.entries
    refine ⟨?_, short⟩
    simp only [insert, List.length_cons] at few ⊢
    omega
  | case2 =>
    cases read
    exact ⟨Nat.le_refl _, before⟩
  | case3 => simp at read

theorem jsonFits {room : Nat} {v : Json.Value} {properties : Properties}
    (read : ofJson? room v = some properties) (small : v.weight < lengthBound) :
    properties.Fits := by
  unfold ofJson? at read
  split at read
  · rename_i flat
    rw [Json.Value.weight] at small
    have count := Json.Value.lengthWeights flat
    have below : Json.Value.weights flat < lengthBound := by omega
    obtain ⟨few, short⟩ := membersShort read below (by simp [empty])
    simp only [empty, List.length_nil] at few
    exact ⟨by omega, short⟩
  · simp at read

theorem emptyFits : empty.Fits := ⟨by decide, by simp [empty]⟩

end Properties

namespace SyntaxTree

def Field.Fits (room : Nat) : Field → Prop
  | .internalType text => Value.TextFits text
  | .token text => Value.TextFits text
  | .roles texts => Value.TextsFit texts
  | .properties p => p.Fits
  | .children trees => trees.length < lengthBound ∧ AllFit trees ∧ 2 * maxLevels trees ≤ room
  | _ => True

structure Partial.Fits (room : Nat) (parts : Partial) : Prop where
  internalType : ∀ text, parts.internalType = some text → Value.TextFits text
  token : Value.TextFits (parts.token.getD "")
  roles : Value.TextsFit (parts.roles.getD [])
  properties : (parts.properties.getD .empty).Fits
  children : (Field.children (parts.children.getD [])).Fits room

theorem nothingFits (room : Nat) : Partial.Fits room {} :=
  { internalType := by simp
    token := by decide
    roles := ⟨by decide, by simp⟩
    properties := Properties.emptyFits
    children := ⟨by decide, trivial, Nat.zero_le _⟩ }

theorem Partial.Fits.put {room : Nat} {parts grown : Partial} {field : Field}
    (fits : parts.Fits room) (value : field.Fits room) (done : parts.put field = some grown) :
    grown.Fits room := by
  obtain ⟨internalType, token, roles, properties, children⟩ := fits
  unfold Partial.put at done
  split at done
  all_goals
    split at done
    · simp at done
    · cases done
      constructor
      all_goals simp_all [Field.Fits]

theorem Partial.Fits.finish {room : Nat} {parts : Partial} {t : SyntaxTree}
    (fits : parts.Fits room) (done : parts.finish = some t) :
    t.Fits ∧ 2 * t.levels ≤ room + 2 := by
  simp only [Partial.finish, Option.bind_eq_bind, Option.bind_eq_some_iff,
    Option.some.injEq] at done
  obtain ⟨text, given, rfl⟩ := done
  obtain ⟨count, below, shallow⟩ := fits.children
  refine ⟨⟨⟨fits.internalType text given, fits.token, fits.roles, fits.properties⟩,
    count, below⟩, ?_⟩
  rw [levels]
  omega

theorem plainFits {room index : Nat} {v : Json.Value} {field : Field}
    (read : plainMember? room index v = some field) (small : v.weight < lengthBound) :
    field.Fits room := by
  unfold plainMember? at read
  split at read
  · obtain ⟨text, known, rfl⟩ := Option.map_eq_some_iff.mp read
    exact Nat.lt_trans (Json.Value.textShorter known) small
  · obtain ⟨text, known, rfl⟩ := Option.map_eq_some_iff.mp read
    exact Nat.lt_trans (Json.Value.textShorter known) small
  · split at read
    · simp at read
    · obtain ⟨texts, known, rfl⟩ := Option.map_eq_some_iff.mp read
      obtain ⟨few, short⟩ := Json.Value.textsShort known
      exact ⟨Nat.lt_trans few small, fun text inside => Nat.lt_trans (short text inside) small⟩
  · obtain ⟨properties, known, rfl⟩ := Option.map_eq_some_iff.mp read
    exact Properties.jsonFits known small
  · obtain ⟨_, _, rfl⟩ := Option.map_eq_some_iff.mp read
    trivial
  · obtain ⟨_, _, rfl⟩ := Option.map_eq_some_iff.mp read
    trivial
  · simp at read

theorem memberPlain {room index : Nat} {v : Json.Value} (notArray : ∀ items, v ≠ .array items) :
    member? room index v = plainMember? room index v := by
  unfold member?
  split
  · exact absurd rfl (notArray _)
  · rfl

mutual

theorem jsonFits : (v : Json.Value) → {room : Nat} → {t : SyntaxTree} →
    ofJson? room v = some t → v.weight < lengthBound → t.Fits ∧ 2 * t.levels ≤ room + 1
  | .object flat, room, t, given, small => by
    cases room with
    | zero => simp [ofJson?] at given
    | succ room =>
      simp only [ofJson?, Option.bind_eq_some_iff] at given
      obtain ⟨parts, read, whole⟩ := given
      rw [Json.Value.weight] at small
      exact (membersFit flat read (by omega) (nothingFits room)).finish whole
  | .array items, room, t, given, small => by
    cases room with
    | zero => simp [ofJson?] at given
    | succ room =>
      simp only [ofJson?, Option.bind_eq_some_iff] at given
      obtain ⟨parts, read, whole⟩ := given
      rw [Json.Value.weight] at small
      exact (elementsFit items read (by omega) (nothingFits room)).finish whole
  | .null, room, _, given, _ => by cases room <;> simp [ofJson?] at given
  | .bool _, room, _, given, _ => by cases room <;> simp [ofJson?] at given
  | .number _, room, _, given, _ => by cases room <;> simp [ofJson?] at given
  | .string _, room, _, given, _ => by cases room <;> simp [ofJson?] at given

theorem membersFit : (flat : List Json.Value) → {room : Nat} → {parts out : Partial} →
    ofMembers room parts flat = some out → Json.Value.weights flat < lengthBound →
    parts.Fits room → out.Fits room
  | [], _, _, _, given, _, fits => by
    simp only [ofMembers, Option.some.injEq] at given
    exact given ▸ fits
  | [_], _, _, _, given, _, _ => by simp [ofMembers] at given
  | key :: v :: rest, room, parts, out, given, small, fits => by
    simp only [Json.Value.weights] at small
    simp only [ofMembers] at given
    split at given
    · simp only [Option.bind_eq_some_iff] at given
      obtain ⟨grown, ⟨field, value, added⟩, later⟩ := given
      have own := memberFits v value (by omega)
      exact membersFit rest later (by omega) (fits.put own added)
    · exact membersFit rest given (by omega) fits
    · simp at given

theorem elementsFit : (items : List Json.Value) → {room index : Nat} → {parts out : Partial} →
    ofElements room index parts items = some out → Json.Value.weights items < lengthBound →
    parts.Fits room → out.Fits room
  | [], _, _, _, _, given, _, fits => by
    simp only [ofElements, Option.some.injEq] at given
    exact given ▸ fits
  | v :: rest, room, index, parts, out, given, small, fits => by
    simp only [Json.Value.weights] at small
    simp only [ofElements, Option.bind_eq_some_iff] at given
    obtain ⟨grown, ⟨field, value, added⟩, later⟩ := given
    have own := memberFits v value (by omega)
    exact elementsFit rest later (by omega) (fits.put own added)

theorem memberFits : (v : Json.Value) → {room index : Nat} → {field : Field} →
    member? room index v = some field → v.weight < lengthBound → field.Fits room
  | .array items, room, index, field, given, small => by
    unfold member? at given
    split at given
    · rename_i room _ same
      injection same with same
      subst same
      obtain ⟨trees, read, rfl⟩ := Option.map_eq_some_iff.mp given
      rw [Json.Value.weight] at small
      have count := Json.Value.lengthWeights items
      obtain ⟨length, below, shallow⟩ := jsonsFit items read (by omega)
      exact ⟨by omega, below, shallow⟩
    · exact plainFits given small
  | .object _, _, _, _, given, small => plainFits ((memberPlain (by simp)).symm.trans given) small
  | .null, _, _, _, given, small => plainFits ((memberPlain (by simp)).symm.trans given) small
  | .bool _, _, _, _, given, small => plainFits ((memberPlain (by simp)).symm.trans given) small
  | .number _, _, _, _, given, small => plainFits ((memberPlain (by simp)).symm.trans given) small
  | .string _, _, _, _, given, small => plainFits ((memberPlain (by simp)).symm.trans given) small

theorem jsonsFit : (items : List Json.Value) → {room : Nat} → {trees : List SyntaxTree} →
    ofJsons room items = some trees → Json.Value.weights items < lengthBound →
    trees.length = items.length ∧ AllFit trees ∧ 2 * maxLevels trees ≤ room + 1
  | [], _, _, given, _ => by
    simp only [ofJsons, Option.some.injEq] at given
    subst given
    exact ⟨rfl, trivial, Nat.zero_le _⟩
  | v :: rest, room, trees, given, small => by
    simp only [Json.Value.weights] at small
    simp only [ofJsons, Option.bind_eq_bind, Option.bind_eq_some_iff, Option.some.injEq] at given
    obtain ⟨t, first, others, later, rfl⟩ := given
    obtain ⟨fits, shallow⟩ := jsonFits v first (by omega)
    obtain ⟨count, below, shallower⟩ := jsonsFit rest later (by omega)
    refine ⟨by simp [count], ⟨fits, below⟩, ?_⟩
    rw [maxLevels]
    omega

end

end SyntaxTree

end SourceModels

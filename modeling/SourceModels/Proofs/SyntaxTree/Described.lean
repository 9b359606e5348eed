import SourceModels.Proofs.Json.Records
import SourceModels.Proofs.SyntaxTree.Fields

/-! Which tree a document describes, for how many more arrays and objects may be open: the tree that
is read from it. -/
namespace SourceModels

namespace Position

def Described (room : Nat) : Option Position → Json.Value → Prop
  | none, v => v = .null
  | some p, v => room ≠ 0 ∧ ∃ entries, Json.Record fields v entries ∧
      Written (fun n v => v.word? = some n) entries p

theorem membersAlike (parts : Partial) (flat : List Json.Value) : ofMembers parts flat =
    slots.gatherMembers (reading Json.Value.word?) fields parts flat := by
  refine Slots.membersAlike (fun _ => rfl) (fun _ _ => rfl) (fun parts key v rest => ?_) parts flat
  simp only [ofMembers, reading, Option.bind_map]
  rfl

theorem readingIndexed {V : Type} {word : V → Option UInt32} {i : Nat} {v : V} {f : Nat × UInt32}
    (read : reading word i v = some f) : slots.index f = i := by
  obtain ⟨_, _, rfl⟩ := Option.map_eq_some_iff.mp read
  rfl

theorem writtenInOrder {V : Type} {number : UInt32 → V → Prop} {items : List V} {p : Position} :
    items.length ≤ fields.length ∧ Written number (fields.zip items) p ↔
      ∃ offset line column, items = [offset, line, column] ∧ number p.offset offset ∧
        number p.line line ∧ number p.column column := by
  constructor
  · rintro ⟨few, _, offset, line, column⟩
    rcases items with _ | ⟨a, _ | ⟨b, _ | ⟨c, _ | ⟨d, rest⟩⟩⟩⟩
    · exact (column.missing (by simp)).elim
    · exact (column.missing (by simp [fields])).elim
    · exact (column.missing (by simp [fields])).elim
    · exact ⟨a, b, c, rfl, offset.form a (by simp [fields]), line.form b (by simp [fields]),
        column.form c (by simp [fields])⟩
    · simp only [fields, List.length_cons, List.length_nil] at few
      omega
  · rintro ⟨a, b, c, rfl, offset, line, column⟩
    exact ⟨Nat.le_refl 3, by simp [Once, fields], ⟨by simpa [fields] using offset, by simp [fields]⟩,
      ⟨by simpa [fields] using line, by simp [fields]⟩,
      ⟨by simpa [fields] using column, by simp [fields]⟩⟩

theorem itemsRead {items : List Json.Value} {p : Position} :
    (slots.gather (reading Json.Value.word?) {} (positioned items)).bind Partial.finish = some p ↔
      ∃ offset line column, items = [offset, line, column] ∧ offset.word? = some p.offset ∧
        line.word? = some p.line ∧ column.word? = some p.column := by
  have inOrder := @writtenInOrder _ (fun n v => Json.Value.word? v = some n) items p
  rw [← inOrder, ← namedRead]
  simp only [Option.bind_eq_some_iff, slots.gatherPositioned fieldsDistinct rfl readingIndexed,
    and_assoc, exists_and_left]

theorem nullRead {room : Nat} {v : Json.Value} : ofJson? room v = some none ↔ v = .null := by
  constructor
  · intro read
    unfold ofJson? at read
    split at read
    · rfl
    · obtain ⟨_, _, same⟩ := Option.map_eq_some_iff.mp read
      contradiction
    · simp [Option.bind_eq_some_iff] at read
    · contradiction
  · rintro rfl
    cases room <;> rfl

theorem jsonRead {room : Nat} {v : Json.Value} {p : Option Position} :
    ofJson? room v = some p ↔ Described room p v := by
  cases p with
  | none => exact nullRead
  | some p =>
    simp only [Described, ← namedRead, slots.recordGathered fieldsDistinct rfl readingIndexed,
      ← membersAlike, itemsRead]
    cases room with
    | zero => cases v <;> simp [ofJson?]
    | succ room =>
      cases v with
      | object flat =>
        rw [ofJson?, Option.map_eq_some_iff]
        simp
      | array items =>
        simp only [ne_eq, Nat.succ_ne_zero, not_false_eq_true, true_and, reduceCtorEq, false_and,
          exists_false, false_or, Json.Value.array.injEq, exists_eq_left']
        constructor
        · intro read
          unfold ofJson? at read
          split at read
          · contradiction
          · contradiction
          · rename_i offset line column _ same
            cases same
            simp only [Option.bind_eq_bind, Option.bind_eq_some_iff, Option.some.injEq] at read
            obtain ⟨_, first, _, second, _, third, rfl⟩ := read
            exact ⟨offset, line, column, rfl, first, second, third⟩
          · contradiction
        · rintro ⟨a, b, c, rfl, offset, line, column⟩
          simp [ofJson?, offset, line, column]
      | _ => simp [ofJson?]

end Position

namespace Properties

def Described (room : Nat) (properties : Properties) (v : Json.Value) : Prop :=
  room ≠ 0 ∧ ∃ flat entries, v = .object flat ∧ Json.Texts flat entries ∧
    properties = .ofList entries

theorem membersRead {flat : List Json.Value} {properties out : Properties} :
    ofMembers properties flat = some out ↔ ∃ entries, Json.Texts flat entries ∧
      out = entries.foldl (fun properties e => properties.insert e.1 e.2) properties := by
  fun_induction ofMembers properties flat with
  | case1 properties key v rest ih =>
    simp only [Option.bind_eq_bind, Option.bind_eq_some_iff, ih]
    constructor
    · rintro ⟨name, named, text, said, entries, others, rfl⟩
      exact ⟨_, .cons named said others, rfl⟩
    · rintro ⟨_, texts, rfl⟩
      cases texts with
      | cons named said others => exact ⟨_, named, _, said, _, others, rfl⟩
  | case2 properties =>
    constructor
    · rintro ⟨⟩
      exact ⟨[], .nil, rfl⟩
    · rintro ⟨_, ⟨⟩, rfl⟩
      rfl
  | case3 =>
    simp only [reduceCtorEq, false_iff]
    rintro ⟨_, ⟨⟩, _⟩

theorem jsonRead {room : Nat} {v : Json.Value} {properties : Properties} :
    ofJson? room v = some properties ↔ properties.Described room v := by
  unfold ofJson?
  split
  · rename_i flat
    rw [membersRead]
    constructor
    · rintro ⟨entries, texts, rfl⟩
      exact ⟨by simp, flat, entries, rfl, texts, rfl⟩
    · rintro ⟨_, _, entries, ⟨⟩, texts, rfl⟩
      exact ⟨entries, texts, rfl⟩
  · rename_i other
    simp only [reduceCtorEq, false_iff]
    rintro ⟨some, flat, _, rfl, _⟩
    obtain ⟨less, rfl⟩ := Nat.exists_eq_succ_of_ne_zero some
    exact other less flat rfl rfl

end Properties

namespace SyntaxTree

def Described.Form (room : Nat) : Field → Json.Value → Prop
  | .internalType text, v => v.text? = some text
  | .token text, v => v.text? = some text
  | .roles texts, v => room ≠ 0 ∧ v.texts? = some texts
  | .properties p, v => p.Described room v
  | .start p, v => Position.Described room p v
  | .stop p, v => Position.Described room p v
  | .children _, _ => False

mutual

def Described : SyntaxTree → Nat → Json.Value → Prop
  | .branch node children, room + 1, v => ∃ entries, Json.Record fields v entries ∧
      Written (Described.Form room)
        (fun w => ∃ less items, room = less + 1 ∧ w = .array items ∧
          AllDescribed children less items) entries node children
  | _, 0, _ => False

def AllDescribed : List SyntaxTree → Nat → List Json.Value → Prop
  | [], _, [] => True
  | t :: trees, room, v :: items => Described t room v ∧ AllDescribed trees room items
  | _, _, _ => False

end

theorem memberIndexed {room i : Nat} {v : Json.Value} {f : Field}
    (read : member? room i v = some f) : f.index = i := by
  unfold member? at read
  split at read
  · obtain ⟨_, _, rfl⟩ := Option.map_eq_some_iff.mp read
    rfl
  · unfold plainMember? at read
    split at read
    case h_3 =>
      obtain ⟨_, read⟩ := Option.ite_none_left_eq_some.mp read
      obtain ⟨_, _, rfl⟩ := Option.map_eq_some_iff.mp read
      rfl
    case h_7 => contradiction
    all_goals
      obtain ⟨_, _, rfl⟩ := Option.map_eq_some_iff.mp read
      rfl

theorem memberForm {room : Nat} {f : Field} (own : f.Own) {v : Json.Value} :
    member? room f.index v = some f ↔ Described.Form room f v := by
  have plain : member? room f.index v = plainMember? room f.index v := by
    unfold member?
    split
    · rename_i same
      cases f <;> first | exact own.elim | exact absurd same (by simp [Field.index])
    · rfl
  rw [plain]
  cases f <;> simp [Field.index, plainMember?, Described.Form, Properties.jsonRead,
    Position.jsonRead]

theorem memberChildren {room : Nat} {v : Json.Value} {children : List SyntaxTree} :
    member? room childrenField v = some (.children children) ↔ ∃ less items, room = less + 1 ∧
      v = .array items ∧ ofJsons less items = some children := by
  constructor
  · intro read
    unfold member? at read
    split at read
    · obtain ⟨_, trees, same⟩ := Option.map_eq_some_iff.mp read
      cases same
      exact ⟨_, _, rfl, rfl, trees⟩
    · contradiction
  · rintro ⟨less, items, rfl, rfl, trees⟩
    simp [member?, trees]

theorem membersAlike (room : Nat) (parts : Partial) (flat : List Json.Value) :
    ofMembers room parts flat = slots.gatherMembers (member? room) fields parts flat := by
  refine Slots.membersAlike (fun parts => ?_) (fun parts v => ?_) (fun parts key v rest => ?_)
    parts flat
  · rw [ofMembers]
  · rw [ofMembers]
  · rw [ofMembers]
    rfl

theorem elementsAlike (room : Nat) (items : List Json.Value) (index : Nat) (parts : Partial) :
    ofElements room index parts items =
      slots.gather (member? room) parts ((items.zipIdx index).map Prod.swap) := by
  refine slots.itemsGathered (fun i parts => ?_) (fun i parts v rest => ?_) items index parts
  · rw [ofElements]
  · rw [ofElements]
    rfl

theorem branchRead {room : Nat} {v : Json.Value} {node : Node} {children : List SyntaxTree} :
    ofJson? (room + 1) v = some (.branch node children) ↔ ∃ entries, Json.Record fields v entries ∧
      Written (fun f v => member? room f.index v = some f)
        (fun v => member? room childrenField v = some (.children children)) entries node
        children := by
  have indexed {i : Nat} {v : Json.Value} {f : Field} : member? room i v = some f → f.index = i :=
    memberIndexed
  have named entries := @namedRead _ (member? room) indexed entries node children
  simp only [← named, slots.recordGathered fieldsDistinct rfl indexed, ← membersAlike]
  cases v with
  | object flat => simp [ofJson?]
  | array items =>
    have alike := elementsAlike room items 0 {}
    simp [ofJson?, alike, positioned]
  | _ => simp [ofJson?]

mutual

theorem jsonRead : (t : SyntaxTree) → {room : Nat} → {v : Json.Value} →
    (ofJson? room v = some t ↔ t.Described room v)
  | .branch node children, 0, v => by cases v <;> simp [ofJson?, Described]
  | .branch node children, room + 1, v => by
    rw [branchRead, Described]
    refine exists_congr fun entries => and_congr_right fun _ => ?_
    simp only [memberChildren, jsonsRead children]
    exact ⟨fun written => written.mono (fun f v own => (memberForm own).mp) fun _ => id,
      fun written => written.mono (fun f v own => (memberForm own).mpr) fun _ => id⟩

theorem jsonsRead : (trees : List SyntaxTree) → {room : Nat} → {items : List Json.Value} →
    (ofJsons room items = some trees ↔ AllDescribed trees room items)
  | [], room, [] => by simp [ofJsons, AllDescribed]
  | [], room, v :: items => by simp [ofJsons, AllDescribed, Option.bind_eq_some_iff]
  | t :: trees, room, [] => by simp [ofJsons, AllDescribed]
  | t :: trees, room, v :: items => by
    simp [ofJsons, AllDescribed, Option.bind_eq_some_iff, jsonRead t, jsonsRead trees]

end

end SyntaxTree

end SourceModels

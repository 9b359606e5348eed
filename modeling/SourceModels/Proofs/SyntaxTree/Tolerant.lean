import SourceModels.Proofs.MessagePack.Spelling
import SourceModels.Proofs.SyntaxTree.Fields
import SourceModels.Proofs.SyntaxTree.Values
import SourceModels.Proofs.SyntaxTree.Whole

/-! Stored trees as they may be written too: with fields in any order, defaults left out, unknown
fields added and numbers in any form. They are read as the same trees, and what lacks a type or has
a field twice is read as none. -/
namespace SourceModels
open MessagePack

namespace MessagePack.Value

def ofEntries (entries : List (String × Value)) : List Value :=
  entries.flatMap fun e => [.ofText e.1, e.2]

def known (names : List String) : List Value → List (Nat × Value)
  | key :: v :: rest =>
    match Value.key names key with
    | .field i => (i, v) :: known names rest
    | _ => known names rest
  | _ => []

def Tidy (names : List String) : List Value → Prop
  | key :: v :: rest =>
    (match Value.key names key with
    | .field _ => True
    | .other => v.isWhole = true
    | .invalid => False) ∧ Tidy names rest
  | [] => True
  | [_] => False

structure MapOf (names : List String) (entries : List (String × Value)) (v : Value) : Prop where
  spelled : v = .map (ofEntries entries)
  unknown : ∀ e ∈ entries, e.1 ∉ names → e.2.isWhole = true

variable {names : List String} {entries : List (String × Value)}

theorem knownEntries : known names (ofEntries entries) = numbered names entries := by
  induction entries with
  | nil => rfl
  | cons e rest ih =>
    simp only [ofEntries, List.flatMap_cons, List.cons_append, List.nil_append, known, keyText,
      numbered, List.filterMap_cons] at ih ⊢
    cases names.findIdx? (· = e.1) <;> simp [ih]

theorem tidyEntries (unknown : ∀ e ∈ entries, e.1 ∉ names → e.2.isWhole = true) :
    Tidy names (ofEntries entries) := by
  induction entries with
  | nil => trivial
  | cons e rest ih =>
    obtain ⟨first, others⟩ := List.forall_mem_cons.mp unknown
    refine ⟨?_, ih others⟩
    rw [keyText]
    cases found : names.findIdx? (· = e.1) with
    | some i => trivial
    | none =>
      refine first fun inside => ?_
      rw [List.findIdx?_eq_none_iff] at found
      simpa using found _ inside

theorem Keyed.tidy {P : Type} {step : P → Nat → Value → P → Prop} {p q : P} {flat : List Value}
    (read : Keyed names step p flat q) : Tidy names flat := by
  induction read with
  | done => trivial
  | field known _ _ ih => exact ⟨by rw [known]; trivial, ih⟩
  | other unknown whole _ ih => exact ⟨by rw [unknown]; exact whole, ih⟩

theorem gathered {P F : Type} {slots : Slots P F} {read : Nat → Value → Option F}
    {run : P → List Value → Option P} (none : ∀ p, run p [] = some p)
    (next : ∀ p key v rest, run p (key :: v :: rest) = match Value.key names key with
      | .field i => ((read i v).bind (slots.put p)).bind fun q => run q rest
      | .other => if v.isWhole then run p rest else Option.none
      | .invalid => Option.none) :
    (flat : List Value) → (p : P) → Tidy names flat →
      run p flat = slots.gather read p (known names flat)
  | [], p, _ => none p
  | [_], _, tidy => tidy.elim
  | key :: v :: rest, p, ⟨first, others⟩ => by
    rw [next, known]
    cases field : Value.key names key with
    | field i => exact Option.bind_congr fun q _ => gathered none next rest q others
    | other =>
      rw [field] at first
      simp only [first, if_true, gathered none next rest p others]
    | invalid =>
      rw [field] at first
      exact first.elim

end MessagePack.Value

namespace Position

theorem flatGathered {flat : List Value} (tidy : Value.Tidy fields flat) (parts : Partial) :
    ofFlat parts flat = slots.gather (reading Value.word?) parts (Value.known fields flat) := by
  refine Value.gathered (fun _ => rfl) (fun parts key v rest => ?_) flat parts tidy
  simp only [ofFlat, reading, Option.bind_map]
  rfl

inductive Number (n : UInt32) : Value → Prop where
  | unsigned : Number n (.unsigned n.toNat)
  | signed : Number n (.signed n.toNat)

def Renders (p : Position) (v : Value) : Prop :=
  ∃ entries, Value.MapOf fields entries v ∧ Written Number entries p

def RendersOrNil : Option Position → Value → Prop
  | none, v => v = .nil
  | some p, v => p.Renders v

theorem numberRead {n : UInt32} {v : Value} (number : Number n v) : v.word? = some n := by
  have bound := n.toNat_lt
  cases number <;> simp [Value.word?, Value.natural?, bound]

theorem renderedRead {p : Position} {v : Value} (rendered : p.Renders v) :
    ofValue? v = some p := by
  obtain ⟨entries, ⟨rfl, unknown⟩, written⟩ := rendered
  rw [ofValue?, flatGathered (Value.tidyEntries unknown), Value.knownEntries, namedRead]
  exact written.mono fun n v => numberRead

theorem renderedOrNilRead {p : Option Position} {v : Value} (rendered : RendersOrNil p v) :
    orNil? v = some p := by
  cases p with
  | none =>
    obtain rfl : v = .nil := rendered
    rfl
  | some p =>
    have read := renderedRead rendered
    obtain ⟨entries, ⟨rfl, _⟩, _⟩ := rendered
    rw [orNil?, read, Option.map_some]
    simp

end Position

namespace Properties

def Renders (properties : Properties) (v : Value) : Prop :=
  ∃ entries, entries.Perm properties.entries ∧ v = .map (flat entries)

theorem insertFresh {key value : String} {entries : List (String × String)}
    (fresh : key ∉ entries.map Prod.fst) :
    (insertEntry key value entries).Perm ((key, value) :: entries) := by
  induction entries with
  | nil => exact .refl _
  | cons first rest ih =>
    obtain ⟨k, v⟩ := first
    simp only [List.map_cons, List.mem_cons, not_or] at fresh
    simp only [insertEntry]
    split
    · exact .refl _
    · rename_i notLess
      split
      · exact ((ih fresh.2).cons _).trans (.swap ..)
      · rename_i notGreater
        exact absurd (String.le_antisymm notGreater notLess) fresh.1

theorem entriesGathered {properties : Properties} {entries : List (String × String)}
    (once : ((properties.entries ++ entries).map Prod.fst).Nodup) :
    ∃ read, ofFlat properties (flat entries) = some read ∧
      read.entries.Perm (properties.entries ++ entries) := by
  induction entries generalizing properties with
  | nil => exact ⟨properties, rfl, by simp⟩
  | cons e rest ih =>
    have moved : (properties.entries ++ e :: rest).Perm (e :: properties.entries ++ rest) :=
      List.perm_middle
    have apart := (moved.map Prod.fst).nodup_iff.mp once
    have fresh : e.1 ∉ properties.entries.map Prod.fst := fun inside =>
      (List.nodup_cons.mp apart).1 (by simp [inside])
    have grown : (properties.insert e.1 e.2).entries.Perm (e :: properties.entries) :=
      insertFresh fresh
    obtain ⟨read, reads, whole⟩ := @ih (properties.insert e.1 e.2)
      (((grown.append_right rest).map Prod.fst).nodup_iff.mpr apart)
    refine ⟨read, by simpa [flat, ofFlat] using reads, ?_⟩
    exact whole.trans ((grown.append_right rest).trans moved.symm)

theorem renderedRead {properties : Properties} {v : Value} (rendered : properties.Renders v) :
    ofValue? v = some properties := by
  obtain ⟨entries, order, rfl⟩ := rendered
  have ascending := properties.ascending
  have once : (entries.map Prod.fst).Nodup := by
    rw [(order.map Prod.fst).nodup_iff, List.Nodup, List.pairwise_map]
    exact ascending.imp fun {a b} less (same : a.1 = b.1) => String.lt_irrefl _ (same ▸ less)
  obtain ⟨read, reads, whole⟩ := @entriesGathered empty entries once
  have same : read.entries = properties.entries :=
    (whole.trans order).eq_of_pairwise
      (fun a b _ _ less greater => absurd (String.lt_trans less greater) (String.lt_irrefl _))
      read.ascending ascending
  rw [ofValue?, reads]
  cases read
  cases properties
  simpa using same

end Properties

namespace SyntaxTree

theorem fieldIndexed {i : Nat} {v : Value} {f : Field} (read : field? i v = some f) :
    f.index = i := by
  unfold field? at read
  split at read
  · obtain ⟨_, _, rfl⟩ := Option.map_eq_some_iff.mp read
    rfl
  · cases read
    rfl
  · unfold plainField? at read
    split at read <;> first
      | contradiction
      | obtain ⟨_, _, rfl⟩ := Option.map_eq_some_iff.mp read
        rfl

theorem flatGathered {flat : List Value} (tidy : Value.Tidy fields flat) (parts : Partial) :
    ofFlat parts flat = slots.gather field? parts (Value.known fields flat) :=
  Value.gathered (fun _ => rfl) (fun _ _ _ _ => rfl) flat parts tidy

theorem flatTidy {flat : List Value} {parts out : Partial}
    (given : ofFlat parts flat = some out) : Value.Tidy fields flat :=
  (Value.keyedRead (fun _ => rfl) (fun _ _ => rfl) (fun _ _ _ _ => rfl) flat given).tidy

def Form : Field → Value → Prop
  | .internalType text, v => v = .ofText text
  | .token text, v => v = .ofText text
  | .roles texts, v => v = .ofTexts texts
  | .properties p, v => p.Renders v
  | .start p, v => Position.RendersOrNil p v
  | .stop p, v => Position.RendersOrNil p v
  | .children _, _ => False

mutual

def Renders : SyntaxTree → Value → Prop
  | .branch node children, v => ∃ entries, Value.MapOf fields entries v ∧
      Written Form (fun w => ∃ items, w = .array items ∧ RenderAll children items) entries node
        children

def RenderAll : List SyntaxTree → List Value → Prop
  | [], [] => True
  | t :: trees, v :: items => Renders t v ∧ RenderAll trees items
  | _, _ => False

end

theorem formRead {f : Field} {v : Value} (form : Form f v) : field? f.index v = some f := by
  cases f with
  | internalType text =>
    obtain rfl : v = .ofText text := form
    simp [Field.index, field?, plainField?]
  | token text =>
    obtain rfl : v = .ofText text := form
    simp [Field.index, field?, plainField?]
  | roles texts =>
    obtain rfl : v = .ofTexts texts := form
    simp [Field.index, field?, plainField?]
  | properties p => simp [Field.index, field?, plainField?, Properties.renderedRead form]
  | start p => simp [Field.index, field?, plainField?, Position.renderedOrNilRead form]
  | stop p => simp [Field.index, field?, plainField?, Position.renderedOrNilRead form]
  | children trees => exact form.elim

mutual

theorem renderedRead : (t : SyntaxTree) → {v : Value} → t.Renders v → ofValue? v = some t
  | .branch node children, _, ⟨entries, ⟨rfl, unknown⟩, written⟩ => by
    rw [ofValue?, flatGathered (Value.tidyEntries unknown), Value.knownEntries,
      namedRead fieldIndexed]
    refine written.mono (fun f v _ => formRead) ?_
    rintro _ ⟨items, rfl, all⟩
    simp [field?, renderedAllRead children all]

theorem renderedAllRead : (trees : List SyntaxTree) → {items : List Value} →
    RenderAll trees items → ofValues items = some trees
  | [], [], _ => rfl
  | t :: trees, v :: items, ⟨first, others⟩ => by
    simp [ofValues, renderedRead t first, renderedAllRead trees others]

end

def ownEntries (node : Node) (items : List Value) : List (String × Value) :=
  [("internal_type", .ofText node.internalType), ("token", .ofText node.token),
    ("roles", .ofTexts node.roles), ("properties", node.properties.toValue)] ++
  (node.start.map fun p => ("start_position", p.toValue)).toList ++
  (node.stop.map fun p => ("end_position", p.toValue)).toList ++ [("children", .array items)]

theorem ownEntriesSpelled (node : Node) (items : List Value) :
    nodeFields node ++ [.ofText "children", .array items] =
      Value.ofEntries (ownEntries node items) := by
  obtain ⟨_, _, _, _, start, stop⟩ := node
  cases start <;> cases stop <;> rfl

theorem ownPosition (p : Position) : p.Renders p.toValue :=
  ⟨[("offset", .ofWord p.offset), ("line", .ofWord p.line), ("col", .ofWord p.column)],
    ⟨rfl, by simp [Position.fields]⟩, by simp [Once],
    ⟨by simpa [Value.ofWord] using @Position.Number.unsigned p.offset, by simp⟩,
    ⟨by simpa [Value.ofWord] using @Position.Number.unsigned p.line, by simp⟩,
    ⟨by simpa [Value.ofWord] using @Position.Number.unsigned p.column, by simp⟩⟩

theorem ownWritten {below : Value → Prop} {node : Node} {children : List SyntaxTree}
    {items : List Value} (lower : below (.array items)) :
    Written Form below (ownEntries node items) node children := by
  obtain ⟨_, _, _, properties, start, stop⟩ := node
  have rendered : properties.Renders properties.toValue := ⟨_, .refl _, rfl⟩
  have own := ownPosition
  cases start <;> cases stop <;>
    refine ⟨by simp [Once, ownEntries], ?_, ?_, ?_, ?_, ?_, ?_, ?_⟩ <;>
    constructor <;> simp [ownEntries, Form, Position.RendersOrNil, *]

mutual

theorem ownRendered : (t : SyntaxTree) → t.Renders t.toValue
  | .branch node children => by
    refine ⟨ownEntries node (toValues children), ⟨?_, ?_⟩, ownWritten ⟨_, rfl, ownAllRendered _⟩⟩
    · rw [toValue, ownEntriesSpelled]
    · obtain ⟨_, _, _, _, start, stop⟩ := node
      cases start <;> cases stop <;> simp [ownEntries, fields]

theorem ownAllRendered : (trees : List SyntaxTree) → RenderAll trees (toValues trees)
  | [] => trivial
  | t :: rest => ⟨ownRendered t, ownAllRendered rest⟩

end

def Malformed (v : Value) : Prop :=
  ∃ flat, v = .map flat ∧ ((∀ w, (0, w) ∉ Value.known fields flat) ∨
    ¬ ((Value.known fields flat).map Prod.fst).Nodup)

inductive NodeOf (w : Value) : Value → Prop where
  | self : NodeOf w w
  | inMap {flat items : List Value} {child : Value}
      (listed : (childrenField, .array items) ∈ Value.known fields flat) (member : child ∈ items)
      (inside : NodeOf w child) : NodeOf w (.map flat)
  | inArray {parts items : List Value} {child : Value}
      (listed : parts[childrenField]? = some (.array items)) (member : child ∈ items)
      (inside : NodeOf w child) : NodeOf w (.array parts)

theorem mapGathered {flat : List Value} {t : SyntaxTree} (read : ofValue? (.map flat) = some t) :
    ((Value.known fields flat).map Prod.fst).Nodup ∧
      ∀ f ∈ t.written, slots.Stands field? (Value.known fields flat) f f.Default := by
  obtain ⟨parts, flatRead, _⟩ := Option.bind_eq_some_iff.mp read
  rw [ofValue?, flatGathered (flatTidy flatRead), gathered fieldIndexed] at read
  exact ⟨read.1, read.2.2⟩

theorem itemsGathered (items : List Value) (index : Nat) (parts : Partial) :
    ofItems index parts items =
      slots.gather field? parts ((items.zipIdx index).map Prod.swap) :=
  slots.itemsGathered (fun _ _ => rfl) (fun _ _ _ _ => rfl) items index parts

theorem arrayGathered {items : List Value} {t : SyntaxTree}
    (read : ofValue? (.array items) = some t) :
    ∀ f ∈ t.written, slots.Stands field? (positioned items) f f.Default := by
  rw [ofValue?, itemsGathered, gathered fieldIndexed] at read
  exact read.2.2

theorem malformedUnread {v : Value} (malformed : Malformed v) : ofValue? v = none := by
  obtain ⟨flat, rfl, wrong⟩ := malformed
  refine Option.eq_none_iff_forall_ne_some.mpr fun t read => ?_
  obtain ⟨once, stands⟩ := mapGathered read
  obtain ⟨node, children⟩ := t
  rcases wrong with absent | twice
  · exact (stands (.internalType node.internalType) List.mem_cons_self).missing absent
  · exact twice once

theorem childrenUnread {items : List Value} {child : Value} (member : child ∈ items)
    (unread : ofValue? child = none) : field? childrenField (.array items) = none := by
  suffices all : ofValues items = none by simp [field?, all]
  induction items with
  | nil => contradiction
  | cons v rest ih =>
    rcases List.mem_cons.mp member with rfl | later
    · simp [ofValues, unread]
    · simp [ofValues, ih later]

theorem nodeUnread {w v : Value} (node : NodeOf w v) (unread : ofValue? w = none) :
    ofValue? v = none := by
  induction node with
  | self => exact unread
  | inMap listed member inside ih =>
    refine Option.eq_none_iff_forall_ne_some.mpr fun t read => ?_
    obtain ⟨node, children⟩ := t
    have stands := (mapGathered read).2 (.children children) (by simp [written])
    exact absurd ((childrenUnread member ih).symm.trans (stands.read _ listed)) (by simp)
  | inArray listed member inside ih =>
    refine Option.eq_none_iff_forall_ne_some.mpr fun t read => ?_
    obtain ⟨node, children⟩ := t
    have stands := arrayGathered read (.children children) (by simp [written])
    have given := stands.read _ (positionedMember.mpr listed)
    exact absurd ((childrenUnread member ih).symm.trans given) (by simp)

theorem tolerantReading {v : Value} {bytes : Bytes} (spelled : Spells v bytes) (tail : Bytes) :
    (∀ t : SyntaxTree, t.Renders v →
      (v.depth ≤ maxOpen → decode? (bytes ++ tail) = some t) ∧
      (maxOpen < v.depth → decode? (bytes ++ tail) = none)) ∧
    ∀ w, NodeOf w v → Malformed w → decode? (bytes ++ tail) = none := by
  have shallow (room : v.depth ≤ maxOpen) : decode? (bytes ++ tail) = ofValue? v := by
    rw [decode?, MessagePack.read, spelled.read room]
  have deep (beyond : maxOpen < v.depth) : decode? (bytes ++ tail) = none := by
    refine Option.eq_none_iff_forall_ne_some.mpr fun t read => ?_
    have whole := valueWhole _ read
    rw [MessagePack.read, spelled.tooDeep beyond] at whole
    contradiction
  refine ⟨fun t rendered => ⟨fun room => ?_, deep⟩, fun w node malformed => ?_⟩
  · rw [shallow room, renderedRead t rendered]
  · by_cases room : v.depth ≤ maxOpen
    · rw [shallow room, nodeUnread node (malformedUnread malformed)]
    · exact deep (Nat.lt_of_not_le room)

def placed : SyntaxTree := .branch { internalType := "a", start := some ⟨0, 1, 2⟩ } [leaf "b"]

def shuffled : Value :=
  .map (Value.ofEntries [("comment", .array [.extension 1 [0]]),
    ("children", .array [.map (Value.ofEntries [("internal_type", .ofText "b")])]),
    ("start_position", .map (Value.ofEntries
      [("col", .signed 2), ("offset", .signed 0), ("x", .nil), ("line", .unsigned 1)])),
    ("end_position", .nil), ("internal_type", .ofText "a")])

theorem shuffledRead : Spells shuffled shuffled.write ∧ placed.Renders shuffled ∧
    decode? shuffled.write = some placed := by
  have fits : shuffled.Fits := by
    simp [shuffled, Value.ofEntries, Value.ofText, Value.Fits, Value.AllFit]
    decide
  have start : Position.Renders ⟨0, 1, 2⟩ (.map (Value.ofEntries
      [("col", .signed 2), ("offset", .signed 0), ("x", .nil), ("line", .unsigned 1)])) := by
    exact ⟨_, ⟨rfl, by simp [Position.fields, Value.isWhole]⟩, by simp [Once, Position.fields],
      ⟨by simpa using @Position.Number.signed 0, by simp⟩,
      ⟨by simpa using @Position.Number.unsigned 1, by simp⟩,
      ⟨by simpa using @Position.Number.signed 2, by simp⟩⟩
  have child : (leaf "b").Renders (.map (Value.ofEntries [("internal_type", .ofText "b")])) := by
    refine ⟨_, ⟨rfl, by simp [fields]⟩, by simp [Once], ?_, ?_, ?_, ?_, ?_, ?_, ?_⟩ <;>
      exact ⟨by simp [Form], by simp⟩
  have rendered : placed.Renders shuffled := by
    refine ⟨_, ⟨rfl, by simp [fields, Value.isWhole, Value.allWhole]⟩, by simp [Once, fields],
      ?_, ?_, ?_, ?_, ?_, ?_, ?_⟩ <;> refine ⟨?_, by simp⟩ <;>
      simp [Form, Position.RendersOrNil, start]
    exact ⟨child, trivial⟩
  have read := ((tolerantReading fits.spelled []).1 placed rendered).1 (by decide)
  exact ⟨fits.spelled, rendered, by simpa using read⟩

end SyntaxTree

end SourceModels

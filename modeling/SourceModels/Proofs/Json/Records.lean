import SourceModels.Proofs.Slots
import SourceModels.SyntaxTree.Received

/-! Records in documents: objects with the fields as members, or arrays of the fields in order. -/
namespace SourceModels

namespace Json

inductive Members : List Value → List (String × Value) → Prop where
  | nil : Members [] []
  | cons {key v : Value} {flat : List Value} {name : String} {entries : List (String × Value)}
      (named : key.text? = some name) (others : Members flat entries) :
      Members (key :: v :: flat) ((name, v) :: entries)

inductive Texts : List Value → List (String × String) → Prop where
  | nil : Texts [] []
  | cons {key v : Value} {flat : List Value} {name text : String}
      {entries : List (String × String)} (named : key.text? = some name)
      (said : v.text? = some text) (others : Texts flat entries) :
      Texts (key :: v :: flat) ((name, text) :: entries)

inductive Record (names : List String) : Value → List (String × Value) → Prop where
  | object {flat : List Value} {entries : List (String × Value)} (members : Members flat entries) :
      Record names (.object flat) entries
  | array {items : List Value} (few : items.length ≤ names.length) :
      Record names (.array items) (names.zip items)

theorem membersNext {key v : Value} {flat : List Value} {entries : List (String × Value)} :
    Members (key :: v :: flat) entries ↔ ∃ name others, key.text? = some name ∧
      Members flat others ∧ entries = (name, v) :: others := by
  constructor
  · rintro ⟨⟩
    exact ⟨_, _, ‹_›, ‹_›, rfl⟩
  · rintro ⟨name, others, named, members, rfl⟩
    exact .cons named members

theorem membersNone {entries : List (String × Value)} : Members [] entries ↔ entries = [] := by
  constructor
  · rintro ⟨⟩
    rfl
  · rintro rfl
    exact .nil

end Json

namespace Slots

variable {P F : Type} (slots : Slots P F) (read : Nat → Json.Value → Option F)
  (names : List String)

def gatherMembers : P → List Json.Value → Option P
  | p, key :: v :: rest =>
    match Json.key? names key with
    | some (some i) => ((read i v).bind (slots.put p)).bind fun q => gatherMembers q rest
    | some none => gatherMembers p rest
    | none => none
  | p, [] => some p
  | _, [_] => none

variable {slots read names}

theorem membersAlike {run : P → List Json.Value → Option P} (none : ∀ p, run p [] = some p)
    (keyless : ∀ p v, run p [v] = Option.none)
    (next : ∀ p key v rest, run p (key :: v :: rest) = match Json.key? names key with
      | some (some i) => ((read i v).bind (slots.put p)).bind fun q => run q rest
      | some Option.none => run p rest
      | Option.none => Option.none) (p : P) (flat : List Json.Value) :
    run p flat = slots.gatherMembers read names p flat := by
  fun_induction gatherMembers slots read names p flat with
  | case1 p key v rest i known ih =>
    simp only [next, known]
    exact Option.bind_congr fun q _ => ih q
  | case2 p key v rest known ih => simp only [next, known, ih]
  | case3 p key v rest unread => simp only [next, unread]
  | case4 p => exact none p
  | case5 p v => exact keyless p v

theorem membersGathered {p q : P} {flat : List Json.Value} :
    slots.gatherMembers read names p flat = some q ↔ ∃ entries, Json.Members flat entries ∧
      slots.gather read p (numbered names entries) = some q := by
  fun_induction gatherMembers slots read names p flat with
  | case1 p key v rest i known ih =>
    obtain ⟨name, named, found⟩ := Option.map_eq_some_iff.mp known
    simp only [Option.bind_eq_some_iff, ih, Json.membersNext, named, Option.some.injEq]
    constructor
    · rintro ⟨next, put, entries, members, gathered⟩
      refine ⟨_, ⟨name, entries, rfl, members, rfl⟩, ?_⟩
      simpa [numbered, found, gather, Option.bind_eq_some_iff] using ⟨next, put, gathered⟩
    · rintro ⟨_, ⟨_, entries, rfl, members, rfl⟩, gathered⟩
      simp only [numbered, List.filterMap_cons, found, Option.map_some, gather,
        Option.bind_eq_some_iff] at gathered
      obtain ⟨next, put, gathered⟩ := gathered
      exact ⟨next, put, entries, members, gathered⟩
  | case2 p key v rest known ih =>
    obtain ⟨name, named, found⟩ := Option.map_eq_some_iff.mp known
    simp only [ih, Json.membersNext, named, Option.some.injEq]
    constructor
    · rintro ⟨entries, members, gathered⟩
      exact ⟨_, ⟨name, entries, rfl, members, rfl⟩, by simpa [numbered, found] using gathered⟩
    · rintro ⟨_, ⟨_, entries, rfl, members, rfl⟩, gathered⟩
      simp only [numbered, List.filterMap_cons, found, Option.map_none] at gathered
      exact ⟨entries, members, gathered⟩
  | case3 p key v rest unread =>
    have nameless : key.text? = none := by simpa [Json.key?] using unread
    simp [Json.membersNext, nameless]
  | case4 p => simp [Json.membersNone, numbered, gather]
  | case5 =>
    simp only [reduceCtorEq, false_iff, not_exists, not_and]
    rintro _ ⟨⟩

theorem recordGathered {T : Type} {finish : P → Option T} (distinct : names.Nodup)
    (size : slots.size = names.length)
    (indexed : ∀ {i v f}, read i v = some f → slots.index f = i) {start : P} {v : Json.Value}
    {t : T} : (∃ entries, Json.Record names v entries ∧
      (slots.gather read start (numbered names entries)).bind finish = some t) ↔
    (∃ flat, v = .object flat ∧
      (slots.gatherMembers read names start flat).bind finish = some t) ∨
      ∃ items, v = .array items ∧
        (slots.gather read start (positioned items)).bind finish = some t := by
  simp only [Option.bind_eq_some_iff, membersGathered, gatherPositioned distinct size indexed]
  constructor
  · rintro ⟨_, members | few, q, gathered, finished⟩
    · exact .inl ⟨_, rfl, q, ⟨_, members, gathered⟩, finished⟩
    · exact .inr ⟨_, rfl, q, ⟨few, gathered⟩, finished⟩
  · rintro (⟨_, rfl, q, ⟨_, members, gathered⟩, finished⟩ |
      ⟨_, rfl, q, ⟨few, gathered⟩, finished⟩)
    · exact ⟨_, .object members, q, gathered, finished⟩
    · exact ⟨_, .array few, q, gathered, finished⟩

end Slots

end SourceModels

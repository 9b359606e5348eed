import SourceModels.Json.Value
import SourceModels.SyntaxTree.Fields

/-! Trees in JSON. Nodes and positions are objects, or arrays of their fields in order; unknown
fields are left aside. `room` is how many more arrays and objects may be open. -/
namespace SourceModels

def Json.key? (names : List String) (key : Json.Value) : Option (Option Nat) :=
  key.text?.map fun text => names.findIdx? (· = text)

namespace Position

def ofMembers : Partial → List Json.Value → Option Partial
  | parts, key :: v :: rest =>
    match Json.key? fields key with
    | some (some i) => (v.word?.bind (parts.put i)).bind fun parts => ofMembers parts rest
    | some none => ofMembers parts rest
    | none => none
  | parts, [] => some parts
  | _, [_] => none

def ofJson? : (room : Nat) → Json.Value → Option (Option Position)
  | _, .null => some none
  | _ + 1, .object flat => ((ofMembers {} flat).bind Partial.finish).map some
  | _ + 1, .array [offset, line, column] => do
    some (some ⟨← offset.word?, ← line.word?, ← column.word?⟩)
  | _, _ => none

end Position

namespace Properties

def ofMembers : Properties → List Json.Value → Option Properties
  | properties, key :: v :: rest => do
    let key ← key.text?
    let text ← v.text?
    ofMembers (properties.insert key text) rest
  | properties, [] => some properties
  | _, [_] => none

def ofJson? : (room : Nat) → Json.Value → Option Properties
  | _ + 1, .object flat => ofMembers empty flat
  | _, _ => none

end Properties

namespace SyntaxTree

def plainMember? (room : Nat) : (index : Nat) → Json.Value → Option Field
  | 0, v => v.text?.map .internalType
  | 1, v => v.text?.map .token
  | 2, v => if room = 0 then none else v.texts?.map .roles
  | 3, v => (Properties.ofJson? room v).map .properties
  | 4, v => (Position.ofJson? room v).map .start
  | 5, v => (Position.ofJson? room v).map .stop
  | _, _ => none

mutual

def ofJson? : (room : Nat) → Json.Value → Option SyntaxTree
  | room + 1, .object flat => (ofMembers room {} flat).bind Partial.finish
  | room + 1, .array items => (ofElements room 0 {} items).bind Partial.finish
  | _, _ => none

def ofMembers : (room : Nat) → Partial → List Json.Value → Option Partial
  | room, parts, key :: v :: rest =>
    match Json.key? fields key with
    | some (some i) =>
      ((member? room i v).bind parts.put).bind fun parts => ofMembers room parts rest
    | some none => ofMembers room parts rest
    | none => none
  | _, parts, [] => some parts
  | _, _, [_] => none

def ofElements : (room : Nat) → (index : Nat) → Partial → List Json.Value → Option Partial
  | _, _, parts, [] => some parts
  | room, index, parts, v :: rest =>
    ((member? room index v).bind parts.put).bind fun parts => ofElements room (index + 1) parts rest

def member? : (room : Nat) → (index : Nat) → Json.Value → Option Field
  | room + 1, childrenField, .array items => (ofJsons room items).map .children
  | room, index, v => plainMember? room index v

def ofJsons : (room : Nat) → List Json.Value → Option (List SyntaxTree)
  | _, [] => some []
  | room, v :: rest => do
    let t ← ofJson? room v
    let trees ← ofJsons room rest
    some (t :: trees)

end

end SyntaxTree

end SourceModels

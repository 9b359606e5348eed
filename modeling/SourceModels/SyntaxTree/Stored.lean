import SourceModels.SyntaxTree.Fields
import SourceModels.MessagePack.Writer
import SourceModels.MessagePack.Reader

/-! The stored form of a tree: one MessagePack map a node. Reading also takes the fields of a node
as a list in order and leaves unknown fields aside. -/
namespace SourceModels
open MessagePack

namespace Position

def toValue (p : Position) : Value :=
  .map [.ofText "offset", .ofWord p.offset, .ofText "line", .ofWord p.line,
    .ofText "col", .ofWord p.column]

def ofFlat : Partial → List Value → Option Partial
  | parts, key :: v :: rest =>
    match Value.key fields key with
    | .field i => (v.word?.bind (parts.put i)).bind fun parts => ofFlat parts rest
    | .other => if v.isWhole then ofFlat parts rest else none
    | .invalid => none
  | parts, [] => some parts
  | _, [_] => none

def ofValue? : Value → Option Position
  | .map flat => (ofFlat {} flat).bind Partial.finish
  | .array [offset, line, column] => do some ⟨← offset.word?, ← line.word?, ← column.word?⟩
  | .binary (offset :: line :: column :: _) =>
    some ⟨offset.toUInt32, line.toUInt32, column.toUInt32⟩
  | _ => none

def orNil? : Value → Option (Option Position)
  | .nil => some none
  | v => (ofValue? v).map some

end Position

namespace Properties

def toValue (properties : Properties) : Value :=
  .map (properties.entries.flatMap fun e => [.ofText e.1, .ofText e.2])

def ofFlat : Properties → List Value → Option Properties
  | properties, key :: v :: rest => do
    let key ← key.text?
    let text ← v.text?
    ofFlat (properties.insert key text) rest
  | properties, [] => some properties
  | _, [_] => none

def ofValue? : Value → Option Properties
  | .map flat => ofFlat empty flat
  | _ => none

end Properties

namespace SyntaxTree

def positionField (name : String) : Option Position → List Value
  | none => []
  | some p => [.ofText name, p.toValue]

def nodeFields (node : Node) : List Value :=
  [.ofText "internal_type", .ofText node.internalType, .ofText "token", .ofText node.token,
    .ofText "roles", .ofTexts node.roles, .ofText "properties", node.properties.toValue] ++
  positionField "start_position" node.start ++ positionField "end_position" node.stop

mutual

def toValue : SyntaxTree → Value
  | .branch node children =>
    .map (nodeFields node ++ [.ofText "children", .array (toValues children)])

def toValues : List SyntaxTree → List Value
  | [] => []
  | t :: rest => toValue t :: toValues rest

end

def plainField? : (index : Nat) → Value → Option Field
  | 0, v => v.text?.map .internalType
  | 1, v => v.text?.map .token
  | 2, v => v.texts?.map .roles
  | 3, v => (Properties.ofValue? v).map .properties
  | 4, v => (Position.orNil? v).map .start
  | 5, v => (Position.orNil? v).map .stop
  | _, _ => none

mutual

def ofValue? : Value → Option SyntaxTree
  | .map flat => (ofFlat {} flat).bind Partial.finish
  | .array items => (ofItems 0 {} items).bind Partial.finish
  | _ => none

def ofFlat : Partial → List Value → Option Partial
  | parts, key :: v :: rest =>
    match Value.key fields key with
    | .field i => ((field? i v).bind parts.put).bind fun parts => ofFlat parts rest
    | .other => if v.isWhole then ofFlat parts rest else none
    | .invalid => none
  | parts, [] => some parts
  | _, [_] => none

def ofItems : (index : Nat) → Partial → List Value → Option Partial
  | _, parts, [] => some parts
  | index, parts, v :: rest =>
    ((field? index v).bind parts.put).bind fun parts => ofItems (index + 1) parts rest

def field? : (index : Nat) → Value → Option Field
  | childrenField, .array items => (ofValues items).map .children
  | childrenField, .binary [] => some (.children [])
  | index, v => plainField? index v

def ofValues : List Value → Option (List SyntaxTree)
  | [] => some []
  | v :: rest => do
    let t ← ofValue? v
    let trees ← ofValues rest
    some (t :: trees)

end

def encode (t : SyntaxTree) : Bytes := t.toValue.write

def decode? (bytes : Bytes) : Option SyntaxTree := ofValue? (MessagePack.read bytes)

end SyntaxTree

end SourceModels

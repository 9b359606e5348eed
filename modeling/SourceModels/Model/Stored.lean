import SourceModels.Column.Stored
import SourceModels.Model

/-! The stored form of a model: one MessagePack map, in which the metadata and the two columns are
maps of their own. The first fault in the order of the bytes is the one reported. -/
namespace SourceModels
open MessagePack

namespace Version

def toValue (v : Version) : Value :=
  .array [.ofWord v.major, .ofWord v.minor, .ofWord v.patch]

def ofValue? : Value → Option Version
  | .array [major, minor, patch] => do some ⟨← major.word?, ← minor.word?, ← patch.word?⟩
  | .binary (major :: minor :: patch :: _) =>
    some ⟨major.toUInt32, minor.toUInt32, patch.toUInt32⟩
  | _ => none

end Version

namespace Uuid

/-- Sixteen bytes; a text holds them only where they are no UTF-8. -/
def ofValue? : Value → Option Uuid
  | .binary raw => ofBytes? raw
  | .text raw => if Utf8.isText raw then none else ofBytes? raw
  | _ => none

end Uuid

namespace Instant

def ofValue? : Value → Option Instant
  | .text raw => (Utf8.decode? raw).bind parse?
  | _ => none

end Instant

namespace Metadata

def fields : List String := ["model", "dependencies", "created_at", "uuid", "version"]

def toValue (m : Metadata) : Value :=
  .map [.ofText "model", .ofText m.kind, .ofText "dependencies", .ofTexts m.dependencies,
    .ofText "created_at", .ofText m.createdAt.stored, .ofText "uuid", .binary m.uuid.bytes,
    .ofText "version", m.version.toValue]

structure Partial where
  kind : Option String := none
  dependencies : Option (List String) := none
  createdAt : Option Instant := none
  uuid : Option Uuid := none
  version : Option Version := none

def Partial.put (parts : Partial) (index : Nat) (v : Value) : Option Partial := do
  match index with
  | 0 => if parts.kind.isSome then none else some { parts with kind := some (← v.text?) }
  | 1 =>
    if parts.dependencies.isSome then none
    else some { parts with dependencies := some (← v.texts?) }
  | 2 =>
    if parts.createdAt.isSome then none
    else some { parts with createdAt := some (← Instant.ofValue? v) }
  | 3 => if parts.uuid.isSome then none else some { parts with uuid := some (← Uuid.ofValue? v) }
  | 4 =>
    if parts.version.isSome then none
    else some { parts with version := some (← Version.ofValue? v) }
  | _ => none

def Partial.finish (parts : Partial) : Option Metadata := do
  some ⟨← parts.kind, ← parts.dependencies, ← parts.createdAt, ← parts.uuid, ← parts.version⟩

def ofFlat : Partial → List Value → Option Partial
  | parts, key :: v :: rest =>
    match Value.key fields key with
    | .field i => (parts.put i v).bind fun parts => ofFlat parts rest
    | .other => if v.isWhole then ofFlat parts rest else none
    | .invalid => none
  | parts, [] => some parts
  | _, [_] => none

def ofItems : (index : Nat) → Partial → List Value → Option Partial
  | _, parts, [] => some parts
  | index, parts, v :: rest => (parts.put index v).bind fun parts => ofItems (index + 1) parts rest

def ofValue? : Value → Option Metadata
  | .map flat => (ofFlat {} flat).bind Partial.finish
  | .array items => (ofItems 0 {} items).bind Partial.finish
  | _ => none

end Metadata

namespace Model

def fields : List String := ["meta", "repository", "filenames", "sources", "uasts"]

def toValue (model : Model) : Value :=
  .map [.ofText "meta", model.metadata.toValue, .ofText "repository", .ofText model.repository,
    .ofText "filenames", .ofTexts model.filenames, .ofText "sources", model.sources.toValue,
    .ofText "uasts", model.trees.toValue]

structure Partial where
  metadata : Option Metadata := none
  repository : Option String := none
  filenames : Option (List String) := none
  sources : Option Column := none
  trees : Option Column := none

def Partial.put (parts : Partial) (index : Nat) (v : Value) : Except StoredFault Partial := do
  match index with
  | 0 =>
    if parts.metadata.isSome then .error .malformed
    else return { parts with metadata := some (← orMalformed (Metadata.ofValue? v)) }
  | 1 =>
    if parts.repository.isSome then .error .malformed
    else return { parts with repository := some (← orMalformed v.text?) }
  | 2 =>
    if parts.filenames.isSome then .error .malformed
    else return { parts with filenames := some (← orMalformed v.texts?) }
  | 3 =>
    if parts.sources.isSome then .error .malformed
    else return { parts with sources := some (← Column.ofValue v) }
  | 4 =>
    if parts.trees.isSome then .error .malformed
    else return { parts with trees := some (← Column.ofValue v) }
  | _ => .error .malformed

def Partial.finish (parts : Partial) : Except StoredFault Model := do
  return ⟨← orMalformed parts.metadata, ← orMalformed parts.repository,
    ← orMalformed parts.filenames, ← orMalformed parts.sources, ← orMalformed parts.trees⟩

def ofFlat : Partial → List Value → Except StoredFault Partial
  | parts, key :: v :: rest =>
    match Value.key fields key with
    | .field i => (parts.put i v).bind fun parts => ofFlat parts rest
    | .other => if v.isWhole then ofFlat parts rest else .error .malformed
    | .invalid => .error .malformed
  | parts, [] => .ok parts
  | _, [_] => .error .malformed

def ofItems : (index : Nat) → Partial → List Value → Except StoredFault Partial
  | _, parts, [] => .ok parts
  | index, parts, v :: rest => (parts.put index v).bind fun parts => ofItems (index + 1) parts rest

def ofValue : Value → Except StoredFault Model
  | .map flat => (ofFlat {} flat).bind Partial.finish
  | .array items => (ofItems 0 {} items).bind Partial.finish
  | _ => .error .malformed

def encode (model : Model) : Bytes := model.toValue.write

def decode (bytes : Bytes) : Except StoredFault Model := ofValue (MessagePack.read bytes)

def ofBytes (bytes : Bytes) : Except ModelFault Model := do
  let model ← (decode bytes).mapError fun fault => ModelFault.decodeFailed fault.message
  model.validate
  return model

end Model

end SourceModels

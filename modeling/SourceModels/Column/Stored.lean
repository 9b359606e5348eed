import SourceModels.Column
import SourceModels.MessagePack.Writer
import SourceModels.MessagePack.Reader

/-! The stored form of a column: a map of its buffer and its lengths. The places are computed anew
on reading. -/
namespace SourceModels
open MessagePack

inductive StoredFault where
  | malformed
  | corruptColumn (fault : ColumnFault)
  deriving DecidableEq, Repr

def StoredFault.message : StoredFault → String
  | .malformed => "malformed data"
  | .corruptColumn fault => "Packed array is corrupted: " ++ fault.message

def orMalformed {α : Type} : Option α → Except StoredFault α
  | some a => .ok a
  | none => .error .malformed

namespace Column

def fields : List String := ["data", "lengths"]

def toValue (column : Column) : Value :=
  .map [.ofText "data", .binary column.data, .ofText "lengths",
    .array (column.lengths.map Value.ofWord)]

structure Partial where
  data : Option Bytes := none
  lengths : Option (List UInt32) := none

def Partial.put (parts : Partial) (index : Nat) (v : Value) : Option Partial := do
  match index with
  | 0 => if parts.data.isSome then none else some { parts with data := some (← v.bytes?) }
  | 1 => if parts.lengths.isSome then none else some { parts with lengths := some (← v.words?) }
  | _ => none

def ofFlat : Partial → List Value → Option Partial
  | parts, key :: v :: rest =>
    match Value.key fields key with
    | .field i => (parts.put i v).bind fun parts => ofFlat parts rest
    | .other => if v.isWhole then ofFlat parts rest else none
    | .invalid => none
  | parts, [] => some parts
  | _, [_] => none

def partsOf? : Value → Option (Bytes × List UInt32)
  | .map flat => do
    let parts ← ofFlat {} flat
    some (← parts.data, ← parts.lengths)
  | .array [data, lengths] => do some (← data.bytes?, ← lengths.words?)
  | _ => none

def ofValue (v : Value) : Except StoredFault Column := do
  let (data, lengths) ← orMalformed (partsOf? v)
  (ofParts data lengths).mapError .corruptColumn

def encode (column : Column) : Bytes := column.toValue.write

def decode (bytes : Bytes) : Except StoredFault Column := ofValue (MessagePack.read bytes)

def exchanged (column : Column) : Except StoredFault Column → Except StoredFault Unit × Column
  | .ok other => (.ok (), other)
  | .error fault => (.error fault, column)

inductive Change where
  | renew
  | merge (entries : List Bytes)
  | ofParts (data : Bytes) (lengths : List UInt32)
  | decode (bytes : Bytes)
  | append (entry : Bytes)

def Change.run (column : Column) : Change → Except StoredFault Unit × Column
  | .renew => column.exchanged (.ok .empty)
  | .merge entries => column.exchanged ((ofEntries entries).mapError .corruptColumn)
  | .ofParts data lengths => column.exchanged ((Column.ofParts data lengths).mapError .corruptColumn)
  | .decode bytes => column.exchanged (Column.decode bytes)
  | .append entry =>
    let (answer, grown) := (Column.append entry).run column
    (answer.mapError .corruptColumn, grown)

def changed (changes : List Change) : Column :=
  changes.foldl (fun column change => (change.run column).2) .empty

end Column

end SourceModels

import SourceModels.SyntaxTree

/-! The named fields of a node and of a position, in their order, and records of which some have
been read so far. A field given twice is refused; a missing one takes its default, where it has
one. -/
namespace SourceModels

namespace Position

def fields : List String := ["offset", "line", "col"]

structure Partial where
  offset : Option UInt32 := none
  line : Option UInt32 := none
  column : Option UInt32 := none
  deriving DecidableEq, Repr

def Partial.put (parts : Partial) (index : Nat) (n : UInt32) : Option Partial :=
  match index with
  | 0 => if parts.offset.isSome then none else some { parts with offset := some n }
  | 1 => if parts.line.isSome then none else some { parts with line := some n }
  | 2 => if parts.column.isSome then none else some { parts with column := some n }
  | _ => none

def Partial.finish (parts : Partial) : Option Position := do
  some ⟨← parts.offset, ← parts.line, ← parts.column⟩

end Position

namespace SyntaxTree

def fields : List String :=
  ["internal_type", "token", "roles", "properties", "start_position", "end_position", "children"]

@[match_pattern] abbrev childrenField : Nat := 6

inductive Field where
  | internalType (text : String)
  | token (text : String)
  | roles (texts : List String)
  | properties (p : Properties)
  | start (p : Option Position)
  | stop (p : Option Position)
  | children (trees : List SyntaxTree)

structure Partial where
  internalType : Option String := none
  token : Option String := none
  roles : Option (List String) := none
  properties : Option Properties := none
  start : Option (Option Position) := none
  stop : Option (Option Position) := none
  children : Option (List SyntaxTree) := none

def Partial.put (parts : Partial) : Field → Option Partial
  | .internalType text =>
    if parts.internalType.isSome then none else some { parts with internalType := some text }
  | .token text => if parts.token.isSome then none else some { parts with token := some text }
  | .roles texts => if parts.roles.isSome then none else some { parts with roles := some texts }
  | .properties p =>
    if parts.properties.isSome then none else some { parts with properties := some p }
  | .start p => if parts.start.isSome then none else some { parts with start := some p }
  | .stop p => if parts.stop.isSome then none else some { parts with stop := some p }
  | .children trees =>
    if parts.children.isSome then none else some { parts with children := some trees }

def Partial.finish (parts : Partial) : Option SyntaxTree := do
  let internalType ← parts.internalType
  some (.branch
    { internalType
      token := parts.token.getD ""
      roles := parts.roles.getD []
      properties := parts.properties.getD .empty
      start := parts.start.getD none
      stop := parts.stop.getD none }
    (parts.children.getD []))

end SyntaxTree

end SourceModels

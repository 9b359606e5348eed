import SourceModels.Bytes

/-! Wildcard patterns over the bytes of a path. A text is matched byte by byte: after each byte
there is a set of patterns one of which the rest of the text has to match. -/
namespace SourceModels

inductive Glob where
  | empty
  | byte (b : UInt8)
  | anyByte
  | anyRun
  | oneOf (negated : Bool) (ranges : List (UInt8 × UInt8))
  /-- Any number of leading directories, or one slash, or nothing. -/
  | leading
  /-- One slash, or two with anything between. -/
  | between
  | inside
  | seq (first second : Glob)
  | either (left right : Glob)
  deriving DecidableEq, Repr

namespace Glob

def slash : UInt8 := 47

def andThen : Glob → Glob → Glob
  | .empty, second => second
  | first, .empty => first
  | first, second => .seq first second

def ofList (parts : List Glob) : Glob := parts.foldr andThen .empty

def ofBranches (branches : List Glob) : Glob :=
  match (branches.filter (· != .empty)).reverse with
  | [] => .empty
  | last :: before => before.foldl (fun rest branch => .either branch rest) last

def nothing : Glob := .oneOf false []

def acceptsEmpty : Glob → Bool
  | .empty => true
  | .anyRun => true
  | .leading => true
  | .seq first second => first.acceptsEmpty && second.acceptsEmpty
  | .either left right => left.acceptsEmpty || right.acceptsEmpty
  | _ => false

/-- What may be left to match when a match starts with the byte `b`. -/
def after (b : UInt8) : Glob → List Glob
  | .empty => []
  | .byte c => if b = c then [.empty] else []
  | .anyByte => [.empty]
  | .anyRun => [.anyRun]
  | .oneOf negated ranges =>
    if ranges.any (fun r => r.1 ≤ b && b ≤ r.2) != negated then [.empty] else []
  | .leading => .seq .anyRun (.byte slash) :: if b = slash then [.empty] else []
  | .between => if b = slash then [.leading] else []
  | .inside => if b = slash then [.anyRun] else []
  | .seq first second =>
    (first.after b).map (·.andThen second) ++ if first.acceptsEmpty then second.after b else []
  | .either left right => left.after b ++ right.after b

def advance (patterns : List Glob) (b : UInt8) : List Glob := (patterns.flatMap (after b)).eraseDups

def matchesAll (pattern : Glob) (text : Bytes) : Bool :=
  (text.foldl advance [pattern]).any acceptsEmpty

end Glob

end SourceModels

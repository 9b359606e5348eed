import SourceModels.Model.Draft

/-! Asking a parser for the tree of one file, within a time limit and a size limit. -/
namespace SourceModels

structure ParseRequest where
  filename : String
  language : String
  content : Bytes
  deriving DecidableEq, Repr

inductive ParseAnswer where
  | tree (t : SyntaxTree)
  | failed (fault : ParseFault)
  | silent
  deriving DecidableEq, Repr

abbrev Parser := ParseRequest → ParseAnswer

structure ParseLimits where
  time : Duration
  fileSize : Nat
  deriving DecidableEq, Repr

def ParseRequest.fits (request : ParseRequest) (limits : ParseLimits) : Bool :=
  request.content.length ≤ limits.fileSize

def invoke (parser : Parser) (limits : ParseLimits) (request : ParseRequest) : ParseOutcome :=
  if request.fits limits then
    match parser request with
    | .tree t => .parsed t request.content
    | .failed fault => .failed fault
    | .silent => .failed (.timeout request.filename limits.time)
  else .oversize

end SourceModels

import SourceModels.Identifier
import SourceModels.Json.Reader
import SourceModels.Json.Writer
import SourceModels.Parsing
import SourceModels.Service.Url
import SourceModels.SyntaxTree.Received

/-! A parser reached over HTTP: a file goes out as one JSON object, and the answer is another one
with a tree in it. An answer without a tree is a failure. -/
namespace SourceModels

namespace Service

def route : String := "/v1/parse"

def endpoint (text : String) : String :=
  let bare := Text.dropEnd (· == '/') (Text.trim text).toList
  if Text.occursIn Identifier.schemeMark bare then String.ofList bare
  else "http://" ++ String.ofList bare

def parseUrl (text : String) : String := endpoint text ++ route

def body (request : ParseRequest) : Bytes :=
  Bytes.ofChars (Json.object [("filename", request.filename), ("language", request.language),
    ("content", Utf8.decodeLossy request.content)])

structure Post where
  url : Url
  contentType : String
  body : Bytes
  deriving DecidableEq, Repr

inductive Reply where
  | unreachable (reason : String)
  | response (status : Nat) (body : Bytes) (complete : Bool)
  deriving DecidableEq, Repr

abbrev Network := Post → Reply

def post? (text : String) (request : ParseRequest) : Option Post :=
  (Url.parse? (parseUrl text)).map fun url => ⟨url, "application/json", body request⟩

/-- The body of a response as far as it counts: an interim response is none, and some have no
body whatever follows. -/
def payload? (status : Nat) (body : Bytes) (complete : Bool) : Option Bytes :=
  if status < 200 ∧ status ≠ 101 then none
  else if status = 101 ∨ status = 204 ∨ status = 304 then some []
  else if complete then some body
  else none

structure Answer where
  status : String := ""
  errors : List String := []
  tree : Option SyntaxTree := none
  deriving DecidableEq, Repr

namespace Answer

def fields : List String := ["status", "errors", "uast"]

structure Partial where
  status : Option String := none
  errors : Option (List String) := none
  tree : Option (Option SyntaxTree) := none

def orNull? (room : Nat) : Json.Value → Option (Option SyntaxTree)
  | .null => some none
  | v => (SyntaxTree.ofJson? room v).map some

def Partial.put (room : Nat) (parts : Partial) (index : Nat) (v : Json.Value) : Option Partial := do
  match index with
  | 0 => if parts.status.isSome then none else some { parts with status := some (← v.text?) }
  | 1 => if parts.errors.isSome then none else some { parts with errors := some (← v.texts?) }
  | 2 => if parts.tree.isSome then none else some { parts with tree := some (← orNull? room v) }
  | _ => none

def Partial.finish (parts : Partial) : Answer :=
  ⟨parts.status.getD "", parts.errors.getD [], parts.tree.getD none⟩

def ofMembers (room : Nat) : Partial → List Json.Value → Option Partial
  | parts, key :: v :: rest =>
    match Json.key? fields key with
    | some (some i) => (parts.put room i v).bind fun parts => ofMembers room parts rest
    | some none => ofMembers room parts rest
    | none => none
  | parts, [] => some parts
  | _, [_] => none

def ofElements (room : Nat) : (index : Nat) → Partial → List Json.Value → Option Partial
  | _, parts, [] => some parts
  | index, parts, v :: rest =>
    (parts.put room index v).bind fun parts => ofElements room (index + 1) parts rest

def maxOpen : Nat := 127

def ofJson? : Json.Value → Option Answer
  | .object flat => (ofMembers (maxOpen - 1) {} flat).map Partial.finish
  | .array items => (ofElements (maxOpen - 1) 0 {} items).map Partial.finish
  | _ => none

def decode? (body : Bytes) : Option Answer := (Json.read? body).bind ofJson?

def reason (answer : Answer) : String :=
  if answer.errors.isEmpty then "status '" ++ answer.status ++ "'"
  else "; ".intercalate answer.errors

end Answer

def judge (file : String) (status : Nat) (payload : Bytes) : ParseAnswer :=
  if status < 200 ∨ 300 ≤ status then
    .failed (.transport file ("parser service returned HTTP " ++ toString status))
  else
    match Answer.decode? payload with
    | none => .failed (.undecodable file "no answer of the expected form")
    | some answer =>
      match answer.tree with
      | some t => .tree t
      | none => .failed (.noTree file answer.reason)

def classify (file : String) : Reply → ParseAnswer
  | .unreachable reason => .failed (.transport file reason)
  | .response status body complete =>
    match payload? status body complete with
    | none => .failed (.transport file "the response was cut off")
    | some payload => judge file status payload

def parser (network : Network) (text : String) : Parser := fun request =>
  match post? text request with
  | none => .failed (.transport request.filename "not the address of a web service")
  | some post => classify request.filename (network post)

end Service

end SourceModels

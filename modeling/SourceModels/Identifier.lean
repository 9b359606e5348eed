import SourceModels.Text.Blank
import SourceModels.Path

/-! Repository identifiers. The ways of naming one repository share a key, and the key says where
its model file lives: below as many nested directories as wanted, each named by a growing start of
the key. -/
namespace SourceModels.Identifier

def isTrailing (c : Char) : Bool := Text.isBlank c || c == '\\'

def trim (identifier : String) : String := Text.trimEndWhile isTrailing identifier

def schemeMark : List Char := [':', '/', '/']

def gitSuffix : List Char := ['.', 'g', 'i', 't']

def keyChars (identifier : List Char) : List Char :=
  let trimmed := Text.dropEnd isTrailing identifier
  let bare := (Text.stripEnd? gitSuffix trimmed).getD trimmed
  Text.replaceChar '/' '&' ((Text.afterLast? schemeMark bare).getD bare)

/-- The identifier without scheme, `.git` and trailing blanks, each slash written as `&`. -/
def key (identifier : String) : String := String.ofList (keyChars identifier.toList)

def modelFileName (key : String) : String := "source_" ++ key ++ ".asdf"

def growing {α : Type} : (depth : Nat) → List α → List (List α)
  | 0, _ => []
  | _, [] => []
  | depth + 1, x :: xs => [x] :: (growing depth xs).map (x :: ·)

def shards (depth : Nat) (key : String) : List String :=
  (growing depth key.toList).map String.ofList

def destination (identifier root : String) (depth : Nat) : String :=
  let key := key identifier
  Path.join ((shards depth key).foldl Path.join root) (modelFileName key)

end SourceModels.Identifier

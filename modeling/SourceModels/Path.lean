import SourceModels.Text.Blank

/-! Path texts: names separated by slashes, compared and joined without touching any file. -/
namespace SourceModels.Path

def joinChars (base part : List Char) : List Char :=
  match part with
  | '/' :: _ => part
  | _ =>
    match base.getLast? with
    | none => part
    | some '/' => base ++ part
    | some _ => base ++ '/' :: part

def join (base part : String) : String := String.ofList (joinChars base.toList part.toList)

/-- What remains when the last name and the slashes and dots that follow it are dropped: the text
up to the last name, and that name. A path with no name gives none. -/
def splitLast (path : List Char) : Option (List Char × List Char) :=
  strip path.reverse path.length
where
  strip (reversed : List Char) : Nat → Option (List Char × List Char)
    | 0 => none
    | fuel + 1 =>
      let name := reversed.takeWhile (· ≠ '/')
      let rest := reversed.dropWhile (· ≠ '/')
      if name = [] ∧ rest = [] then none
      else if name = [] ∨ (name = ['.'] ∧ rest ≠ []) then strip rest.tail fuel
      else some (rest.reverse, name.reverse)

def trimmedEnd (reversed : List Char) : Nat → List Char
  | 0 => reversed.reverse
  | fuel + 1 =>
    match reversed with
    | '/' :: '/' :: rest => trimmedEnd ('/' :: rest) fuel
    | '/' :: '.' :: '/' :: rest => trimmedEnd ('/' :: rest) fuel
    | ['/'] => ['/']
    | '/' :: rest => rest.reverse
    | other => other.reverse

def parent? (path : String) : Option String :=
  (splitLast path.toList).map fun (before, _) =>
    String.ofList (trimmedEnd before.reverse before.length)

def fileName? (path : String) : Option String :=
  match splitLast path.toList with
  | some (_, name) =>
    if name = ['.'] ∨ name = ['.', '.'] then none else some (String.ofList name)
  | none => none

def withFileName (path name : String) : String :=
  match fileName? path with
  | some _ => join ((parent? path).getD "") name
  | none => join path name

def parts (path : List Char) : List (List Char) :=
  (Text.splitOn '/' path).filter (· ≠ [])

def isAbsolute (path : String) : Bool := path.toList.head? == some '/'

end SourceModels.Path

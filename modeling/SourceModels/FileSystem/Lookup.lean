import SourceModels.FileSystem
import SourceModels.Text.Utf8

/-! Following a path through a file system. Links met on the way are followed, up to forty of them;
every name but the last must stand for a directory. -/
namespace SourceModels.FileSystem

def maxLinks : Nat := 40

def maxNameBytes : Nat := 255

def maxPathBytes : Nat := 4095

def names (path : String) : List String := (Path.parts path.toList).map String.ofList

def hasTrailingSlash (path : String) : Bool := path.toList.getLast? == some '/'

def components (path : String) : List String :=
  if hasTrailingSlash path ∧ names path ≠ [] then names path ++ ["."] else names path

inductive Found where
  | at (location : Location) (content : Content)
  | missing (directory : Location) (name : String)
  deriving DecidableEq, Repr

def byteLength (text : String) : Nat := (Bytes.ofText text).length

/-- Walks from a directory along the parts of a path. `cross` goes on from a directory after a link
has been replaced by the parts of its target; `followLast` says whether this is also done for a
link that the path ends in. -/
def walkWith (fs : FileSystem) (cross : Location → List String → Except Fault Found)
    (followLast : Bool) : Location → List String → Except Fault Found
  | here, [] =>
    match fs.content? here with
    | some content => .ok (.at here content)
    | none => .error .notFound
  | here, name :: rest =>
    match fs.content? here with
    | none => .error .notFound
    | some .directory =>
      if name = "." then walkWith fs cross followLast here rest
      else if name = ".." then walkWith fs cross followLast here.tail rest
      else if maxNameBytes < byteLength name then .error .nameTooLong
      else
        match fs.content? (name :: here) with
        | none => if rest = [] then .ok (.missing here name) else .error .notFound
        | some (.link target) =>
          if rest = [] ∧ followLast = false then .ok (.at (name :: here) (.link target))
          else if target = "" then .error .notFound
          else cross (if Path.isAbsolute target then [] else here) (components target ++ rest)
        | some _ => walkWith fs cross followLast (name :: here) rest
    | some _ => .error .notDirectory

def walk (fs : FileSystem) (followLast : Bool) : (links : Nat) → Location → List String →
    Except Fault Found
  | 0 => walkWith fs (fun _ _ => .error .tooManyLinks) followLast
  | links + 1 => walkWith fs (walk fs followLast links) followLast

theorem walkUnlinked (fs : FileSystem) (followLast : Bool) :
    walk fs followLast 0 = walkWith fs (fun _ _ => .error .tooManyLinks) followLast := rfl

theorem walkLinked (fs : FileSystem) (followLast : Bool) (links : Nat) :
    walk fs followLast (links + 1) = walkWith fs (walk fs followLast links) followLast := rfl

def passedWith (fs : FileSystem) (cross : Location → List String → List Location) :
    Location → List String → List Location
  | _, [] => []
  | here, name :: rest =>
    match fs.content? here with
    | some .directory =>
      if name = "." then passedWith fs cross here rest
      else if name = ".." then passedWith fs cross here.tail rest
      else
        (name :: here) :: match fs.content? (name :: here) with
          | none => []
          | some (.link target) =>
            cross (if Path.isAbsolute target then [] else here) (components target ++ rest)
          | some _ => passedWith fs cross (name :: here) rest
    | _ => []

def passed (fs : FileSystem) : (links : Nat) → Location → List String → List Location
  | 0 => passedWith fs (fun _ _ => [])
  | links + 1 => passedWith fs (passed fs links)

theorem passedUnlinked (fs : FileSystem) : passed fs 0 = passedWith fs (fun _ _ => []) := rfl

theorem passedLinked (fs : FileSystem) (links : Nat) :
    passed fs (links + 1) = passedWith fs (passed fs links) := rfl

theorem walkHere {fs : FileSystem} {follow : Bool} {links : Nat} {here : Location}
    {content : Content} (held : fs.content? here = some content) :
    walk fs follow links here [] = .ok (.at here content) := by
  cases links <;> simp [walkUnlinked, walkLinked, walkWith, held]

theorem passedHere {fs : FileSystem} {links : Nat} {here : Location} :
    passed fs links here [] = [] := by
  cases links <;> simp [passedUnlinked, passedLinked, passedWith]

-- a walk with forty links allowed is too large to be compared by evaluation
attribute [irreducible] walk passed

def startOf (fs : FileSystem) (path : String) : Location :=
  if Path.isAbsolute path then [] else fs.current

def checkPath (path : String) : Except Fault Unit :=
  if path.toList.contains '\x00' then .error .nulInName
  else if path = "" then .error .notFound
  else .ok ()

def checkLength (path : String) : Except Fault Unit :=
  if maxPathBytes < byteLength path then .error .nameTooLong else .ok ()

def find (fs : FileSystem) (followLast : Bool) (path : String) : Except Fault Found := do
  checkPath path
  checkLength path
  walk fs followLast maxLinks (fs.startOf path) (components path)

def existing (found : Except Fault Found) : Except Fault (Location × Content) :=
  match found with
  | .ok (.at location content) => .ok (location, content)
  | .ok (.missing _ _) => .error .notFound
  | .error fault => .error fault

def status (fs : FileSystem) (path : String) : Except Fault Content :=
  (existing (fs.find true path)).map Prod.snd

def linkStatus (fs : FileSystem) (path : String) : Except Fault Content :=
  (existing (fs.find false path)).map Prod.snd

def pathExists (fs : FileSystem) (path : String) : Bool := (fs.status path).toOption.isSome

def isDirectory (fs : FileSystem) (path : String) : Bool :=
  match fs.status path with
  | .ok content => content.isDirectory
  | .error _ => false

def isLink (fs : FileSystem) (path : String) : Bool :=
  match fs.linkStatus path with
  | .ok content => content.isLink
  | .error _ => false

def tryExists (fs : FileSystem) (path : String) : Except Fault Bool :=
  match fs.status path with
  | .ok _ => .ok true
  | .error .notFound => .ok false
  | .error fault => .error fault

def isOverlong (location : Location) : Bool := maxPathBytes < byteLength location.text

/-- The path itself may be of any length, but the location and all that is looked up on the way to
it must be within the limit. -/
def locate (fs : FileSystem) (path : String) : Except Fault Location := do
  checkPath path
  if (fs.passed maxLinks (fs.startOf path) (components path)).any isOverlong then
    .error .nameTooLong
  else
    let (location, _) ← existing (walk fs true maxLinks (fs.startOf path) (components path))
    if isOverlong location then .error .nameTooLong else return location

def readHead (fs : FileSystem) (limit : Nat) (path : String) : Except Fault Bytes := do
  match ← fs.status path with
  | .file data => .ok (data.take limit)
  | .directory => .error .isDirectory
  | .unreadable _ fault => .error fault
  | _ => .ok []

def readBytes (fs : FileSystem) (path : String) : Except Fault Bytes := do
  match ← fs.status path with
  | .file data => .ok data
  | .directory => .error .isDirectory
  | .unreadable _ fault => .error fault
  | _ => .ok []

def readText (fs : FileSystem) (path : String) : Except Fault String := do
  match Utf8.decode? (← fs.readBytes path) with
  | some text => .ok text
  | none => .error .notText

def list (fs : FileSystem) (path : String) : Except Fault (List (String × Content)) := do
  let (location, content) ← existing (fs.find true path)
  if content.isDirectory = false then .error .notDirectory
  else
    match fs.closed.lookup location with
    | some fault => .error fault
    | none => return fs.sortedChildren location

end SourceModels.FileSystem

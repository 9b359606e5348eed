import SourceModels.FileSystem.Lookup

/-! Changes to a file system, none of which is refused without a reason in the file system itself. -/
namespace SourceModels.FileSystem

inductive Last where
  | name (text : String)
  | noName
  deriving DecidableEq, Repr

def lastOf (names : List String) : Except Fault Last :=
  match names.getLast? with
  | none => .ok .noName
  | some name =>
    if name = "." ∨ name = ".." then .ok .noName
    else if maxNameBytes < byteLength name then .error .nameTooLong
    else .ok (.name name)

def findParent (fs : FileSystem) (path : String) : Except Fault (Location × Last) := do
  checkPath path
  checkLength path
  let (location, content) ← existing
    (walk fs true maxLinks (fs.startOf path) (names path).dropLast)
  if content.isDirectory = false then .error .notDirectory
  else return (location, ← lastOf (names path))

def makeDirectory (fs : FileSystem) (path : String) : Except Fault FileSystem := do
  match ← fs.findParent path with
  | (_, .noName) => .error .alreadyExists
  | (parent, .name name) =>
    match fs.content? (name :: parent) with
    | some _ => .error .alreadyExists
    | none => return fs.put (name :: parent) .directory

def orPresent (fs : FileSystem) (path : String) (made : Except Fault FileSystem) :
    Except Fault FileSystem :=
  match made with
  | .error .alreadyExists => if fs.isDirectory path then .ok fs else .error .alreadyExists
  | other => other

def writeFile (fs : FileSystem) (path : String) (data : Bytes) : Except Fault FileSystem := do
  if hasTrailingSlash path then
    let _ ← fs.findParent path
    .error .isDirectory
  else
    match ← fs.find true path with
    | .missing directory name => return fs.put (name :: directory) (.file data)
    | .at location (.file _) => return fs.put location (.file data)
    | .at _ .directory => .error .isDirectory
    | .at _ _ => return fs

def rename (fs : FileSystem) (source target : String) : Except Fault FileSystem := do
  let (sourceParent, sourceLast) ← fs.findParent source
  let (targetParent, targetLast) ← fs.findParent target
  match sourceLast, targetLast with
  | .name sourceName, .name targetName =>
    match fs.content? (sourceName :: sourceParent) with
    | none => .error .notFound
    | some content =>
      if hasTrailingSlash target then .error .notDirectory
      else if fs.content? (targetName :: targetParent) = some .directory then .error .isDirectory
      else return (fs.erase (sourceName :: sourceParent)).put (targetName :: targetParent) content
  | _, _ => .error .busy

def removeFile (fs : FileSystem) (path : String) : Except Fault FileSystem := do
  match ← fs.findParent path with
  | (_, .noName) => .error .isDirectory
  | (parent, .name name) =>
    match fs.content? (name :: parent) with
    | none => .error .notFound
    | some .directory => .error .isDirectory
    | some _ => return fs.erase (name :: parent)

end SourceModels.FileSystem

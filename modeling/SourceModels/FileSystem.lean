import SourceModels.Bytes
import SourceModels.Fault
import SourceModels.Path

/-! A file system: what lies at each location, and the directory that relative paths start from. -/
namespace SourceModels

/-- The names on the way from the root to an entry, the entry's own name first. -/
abbrev Location := List String

def Location.text (location : Location) : String :=
  match location with
  | [] => "/"
  | _ => String.join (location.reverse.map ("/" ++ ·))

inductive Content where
  | directory
  | file (data : Bytes)
  | link (target : String)
  /-- Neither file nor directory: reading gives nothing, what is written is lost. -/
  | device
  | unreadable (size : Nat) (fault : Fault)
  deriving DecidableEq, Repr

def Content.isDirectory : Content → Bool
  | .directory => true
  | _ => false

def Content.isLink : Content → Bool
  | .link _ => true
  | _ => false

def Content.isFile : Content → Bool
  | .file _ => true
  | .unreadable .. => true
  | _ => false

def Content.size : Content → Nat
  | .file data => data.length
  | .unreadable size _ => size
  | _ => 0

structure FileSystem where
  entries : List (Location × Content)
  current : Location
  /-- Directories that cannot be opened, and why. What lies in them can be reached by its name. -/
  closed : List (Location × Fault) := []
  deriving DecidableEq, Repr

namespace FileSystem

def content? (fs : FileSystem) : Location → Option Content
  | [] => some .directory
  | location => fs.entries.lookup location

def put (fs : FileSystem) (location : Location) (content : Content) : FileSystem :=
  { fs with entries := (location, content) :: fs.entries.filter (·.1 ≠ location) }

def erase (fs : FileSystem) (location : Location) : FileSystem :=
  { fs with entries := fs.entries.filter (·.1 ≠ location) }

def children (fs : FileSystem) (directory : Location) : List (String × Content) :=
  fs.entries.filterMap fun e =>
    match e.1 with
    | name :: parent => if parent = directory then some (name, e.2) else none
    | [] => none

def sortedChildren (fs : FileSystem) (directory : Location) : List (String × Content) :=
  (fs.children directory).mergeSort fun a b => textLe a.1 b.1

end FileSystem

end SourceModels

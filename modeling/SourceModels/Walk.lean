import SourceModels.FileSystem.Lookup

/-! Walking a directory tree, depth first and in bytewise order of names. A walk goes on one entry
at a time, each step with the file system as it is then; a directory is listed when it is reached.
Directories named `.git` are left out, and links are reported but not entered, except that the root
of a walk may be a link to a directory. -/
namespace SourceModels

inductive EntryKind where
  | directory
  | link
  | other
  deriving DecidableEq, Repr

def EntryKind.ofContent : Content → EntryKind
  | .directory => .directory
  | .link _ => .link
  | _ => .other

structure WalkEntry where
  path : String
  names : List String
  kind : EntryKind
  deriving DecidableEq, Repr

inductive Walk where
  | finished
  | failed (path : String) (fault : Fault)
  | found (entry : WalkEntry) (resume : FileSystem → Walk)

instance : Inhabited Walk := ⟨.finished⟩

namespace Walk

abbrev Listing := Except Fault (List (String × Content))

/-- Enters a listed directory: its path, the names down to it, what was listed and how to go on. -/
abbrev Enter := String → List String → Listing → (FileSystem → Walk) → FileSystem → Walk

def gitDirectory : String := ".git"

def visit (enter : Enter) (path : String) (names : List String) :
    List (String × Content) → (FileSystem → Walk) → FileSystem → Walk
  | [], goOn, fs => goOn fs
  | (name, content) :: rest, goOn, fs =>
    let kind := EntryKind.ofContent content
    let entry : WalkEntry := ⟨Path.join path name, names ++ [name], kind⟩
    match kind with
    | .directory =>
      if name = gitDirectory then visit enter path names rest goOn fs
      else
        let listing := fs.list entry.path
        .found entry (enter entry.path entry.names listing (visit enter path names rest goOn))
    | _ => .found entry (visit enter path names rest goOn)

def enterWithin : (levels : Nat) → Enter
  | levels, path, names, listing, goOn, fs =>
    match listing with
    | .error fault => .failed path fault
    | .ok entries =>
      match levels with
      | 0 => goOn fs
      | levels + 1 => visit (enterWithin levels) path names entries goOn fs

def maxLevels : Nat := 4096

def start (fs : FileSystem) (root : String) : Walk :=
  match fs.linkStatus root with
  | .error fault => .failed root fault
  | .ok content =>
    let kind := EntryKind.ofContent content
    let entry : WalkEntry := ⟨root, [], kind⟩
    let enter (listing : Listing) := enterWithin maxLevels root [] listing (fun _ => .finished)
    match kind with
    | .directory =>
      if Path.fileName? root = some gitDirectory then .finished
      else .found entry (enter (fs.list root))
    | .link =>
      match fs.status root with
      | .error fault => .failed root fault
      | .ok target =>
        if target.isDirectory then .found entry (enter (fs.list root))
        else .found entry (fun _ => .finished)
    | .other => .found entry (fun _ => .finished)

end Walk

end SourceModels

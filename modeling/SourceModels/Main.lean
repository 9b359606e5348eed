import Std.Time.DateTime.Timestamp
import SourceModels.CommandLine

/-! The program on a machine. The files that a run may look at are read, the run is made on what was
read, and what it changed is carried out. There is no network here, so that every parser service is
out of reach. -/
namespace SourceModels.Machine

def settingNames : List String :=
  ["REPO2SOURCE_CONFIG", "REPO2SOURCE_ENDPOINT", "REPO2SOURCE_TIMEOUT",
   "REPO2SOURCE_MAX_FILE_SIZE", "REPO2SOURCE_SHARD_DEPTH", "REPO2SOURCE_OVERWRITE",
   "REPO2SOURCE_WORKERS", "XDG_CONFIG_HOME", "HOME"]

def readEnvironment : IO Environment :=
  settingNames.filterMapM fun name => do
    return (← IO.getEnv name).map fun value => (name, Bytes.ofText value)

def locationOf (current : Location) (path : String) : Location :=
  (FileSystem.components path).foldl (fun here name =>
    if name = "." then here else if name = ".." then here.tail else name :: here)
    (if Path.isAbsolute path then [] else current)

def readContent (location : Location) : IO (Option Content) := do
  let path := (← IO.currentDir) / location.text
  try
    match (← path.metadata).type with
    | .dir => return some .directory
    | .file => return some (.file (← IO.FS.readBinFile path).toList)
    | _ => return some .device
  catch _ => return none

def addLocation (fs : FileSystem) (location : Location) : IO FileSystem :=
  (Text.suffixes location).reverse.foldlM (fun fs here => do
    if here = [] ∨ (fs.content? here).isSome then return fs
    match ← readContent here with
    | some content => return fs.put here content
    | none => return fs) fs

partial def addTree (fs : FileSystem) (location : Location) : IO FileSystem := do
  let directory := (← IO.currentDir) / location.text
  let mut fs := fs
  for entry in ← directory.readDir do
    let here := entry.fileName :: location
    match (← entry.path.symlinkMetadata).type with
    | .symlink =>
      if ← entry.path.pathExists then
        let target := (← IO.FS.realPath entry.path).toString
        fs ← addLocation (fs.put here (.link target)) (locationOf [] target)
      else fs := fs.put here (.link (entry.fileName ++ "/missing"))
    | .dir => fs ← addTree (fs.put here .directory) here
    | _ =>
      match ← readContent here with
      | some content => fs := fs.put here content
      | none => pure ()
  return fs

def addPath (fs : FileSystem) (path : String) : IO FileSystem := do
  let location := locationOf fs.current path
  let fs ← addLocation fs location
  if fs.content? location = some .directory then addTree fs location else return fs

def pathsOf (env : Environment) : CommandLine.Command → FileSystem → List String
  | .extract o, fs =>
    let repositories := (CommandLine.repositories o fs).toOption.getD o.repositories
    o.config.getD (Config.defaultPath env) :: o.reposList.toList ++
      o.outputFile.elim [o.output.getD "."] (fun file => [(Path.parent? file).getD "."]) ++
      repositories.map Identifier.trim
  | .show path _, _ => [path]
  | _, _ => []

def readFiles (env : Environment) (command : CommandLine.Command) : IO FileSystem := do
  let current := locationOf [] (← IO.currentDir).toString
  let fs ← addLocation ⟨[], current, []⟩ current
  let listed ← match command with
    | .extract o => o.reposList.toList.foldlM addPath fs
    | _ => pure fs
  (pathsOf env command listed).foldlM addPath listed

/-- Carries out the difference between two states of the files: new directories, and files that are
written beside their place and moved there. -/
def carryOut (before after : FileSystem) : IO Unit :=
  for (location, content) in after.entries.reverse do
    if before.content? location ≠ some content then
      match content with
      | .directory => IO.FS.createDirAll location.text
      | .file data =>
        let part := location.text ++ ".part"
        IO.FS.writeBinFile part ⟨data.toArray⟩
        IO.FS.rename part location.text
      | _ => pure ()

def makeStamp (random : Bytes) (now : Std.Time.Timestamp) (position : Nat) : Stamp :=
  let number := Bytes.ofBigEndian random + position
  { now := .ofEpoch now.val.second.val.toNat now.val.nano.val.toNat
    uuid := ((Uuid.ofBytes? (Bytes.bigEndian 16 number)).getD .zero).ofRandom
    token := Bytes.hex (Bytes.bigEndian 16 number) }

def run (arguments : List String) : IO UInt32 := do
  let env ← readEnvironment
  let command := (CommandLine.read? env arguments).getD .help
  let before ← readFiles env command
  let random := (← IO.getRandomBytes 16).toList
  let now ← Std.Time.Timestamp.now
  let host : CommandLine.Host :=
    ⟨env, fun _ => .unreachable "no network", makeStamp random now⟩
  let finish := CommandLine.run host arguments before
  carryOut before finish.files
  IO.print finish.out
  IO.eprint finish.err
  return UInt32.ofNat finish.exit

end SourceModels.Machine

def main (arguments : List String) : IO UInt32 := SourceModels.Machine.run arguments

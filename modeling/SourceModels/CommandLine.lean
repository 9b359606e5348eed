import SourceModels.Batch
import SourceModels.CommandLine.Options
import SourceModels.Config.File
import SourceModels.Service
import SourceModels.Text.Quoted

/-! The program: from arguments, environment and files to texts, an exit status and files. -/
namespace SourceModels.CommandLine

abbrev Trouble := List String

def indented (margin : String) (message : String) : String :=
  String.ofList (message.toList.flatMap fun c => if c = '\n' then '\n' :: margin.toList else [c])

def causeLines (causes : List String) : String :=
  match causes with
  | [cause] => "\n    " ++ indented "    " cause
  | _ =>
    String.join (causes.zipIdx.map fun (cause, n) =>
      "\n" ++ Decimal.alignRight 5 (toString n) ++ ": " ++ indented "       " cause)

def Trouble.report (trouble : Trouble) : String :=
  match trouble with
  | [] => "Error: \n"
  | [message] => "Error: " ++ message ++ "\n"
  | message :: causes => "Error: " ++ message ++ "\n\nCaused by:" ++ causeLines causes ++ "\n"

structure Finish where
  exit : Nat
  out : String
  err : String
  files : FileSystem
  posts : List Service.Post

structure Host where
  env : Environment
  network : Service.Network
  stamps : Nat → Stamp

def ended (exit : Nat) (out err : String) (fs : FileSystem) : Finish := ⟨exit, out, err, fs, []⟩

def configTrouble (fault : ConfigFault) : Trouble := (Failure.config fault).chain

def Options.over (o : Options) (config : Config) : Config where
  endpoint := o.endpoint.getD config.endpoint
  timeoutSeconds := o.timeout.getD config.timeoutSeconds
  maxFileSize := o.maxFileSize.getD config.maxFileSize
  excludePatterns := config.excludePatterns
  shardDepth := o.depth.getD config.shardDepth
  overwrite := o.overwrite || config.overwrite
  workers := o.workers.getD config.workers

def configuration (o : Options) (env : Environment) (fs : FileSystem) :
    Except ConfigFault Config := do
  let base ← match o.config with
    | some path => (Config.ofFile fs path).map fun config => config.withEnvironment env
    | none => Config.load fs env
  let config := o.over base
  config.validate
  return config

def linesOf (text : String) : List String :=
  let lines := Text.splitOn '\n' text.toList
  let lines := if lines.getLast? = some [] then lines.dropLast.map (·, true)
    else lines.dropLast.map (·, true) ++ lines.getLast?.toList.map (·, false)
  lines.map fun (line, ended) =>
    String.ofList (if ended ∧ line.getLast? = some '\r' then line.dropLast else line)

def readReposList (fs : FileSystem) (path : String) : Except Trouble (List String) :=
  match fs.readText path with
  | .error fault =>
    .error ["Failed to read repository list " ++ Text.quoted path, fault.message]
  | .ok text => .ok ((linesOf text).filter fun line => !Text.isAllBlank line)

def repositories (o : Options) (fs : FileSystem) : Except Trouble (List String) := do
  let listed ← match o.reposList with
    | some path => readReposList fs path
    | none => .ok []
  let all := o.repositories ++ listed
  if all = [] then
    .error ["No repositories given; pass them as arguments or with --repos-list"]
  else return all

def failedLines (report : Report) : String :=
  String.join (report.failed.map fun (repository, reason) =>
    Text.trimEnd repository ++ ": " ++ reason ++ "\n")

def extractOne (host : Host) (x : Extractor) (repository file : String) (fs : FileSystem) :
    Finish :=
  let run := x.extractTo repository file (host.stamps 0) fs
  let posts := run.requests.filterMap (Service.post? x.config.endpoint)
  match run.result with
  | .ok _ => ⟨0, "", "", run.files, posts⟩
  | .error failure =>
    let trouble := ("Failed to transform " ++ Text.trimEnd repository) :: failure.chain
    ⟨1, "", Trouble.report trouble, run.files, posts⟩

def batchFinish (endpoint : String) (run : Run Report) : Finish :=
  let posts := run.requests.filterMap (Service.post? endpoint)
  let report := run.result
  if report.hasFailures then
    let last := toString report.failed.length ++ " of " ++ toString report.total ++
      " repositories failed"
    ⟨1, "", failedLines report ++ Trouble.report [last], run.files, posts⟩
  else ⟨0, "", "", run.files, posts⟩

def extractMany (host : Host) (x : Extractor) (repositories : List String) (output : String)
    (fs : FileSystem) : Finish :=
  batchFinish x.config.endpoint (x.batch repositories output host.stamps fs)

def prepared (host : Host) (o : Options) (fs : FileSystem) :
    Except Trouble (Extractor × List String) := do
  let config ← (configuration o host.env fs).mapError configTrouble
  let repositories ← repositories o fs
  return (Extractor.new config (Service.parser host.network config.endpoint), repositories)

def extract (host : Host) (o : Options) (fs : FileSystem) : Finish :=
  match prepared host o fs with
  | .error trouble => ended 1 "" trouble.report fs
  | .ok (x, repositories) =>
    match o.outputFile, repositories with
    | some file, [repository] => extractOne host x repository file fs
    | some _, _ =>
      let message := "--output-file takes exactly one repository, got " ++
        toString repositories.length
      ended 1 "" (Trouble.report [message]) fs
    | none, _ => extractMany host x repositories (o.output.getD ".") fs

def entryLine (index : Nat) (entry : Entry) : String :=
  let nodes := match entry.decodeTree with
    | .ok t => t.count
    | .error _ => 0
  Decimal.alignRight 6 (toString index) ++ "  " ++
    Decimal.alignRight 8 (toString entry.source.length) ++ " bytes  " ++
    Decimal.alignRight 6 (toString nodes) ++ " nodes  " ++ entry.filename ++ "\n"

def showModel (path : String) (entries : Bool) (fs : FileSystem) : Finish :=
  match Store.read fs path with
  | .error fault =>
    ended 1 "" (Trouble.report ["Failed to load model " ++ Text.quoted path, fault.message]) fs
  | .ok model =>
    let lines := if entries then
        String.join (model.entries.zipIdx.map fun (entry, index) => entryLine index entry)
      else ""
    ended 0 (model.summary ++ "\n" ++ lines) "" fs

def versionText : String := "repo2source 0.1.0\n"

def usageText : String :=
  "Extract source files and their UASTs from repositories into per-repository models\n\n" ++
  "Usage: repo2source [OPTIONS] [REPOSITORIES]...\n       repo2source show [--entries] <MODEL>\n"

def run (host : Host) (arguments : List String) (fs : FileSystem) : Finish :=
  match read? host.env arguments with
  | none => ended 2 "" usageText fs
  | some .help => ended 0 usageText "" fs
  | some .version => ended 0 versionText "" fs
  | some (.show path entries) => showModel path entries fs
  | some (.extract o) => extract host o fs

end SourceModels.CommandLine

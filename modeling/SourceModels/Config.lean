import SourceModels.Duration
import SourceModels.Failure
import SourceModels.Language
import SourceModels.Path
import SourceModels.Text.Decimal
import SourceModels.Text.Utf8

/-! Settings: defaults, what is valid, and the environment variables that override them. -/
namespace SourceModels

structure Config where
  endpoint : String := "0.0.0.0:9432"
  timeoutSeconds : Nat := 50
  maxFileSize : Nat := 1048576
  excludePatterns : List String := Language.defaultExclusions
  shardDepth : Nat := 0
  overwrite : Bool := false
  workers : Nat := 1
  deriving DecidableEq, Repr

/-- Values of environment variables; one that is no text counts as unset. -/
abbrev Environment := List (String × Bytes)

def Environment.text? (env : Environment) (name : String) : Option String :=
  (env.lookup name).bind Utf8.decode?

namespace Config

def timeout (config : Config) : Duration := .ofSeconds config.timeoutSeconds

def emptyReason : String := "must not be empty"

def zeroReason : String := "must be greater than 0"

def validate (config : Config) : Except ConfigFault Unit :=
  if Text.isAllBlank config.endpoint then .error (.invalidValue "parser.endpoint" emptyReason)
  else if config.timeoutSeconds = 0 then
    .error (.invalidValue "parser.timeout_secs" zeroReason)
  else if config.maxFileSize = 0 then
    .error (.invalidValue "selection.max_file_size" zeroReason)
  else if config.workers = 0 then .error (.invalidValue "workers.num_workers" zeroReason)
  else .ok ()

def isYes (text : String) : Bool :=
  ["1", "true", "yes", "on"].contains (Language.lower (Text.trim text))

def numberOr (env : Environment) (name : String) (before : Nat) : Nat :=
  ((env.text? name).bind Decimal.word?).getD before

def withEnvironment (config : Config) (env : Environment) : Config where
  endpoint := (env.text? "REPO2SOURCE_ENDPOINT").getD config.endpoint
  timeoutSeconds := numberOr env "REPO2SOURCE_TIMEOUT" config.timeoutSeconds
  maxFileSize := numberOr env "REPO2SOURCE_MAX_FILE_SIZE" config.maxFileSize
  excludePatterns := config.excludePatterns
  shardDepth := numberOr env "REPO2SOURCE_SHARD_DEPTH" config.shardDepth
  overwrite := ((env.text? "REPO2SOURCE_OVERWRITE").map isYes).getD config.overwrite
  workers := numberOr env "REPO2SOURCE_WORKERS" config.workers

def userDirectory (env : Environment) : String :=
  match env.text? "XDG_CONFIG_HOME" with
  | some directory => directory
  | none =>
    match env.text? "HOME" with
    | some home => Path.join home ".config"
    | none => "."

def projectDirectory (env : Environment) : String :=
  Path.join (userDirectory env) "repo2source"

def defaultPath (env : Environment) : String := Path.join (projectDirectory env) "config.toml"

end Config

end SourceModels

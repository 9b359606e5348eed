import SourceModels.Config.Stored
import SourceModels.FileSystem.Disk

/-! Settings in files: loading them, alone or with the environment over them, and saving them. -/
namespace SourceModels.Config

def ofFile (fs : FileSystem) (path : String) : Except ConfigFault Config := do
  if fs.pathExists path = false then .error (.fileNotFound path)
  else
    match fs.readText path with
    | .error fault => .error (.loadFailed ("Failed to read config file: " ++ fault.message))
    | .ok text =>
      match ofToml? text with
      | none => .error (.parseFailed "Invalid TOML: not settings in TOML")
      | some config =>
        config.validate
        return config

def loadOrDefault (fs : FileSystem) (env : Environment) : Except ConfigFault Config :=
  let path := defaultPath env
  if fs.pathExists path then ofFile fs path else .ok {}

def load (fs : FileSystem) (env : Environment) : Except ConfigFault Config := do
  let config := (← loadOrDefault fs env).withEnvironment env
  config.validate
  return config

def save (config : Config) (fs : FileSystem) (path : String) :
    FileSystem × Except ConfigFault Unit :=
  let (fs, made) := match Path.parent? path with
    | some parent => fs.makeDirectories .sound parent
    | none => (fs, .ok ())
  match made with
  | .error fault =>
    (fs, .error (.saveFailed ("Failed to create config directory: " ++ fault.message)))
  | .ok () =>
    match config.toToml? with
    | none => (fs, .error (.saveFailed "Failed to serialize config: a number is too large"))
    | some text =>
      match fs.writeFile path (Bytes.ofText text) with
      | .ok fs => (fs, .ok ())
      | .error fault =>
        (fs, .error (.saveFailed ("Failed to write config file: " ++ fault.message)))

end SourceModels.Config

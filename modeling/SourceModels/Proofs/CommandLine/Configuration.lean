import SourceModels.Proofs.Config.Layers
import SourceModels.Proofs.Outcome

/-! The settings that a run uses: where each of them comes from, and what it changes whether the file
is named or lies at its usual place. -/
namespace SourceModels.CommandLine
open Config

def settingsFile? (o : Options) (env : Environment) (fs : FileSystem) : Option String :=
  match o.config with
  | some path => some path
  | none => if fs.pathExists (defaultPath env) then some (defaultPath env) else none

def FileSupplies (fs : FileSystem) (layer : Layer) : Option String → Prop
  | none => layer = {}
  | some path => ∃ text entries, fs.readText path = .ok text ∧ Toml.read? text = some entries ∧
      FromEntries entries layer

structure Layered (o : Options) (env : Environment) (file : Layer) (config : Config) : Prop where
  endpoint : config.endpoint =
    (o.endpoint <|> env.text? "REPO2SOURCE_ENDPOINT" <|> file.endpoint).getD "0.0.0.0:9432"
  timeoutSeconds : config.timeoutSeconds =
    (o.timeout <|> number env "REPO2SOURCE_TIMEOUT" <|> file.timeoutSeconds).getD 50
  maxFileSize : config.maxFileSize =
    (o.maxFileSize <|> number env "REPO2SOURCE_MAX_FILE_SIZE" <|> file.maxFileSize).getD 1048576
  shardDepth : config.shardDepth =
    (o.depth <|> number env "REPO2SOURCE_SHARD_DEPTH" <|> file.shardDepth).getD 0
  workers : config.workers =
    (o.workers <|> number env "REPO2SOURCE_WORKERS" <|> file.workers).getD 1
  excludePatterns : config.excludePatterns = file.excludePatterns.getD Language.defaultExclusions
  overwriteGiven : o.overwrite = true → config.overwrite = true
  overwriteSet : o.overwrite = false → ∀ text, env.text? "REPO2SOURCE_OVERWRITE" = some text →
    (config.overwrite = true ↔ Language.lower (Text.trim text) ∈ ["1", "true", "yes", "on"])
  overwriteLeft : o.overwrite = false → env.text? "REPO2SOURCE_OVERWRITE" = none →
    config.overwrite = file.overwrite.getD false

def numberNames : List String :=
  ["REPO2SOURCE_TIMEOUT", "REPO2SOURCE_MAX_FILE_SIZE", "REPO2SOURCE_SHARD_DEPTH",
   "REPO2SOURCE_WORKERS"]

section Reading

variable {fs : FileSystem} {env : Environment} {o : Options} {path : String} {config : Config}

def checked (config : Config) : Except ConfigFault Config :=
  config.validate.map fun _ => config

theorem checkedOk {base : Config} :
    checked base = .ok config ↔ base.validate = .ok () ∧ base = config := by
  cases valid : base.validate <;> simp [checked, valid, Except.map]

theorem configurationNamed (named : o.config = some path) : configuration o env fs =
    (ofFile fs path).bind fun file => checked (o.over (file.withEnvironment env)) := by
  simp only [configuration, named]
  cases ofFile fs path <;> rfl

theorem configurationUsual (unnamed : o.config = none) : configuration o env fs =
    (loadOrDefault fs env).bind fun file =>
      (checked (file.withEnvironment env)).bind fun base => checked (o.over base) := by
  simp only [configuration, unnamed, Config.load]
  cases loadOrDefault fs env with
  | error fault => rfl
  | ok file =>
    simp only [bind, Except.bind, checked]
    cases (file.withEnvironment env).validate <;> rfl

theorem fileSupplies (read : ofFile fs path = .ok config) :
    ∃ layer, FileSupplies fs layer (some path) ∧ config = layer.config := by
  unfold ofFile at read
  split at read
  · cases read
  · cases content : fs.readText path with
    | error fault => simp [content] at read
    | ok text =>
      cases document : Toml.read? text with
      | none => simp [content, ofToml?, document] at read
      | some entries =>
        cases settings : ofEntries? entries with
        | none => simp [content, ofToml?, document, settings] at read
        | some base =>
          have same : base = config := by
            simp only [content, ofToml?, document, Option.bind_some, settings] at read
            exact (checkedOk.mp read).2
          obtain ⟨layer, supplied, made⟩ := entriesSupply settings
          exact ⟨layer, ⟨text, entries, content, document, supplied⟩, same ▸ made⟩

theorem usualSupplies (unnamed : o.config = none) (read : loadOrDefault fs env = .ok config) :
    ∃ layer, FileSupplies fs layer (settingsFile? o env fs) ∧ config = layer.config := by
  unfold loadOrDefault at read
  cases there : fs.pathExists (defaultPath env) with
  | false =>
    simp only [there, Bool.false_eq_true, if_false, Except.ok.injEq] at read
    exact ⟨{}, by simp [settingsFile?, unnamed, there, FileSupplies], read.symm⟩
  | true =>
    simp only [there, if_true] at read
    simpa [settingsFile?, unnamed, there] using fileSupplies read

theorem settingsSupply (done : configuration o env fs = .ok config) :
    ∃ layer, FileSupplies fs layer (settingsFile? o env fs) ∧
      checked (o.over (layer.config.withEnvironment env)) = .ok config := by
  cases given : o.config with
  | some path =>
    rw [configurationNamed given] at done
    obtain ⟨file, read, valid⟩ := boundDone done
    obtain ⟨layer, supplied, rfl⟩ := fileSupplies read
    exact ⟨layer, by simpa [settingsFile?, given] using supplied, valid⟩
  | none =>
    rw [configurationUsual given] at done
    obtain ⟨file, read, rest⟩ := boundDone done
    obtain ⟨base, first, valid⟩ := boundDone rest
    obtain ⟨layer, supplied, rfl⟩ := usualSupplies given read
    exact ⟨layer, supplied, (checkedOk.mp first).2 ▸ valid⟩

theorem layered (o : Options) (env : Environment) (file : Layer) :
    Layered o env file (o.over (file.config.withEnvironment env)) := by
  rw [environmentOver, optionsOver]
  exact {
    endpoint := rfl
    timeoutSeconds := rfl
    maxFileSize := rfl
    shardDepth := rfl
    workers := rfl
    excludePatterns := rfl
    overwriteGiven := fun given => by simp [Layer.config, Layer.above, optionsLayer, given]
    overwriteSet := fun given text set => by
      simp [Layer.config, Layer.above, optionsLayer, environmentLayer, given, set]
    overwriteLeft := fun given unset => by
      simp [Layer.config, Layer.above, optionsLayer, environmentLayer, given, unset] }

structure ReadAlike (env other : Environment) : Prop where
  numbers : ∀ name ∈ numberNames, Config.number other name = Config.number env name
  texts : ∀ name ∉ numberNames, other.text? name = env.text? name

namespace ReadAlike

variable {other : Environment} (alike : ReadAlike env other)
include alike

theorem withEnvironment (config : Config) :
    config.withEnvironment other = config.withEnvironment env := by
  have numbers := alike.numbers
  simp only [numberNames, List.forall_mem_cons, Config.number] at numbers
  obtain ⟨timeout, size, depth, workers, -⟩ := numbers
  simp only [Config.withEnvironment, numberOr, timeout, size, depth, workers,
    alike.texts "REPO2SOURCE_ENDPOINT" (by decide), alike.texts "REPO2SOURCE_OVERWRITE" (by decide)]

theorem defaultPath : Config.defaultPath other = Config.defaultPath env := by
  simp only [Config.defaultPath, projectDirectory, userDirectory,
    alike.texts "XDG_CONFIG_HOME" (by decide), alike.texts "HOME" (by decide)]

theorem configuration (o : Options) (fs : FileSystem) :
    configuration o other fs = configuration o env fs := by
  simp only [CommandLine.configuration, Config.load, loadOrDefault, alike.withEnvironment,
    alike.defaultPath]

end ReadAlike

theorem unreadNumberAlike {name : String} {value : Bytes} (numbered : name ∈ numberNames)
    (unset : env.lookup name = none)
    (unread : ∀ text, Utf8.decode? value = some text → Decimal.word? text = none) :
    ReadAlike env ((name, value) :: env) where
  numbers := by
    intro other _
    by_cases same : other = name
    · subst same
      have nothing : (Utf8.decode? value).bind Decimal.word? = none :=
        Option.bind_eq_none_iff.mpr unread
      simp [Config.number, Environment.text?, unset, nothing]
    · have differs : (other == name) = false := by simpa using same
      simp [Config.number, Environment.text?, List.lookup_cons, differs]
  texts := by
    intro other unnumbered
    have differs : (other == name) = false := by
      simp only [beq_eq_false_iff_ne]
      exact fun same => unnumbered (same ▸ numbered)
    simp [Environment.text?, List.lookup_cons, differs]

end Reading

theorem preparedSettings {host : Host} {o : Options} {fs : FileSystem} {x : Extractor}
    {repositories : List String} (done : prepared host o fs = .ok (x, repositories)) :
    configuration o host.env fs = .ok x.config := by
  unfold prepared at done
  obtain ⟨config, settings, listing⟩ := boundDone done
  obtain ⟨all, _, made⟩ := boundDone listing
  rw [mapErrorDone] at settings
  cases made
  exact settings

theorem settingsLayered (host : Host) (o : Options) (fs : FileSystem) (x : Extractor)
    (repositories : List String) (done : prepared host o fs = .ok (x, repositories)) :
    x.config.validate = .ok () ∧
    (∃ file, FileSupplies fs file (settingsFile? o host.env fs) ∧
      Layered o host.env file x.config) ∧
    ∀ name ∈ numberNames, host.env.lookup name = none → ∀ value,
      (∀ text, Utf8.decode? value = some text → Decimal.word? text = none) →
        prepared { host with env := (name, value) :: host.env } o fs = .ok (x, repositories) := by
  obtain ⟨file, supplied, made⟩ := settingsSupply (preparedSettings done)
  obtain ⟨valid, same⟩ := checkedOk.mp made
  refine ⟨same ▸ valid, ⟨file, supplied, same ▸ layered o host.env file⟩, ?_⟩
  intro name numbered unset value unread
  simpa only [prepared, (unreadNumberAlike numbered unset unread).configuration] using done

def storedPath : String := "/c/repo2source/config.toml"

def storedSettings : FileSystem where
  entries := [
    (["config.toml", "repo2source", "c"], .file (Bytes.ofText "[output]\nshard_depth = 3\n")),
    (["repo2source", "c"], .directory), (["c"], .directory)]
  current := []

def noWorkers : Environment :=
  [("XDG_CONFIG_HOME", Bytes.ofText "/c"), ("REPO2SOURCE_WORKERS", Bytes.ofText "0")]

theorem storedSettingsRead :
    ofFile storedSettings storedPath = .ok { shardDepth := 3 } := by
  have read : (ofFile storedSettings storedPath).toOption = some { shardDepth := 3 } := by
    decide +kernel
  cases outcome : ofFile storedSettings storedPath with
  | error fault => simp [outcome, Except.toOption] at read
  | ok config => simpa [outcome, Except.toOption] using read

def namedOptions : Options where
  repositories := ["r"]
  workers := some 2
  config := some storedPath

def quietHost : Host where
  env := noWorkers
  network := fun _ => .unreachable ""
  stamps := fun _ => ⟨⟨1970, 1, 1, 0, 0, 0, 0⟩, .zero, ""⟩

def namedExtractor : Extractor :=
  Extractor.new { shardDepth := 3, workers := 2 }
    (Service.parser quietHost.network "0.0.0.0:9432")

theorem storedSettingsLayered :
    prepared quietHost namedOptions storedSettings = .ok (namedExtractor, ["r"]) ∧
    ∃ file, Layered namedOptions noWorkers file namedExtractor.config := by
  have settings : configuration namedOptions noWorkers storedSettings =
      .ok { shardDepth := 3, workers := 2 } := by
    rw [configurationNamed rfl, storedSettingsRead]
    rfl
  have done : prepared quietHost namedOptions storedSettings = .ok (namedExtractor, ["r"]) := by
    simp only [prepared, quietHost, settings]
    rfl
  obtain ⟨-, ⟨file, -, layered⟩, -⟩ :=
    settingsLayered quietHost namedOptions storedSettings namedExtractor ["r"] done
  exact ⟨done, file, layered⟩

end SourceModels.CommandLine

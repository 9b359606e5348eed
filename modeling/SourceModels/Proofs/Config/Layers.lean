import SourceModels.CommandLine

/-! Settings come in layers: what the file, the environment and the options each supply, and what a
layer makes of the one below it. -/
namespace SourceModels.Config
open Toml

structure Layer where
  endpoint : Option String := none
  timeoutSeconds : Option Nat := none
  maxFileSize : Option Nat := none
  excludePatterns : Option (List String) := none
  shardDepth : Option Nat := none
  overwrite : Option Bool := none
  workers : Option Nat := none

namespace Layer

def config (layer : Layer) : Config where
  endpoint := layer.endpoint.getD "0.0.0.0:9432"
  timeoutSeconds := layer.timeoutSeconds.getD 50
  maxFileSize := layer.maxFileSize.getD 1048576
  excludePatterns := layer.excludePatterns.getD Language.defaultExclusions
  shardDepth := layer.shardDepth.getD 0
  overwrite := layer.overwrite.getD false
  workers := layer.workers.getD 1

def above (upper lower : Layer) : Layer where
  endpoint := upper.endpoint <|> lower.endpoint
  timeoutSeconds := upper.timeoutSeconds <|> lower.timeoutSeconds
  maxFileSize := upper.maxFileSize <|> lower.maxFileSize
  excludePatterns := upper.excludePatterns <|> lower.excludePatterns
  shardDepth := upper.shardDepth <|> lower.shardDepth
  overwrite := upper.overwrite <|> lower.overwrite
  workers := upper.workers <|> lower.workers

end Layer

def number (env : Environment) (name : String) : Option Nat :=
  (env.text? name).bind Decimal.word?

def environmentLayer (env : Environment) : Layer where
  endpoint := env.text? "REPO2SOURCE_ENDPOINT"
  timeoutSeconds := number env "REPO2SOURCE_TIMEOUT"
  maxFileSize := number env "REPO2SOURCE_MAX_FILE_SIZE"
  shardDepth := number env "REPO2SOURCE_SHARD_DEPTH"
  overwrite := (env.text? "REPO2SOURCE_OVERWRITE").map fun text =>
    Language.lower (Text.trim text) ∈ ["1", "true", "yes", "on"]
  workers := number env "REPO2SOURCE_WORKERS"

def optionsLayer (o : CommandLine.Options) : Layer where
  endpoint := o.endpoint
  timeoutSeconds := o.timeout
  maxFileSize := o.maxFileSize
  shardDepth := o.depth
  overwrite := if o.overwrite then some true else none
  workers := o.workers

theorem yesMeans : isYes = fun text =>
    decide (Language.lower (Text.trim text) ∈ ["1", "true", "yes", "on"]) := by
  funext text
  simp only [isYes, List.contains_eq_mem]

theorem environmentOver (env : Environment) (layer : Layer) :
    layer.config.withEnvironment env = ((environmentLayer env).above layer).config := by
  simp only [withEnvironment, numberOr, environmentLayer, number, Layer.config, Layer.above, yesMeans,
    Option.orElse_eq_orElse, Option.orElse_eq_or, Option.getD_or, Option.none_or]

theorem optionsOver (o : CommandLine.Options) (layer : Layer) :
    o.over layer.config = ((optionsLayer o).above layer).config := by
  cases given : o.overwrite <;>
    simp [CommandLine.Options.over, optionsLayer, Layer.config, Layer.above, given]

def keyIn (entries : Entries) (sectionName name : String) (index : Nat) : Option Item :=
  match entries.lookup sectionName with
  | some (.table _ within) => within.lookup name
  | some (.array items) => items[index]?
  | some (.tables all) => all[index]?
  | _ => none

def asText : Item → Option String
  | .string text => some text
  | _ => none

def asNumber : Item → Option Nat
  | .integer n => if 0 ≤ n then some n.toNat else none
  | _ => none

def asFlag : Item → Option Bool
  | .bool b => some b
  | _ => none

def asTexts : Item → Option (List String)
  | .array items => items.mapM asText
  | _ => none

structure FromEntries (entries : Entries) (layer : Layer) : Prop where
  endpoint : (keyIn entries "parser" "endpoint" 0).map asText = layer.endpoint.map some
  timeoutSeconds :
    (keyIn entries "parser" "timeout_secs" 1).map asNumber = layer.timeoutSeconds.map some
  maxFileSize :
    (keyIn entries "selection" "max_file_size" 0).map asNumber = layer.maxFileSize.map some
  excludePatterns :
    (keyIn entries "selection" "exclude_patterns" 1).map asTexts = layer.excludePatterns.map some
  shardDepth : (keyIn entries "output" "shard_depth" 0).map asNumber = layer.shardDepth.map some
  overwrite :
    (keyIn entries "output" "overwrite_existing" 1).map asFlag = layer.overwrite.map some
  workers : (keyIn entries "workers" "num_workers" 0).map asNumber = layer.workers.map some

theorem sectionKey {entries : Entries} {sectionName : String} {keys : Section}
    (found : section? (entries.lookup sectionName) = some keys) (name : String) (index : Nat) :
    keys name index = keyIn entries sectionName name index := by
  unfold keyIn
  generalize entries.lookup sectionName = item at found ⊢
  rcases item with _ | item
  · cases found
    rfl
  · cases item <;> cases found <;> rfl

theorem suppliedOr {α : Type} {read : Item → Option α} {item : Option Item} {default value : α}
    (given : item.elim (some default) read = some value) :
    ∃ supplied : Option α, item.map read = supplied.map some ∧ value = supplied.getD default := by
  cases item with
  | none => exact ⟨none, rfl, by simpa using given.symm⟩
  | some item => exact ⟨some value, by simpa using given, rfl⟩

theorem textSupplied (default : String) (item : Option Item) :
    text? default item = item.elim (some default) asText := by
  rcases item with _ | item
  · rfl
  · cases item <;> rfl

theorem numberSupplied (default : Nat) (item : Option Item) :
    number? default item = item.elim (some default) asNumber := by
  rcases item with _ | item
  · rfl
  · cases item <;> rfl

theorem flagSupplied (default : Bool) (item : Option Item) :
    flag? default item = item.elim (some default) asFlag := by
  rcases item with _ | item
  · rfl
  · cases item <;> rfl

theorem textsSupplied (default : List String) (item : Option Item) :
    texts? default item = item.elim (some default) asTexts := by
  have each : (fun item => text? "" (some item)) = asText :=
    funext fun item => textSupplied "" (some item)
  rcases item with _ | item
  · rfl
  · cases item <;> simp [texts?, asTexts, each]

theorem entriesSupply {entries : Entries} {config : Config}
    (read : ofEntries? entries = some config) :
    ∃ layer, FromEntries entries layer ∧ config = layer.config := by
  simp only [ofEntries?, bind, Option.bind_eq_some_iff, textSupplied, numberSupplied, flagSupplied,
    textsSupplied] at read
  obtain ⟨parser, parserAt, _, endpointRead, _, timeoutRead, selection, selectionAt, _, sizeRead,
    _, excludeRead, output, outputAt, _, depthRead, _, overwriteRead, workers, workersAt, _,
    countRead, made⟩ := read
  obtain ⟨endpoint, endpointKey, rfl⟩ := suppliedOr endpointRead
  obtain ⟨timeout, timeoutKey, rfl⟩ := suppliedOr timeoutRead
  obtain ⟨size, sizeKey, rfl⟩ := suppliedOr sizeRead
  obtain ⟨exclude, excludeKey, rfl⟩ := suppliedOr excludeRead
  obtain ⟨depth, depthKey, rfl⟩ := suppliedOr depthRead
  obtain ⟨overwrite, overwriteKey, rfl⟩ := suppliedOr overwriteRead
  obtain ⟨count, countKey, rfl⟩ := suppliedOr countRead
  refine ⟨⟨endpoint, timeout, size, exclude, depth, overwrite, count⟩, ?_, ?_⟩
  · exact {
      endpoint := by rw [← sectionKey parserAt, endpointKey]
      timeoutSeconds := by rw [← sectionKey parserAt, timeoutKey]
      maxFileSize := by rw [← sectionKey selectionAt, sizeKey]
      excludePatterns := by rw [← sectionKey selectionAt, excludeKey]
      shardDepth := by rw [← sectionKey outputAt, depthKey]
      overwrite := by rw [← sectionKey outputAt, overwriteKey]
      workers := by rw [← sectionKey workersAt, countKey] }
  · exact (Option.some.inj made).symm

end SourceModels.Config

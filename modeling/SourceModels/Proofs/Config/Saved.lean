import SourceModels.Config.File
import SourceModels.Proofs.FileSystem.Writing
import SourceModels.Proofs.Outcome
import SourceModels.Proofs.Store.Replacement
import SourceModels.Proofs.Toml.Documents
import SourceModels.Proofs.Utf8

/-! Settings that are saved in a file and loaded from it again. -/
namespace SourceModels.Config
open FileSystem Toml

def TooLarge (config : Config) : Prop :=
  ∃ n ∈ [config.timeoutSeconds, config.maxFileSize, config.shardDepth, config.workers],
    2 ^ 63 - 1 < n

theorem fitsOnly {config : Config} : config.fits = true ↔ ¬ TooLarge config := by
  simp only [fits, List.all_eq_true, decide_eq_true_eq, TooLarge, not_exists, not_and, Nat.not_lt]
  rfl

section
variable (config : Config)

def parserTable : Table where
  name := "parser"
  pairs := [⟨"endpoint", writeString config.endpoint, .string config.endpoint⟩,
    ⟨"timeout_secs", writeNumber config.timeoutSeconds, .integer config.timeoutSeconds⟩]

def selectionTable : Table where
  name := "selection"
  pairs := [⟨"max_file_size", writeNumber config.maxFileSize, .integer config.maxFileSize⟩,
    ⟨"exclude_patterns", writeStrings config.excludePatterns,
      .array (config.excludePatterns.map .string)⟩]

def outputTable : Table where
  name := "output"
  pairs := [⟨"shard_depth", writeNumber config.shardDepth, .integer config.shardDepth⟩,
    ⟨"overwrite_existing", writeFlag config.overwrite, .bool config.overwrite⟩]

def workersTable : Table where
  name := "workers"
  pairs := [⟨"num_workers", writeNumber config.workers, .integer config.workers⟩]

def otherTables : List Table := [config.selectionTable, config.outputTable, config.workersTable]

theorem writtenTables : config.written = documentChars config.parserTable config.otherTables := by
  simp [written, documentChars, otherTables, Table.chars, parserTable, selectionTable, outputTable,
    workersTable]

end

theorem tablesReady {config : Config} (fits : config.fits = true) :
    ∀ table ∈ config.parserTable :: config.otherTables, table.Ready := by
  have number : ∀ n ∈ [config.timeoutSeconds, config.maxFileSize, config.shardDepth,
      config.workers], Written (writeNumber n) (.integer n) := by
    intro n inside
    have small : n ≤ maxWritten := by simpa using List.all_eq_true.mp fits n inside
    exact numberWritten (Nat.lt_of_le_of_lt small (by decide))
  simp only [List.forall_mem_cons] at number
  obtain ⟨timeout, size, depth, workers, _⟩ := number
  have parser : config.parserTable.Ready :=
    ⟨show BareKey "parser" by decide,
      show ∀ key ∈ ["endpoint", "timeout_secs"], BareKey key by decide,
      show ["endpoint", "timeout_secs"].Nodup by decide,
      List.forall_mem_cons.mpr ⟨stringWritten _, List.forall_mem_singleton.mpr timeout⟩⟩
  have selection : config.selectionTable.Ready :=
    ⟨show BareKey "selection" by decide,
      show ∀ key ∈ ["max_file_size", "exclude_patterns"], BareKey key by decide,
      show ["max_file_size", "exclude_patterns"].Nodup by decide,
      List.forall_mem_cons.mpr ⟨size, List.forall_mem_singleton.mpr (arrayWritten _)⟩⟩
  have output : config.outputTable.Ready :=
    ⟨show BareKey "output" by decide,
      show ∀ key ∈ ["shard_depth", "overwrite_existing"], BareKey key by decide,
      show ["shard_depth", "overwrite_existing"].Nodup by decide,
      List.forall_mem_cons.mpr ⟨depth, List.forall_mem_singleton.mpr (flagWritten _)⟩⟩
  have workers : config.workersTable.Ready :=
    ⟨show BareKey "workers" by decide,
      show ∀ key ∈ ["num_workers"], BareKey key by decide,
      show ["num_workers"].Nodup by decide, List.forall_mem_singleton.mpr workers⟩
  simp only [otherTables, List.forall_mem_cons]
  exact ⟨parser, selection, output, workers, by simp⟩

theorem numberRead (default n : Nat) : number? default (some (.integer n)) = some n := by
  simp [number?]

theorem textsRead (default texts : List String) :
    texts? default (some (.array (texts.map .string))) = some texts := by
  rw [texts?, mapSome, List.map_map]
  rfl

theorem entriesRead (config : Config) :
    ofEntries? ((config.parserTable :: config.otherTables).map Table.entry) = some config := by
  have parser : ((config.parserTable :: config.otherTables).map Table.entry).lookup "parser" =
      some (.table {} config.parserTable.fields) := rfl
  have endpoint : config.parserTable.fields.lookup "endpoint" =
      some (.string config.endpoint) := rfl
  have timeout : config.parserTable.fields.lookup "timeout_secs" =
      some (.integer config.timeoutSeconds) := rfl
  have selection : ((config.parserTable :: config.otherTables).map Table.entry).lookup
      "selection" = some (.table {} config.selectionTable.fields) := rfl
  have size : config.selectionTable.fields.lookup "max_file_size" =
      some (.integer config.maxFileSize) := rfl
  have patterns : config.selectionTable.fields.lookup "exclude_patterns" =
      some (.array (config.excludePatterns.map .string)) := rfl
  have output : ((config.parserTable :: config.otherTables).map Table.entry).lookup "output" =
      some (.table {} config.outputTable.fields) := rfl
  have depth : config.outputTable.fields.lookup "shard_depth" =
      some (.integer config.shardDepth) := rfl
  have overwrite : config.outputTable.fields.lookup "overwrite_existing" =
      some (.bool config.overwrite) := rfl
  have workers : ((config.parserTable :: config.otherTables).map Table.entry).lookup "workers" =
      some (.table {} config.workersTable.fields) := rfl
  have count : config.workersTable.fields.lookup "num_workers" =
      some (.integer config.workers) := rfl
  simp only [ofEntries?, section?, text?, flag?, numberRead, textsRead, parser, endpoint, timeout,
    selection, size, patterns, output, depth, overwrite, workers, count, Option.bind_eq_bind,
    Option.bind_some]

theorem tomlRead {config : Config} (fits : config.fits = true) :
    ofToml? (String.ofList config.written) = some config := by
  have distinct : ((config.parserTable :: config.otherTables).map Table.name).Nodup :=
    show ["parser", "selection", "output", "workers"].Nodup by decide
  rw [ofToml?, writtenTables, documentRead (tablesReady fits) distinct, Option.bind_some,
    entriesRead]

structure Writable (fs : FileSystem) (path : String) : Prop where
  prepared : (Store.prepare .sound fs path).2 = .ok ()
  written : ∃ data after, (Store.prepare .sound fs path).1.writeFile path data = .ok after

section
variable {config : Config} {fs : FileSystem} {path : String}

theorem saveSteps (config : Config) (fs : FileSystem) (path : String) :
    config.save fs path = match (Store.prepare .sound fs path).2 with
      | .error fault => ((Store.prepare .sound fs path).1,
        .error (.saveFailed ("Failed to create config directory: " ++ fault.message)))
      | .ok () =>
        match config.toToml? with
        | none => ((Store.prepare .sound fs path).1,
          .error (.saveFailed "Failed to serialize config: a number is too large"))
        | some text =>
          match (Store.prepare .sound fs path).1.writeFile path (Bytes.ofText text) with
          | .ok after => (after, .ok ())
          | .error fault => ((Store.prepare .sound fs path).1,
            .error (.saveFailed ("Failed to write config file: " ++ fault.message))) := rfl

theorem saveRefused (writable : Writable fs path) (large : TooLarge config) :
    config.save fs path = ((Store.prepare .sound fs path).1,
      .error (.saveFailed "Failed to serialize config: a number is too large")) := by
  have unfit : config.fits = false := by
    rw [← Bool.not_eq_true, fitsOnly]
    exact not_not_intro large
  simp only [saveSteps, writable.prepared, toToml?, unfit, Bool.false_eq_true, if_false]

theorem saveDone (writable : Writable fs path) (small : ¬ TooLarge config) :
    ∃ after, config.save fs path = (after, .ok ()) ∧
      (Store.prepare .sound fs path).1.writeFile path (Bytes.ofText (String.ofList config.written)) =
        .ok after := by
  obtain ⟨data, other, written⟩ := writable.written
  obtain ⟨after, done⟩ := writtenAny written (Bytes.ofText (String.ofList config.written))
  refine ⟨after, ?_, done⟩
  simp only [saveSteps, writable.prepared, toToml?, fitsOnly.mpr small, if_true, done]

theorem validFault {fault : ConfigFault} (invalid : config.validate = .error fault) :
    ∃ key reason, fault = .invalidValue key reason := by
  unfold validate at invalid
  split at invalid
  · exact ⟨_, _, (Except.error.inj invalid).symm⟩
  split at invalid
  · exact ⟨_, _, (Except.error.inj invalid).symm⟩
  split at invalid
  · exact ⟨_, _, (Except.error.inj invalid).symm⟩
  split at invalid
  · exact ⟨_, _, (Except.error.inj invalid).symm⟩
  · contradiction

theorem fileLoaded {text : String} (read : fs.readBytes path = .ok (Bytes.ofText text))
    (settings : ofToml? text = some config) :
    ofFile fs path = config.validate.map fun _ => config := by
  have there : fs.pathExists path = true := by
    cases held : fs.status path with
    | error fault => simp [readBytes, held, bind, Except.bind] at read
    | ok content => simp [pathExists, held, Except.toOption]
  have reads : fs.readText path = .ok text := by
    simp [readText, read, Utf8.decodeText, bind, Except.bind]
  simp only [ofFile, there, reads, settings, Bool.true_eq_false, if_false]
  cases config.validate <;> rfl

end

theorem settingsReadBack (config : Config) {fs : FileSystem} {path : String}
    (writable : Writable fs path) :
    ((∃ reason, (config.save fs path).2 = .error (.saveFailed reason)) ↔ TooLarge config) ∧
    (TooLarge config → DirectoriesAdded fs (config.save fs path).1 path ∧
      ∀ data, fs.readBytes path = .ok data →
        (config.save fs path).1.readBytes path = .ok data) ∧
    (¬ TooLarge config → (config.save fs path).2 = .ok () ∧
      (FilePlace (Store.prepare .sound fs path).1 path →
        (config.validate = .ok () → ofFile (config.save fs path).1 path = .ok config) ∧
        ∀ fault, config.validate = .error fault →
          (∃ key reason, fault = .invalidValue key reason) ∧
            ofFile (config.save fs path).1 path = .error fault)) := by
  refine ⟨⟨?_, ?_⟩, ?_, ?_⟩
  · rintro ⟨reason, failed⟩
    refine Classical.byContradiction fun small => ?_
    obtain ⟨after, done, _⟩ := saveDone writable small
    rw [done] at failed
    contradiction
  · intro large
    exact ⟨_, congrArg Prod.snd (saveRefused writable large)⟩
  · intro large
    have added : DirectoriesAdded fs (Store.prepare .sound fs path).1 path := Store.prepared rfl
    rw [saveRefused writable large]
    exact ⟨added, fun data read => added.read read⟩
  · intro small
    obtain ⟨after, done, written⟩ := saveDone writable small
    rw [done]
    refine ⟨rfl, fun place => ?_⟩
    have loaded := fileLoaded (place.written written) (tomlRead (fitsOnly.mpr small))
    refine ⟨fun valid => ?_, fun fault invalid => ⟨validFault invalid, ?_⟩⟩
    · rw [loaded, valid]
      rfl
    · rw [loaded, invalid]
      rfl

def linkedSettings : FileSystem where
  entries := [(["c"], .link "d/old"), (["d"], .directory), (["old", "d"], .file [0x78])]
  current := []

def quotedSettings : Config :=
  { endpoint := "''' \"\"\" \r\n", excludePatterns := ["it's", "\x7f"] }

theorem quotedReadBack :
    (quotedSettings.save linkedSettings "c").2 = .ok () ∧
    ofFile (quotedSettings.save linkedSettings "c").1 "c" = .ok quotedSettings ∧
    (∃ reason, ({ quotedSettings with shardDepth := 2 ^ 63 }.save linkedSettings "c").2 =
      .error (.saveFailed reason)) ∧
    ({ quotedSettings with shardDepth := 2 ^ 63 }.save linkedSettings "c").1.readBytes "c" =
      .ok [0x78] ∧
    ofFile ({ quotedSettings with workers := 0 }.save linkedSettings "c").1 "c" =
      .error (.invalidValue "workers.num_workers" zeroReason) := by
  have writable : Writable linkedSettings "c" :=
    ⟨by decide +kernel, [], linkedSettings.put ["old", "d"] (.file []), by decide +kernel⟩
  have held : (Store.prepare .sound linkedSettings "c").1.status "c" = .ok (.file [0x78]) := by
    decide +kernel
  have place : FilePlace (Store.prepare .sound linkedSettings "c").1 "c" := by
    intro content there
    rw [held] at there
    cases there
    exact ⟨_, rfl⟩
  have small : ¬ TooLarge quotedSettings := by
    unfold TooLarge
    decide
  have large : TooLarge { quotedSettings with shardDepth := 2 ^ 63 } := by
    unfold TooLarge
    decide
  have idle : ¬ TooLarge { quotedSettings with workers := 0 } := by
    unfold TooLarge
    decide
  have saved := (settingsReadBack quotedSettings writable).2.2 small
  have refused := settingsReadBack { quotedSettings with shardDepth := 2 ^ 63 } writable
  have unused := (settingsReadBack { quotedSettings with workers := 0 } writable).2.2 idle
  exact ⟨saved.1, (saved.2 place).1 (by decide +kernel), refused.1.mpr large,
    (refused.2.1 large).2 _ (by decide +kernel), ((unused.2 place).2 _ (by decide +kernel)).2⟩

end SourceModels.Config

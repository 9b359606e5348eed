import SourceModels.Config
import SourceModels.Toml.Document
import SourceModels.Toml.Writer

/-! The written form of settings: a TOML document of four sections. Unknown keys are passed over and
missing ones take their defaults. -/
namespace SourceModels.Config
open Toml

abbrev Section := (name : String) → (index : Nat) → Option Item

def section? : Option Item → Option Section
  | none => some fun _ _ => none
  | some (.table _ entries) => some fun name _ => entries.lookup name
  | some (.array items) => some fun _ index => items[index]?
  | some (.tables all) => some fun _ index => all[index]?
  | some .datetime => some fun _ _ => none
  | some _ => none

def text? (default : String) : Option Item → Option String
  | none => some default
  | some (.string text) => some text
  | some _ => none

def number? (default : Nat) : Option Item → Option Nat
  | none => some default
  | some (.integer n) => if 0 ≤ n then some n.toNat else none
  | some _ => none

def flag? (default : Bool) : Option Item → Option Bool
  | none => some default
  | some (.bool b) => some b
  | some _ => none

def texts? (default : List String) : Option Item → Option (List String)
  | none => some default
  | some (.array items) => items.mapM fun item => text? "" (some item)
  | some _ => none

def ofEntries? (entries : Entries) : Option Config := do
  let base : Config := {}
  let parser ← section? (entries.lookup "parser")
  let endpoint ← text? base.endpoint (parser "endpoint" 0)
  let timeoutSeconds ← number? base.timeoutSeconds (parser "timeout_secs" 1)
  let selection ← section? (entries.lookup "selection")
  let maxFileSize ← number? base.maxFileSize (selection "max_file_size" 0)
  let excludePatterns ← texts? base.excludePatterns (selection "exclude_patterns" 1)
  let output ← section? (entries.lookup "output")
  let shardDepth ← number? base.shardDepth (output "shard_depth" 0)
  let overwrite ← flag? base.overwrite (output "overwrite_existing" 1)
  let workers ← section? (entries.lookup "workers")
  let count ← number? base.workers (workers "num_workers" 0)
  some ⟨endpoint, timeoutSeconds, maxFileSize, excludePatterns, shardDepth, overwrite, count⟩

def ofToml? (text : String) : Option Config := (Toml.read? text).bind ofEntries?

def maxWritten : Nat := 2 ^ 63 - 1

def fits (config : Config) : Bool :=
  [config.timeoutSeconds, config.maxFileSize, config.shardDepth, config.workers].all
    (· ≤ maxWritten)

def writeNumber (n : Nat) : List Char := (toString n).toList

def writeFlag (b : Bool) : List Char := (if b then "true" else "false").toList

def written (config : Config) : List Char :=
  headerLine "parser" ++ pairLine "endpoint" (writeString config.endpoint) ++
  pairLine "timeout_secs" (writeNumber config.timeoutSeconds) ++
  '\n' :: headerLine "selection" ++
  pairLine "max_file_size" (writeNumber config.maxFileSize) ++
  pairLine "exclude_patterns" (writeStrings config.excludePatterns) ++
  '\n' :: headerLine "output" ++ pairLine "shard_depth" (writeNumber config.shardDepth) ++
  pairLine "overwrite_existing" (writeFlag config.overwrite) ++
  '\n' :: headerLine "workers" ++ pairLine "num_workers" (writeNumber config.workers)

def toToml? (config : Config) : Option String :=
  if config.fits then some (String.ofList config.written) else none

end SourceModels.Config

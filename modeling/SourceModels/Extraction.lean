import SourceModels.Config
import SourceModels.Identifier
import SourceModels.Parsing
import SourceModels.Report
import SourceModels.Selection
import SourceModels.Store

/-! Turning repositories into models. A model is written only when every selected file has been
parsed, so a repository that fails leaves nothing behind. -/
namespace SourceModels

structure Extractor where
  config : Config
  resolver : Resolver
  detector : Detector
  /-- The parser, given what it has been asked before; its answers may change in the course of a
  run. -/
  parser : (earlier : List ParseRequest) → Parser
  writer : ModelWriter
  parseTime : Duration

structure Run (α : Type) where
  result : α
  files : FileSystem
  requests : List ParseRequest

namespace Extractor

def new (config : Config) (parser : Parser) : Extractor where
  config := config
  resolver := resolve
  detector := Language.detector config.excludePatterns
  parser := fun _ => parser
  writer := Store.writer .sound
  parseTime := config.timeout

def limits (x : Extractor) : ParseLimits := ⟨x.parseTime, x.config.maxFileSize⟩

def selector (x : Extractor) (repository : String) : Selector where
  root := Identifier.trim repository
  maxFileSize := x.config.maxFileSize
  resolver := x.resolver
  detector := x.detector

def dependencies (_ : Extractor) : List String := []

def destination (x : Extractor) (repository output : String) : String :=
  Identifier.destination repository output x.config.shardDepth

def requestsFor (x : Extractor) (request : ParseRequest) : List ParseRequest :=
  if request.fits x.limits then [request] else []

def addFile (x : Extractor) (earlier : List ParseRequest) (draft : Draft) (c : Candidate)
    (fs : FileSystem) : Except Failure Draft × List ParseRequest :=
  match fs.readBytes c.location with
  | .error fault => (.error (.selection (.unreadable c.relativePath fault.message)), [])
  | .ok content =>
    let request : ParseRequest := ⟨c.relativePath, c.language, content⟩
    match draft.add c.relativePath (invoke (x.parser earlier) x.limits request) with
    | (draft, .ok ()) => (.ok draft, x.requestsFor request)
    | (_, .error failure) => (.error failure, x.requestsFor request)

def collect (x : Extractor) (selector : Selector) : Walk → SelectionCounts → Draft →
    List ParseRequest → FileSystem → Run (Except Failure Draft)
  | .finished, _, draft, requests, fs => ⟨.ok draft, fs, requests⟩
  | .failed path fault, _, _, requests, fs =>
    ⟨.error (.selection (Selector.walkFault path fault)), fs, requests⟩
  | .found entry resume, counts, draft, requests, fs =>
    let (verdict, counts, fs) := selector.inspect entry counts fs
    match verdict with
    | .passedOver => collect x selector (resume fs) counts draft requests fs
    | .refused fault => ⟨.error (.selection fault), fs, requests⟩
    | .candidate c =>
      match x.addFile requests draft c fs with
      | (.ok draft, asked) => collect x selector (resume fs) counts draft (requests ++ asked) fs
      | (.error failure, asked) => ⟨.error failure, fs, requests ++ asked⟩

def collectAll (x : Extractor) (selector : Selector) (fs : FileSystem) :
    Run (Except Failure Draft) :=
  match selector.select fs with
  | .error fault => ⟨.error (.selection fault), fs, []⟩
  | .ok selection => x.collect selector selection.walk selection.counts .empty [] fs

def gather (x : Extractor) (repository : String) (fs : FileSystem) : Run (Except Failure Draft) :=
  x.collectAll (x.selector repository) fs

def isTaken (x : Extractor) (destination : String) (fs : FileSystem) : Except Failure Bool :=
  if x.config.overwrite then .ok false
  else (fs.tryExists destination).mapError .io

def prepare (x : Extractor) (repository destination : String) (draft : Draft) (stamp : Stamp)
    (fs : FileSystem) : FileSystem × Except Failure (Option Model) :=
  if draft.filenames.isEmpty then (fs, .ok none)
  else
    match draft.finalize repository stamp with
    | .error fault => (fs, .error (.model fault))
    | .ok model =>
      match x.writer.prepare fs model destination with
      | (fs, .ok ()) => (fs, .ok (some model))
      | (fs, .error fault) => (fs, .error (.model fault))

def install (x : Extractor) (destination : String) (model : Model) (stamp : Stamp)
    (fs : FileSystem) : FileSystem × Except Failure Outcome :=
  match x.writer.place fs model destination stamp.token with
  | (fs, .ok ()) => (fs, .ok (.written destination model.size))
  | (fs, .error fault) => (fs, .error (.model fault))

def store (x : Extractor) (repository destination : String) (draft : Draft) (stamp : Stamp)
    (fs : FileSystem) : FileSystem × Except Failure Outcome :=
  match x.prepare repository destination draft stamp fs with
  | (fs, .error failure) => (fs, .error failure)
  | (fs, .ok none) => (fs, .ok .empty)
  | (fs, .ok (some model)) => x.install destination model stamp fs

def extractTo (x : Extractor) (repository destination : String) (stamp : Stamp)
    (fs : FileSystem) : Run (Except Failure Outcome) :=
  match x.isTaken destination fs with
  | .error failure => ⟨.error failure, fs, []⟩
  | .ok true => ⟨.ok (.skipped destination), fs, []⟩
  | .ok false =>
    let gathered := x.gather repository fs
    match gathered.result with
    | .error failure => ⟨.error failure, gathered.files, gathered.requests⟩
    | .ok draft =>
      let (fs, result) := x.store repository destination draft stamp gathered.files
      ⟨result, fs, gathered.requests⟩

def extract (x : Extractor) (repository output : String) (stamp : Stamp) (fs : FileSystem) :
    Run (Except Failure Outcome) :=
  x.extractTo repository (x.destination repository output) stamp fs

end Extractor

end SourceModels

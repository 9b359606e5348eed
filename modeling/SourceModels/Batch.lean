import SourceModels.Extraction

/-! Extracting many repositories. Some of them are under way at a time, each first looking for its
model, then gathering its files, making directories for the model and last putting it in its place,
and the others may take any of their steps in between. -/
namespace SourceModels

structure Task where
  position : Nat
  repository : String
  deriving DecidableEq, Repr

inductive Phase where
  | waiting
  | cleared
  | gathered (draft : Draft)
  | prepared (model : Model)

inductive Progress where
  | reached (phase : Phase)
  | ended (result : Except Failure Outcome)

def Progress.ofPrepared : Except Failure (Option Model) → Progress
  | .error failure => .ended (.error failure)
  | .ok none => .ended (.ok .empty)
  | .ok (some model) => .reached (.prepared model)

structure Batch where
  pending : List Task
  inFlight : List (Task × Phase)
  finished : List (Task × Except Failure Outcome)
  files : FileSystem
  requests : List ParseRequest

inductive Move where
  | start
  | advance (place : Nat)
  deriving DecidableEq, Repr

namespace Batch

def tasks (repositories : List String) : List Task :=
  repositories.zipIdx.map fun (repository, position) => ⟨position, repository⟩

def ofRepositories (repositories : List String) (fs : FileSystem) : Batch :=
  ⟨tasks repositories, [], [], fs, []⟩

def report (batch : Batch) : Report :=
  batch.finished.foldl (fun report (task, result) => report.record task.repository result) {}

end Batch

namespace Extractor

def atOnce (x : Extractor) : Nat := max x.config.workers 1

def advance (x : Extractor) (output : String) (stamps : Nat → Stamp) (task : Task) (phase : Phase)
    (fs : FileSystem) : Run Progress :=
  let destination := x.destination task.repository output
  match phase with
  | .waiting =>
    match x.isTaken destination fs with
    | .error failure => ⟨.ended (.error failure), fs, []⟩
    | .ok true => ⟨.ended (.ok (.skipped destination)), fs, []⟩
    | .ok false => ⟨.reached .cleared, fs, []⟩
  | .cleared =>
    let gathered := x.gather task.repository fs
    match gathered.result with
    | .error failure => ⟨.ended (.error failure), gathered.files, gathered.requests⟩
    | .ok draft => ⟨.reached (.gathered draft), gathered.files, gathered.requests⟩
  | .gathered draft =>
    let (fs, prepared) := x.prepare task.repository destination draft (stamps task.position) fs
    ⟨.ofPrepared prepared, fs, []⟩
  | .prepared model =>
    let (fs, result) := x.install destination model (stamps task.position) fs
    ⟨.ended result, fs, []⟩

def step? (x : Extractor) (output : String) (stamps : Nat → Stamp) (batch : Batch) :
    Move → Option Batch
  | .start =>
    match batch.pending with
    | [] => none
    | task :: rest =>
      if batch.inFlight.length < x.atOnce then
        some { batch with pending := rest, inFlight := batch.inFlight ++ [(task, .waiting)] }
      else none
  | .advance place =>
    match batch.inFlight[place]? with
    | none => none
    | some (task, phase) =>
      let others := batch.inFlight.eraseIdx place
      let run := x.advance output stamps task phase batch.files
      let requests := batch.requests ++ run.requests
      match run.result with
      | .reached phase =>
        some { batch with inFlight := others ++ [(task, phase)], files := run.files, requests }
      | .ended result =>
        some { batch with
          inFlight := others, finished := batch.finished ++ [(task, result)], files := run.files
          requests }

def moved? (x : Extractor) (output : String) (stamps : Nat → Stamp) (batch : Batch)
    (moves : List Move) : Option Batch :=
  moves.foldlM (x.step? output stamps) batch

def turn? (x : Extractor) (batch : Batch) : Option Move :=
  if batch.pending ≠ [] ∧ batch.inFlight.length < x.atOnce then some .start
  else if batch.inFlight ≠ [] then some (.advance 0)
  else none

def settle (x : Extractor) (output : String) (stamps : Nat → Stamp) : (fuel : Nat) → Batch → Batch
  | 0, batch => batch
  | fuel + 1, batch =>
    match (x.turn? batch).bind (x.step? output stamps batch) with
    | none => batch
    | some next => settle x output stamps fuel next

/-- Each task takes five moves at most. -/
def batch (x : Extractor) (repositories : List String) (output : String) (stamps : Nat → Stamp)
    (fs : FileSystem) : Run Report :=
  let last := x.settle output stamps (5 * repositories.length) (.ofRepositories repositories fs)
  ⟨last.report, last.files, last.requests⟩

end Extractor

end SourceModels

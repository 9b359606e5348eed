import Mathlib.Algebra.GroupWithZero.Nat
import Mathlib.Data.List.Perm.Basic
import SourceModels.Batch
import SourceModels.Proofs.Extraction.AllOrNothing
import SourceModels.Proofs.FileSystem.Growth

/-! The steps of a batch: what each of them can do to the tasks and to the files, and that taking
turns brings every task to its end. -/
namespace SourceModels

def Phase.pastCheck : Phase → Bool
  | .waiting => false
  | _ => true

def Phase.remaining : Phase → Nat
  | .waiting => 4
  | .cleared => 3
  | .gathered _ => 2
  | .prepared _ => 1

def Phase.stores : Phase → Bool
  | .gathered _ => true
  | .prepared _ => true
  | _ => false

theorem Phase.remainingPositive (phase : Phase) : 0 < phase.remaining := by
  cases phase <;> exact Nat.succ_pos _

theorem Phase.storesPast (phase : Phase) (stores : phase.stores = true) :
    phase.pastCheck = true := by
  cases phase with
  | waiting => cases stores
  | _ => rfl

namespace Batch

def all (batch : Batch) : List Task :=
  batch.pending ++ (batch.inFlight.map Prod.fst ++ batch.finished.map Prod.fst)

def remaining (batch : Batch) : Nat :=
  5 * batch.pending.length + (batch.inFlight.map fun e => e.2.remaining).sum

theorem allAtFirst (repositories : List String) (fs : FileSystem) :
    (ofRepositories repositories fs).all = tasks repositories := by
  simp [all, ofRepositories]

theorem remainingAtFirst (repositories : List String) (fs : FileSystem) :
    (ofRepositories repositories fs).remaining = 5 * repositories.length := by
  simp [remaining, ofRepositories, tasks]

theorem tasksRepositories (repositories : List String) :
    (tasks repositories).map Task.repository = repositories := by
  simp only [tasks, List.map_map]
  exact List.zipIdx_map_fst 0 repositories

theorem tasksInside {repositories : List String} {task : Task}
    (inside : task ∈ tasks repositories) : task.repository ∈ repositories := by
  rw [← tasksRepositories repositories]
  exact List.mem_map_of_mem inside

def writtenPath? : Except Failure Outcome → Option String
  | .ok (.written path _) => some path
  | _ => none

def skippedPath? : Except Failure Outcome → Option String
  | .ok (.skipped path) => some path
  | _ => none

def emptied? (e : Task × Except Failure Outcome) : Option String :=
  match e.2 with
  | .ok .empty => some e.1.repository
  | _ => none

def failed? (e : Task × Except Failure Outcome) : Option (String × String) :=
  match e.2 with
  | .error failure => some (e.1.repository, failure.message)
  | _ => none

theorem reportLists (batch : Batch) : batch.report =
    ⟨batch.finished.filterMap fun e => writtenPath? e.2,
      batch.finished.filterMap fun e => skippedPath? e.2,
      batch.finished.filterMap emptied?, batch.finished.filterMap failed?⟩ := by
  have all : ∀ (finished : List (Task × Except Failure Outcome)) (report : Report),
      finished.foldl (fun report e => report.record e.1.repository e.2) report =
        ⟨report.written ++ finished.filterMap fun e => writtenPath? e.2,
          report.skipped ++ finished.filterMap fun e => skippedPath? e.2,
          report.empty ++ finished.filterMap emptied?,
          report.failed ++ finished.filterMap failed?⟩ := by
    intro finished
    induction finished with
    | nil => simp
    | cons e rest ih =>
      intro report
      obtain ⟨task, result⟩ := e
      rw [List.foldl_cons, ih]
      rcases result with failure | path | path | _ <;>
        simp [List.filterMap_cons, Report.record, writtenPath?, skippedPath?, emptied?, failed?]
  simpa [report] using all batch.finished {}

theorem reportWritten (batch : Batch) :
    batch.report.written = batch.finished.filterMap fun e => writtenPath? e.2 := by
  rw [reportLists]

theorem writtenBy {result : Except Failure Outcome} {path : String}
    (writes : writtenPath? result = some path) : ∃ count, result = .ok (.written path count) := by
  unfold writtenPath? at writes
  split at writes
  · cases writes
    exact ⟨_, rfl⟩
  · simp at writes

theorem endedWritten (batch : Batch) (task : Task) (result : Except Failure Outcome)
    (inFlight : List (Task × Phase)) (files : FileSystem) (requests : List ParseRequest) :
    ({ batch with
        inFlight, finished := batch.finished ++ [(task, result)], files
        requests } : Batch).report.written =
      batch.report.written ++ (writtenPath? result).toList := by
  rw [reportWritten, reportWritten, List.filterMap_append]
  cases written : writtenPath? result <;> simp [written]

end Batch

theorem foundAmong {α : Type} {items : List α} {place : Nat} {item : α}
    (found : items[place]? = some item) : items.Perm (item :: items.eraseIdx place) := by
  obtain ⟨inside, same⟩ := List.getElem?_eq_some_iff.mp found
  rw [← same]
  exact (List.getElem_cons_eraseIdx_perm inside).symm

namespace Extractor

section
variable {x : Extractor} {output : String} {stamps : Nat → Stamp}

theorem waitingAdvanced {task : Task} {progress : Progress} {fs after : FileSystem}
    {asked : List ParseRequest}
    (run : x.advance output stamps task .waiting fs = ⟨progress, after, asked⟩) :
    after = fs ∧ asked = [] ∧
      match x.isTaken (x.destination task.repository output) fs with
      | .error failure => progress = .ended (.error failure)
      | .ok true => progress = .ended (.ok (.skipped (x.destination task.repository output)))
      | .ok false => progress = .reached .cleared := by
  unfold advance at run
  dsimp only at run
  generalize x.isTaken (x.destination task.repository output) fs = taken at run ⊢
  rcases taken with failure | _ | _ <;> cases run <;> exact ⟨rfl, rfl, rfl⟩

theorem clearedAdvanced {task : Task} {progress : Progress} {fs after : FileSystem}
    {asked : List ParseRequest}
    (run : x.advance output stamps task .cleared fs = ⟨progress, after, asked⟩) :
    after = (x.gather task.repository fs).files ∧
      asked = (x.gather task.repository fs).requests ∧
      match (x.gather task.repository fs).result with
      | .error failure => progress = .ended (.error failure)
      | .ok draft => progress = .reached (.gathered draft) := by
  unfold advance at run
  dsimp only at run
  generalize x.gather task.repository fs = gathered at run ⊢
  obtain ⟨failure | draft, files, requests⟩ := gathered <;> cases run <;> exact ⟨rfl, rfl, rfl⟩

theorem gatheredAdvanced {task : Task} {draft : Draft} {progress : Progress}
    {fs after : FileSystem} {asked : List ParseRequest}
    (run : x.advance output stamps task (.gathered draft) fs = ⟨progress, after, asked⟩) :
    asked = [] ∧ ∃ prepared, progress = .ofPrepared prepared ∧
      x.prepare task.repository (x.destination task.repository output) draft
        (stamps task.position) fs = (after, prepared) := by
  unfold advance at run
  simp only [Run.mk.injEq] at run
  obtain ⟨rfl, rfl, rfl⟩ := run
  exact ⟨rfl, _, rfl, rfl⟩

theorem preparedAdvanced {task : Task} {model : Model} {progress : Progress}
    {fs after : FileSystem} {asked : List ParseRequest}
    (run : x.advance output stamps task (.prepared model) fs = ⟨progress, after, asked⟩) :
    asked = [] ∧ ∃ result, progress = .ended result ∧
      x.install (x.destination task.repository output) model (stamps task.position) fs =
        (after, result) := by
  unfold advance at run
  simp only [Run.mk.injEq] at run
  obtain ⟨rfl, rfl, rfl⟩ := run
  exact ⟨rfl, _, rfl, rfl⟩

theorem earlyAdvanced (quiet : x.detector.Quiet) {task : Task} {phase : Phase}
    {progress : Progress} {fs after : FileSystem} {asked : List ParseRequest}
    (early : phase.stores = false)
    (run : x.advance output stamps task phase fs = ⟨progress, after, asked⟩) :
    after = fs ∧ ∀ result, progress = .ended result → (∃ failure, result = .error failure) ∨
      result = .ok (.skipped (x.destination task.repository output)) ∧
        x.isTaken (x.destination task.repository output) fs = .ok true := by
  cases phase with
  | waiting =>
    obtain ⟨same, _, known⟩ := waitingAdvanced run
    refine ⟨same, ?_⟩
    rintro result rfl
    split at known
    · exact .inl ⟨_, Progress.ended.inj known⟩
    · rename_i taken
      exact .inr ⟨Progress.ended.inj known, taken⟩
    · cases known
  | cleared =>
    obtain ⟨same, _, known⟩ := clearedAdvanced run
    rw [gatherKeepsFiles quiet] at same
    refine ⟨same, ?_⟩
    rintro result rfl
    split at known
    · exact .inl ⟨_, Progress.ended.inj known⟩
    · cases known
  | gathered draft => cases early
  | prepared model => cases early

theorem storingAdvanced {disk : Disk} (container : x.writer = Store.writer disk) {task : Task}
    {phase : Phase} {progress : Progress} {fs after : FileSystem} {asked : List ParseRequest}
    (stores : phase.stores = true)
    (spare : Store.SpareToken fs (x.destination task.repository output)
      (stamps task.position).token)
    (run : x.advance output stamps task phase fs = ⟨progress, after, asked⟩) :
    (∃ model, progress = .reached (.prepared model) ∧
      FileSystem.DirectoriesAdded fs after (x.destination task.repository output)) ∨
    ∃ result, progress = .ended result ∧ (∀ path, result ≠ .ok (.skipped path)) ∧
      AllOrNothing fs (x.destination task.repository output) ⟨result, after, asked⟩ := by
  cases phase with
  | waiting => cases stores
  | cleared => cases stores
  | gathered draft =>
    obtain ⟨_, prepared, rfl, done⟩ := gatheredAdvanced run
    rcases prepared with failure | _ | model
    · exact .inr ⟨_, rfl, by simp, preparedFailed container done⟩
    · exact .inr ⟨_, rfl, by simp, .unchanged (preparedEmpty done) (by simp)⟩
    · exact .inl ⟨model, rfl, preparedModel container done⟩
  | prepared model =>
    obtain ⟨_, result, rfl, done⟩ := preparedAdvanced run
    obtain ⟨whole, unskipped⟩ := installedSpare container spare done
    exact .inr ⟨result, rfl, unskipped, whole⟩

inductive Stepped (x : Extractor) (output : String) (stamps : Nat → Stamp) (batch : Batch) :
    Batch → Prop where
  | started {task : Task} {rest : List Task} (pending : batch.pending = task :: rest)
      (room : batch.inFlight.length < x.atOnce) :
      Stepped x output stamps batch
        { batch with pending := rest, inFlight := batch.inFlight ++ [(task, .waiting)] }
  | reached {place : Nat} {task : Task} {phase next : Phase} {after : FileSystem}
      {asked : List ParseRequest} (found : batch.inFlight[place]? = some (task, phase))
      (run : x.advance output stamps task phase batch.files = ⟨.reached next, after, asked⟩) :
      Stepped x output stamps batch
        { batch with
          inFlight := batch.inFlight.eraseIdx place ++ [(task, next)]
          files := after, requests := batch.requests ++ asked }
  | ended {place : Nat} {task : Task} {phase : Phase} {result : Except Failure Outcome}
      {after : FileSystem} {asked : List ParseRequest}
      (found : batch.inFlight[place]? = some (task, phase))
      (run : x.advance output stamps task phase batch.files = ⟨.ended result, after, asked⟩) :
      Stepped x output stamps batch
        { batch with
          inFlight := batch.inFlight.eraseIdx place
          finished := batch.finished ++ [(task, result)]
          files := after, requests := batch.requests ++ asked }

theorem stepTaken {batch next : Batch} {move : Move}
    (done : x.step? output stamps batch move = some next) : Stepped x output stamps batch next := by
  cases move with
  | start =>
    simp only [step?] at done
    split at done
    · simp at done
    rename_i task rest pending
    split at done
    · rename_i room
      cases done
      exact .started pending room
    · simp at done
  | advance place =>
    simp only [step?] at done
    split at done
    · simp at done
    rename_i task phase found
    cases run : x.advance output stamps task phase batch.files with
    | mk progress after asked =>
      cases progress with
      | reached next =>
        simp only [run, Option.some.injEq] at done
        subst done
        exact .reached found run
      | ended result =>
        simp only [run, Option.some.injEq] at done
        subst done
        exact .ended found run

theorem movedAlong {Kept : Batch → Prop} {batch last : Batch} {moves : List Move}
    (step : ∀ earlier middle next, earlier <+: moves →
      x.moved? output stamps batch earlier = some middle → Kept middle →
      Stepped x output stamps middle next → Kept next)
    (holds : Kept batch) (done : x.moved? output stamps batch moves = some last) : Kept last := by
  induction moves generalizing batch with
  | nil =>
    cases done
    exact holds
  | cons move rest ih =>
    rw [moved?, List.foldlM_cons, Option.bind_eq_bind, Option.bind_eq_some_iff] at done
    obtain ⟨next, first, later⟩ := done
    have kept := step [] batch next List.nil_prefix rfl holds (stepTaken first)
    refine ih ?_ kept later
    intro earlier middle following front reached
    refine step (move :: earlier) middle following (List.cons_prefix_cons.mpr ⟨rfl, front⟩) ?_
    rw [moved?, List.foldlM_cons, first]
    exact reached

theorem moved {Kept : Batch → Prop}
    (step : ∀ batch next, Kept batch → Stepped x output stamps batch next → Kept next)
    {batch last : Batch} {moves : List Move} (holds : Kept batch)
    (done : x.moved? output stamps batch moves = some last) : Kept last :=
  movedAlong (fun _ middle next _ _ => step middle next) holds done

theorem Stepped.accounted {batch next : Batch} (stepped : Stepped x output stamps batch next) :
    next.all.Perm batch.all := by
  cases stepped with
  | @started task rest pending room =>
    simp only [Batch.all, pending, List.map_append, List.map_cons, List.map_nil, List.append_assoc,
      List.cons_append, List.nil_append]
    exact (List.perm_middle.append_left rest).trans List.perm_middle
  | reached found run =>
    have moved := ((foundAmong found).map Prod.fst).symm
    simp only [Batch.all, List.map_append, List.map_cons, List.map_nil] at moved ⊢
    exact ((List.perm_append_singleton ..).trans moved).append_right _ |>.append_left _
  | ended found run =>
    have moved := ((foundAmong found).map Prod.fst).symm
    simp only [Batch.all, List.map_append, List.map_cons, List.map_nil] at moved ⊢
    rw [← List.append_assoc (List.map _ _)]
    refine List.Perm.append_left _ ((List.perm_append_singleton ..).trans ?_)
    exact moved.append_right (batch.finished.map Prod.fst)

theorem accountedRun {repositories : List String} {fs : FileSystem} {moves : List Move}
    {last : Batch}
    (run : x.moved? output stamps (.ofRepositories repositories fs) moves = some last) :
    last.all.Perm (Batch.tasks repositories) :=
  @moved x output stamps (fun later => later.all.Perm (Batch.tasks repositories))
    (fun _ _ holds stepped => stepped.accounted.trans holds) _ _ _
    (by rw [Batch.allAtFirst]) run

section
variable {tasks : List Task} {batch : Batch} (accounted : batch.all.Perm tasks)
include accounted

theorem flyingInside {place : Nat} {task : Task} {phase : Phase}
    (found : batch.inFlight[place]? = some (task, phase)) : task ∈ tasks := by
  refine accounted.mem_iff.mp ?_
  have inside := List.mem_map_of_mem (f := Prod.fst) (List.mem_of_getElem? found)
  simp only [Batch.all, List.mem_append]
  exact .inr (.inl inside)

theorem finishedInside {e : Task × Except Failure Outcome} (inside : e ∈ batch.finished) :
    e.1 ∈ tasks := by
  refine accounted.mem_iff.mp ?_
  simp only [Batch.all, List.mem_append]
  exact .inr (.inr (List.mem_map_of_mem inside))

theorem finishesEach (started : batch.pending = []) (idle : batch.inFlight = []) {task : Task}
    (inside : task ∈ tasks) : ∃ e ∈ batch.finished, e.1 = task := by
  rw [Batch.all, started, idle] at accounted
  simpa using accounted.mem_iff.mpr inside

end

theorem Stepped.within {batch next : Batch} (stepped : Stepped x output stamps batch next)
    (few : batch.inFlight.length ≤ x.atOnce) : next.inFlight.length ≤ x.atOnce := by
  cases stepped with
  | started pending room =>
    rw [List.length_append, List.length_singleton]
    omega
  | reached found run =>
    have same := (foundAmong found).length_eq
    rw [List.length_cons] at same
    rw [List.length_append, List.length_singleton]
    omega
  | ended found run =>
    exact Nat.le_trans (List.length_eraseIdx_le ..) few

theorem advanceReached {task : Task} {phase next : Phase} {fs after : FileSystem}
    {asked : List ParseRequest}
    (run : x.advance output stamps task phase fs = ⟨.reached next, after, asked⟩) :
    next.remaining < phase.remaining := by
  cases phase with
  | waiting =>
    obtain ⟨_, _, progress⟩ := waitingAdvanced run
    split at progress
    · cases progress
    · cases progress
    · cases progress
      exact Nat.lt_succ_self 3
  | cleared =>
    obtain ⟨_, _, progress⟩ := clearedAdvanced run
    split at progress
    · cases progress
    · cases progress
      exact Nat.lt_succ_self 2
  | gathered draft =>
    obtain ⟨_, prepared, progress, _⟩ := gatheredAdvanced run
    rcases prepared with failure | _ | model <;> cases progress
    exact Nat.lt_succ_self 1
  | prepared model =>
    obtain ⟨_, result, progress, _⟩ := preparedAdvanced run
    cases progress

theorem Stepped.shorter {batch next : Batch} (stepped : Stepped x output stamps batch next) :
    next.remaining < batch.remaining := by
  cases stepped with
  | started pending room =>
    simp only [Batch.remaining, pending, List.map_append, List.map_cons, List.map_nil,
      List.sum_append, List.sum_cons, List.sum_nil, Phase.remaining, List.length_cons]
    omega
  | @reached place task phase next after asked found run =>
    have less := advanceReached run
    have sum := ((foundAmong found).map fun e => e.2.remaining).sum_nat
    simp only [Batch.remaining, List.map_append, List.map_cons, List.map_nil, List.sum_append,
      List.sum_cons, List.sum_nil] at sum ⊢
    omega
  | @ended place task phase result after asked found run =>
    have sum := ((foundAmong found).map fun e => e.2.remaining).sum_nat
    have positive := phase.remainingPositive
    simp only [Batch.remaining, List.map_cons, List.sum_cons] at sum ⊢
    omega

theorem finishedAll {batch : Batch} (none : batch.remaining = 0) :
    batch.pending = [] ∧ batch.inFlight = [] := by
  simp only [Batch.remaining, Nat.add_eq_zero_iff, Nat.mul_eq_zero, List.length_eq_zero_iff] at none
  refine ⟨none.1.resolve_left (by decide), ?_⟩
  cases inFlight : batch.inFlight with
  | nil => rfl
  | cons e rest =>
    have positive := e.2.remainingPositive
    simp only [inFlight, List.map_cons, List.sum_cons] at none
    omega

theorem turnTaken (x : Extractor) (output : String) (stamps : Nat → Stamp) {batch : Batch}
    (unfinished : batch.pending ≠ [] ∨ batch.inFlight ≠ []) :
    ∃ move, x.turn? batch = some move ∧ (x.step? output stamps batch move).isSome = true := by
  by_cases room : batch.pending ≠ [] ∧ batch.inFlight.length < x.atOnce
  · obtain ⟨task, rest, pending⟩ := List.exists_cons_of_ne_nil room.1
    exact ⟨.start, if_pos room, by simp [step?, pending, room.2]⟩
  · have busy : batch.inFlight ≠ [] := by
      intro idle
      have waits := unfinished.resolve_right (by simp [idle])
      have positive : 0 < x.atOnce := Nat.lt_of_lt_of_le Nat.one_pos (Nat.le_max_right ..)
      exact room ⟨waits, by simpa [idle] using positive⟩
    obtain ⟨⟨task, phase⟩, others, inFlight⟩ := List.exists_cons_of_ne_nil busy
    have turn : x.turn? batch = some (.advance 0) := by
      rw [turn?, if_neg room, if_pos busy]
    refine ⟨.advance 0, turn, ?_⟩
    simp only [step?, inFlight, List.getElem?_cons_zero]
    split <;> rfl

theorem settled (x : Extractor) (output : String) (stamps : Nat → Stamp) (fuel : Nat)
    {batch : Batch} (enough : batch.remaining ≤ fuel) :
    ∃ moves, x.moved? output stamps batch moves = some (x.settle output stamps fuel batch) ∧
      (x.settle output stamps fuel batch).pending = [] ∧
      (x.settle output stamps fuel batch).inFlight = [] := by
  induction fuel generalizing batch with
  | zero =>
    have none : batch.remaining = 0 := Nat.le_zero.mp enough
    exact ⟨[], rfl, finishedAll none⟩
  | succ fuel ih =>
    by_cases unfinished : batch.pending ≠ [] ∨ batch.inFlight ≠ []
    · obtain ⟨move, turn, taken⟩ := turnTaken x output stamps unfinished
      obtain ⟨next, step⟩ := Option.isSome_iff_exists.mp taken
      have less := (stepTaken step).shorter
      have on : x.settle output stamps (fuel + 1) batch = x.settle output stamps fuel next := by
        simp [settle, turn, step]
      obtain ⟨moves, moved, ends⟩ := @ih next (by omega)
      rw [on]
      refine ⟨move :: moves, ?_, ends⟩
      simpa [moved?, step] using moved
    · have idle : batch.pending = [] ∧ batch.inFlight = [] := by simpa using unfinished
      have rests : x.settle output stamps (fuel + 1) batch = batch := by
        simp [settle, turn?, idle]
      rw [rests]
      exact ⟨[], rfl, idle⟩

theorem batchMoved (x : Extractor) (repositories : List String) (output : String)
    (stamps : Nat → Stamp) (fs : FileSystem) :
    ∃ moves last, x.moved? output stamps (.ofRepositories repositories fs) moves = some last ∧
      last.pending = [] ∧ last.inFlight = [] ∧
      x.batch repositories output stamps fs = ⟨last.report, last.files, last.requests⟩ := by
  have enough := Nat.le_of_eq (Batch.remainingAtFirst repositories fs)
  obtain ⟨moves, moved, ends⟩ := settled x output stamps _ enough
  exact ⟨moves, _, moved, ends.1, ends.2, rfl⟩

end

end Extractor

end SourceModels

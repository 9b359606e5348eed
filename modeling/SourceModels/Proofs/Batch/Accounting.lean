import SourceModels.CommandLine
import SourceModels.Proofs.Batch.Steps

/-! The books of a batch: how many tasks are under way, which of them have been started and finished,
what the report makes of their results, and what the program tells of the report. -/
namespace SourceModels

namespace Report

def joined (first second : Report) : Report where
  written := first.written ++ second.written
  skipped := first.skipped ++ second.skipped
  empty := first.empty ++ second.empty
  failed := first.failed ++ second.failed

theorem joinedTotal (first second : Report) :
    (first.joined second).total = first.total + second.total := by
  simp only [total, joined, List.length_append]
  omega

end Report

namespace Batch

theorem tasksPositions (repositories : List String) :
    (tasks repositories).map Task.position = List.range repositories.length := by
  simp only [tasks, List.map_map]
  exact List.zipIdx_map_snd 0 repositories |>.trans (List.range_eq_range' ..).symm

def reportOf (finished : List (Task × Except Failure Outcome)) : Report :=
  finished.foldl (fun report e => report.record e.1.repository e.2) {}

theorem reportOfLists (finished : List (Task × Except Failure Outcome)) : reportOf finished =
    ⟨finished.filterMap fun e => writtenPath? e.2, finished.filterMap fun e => skippedPath? e.2,
      finished.filterMap emptied?, finished.filterMap failed?⟩ :=
  reportLists ⟨[], [], finished, ⟨[], [], []⟩, []⟩

theorem reportJoined (front back : List (Task × Except Failure Outcome)) :
    reportOf (front ++ back) = (reportOf front).joined (reportOf back) := by
  simp only [reportOfLists, Report.joined, List.filterMap_append]

theorem reportTotal (finished : List (Task × Except Failure Outcome)) :
    (reportOf finished).total = finished.length := by
  induction finished with
  | nil => rfl
  | cons e rest ih =>
    have one : (reportOf [e]).total = 1 := by
      obtain ⟨task, failure | path | path | _⟩ := e <;> rfl
    rw [← List.singleton_append, reportJoined, Report.joinedTotal, one, ih, List.length_append]
    rfl

end Batch

namespace Extractor

section
variable {x : Extractor} {output : String} {stamps : Nat → Stamp} {batch last : Batch}
  {moves : List Move}

theorem stepPending {next : Batch} {move : Move}
    (done : x.step? output stamps batch move = some next) :
    next.pending = batch.pending.drop ([move].count .start) := by
  cases move with
  | start =>
    simp only [step?] at done
    split at done
    · cases done
    · rename_i task rest pending
      split at done <;> cases done
      simp [pending]
  | advance place =>
    simp only [step?] at done
    split at done
    · cases done
    · split at done <;> cases done <;> simp

theorem movesCounted (done : x.moved? output stamps batch moves = some last) :
    last.pending = batch.pending.drop (moves.count .start) ∧
      moves.length + last.remaining ≤ batch.remaining := by
  induction moves generalizing batch with
  | nil =>
    cases done
    exact ⟨rfl, by simp⟩
  | cons move rest ih =>
    rw [moved?, List.foldlM_cons, Option.bind_eq_bind, Option.bind_eq_some_iff] at done
    obtain ⟨next, first, later⟩ := done
    obtain ⟨pending, less⟩ := ih later
    have shorter := (stepTaken first).shorter
    refine ⟨?_, by rw [List.length_cons]; omega⟩
    rw [pending, stepPending first, List.drop_drop, ← List.count_append, List.singleton_append]

def EndedIn (x : Extractor) (output : String) (stamps : Nat → Stamp) (batch : Batch)
    (moves : List Move) (e : Task × Except Failure Outcome) : Prop :=
  ∃ (earlier : List Move) (middle : Batch) (place : Nat) (phase : Phase) (after : FileSystem)
    (asked : List ParseRequest), earlier <+: moves ∧
    x.moved? output stamps batch earlier = some middle ∧
    middle.inFlight[place]? = some (e.1, phase) ∧
    x.advance output stamps e.1 phase middle.files = ⟨.ended e.2, after, asked⟩

theorem resultsOwn (fresh : batch.finished = [])
    (done : x.moved? output stamps batch moves = some last) :
    ∀ e ∈ last.finished, EndedIn x output stamps batch moves e := by
  refine @movedAlong x output stamps
    (fun later => ∀ e ∈ later.finished, EndedIn x output stamps batch moves e) batch last moves
    ?_ (by simp [fresh]) done
  intro earlier middle next front reached before stepped
  cases stepped with
  | started pending room => exact before
  | reached found run => exact before
  | @ended place task phase result after asked found run =>
    intro e inside
    rcases List.mem_append.mp inside with old | new
    · exact before e old
    · rw [List.mem_singleton.mp new]
      exact ⟨earlier, middle, place, phase, after, asked, front, reached, found, run⟩

theorem onlyOne {α : Type} {items : List α} {place : Nat} {item : α} (alone : items.length ≤ 1)
    (found : items[place]? = some item) : items = [item] ∧ place = 0 := by
  obtain ⟨inside, same⟩ := List.getElem?_eq_some_iff.mp found
  have first : place = 0 := by omega
  subst first
  obtain ⟨only, single⟩ := List.length_eq_one_iff.mp (show items.length = 1 by omega)
  subst single
  exact ⟨by rw [← same]; rfl, rfl⟩

structure InOrder (tasks : List Task) (batch : Batch) : Prop where
  alone : batch.inFlight.length ≤ 1
  order : batch.finished.map Prod.fst ++ (batch.inFlight.map Prod.fst ++ batch.pending) = tasks

theorem InOrder.stepped {tasks : List Task} {next : Batch} (single : x.atOnce = 1)
    (ordered : InOrder tasks batch) (stepped : Stepped x output stamps batch next) :
    InOrder tasks next := by
  obtain ⟨alone, order⟩ := ordered
  cases stepped with
  | @started task rest pending room =>
    have idle : batch.inFlight = [] := List.eq_nil_of_length_eq_zero (by omega)
    exact ⟨by simp [idle], by simpa [idle, pending] using order⟩
  | @reached place task phase next after asked found run =>
    obtain ⟨only, rfl⟩ := onlyOne alone found
    exact ⟨by simp [only], by simpa [only] using order⟩
  | @ended place task phase result after asked found run =>
    obtain ⟨only, rfl⟩ := onlyOne alone found
    exact ⟨by simp [only], by simpa [only] using order⟩

structure Accounts (x : Extractor) (output : String) (stamps : Nat → Stamp)
    (repositories : List String) (fs : FileSystem) (moves : List Move) (batch : Batch) : Prop where
  positions : (Batch.tasks repositories).map Task.position = List.range repositories.length
  listed : (Batch.tasks repositories).map Task.repository = repositories
  few : batch.inFlight.length ≤ max x.config.workers 1
  waiting : batch.pending = (Batch.tasks repositories).drop (moves.count .start)
  started : (batch.inFlight.map Prod.fst ++ batch.finished.map Prod.fst).Perm
    ((Batch.tasks repositories).take (moves.count .start))
  short : moves.length ≤ 5 * repositories.length
  goesOn : batch.pending ≠ [] ∨ batch.inFlight ≠ [] →
    ∃ move, (x.step? output stamps batch move).isSome = true
  own : ∀ e ∈ batch.finished,
    EndedIn x output stamps (.ofRepositories repositories fs) moves e
  written : batch.report.written = batch.finished.filterMap fun e => Batch.writtenPath? e.2
  skipped : batch.report.skipped = batch.finished.filterMap fun e => Batch.skippedPath? e.2
  empty : batch.report.empty = batch.finished.filterMap Batch.emptied?
  failed : batch.report.failed = batch.finished.filterMap Batch.failed?
  total : batch.report.total = batch.finished.length
  apart : ∀ front e back, batch.finished = front ++ e :: back → batch.report =
    (Batch.reportOf front).joined ((Batch.reportOf [e]).joined (Batch.reportOf back))
  inOrder : x.config.workers ≤ 1 → batch.finished.map Prod.fst <+: Batch.tasks repositories

theorem accounts {repositories : List String} {fs : FileSystem}
    (run : x.moved? output stamps (.ofRepositories repositories fs) moves = some batch) :
    Accounts x output stamps repositories fs moves batch := by
  obtain ⟨waiting, less⟩ := movesCounted run
  have accounted := accountedRun run
  have lists := batch.reportLists
  refine {
    positions := Batch.tasksPositions repositories
    listed := Batch.tasksRepositories repositories
    few := ?_
    waiting := waiting
    started := ?_
    short := ?_
    goesOn := ?_
    own := resultsOwn rfl run
    written := by rw [lists]
    skipped := by rw [lists]
    empty := by rw [lists]
    failed := by rw [lists]
    total := Batch.reportTotal batch.finished
    apart := ?_
    inOrder := ?_ }
  · exact @moved x output stamps (fun later => later.inFlight.length ≤ x.atOnce)
      (fun _ _ few stepped => stepped.within few) _ _ _ (Nat.zero_le _) run
  · have split := List.take_append_drop (moves.count .start) (Batch.tasks repositories)
    rw [← split, Batch.all, waiting] at accounted
    exact (List.perm_append_left_iff _).mp (accounted.trans List.perm_append_comm)
  · rw [Batch.remainingAtFirst] at less
    omega
  · intro unfinished
    obtain ⟨move, _, taken⟩ := turnTaken x output stamps unfinished
    exact ⟨move, taken⟩
  · intro front e back same
    rw [← Batch.reportJoined, ← Batch.reportJoined]
    simp only [Batch.report, Batch.reportOf, same, List.singleton_append]
  · intro single
    have one : x.atOnce = 1 := by
      simp only [atOnce]
      omega
    have first : InOrder (Batch.tasks repositories) (.ofRepositories repositories fs) :=
      ⟨Nat.zero_le 1, by simp [Batch.ofRepositories]⟩
    have ordered := moved (fun _ _ ordered stepped => ordered.stepped one stepped) first run
    exact ⟨_, ordered.order⟩

def failureLine? (e : Task × Except Failure Outcome) : Option String :=
  match e.2 with
  | .error failure => some (Text.trimEnd e.1.repository ++ ": " ++ failure.message ++ "\n")
  | .ok _ => none

structure Told (batch : Batch) (finish : CommandLine.Finish) : Prop where
  fails : finish.exit = 1 ↔ ∃ e ∈ batch.finished, ∃ failure, e.2 = .error failure
  succeeds : finish.exit = 0 ↔ ∀ e ∈ batch.finished, ∃ outcome, e.2 = .ok outcome
  named : finish.exit = 1 → finish.err = String.join (batch.finished.filterMap failureLine?) ++
    ("Error: " ++ (toString (batch.finished.filterMap failureLine?).length ++ " of " ++
      toString batch.finished.length ++ " repositories failed") ++ "\n")
  quiet : finish.exit = 0 → finish.err = ""

theorem failureLines (batch : Batch) : batch.report.failed.map (fun (repository, reason) =>
    Text.trimEnd repository ++ ": " ++ reason ++ "\n") = batch.finished.filterMap failureLine? := by
  rw [batch.reportLists, List.map_filterMap]
  congr 1
  funext e
  obtain ⟨task, failure | outcome⟩ := e
  · rfl
  · cases outcome <;> rfl

theorem noFailures (batch : Batch) : batch.report.hasFailures = false ↔
    ∀ e ∈ batch.finished, ∃ outcome, e.2 = .ok outcome := by
  have each : ∀ e, Batch.failed? e = none ↔ ∃ outcome, e.2 = .ok outcome := by
    rintro ⟨task, failure | outcome⟩
    · simp [Batch.failed?]
    · cases outcome <;> simp [Batch.failed?]
  rw [Report.hasFailures, Bool.not_eq_false', List.isEmpty_iff, batch.reportLists,
    List.filterMap_eq_nil_iff]
  simp only [each]

theorem someFailure (batch : Batch) : batch.report.hasFailures = true ↔
    ∃ e ∈ batch.finished, ∃ failure, e.2 = .error failure := by
  rw [← Bool.not_eq_false, noFailures]
  simp only [not_forall, exists_prop]
  refine exists_congr fun e => and_congr_right fun _ => ?_
  obtain ⟨task, failure | outcome⟩ := e <;> simp

theorem finishQuiet (endpoint : String) (batch : Batch) (clean : batch.report.hasFailures = false) :
    CommandLine.batchFinish endpoint ⟨batch.report, batch.files, batch.requests⟩ =
      ⟨0, "", "", batch.files, batch.requests.filterMap (Service.post? endpoint)⟩ := by
  simp [CommandLine.batchFinish, clean]

theorem finishFailed (endpoint : String) (batch : Batch) (failures : batch.report.hasFailures = true) :
    CommandLine.batchFinish endpoint ⟨batch.report, batch.files, batch.requests⟩ =
      ⟨1, "", String.join (batch.finished.filterMap failureLine?) ++
        ("Error: " ++ (toString (batch.finished.filterMap failureLine?).length ++ " of " ++
          toString batch.finished.length ++ " repositories failed") ++ "\n"), batch.files,
        batch.requests.filterMap (Service.post? endpoint)⟩ := by
  have total : batch.report.total = batch.finished.length := Batch.reportTotal batch.finished
  have lines := failureLines batch
  have count := congrArg List.length lines
  rw [List.length_map] at count
  simp only [CommandLine.batchFinish, failures, if_true, CommandLine.failedLines, lines, count, total,
    CommandLine.Trouble.report]

theorem batchTold (endpoint : String) (batch : Batch) : Told batch
    (CommandLine.batchFinish endpoint ⟨batch.report, batch.files, batch.requests⟩) := by
  have failing := someFailure batch
  have clean := noFailures batch
  cases failures : batch.report.hasFailures with
  | false =>
    rw [failures] at failing clean
    rw [finishQuiet endpoint batch failures]
    exact ⟨by simpa using failing, by simpa using clean, by simp, fun _ => rfl⟩
  | true =>
    rw [failures] at failing clean
    rw [finishFailed endpoint batch failures]
    exact ⟨by simpa using failing, by simpa using clean, fun _ => rfl, by simp⟩

theorem batchAccounted (x : Extractor) (output : String) (stamps : Nat → Stamp)
    (repositories : List String) (fs : FileSystem) :
    (∀ moves batch, x.moved? output stamps (.ofRepositories repositories fs) moves = some batch →
      Accounts x output stamps repositories fs moves batch ∧
      (batch.pending = [] → batch.inFlight = [] →
        (batch.finished.map Prod.fst).Perm (Batch.tasks repositories) ∧
        batch.report.total = repositories.length ∧
        (x.config.workers ≤ 1 → batch.finished.map Prod.fst = Batch.tasks repositories)) ∧
      ∀ endpoint, Told batch
        (CommandLine.batchFinish endpoint ⟨batch.report, batch.files, batch.requests⟩)) ∧
    ∀ host : CommandLine.Host, host.stamps = stamps → ∃ moves batch,
      x.moved? output stamps (.ofRepositories repositories fs) moves = some batch ∧
      batch.pending = [] ∧ batch.inFlight = [] ∧
      CommandLine.extractMany host x repositories output fs = CommandLine.batchFinish
        x.config.endpoint ⟨batch.report, batch.files, batch.requests⟩ := by
  refine ⟨?_, ?_⟩
  · intro moves batch run
    have accounts := accounts run
    refine ⟨accounts, ?_, fun endpoint => batchTold endpoint batch⟩
    intro started idle
    have all : (Batch.tasks repositories).take (moves.count .start) = Batch.tasks repositories := by
      have rest := accounts.waiting
      rw [started] at rest
      exact List.take_of_length_le (List.drop_eq_nil_iff.mp rest.symm)
    have every : (batch.finished.map Prod.fst).Perm (Batch.tasks repositories) := by
      simpa [idle, all] using accounts.started
    have count := every.length_eq
    have size := congrArg List.length accounts.listed
    rw [List.length_map] at count size
    refine ⟨every, by rw [accounts.total, count, size], ?_⟩
    intro single
    exact (accounts.inOrder single).eq_of_length (by rw [List.length_map, count])
  · rintro host rfl
    obtain ⟨moves, batch, run, started, idle, same⟩ :=
      batchMoved x repositories output host.stamps fs
    exact ⟨moves, batch, run, started, idle, by rw [CommandLine.extractMany, same]⟩

end

def emptyRoot : FileSystem := ⟨[(["b"], .directory)], [], []⟩

def rootExtractor : Extractor := .new {} fun _ => .tree (.leaf "module")

def rootStamps (_ : Nat) : Stamp := ⟨.ofEpoch 0 0, .zero, "0"⟩

def rootMoves : List Move :=
  [.start, .advance 0, .advance 0, .start, .advance 0, .advance 0, .advance 0]

theorem emptyRootAccounted : ∃ last,
    rootExtractor.moved? "o" rootStamps (.ofRepositories ["a", "b"] emptyRoot) rootMoves =
      some last ∧ last.report.empty = ["b"] ∧ last.report.total = 2 ∧
    (CommandLine.batchFinish "" ⟨last.report, last.files, last.requests⟩).exit = 1 := by
  have ends : (rootExtractor.moved? "o" rootStamps (.ofRepositories ["a", "b"] emptyRoot)
      rootMoves).map (fun last => (last.pending.length, last.inFlight.length, last.report)) =
      some (0, 0, { empty := ["b"], failed :=
        [("a", "File selection error: Repository root not found: a")] }) := by decide +kernel
  obtain ⟨last, run, held⟩ := Option.map_eq_some_iff.mp ends
  simp only [Prod.mk.injEq, List.length_eq_zero_iff] at held
  obtain ⟨started, idle, report⟩ := held
  obtain ⟨_, ended, told⟩ :=
    (batchAccounted rootExtractor "o" rootStamps ["a", "b"] emptyRoot).1 rootMoves last run
  have failing := (someFailure last).mp (by rw [report]; rfl)
  exact ⟨last, run, by rw [report], (ended started idle).2.1, (told "").fails.mpr failing⟩

end Extractor

end SourceModels

import SourceModels.Proofs.Batch.Files
import SourceModels.Proofs.FileSystem.Severed

/-! Running a batch again. What is at a destination when a run begins is left alone, so that a second
run skips what the first has written or skipped; only a model that takes the place of a link can be
in the way of another one. -/
namespace SourceModels
open FileSystem

structure ModelsAdded (repositories : List String) (before after : FileSystem) : Prop where
  grows : Grows before after
  links : ∀ place target, after.content? place = some (.link target) →
    before.content? place = some (.link target)
  others : ∀ place content, before.content? place = some content →
    after.content? place = some content ∨ ∃ repository ∈ repositories,
      place.head? = some (Identifier.modelFileName (Identifier.key repository))

namespace ModelsAdded

variable {repositories : List String} {before middle after : FileSystem} {repository path : String}

theorem refl (repositories : List String) (fs : FileSystem) : ModelsAdded repositories fs fs :=
  ⟨.refl fs, fun _ _ held => held, fun _ _ held => .inl held⟩

theorem trans (earlier : ModelsAdded repositories before middle)
    (later : ModelsAdded repositories middle after) : ModelsAdded repositories before after where
  grows := earlier.grows.trans later.grows
  links := fun place target held => earlier.links place target (later.links place target held)
  others := by
    intro place content held
    rcases earlier.others place content held with kept | named
    · exact later.others place content kept
    · exact .inr named

theorem made (added : DirectoriesAdded before after path) :
    ModelsAdded repositories before after where
  grows := added.grows
  links := fun _ _ held => added.linked held
  others := fun place content held => .inl (added.kept place content held)

theorem replaced {target : Location} {data : Bytes}
    (done : Store.ReplacedAt before after path target data) (inside : repository ∈ repositories)
    (named : (names path).getLast? = some (Identifier.modelFileName (Identifier.key repository))) :
    ModelsAdded repositories before after where
  grows := done.replaced.grows done.replaceable
  links := by
    intro place link held
    have other : place ≠ target := by
      rintro rfl
      rw [done.replaced.held] at held
      cases held
    rw [← done.replaced.others place other, held]
  others := by
    intro place content held
    by_cases same : place = target
    · exact .inr ⟨repository, inside, by rw [same, namedLast done.named, named]⟩
    · exact .inl (by rw [done.replaced.others place same, held])

end ModelsAdded

def Stays (before now : FileSystem) (path : String) : Prop :=
  ∀ later, Grows now later → later.tryExists path = .ok true ∨ Severed before later path

theorem Stays.later {before now after : FileSystem} {path : String} (stays : Stays before now path)
    (grows : Grows now after) : Stays before after path :=
  fun later further => stays later (grows.trans further)

theorem Stays.since {repositories : List String} {before middle now : FileSystem} {path : String}
    (stays : Stays middle now path) (adds : ModelsAdded repositories before middle) :
    Stays before now path :=
  fun later grows => (stays later grows).imp_right fun severed => severed.since adds.links

theorem Stays.present {before now : FileSystem} {path : String} (stays : Stays before now path) :
    ¬ now.Lacks path := by
  intro lacks
  rcases stays now (.refl now) with there | severed
  · rw [lacks] at there
    cases there
  · have stopped := severed.1
    rw [lacks] at stopped
    cases stopped

structure CutOff (repositories : List String) (before after : FileSystem) (path : String) :
    Prop where
  stopped : after.tryExists path = .error .notDirectory
  through : ∃ place ∈ after.passed maxLinks (after.startOf path) (components path),
    ∃ repository ∈ repositories,
      place.head? = some (Identifier.modelFileName (Identifier.key repository)) ∧
      ∃ target data, before.content? place = some (.link target) ∧
        after.content? place = some (.file data)

theorem ModelsAdded.cutOff {repositories : List String} {before after : FileSystem} {path : String}
    (adds : ModelsAdded repositories before after) (severed : Severed before after path) :
    CutOff repositories before after path := by
  obtain ⟨stopped, place, inside, target, data, linked, file⟩ := severed
  refine ⟨stopped, place, inside, ?_⟩
  rcases adds.others place _ linked with kept | ⟨repository, member, named⟩
  · rw [file] at kept
    cases kept
  · exact ⟨repository, member, named, target, data, linked, file⟩

namespace Outcome

def Stands (result : Except Failure Outcome) (path : String) : Prop :=
  (∃ count, result = .ok (.written path count)) ∨ result = .ok (.skipped path)

theorem failedStands (failure : Failure) (path : String) : ¬ Stands (.error failure) path := by
  simp [Stands]

theorem skippedStands (path other : String) : Stands (.ok (.skipped path)) other ↔ other = path := by
  simp [Stands, eq_comm]

end Outcome

namespace Extractor

section
variable {x : Extractor} {disk : Disk} {output : String} {stamps : Nat → Stamp} {tasks : List Task}
  {batch next : Batch} {repositories : List String}

theorem AllOrNothing.addsModels {before : FileSystem} {destination repository : String}
    {run : Run (Except Failure Outcome)} (done : AllOrNothing before destination run)
    (inside : repository ∈ repositories) (named : (names destination).getLast? =
      some (Identifier.modelFileName (Identifier.key repository))) :
    ModelsAdded repositories before run.files ∧
      ∀ path count, run.result = .ok (.written path count) →
        path = destination ∧ Stays before run.files destination := by
  rcases done.either with ⟨count, made, target, data, written, added, replaced⟩ | ⟨unwritten, added⟩
  · have first := @ModelsAdded.made repositories _ _ _ added
    have stays : Stays made run.files destination := fun later grows => replaced.present grows
    refine ⟨first.trans (.replaced replaced inside named), fun path count' written' => ?_⟩
    cases written.symm.trans written'
    exact ⟨rfl, stays.since first⟩
  · exact ⟨.made added, fun path count written => absurd written (unwritten path count)⟩

theorem takenExists {destination : String} {fs : FileSystem}
    (taken : x.isTaken destination fs = .ok true) : fs.tryExists destination = .ok true := by
  rw [isTaken] at taken
  split at taken
  · cases taken
  · cases known : fs.tryExists destination with
    | error fault => simp [known, Except.mapError] at taken
    | ok there => simpa [known, Except.mapError] using taken

theorem advanceAdds (container : x.writer = Store.writer disk) (quiet : x.detector.Quiet) {task : Task}
    (inside : task.repository ∈ repositories) {phase : Phase} {progress : Progress}
    {fs after : FileSystem} {asked : List ParseRequest}
    (spare : Store.SpareToken fs (x.destination task.repository output)
      (stamps task.position).token)
    (run : x.advance output stamps task phase fs = ⟨progress, after, asked⟩) :
    ModelsAdded repositories fs after ∧ ∀ result path, progress = .ended result →
      Outcome.Stands result path →
      path = x.destination task.repository output ∧ Stays fs after path := by
  cases stores : phase.stores with
  | false =>
    obtain ⟨rfl, ends⟩ := earlyAdvanced quiet stores run
    refine ⟨.refl .., ?_⟩
    intro result path ended stands
    rcases ends _ ended with ⟨failure, rfl⟩ | ⟨rfl, taken⟩
    · exact absurd stands (Outcome.failedStands _ _)
    · rw [Outcome.skippedStands] at stands
      rw [stands]
      exact ⟨rfl, fun later grows => grows.present (takenExists taken)⟩
  | true =>
    rcases storingAdvanced container stores spare run with
      ⟨model, rfl, added⟩ | ⟨result, rfl, unskipped, whole⟩
    · exact ⟨.made added, by simp⟩
    have named : (names (x.destination task.repository output)).getLast? =
        some (Identifier.modelFileName (Identifier.key task.repository)) :=
      Identifier.destinationLast ..
    obtain ⟨adds, wrote⟩ := whole.addsModels inside named
    refine ⟨adds, ?_⟩
    intro ended path same stands
    cases same
    rcases stands with ⟨count, written⟩ | skipped
    · obtain ⟨rfl, stays⟩ := wrote path count written
      exact ⟨rfl, stays⟩
    · exact absurd skipped (unskipped path)

structure Standing (x : Extractor) (output : String) (repositories : List String)
    (fs : FileSystem) (batch : Batch) : Prop where
  adds : ModelsAdded repositories fs batch.files
  stands : ∀ e ∈ batch.finished, ∀ path, Outcome.Stands e.2 path →
    path = x.destination e.1.repository output ∧ Stays fs batch.files path

theorem Standing.advanced {fs : FileSystem} (standing : Standing x output repositories fs batch)
    (container : x.writer = Store.writer disk) (quiet : x.detector.Quiet)
    (sound : Sound x output stamps (Batch.tasks repositories) batch) {place : Nat} {task : Task}
    {phase : Phase} {progress : Progress} {after : FileSystem} {asked : List ParseRequest}
    (found : batch.inFlight[place]? = some (task, phase))
    (run : x.advance output stamps task phase batch.files = ⟨progress, after, asked⟩) :
    ModelsAdded repositories batch.files after ∧ ∀ result path, progress = .ended result →
      Outcome.Stands result path →
      path = x.destination task.repository output ∧ Stays fs after path := by
  have inside := Batch.tasksInside (flyingInside sound.accounted found)
  obtain ⟨adds, stands⟩ := advanceAdds container quiet inside (sound.spareFor found) run
  refine ⟨adds, fun result path ended stood => ?_⟩
  obtain ⟨same, stays⟩ := stands result path ended stood
  exact ⟨same, stays.since standing.adds⟩

theorem Standing.stepped {fs : FileSystem} (standing : Standing x output repositories fs batch)
    (container : x.writer = Store.writer disk) (quiet : x.detector.Quiet)
    (sound : Sound x output stamps (Batch.tasks repositories) batch)
    (stepped : Stepped x output stamps batch next) : Standing x output repositories fs next := by
  cases stepped with
  | started pending room => exact ⟨standing.adds, standing.stands⟩
  | reached found run =>
    obtain ⟨adds, _⟩ := standing.advanced container quiet sound found run
    refine ⟨standing.adds.trans adds, fun e inside path stands => ?_⟩
    obtain ⟨same, stays⟩ := standing.stands e inside path stands
    exact ⟨same, stays.later adds.grows⟩
  | @ended place task phase result after asked found run =>
    obtain ⟨adds, ended⟩ := standing.advanced container quiet sound found run
    refine ⟨standing.adds.trans adds, fun e inside path stands => ?_⟩
    rcases List.mem_append.mp inside with old | new
    · obtain ⟨same, stays⟩ := standing.stands e old path stands
      exact ⟨same, stays.later adds.grows⟩
    · rw [List.mem_singleton.mp new] at stands ⊢
      exact ended result path rfl stands

theorem standingRun (container : x.writer = Store.writer disk) (quiet : x.detector.Quiet)
    {fs : FileSystem} (sound : Sound x output stamps (Batch.tasks repositories)
      (.ofRepositories repositories fs)) {moves : List Move} {last : Batch}
    (run : x.moved? output stamps (.ofRepositories repositories fs) moves = some last) :
    Standing x output repositories fs last := by
  refine (sound.movedAlong container quiet ?_ ⟨.refl .., by simp [Batch.ofRepositories]⟩ run).2
  intro earlier middle next _ _ sound standing stepped
  exact standing.stepped container quiet sound stepped

structure LeavesAlone (x : Extractor) (output : String) (stamps : Nat → Stamp)
    (repository : String) (first last : Batch) : Prop where
  left : Left x output repository first last
  silent : ∀ moves middle place task phase next,
    x.moved? output stamps first moves = some middle →
    middle.inFlight[place]? = some (task, phase) →
    x.destination task.repository output = x.destination repository output →
    x.step? output stamps middle (.advance place) = some next →
    next.files = middle.files ∧ next.requests = middle.requests

theorem Guarded.silent {repository : String} (guarded : Guarded x output repository batch)
    {place : Nat} {task : Task} {phase : Phase}
    (found : batch.inFlight[place]? = some (task, phase))
    (same : x.destination task.repository output = x.destination repository output)
    (step : x.step? output stamps batch (.advance place) = some next) :
    next.files = batch.files ∧ next.requests = batch.requests := by
  have unclaimed := guarded.unclaimed (task, phase) (List.mem_of_getElem? found)
  cases phase with
  | cleared => exact absurd same (unclaimed rfl)
  | gathered draft => exact absurd same (unclaimed rfl)
  | prepared model => exact absurd same (unclaimed rfl)
  | waiting =>
    cases run : x.advance output stamps task .waiting batch.files with
    | mk progress after asked =>
      obtain ⟨rfl, rfl, _⟩ := waitingAdvanced run
      simp only [step?, found, run] at step
      cases progress with
      | reached phase =>
        rw [← Option.some.inj step]
        exact ⟨rfl, List.append_nil _⟩
      | ended result =>
        rw [← Option.some.inj step]
        exact ⟨rfl, List.append_nil _⟩

theorem guardedFirst {repository : String} {fs : FileSystem}
    (present : ¬ fs.Lacks (x.destination repository output)) :
    Guarded x output repository (.ofRepositories repositories fs) :=
  ⟨present, by simp [Batch.ofRepositories]⟩

theorem leavesAlone {repository : String} (keeps : x.config.overwrite = false)
    (container : x.writer = Store.writer disk) (quiet : x.detector.Quiet) {fs : FileSystem}
    (sound : Sound x output stamps (Batch.tasks repositories) (.ofRepositories repositories fs))
    (present : ¬ fs.Lacks (x.destination repository output)) {moves : List Move} {last : Batch}
    (run : x.moved? output stamps (.ofRepositories repositories fs) moves = some last) :
    LeavesAlone x output stamps repository (.ofRepositories repositories fs) last := by
  have first : Guarded x output repository (.ofRepositories repositories fs) :=
    guardedFirst present
  refine ⟨(first.moved keeps container quiet sound run).2, ?_⟩
  intro earlier middle place task phase next reached found same step
  exact (first.moved keeps container quiet sound reached).1.silent found same step

def SkipsOrStops (repositories : List String) (before first last : FileSystem) (path : String)
    (result : Except Failure Outcome) : Prop :=
  result = .ok (.skipped path) ∨ result = .error (.io .notDirectory) ∧
    ∃ files, Grows first files ∧ Grows files last ∧ CutOff repositories before files path

structure Again (x : Extractor) (output : String) (repositories : List String)
    (before first : FileSystem) (repository : String) (batch : Batch) : Prop where
  guarded : Guarded x output repository batch
  adds : ModelsAdded repositories first batch.files
  skips : ∀ e ∈ batch.finished, x.destination e.1.repository output =
    x.destination repository output →
    SkipsOrStops repositories before first batch.files (x.destination repository output) e.2

theorem SkipsOrStops.later {before first middle last : FileSystem} {path : String}
    {result : Except Failure Outcome}
    (skips : SkipsOrStops repositories before first middle path result)
    (grows : Grows middle last) : SkipsOrStops repositories before first last path result := by
  rcases skips with skipped | ⟨failed, files, earlier, later, cut⟩
  · exact .inl skipped
  · exact .inr ⟨failed, files, earlier, later.trans grows, cut⟩

theorem Again.ends {before first : FileSystem} {repository : String}
    (again : Again x output repositories before first repository batch)
    (keeps : x.config.overwrite = false) (earlier : ModelsAdded repositories before first)
    (stays : Stays before first (x.destination repository output)) {place : Nat} {task : Task}
    {phase : Phase} {result : Except Failure Outcome} {after : FileSystem}
    {asked : List ParseRequest} (found : batch.inFlight[place]? = some (task, phase))
    (run : x.advance output stamps task phase batch.files = ⟨.ended result, after, asked⟩)
    (same : x.destination task.repository output = x.destination repository output) :
    SkipsOrStops repositories before first after (x.destination repository output) result := by
  have unclaimed := again.guarded.unclaimed (task, phase) (List.mem_of_getElem? found)
  cases phase with
  | cleared => exact absurd same (unclaimed rfl)
  | gathered draft => exact absurd same (unclaimed rfl)
  | prepared model => exact absurd same (unclaimed rfl)
  | waiting =>
    obtain ⟨rfl, _, known⟩ := waitingAdvanced run
    rw [same, isTaken, keeps, if_neg (by decide)] at known
    rcases stays _ again.adds.grows with there | severed
    · rw [there] at known
      exact .inl (Progress.ended.inj known)
    · rw [severed.1] at known
      exact .inr ⟨Progress.ended.inj known, _, again.adds.grows, .refl _,
        (earlier.trans again.adds).cutOff severed⟩

theorem Again.stepped {before first : FileSystem} {repository : String}
    (again : Again x output repositories before first repository batch)
    (keeps : x.config.overwrite = false) (container : x.writer = Store.writer disk)
    (quiet : x.detector.Quiet) (earlier : ModelsAdded repositories before first)
    (stays : Stays before first (x.destination repository output))
    (sound : Sound x output stamps (Batch.tasks repositories) batch)
    (stepped : Stepped x output stamps batch next) :
    Again x output repositories before first repository next := by
  have guards := (again.guarded.stepped keeps container quiet sound stepped).1
  cases stepped with
  | started pending room => exact ⟨guards, again.adds, again.skips⟩
  | reached found run =>
    have inside := Batch.tasksInside (flyingInside sound.accounted found)
    obtain ⟨adds, _⟩ := advanceAdds container quiet inside (sound.spareFor found) run
    exact ⟨guards, again.adds.trans adds,
      fun e inside same => (again.skips e inside same).later adds.grows⟩
  | ended found run =>
    have inside := Batch.tasksInside (flyingInside sound.accounted found)
    obtain ⟨adds, _⟩ := advanceAdds container quiet inside (sound.spareFor found) run
    refine ⟨guards, again.adds.trans adds, fun e inside same => ?_⟩
    rcases List.mem_append.mp inside with old | new
    · exact (again.skips e old same).later adds.grows
    · rw [List.mem_singleton.mp new] at same ⊢
      exact again.ends keeps earlier stays found run same

theorem skipsAgain {before first : FileSystem} {repository : String}
    (keeps : x.config.overwrite = false) (container : x.writer = Store.writer disk)
    (quiet : x.detector.Quiet) (earlier : ModelsAdded repositories before first)
    (stays : Stays before first (x.destination repository output))
    (sound : Sound x output stamps (Batch.tasks repositories) (.ofRepositories repositories first))
    {moves : List Move} {last : Batch}
    (run : x.moved? output stamps (.ofRepositories repositories first) moves = some last) :
    Again x output repositories before first repository last := by
  refine (sound.movedAlong container quiet ?_
    ⟨guardedFirst stays.present, .refl .., by simp [Batch.ofRepositories]⟩ run).2
  intro _ middle next _ _ sound again stepped
  exact again.stepped keeps container quiet earlier stays sound stepped

theorem unknownEnds (keeps : x.config.overwrite = false) {task : Task} {files : FileSystem}
    {fault : Fault}
    (unknown : files.tryExists (x.destination task.repository output) = .error fault) :
    x.advance output stamps task .waiting files = ⟨.ended (.error (.io fault)), files, []⟩ := by
  have taken : x.isTaken (x.destination task.repository output) files = .error (.io fault) := by
    rw [isTaken, keeps, if_neg (by decide), unknown]
    rfl
  unfold advance
  dsimp only
  rw [taken]

structure Reran (x : Extractor) (output : String) (stamps : Nat → Stamp)
    (repositories : List String) (before : FileSystem) (first last : Batch) (task : Task)
    (path : String) : Prop where
  named : path = x.destination task.repository output
  alone : LeavesAlone x output stamps task.repository (.ofRepositories repositories first.files)
    last
  skips : ∀ e ∈ last.finished, x.destination e.1.repository output = path →
    SkipsOrStops repositories before first.files last.files path e.2
  ends : last.pending = [] → last.inFlight = [] → ∃ e ∈ last.finished, e.1 = task

/-- Without overwriting, a run leaves alone what is at a destination when it begins, and a stat that
fails lets the repository fail. So a second run skips whatever the first has written or skipped, in
whatever order they take their steps, except when the path to it runs through a link that a model
has replaced. -/
theorem rerunsSkip (keeps : x.config.overwrite = false) (container : x.writer = Store.writer disk)
    (quiet : x.detector.Quiet) {fs : FileSystem} (fresh : ∀ task ∈ Batch.tasks repositories,
      Store.FreshToken fs (x.destination task.repository output) (stamps task.position).token)
    {moves : List Move} {last : Batch}
    (run : x.moved? output stamps (.ofRepositories repositories fs) moves = some last) :
    (∀ repository, ¬ fs.Lacks (x.destination repository output) →
      LeavesAlone x output stamps repository (.ofRepositories repositories fs) last) ∧
    (∀ task files fault,
      files.tryExists (x.destination task.repository output) = .error fault →
      x.advance output stamps task .waiting files = ⟨.ended (.error (.io fault)), files, []⟩) ∧
    ∀ (y : Extractor) (disk' : Disk) (again : Nat → Stamp), y.config.overwrite = false →
      y.config.shardDepth = x.config.shardDepth → y.writer = Store.writer disk' →
      y.detector.Quiet →
      (∀ task ∈ Batch.tasks repositories, Store.FreshToken last.files
        (y.destination task.repository output) (again task.position).token) →
      ∀ moves' last',
        y.moved? output again (.ofRepositories repositories last.files) moves' = some last' →
        ∀ e ∈ last.finished, ∀ path, Outcome.Stands e.2 path →
          Reran y output again repositories fs last last' e.1 path := by
  have first := soundFirst fresh
  refine ⟨fun repository present => leavesAlone keeps container quiet first present run,
    fun task files fault unknown => unknownEnds keeps unknown, ?_⟩
  intro y disk' again keeps' depth container' quiet' fresh' moves' last' run' e inside path stands
  have standing := standingRun container quiet first run
  obtain ⟨named, stays⟩ := standing.stands e inside path stands
  have named : path = y.destination e.1.repository output := by
    rw [named, destination, destination, depth]
  subst named
  have second := soundFirst fresh'
  have skips := skipsAgain keeps' container' quiet' standing.adds stays second run'
  exact ⟨rfl, leavesAlone keeps' container' quiet' second stays.present run', skips.skips,
    fun started idle => finishesEach (accountedRun run') started idle
      (finishedInside (accountedRun run) inside)⟩

end

def plainFiles : FileSystem where
  entries := [(["r"], .directory), (["a.py", "r"], .file [0x61]), (["o"], .directory)]
  current := []

def firstExtractor : Extractor := .new {} fun _ => .tree (.leaf "module")

def secondExtractor : Extractor := .new { workers := 2 } fun _ => .tree (.leaf "other")

def firstStamps (_ : Nat) : Stamp := ⟨.ofEpoch 0 0, .zero, "0"⟩

def secondStamps (_ : Nat) : Stamp := ⟨.ofEpoch 1 0, .zero, "1"⟩

def firstMoved? : Option Batch :=
  firstExtractor.moved? "o" firstStamps (.ofRepositories ["r"] plainFiles)
    [.start, .advance 0, .advance 0, .advance 0, .advance 0]

def secondMoved? (first : Batch) : Option Batch :=
  secondExtractor.moved? "o" secondStamps (.ofRepositories ["r"] first.files) [.start, .advance 0]

theorem secondRunSkips : ∃ last last', firstMoved? = some last ∧ secondMoved? last = some last' ∧
    last.report.written = ["o/source_r.asdf"] ∧ ∃ e ∈ last'.finished, e.1 = ⟨0, "r"⟩ ∧
      SkipsOrStops ["r"] plainFiles last.files last'.files "o/source_r.asdf" e.2 := by
  have first : firstMoved?.map (fun last => (last.files.entries.map (·.1.head?),
      last.finished.map fun e => (e.1, Batch.writtenPath? e.2))) =
      some ([some "source_r.asdf", some "r", some "a.py", some "o"],
        [(⟨0, "r"⟩, some "o/source_r.asdf")]) := by decide +kernel
  have second : (firstMoved?.bind secondMoved?).map (fun last =>
      (last.pending.length, last.inFlight.length)) = some (0, 0) := by decide +kernel
  obtain ⟨last, run, held⟩ := Option.map_eq_some_iff.mp first
  obtain ⟨last', both, done⟩ := Option.map_eq_some_iff.mp second
  rw [run, Option.bind_some] at both
  simp only [Prod.mk.injEq, List.length_eq_zero_iff] at held done
  obtain ⟨heads, results⟩ := held
  obtain ⟨e, finished, same⟩ := List.map_eq_singleton_iff.mp results
  simp only [Prod.mk.injEq] at same
  obtain ⟨count, written⟩ := Batch.writtenBy same.2
  have fresh : ∀ task ∈ Batch.tasks ["r"], Store.FreshToken plainFiles
      (firstExtractor.destination task.repository "o") (firstStamps task.position).token := by
    intro task inside
    rw [List.mem_singleton.mp inside]
    exact ⟨by decide, by decide⟩
  have fresh' : ∀ task ∈ Batch.tasks ["r"], Store.FreshToken last.files
      (secondExtractor.destination task.repository "o") (secondStamps task.position).token := by
    intro task inside
    rw [List.mem_singleton.mp inside]
    refine ⟨by decide, fun entry listed named => ?_⟩
    have head := List.mem_map_of_mem (f := fun e : Location × Content => e.1.head?) listed
    rw [heads, named] at head
    exact absurd head (by decide)
  obtain ⟨_, _, again⟩ := rerunsSkip rfl rfl (fun _ _ _ => rfl) fresh run
  have reran := again secondExtractor .sound secondStamps rfl rfl rfl (fun _ _ _ => rfl) fresh' _ last'
    both e (by simp [finished]) "o/source_r.asdf" (.inl ⟨count, written⟩)
  obtain ⟨e', inside, task⟩ := reran.ends done.1 done.2
  refine ⟨last, last', run, both, ?_, e', inside, task.trans same.1, reran.skips e' inside ?_⟩
  · rw [Batch.reportWritten, finished]
    simp [same.2]
  · rw [task, same.1]
    decide

def linkAhead : FileSystem where
  entries := [(["r"], .directory), (["a.py", "r"], .file [0x61]), (["source_r.asdf"], .link "a")]
  current := []

def linkedRuns : Report × Report :=
  let output := "a/../source_r.asdf/.."
  let first := firstExtractor.batch ["r"] output firstStamps linkAhead
  (first.result, (firstExtractor.batch ["r"] output secondStamps first.files).result)

theorem linkedRerunFails : firstExtractor.config.overwrite = false ∧ linkedRuns =
    ({ written := ["a/../source_r.asdf/../source_r.asdf"] },
      { failed := [("r", "IO error: Not a directory (os error 20)")] }) :=
  ⟨rfl, by decide +kernel⟩

end Extractor

end SourceModels

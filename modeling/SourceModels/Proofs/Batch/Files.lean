import SourceModels.Proofs.Batch.Steps
import SourceModels.Proofs.Identifier.Containment

/-! What the steps of a batch do to the files: each task touches its own destination alone, and
where something is at a destination and no task is on its way to write there, it stays. -/
namespace SourceModels
open FileSystem

namespace Identifier

theorem destinationLast (identifier root : String) (depth : Nat) :
    (FileSystem.names (destination identifier root depth)).getLast? =
      some (modelFileName (key identifier)) := by
  rw [(destinationNames identifier root depth).1, List.getLast?_concat]

theorem fileNameKey {a b : String} (same : modelFileName a = modelFileName b) : a = b := by
  simpa [modelFileName, ← String.toList_inj] using same

theorem stagingUnlike (path token key : String) :
    Store.stagingName path token ≠ modelFileName key := by
  intro same
  have first := congrArg (fun name => name.toList.head?) same
  simp [Store.stagingName, modelFileName] at first

end Identifier

namespace Extractor

theorem fileNameOf {x : Extractor} {a b output : String}
    (other : x.destination a output ≠ x.destination b output) :
    Identifier.modelFileName (Identifier.key a) ≠ Identifier.modelFileName (Identifier.key b) := by
  intro same
  refine other ?_
  simp only [destination, Identifier.destination, Identifier.fileNameKey same]

theorem AllOrNothing.touches {before : FileSystem} {destination : String}
    {run : Run (Except Failure Outcome)} (done : AllOrNothing before destination run) :
    before.Touches run.files destination ∧
      ∀ path count, run.result = .ok (.written path count) →
        path = destination ∧ ¬ run.files.Lacks destination := by
  rcases done.either with ⟨count, made, target, data, written, added, replaced⟩ | ⟨unwritten, added⟩
  · refine ⟨added.touchesReplaced replaced, fun path count' written' => ?_⟩
    cases written.symm.trans written'
    exact ⟨rfl, replacedPresent replaced⟩
  · exact ⟨added.touches, fun path count written => absurd written (unwritten path count)⟩

section
variable {x : Extractor} {disk : Disk} {output : String} {stamps : Nat → Stamp}

theorem advanceTouches (container : x.writer = Store.writer disk) (quiet : x.detector.Quiet)
    {task : Task} {phase : Phase} {progress : Progress} {fs after : FileSystem}
    {asked : List ParseRequest}
    (spare : Store.SpareToken fs (x.destination task.repository output)
      (stamps task.position).token)
    (run : x.advance output stamps task phase fs = ⟨progress, after, asked⟩) :
    fs.Touches after (x.destination task.repository output) ∧
      ∀ path count, progress = .ended (.ok (.written path count)) → phase.pastCheck = true ∧
        path = x.destination task.repository output ∧ ¬ after.Lacks path := by
  cases stores : phase.stores with
  | true =>
    rcases storingAdvanced container stores spare run with
      ⟨model, rfl, added⟩ | ⟨result, rfl, _, whole⟩
    · exact ⟨added.touches, by simp⟩
    · obtain ⟨touches, wrote⟩ := whole.touches
      refine ⟨touches, ?_⟩
      intro path count written
      simp only [Progress.ended.injEq] at written
      obtain ⟨rfl, present⟩ := wrote path count written
      exact ⟨phase.storesPast stores, rfl, present⟩
  | false =>
    obtain ⟨rfl, ends⟩ := earlyAdvanced quiet stores run
    refine ⟨.refl .., ?_⟩
    intro path count written
    rcases ends _ written with ⟨_, failed⟩ | ⟨skipped, _⟩
    · cases failed
    · cases skipped

theorem clearedLacks (keeps : x.config.overwrite = false) {destination : String} {fs : FileSystem}
    (free : x.isTaken destination fs = .ok false) : fs.Lacks destination := by
  rw [isTaken, keeps, if_neg (by decide)] at free
  unfold Lacks
  cases known : fs.tryExists destination with
  | error fault => simp [known, Except.mapError] at free
  | ok there => simpa [known, Except.mapError] using free

theorem takenPresent (keeps : x.config.overwrite = false) {destination : String} {fs : FileSystem}
    (present : ¬ fs.Lacks destination) : x.isTaken destination fs = .ok true ∨
      ∃ fault, x.isTaken destination fs = .error (.io fault) := by
  rw [isTaken, keeps, if_neg (by decide)]
  unfold Lacks at present
  cases known : fs.tryExists destination with
  | error fault => exact .inr ⟨fault, rfl⟩
  | ok there =>
    cases there with
    | true => exact .inl rfl
    | false => exact absurd known present

structure Sound (x : Extractor) (output : String) (stamps : Nat → Stamp) (tasks : List Task)
    (batch : Batch) : Prop where
  accounted : batch.all.Perm tasks
  spare : ∀ task ∈ tasks, Store.SpareToken batch.files (x.destination task.repository output)
    (stamps task.position).token

variable {tasks : List Task} {batch next : Batch}

theorem soundFirst {repositories : List String} {fs : FileSystem}
    (fresh : ∀ task ∈ Batch.tasks repositories,
      Store.FreshToken fs (x.destination task.repository output) (stamps task.position).token) :
    Sound x output stamps (Batch.tasks repositories) (.ofRepositories repositories fs) :=
  ⟨by rw [Batch.allAtFirst], fun task inside => (fresh task inside).spare⟩

theorem Sound.spareFor (sound : Sound x output stamps tasks batch) {place : Nat} {task : Task}
    {phase : Phase} (found : batch.inFlight[place]? = some (task, phase)) :
    Store.SpareToken batch.files (x.destination task.repository output)
      (stamps task.position).token :=
  sound.spare task (flyingInside sound.accounted found)

theorem Sound.touched (sound : Sound x output stamps tasks batch) {after : FileSystem}
    {repository : String} (touches : batch.files.Touches after (x.destination repository output)) :
    ∀ task ∈ tasks, Store.SpareToken after (x.destination task.repository output)
      (stamps task.position).token := by
  intro task inside
  obtain ⟨plain, noFile⟩ := sound.spare task inside
  refine ⟨plain, noFile.touched touches ?_⟩
  rw [destination, Identifier.destinationLast]
  intro same
  exact Identifier.stagingUnlike _ _ _ (Option.some.inj same).symm

theorem Sound.stepped (container : x.writer = Store.writer disk) (quiet : x.detector.Quiet)
    (sound : Sound x output stamps tasks batch) (stepped : Stepped x output stamps batch next) :
    Sound x output stamps tasks next := by
  refine ⟨stepped.accounted.trans sound.accounted, ?_⟩
  cases stepped with
  | started pending room => exact sound.spare
  | reached found run =>
    exact sound.touched (advanceTouches container quiet (sound.spareFor found) run).1
  | ended found run =>
    exact sound.touched (advanceTouches container quiet (sound.spareFor found) run).1

theorem Sound.movedAlong {Kept : Batch → Prop} (container : x.writer = Store.writer disk)
    (quiet : x.detector.Quiet) (sound : Sound x output stamps tasks batch) {last : Batch}
    {moves : List Move}
    (step : ∀ earlier middle next, earlier <+: moves →
      x.moved? output stamps batch earlier = some middle → Sound x output stamps tasks middle →
      Kept middle → Stepped x output stamps middle next → Kept next)
    (holds : Kept batch) (done : x.moved? output stamps batch moves = some last) :
    Sound x output stamps tasks last ∧ Kept last := by
  refine @Extractor.movedAlong x output stamps
    (fun later => Sound x output stamps tasks later ∧ Kept later) batch last moves ?_
    ⟨sound, holds⟩ done
  rintro earlier middle next front reached ⟨sound, kept⟩ stepped
  exact ⟨sound.stepped container quiet stepped,
    step earlier middle next front reached sound kept stepped⟩

structure Guarded (x : Extractor) (output repository : String) (batch : Batch) : Prop where
  present : ¬ batch.files.Lacks (x.destination repository output)
  unclaimed : ∀ e ∈ batch.inFlight, e.2.pastCheck = true →
    x.destination e.1.repository output ≠ x.destination repository output

structure Left (x : Extractor) (output repository : String) (before after : Batch) : Prop where
  entries : ∀ location content,
    location.head? = some (Identifier.modelFileName (Identifier.key repository)) →
    before.files.content? location = some content → after.files.content? location = some content
  results : ∃ later, after.finished = before.finished ++ later ∧ ∀ e ∈ later,
    x.destination e.1.repository output = x.destination repository output →
      e.2 = .ok (.skipped (x.destination repository output)) ∨ ∃ fault, e.2 = .error (.io fault)

variable {repository : String}

theorem Left.refl (batch : Batch) : Left x output repository batch batch :=
  ⟨fun _ _ _ held => held, [], by simp, by simp⟩

theorem Left.trans {first middle last : Batch} (earlier : Left x output repository first middle)
    (later : Left x output repository middle last) : Left x output repository first last := by
  obtain ⟨front, finished, before⟩ := earlier.results
  obtain ⟨back, ended, after⟩ := later.results
  refine ⟨fun location content named held =>
    later.entries location content named (earlier.entries location content named held),
    front ++ back, by rw [ended, finished, List.append_assoc], ?_⟩
  intro e inside
  rcases List.mem_append.mp inside with old | new
  · exact before e old
  · exact after e new

theorem touchedElsewhere {fs after : FileSystem} {other : String}
    (touches : fs.Touches after (x.destination other output))
    (different : x.destination other output ≠ x.destination repository output)
    {location : Location} {content : Content}
    (named : location.head? = some (Identifier.modelFileName (Identifier.key repository)))
    (held : fs.content? location = some content) : after.content? location = some content := by
  refine touches.kept location content held ?_
  rw [destination, Identifier.destinationLast, named]
  intro same
  exact fileNameOf different (Option.some.inj same).symm

theorem Guarded.advanced (keeps : x.config.overwrite = false)
    (guarded : Guarded x output repository batch) {place : Nat} {task : Task} {phase : Phase}
    {progress : Progress} {after : FileSystem} {asked : List ParseRequest}
    (found : batch.inFlight[place]? = some (task, phase))
    (run : x.advance output stamps task phase batch.files = ⟨progress, after, asked⟩)
    (same : x.destination task.repository output = x.destination repository output) :
    after = batch.files ∧
      (progress = .ended (.ok (.skipped (x.destination repository output))) ∨
        ∃ fault, progress = .ended (.error (.io fault))) := by
  cases phase with
  | waiting =>
    obtain ⟨rfl, _, known⟩ := waitingAdvanced run
    rw [same] at known
    refine ⟨rfl, ?_⟩
    rcases takenPresent keeps guarded.present with taken | ⟨fault, taken⟩
    · rw [taken] at known
      exact .inl known
    · rw [taken] at known
      exact .inr ⟨fault, known⟩
  | cleared =>
    exact absurd same (guarded.unclaimed (task, .cleared) (List.mem_of_getElem? found) rfl)
  | gathered draft =>
    exact absurd same (guarded.unclaimed (task, .gathered draft) (List.mem_of_getElem? found) rfl)
  | prepared model =>
    exact absurd same (guarded.unclaimed (task, .prepared model) (List.mem_of_getElem? found) rfl)

theorem Guarded.stepped (keeps : x.config.overwrite = false) (container : x.writer = Store.writer disk)
    (quiet : x.detector.Quiet) (sound : Sound x output stamps tasks batch)
    (guarded : Guarded x output repository batch)
    (stepped : Stepped x output stamps batch next) :
    Guarded x output repository next ∧ Left x output repository batch next := by
  cases stepped with
  | started pending room =>
    refine ⟨⟨guarded.present, ?_⟩, fun _ _ _ held => held, [], by simp, by simp⟩
    intro e inside past
    rcases List.mem_append.mp inside with old | new
    · exact guarded.unclaimed e old past
    · rw [List.mem_singleton.mp new] at past
      contradiction
  | @reached place task phase next after asked found run =>
    have different : x.destination task.repository output ≠ x.destination repository output := by
      intro same
      obtain ⟨_, skipped | ⟨fault, failed⟩⟩ := guarded.advanced keeps found run same
      · cases skipped
      · cases failed
    have touches := (advanceTouches container quiet (sound.spareFor found) run).1
    refine ⟨⟨fun lacks => guarded.present (touches.grows.lacked lacks), ?_⟩,
      fun _ _ named held => touchedElsewhere touches different named held, [], by simp, by simp⟩
    intro e inside past
    rcases List.mem_append.mp inside with old | new
    · exact guarded.unclaimed e (List.mem_of_mem_eraseIdx old) past
    · rw [List.mem_singleton.mp new]
      exact different
  | @ended place task phase result after asked found run =>
    have touches := (advanceTouches container quiet (sound.spareFor found) run).1
    refine ⟨⟨fun lacks => guarded.present (touches.grows.lacked lacks), ?_⟩, ?_, _, rfl, ?_⟩
    · intro e inside
      exact guarded.unclaimed e (List.mem_of_mem_eraseIdx inside)
    · intro location content named held
      by_cases same : x.destination task.repository output = x.destination repository output
      · rw [(guarded.advanced keeps found run same).1]
        exact held
      · exact touchedElsewhere touches same named held
    · intro e inside same
      rw [List.mem_singleton.mp inside] at same ⊢
      obtain ⟨_, skipped | ⟨fault, failed⟩⟩ := guarded.advanced keeps found run same
      · cases skipped
        exact .inl rfl
      · cases failed
        exact .inr ⟨fault, rfl⟩

theorem Guarded.moved (keeps : x.config.overwrite = false) (container : x.writer = Store.writer disk)
    (quiet : x.detector.Quiet) (sound : Sound x output stamps tasks batch)
    (guarded : Guarded x output repository batch) {last : Batch} {moves : List Move}
    (done : x.moved? output stamps batch moves = some last) :
    Guarded x output repository last ∧ Left x output repository batch last := by
  refine (@Sound.movedAlong x disk output stamps tasks batch
    (fun later => Guarded x output repository later ∧ Left x output repository batch later)
    container quiet sound last moves ?_ ⟨guarded, .refl batch⟩ done).2
  rintro earlier middle next _ _ sound ⟨guarded, left⟩ stepped
  obtain ⟨guards, leaves⟩ := guarded.stepped keeps container quiet sound stepped
  exact ⟨guards, left.trans leaves⟩

end

end Extractor

end SourceModels

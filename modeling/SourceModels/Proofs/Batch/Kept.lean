import SourceModels.Proofs.Batch.Files

/-! Models that are kept. Tasks that are apart write each destination once at most; but two tasks
under way that have both found nothing at one destination both write there. -/
namespace SourceModels

namespace Extractor

section
variable {x : Extractor} {disk : Disk} {output : String} {stamps : Nat → Stamp} {tasks : List Task}
  {batch next : Batch}

def Apart (x : Extractor) (output : String) (batch : Batch) : Prop :=
  batch.inFlight.Pairwise fun a b => a.2.pastCheck = true → b.2.pastCheck = true →
    x.destination a.1.repository output ≠ x.destination b.1.repository output

theorem Apart.others (apart : Apart x output batch) {place : Nat} {task : Task} {phase : Phase}
    (found : batch.inFlight[place]? = some (task, phase)) (past : phase.pastCheck = true) :
    ∀ e ∈ batch.inFlight.eraseIdx place, e.2.pastCheck = true →
      x.destination e.1.repository output ≠ x.destination task.repository output := by
  have pairs := ((foundAmong found).pairwise_iff fun {a b} different past past' =>
    (different past' past).symm).mp apart
  exact fun e inside past' => ((List.pairwise_cons.mp pairs).1 e inside past past').symm

structure Once (x : Extractor) (output path : String) (batch : Batch) : Prop where
  atMost : batch.report.written.count path ≤ 1
  present : path ∈ batch.report.written → ¬ batch.files.Lacks path
  unclaimed : path ∈ batch.report.written → ∀ e ∈ batch.inFlight, e.2.pastCheck = true →
    x.destination e.1.repository output ≠ path

theorem reachedPast (keeps : x.config.overwrite = false) {task : Task} {phase next : Phase}
    {fs after : FileSystem} {asked : List ParseRequest}
    (run : x.advance output stamps task phase fs = ⟨.reached next, after, asked⟩) :
    phase.pastCheck = true ∨ fs.Lacks (x.destination task.repository output) := by
  cases phase with
  | waiting =>
    obtain ⟨_, _, known⟩ := waitingAdvanced run
    split at known
    · cases known
    · cases known
    · rename_i free
      exact .inr (clearedLacks keeps free)
  | cleared => exact .inl rfl
  | gathered draft => exact .inl rfl
  | prepared model => exact .inl rfl

theorem Once.stepped (keeps : x.config.overwrite = false) (container : x.writer = Store.writer disk)
    (quiet : x.detector.Quiet) (sound : Sound x output stamps tasks batch)
    (apart : Apart x output batch) {path : String} (once : Once x output path batch)
    (stepped : Stepped x output stamps batch next) : Once x output path next := by
  cases stepped with
  | started pending room =>
    refine ⟨once.atMost, once.present, ?_⟩
    intro written e inside past
    rcases List.mem_append.mp inside with old | new
    · exact once.unclaimed written e old past
    · rw [List.mem_singleton.mp new] at past
      contradiction
  | @reached place task phase next after asked found run =>
    have touches := (advanceTouches container quiet (sound.spareFor found) run).1
    refine ⟨once.atMost, fun written lacks => once.present written (touches.grows.lacked lacks), ?_⟩
    intro written e inside past
    rcases List.mem_append.mp inside with old | new
    · exact once.unclaimed written e (List.mem_of_mem_eraseIdx old) past
    · rw [List.mem_singleton.mp new]
      rintro rfl
      -- a task that gets past its check just now has found nothing there
      rcases reachedPast keeps run with earlier | lacks
      · exact once.unclaimed written (task, phase) (List.mem_of_getElem? found) earlier rfl
      · exact once.present written lacks
  | @ended place task phase result after asked found run =>
    obtain ⟨touches, wrote⟩ := advanceTouches container quiet (sound.spareFor found) run
    have tally := batch.endedWritten task result (batch.inFlight.eraseIdx place) after
      (batch.requests ++ asked)
    by_cases writes : Batch.writtenPath? result = some path
    · obtain ⟨count, rfl⟩ := Batch.writtenBy writes
      obtain ⟨past, rfl, present⟩ := wrote path count rfl
      -- a task past its check claims its destination, which no written path allows
      have first : x.destination task.repository output ∉ batch.report.written := fun written =>
        once.unclaimed written (task, phase) (List.mem_of_getElem? found) past rfl
      refine ⟨?_, fun _ => present, fun _ => apart.others found past⟩
      rw [tally, List.count_append, List.count_eq_zero.mpr first, Nat.zero_add]
      exact List.count_le_length
    · have elsewhere : path ∉ (Batch.writtenPath? result).toList := by
        simpa [Option.mem_toList] using writes
      refine ⟨?_, ?_, ?_⟩
      · rw [tally, List.count_append, List.count_eq_zero.mpr elsewhere]
        exact once.atMost
      · rw [tally, List.mem_append]
        intro written lacks
        exact once.present (written.resolve_right elsewhere) (touches.grows.lacked lacks)
      · rw [tally, List.mem_append]
        intro written e inside
        exact once.unclaimed (written.resolve_right elsewhere) e (List.mem_of_mem_eraseIdx inside)

theorem Once.moved (keeps : x.config.overwrite = false) (container : x.writer = Store.writer disk)
    (quiet : x.detector.Quiet) (sound : Sound x output stamps tasks batch) {path : String}
    (once : Once x output path batch) {last : Batch} {moves : List Move}
    (apart : ∀ earlier middle, earlier <+: moves →
      x.moved? output stamps batch earlier = some middle → Apart x output middle)
    (done : x.moved? output stamps batch moves = some last) : Once x output path last := by
  refine (sound.movedAlong container quiet ?_ once done).2
  intro earlier middle next front reached sound once stepped
  exact once.stepped keeps container quiet sound (apart earlier middle front reached) stepped

theorem Sound.apart (sound : Sound x output stamps tasks batch)
    (few : batch.inFlight.length ≤ x.atOnce)
    (single : x.atOnce = 1 ∨
      (tasks.map fun task => x.destination task.repository output).Nodup) :
    Apart x output batch := by
  rcases single with one | distinct
  · rw [one] at few
    unfold Apart
    match batch.inFlight, few with
    | [], _ => exact .nil
    | [e], _ => exact List.pairwise_singleton ..
  · have moved := sound.accounted.map fun task : Task => x.destination task.repository output
    have all := moved.nodup_iff.mpr distinct
    simp only [Batch.all, List.map_append] at all
    have flying := (List.nodup_append.mp (List.nodup_append.mp all).2.1).1
    rw [List.map_map, List.Nodup, List.pairwise_map] at flying
    exact flying.imp fun different _ _ => different

theorem movedOn {earlier later : List Move} {middle last : Batch}
    (reached : x.moved? output stamps batch earlier = some middle)
    (run : x.moved? output stamps batch (earlier ++ later) = some last) :
    x.moved? output stamps middle later = some last := by
  rw [moved?, List.foldlM_append] at run
  rw [moved?] at reached
  simpa [reached, moved?] using run

/-- Without overwriting, what is there at a destination stays, whatever tasks there are and in
whatever order they take their steps, unless some task is already past its check. When no two tasks
with one destination are past their checks at a time, each destination is written at most once; this
is so with one task at a time and for different destinations. -/
theorem modelsKept (keeps : x.config.overwrite = false) (container : x.writer = Store.writer disk)
    (quiet : x.detector.Quiet) {repositories : List String} {fs : FileSystem}
    (fresh : ∀ task ∈ Batch.tasks repositories, Store.FreshToken fs
      (x.destination task.repository output) (stamps task.position).token)
    {moves : List Move} {last : Batch}
    (run : x.moved? output stamps (.ofRepositories repositories fs) moves = some last) :
    (∀ earlier later middle repository, moves = earlier ++ later →
      x.moved? output stamps (.ofRepositories repositories fs) earlier = some middle →
      Guarded x output repository middle →
      Guarded x output repository last ∧ Left x output repository middle last) ∧
    ((∀ earlier middle, earlier <+: moves →
      x.moved? output stamps (.ofRepositories repositories fs) earlier = some middle →
      Apart x output middle) →
      (∀ path, last.report.written.count path ≤ 1) ∧
      ∀ earlier later middle repository, moves = earlier ++ later →
        x.moved? output stamps (.ofRepositories repositories fs) earlier = some middle →
        x.destination repository output ∈ middle.report.written →
        Left x output repository middle last) ∧
    (x.atOnce = 1 ∨ ((Batch.tasks repositories).map fun task : Task =>
        x.destination task.repository output).Nodup →
      ∀ earlier middle, x.moved? output stamps (.ofRepositories repositories fs) earlier =
        some middle → Apart x output middle) := by
  have first := soundFirst fresh
  have sound : ∀ {earlier middle},
      x.moved? output stamps (.ofRepositories repositories fs) earlier = some middle →
      Sound x output stamps (Batch.tasks repositories) middle := fun reached =>
    moved (fun _ _ sound stepped => sound.stepped container quiet stepped) first reached
  have onceFirst : ∀ path, Once x output path (.ofRepositories repositories fs) :=
    fun path => ⟨Nat.zero_le _, by simp [Batch.report, Batch.ofRepositories],
      by simp [Batch.ofRepositories]⟩
  refine ⟨?_, ?_, ?_⟩
  · rintro earlier later middle repository rfl reached guarded
    exact guarded.moved keeps container quiet (sound reached) (movedOn reached run)
  · intro apart
    refine ⟨fun path =>
      ((onceFirst path).moved keeps container quiet first apart run).atMost, ?_⟩
    rintro earlier later middle repository rfl reached written
    have once := (onceFirst (x.destination repository output)).moved keeps container quiet
      first (fun front middle before =>
        apart front middle (before.trans (List.prefix_append ..))) reached
    have guarded : Guarded x output repository middle :=
      ⟨once.present written, once.unclaimed written⟩
    exact (guarded.moved keeps container quiet (sound reached) (movedOn reached run)).2
  · intro single earlier middle reached
    have few := @moved x output stamps (fun batch => batch.inFlight.length ≤ x.atOnce)
      (fun _ _ few stepped => stepped.within few) _ _ _ (Nat.zero_le _) reached
    exact (sound reached).apart few single

end

def sharedFiles : FileSystem where
  entries := [(["r"], .directory), (["a.py", "r"], .file [0x61]), (["r.git"], .directory),
    (["b.py", "r.git"], .file [0x62]), (["o"], .directory)]
  current := []

def sharedExtractor (workers : Nat) : Extractor := .new { workers } fun _ => .tree (.leaf "module")

def sharedStamps (position : Nat) : Stamp :=
  ⟨.ofEpoch 0 0, .zero, if position = 0 then "0" else "1"⟩

def sharedMoved? (workers : Nat) (moves : List Move) : Option Batch :=
  (sharedExtractor workers).moved? "o" sharedStamps
    (.ofRepositories ["r", "r.git"] sharedFiles) moves

def sharedTurns : List Move :=
  [.start, .advance 0, .advance 0, .advance 0, .advance 0, .start, .advance 0]

def sharedOverlap : List Move :=
  [.start, .start, .advance 0, .advance 0, .advance 0, .advance 0, .advance 0, .advance 0,
    .advance 0]

theorem sharedOneByOne :
    ∃ last, sharedMoved? 1 sharedTurns = some last ∧
      last.report = { written := ["o/source_r.asdf"], skipped := ["o/source_r.asdf"] } ∧
      ∀ path, last.report.written.count path ≤ 1 := by
  have ends : (sharedMoved? 1 sharedTurns).map Batch.report =
      some { written := ["o/source_r.asdf"], skipped := ["o/source_r.asdf"] } := by decide +kernel
  obtain ⟨last, run, report⟩ := Option.map_eq_some_iff.mp ends
  have fresh : ∀ task ∈ Batch.tasks ["r", "r.git"], Store.FreshToken sharedFiles
      ((sharedExtractor 1).destination task.repository "o") (sharedStamps task.position).token := by
    intro task inside
    rcases List.mem_pair.mp inside with rfl | rfl
    · exact ⟨by decide, by decide⟩
    · exact ⟨by decide, by decide⟩
  obtain ⟨_, once, apart⟩ := modelsKept rfl rfl (fun _ _ _ => rfl) fresh run
  exact ⟨last, run, report, (once fun earlier middle _ => apart (.inl rfl) earlier middle).1⟩

def sharedModel (batch : Batch) : List String × Option String :=
  (batch.report.written, (Store.read batch.files "o/source_r.asdf").toOption.map Model.repository)

theorem sharedDestinationReplaced :
    (sharedExtractor 2).config.overwrite = false ∧
    (sharedMoved? 2 sharedOverlap).map sharedModel = some (["o/source_r.asdf"], some "r") ∧
    (sharedMoved? 2 (sharedOverlap ++ [.advance 0])).map sharedModel =
      some (["o/source_r.asdf", "o/source_r.asdf"], some "r.git") :=
  ⟨rfl, by decide +kernel, by decide +kernel⟩

end Extractor

end SourceModels

import SourceModels.Extraction
import SourceModels.Proofs.Selection.Inspection
import SourceModels.Proofs.Store.Replacement

/-! A run replaces its destination or leaves every file as it was. Only a failing write of the model
may leave something behind: directories on the way to the destination. -/
namespace SourceModels

def Detector.Quiet (detector : Detector) : Prop :=
  ∀ path head fs, (detector path head fs).2 = fs

theorem Selector.inspectKeepsFiles {selector : Selector} (quiet : selector.detector.Quiet)
    (entry : WalkEntry) (counts : SelectionCounts) (fs : FileSystem) :
    (selector.inspect entry counts fs).2.2 = fs := by
  have known := selector.inspected entry counts fs
  generalize selector.inspect entry counts fs = outcome at known
  cases known with
  | unrecognized looked resolved status file small read detected =>
    exact (congrArg Prod.snd detected).symm.trans (quiet ..)
  | selected looked resolved status file small read detected =>
    exact (congrArg Prod.snd detected).symm.trans (quiet ..)
  | _ => rfl

theorem Selector.inspectedQuietly {selector : Selector} (quiet : selector.detector.Quiet)
    (entry : WalkEntry) (counts : SelectionCounts) (fs : FileSystem) :
    ∃ verdict later, selector.inspect entry counts fs = (verdict, later, fs) :=
  ⟨_, _, Prod.ext rfl (Prod.ext rfl (inspectKeepsFiles quiet entry counts fs))⟩

namespace Extractor

theorem collectKeepsFiles {x : Extractor} {selector : Selector}
    (quiet : selector.detector.Quiet) (walk : Walk) (counts : SelectionCounts) (draft : Draft)
    (requests : List ParseRequest) (fs : FileSystem) :
    (x.collect selector walk counts draft requests fs).files = fs := by
  induction walk generalizing counts draft requests with
  | finished => rfl
  | failed path fault => rfl
  | found entry resume ih =>
    obtain ⟨verdict, counts', seen⟩ := selector.inspectedQuietly quiet entry counts fs
    cases verdict with
    | passedOver => simpa only [collect, seen] using ih _ counts' draft requests
    | refused fault => simp only [collect, seen]
    | candidate c =>
      simp only [collect, seen]
      split
      · exact ih _ counts' _ _
      · rfl

theorem gatherKeepsFiles {x : Extractor} (quiet : x.detector.Quiet) (repository : String)
    (fs : FileSystem) : (x.gather repository fs).files = fs := by
  unfold gather collectAll
  split
  · rfl
  · exact collectKeepsFiles quiet ..

/-- Nothing has changed; or the destination has been replaced, with the directories above it made;
or writing the model has failed, which leaves no more than such directories. -/
def AllOrNothing (before : FileSystem) (destination : String)
    (run : Run (Except Failure Outcome)) : Prop :=
  match run.result with
  | .ok (.written path _) => path = destination ∧ ∃ made target data,
      FileSystem.DirectoriesAdded before made destination ∧
        Store.ReplacedAt made run.files destination target data
  | .error (.model (.writeFailed _ _)) =>
    FileSystem.DirectoriesAdded before run.files destination
  | _ => run.files = before

theorem AllOrNothing.unchanged {before : FileSystem} {destination : String}
    {run : Run (Except Failure Outcome)} (same : run.files = before)
    (unwritten : ∀ path files, run.result ≠ .ok (.written path files)) :
    AllOrNothing before destination run := by
  unfold AllOrNothing
  split
  · rename_i path files written
    exact absurd written (unwritten path files)
  · rw [same]
    exact .none before destination
  · exact same

theorem AllOrNothing.either {before : FileSystem} {destination : String}
    {run : Run (Except Failure Outcome)} (done : AllOrNothing before destination run) :
    (∃ count made target data, run.result = .ok (.written destination count) ∧
      FileSystem.DirectoriesAdded before made destination ∧
      Store.ReplacedAt made run.files destination target data) ∨
    (∀ path count, run.result ≠ .ok (.written path count)) ∧
      FileSystem.DirectoriesAdded before run.files destination := by
  unfold AllOrNothing at done
  split at done
  · rename_i path count written
    obtain ⟨rfl, made, target, data, added, replaced⟩ := done
    exact .inl ⟨count, made, target, data, written, added, replaced⟩
  · rename_i failed
    exact .inr ⟨by simp [failed], done⟩
  · rename_i unwritten _
    exact .inr ⟨unwritten, done ▸ .none before destination⟩

inductive Prepared (x : Extractor) (repository destination : String) (draft : Draft) (stamp : Stamp)
    (fs : FileSystem) : FileSystem × Except Failure (Option Model) → Prop where
  | empty (bare : draft.filenames.isEmpty = true) :
      Prepared x repository destination draft stamp fs (fs, .ok none)
  | unfinished (filled : draft.filenames.isEmpty = false) {fault : ModelFault}
      (refused : draft.finalize repository stamp = .error fault) :
      Prepared x repository destination draft stamp fs (fs, .error (.model fault))
  | ready (filled : draft.filenames.isEmpty = false) {model : Model} {made : FileSystem}
      (finished : draft.finalize repository stamp = .ok model)
      (done : x.writer.prepare fs model destination = (made, .ok ())) :
      Prepared x repository destination draft stamp fs (made, .ok (some model))
  | unready (filled : draft.filenames.isEmpty = false) {model : Model} {made : FileSystem}
      {fault : ModelFault} (finished : draft.finalize repository stamp = .ok model)
      (failed : x.writer.prepare fs model destination = (made, .error fault)) :
      Prepared x repository destination draft stamp fs (made, .error (.model fault))

theorem draftPrepared (x : Extractor) (repository destination : String) (draft : Draft)
    (stamp : Stamp) (fs : FileSystem) :
    Prepared x repository destination draft stamp fs
      (x.prepare repository destination draft stamp fs) := by
  unfold prepare
  split
  · rename_i bare
    exact .empty bare
  rename_i filled
  have filled : draft.filenames.isEmpty = false := by simpa using filled
  split
  · rename_i fault refused
    exact .unfinished filled refused
  rename_i model finished
  split
  · rename_i made done
    exact .ready filled finished done
  · rename_i made fault failed
    exact .unready filled finished failed

inductive Stored (x : Extractor) (repository destination : String) (draft : Draft) (stamp : Stamp)
    (fs : FileSystem) : FileSystem × Except Failure Outcome → Prop where
  | empty (bare : draft.filenames.isEmpty = true) :
      Stored x repository destination draft stamp fs (fs, .ok .empty)
  | unfinished (filled : draft.filenames.isEmpty = false) {fault : ModelFault}
      (refused : draft.finalize repository stamp = .error fault) :
      Stored x repository destination draft stamp fs (fs, .error (.model fault))
  | written (filled : draft.filenames.isEmpty = false) {model : Model} {after : FileSystem}
      (finished : draft.finalize repository stamp = .ok model)
      (done : x.writer.write fs model destination stamp.token = (after, .ok ())) :
      Stored x repository destination draft stamp fs (after, .ok (.written destination model.size))
  | unwritten (filled : draft.filenames.isEmpty = false) {model : Model} {after : FileSystem}
      {fault : ModelFault} (finished : draft.finalize repository stamp = .ok model)
      (failed : x.writer.write fs model destination stamp.token = (after, .error fault)) :
      Stored x repository destination draft stamp fs (after, .error (.model fault))

theorem draftStored (x : Extractor) (repository destination : String) (draft : Draft)
    (stamp : Stamp) (fs : FileSystem) :
    Stored x repository destination draft stamp fs
      (x.store repository destination draft stamp fs) := by
  have known := x.draftPrepared repository destination draft stamp fs
  unfold store
  generalize x.prepare repository destination draft stamp fs = outcome at known ⊢
  cases known with
  | empty bare => exact .empty bare
  | unfinished filled refused => exact .unfinished filled refused
  | unready filled finished failed =>
    exact .unwritten filled finished (by rw [ModelWriter.write, failed])
  | @ready filled model made finished done =>
    simp only [install]
    cases placed : x.writer.place made model destination stamp.token with
    | mk after result =>
      have whole : x.writer.write fs model destination stamp.token = (after, result) := by
        rw [ModelWriter.write, done]
        exact placed
      cases result with
      | ok _ => exact .written filled finished whole
      | error fault => exact .unwritten filled finished whole

section
variable {x : Extractor} {disk : Disk} {repository destination : String} {draft : Draft}
  {stamp : Stamp} {fs after : FileSystem}

theorem preparedModel {model : Model} (container : x.writer = Store.writer disk)
    (ready : x.prepare repository destination draft stamp fs = (after, .ok (some model))) :
    FileSystem.DirectoriesAdded fs after destination := by
  have known := x.draftPrepared repository destination draft stamp fs
  rw [ready] at known
  cases known with
  | ready filled finished done =>
    rw [container] at done
    exact (Store.writerPrepared done).2

theorem preparedEmpty (bare : x.prepare repository destination draft stamp fs = (after, .ok none)) :
    after = fs := by
  have known := x.draftPrepared repository destination draft stamp fs
  rw [bare] at known
  cases known with
  | empty bare => rfl

theorem preparedFailed {failure : Failure} {asked : List ParseRequest}
    (container : x.writer = Store.writer disk)
    (failed : x.prepare repository destination draft stamp fs = (after, .error failure)) :
    AllOrNothing fs destination ⟨.error failure, after, asked⟩ := by
  have known := x.draftPrepared repository destination draft stamp fs
  rw [failed] at known
  cases known with
  | unfinished filled refused => exact .unchanged rfl (by simp)
  | unready filled finished unmade =>
    rw [container] at unmade
    rcases Store.writerUnprepared unmade with ⟨same, _⟩ | ⟨⟨reason, rfl⟩, added⟩
    · exact .unchanged same (by simp)
    · exact added

theorem installedSpare {model : Model} {result : Except Failure Outcome} {asked : List ParseRequest}
    (container : x.writer = Store.writer disk)
    (spare : Store.SpareToken fs destination stamp.token)
    (installed : x.install destination model stamp fs = (after, result)) :
    AllOrNothing fs destination ⟨result, after, asked⟩ ∧
      ∀ path, result ≠ .ok (.skipped path) := by
  rw [install, container] at installed
  rcases spare.placed disk model with ⟨reason, kept⟩ | ⟨later, target, done, replaced⟩
  · rw [kept] at installed
    cases installed
    exact ⟨.none .., by simp⟩
  · rw [done] at installed
    cases installed
    exact ⟨⟨rfl, fs, target, _, .none .., replaced⟩, by simp⟩

theorem storedSpare {result : Except Failure Outcome} {requests : List ParseRequest}
    (container : x.writer = Store.writer disk)
    (spare : Store.SpareToken fs destination stamp.token)
    (stored : x.store repository destination draft stamp fs = (after, result)) :
    AllOrNothing fs destination ⟨result, after, requests⟩ := by
  have known := x.draftStored repository destination draft stamp fs
  rw [stored] at known
  cases known with
  | empty bare => exact .unchanged rfl (by simp)
  | unfinished filled refused => exact .unchanged rfl (by simp)
  | written filled finished done =>
    rw [container] at done
    obtain ⟨_, made, target, added, replaced⟩ := spare.writeDone done
    exact ⟨rfl, made, target, _, added, replaced⟩
  | unwritten filled finished failed =>
    rw [container] at failed
    rcases spare.writeFailed failed with ⟨same, _⟩ | ⟨⟨reason, rfl⟩, added⟩
    · exact .unchanged same (by simp)
    · exact added

theorem extractionAllOrNothing (container : x.writer = Store.writer disk)
    (quiet : x.detector.Quiet) (fresh : Store.FreshToken fs destination stamp.token) :
    AllOrNothing fs destination (x.extractTo repository destination stamp fs) := by
  unfold extractTo
  split
  · exact .unchanged rfl (by simp)
  · exact .unchanged rfl (by simp)
  have kept := gatherKeepsFiles quiet repository fs
  simp only
  generalize x.gather repository fs = gathered at kept ⊢
  split
  · exact .unchanged kept (by simp)
  · rw [kept]
    exact storedSpare container fresh.spare rfl

end

def rebuiltFiles : FileSystem where
  entries := [(["r"], .directory), (["a.py", "r"], .file [0x61]), (["b.py", "r"], .file [0x62]),
    (["s"], .directory), (["a.py", "s"], .file [0x63]), (["m"], .file [0x00])]
  current := []

def silencedExtractor : Extractor :=
  .new { overwrite := true } fun request =>
    if request.filename = "b.py" then .silent else .tree (.leaf "module")

def crampedExtractor : Extractor :=
  { Extractor.new { overwrite := true } fun _ => .tree (.leaf "module") with
    writer := Store.writer Store.fullDisk }

def crampedRun : Run (Except Failure Outcome) :=
  crampedExtractor.extractTo "s" "m" ⟨.ofEpoch 0 0, .zero, "0"⟩ rebuiltFiles

theorem failuresAllOrNothing :
    silencedExtractor.detector.Quiet ∧ crampedExtractor.detector.Quiet ∧
    Store.FreshToken rebuiltFiles "m" "0" ∧
    AllOrNothing rebuiltFiles "m"
      (silencedExtractor.extractTo "r" "m" ⟨.ofEpoch 0 0, .zero, "0"⟩ rebuiltFiles) ∧
    AllOrNothing rebuiltFiles "m" crampedRun ∧
    (({} : Report).record "s" crampedRun.result).failed =
      [("s", "Model error: Failed to write model to 'm': No space left on device (os error 28)")] := by
  have fresh : Store.FreshToken rebuiltFiles "m" "0" := ⟨by decide, by decide⟩
  exact ⟨fun _ _ _ => rfl, fun _ _ _ => rfl, fresh,
    @extractionAllOrNothing silencedExtractor .sound "r" "m" _ _ rfl (fun _ _ _ => rfl) fresh,
    @extractionAllOrNothing crampedExtractor Store.fullDisk "s" "m" _ _ rfl (fun _ _ _ => rfl)
      fresh, by decide +kernel⟩

end Extractor

end SourceModels

import SourceModels.Proofs.FileSystem.Files
import SourceModels.Proofs.PathNames

/-! What writing a model does to the files: missing directories above the target are made, and then
either the target alone is replaced or nothing more happens. -/
namespace SourceModels.Store
open FileSystem

structure FreshToken (fs : FileSystem) (path token : String) : Prop where
  plain : '/' ∉ token.toList
  unused : ∀ e ∈ fs.entries, e.1.head? ≠ some (stagingName path token)

theorem FreshToken.free {fs : FileSystem} {path token : String} (fresh : FreshToken fs path token)
    (directory : Location) : fs.content? (stagingName path token :: directory) = none := by
  cases held : fs.content? (stagingName path token :: directory) with
  | none => rfl
  | some content => exact absurd rfl (fresh.unused _ (heldEntry held))

theorem FreshToken.noFile {fs : FileSystem} {path token : String}
    (fresh : FreshToken fs path token) : NoFileNamed fs (stagingName path token) := by
  intro directory content found
  rw [fresh.free] at found
  cases found

/-- No file, link or device has the name that the token makes; directories are not in the way. -/
structure SpareToken (fs : FileSystem) (path token : String) : Prop where
  plain : '/' ∉ token.toList
  noFile : NoFileNamed fs (stagingName path token)

theorem FreshToken.spare {fs : FileSystem} {path token : String}
    (fresh : FreshToken fs path token) : SpareToken fs path token :=
  ⟨fresh.plain, fresh.noFile⟩

structure ReplacedAt (before after : FileSystem) (path : String) (target : Location)
    (data : Bytes) : Prop where
  named : before.Names path target
  ends : hasTrailingSlash path = false
  replaceable : before.content? target ≠ some .directory
  replaced : Replaced before after target data

/-- The path leads to this entry's directory without passing through the entry itself, as all paths
do but those that run through a link and come back to it. -/
def Independent (fs : FileSystem) (path : String) (target : Location) : Prop :=
  (fs.erase target).Names path target

theorem ReplacedAt.read {before after : FileSystem} {path : String} {target : Location}
    {data : Bytes} (done : ReplacedAt before after path target data)
    (alone : Independent before path target) : after.readBytes path = .ok data :=
  replacedRead done.replaced done.named done.ends alone

theorem ReplacedAt.lost {before after : FileSystem} {path : String} {target : Location}
    {data : Bytes} (done : ReplacedAt before after path target data)
    (through : ¬ Independent before path target) : after.readBytes path = .error .notDirectory :=
  replacedLost done.replaced done.named done.ends done.replaceable through

theorem ReplacedAt.independent {before after : FileSystem} {path : String} {target : Location}
    {data : Bytes} (done : ReplacedAt before after path target data)
    (unlinked : ∀ link, before.content? target ≠ some (.link link)) :
    Independent before path target := by
  obtain ⟨directory, name, _, rfl⟩ := done.named
  exact done.named.kept (unlinkedAside done.replaceable unlinked)

theorem movedIn {fs after : FileSystem} {path token : String} {directory : Location}
    {bytes : Bytes} (parent : fs.findParent (stagingPath path token) =
      .ok (directory, .name (stagingName path token)))
    (free : fs.content? (stagingName path token :: directory) = none)
    (moved : (fs.put (stagingName path token :: directory) (.file bytes)).rename
      (stagingPath path token) path = .ok after) :
    ∃ target, ReplacedAt fs after path target bytes := by
  have held : (fs.put (stagingName path token :: directory) (.file bytes)).content?
      (stagingName path token :: directory) = some (.file bytes) := by
    simp [contentPut]
  obtain ⟨place, last, found, slash, replaceable, same⟩ :=
    renamed (findParentKept (fileAdded free) parent) held moved
  subst same
  refine ⟨last :: place, ⟨place, last, findParentKept fileForgotten found, rfl⟩, slash, ?_, ?_⟩
  · intro directoryHeld
    exact replaceable ((fileAdded free).ways _ _ rfl directoryHeld)
  · refine ⟨rfl, rfl, by simp [contentPut], ?_⟩
    intro location other
    rw [contentPut, if_neg other, contentErase]
    split
    · rename_i same
      rw [same, free]
    · rename_i different
      rw [contentPut, if_neg different]

section
variable {disk : Disk} {fs made after staged : FileSystem} {model : Model} {path token : String}
  {bytes : Bytes} {fault : ModelFault}

theorem clearNothing (plain : '/' ∉ token.toList)
    (unused : NoFileNamed fs (stagingName path token)) : clear fs (stagingPath path token) = fs := by
  obtain ⟨front, split⟩ := @stagingPathNames path token plain
  obtain ⟨other, failed⟩ := nothingRemoved split (stagingNameUnlikeDots path token) unused
  simp [clear, failed, Except.toOption]

theorem clearStaged {directory : Location}
    (parent : fs.findParent (stagingPath path token) =
      .ok (directory, .name (stagingName path token)))
    (free : fs.content? (stagingName path token :: directory) = none) :
    clear (fs.put (stagingName path token :: directory) (.file bytes)) (stagingPath path token) =
      fs := by
  simp [clear, writtenRemoved parent free, Except.toOption]

theorem stagedWritten (plain : '/' ∉ token.toList)
    (unused : NoFileNamed fs (stagingName path token))
    (done : fs.writeFile (stagingPath path token) bytes = .ok staged) :
    ∃ directory, fs.findParent (stagingPath path token) =
        .ok (directory, .name (stagingName path token)) ∧
      fs.content? (stagingName path token :: directory) = none ∧
      staged = fs.put (stagingName path token :: directory) (.file bytes) := by
  obtain ⟨front, split⟩ := @stagingPathNames path token plain
  exact fileWritten (stagingPathEnds path token) split (stagingNameUnlikeDots path token) unused done

theorem tornCleared {fault : Fault} (plain : '/' ∉ token.toList)
    (unused : NoFileNamed fs (stagingName path token))
    (torn : fs.writeOn disk (stagingPath path token) bytes = (staged, .error fault)) :
    clear staged (stagingPath path token) = fs := by
  unfold writeOn at torn
  split at torn
  · split at torn
    · simp at torn
    · cases torn
      exact clearNothing plain unused
  · split at torn <;>
    · cases torn
      exact clearNothing plain unused
  · split at torn
    · -- the piece lies where nothing was, and clearing takes it away again
      rename_i piece written
      obtain ⟨directory, parent, free, rfl⟩ := stagedWritten plain unused written
      cases torn
      exact clearStaged parent free
    · cases torn
      exact clearNothing plain unused

def fullDisk : Disk where
  make _ _ := none
  write _ _ _ := .torn 2 (.system 28)
  move _ _ _ := none

theorem writtenOn (done : fs.writeOn disk path bytes = (after, .ok ())) :
    fs.writeFile path bytes = .ok after := by
  unfold writeOn at done
  split at done
  · split at done
    · rename_i written
      cases done
      exact written
    · simp at done
  · split at done <;> simp at done
  · split at done <;> simp at done

theorem replaceOutcome (disk : Disk) (plain : '/' ∉ token.toList)
    (unused : NoFileNamed fs (stagingName path token)) (bytes : Bytes) :
    (∃ fault, replace disk fs path token bytes = (fs, .error fault)) ∨
      ∃ after target, replace disk fs path token bytes = (after, .ok ()) ∧
        ReplacedAt fs after path target bytes := by
  unfold replace
  cases written : fs.writeOn disk (stagingPath path token) bytes with
  | mk staged result =>
    cases result with
    | error fault =>
      refine .inl ⟨fault, ?_⟩
      simp only [written, tornCleared plain unused written]
    | ok _ =>
      obtain ⟨directory, parent, free, rfl⟩ := stagedWritten plain unused (writtenOn written)
      cases moved : (fs.put (stagingName path token :: directory) (.file bytes)).renameOn disk
          (stagingPath path token) path with
      | error fault =>
        refine .inl ⟨fault, ?_⟩
        simp only [written, moved, clearStaged parent free]
      | ok after =>
        obtain ⟨target, replaced⟩ := movedIn parent free (grantedDone moved)
        refine .inr ⟨after, target, ?_, replaced⟩
        simp only [written, moved]

theorem prepared {result : Except Fault Unit} (done : prepare disk fs path = (made, result)) :
    DirectoriesAdded fs made path := by
  unfold prepare at done
  split at done
  · rename_i parent part
    have added := @directoriesMade fs path parent part disk
    rwa [done] at added
  · cases done
    exact .none fs path

theorem writerPrepared (ready : (writer disk).prepare fs model path = (made, .ok ())) :
    model.validate = .ok () ∧ DirectoriesAdded fs made path := by
  simp only [writer] at ready
  split at ready
  · simp at ready
  rename_i valid
  refine ⟨valid, ?_⟩
  unfold named at ready
  split at ready
  · rename_i done
    cases ready
    exact prepared done
  · simp at ready

theorem writerUnprepared (failed : (writer disk).prepare fs model path = (made, .error fault)) :
    (made = fs ∧ model.validate = .error fault) ∨
      (∃ reason, fault = .writeFailed path reason) ∧ DirectoriesAdded fs made path := by
  simp only [writer] at failed
  split at failed
  · rename_i invalid
    cases failed
    exact .inl ⟨rfl, invalid⟩
  unfold named at failed
  split at failed
  · simp at failed
  · rename_i done
    cases failed
    exact .inr ⟨⟨_, rfl⟩, prepared done⟩

namespace SpareToken

theorem kept (spare : SpareToken fs path token) {other : String}
    (added : DirectoriesAdded fs made other) : SpareToken made path token :=
  ⟨spare.plain, spare.noFile.kept added⟩

theorem placed (spare : SpareToken made path token) (disk : Disk) (model : Model) :
    (∃ reason, (writer disk).place made model path token =
        (made, .error (.writeFailed path reason))) ∨
      ∃ after target, (writer disk).place made model path token = (after, .ok ()) ∧
        ReplacedAt made after path target model.encode := by
  simp only [writer]
  rcases replaceOutcome disk spare.plain spare.noFile model.encode with
    ⟨fault, kept⟩ | ⟨after, target, done, replaced⟩
  · exact .inl ⟨fault.message, by rw [kept, named]⟩
  · exact .inr ⟨after, target, by rw [done, named], replaced⟩

theorem writeFailed (spare : SpareToken fs path token)
    (failed : write disk fs model path token = (after, .error fault)) :
    (after = fs ∧ model.validate = .error fault) ∨
      (∃ reason, fault = .writeFailed path reason) ∧ DirectoriesAdded fs after path := by
  unfold write ModelWriter.write at failed
  split at failed
  · rename_i unready
    cases failed
    exact writerUnprepared unready
  rename_i made ready
  have added := (writerPrepared ready).2
  rcases (spare.kept added).placed disk model with ⟨reason, kept⟩ | ⟨moved, target, done, -⟩
  · rw [kept] at failed
    cases failed
    exact .inr ⟨⟨reason, rfl⟩, added⟩
  · simp [done] at failed

theorem writeDone (spare : SpareToken fs path token)
    (done : write disk fs model path token = (after, .ok ())) :
    model.validate = .ok () ∧ ∃ made target, DirectoriesAdded fs made path ∧
      ReplacedAt made after path target model.encode := by
  unfold write ModelWriter.write at done
  split at done
  · simp at done
  rename_i made ready
  obtain ⟨valid, added⟩ := writerPrepared ready
  rcases (spare.kept added).placed disk model with ⟨reason, kept⟩ | ⟨moved, target, success, replaced⟩
  · simp [kept] at done
  · rw [success] at done
    cases done
    exact ⟨valid, made, target, added, replaced⟩

end SpareToken

end

end SourceModels.Store

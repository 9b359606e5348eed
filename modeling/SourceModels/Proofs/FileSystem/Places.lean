import SourceModels.FileSystem.Disk
import SourceModels.Proofs.FileSystem.Ways

/-! The entries that paths name, and making the directories above a path: whatever was there stays,
and each new entry is a directory that some part of the path names. -/
namespace SourceModels

inductive Path.Above : (path above : String) → Prop where
  | parent {path above : String} (part : parent? path = some above) : Above path above
  | further {path middle above : String} (part : parent? path = some middle)
      (higher : Above middle above) : Above path above

namespace FileSystem

def Names (fs : FileSystem) (path : String) (location : Location) : Prop :=
  ∃ directory name, fs.findParent path = .ok (directory, .name name) ∧ location = name :: directory

structure DirectoriesAdded (before after : FileSystem) (path : String) : Prop where
  current : after.current = before.current
  closed : after.closed = before.closed
  kept : ∀ location content, before.content? location = some content →
    after.content? location = some content
  added : ∀ location content, before.content? location = none →
    after.content? location = some content →
    content = .directory ∧ ∃ above, Path.Above path above ∧ after.Names above location

theorem existingAt {found : Except Fault Found} {location : Location} {content : Content} :
    existing found = .ok (location, content) ↔ found = .ok (.at location content) := by
  unfold existing
  split <;> simp

theorem findParentOk {fs : FileSystem} {path : String} {directory : Location} {last : Last} :
    fs.findParent path = .ok (directory, last) ↔
      checkPath path = .ok () ∧ checkLength path = .ok () ∧
      walk fs true maxLinks (fs.startOf path) (names path).dropLast =
        .ok (.at directory .directory) ∧
      lastOf (names path) = .ok last := by
  simp only [findParent, bind, Except.bind]
  cases checked : checkPath path with
  | error fault => simp
  | ok _ =>
    cases short : checkLength path with
    | error fault => simp
    | ok _ =>
      cases led : existing (walk fs true maxLinks (fs.startOf path) (names path).dropLast) with
      | error fault =>
        have elsewhere : ∀ location content,
            walk fs true maxLinks (fs.startOf path) (names path).dropLast ≠
              .ok (.at location content) := by
          intro location content same
          rw [existingAt.mpr same] at led
          contradiction
        simp [elsewhere]
      | ok pair =>
        obtain ⟨location, content⟩ := pair
        rw [existingAt.mp led]
        cases last' : lastOf (names path) <;> cases content <;>
          simp [Content.isDirectory, pure, Except.pure]

theorem findParentKept {before after : FileSystem} (kept : KeepsWays before after) {path : String}
    {directory : Location} {last : Last} (found : before.findParent path = .ok (directory, last)) :
    after.findParent path = .ok (directory, last) := by
  obtain ⟨checked, short, led, ends⟩ := findParentOk.mp found
  refine findParentOk.mpr ⟨checked, short, ?_, ends⟩
  rw [kept.start]
  exact walkKept kept led

theorem Names.kept {before after : FileSystem} {path : String} {location : Location}
    (named : before.Names path location) (kept : KeepsWays before after) :
    after.Names path location := by
  obtain ⟨directory, name, found, same⟩ := named
  exact ⟨directory, name, findParentKept kept found, same⟩

namespace DirectoriesAdded

theorem none (fs : FileSystem) (path : String) : DirectoriesAdded fs fs path where
  current := rfl
  closed := rfl
  kept := fun _ _ found => found
  added := fun _ _ missing found => by simp [missing] at found

theorem keepsWays {before after : FileSystem} {path : String}
    (made : DirectoriesAdded before after path) : KeepsWays before after where
  current := made.current
  ways := fun location content _ found => made.kept location content found

theorem linked {before after : FileSystem} {path : String}
    (made : DirectoriesAdded before after path) {place : Location} {target : String}
    (held : after.content? place = some (.link target)) :
    before.content? place = some (.link target) := by
  cases old : before.content? place with
  | none =>
    have directory := (made.added place _ old held).1
    cases directory
  | some content => rw [← made.kept place content old, held]

theorem append {first second third : FileSystem} {path : String}
    (front : DirectoriesAdded first second path) (back : DirectoriesAdded second third path) :
    DirectoriesAdded first third path where
  current := back.current.trans front.current
  closed := back.closed.trans front.closed
  kept := fun location content found => back.kept _ _ (front.kept location content found)
  added := by
    intro location content missing found
    cases before : second.content? location with
    | none => exact back.added location content before found
    | some old =>
      have same : content = old :=
        Option.some.inj (found.symm.trans (back.kept location old before))
      subst same
      obtain ⟨directory, above, higher, named⟩ := front.added location content missing before
      exact ⟨directory, above, higher, named.kept back.keepsWays⟩

theorem higher {before after : FileSystem} {path above : String}
    (made : DirectoriesAdded before after above) (part : Path.parent? path = some above) :
    DirectoriesAdded before after path where
  current := made.current
  closed := made.closed
  kept := made.kept
  added := by
    intro location content missing found
    obtain ⟨directory, top, further, named⟩ := made.added location content missing found
    exact ⟨directory, top, .further part further, named⟩

end DirectoriesAdded

theorem directoryMade {fs made : FileSystem} {path above : String}
    (done : fs.makeDirectory above = .ok made) (higher : Path.Above path above) :
    DirectoriesAdded fs made path := by
  simp only [makeDirectory, bind, Except.bind] at done
  split at done
  · contradiction
  rename_i pair found
  split at done
  · contradiction
  rename_i parent name
  cases free : fs.content? (name :: parent) with
  | some content => simp [free] at done
  | none =>
    simp only [free, pure, Except.pure, Except.ok.injEq] at done
    subst done
    have kept : ∀ location content, fs.content? location = some content →
        (fs.put (name :: parent) .directory).content? location = some content := by
      intro location content held
      rw [contentPut]
      split
      · rename_i same
        rw [same, free] at held
        contradiction
      · exact held
    refine ⟨rfl, rfl, kept, ?_⟩
    intro location content missing held
    rw [contentPut] at held
    split at held
    · rename_i same
      cases held
      have ways : KeepsWays fs (fs.put (name :: parent) .directory) :=
        ⟨rfl, fun location content _ => kept location content⟩
      exact ⟨rfl, above, higher, parent, name, findParentKept ways found, same⟩
    · rw [missing] at held
      contradiction

theorem grantedDone {refusal : Option Fault} {changed : Except Fault FileSystem}
    {after : FileSystem} (done : granted refusal changed = .ok after) : changed = .ok after := by
  unfold granted at done
  split at done
  · contradiction
  · exact done

theorem presentMade {fs made : FileSystem} {path above : String} {disk : Disk}
    (done : fs.orPresent above (fs.makeOn disk above) = .ok made)
    (higher : Path.Above path above) : DirectoriesAdded fs made path := by
  unfold orPresent at done
  split at done
  · split at done
    · cases done
      exact .none fs path
    · contradiction
  · exact directoryMade (grantedDone done) higher

theorem allMade {fs : FileSystem} {path above : String} (part : Path.parent? path = some above)
    (disk : Disk) (fuel : Nat) : DirectoriesAdded fs (makeAll disk fuel fs above).1 path := by
  induction fuel generalizing fs path above with
  | zero => exact .none fs path
  | succ fuel ih =>
    unfold makeAll
    split
    · exact .none fs path
    rename_i top rest
    split
    · rename_i made done
      exact presentMade done (.parent part)
    · have upper := (@ih fs above top rest).higher part
      split
      · rename_i between success
        rw [success] at upper
        split
        · rename_i made done
          exact upper.append (presentMade done (.parent part))
        · exact upper
      · rename_i between fault failure
        rw [failure] at upper
        exact upper
    · exact .none fs path

theorem directoriesMade {fs : FileSystem} {path above : String}
    (part : Path.parent? path = some above) (disk : Disk) :
    DirectoriesAdded fs (fs.makeDirectories disk above).1 path :=
  allMade part disk _

end FileSystem

end SourceModels

import SourceModels.Proofs.FileSystem.Places

/-! Writing, removing and renaming a file under a name that no other file has. -/
namespace SourceModels.FileSystem

def NoFileNamed (fs : FileSystem) (name : String) : Prop :=
  ∀ directory content, fs.content? (name :: directory) = some content → content = .directory

structure Replaced (before after : FileSystem) (target : Location) (data : Bytes) : Prop where
  current : after.current = before.current
  closed : after.closed = before.closed
  held : after.content? target = some (.file data)
  others : ∀ location, location ≠ target → after.content? location = before.content? location

theorem NoFileNamed.kept {before after : FileSystem} {name path : String}
    (unused : NoFileNamed before name) (made : DirectoriesAdded before after path) :
    NoFileNamed after name := by
  intro directory content found
  cases old : before.content? (name :: directory) with
  | none => exact (made.added _ _ old found).1
  | some earlier =>
    have same : earlier = content :=
      Option.some.inj ((made.kept _ _ old).symm.trans found)
    exact same ▸ unused directory earlier old

theorem lastNamed {front : List String} {name : String} (named : name ≠ "." ∧ name ≠ "..")
    {last : Last} (ends : lastOf (front ++ [name]) = .ok last) :
    last = .name name ∧ ¬ maxNameBytes < byteLength name := by
  simp only [lastOf, List.getLast?_append, List.getLast?_singleton, Option.some_or, named.1,
    named.2, or_self, if_false] at ends
  split at ends
  · contradiction
  · rename_i short
    cases ends
    exact ⟨rfl, short⟩

theorem lastShort {front : List String} {name : String} (named : name ≠ "." ∧ name ≠ "..")
    (short : ¬ maxNameBytes < byteLength name) : lastOf (front ++ [name]) = .ok (.name name) := by
  simp [lastOf, named.1, named.2, short]

theorem findLast {fs : FileSystem} {path name : String} {front : List String} {follow : Bool}
    (ends : hasTrailingSlash path = false) (split : names path = front ++ [name])
    (named : name ≠ "." ∧ name ≠ "..")
    (unlinked : ∀ directory target,
      walk fs true maxLinks (fs.startOf path) front = .ok (.at directory .directory) →
      fs.content? (name :: directory) ≠ some (.link target)) {found : Found} :
    fs.find follow path = .ok found ↔ ∃ directory, fs.findParent path = .ok (directory, .name name) ∧
      ((found = .missing directory name ∧ fs.content? (name :: directory) = none) ∨
        ∃ content, found = .at (name :: directory) content ∧
          fs.content? (name :: directory) = some content) := by
  have parts : components path = front ++ [name] := by simp [components, ends, split]
  have front' : (names path).dropLast = front := by simp [split]
  simp only [find, parts, walkLast named unlinked, findParentOk, front', bind, Except.bind]
  cases checked : checkPath path with
  | error fault => simp
  | ok _ =>
    cases short : checkLength path with
    | error fault => simp
    | ok _ =>
      cases led : walk fs true maxLinks (fs.startOf path) front with
      | error fault => simp
      | ok reached =>
        cases reached with
        | missing directory last => simp [Found.enter]
        | «at» location content =>
          cases content with
          | directory =>
            simp only [Found.enter, split]
            by_cases long : maxNameBytes < byteLength name
            · have refused : ∀ last, lastOf (front ++ [name]) ≠ .ok last :=
                fun last ok => (lastNamed named ok).2 long
              simp [long, refused]
            · simp only [if_neg long, lastShort named long]
              cases next : fs.content? (name :: location) with
              | none => constructor <;> simp +contextual [next, eq_comm]
              | some content => constructor <;> simp +contextual [next, eq_comm]
          | _ => simp [Found.enter]

theorem fileWritten {fs staged : FileSystem} {path name : String} {front : List String}
    {data : Bytes} (ends : hasTrailingSlash path = false) (split : names path = front ++ [name])
    (named : name ≠ "." ∧ name ≠ "..") (unused : NoFileNamed fs name)
    (done : fs.writeFile path data = .ok staged) :
    ∃ directory, fs.findParent path = .ok (directory, .name name) ∧
      fs.content? (name :: directory) = none ∧
      staged = fs.put (name :: directory) (.file data) := by
  have unlinked : ∀ directory target,
      walk fs true maxLinks (fs.startOf path) front = .ok (.at directory .directory) →
      fs.content? (name :: directory) ≠ some (.link target) := by
    intro directory target _ linked
    have wrong := unused directory _ linked
    contradiction
  simp only [writeFile, ends, Bool.false_eq_true, if_false, bind, Except.bind] at done
  cases found : fs.find true path with
  | error fault => simp [found] at done
  | ok reached =>
    obtain ⟨directory, parent, missing | ⟨content, there, held⟩⟩ :=
      (findLast ends split named unlinked).mp found
    · obtain ⟨rfl, free⟩ := missing
      simp only [found, pure, Except.pure, Except.ok.injEq] at done
      exact ⟨directory, parent, free, done.symm⟩
    · have directoryHeld := unused directory content held
      subst directoryHeld
      simp [found, there] at done

theorem nothingRemoved {fs : FileSystem} {path name : String} {front : List String}
    (split : names path = front ++ [name]) (named : name ≠ "." ∧ name ≠ "..")
    (unused : NoFileNamed fs name) : ∃ fault, fs.removeFile path = .error fault := by
  simp only [removeFile, bind, Except.bind]
  cases found : fs.findParent path with
  | error fault => exact ⟨fault, rfl⟩
  | ok pair =>
    obtain ⟨directory, last⟩ := pair
    have ends := (findParentOk.mp found).2.2.2
    rw [split] at ends
    obtain ⟨rfl, _⟩ := lastNamed named ends
    cases held : fs.content? (name :: directory) with
    | none => exact ⟨.notFound, by simp [held]⟩
    | some content =>
      have directoryHeld := unused directory content held
      subst directoryHeld
      exact ⟨.isDirectory, by simp [held]⟩

theorem fileAdded {fs : FileSystem} {name : String} {directory : Location} {data : Bytes}
    (free : fs.content? (name :: directory) = none) :
    KeepsWays fs (fs.put (name :: directory) (.file data)) := by
  refine ⟨rfl, ?_⟩
  intro location content _ held
  rw [contentPut, if_neg]
  · exact held
  · intro same
    rw [same, free] at held
    contradiction

theorem fileForgotten {fs : FileSystem} {name : String} {directory : Location} {data : Bytes} :
    KeepsWays (fs.put (name :: directory) (.file data)) fs := by
  refine ⟨rfl, ?_⟩
  intro location content leads held
  rw [contentPut] at held
  split at held
  · cases held
    contradiction
  · exact held

theorem writtenRemoved {fs : FileSystem} {path name : String} {directory : Location} {data : Bytes}
    (parent : fs.findParent path = .ok (directory, .name name))
    (free : fs.content? (name :: directory) = none) :
    (fs.put (name :: directory) (.file data)).removeFile path = .ok fs := by
  have kept : KeepsWays fs (fs.put (name :: directory) (.file data)) := fileAdded free
  have found := findParentKept kept parent
  simp [removeFile, found, bind, Except.bind, contentPut, pure, Except.pure, erasePut _ free]

theorem renamed {fs after : FileSystem} {source target name : String} {directory : Location}
    {content : Content} (parent : fs.findParent source = .ok (directory, .name name))
    (held : fs.content? (name :: directory) = some content)
    (done : fs.rename source target = .ok after) :
    ∃ place last, fs.findParent target = .ok (place, .name last) ∧
      hasTrailingSlash target = false ∧
      fs.content? (last :: place) ≠ some .directory ∧
      after = (fs.erase (name :: directory)).put (last :: place) content := by
  simp only [rename, parent, bind, Except.bind] at done
  cases found : fs.findParent target with
  | error fault => simp [found] at done
  | ok pair =>
    obtain ⟨place, last⟩ := pair
    cases last with
    | noName => simp [found] at done
    | name last =>
      simp only [found, held] at done
      split at done
      · contradiction
      rename_i ends
      split at done
      · contradiction
      rename_i replaceable
      simp only [pure, Except.pure, Except.ok.injEq] at done
      exact ⟨place, last, rfl, by simpa using ends, replaceable, done.symm⟩

theorem lastSplit {path name : String} (ends : lastOf (names path) = .ok (.name name)) :
    names path = (names path).dropLast ++ [name] ∧ (name ≠ "." ∧ name ≠ "..") := by
  cases last : (names path).getLast? with
  | none => simp [lastOf, last] at ends
  | some final =>
    obtain ⟨front, split⟩ := List.getLast?_eq_some_iff.mp last
    simp only [lastOf, last] at ends
    split at ends
    · simp at ends
    rename_i named
    split at ends
    · contradiction
    · cases ends
      exact ⟨by simp [split], not_or.mp named⟩

theorem bytesRead {fs : FileSystem} {path : String} {location : Location} {data : Bytes}
    (found : fs.find true path = .ok (.at location (.file data))) :
    fs.readBytes path = .ok data := by
  simp [readBytes, status, found, existing, Except.map, bind, Except.bind]

theorem unread {fs : FileSystem} {path : String} {fault : Fault}
    (lost : fs.find true path = .error fault) : fs.readBytes path = .error fault := by
  simp [readBytes, status, lost, existing, Except.map, bind, Except.bind]

theorem unlinkedAside {fs : FileSystem} {name : String} {directory : Location}
    (replaceable : fs.content? (name :: directory) ≠ some .directory)
    (unlinked : ∀ link, fs.content? (name :: directory) ≠ some (.link link)) :
    KeepsWays fs (fs.erase (name :: directory)) := by
  refine ⟨rfl, ?_⟩
  intro location content leads held
  rw [contentErase, if_neg]
  · exact held
  · rintro rfl
    cases content with
    | directory => exact replaceable held
    | link link => exact unlinked link held
    | _ => simp [Content.leadsOn] at leads

theorem replacedAside {before after : FileSystem} {name : String} {directory : Location}
    {data : Bytes} (replaced : Replaced before after (name :: directory) data) :
    KeepsWays after (before.erase (name :: directory)) ∧
      KeepsWays (before.erase (name :: directory)) after := by
  refine ⟨⟨replaced.current.symm, ?_⟩, ⟨replaced.current, ?_⟩⟩
  · intro location content leads held
    have other : location ≠ name :: directory := by
      rintro rfl
      rw [replaced.held] at held
      cases held
      simp [Content.leadsOn] at leads
    rw [contentErase, if_neg other, ← replaced.others _ other, held]
  · intro location content leads held
    rw [contentErase] at held
    split at held
    · contradiction
    · rename_i other
      rw [replaced.others _ other, held]

theorem heldFound {fs : FileSystem} {path name : String} {directory : Location} {data : Bytes}
    (parent : fs.findParent path = .ok (directory, .name name)) (ends : hasTrailingSlash path = false)
    (held : fs.content? (name :: directory) = some (.file data)) (follow : Bool) :
    fs.find follow path = .ok (.at (name :: directory) (.file data)) := by
  obtain ⟨_, _, led, last⟩ := findParentOk.mp parent
  obtain ⟨split, plain⟩ := lastSplit last
  have unlinked : ∀ place link,
      walk fs true maxLinks (fs.startOf path) (names path).dropLast = .ok (.at place .directory) →
      fs.content? (name :: place) ≠ some (.link link) := by
    intro place link same
    rw [led] at same
    cases same
    simp [held]
  exact (findLast ends split plain unlinked).mpr ⟨directory, parent, .inr ⟨_, rfl, held⟩⟩

theorem heldRead {fs : FileSystem} {path name : String} {directory : Location} {data : Bytes}
    (parent : fs.findParent path = .ok (directory, .name name)) (ends : hasTrailingSlash path = false)
    (held : fs.content? (name :: directory) = some (.file data)) : fs.readBytes path = .ok data :=
  bytesRead (heldFound parent ends held true)

theorem stoppedLost {fs : FileSystem} {path name : String} {target : Location} {data : Bytes}
    (checked : checkPath path = .ok ()) (short : checkLength path = .ok ())
    (split : names path = (names path).dropLast ++ [name]) (named : name ≠ "." ∧ name ≠ "..")
    (ends : hasTrailingSlash path = false) (stopped : StoppedAt target data
      (walk fs true maxLinks (fs.startOf path) (names path).dropLast)) :
    fs.find true path = .error .notDirectory := by
  have parts : components path = (names path).dropLast ++ [name] := by
    simp [components, ends, ← split]
  have unlinked : ∀ place link,
      walk fs true maxLinks (fs.startOf path) (names path).dropLast = .ok (.at place .directory) →
      fs.content? (name :: place) ≠ some (.link link) := by
    intro place link same
    rcases stopped with reached | lost
    · simp [reached] at same
    · simp [lost] at same
  have through := @walkLast fs name named true maxLinks (fs.startOf path) _ unlinked
  rcases stopped with reached | lost
  · simp [find, checked, short, parts, through, reached, Found.enter, bind, Except.bind]
  · simp [find, checked, short, parts, through, lost, bind, Except.bind]

theorem replacedRead {before after : FileSystem} {path : String} {target : Location} {data : Bytes}
    (replaced : Replaced before after target data) (named : before.Names path target)
    (ends : hasTrailingSlash path = false) (aside : (before.erase target).Names path target) :
    after.readBytes path = .ok data := by
  obtain ⟨directory, name, _, rfl⟩ := named
  obtain ⟨place, last, found, same⟩ := aside
  cases same
  exact heldRead (findParentKept (replacedAside replaced).2 found) ends replaced.held

theorem replacedLost {before after : FileSystem} {path : String} {target : Location} {data : Bytes}
    (replaced : Replaced before after target data) (named : before.Names path target)
    (ends : hasTrailingSlash path = false) (replaceable : before.content? target ≠ some .directory)
    (through : ¬ (before.erase target).Names path target) :
    after.readBytes path = .error .notDirectory := by
  obtain ⟨directory, name, parent, rfl⟩ := named
  obtain ⟨checked, short, led, last⟩ := findParentOk.mp parent
  obtain ⟨split, plain⟩ := lastSplit last
  have start : after.startOf path = before.startOf path := by simp [startOf, replaced.current]
  rcases (walkLeads led).replaced replaced.others replaced.held replaceable with leads | stopped
  · have found : after.findParent path = .ok (directory, .name name) :=
      findParentOk.mpr ⟨checked, short, by rw [start, leads.walked], last⟩
    exact absurd ⟨directory, name, findParentKept (replacedAside replaced).1 found, rfl⟩ through
  · rw [← start] at stopped
    exact unread (stoppedLost checked short split plain ends stopped)

end SourceModels.FileSystem

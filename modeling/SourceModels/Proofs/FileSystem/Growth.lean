import SourceModels.Proofs.Store.Replacement

/-! Changes after which everything is still there: a path that led somewhere, or that could not be
followed, is not one that leads to nothing afterwards. -/
namespace SourceModels.FileSystem

structure Grows (before after : FileSystem) : Prop where
  current : after.current = before.current
  directories : ∀ location, before.content? location = some .directory →
    after.content? location = some .directory
  entries : ∀ location content, before.content? location = some content →
    after.content? location = some content ∨
      ∃ data, after.content? location = some (.file data)

theorem Grows.refl (fs : FileSystem) : Grows fs fs :=
  ⟨rfl, fun _ held => held, fun _ _ held => .inl held⟩

theorem Grows.trans {first middle last : FileSystem} (earlier : Grows first middle)
    (later : Grows middle last) : Grows first last where
  current := later.current.trans earlier.current
  directories := fun location held => later.directories location (earlier.directories location held)
  entries := by
    intro location content held
    rcases earlier.entries location content held with kept | ⟨data, file⟩
    · exact later.entries location content kept
    · rcases later.entries location _ file with kept | changed
      · exact .inr ⟨data, kept⟩
      · exact .inr changed

theorem DirectoriesAdded.grows {before after : FileSystem} {path : String}
    (added : DirectoriesAdded before after path) : Grows before after where
  current := added.current
  directories := fun location held => added.kept location _ held
  entries := fun location content held => .inl (added.kept location content held)

theorem Replaced.grows {before after : FileSystem} {target : Location} {data : Bytes}
    (replaced : Replaced before after target data)
    (replaceable : before.content? target ≠ some .directory) : Grows before after where
  current := replaced.current
  directories := by
    intro location held
    have other : location ≠ target := by
      rintro rfl
      exact replaceable held
    rw [replaced.others location other, held]
  entries := by
    intro location content held
    by_cases same : location = target
    · exact .inr ⟨data, same ▸ replaced.held⟩
    · exact .inl (by rw [replaced.others location same, held])

def Lost (led : Except Fault Found) : Prop := existing led = .error .notFound

def Lacks (fs : FileSystem) (path : String) : Prop := fs.tryExists path = .ok false

theorem lacksLost {fs : FileSystem} {path : String} : fs.Lacks path ↔ Lost (fs.find true path) := by
  unfold Lacks Lost tryExists status
  cases existing (fs.find true path) with
  | ok pair => simp [Except.map]
  | error fault =>
    simp only [Except.map, Except.error.injEq]
    split <;> simp_all

theorem foundNotLost {location : Location} {content : Content} :
    ¬ Lost (.ok (.at location content)) := fun lost => by cases lost

theorem fileNotLost {fs : FileSystem} {links : Nat} {here : Location} {data : Bytes}
    (held : fs.content? here = some (.file data)) (parts : List String) :
    ¬ Lost (walk fs true links here parts) := by
  intro lost
  cases parts with
  | nil =>
    rw [walkHere held] at lost
    exact foundNotLost lost
  | cons name rest =>
    rw [walkBlocked held (by simp) (by simp)] at lost
    cases lost

theorem walkGrown {before after : FileSystem} (grows : Grows before after) {links : Nat}
    {here : Location} {parts : List String} (lost : Lost (walk after true links here parts)) :
    Lost (walk before true links here parts) := by
  induction links, here, parts using walkInduction before with
  | lost free => rw [walkLost free]; rfl
  | here held =>
    rcases grows.entries _ _ held with kept | ⟨data, kept⟩ <;>
    · rw [walkHere kept] at lost
      exact absurd lost foundNotLost
  | blocked held other =>
    rcases grows.entries _ _ held with kept | ⟨data, kept⟩
    · rw [walkBlocked kept other (by simp)] at lost
      cases lost
    · exact absurd lost (fileNotLost kept _)
  | dot held ih =>
    rw [walkDot (grows.directories _ held)] at lost
    rw [walkDot held]
    exact ih lost
  | dots held ih =>
    rw [walkDots (grows.directories _ held)] at lost
    rw [walkDots held]
    exact ih lost
  | @missing links here name rest held named free =>
    by_cases long : maxNameBytes < byteLength name
    · rw [walkLong (grows.directories _ held) named long] at lost
      cases lost
    rw [walkMissing held named free, if_neg long]
    split <;> rfl
  | @down links here name rest content held named next unlinked ih =>
    by_cases long : maxNameBytes < byteLength name
    · rw [walkLong (grows.directories _ held) named long] at lost
      cases lost
    rw [walkDown held named long next unlinked]
    rcases grows.entries _ _ next with kept | ⟨data, kept⟩
    · rw [walkDown (grows.directories _ held) named long kept unlinked] at lost
      exact ih lost
    · rw [walkDown (grows.directories _ held) named long kept (by simp)] at lost
      exact absurd lost (fileNotLost kept _)
  | @link links here name target rest held named next ih =>
    by_cases long : maxNameBytes < byteLength name
    · rw [walkLong (grows.directories _ held) named long] at lost
      cases lost
    rcases grows.entries _ _ next with kept | ⟨data, kept⟩
    · rw [walkAtLink (grows.directories _ held) named kept fun _ => rfl, if_neg long] at lost
      rw [walkAtLink held named next fun _ => rfl, if_neg long]
      by_cases empty : target = ""
      · rw [if_pos empty]
        rfl
      rw [if_neg empty] at lost ⊢
      cases links with
      | zero => exact lost
      | succ fewer => exact ih fewer rfl lost
    · rw [walkDown (grows.directories _ held) named long kept (by simp)] at lost
      exact absurd lost (fileNotLost kept _)

theorem Grows.lacked {before after : FileSystem} (grows : Grows before after) {path : String}
    (lacks : after.Lacks path) : before.Lacks path := by
  rw [lacksLost] at lacks ⊢
  simp only [find, bind, Except.bind] at lacks ⊢
  split at lacks
  · exact lacks
  · split at lacks
    · exact lacks
    · have start : after.startOf path = before.startOf path := by simp [startOf, grows.current]
      rw [start] at lacks
      exact walkGrown grows lacks

theorem Lacks.unread {fs : FileSystem} {path : String} (lacks : fs.Lacks path) :
    fs.readBytes path = .error .notFound := by
  rw [lacksLost, Lost] at lacks
  simp [readBytes, status, lacks, Except.map, bind, Except.bind]

theorem namedLast {fs : FileSystem} {path : String} {target : Location}
    (named : fs.Names path target) : target.head? = (names path).getLast? := by
  obtain ⟨directory, name, found, rfl⟩ := named
  obtain ⟨_, _, _, ends⟩ := findParentOk.mp found
  obtain ⟨split, _⟩ := lastSplit ends
  rw [split, List.getLast?_concat, List.head?_cons]

structure Touches (before after : FileSystem) (path : String) : Prop where
  grows : Grows before after
  kept : ∀ location content, before.content? location = some content →
    location.head? ≠ (names path).getLast? → after.content? location = some content
  added : ∀ location content, before.content? location = none →
    after.content? location = some content →
    content = .directory ∨ location.head? = (names path).getLast?

theorem Touches.refl (fs : FileSystem) (path : String) : Touches fs fs path where
  grows := .refl fs
  kept := fun _ _ held _ => held
  added := fun _ _ missing held => by simp [missing] at held

theorem DirectoriesAdded.touches {before after : FileSystem} {path : String}
    (made : DirectoriesAdded before after path) : Touches before after path where
  grows := made.grows
  kept := fun location content held _ => made.kept location content held
  added := fun location content missing held => .inl (made.added location content missing held).1

theorem DirectoriesAdded.touchesReplaced {before made after : FileSystem} {path : String}
    {target : Location} {data : Bytes} (added : DirectoriesAdded before made path)
    (done : Store.ReplacedAt made after path target data) : Touches before after path where
  grows := added.grows.trans (done.replaced.grows done.replaceable)
  kept := by
    intro location content held elsewhere
    have other : location ≠ target := by
      rintro rfl
      exact elsewhere (namedLast done.named)
    rw [done.replaced.others location other, added.kept location content held]
  added := by
    intro location content missing held
    by_cases same : location = target
    · exact .inr (same ▸ namedLast done.named)
    · rw [done.replaced.others location same] at held
      exact .inl (added.added location content missing held).1

theorem NoFileNamed.touched {before after : FileSystem} {name path : String}
    (unused : NoFileNamed before name) (touches : Touches before after path)
    (other : (names path).getLast? ≠ some name) : NoFileNamed after name := by
  intro directory content found
  have elsewhere : (name :: directory).head? ≠ (names path).getLast? := fun same => other same.symm
  cases old : before.content? (name :: directory) with
  | none => exact (touches.added _ _ old found).resolve_right elsewhere
  | some earlier =>
    have kept := touches.kept _ _ old elsewhere
    rw [found] at kept
    cases kept
    exact unused directory content old

theorem replacedPresent {before after : FileSystem} {path : String} {target : Location}
    {data : Bytes} (done : Store.ReplacedAt before after path target data) :
    ¬ after.Lacks path := by
  intro lacks
  have unread := lacks.unread
  by_cases alone : Store.Independent before path target
  · simp [done.read alone] at unread
  · simp [done.lost alone] at unread

end SourceModels.FileSystem

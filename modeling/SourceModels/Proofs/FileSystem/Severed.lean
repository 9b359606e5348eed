import SourceModels.Proofs.FileSystem.Growth
import SourceModels.Proofs.FileSystem.Making

/-! Links that become files. What could be found before can be found after, unless the way to it
runs through such a link. -/
namespace SourceModels.FileSystem

def Barred (before after : FileSystem) (places : List Location) (led : Except Fault Found) : Prop :=
  ∃ place ∈ places, ∃ target data, before.content? place = some (.link target) ∧
    after.content? place = some (.file data) ∧ StoppedAt place data led

theorem Barred.more {before after : FileSystem} {places further : List Location}
    {led : Except Fault Found} (barred : Barred before after places led)
    (within : places ⊆ further) : Barred before after further led := by
  obtain ⟨place, inside, stopped⟩ := barred
  exact ⟨place, within inside, stopped⟩

theorem walkStays {before after : FileSystem} (grows : Grows before after) {links : Nat}
    {here location : Location} {parts : List String} {content : Content}
    (led : walk before true links here parts = .ok (.at location content)) :
    (∃ later, walk after true links here parts = .ok (.at location later) ∧
      after.content? location = some later) ∨
      Barred before after (passed after links here parts) (walk after true links here parts) := by
  replace led := walkFinds led
  generalize ends : Found.at location content = found at led
  induction led with
  | here held =>
    cases ends
    rcases grows.entries _ _ held with kept | ⟨data, kept⟩
    · exact .inl ⟨_, walkHere kept, kept⟩
    · exact .inl ⟨_, walkHere kept, kept⟩
  | dot held _ ih =>
    rw [walkDot (grows.directories _ held), passedDot (grows.directories _ held)]
    exact ih ends
  | dots held _ ih =>
    rw [walkDots (grows.directories _ held), passedDots (grows.directories _ held)]
    exact ih ends
  | free => cases ends
  | down held named short next unlinked _ ih =>
    obtain ⟨later, kept, plain⟩ : ∃ later, after.content? (_ :: _) = some later ∧
        ∀ target, later ≠ .link target := by
      rcases grows.entries _ _ next with kept | ⟨data, kept⟩
      · exact ⟨_, kept, unlinked⟩
      · exact ⟨_, kept, by simp⟩
    rw [walkDown (grows.directories _ held) named short kept plain,
      passedDown (grows.directories _ held) named kept plain]
    exact (ih ends).imp_right fun barred => barred.more (List.subset_cons_self ..)
  | @link _ here name target rest _ held named short next filled _ ih =>
    rcases grows.entries _ _ next with kept | ⟨data, kept⟩
    · rw [walkLink (grows.directories _ held) named short kept filled,
        passedAcross (grows.directories _ held) named kept]
      exact (ih ends).imp_right fun barred => barred.more (List.subset_cons_self ..)
    · -- the link has become a file: the walk ends there or cannot go on
      refine .inr ⟨name :: here, passedFirst (grows.directories _ held) named rest, target, data,
        next, kept, ?_⟩
      rw [walkDown (grows.directories _ held) named short kept (by simp)]
      cases rest with
      | nil => exact .inl (walkHere kept)
      | cons further rest => exact .inr (walkBlocked kept (by simp) (by simp))

theorem passedFront (fs : FileSystem) (links : Nat) (here : Location) (front rest : List String) :
    passed fs links here front ⊆ passed fs links here (front ++ rest) := by
  induction links, here, front using walkInduction fs with
  | lost free =>
    rw [passedStill (by simp [free])]
    exact List.nil_subset _
  | here held =>
    rw [passedHere]
    exact List.nil_subset _
  | blocked held other =>
    rw [passedStill (by simpa [held] using other)]
    exact List.nil_subset _
  | dot held ih =>
    rw [List.cons_append, passedDot held, passedDot held]
    exact ih
  | dots held ih =>
    rw [List.cons_append, passedDots held, passedDots held]
    exact ih
  | missing held named free =>
    rw [List.cons_append, passedMissing held named free, passedMissing held named free]
    exact List.Subset.refl _
  | down held named next unlinked ih =>
    rw [List.cons_append, passedDown held named next unlinked, passedDown held named next unlinked]
    exact List.cons_subset_cons _ ih
  | @link links here name target more held named next ih =>
    rw [List.cons_append, passedAtLink held named next, passedAtLink held named next]
    refine List.cons_subset_cons _ ?_
    cases links with
    | zero => exact List.nil_subset _
    | succ fewer => simpa only [List.append_assoc] using ih fewer rfl

/-- The path cannot be followed any more: it looks up an entry that was a link and is now a file. -/
def Severed (before after : FileSystem) (path : String) : Prop :=
  after.tryExists path = .error .notDirectory ∧
    ∃ place ∈ after.passed maxLinks (after.startOf path) (components path), ∃ target data,
      before.content? place = some (.link target) ∧ after.content? place = some (.file data)

theorem Severed.since {before middle after : FileSystem} {path : String}
    (severed : Severed middle after path)
    (links : ∀ place target, middle.content? place = some (.link target) →
      before.content? place = some (.link target)) : Severed before after path := by
  obtain ⟨stopped, place, inside, target, data, linked, file⟩ := severed
  exact ⟨stopped, place, inside, target, data, links place target linked, file⟩

theorem existsFound {fs : FileSystem} {path : String} : fs.tryExists path = .ok true ↔
    ∃ location content, fs.find true path = .ok (.at location content) := by
  unfold tryExists status
  cases found : fs.find true path with
  | error fault =>
    simp only [existing, Except.map]
    split <;> simp_all
  | ok reached => cases reached <;> simp [existing, Except.map]

theorem existsRead {fs : FileSystem} {path : String} {data : Bytes}
    (read : fs.readBytes path = .ok data) : fs.tryExists path = .ok true := by
  simp only [readBytes, bind, Except.bind] at read
  unfold tryExists
  cases held : fs.status path with
  | error fault => simp [held] at read
  | ok content => rfl

theorem existsStopped {fs : FileSystem} {path : String}
    (stopped : fs.find true path = .error .notDirectory) :
    fs.tryExists path = .error .notDirectory := by
  simp [tryExists, status, stopped, existing, Except.map]

theorem Grows.start {before after : FileSystem} (grows : Grows before after) (path : String) :
    after.startOf path = before.startOf path := by
  simp [startOf, grows.current]

theorem Grows.present {before after : FileSystem} (grows : Grows before after) {path : String}
    (there : before.tryExists path = .ok true) :
    after.tryExists path = .ok true ∨ Severed before after path := by
  obtain ⟨location, content, found⟩ := existsFound.mp there
  simp only [find, bind, Except.bind] at found
  split at found
  · cases found
  rename_i checked
  split at found
  · cases found
  rename_i short
  have same : after.find true path =
      walk after true maxLinks (before.startOf path) (components path) := by
    simp [find, checked, short, grows.start, bind, Except.bind]
  rcases walkStays grows found with
    ⟨later, led, _⟩ | ⟨place, inside, target, data, linked, file, ends | stopped⟩
  · exact .inl (existsFound.mpr ⟨location, later, same.trans led⟩)
  · exact .inl (existsFound.mpr ⟨place, _, same.trans ends⟩)
  · exact .inr ⟨existsStopped (same.trans stopped), place, by rwa [grows.start], target, data,
      linked, file⟩

end SourceModels.FileSystem

namespace SourceModels.Store
open FileSystem

theorem ReplacedAt.present {before after later : FileSystem} {path : String} {target : Location}
    {data : Bytes} (done : ReplacedAt before after path target data) (grows : Grows after later) :
    later.tryExists path = .ok true ∨ Severed before later path := by
  obtain ⟨directory, name, parent, rfl⟩ := done.named
  obtain ⟨checked, short, led, last⟩ := findParentOk.mp parent
  obtain ⟨split, plain⟩ := lastSplit last
  have whole := (done.replaced.grows done.replaceable).trans grows
  obtain ⟨stored, file⟩ : ∃ stored, later.content? (name :: directory) = some (.file stored) := by
    rcases grows.entries _ _ done.replaced.held with kept | changed
    · exact ⟨data, kept⟩
    · exact changed
  rcases walkStays whole led with
    ⟨content, led', held⟩ | ⟨place, inside, link, bytes, linked, barrier, stopped⟩
  · rw [whole.directories directory (walkLeads led).ends] at held
    cases held
    have found : later.findParent path = .ok (directory, .name name) :=
      findParentOk.mpr ⟨checked, short, by rw [whole.start, led'], last⟩
    exact .inl (existsRead (heldRead found done.ends file))
  · rw [← whole.start path] at stopped inside
    have parts : components path = (names path).dropLast ++ [name] := by
      simp [components, done.ends, ← split]
    refine .inr ⟨existsStopped (stoppedLost checked short split plain done.ends stopped),
      place, ?_, link, bytes, linked, barrier⟩
    rw [parts]
    exact passedFront _ _ _ _ _ inside

end SourceModels.Store

import SourceModels.Proofs.FileSystem.Making
import SourceModels.Proofs.FileSystem.Regular

/-! Paths that do not look at anything below a directory lead where they did, whatever has changed
there. -/
namespace SourceModels.FileSystem

theorem Under.upper {top location upper : Location} (under : Under top upper)
    (above : upper <:+ location) : Under top location := by
  cases upper with
  | nil => exact under.elim
  | cons name directory =>
    obtain ⟨front, rfl⟩ := above
    cases front with
    | nil => exact under
    | cons first rest =>
      exact List.IsSuffix.trans under ⟨rest ++ [name], by simp⟩

section
variable {fs : FileSystem} {links : Nat} {here location : Location} {parts : List String}

theorem Leads.passedNext (leads : Leads fs links here parts location) {name : String}
    (named : name ≠ "." ∧ name ≠ "..") : name :: location ∈ passed fs links here (parts ++ [name]) := by
  induction leads with
  | here held => exact passedFirst held named []
  | dot held _ ih => simpa only [List.cons_append, passedDot held] using ih
  | dots held _ ih => simpa only [List.cons_append, passedDots held] using ih
  | down held named' short next _ ih =>
    rw [List.cons_append, passedDown held named' next (by simp)]
    exact List.mem_cons_of_mem _ ih
  | link held named' short next filled _ ih =>
    rw [List.cons_append, passedAcross held named' next]
    rw [List.append_assoc] at ih
    exact List.mem_cons_of_mem _ ih

theorem Regular.passedAlong (regular : Regular fs) {names : List String} {content : Content}
    (held : fs.content? (names.reverse ++ here) = some content)
    (unlinked : ∀ target, content ≠ .link target) :
    ∀ place ∈ passed fs links here names, place <:+ names.reverse ++ here := by
  induction names generalizing here with
  | nil =>
    intro place inside
    simp [passedHere] at inside
  | cons name rest ih =>
    rw [List.reverse_cons, List.append_assoc, List.singleton_append] at held ⊢
    obtain ⟨next, there, plain⟩ : ∃ next, fs.content? (name :: here) = some next ∧
        ∀ target, next ≠ .link target := by
      rcases regular.along held with none | directory
      · exact ⟨content, by simpa [none] using held, unlinked⟩
      · exact ⟨.directory, directory, by simp⟩
    have entry := regular.named there name List.mem_cons_self
    rw [passedDown (regular.above there) entry.named there plain]
    intro place inside
    rcases List.mem_cons.mp inside with rfl | later
    · exact List.suffix_append ..
    · exact ih held place later

theorem walkPassed (regular : Regular fs) {content : Content}
    (held : fs.content? here = some .directory)
    (found : walk fs true links here parts = .ok (.at location content)) :
    fs.content? location = some .directory ∨ location ∈ passed fs links here parts := by
  have either : fs.content? location = some .directory ∨ location = here ∨
      location ∈ passed fs links here parts := by
    clear held
    replace found := walkFinds found
    generalize ends : Found.at location content = led at found
    induction found with
    | here =>
      cases ends
      exact .inr (.inl rfl)
    | dot held _ ih =>
      rw [passedDot held]
      exact ih ends
    | dots held _ ih =>
      rw [passedDots held]
      rcases ih ends with directory | rfl | inside
      · exact .inl directory
      · exact .inl (regular.tail held)
      · exact .inr (.inr inside)
    | free => cases ends
    | down held named _ next unlinked _ ih =>
      rw [passedDown held named next unlinked]
      refine (ih ends).imp_right fun reached => .inr ?_
      rcases reached with rfl | inside
      · exact List.mem_cons_self
      · exact List.mem_cons_of_mem _ inside
    | link held named _ next _ _ ih =>
      rw [passedAcross held named next]
      rcases ih ends with directory | rfl | inside
      · exact .inl directory
      · refine .inl ?_
        split
        · rfl
        · exact held
      · exact .inr (.inr (List.mem_cons_of_mem _ inside))
  rcases either with directory | rfl | inside
  · exact .inl directory
  · exact .inl held
  · exact .inr inside

end

section
variable {before after : FileSystem}

theorem walkAlike (regular : Regular before)
    (directories : ∀ location, before.content? location = some .directory →
      after.content? location = some .directory)
    {follow : Bool} {links : Nat} {here : Location} {parts : List String}
    (same : after.content? here = before.content? here)
    (alike : ∀ location ∈ passed before links here parts,
      after.content? location = before.content? location) :
    walk after follow links here parts = walk before follow links here parts ∧
      passed after links here parts = passed before links here parts := by
  induction links, here, parts using walkInduction before with
  | lost free =>
    rw [walkLost free, walkLost (same.trans free), passedStill (by simp [same.trans free]),
      passedStill (by simp [free])]
    exact ⟨rfl, rfl⟩
  | here held =>
    rw [walkHere held, walkHere (same.trans held), passedHere, passedHere]
    exact ⟨rfl, rfl⟩
  | blocked held other =>
    rw [walkBlocked held other (by simp), walkBlocked (same.trans held) other (by simp),
      passedStill (by simpa [same.trans held] using other), passedStill (by simpa [held] using other)]
    exact ⟨rfl, rfl⟩
  | dot held ih =>
    rw [passedDot held] at alike ⊢
    rw [walkDot held, walkDot (directories _ held), passedDot (directories _ held)]
    exact ih same alike
  | dots held ih =>
    have up := regular.tail held
    rw [passedDots held] at alike ⊢
    rw [walkDots held, walkDots (directories _ held), passedDots (directories _ held)]
    exact ih ((directories _ up).trans up.symm) alike
  | missing held named free =>
    have next := alike _ (passedFirst held named _)
    rw [walkMissing held named free, passedMissing held named free]
    rw [walkMissing (directories _ held) named (next.trans free),
      passedMissing (directories _ held) named (next.trans free)]
    exact ⟨rfl, rfl⟩
  | @down links here name rest content held named there unlinked ih =>
    have next := alike _ (passedFirst held named _)
    rw [passedDown held named there unlinked] at alike ⊢
    rw [passedDown (directories _ held) named (next.trans there) unlinked]
    obtain ⟨walks, passes⟩ :=
      ih next fun location inside => alike location (List.mem_cons_of_mem _ inside)
    rw [passes]
    by_cases long : maxNameBytes < byteLength name
    · rw [walkLong held named long, walkLong (directories _ held) named long]
      exact ⟨rfl, rfl⟩
    · rw [walkDown held named long there unlinked,
        walkDown (directories _ held) named long (next.trans there) unlinked]
      exact ⟨walks, rfl⟩
  | @link links here name target rest held named there ih =>
    have next := (alike _ (passedFirst held named _)).trans there
    have start : after.content? (if Path.isAbsolute target then [] else here) =
        before.content? (if Path.isAbsolute target then [] else here) := by
      split
      · rfl
      · exact same
    have later := fun fewer (less : links = fewer + 1) =>
      ih fewer less start fun location inside => alike location <| by
        rw [less, passedAcross held named there]
        exact List.mem_cons_of_mem _ inside
    refine ⟨?_, ?_⟩
    · by_cases stays : rest = [] ∧ follow = false
      · obtain ⟨rfl, rfl⟩ := stays
        by_cases long : maxNameBytes < byteLength name
        · rw [walkLong held named long, walkLong (directories _ held) named long]
        · rw [walkEntry held named long there, walkEntry (directories _ held) named long next]
      have on : rest = [] → follow = true := by simpa using stays
      rw [walkAtLink held named there on, walkAtLink (directories _ held) named next on]
      cases links with
      | zero => rfl
      | succ fewer => simp only [(later fewer rfl).1]
    · rw [passedAtLink held named there, passedAtLink (directories _ held) named next]
      cases links with
      | zero => rfl
      | succ fewer => simp only [(later fewer rfl).2]

structure Aside (top : Location) (before after : FileSystem) : Prop where
  outside : AlikeOutside top before after
  directories : ∀ location, before.content? location = some .directory →
    after.content? location = some .directory

def Clear (fs : FileSystem) (top : Location) (path : String) : Prop :=
  ∀ location ∈ fs.passed maxLinks (fs.startOf path) (components path), ¬ Under top location

variable {top : Location} {path : String}

theorem Aside.start (aside : Aside top before after) (path : String) :
    after.startOf path = before.startOf path := by
  simp only [startOf, aside.outside.current]

theorem Aside.walked (aside : Aside top before after) (regular : Regular before)
    (clear : Clear before top path) :
    (∀ follow, walk after follow maxLinks (after.startOf path) (components path) =
      walk before follow maxLinks (before.startOf path) (components path)) ∧
    passed after maxLinks (after.startOf path) (components path) =
      passed before maxLinks (before.startOf path) (components path) := by
  have alike := fun location inside => aside.outside.content location (clear location inside)
  have held := regular.start path
  have both := fun follow => @walkAlike before after regular aside.directories follow maxLinks _ _
    ((aside.directories _ held).trans held.symm) alike
  rw [aside.start]
  exact ⟨fun follow => (both follow).1, (both true).2⟩

theorem Aside.found (aside : Aside top before after) (regular : Regular before)
    (clear : Clear before top path) (follow : Bool) :
    after.find follow path = before.find follow path := by
  simp only [find, (aside.walked regular clear).1]

theorem Aside.located (aside : Aside top before after) (regular : Regular before)
    (clear : Clear before top path) : after.locate path = before.locate path := by
  obtain ⟨walks, passes⟩ := aside.walked regular clear
  simp only [locate, walks, passes]

theorem Regular.clearText (regular : Regular before) {location : Location} {content : Content}
    (held : before.content? location = some content) (unlinked : ∀ target, content ≠ .link target)
    (outside : ¬ Under top location) : Clear before top location.text := by
  intro place inside under
  rw [startOf, textAbsolute, if_pos rfl, textComponents (regular.named held)] at inside
  have along := @regular.passedAlong _ maxLinks [] location.reverse content (by simpa using held)
    unlinked place inside
  exact outside (under.upper (by simpa using along))

end

end SourceModels.FileSystem

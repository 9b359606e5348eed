import SourceModels.Proofs.FileSystem.Files
import SourceModels.Proofs.FileSystem.Making
import SourceModels.Proofs.FileSystem.Stages
import SourceModels.Proofs.Outcome
import SourceModels.Proofs.Utf8
import SourceModels.Resolution

/-! How resolving a path ends: with the real location, where the lookup comes to an entry, and else
with a fault that tells a dangling link from all other failures. -/
namespace SourceModels

namespace FileSystem

def start (fs : FileSystem) (path : String) : Stage := ⟨0, fs.startOf path, components path⟩

def Comes (fs : FileSystem) (path : String) (s : Stage) : Prop :=
  Stage.Reaches fs (fs.start path) s ∧ s.followed ≤ maxLinks

def FollowsTooMany (fs : FileSystem) (path : String) : Prop :=
  ∃ s, Stage.Reaches fs (fs.start path) s ∧ maxLinks < s.followed

def Endless (fs : FileSystem) (path : String) : Prop :=
  ∀ s, Stage.Reaches fs (fs.start path) s → ∃ t, Stage.Next fs s t

def nameFits (location : Location) : Bool :=
  match location with
  | [] => true
  | name :: _ => decide (¬ maxNameBytes < byteLength name)

def Measured (fs : FileSystem) (path : String) : Prop :=
  ∀ s location, fs.Comes path s → s.LooksUp fs location →
    isOverlong location = false ∧ nameFits location = true

def LinkItself (fs : FileSystem) (path : String) : Prop :=
  ∃ front name directory target, names path = front ++ [name] ∧
    Leads fs maxLinks (fs.startOf path) front directory ∧
    fs.content? (name :: directory) = some (.link target)

structure Real (fs : FileSystem) (path : String) : Prop where
  absolute : Path.isAbsolute path = true
  plain : ∀ name ∈ names path, name ≠ "." ∧ name ≠ ".."
  spelt : path = Location.text (names path).reverse
  there : ∃ content, fs.content? (names path).reverse = some content
  unlinked : ∀ front, front <+: names path → ∀ target,
    fs.content? front.reverse ≠ some (.link target)

namespace Stage

variable {fs : FileSystem} {s : Stage}

theorem Arrived.walked (arrived : s.Arrived fs) :
    ∃ content, fs.content? s.here = some content ∧ s.walk fs = .ok (s.here, content) := by
  obtain ⟨none, content, held⟩ := arrived
  exact ⟨content, held, by simp only [Stage.walk, none, walkHere held, existing]⟩

theorem missingWalked {location : Location} (looked : s.LooksUp fs location)
    (missing : fs.content? location = none) :
    s.walk fs = .error (if nameFits location then .notFound else .nameTooLong) := by
  obtain ⟨followed, here, ahead⟩ := s
  obtain ⟨name, rest, rfl, held, named, rfl⟩ := looked
  simp only [Stage.walk, walkMissing held named missing, nameFits, decide_eq_true_eq, ite_not]
  split
  · rfl
  · split <;> rfl

theorem Blocked.walked (blocked : s.Blocked fs) : s.walk fs = .error .notDirectory := by
  obtain ⟨followed, here, ahead⟩ := s
  obtain ⟨more, content, held, other⟩ := blocked
  simp only [Stage.walk, walkBlocked held other more, existing]

theorem Spent.walked (regular : Regular fs) (filled : LinksFilled fs) (spent : s.Spent fs) :
    s.walk fs = .error .tooManyLinks := by
  obtain ⟨name, target, rest, ahead, none, held, named, next⟩ := spent.atLink
  have entry := regular.named next _ List.mem_cons_self
  rw [Stage.walk, ahead, none, walkSpent held named entry.short next (filled _ _ next) fun _ => rfl]
  rfl

theorem Ended.spent {fs : FileSystem} {s t : Stage} (ended : s.Ended fs) (next : Next fs s t) :
    s.Spent fs := by
  rcases ended with ⟨none, _⟩ | ⟨location, ⟨_, _, same, held, named, rfl⟩, missing⟩ |
    ⟨_, content, held, other⟩ | spent
  · cases next <;> contradiction
  · cases next with
    | dot => exact absurd (List.cons.inj same).1.symm named.1
    | dots => exact absurd (List.cons.inj same).1.symm named.2
    | down _ _ next =>
      rw [(List.cons.inj same).1] at next
      exact absurd (missing.symm.trans next) (by simp)
    | link _ _ next =>
      rw [(List.cons.inj same).1] at next
      exact absurd (missing.symm.trans next) (by simp)
  · cases next <;> exact absurd (Option.some.inj (held.symm.trans ‹_›)) other
  · exact spent

end Stage

variable {fs : FileSystem} {path : String}

section
variable (regular : Regular fs) (filled : LinksFilled fs)
include regular

theorem startStands (path : String) : (fs.start path).Standing fs :=
  ⟨.directory, regular.start path, by simp⟩

theorem comesToEnd (path : String) : ∃ s, fs.Comes path s ∧ s.Ended fs := by
  obtain ⟨last, reaches, few, ended⟩ :=
    regular.ends (startStands regular path) (Nat.zero_le maxLinks)
  exact ⟨last, ⟨reaches, few⟩, ended⟩

theorem spentOf (many : FollowsTooMany fs path ∨ Endless fs path) :
    ∃ s, fs.Comes path s ∧ s.Spent fs := by
  rcases many with ⟨t, reaches, beyond⟩ | endless
  · obtain ⟨s, before, spent⟩ := Stage.Reaches.spent reaches (Nat.zero_le maxLinks) beyond
    obtain ⟨u, next, few, beyond⟩ := spent
    exact ⟨s, ⟨before, few⟩, u, next, few, beyond⟩
  · obtain ⟨s, comes, ended⟩ := comesToEnd regular path
    obtain ⟨t, next⟩ := endless s comes.1
    exact ⟨s, comes, ended.spent next⟩

theorem measuredPasses (measured : Measured fs path) :
    ((fs.start path).passed fs).any isOverlong = false := by
  rw [List.any_eq_false]
  intro location inside
  obtain ⟨s, reaches, few, looked⟩ :=
    (regular.passedMeans (startStands regular path) (Nat.zero_le _)).mp inside
  simp [(measured s location ⟨reaches, few⟩ looked).1]

include filled

theorem locatedFrom (checked : checkPath path = .ok ()) {s : Stage} (comes : fs.Comes path s) :
    fs.locate path = if ((fs.start path).passed fs).any isOverlong then .error .nameTooLong
      else (s.walk fs).bind fun found =>
        if isOverlong found.1 then .error .nameTooLong else .ok found.1 := by
  rw [← regular.walkReached filled comes.1 comes.2]
  simp only [locate, checked, bind, Except.bind]
  rfl

theorem locatedMeasured (checked : checkPath path = .ok ()) (measured : Measured fs path)
    {s : Stage} (comes : fs.Comes path s) :
    fs.locate path = (s.walk fs).bind fun found =>
        if isOverlong found.1 then .error .nameTooLong else .ok found.1 := by
  rw [locatedFrom regular filled checked comes, measuredPasses regular measured]
  rfl

theorem locatedUnmeasured (checked : checkPath path = .ok ()) (beyond : ¬ Measured fs path) :
    fs.locate path = .error .nameTooLong := by
  by_cases long : ((fs.start path).passed fs).any isOverlong = true
  · obtain ⟨s, comes, _⟩ := comesToEnd regular path
    rw [locatedFrom regular filled checked comes, if_pos long]
  -- no location is too long, so that a name is, which then is that of no entry
  simp only [Measured, Classical.not_forall, not_and, Bool.not_eq_true] at beyond
  obtain ⟨s, location, comes, looked, beyond⟩ := beyond
  have within : isOverlong location = false := by
    have passed := Stage.passedReached comes.1 comes.2 looked
    simp only [List.any_eq_true, not_exists, not_and, Bool.not_eq_true] at long
    exact long location passed
  have longName := beyond within
  have missing : fs.content? location = none := by
    obtain ⟨name, rest, _, _, _, rfl⟩ := looked
    cases held : fs.content? (name :: s.here) with
    | none => rfl
    | some content =>
      have short := (regular.named held name List.mem_cons_self).short
      simp [nameFits, short] at longName
  rw [locatedFrom regular filled checked comes, if_neg long,
    Stage.missingWalked looked missing, longName]
  rfl

end

theorem leadsNulless (regular : Regular fs) {links : Nat} {here location : Location}
    {parts : List String} (leads : Leads fs links here parts location) :
    ∀ name ∈ parts, '\x00' ∉ name.toList := by
  induction leads with
  | here => simp
  | dot _ _ ih => exact List.forall_mem_cons.mpr ⟨by decide, ih⟩
  | dots _ _ ih => exact List.forall_mem_cons.mpr ⟨by decide, ih⟩
  | down _ _ _ next _ ih =>
    exact List.forall_mem_cons.mpr ⟨(regular.named next _ List.mem_cons_self).noNul, ih⟩
  | link _ _ _ next _ _ ih =>
    refine List.forall_mem_cons.mpr ⟨(regular.named next _ List.mem_cons_self).noNul, ?_⟩
    exact fun name inside => ih name (List.mem_append_right _ inside)

theorem checkedNames (filled : names path ≠ [])
    (nulless : ∀ name ∈ names path, '\x00' ∉ name.toList) : checkPath path = .ok () := by
  have noNul : '\x00' ∉ path.toList := by
    intro nul
    obtain ⟨part, listed, held⟩ := @Path.splitCovers '/' _ _ nul (by decide)
    have name : String.ofList part ∈ names path :=
      List.mem_map_of_mem (List.mem_filter.mpr ⟨listed, by simpa using List.ne_nil_of_mem held⟩)
    exact nulless _ name (by rwa [String.toList_ofList])
  have some : path ≠ "" := by
    rintro rfl
    exact filled (by decide)
  simp [checkPath, noNul, some]

theorem linkChecked (regular : Regular fs) (link : LinkItself fs path) :
    checkPath path = .ok () := by
  obtain ⟨front, name, directory, target, split, leads, held⟩ := link
  have entry := regular.named held name List.mem_cons_self
  refine checkedNames (by simp [split]) ?_
  rw [split]
  intro part inside
  rcases List.mem_append.mp inside with before | last
  · exact leadsNulless regular leads part before
  · rw [List.mem_singleton.mp last]
    exact entry.noNul

def Stage.EndsInLink (fs : FileSystem) (s : Stage) : Prop :=
  ∃ front name directory target, s.ahead = front ++ [name] ∧
    Leads fs (maxLinks - s.followed) s.here front directory ∧
    fs.content? (name :: directory) = some (.link target)

section
variable (regular : Regular fs) (filled : LinksFilled fs) {s t : Stage} {location : Location}
  {target : String}
  (found : walk fs false (maxLinks - s.followed) s.here s.ahead =
    .ok (.at location (.link target)))
include regular filled found

theorem endedInLink (stands : s.Standing fs) (ended : s.Ended fs) : s.EndsInLink fs := by
  rcases ended with ⟨none, content, held⟩ | ⟨_, ⟨name, rest, some, held, named, rfl⟩, missing⟩ |
    ⟨more, content, held, other⟩ | spent
  · obtain ⟨_, there, unlinked⟩ := stands
    rw [none, walkHere there] at found
    cases found
    exact absurd rfl (unlinked target)
  · rw [some, walkMissing held named missing] at found
    split at found
    · contradiction
    · split at found <;> simp at found
  · rw [walkBlocked held other more] at found
    contradiction
  · obtain ⟨name, link, rest, ahead, none, held, named, next⟩ := spent.atLink
    have entry := regular.named next _ List.mem_cons_self
    by_cases ends : rest = []
    · subst ends
      exact ⟨[], name, s.here, link, ahead, .here held, next⟩
    · rw [ahead, none, walkSpent held named entry.short next (filled _ _ next)
        fun beyond => absurd beyond ends] at found
      contradiction

theorem nextInLink (next : Stage.Next fs s t) (few : t.followed ≤ maxLinks)
    (later : walk fs false (maxLinks - t.followed) t.here t.ahead =
      .ok (.at location (.link target)) → t.EndsInLink fs) : s.EndsInLink fs := by
  cases next with
  | dot held =>
    rw [walkDot held] at found
    obtain ⟨front, name, directory, link, rfl, leads, linked⟩ := later found
    exact ⟨_ :: front, name, directory, link, rfl, .dot held leads, linked⟩
  | dots held =>
    rw [walkDots held] at found
    obtain ⟨front, name, directory, link, rfl, leads, linked⟩ := later found
    exact ⟨_ :: front, name, directory, link, rfl, .dots held leads, linked⟩
  | down held named next unlinked =>
    have entry := regular.named next _ List.mem_cons_self
    rw [walkDown held named entry.short next unlinked] at found
    obtain ⟨front, name, directory, link, rfl, leads, linked⟩ := later found
    exact ⟨_ :: front, name, directory, link, rfl,
      .down held named entry.short leads.start leads, linked⟩
  | @link followed here name link rest held named next =>
    have entry := regular.named next _ List.mem_cons_self
    have more : maxLinks - followed = maxLinks - (followed + 1) + 1 := by
      simp only at few
      omega
    by_cases ends : rest = []
    · subst ends
      exact ⟨[], name, here, link, rfl, .here held, next⟩
    simp only [more] at found
    rw [walkAcross held named entry.short next (filled _ _ next) fun beyond => absurd beyond ends]
      at found
    obtain ⟨front, name, directory, target, same, leads, linked⟩ := later found
    -- the last name is the path's own, not one of the link's target
    obtain ⟨rest, final, rfl⟩ := (List.eq_nil_or_concat rest).resolve_left ends
    rw [List.concat_eq_append, ← List.append_assoc] at same
    obtain ⟨rfl, last⟩ := List.append_inj' same rfl
    obtain rfl := List.singleton_inj.mp last
    refine ⟨name :: rest, final, directory, target, by simp, ?_, linked⟩
    simp only [more]
    exact .link held named entry.short next (filled _ _ next) leads

end

theorem stoppedInLink (regular : Regular fs) (filled : LinksFilled fs) {location : Location}
    {target : String} (s : Stage) (stands : s.Standing fs) (bound : s.followed ≤ maxLinks)
    (found : walk fs false (maxLinks - s.followed) s.here s.ahead =
      .ok (.at location (.link target))) : s.EndsInLink fs := by
  induction s using Stage.descend fs with
  | step s ih =>
    rcases stands.progress bound with ended | ⟨t, next, few⟩
    · exact endedInLink regular filled found stands ended
    · exact nextInLink regular filled found next few
        (ih t next few (regular.standsNext next) few)

theorem linkFound (link : fs.isLink path = true) : checkPath path = .ok () ∧
    checkLength path = .ok () ∧ ∃ location target,
      walk fs false maxLinks (fs.startOf path) (components path) =
        .ok (.at location (.link target)) := by
  unfold isLink at link
  split at link
  · rename_i content status
    cases content with
    | link target =>
      obtain ⟨⟨location, _⟩, found, rfl⟩ := mappedDone status
      have sought := existingAt.mp found
      obtain ⟨_, checked, sought⟩ := boundDone sought
      obtain ⟨_, within, walked⟩ := boundDone sought
      exact ⟨checked, within, location, target, walked⟩
    | _ => contradiction
  · contradiction

theorem isLinkMeans (regular : Regular fs) (filled : LinksFilled fs)
    (unslashed : hasTrailingSlash path = false) :
    fs.isLink path = true ↔ LinkItself fs path ∧ byteLength path ≤ maxPathBytes := by
  have parts : components path = names path := by simp [components, unslashed]
  constructor
  · intro link
    obtain ⟨_, within, location, target, walked⟩ := linkFound link
    obtain ⟨front, name, directory, target, split, leads, held⟩ :=
      stoppedInLink regular filled (fs.start path) (startStands regular path) (Nat.zero_le _) walked
    refine ⟨⟨front, name, directory, target, parts ▸ split, leads, held⟩, ?_⟩
    unfold checkLength at within
    split at within
    · contradiction
    · omega
  · rintro ⟨link, short⟩
    have checked := linkChecked regular link
    obtain ⟨front, name, directory, target, split, leads, held⟩ := link
    have entry := regular.named held name List.mem_cons_self
    obtain ⟨fewer, onward⟩ := leads.onward
    have within : checkLength path = .ok () := if_neg (by omega)
    have found : fs.find false path = .ok (.at (name :: directory) (.link target)) := by
      simp only [find, checked, within, parts, split, bind, Except.bind]
      rw [onward false [name] (by simp),
        walkEntry (regular.above held) entry.named entry.short held]
    simp [isLink, linkStatus, found, existing, Except.map, Content.isLink]

theorem textUpper {place location : Location} (upper : place <:+ location) :
    place.text.toList <+: location.text.toList := by
  by_cases root : location = []
  · subst root
    obtain rfl := List.suffix_nil.mp upper
    exact List.prefix_rfl
  rw [textChars root]
  by_cases top : place = []
  · subst top
    cases back : location.reverse with
    | nil => simp [root] at back
    | cons name rest => exact ⟨name.toList ++ _, rfl⟩
  · rw [textChars top]
    obtain ⟨front, rfl⟩ := upper
    rw [List.reverse_append, List.flatMap_append]
    exact List.prefix_append ..

theorem textShorter {place location : Location} (upper : place <:+ location) :
    byteLength place.text ≤ byteLength location.text := byteLengthPrefix (textUpper upper)

theorem realHeld (regular : Regular fs) {location : Location} {content : Content}
    (held : fs.content? location = some content) (unlinked : ∀ target, content ≠ .link target) :
    Real fs location.text := by
  have plain := regular.named held
  have spelt := textNames plain
  refine ⟨textAbsolute location, ?_, by rw [spelt, List.reverse_reverse],
    ⟨content, by rw [spelt, List.reverse_reverse, held]⟩, ?_⟩
  · intro name inside
    rw [spelt, List.mem_reverse] at inside
    exact (plain name inside).named
  · rw [spelt]
    intro front start target linked
    have upper : front.reverse <:+ location := by
      rwa [← List.reverse_prefix, List.reverse_reverse]
    obtain ⟨more, rfl⟩ := upper
    rcases regular.along held with rfl | directory
    · exact unlinked target (Option.some.inj (held.symm.trans linked))
    · exact absurd (directory.symm.trans linked) (by simp)

theorem locatedAgain (regular : Regular fs) {location : Location} {content : Content}
    (held : fs.content? location = some content) (unlinked : ∀ target, content ≠ .link target)
    (short : isOverlong location = false) : fs.locate location.text = .ok location := by
  have plain := regular.named held
  have checked := textChecked plain
  have within : byteLength location.text ≤ maxPathBytes := by
    simpa [isOverlong] using short
  have passes : (fs.passed maxLinks (fs.startOf location.text)
      (components location.text)).any isOverlong = false := by
    rw [startOf, textAbsolute, if_pos rfl, textComponents plain, List.any_eq_false]
    intro place inside
    have upper := @regular.passedAlong _ maxLinks [] location.reverse content
      (by simpa using held) unlinked place inside
    have shorter := @textShorter place location (by simpa using upper)
    simp only [isOverlong, decide_eq_true_eq]
    omega
  have found := regular.textFound held unlinked short true
  simp only [find, checked, checkLength, if_neg (Nat.not_lt.mpr within), bind, Except.bind] at found
  simp only [locate, checked, passes, found, short, existing, bind, Except.bind]
  rfl

end FileSystem

open FileSystem

variable {fs : FileSystem} {path : String}

/-- Resolving fails for the path as a whole, and for the usual reason unless the path has a zero
character or none at all or something is too long. -/
def FailsFor (fs : FileSystem) (path : String) (usual : Fault) : Prop :=
  ∃ fault, resolve fs path = .error (.failed path fault) ∧
    (checkPath path = .ok () → fs.Measured path → fault = usual)

theorem resolvedAt {location : Location} (located : fs.locate path = .ok location) :
    resolve fs path = .ok location.text := by
  simp only [resolve, located]

theorem unresolved {fault : Fault} (located : fs.locate path = .error fault)
    (other : fault = .notFound → fs.isLink path = false) :
    resolve fs path = .error (.failed path fault) := by
  have blameless : ¬ (fault = .notFound ∧ fs.isLink path = true) := by
    rintro ⟨missing, link⟩
    simp [other missing] at link
  simp only [resolve, located, if_neg blameless]

theorem danglesWhen : resolve fs path = .error (.dangling path) ↔
    fs.locate path = .error .notFound ∧ fs.isLink path = true := by
  unfold resolve
  split
  · rename_i location located
    simp [located]
  · rename_i fault located
    simp only [located, Except.error.injEq]
    split <;> simp_all

theorem locatedUnchecked {fault : Fault} (refused : checkPath path = .error fault) :
    fs.locate path = .error fault := by
  simp only [locate, refused, bind, Except.bind]

theorem resolvedReal (regular : fs.Regular) {target : String}
    (resolved : resolve fs path = .ok target) : fs.Real target ∧ resolve fs target = .ok target := by
  unfold resolve at resolved
  split at resolved
  · rename_i location located
    obtain rfl := Except.ok.inj resolved
    obtain ⟨content, held, unlinked, _⟩ := regular.located located
    have short := (locatedParts located).2.1
    exact ⟨realHeld regular held unlinked, resolvedAt (locatedAgain regular held unlinked short)⟩
  · split at resolved <;> contradiction

section
variable (regular : fs.Regular) (filled : fs.LinksFilled)
include regular filled

theorem failsFor {s : Stage} (comes : fs.Comes path s) {usual : Fault}
    (walked : fs.Measured path → s.walk fs = .error usual)
    (other : usual = .notFound → fs.isLink path = false) : FailsFor fs path usual := by
  cases checked : checkPath path with
  | error fault =>
    refine ⟨fault, unresolved (locatedUnchecked checked) fun _ => ?_,
      fun accepted => absurd (checked.symm.trans accepted) (by simp)⟩
    cases link : fs.isLink path with
    | false => rfl
    | true => exact absurd (checked.symm.trans (linkFound link).1) (by simp)
  | ok _ =>
    by_cases measured : fs.Measured path
    · have located := locatedMeasured regular filled checked measured comes
      rw [walked measured] at located
      exact ⟨usual, unresolved located other, fun _ _ => rfl⟩
    · have located := locatedUnmeasured regular filled checked measured
      exact ⟨_, unresolved located (by simp), fun _ within => absurd within measured⟩

theorem missingLocated (checked : checkPath path = .ok ())
    (located : fs.locate path = .error .notFound) :
    fs.Measured path ∧ ∃ s, fs.Comes path s ∧ s.Missing fs := by
  have measured : fs.Measured path := by
    refine Classical.byContradiction fun beyond => ?_
    have long := locatedUnmeasured regular filled checked beyond
    simp [located] at long
  obtain ⟨s, comes, ended⟩ := comesToEnd regular path
  have ends := locatedMeasured regular filled checked measured comes
  rw [located] at ends
  refine ⟨measured, s, comes, ?_⟩
  rcases ended with arrived | missing | blocked | spent
  · obtain ⟨content, _, walked⟩ := arrived.walked
    rw [walked] at ends
    simp only [Except.bind] at ends
    split at ends <;> simp at ends
  · exact missing
  · simp [blocked.walked, Except.bind] at ends
  · simp [spent.walked regular filled, Except.bind] at ends

theorem danglingMeans (unslashed : hasTrailingSlash path = false) :
    resolve fs path = .error (.dangling path) ↔
      fs.LinkItself path ∧ byteLength path ≤ maxPathBytes ∧ fs.Measured path ∧
        ∃ s, fs.Comes path s ∧ s.Missing fs := by
  rw [danglesWhen]
  constructor
  · rintro ⟨located, islink⟩
    obtain ⟨link, short⟩ := (isLinkMeans regular filled unslashed).mp islink
    exact ⟨link, short, missingLocated regular filled (linkFound islink).1 located⟩
  · rintro ⟨link, short, measured, s, comes, location, looked, missing⟩
    have fits := (measured s location comes looked).2
    have located :=
      locatedMeasured regular filled (linkChecked regular link) measured comes
    rw [Stage.missingWalked looked missing, fits] at located
    exact ⟨located, (isLinkMeans regular filled unslashed).mpr ⟨link, short⟩⟩

end

structure Resolution (fs : FileSystem) (path : String) : Prop where
  ends : ∃ s, fs.Comes path s ∧ s.Ended fs
  real : ∀ target, resolve fs path = .ok target →
    fs.Real target ∧ resolve fs target = .ok target
  arrives : checkPath path = .ok () → fs.Measured path → ∀ s, fs.Comes path s → s.Arrived fs →
    isOverlong s.here = false → resolve fs path = .ok s.here.text
  dangles : resolve fs path = .error (.dangling path) ↔
    fs.LinkItself path ∧ byteLength path ≤ maxPathBytes ∧ fs.Measured path ∧
      ∃ s, fs.Comes path s ∧ s.Missing fs
  absent : ¬ fs.LinkItself path → ∀ s, fs.Comes path s → s.Missing fs →
    FailsFor fs path .notFound
  loops : fs.FollowsTooMany path ∨ fs.Endless path → FailsFor fs path .tooManyLinks
  blocked : ∀ s, fs.Comes path s → s.Blocked fs → FailsFor fs path .notDirectory

theorem resolutionClassified (regular : fs.Regular) (filled : fs.LinksFilled) (path : String)
    (unslashed : hasTrailingSlash path = false) : Resolution fs path where
  ends := comesToEnd regular path
  real _ resolved := resolvedReal regular resolved
  arrives := by
    intro checked measured s comes arrived short
    obtain ⟨content, held, walked⟩ := arrived.walked
    have located := locatedMeasured regular filled checked measured comes
    rw [walked] at located
    simp only [Except.bind, short] at located
    exact resolvedAt located
  dangles := danglingMeans regular filled unslashed
  absent := by
    rintro unlinked s comes ⟨location, looked, missing⟩
    refine failsFor regular filled comes ?_ fun _ => ?_
    · intro measured
      rw [Stage.missingWalked looked missing, (measured s location comes looked).2]
      rfl
    · rw [← Bool.not_eq_true, isLinkMeans regular filled unslashed]
      exact fun link => unlinked link.1
  loops := by
    intro many
    obtain ⟨s, comes, spent⟩ := spentOf regular many
    exact failsFor regular filled comes (fun _ => spent.walked regular filled) (by simp)
  blocked _ comes blocked :=
    failsFor regular filled comes (fun _ => blocked.walked) (by simp)

theorem linksFilled {fs : FileSystem}
    (filled : ∀ e ∈ fs.entries, ∀ target, e.2 = .link target → target ≠ "") : fs.LinksFilled := by
  intro location target held
  cases location with
  | nil => cases held
  | cons name directory => exact filled _ (heldEntry held) target rfl

def chained : FileSystem :=
  ⟨[(["d"], .directory), (["l", "d"], .link "./../m"), (["m"], .link "gone/x")], [], []⟩

theorem chainDangles : chained.Regular ∧ chained.LinksFilled ∧ hasTrailingSlash "d/../d/l" = false ∧
    chained.LinkItself "d/../d/l" ∧ ∃ s, chained.Comes "d/../d/l" s ∧ s.Missing chained := by
  have regular : chained.Regular := by decide
  have filled : chained.LinksFilled := linksFilled (by simp [chained])
  have classified := resolutionClassified regular filled "d/../d/l" (by decide)
  have dangling : resolve chained "d/../d/l" = .error (.dangling "d/../d/l") := by decide +kernel
  obtain ⟨link, _, _, missing⟩ := classified.dangles.mp dangling
  exact ⟨regular, filled, by decide, link, missing⟩

def linkedName (target : String) : FileSystem := ⟨[(["l"], .link target)], [], []⟩

section
variable {target : String} (plain : '/' ∉ target.toList) (long : maxNameBytes < byteLength target)
include plain long

theorem componentsAlone : components target = [target] := by
  have some : target.toList ≠ [] := by
    intro none
    rw [byteLength, Utf8.ofTextChars, none] at long
    contradiction
  have single : names target = [target] := by
    rw [names, Path.partsSingle plain some]
    simp
  have unslashed : hasTrailingSlash target = false := by
    simp only [hasTrailingSlash, beq_eq_false_iff_ne]
    exact fun last => plain (List.mem_of_getLast? last)
  simp [components, single, unslashed]

theorem overlongTarget : (linkedName target).Regular ∧ (linkedName target).LinksFilled ∧ ∃ s,
    (linkedName target).Comes "l" s ∧ s.Missing (linkedName target) ∧
      resolve (linkedName target) "l" = .error (.failed "l" .nameTooLong) := by
  have unlike (name : String) (short : byteLength name ≤ 2) : target ≠ name := by
    rintro rfl
    exact absurd (Nat.lt_of_lt_of_le long short) (by decide)
  have filled : (linkedName target).LinksFilled := linksFilled (by
    rintro e inside other same
    rw [List.mem_singleton.mp inside] at same
    exact Content.link.inj same ▸ unlike "" (by decide))
  have regular : (linkedName target).Regular := by
    refine ⟨by simp [linkedName], ?_, ?_, rfl⟩ <;>
      simp only [linkedName, List.mem_singleton, forall_eq]
    · exact ⟨by simp, by decide⟩
    · rfl
  have comes : (linkedName target).Comes "l" ⟨1, [], [target]⟩ := by
    refine ⟨.single ?_, Nat.le_of_ble_eq_true rfl⟩
    have followed : Stage.Next (linkedName target) ⟨0, [], ["l"]⟩
        ⟨1, if Path.isAbsolute target then [] else [], components target ++ []⟩ :=
      .link rfl (by decide) rfl
    rw [componentsAlone plain long, ite_self, List.append_nil] at followed
    exact followed
  have looked : (Stage.mk 1 [] [target]).LooksUp (linkedName target) [target] :=
    ⟨target, [], rfl, rfl, ⟨unlike "." (by decide), unlike ".." (by decide)⟩, rfl⟩
  have other : (target == "l") = false := beq_eq_false_iff_ne.mpr (unlike "l" (by decide))
  have missing : (linkedName target).content? [target] = none := by
    simp [linkedName, content?, List.lookup_cons, other]
  have beyond : ¬ (linkedName target).Measured "l" := fun measured =>
    absurd (measured _ _ comes looked).2 (by simpa [nameFits] using long)
  exact ⟨regular, filled, _, comes, ⟨_, looked, missing⟩,
    unresolved (locatedUnmeasured regular filled rfl beyond) (by simp)⟩

end

def overlongName : String := String.ofList (List.replicate 256 'a')

theorem longTargetFails : (linkedName overlongName).LinkItself "l" ∧
    (linkedName overlongName).Regular ∧ (linkedName overlongName).LinksFilled ∧
    ∃ s, (linkedName overlongName).Comes "l" s ∧ s.Missing (linkedName overlongName) ∧
      resolve (linkedName overlongName) "l" = .error (.failed "l" .nameTooLong) := by
  have chars : overlongName.toList = List.replicate 256 'a' := String.toList_ofList
  have plain : '/' ∉ overlongName.toList := by
    rw [chars, List.mem_replicate]
    decide
  have long : maxNameBytes < byteLength overlongName := by
    have length := Utf8.lengthOfChars overlongName.toList
    rw [chars, List.length_replicate, ← chars, ← Utf8.ofTextChars] at length
    exact Nat.lt_of_succ_le length
  exact ⟨⟨[], "l", [], overlongName, by decide, .here rfl, rfl⟩, overlongTarget plain long⟩

end SourceModels

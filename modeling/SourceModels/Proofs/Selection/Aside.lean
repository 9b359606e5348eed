import SourceModels.Proofs.Extraction.AllOrNothing
import SourceModels.Proofs.FileSystem.Aside
import SourceModels.Proofs.Selection.Tree

/-! Gathering the files of a repository from which a directory cannot be reached: what changes below
that directory makes no difference. -/
namespace SourceModels
open FileSystem

def Detector.Steady (detector : Detector) : Prop :=
  ∃ look : String → Bytes → Option String, ∀ path head fs, detector path head fs = (look path head, fs)

theorem Detector.Steady.quiet {detector : Detector} (steady : detector.Steady) :
    detector.Quiet := by
  obtain ⟨look, same⟩ := steady
  intro path head fs
  rw [same]

/-- No path that starts with the root looks up anything below the directory. -/
def Unreached (fs : FileSystem) (top : Location) (root : String) : Prop :=
  ∀ names : List String, (∀ name ∈ names, EntryName name) → Clear fs top (pathBelow root names)

inductive Walk.Alike (before after : FileSystem) (root : String) : Walk → Walk → Prop where
  | finished : Alike before after root .finished .finished
  | failed (path : String) (fault : Fault) :
      Alike before after root (.failed path fault) (.failed path fault)
  | found {names : List String} {kind : EntryKind} {resume resume' : FileSystem → Walk}
      (plain : ∀ name ∈ names, EntryName name)
      (later : Alike before after root (resume before) (resume' after)) :
      Alike before after root (.found ⟨pathBelow root names, names, kind⟩ resume)
        (.found ⟨pathBelow root names, names, kind⟩ resume')

section
variable {before after : FileSystem} {top : Location} {root : String}

theorem outsideBelow {directory : Location} (outside : ¬ Under top ("x" :: directory)) :
    ¬ Under top directory := by
  cases directory with
  | nil => exact id
  | cons name rest => exact fun under => outside (List.IsSuffix.trans under (List.suffix_cons ..))

theorem ledOutside (unreached : Unreached before top root) {names : List String}
    (plain : ∀ name ∈ names, EntryName name) {location : Location}
    (led : Leads before maxLinks (before.startOf (pathBelow root names))
      (components (pathBelow root names)) location) : ¬ Under top ("x" :: location) := by
  have entry : EntryName "x" := by decide
  have along : ∀ name ∈ names ++ ["x"], EntryName name := by
    intro name inside
    rcases List.mem_append.mp inside with old | new
    · exact plain name old
    · exact List.mem_singleton.mp new ▸ entry
  have further : pathBelow root (names ++ ["x"]) = Path.join (pathBelow root names) "x" := by
    simp [pathBelow]
  have start : before.startOf (pathBelow root (names ++ ["x"])) =
      before.startOf (pathBelow root names) := by
    simp only [startOf, further, Path.joinedStart entry.noSlash]
  have parts : components (pathBelow root (names ++ ["x"])) =
      FileSystem.names (pathBelow root names) ++ ["x"] := by
    rw [components, pathEnds along (by simp), further,
      FileSystem.namesJoined entry.noSlash entry.filled]
    simp
  have bare : Leads before maxLinks (before.startOf (pathBelow root names))
      (FileSystem.names (pathBelow root names)) location := by
    unfold components at led
    split at led
    · exact led.undotted rfl
    · exact led
  have next := bare.passedNext entry.named
  rw [← start, ← parts] at next
  exact unreached _ along _ next

theorem locatedOutside (regular : Regular before) (unreached : Unreached before top root)
    {names : List String} (plain : ∀ name ∈ names, EntryName name) {location : Location}
    (located : before.locate (pathBelow root names) = .ok location) : ¬ Under top location := by
  obtain ⟨_, _, content, reached⟩ := locatedParts located
  have there := (walkFound regular (regular.start _) reached).1
  rcases walkPassed regular (regular.start _) reached with directory | inside
  · rw [directory] at there
    cases there
    exact outsideBelow (ledOutside unreached plain (walkLeads reached))
  · exact unreached names plain location inside

theorem passedStraight (unlinked : ∀ location target, before.content? location ≠ some (.link target))
    {links : Nat} {here : Location} {parts : List String} (undotted : ".." ∉ parts) :
    ∀ location ∈ passed before links here parts,
      ∃ front, front <+: plainNames parts ∧ location = front.reverse ++ here := by
  have plain : ∀ {name : String} {rest : List String}, name ≠ "." ∧ name ≠ ".." →
      plainNames (name :: rest) = name :: plainNames rest := by
    intro name rest named
    simp [plainNames, named.1]
  induction links, here, parts using walkInduction before with
  | lost free =>
    rw [passedStill (by simp [free])]
    exact List.forall_mem_nil _
  | here held => simp [passedHere]
  | blocked held other =>
    rw [passedStill (by simpa [held] using other)]
    exact List.forall_mem_nil _
  | dot held ih =>
    rw [passedDot held]
    simpa [plainNames] using ih fun inside => undotted (List.mem_cons_of_mem _ inside)
  | dots held ih => exact absurd List.mem_cons_self undotted
  | missing held named free =>
    intro location inside
    rw [passedMissing held named free, List.mem_singleton] at inside
    rw [plain named]
    exact ⟨[_], List.cons_prefix_cons.mpr ⟨rfl, List.nil_prefix⟩, inside⟩
  | @down links here name rest content held named next _ ih =>
    intro location inside
    rw [passedDown held named next fun target link => unlinked _ target (link ▸ next)] at inside
    rw [plain named]
    rcases List.mem_cons.mp inside with rfl | below
    · exact ⟨[name], List.cons_prefix_cons.mpr ⟨rfl, List.nil_prefix⟩, rfl⟩
    · obtain ⟨front, start, rfl⟩ :=
        ih (fun inside => undotted (List.mem_cons_of_mem _ inside)) location below
      exact ⟨name :: front, List.cons_prefix_cons.mpr ⟨rfl, start⟩, by simp⟩
  | link held named next ih => exact absurd next (unlinked _ _)

theorem unreachedStraight
    (unlinked : ∀ location target, before.content? location ≠ some (.link target))
    (undotted : ".." ∉ FileSystem.names root)
    (apart : ¬ (plainNames (FileSystem.names root)).reverse ++ before.startOf root <:+ top ∧
      ¬ top <:+ (plainNames (FileSystem.names root)).reverse ++ before.startOf root) :
    Unreached before top root := by
  intro names plain location inside under
  obtain ⟨folded, start⟩ := Identifier.foldedNames
    (fun name among => ⟨(plain name among).noSlash, (plain name among).filled⟩) root
  have parts : plainNames (components (pathBelow root names)) =
      plainNames (FileSystem.names root) ++ plainNames names := by
    rw [← plainNamesAppend, ← folded, components]
    split
    · rw [plainNamesAppend]
      simp [pathBelow, plainNames]
    · rfl
  have noDots : ".." ∉ components (pathBelow root names) := by
    intro dots
    have among := plainNamesMember.mpr ⟨dots, by decide⟩
    rw [parts, List.mem_append, plainNamesMember, plainNamesMember] at among
    rcases among with old | new
    · exact undotted old.1
    · exact (plain _ new.1).named.2 rfl
  obtain ⟨front, begins, rfl⟩ := passedStraight unlinked noDots location inside
  rw [parts] at begins
  have from' : before.startOf (pathBelow root names) = before.startOf root := by
    simp only [startOf, pathBelow, start]
  rw [from'] at under
  have below : top <:+ front.reverse ++ before.startOf root := by
    cases place : front.reverse ++ before.startOf root with
    | nil =>
      rw [place] at under
      exact under.elim
    | cons name directory =>
      rw [place] at under
      exact List.IsSuffix.trans under (List.suffix_cons ..)
  have along : ∀ {short long : List String}, short <+: long →
      short.reverse ++ before.startOf root <:+ long.reverse ++ before.startOf root := by
    rintro short _ ⟨more, rfl⟩
    exact ⟨more.reverse, by simp⟩
  rcases List.prefix_or_prefix_of_prefix begins (List.prefix_append ..) with upper | lower
  · exact apart.2 (below.trans (along upper))
  · rcases List.suffix_or_suffix_of_suffix below (along lower) with within | within
    · exact apart.2 within
    · exact apart.1 within

theorem statusAside (aside : FileSystem.Aside top before after) (regular : Regular before)
    {path : String} (clear : Clear before top path) : after.status path = before.status path := by
  simp only [FileSystem.status, aside.found regular clear]

theorem resolvedAside (aside : FileSystem.Aside top before after) (regular : Regular before)
    (unreached : Unreached before top root) {names : List String}
    (plain : ∀ name ∈ names, EntryName name) :
    resolve after (pathBelow root names) = resolve before (pathBelow root names) ∧
      ∀ target, resolve before (pathBelow root names) = .ok target →
        after.status target = before.status target := by
  have clear := unreached names plain
  refine ⟨?_, ?_⟩
  · have links : after.isLink (pathBelow root names) = before.isLink (pathBelow root names) := by
      simp only [isLink, linkStatus, aside.found regular clear]
    simp only [resolve, aside.located regular clear, links]
  · intro target found
    unfold resolve at found
    split at found
    · rename_i location located
      cases found
      obtain ⟨content, held, unlinked, _⟩ := regular.located located
      exact statusAside aside regular
        (regular.clearText held unlinked (locatedOutside regular unreached plain located))
    · split at found <;> cases found

theorem listedAside (aside : FileSystem.Aside top before after) (regular : Regular before)
    (unreached : Unreached before top root) {names : List String}
    (plain : ∀ name ∈ names, EntryName name) :
    after.list (pathBelow root names) = before.list (pathBelow root names) := by
  have clear := unreached names plain
  simp only [list, aside.found regular clear, bind, Except.bind]
  cases found : before.find true (pathBelow root names) with
  | error fault => rfl
  | ok reached =>
    cases reached with
    | missing directory name => rfl
    | «at» location content =>
      cases content with
      | directory =>
        have led : Leads before maxLinks (before.startOf (pathBelow root names))
            (components (pathBelow root names)) location := by
          simp only [find, bind, Except.bind] at found
          split at found
          · cases found
          split at found
          · cases found
          exact walkLeads found
        have outside := ledOutside unreached plain led
        simp only [existing, sortedChildren, aside.outside.closed,
          aside.outside.children location outside]
      | _ => rfl

theorem listedEntries (regular : Regular before) {path : String}
    {entries : List (String × Content)} (listed : before.list path = .ok entries) :
    ∀ e ∈ entries, EntryName e.1 := by
  simp only [list, bind, Except.bind] at listed
  split at listed
  · cases listed
  split at listed
  · cases listed
  split at listed
  · cases listed
  · cases listed
    intro e inside
    exact regular.named (regular.listed.mp inside) e.1 List.mem_cons_self

theorem enteredAlike (aside : FileSystem.Aside top before after) (regular : Regular before)
    (unreached : Unreached before top root) (levels : Nat) {names : List String}
    (plain : ∀ name ∈ names, EntryName name) {path : String} (below : path = pathBelow root names)
    {goOn goOn' : FileSystem → Walk}
    (later : Walk.Alike before after root (goOn before) (goOn' after)) :
    Walk.Alike before after root (Walk.enterWithin levels path names (before.list path) goOn before)
      (Walk.enterWithin levels path names (after.list path) goOn' after) := by
  subst below
  induction levels generalizing names goOn goOn' with
  | zero =>
    rw [listedAside aside regular unreached plain]
    unfold Walk.enterWithin
    cases before.list (pathBelow root names) with
    | error fault => exact .failed ..
    | ok entries => exact later
  | succ levels ih =>
    rw [listedAside aside regular unreached plain, Walk.enterWithin.eq_def, Walk.enterWithin.eq_def]
    cases listed : before.list (pathBelow root names) with
    | error fault => exact .failed ..
    | ok entries =>
      have named := listedEntries regular listed
      clear listed
      dsimp only
      induction entries with
      | nil => exact later
      | cons e rest further =>
        obtain ⟨name, content⟩ := e
        have along : ∀ other ∈ names ++ [name], EntryName other := by
          intro other inside
          rcases List.mem_append.mp inside with old | new
          · exact plain other old
          · exact List.mem_singleton.mp new ▸ named _ List.mem_cons_self
        have onward := further fun e inside => named e (List.mem_cons_of_mem _ inside)
        have path : Path.join (pathBelow root names) name = pathBelow root (names ++ [name]) := by
          simp [pathBelow]
        simp only [Walk.visit, path]
        cases content with
        | directory =>
          simp only [EntryKind.ofContent]
          split
          · exact onward
          · exact .found along (ih along onward)
        | _ => exact .found along onward

theorem startAlike (aside : FileSystem.Aside top before after) (regular : Regular before)
    (unreached : Unreached before top root) :
    Walk.Alike before after root (Walk.start before root) (Walk.start after root) := by
  have clear : Clear before top root := unreached [] (by simp)
  have links : after.linkStatus root = before.linkStatus root := by
    simp only [linkStatus, aside.found regular clear]
  have none : ∀ name ∈ ([] : List String), EntryName name := by simp
  have inside := @enteredAlike _ _ _ _ aside regular unreached Walk.maxLevels [] none root rfl
    (fun _ => .finished) (fun _ => .finished) .finished
  have alone : ∀ kind {resume resume' : FileSystem → Walk},
      Walk.Alike before after root (resume before) (resume' after) →
      Walk.Alike before after root (.found ⟨root, [], kind⟩ resume) (.found ⟨root, [], kind⟩ resume') :=
    fun kind _ _ later => .found none later
  simp only [Walk.start, links, statusAside aside regular clear]
  cases before.linkStatus root with
  | error fault => exact .failed ..
  | ok content =>
    cases content with
    | directory =>
      simp only [EntryKind.ofContent]
      split
      · exact .finished
      · exact alone _ inside
    | link target =>
      simp only [EntryKind.ofContent]
      cases before.status root with
      | error fault => exact .failed ..
      | ok target =>
        dsimp only
        split
        · exact alone _ inside
        · exact alone _ .finished
    | _ => exact alone _ .finished

end

namespace Selector

variable {selector : Selector} {before after : FileSystem} {top : Location}

theorem inspectAside (links : selector.resolver = resolve) (steady : selector.detector.Steady)
    (aside : FileSystem.Aside top before after) (regular : Regular before)
    (unreached : Unreached before top selector.root) {names : List String}
    (plain : ∀ name ∈ names, EntryName name) (kind : EntryKind) (counts : SelectionCounts) :
    ∃ verdict counts',
      selector.inspect ⟨pathBelow selector.root names, names, kind⟩ counts before =
        (verdict, counts', before) ∧
      selector.inspect ⟨pathBelow selector.root names, names, kind⟩ counts after =
        (verdict, counts', after) ∧
      ∀ c, verdict = .candidate c → after.readBytes c.location = before.readBytes c.location := by
  obtain ⟨look, detects⟩ := steady
  obtain ⟨resolves, reads⟩ := resolvedAside aside regular unreached plain
  simp only [inspect, links, resolves]
  split
  · exact ⟨_, _, rfl, rfl, by simp⟩
  cases found : resolve before (pathBelow selector.root names) with
  | error fault => exact ⟨_, _, rfl, rfl, by simp⟩
  | ok target =>
    have status := reads target found
    simp only [status, readHead, detects, bind, Except.bind]
    cases held : before.status target with
    | error fault => exact ⟨_, _, rfl, rfl, by simp⟩
    | ok content =>
      dsimp only
      split
      · exact ⟨_, _, rfl, rfl, by simp⟩
      split
      · exact ⟨_, _, rfl, rfl, by simp⟩
      split
      · exact ⟨_, _, rfl, rfl, by simp⟩
      rename_i head _
      cases look (relativePath ⟨pathBelow selector.root names, names, kind⟩) head with
      | none => exact ⟨_, _, rfl, rfl, by simp⟩
      | some language =>
        refine ⟨_, _, rfl, rfl, ?_⟩
        rintro c ⟨⟩
        simp only [readBytes, status]

end Selector

namespace Extractor

variable {x : Extractor} {before after : FileSystem} {top : Location}

theorem collectAside {selector : Selector} (links : selector.resolver = resolve)
    (steady : selector.detector.Steady) (aside : FileSystem.Aside top before after)
    (regular : Regular before) (unreached : Unreached before top selector.root) {walk walk' : Walk}
    (alike : Walk.Alike before after selector.root walk walk') (counts : SelectionCounts)
    (draft : Draft) (requests : List ParseRequest) :
    (x.collect selector walk' counts draft requests after).result =
      (x.collect selector walk counts draft requests before).result := by
  induction alike generalizing counts draft requests with
  | finished => rfl
  | failed path fault => rfl
  | @found names kind resume resume' plain _ ih =>
    obtain ⟨verdict, counts', seen, seen', reads⟩ :=
      Selector.inspectAside links steady aside regular unreached plain kind counts
    simp only [collect, seen, seen']
    cases verdict with
    | passedOver => exact ih ..
    | refused fault => rfl
    | candidate c =>
      have added : x.addFile requests draft c after = x.addFile requests draft c before := by
        simp only [addFile, reads c rfl]
      dsimp only
      rw [added]
      split
      · exact ih ..
      · rfl

theorem gatherAside (links : x.resolver = resolve) (steady : x.detector.Steady)
    (aside : FileSystem.Aside top before after) (regular : Regular before) {repository : String}
    (unreached : Unreached before top (Identifier.trim repository)) :
    (x.gather repository after).result = (x.gather repository before).result := by
  have clear : Clear before top (Identifier.trim repository) := unreached [] (by simp)
  have status := statusAside aside regular clear
  have alike := startAlike aside regular unreached
  have collects := fun counts draft requests => @collectAside x before after top
    (x.selector repository) links steady aside regular unreached _ _ alike counts draft requests
  have root : (x.selector repository).root = Identifier.trim repository := rfl
  simp only [gather, collectAll, Selector.select, pathExists, isDirectory, root, status]
  cases before.status (Identifier.trim repository) with
  | error fault => rfl
  | ok content =>
    by_cases directory : content.isDirectory = false
    · simp [Except.toOption, directory]
    · simpa [Except.toOption, directory] using collects {} .empty []

end Extractor

end SourceModels

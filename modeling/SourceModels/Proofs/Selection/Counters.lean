import SourceModels.Proofs.Selection.Listing

/-! What the counts of a selection say: how many of the entries that it has come by were candidates,
and what has become of the others. -/
namespace SourceModels
open FileSystem

structure SelectionCounts.AtMost (before after : SelectionCounts) : Prop where
  seen : before.seen ≤ after.seen
  selected : before.selected ≤ after.selected
  oversize : before.oversize ≤ after.oversize
  unrecognized : before.unrecognized ≤ after.unrecognized

namespace Selector

structure Visit where
  entry : WalkEntry
  files : FileSystem

namespace Visit

def isLookedAt (visit : Visit) : Bool := visit.entry.kind ≠ .directory

def leadsTo? (selector : Selector) (visit : Visit) : Option Content :=
  if visit.isLookedAt then
    match selector.resolver visit.files visit.entry.path with
    | .ok location => (visit.files.status location).toOption
    | .error _ => none
  else none

def isAside (selector : Selector) (visit : Visit) : Bool :=
  (visit.leadsTo? selector).any fun content => !content.isFile

def isOversize (selector : Selector) (visit : Visit) : Bool :=
  (visit.leadsTo? selector).any fun content =>
    content.isFile && selector.maxFileSize < content.size

end Visit

def Item.isCandidate : Item → Bool
  | .candidate _ => true
  | _ => false

def Item.isRefusal : Item → Bool
  | .failed (.resolve _) => true
  | .failed (.unreadable _ _) => true
  | _ => false

def visits (selector : Selector) : Walk → FileSystem → List Visit
  | .found entry resume, fs =>
    let seen := selector.inspect entry {} fs
    ⟨entry, fs⟩ :: match seen.1 with
      | .passedOver => visits selector (resume seen.2.2) seen.2.2
      | _ => []
  | _, _ => []

inductive Called (selector : Selector) (start : Selection) :
    List Item → List Visit → Selection → Prop where
  | none : Called selector start [] [] start
  | next {items : List Item} {visited : List Visit} {now : Selection}
      (before : Called selector start items visited now) (fs : FileSystem) :
      Called selector start (items ++ [(selector.next now fs).1])
        (visited ++ selector.visits now.walk fs) (selector.next now fs).2.1

/-- From these counts to those, so many entries have been looked at, and each of them counts as what
has become of it. -/
structure Tallied (selector : Selector) (before after : SelectionCounts) (items : List Item)
    (visited : List Visit) : Prop where
  seen : after.seen = before.seen + visited.countP Visit.isLookedAt
  selected : after.selected = before.selected + items.countP Item.isCandidate
  oversize : after.oversize = before.oversize + visited.countP (Visit.isOversize selector)
  unrecognized : before.unrecognized ≤ after.unrecognized
  sorted : visited.countP Visit.isLookedAt + before.unrecognized =
    items.countP Item.isCandidate + visited.countP (Visit.isOversize selector) +
      after.unrecognized + visited.countP (Visit.isAside selector) +
      items.countP Item.isRefusal

def Verdict.items : Verdict → List Item
  | .candidate c => [.candidate c]
  | .passedOver => []
  | .refused fault => [.failed fault]

section
variable {selector : Selector} {before middle after : SelectionCounts} {items later : List Item}
  {visited more : List Visit}

theorem Tallied.refl (counts : SelectionCounts) : Tallied selector counts counts [] [] := by
  constructor <;> simp

theorem Tallied.trans (first : Tallied selector before middle items visited)
    (second : Tallied selector middle after later more) :
    Tallied selector before after (items ++ later) (visited ++ more) := by
  obtain ⟨seen, selected, oversize, unrecognized, sorted⟩ := first
  obtain ⟨seen', selected', oversize', unrecognized', sorted'⟩ := second
  constructor
  all_goals repeat rw [List.countP_append]
  all_goals omega

theorem Visit.leadsTo {entry : WalkEntry} {fs : FileSystem} {location : String}
    (looked : entry.kind ≠ .directory) (resolved : selector.resolver fs entry.path = .ok location) :
    Visit.leadsTo? selector ⟨entry, fs⟩ = (fs.status location).toOption := by
  simp [Visit.leadsTo?, Visit.isLookedAt, looked, resolved]

theorem Inspected.tallied {entry : WalkEntry} {fs files : FileSystem} {verdict : Verdict}
    (inspected : Inspected selector entry before fs (verdict, after, files)) :
    Tallied selector before after verdict.items [⟨entry, fs⟩] := by
  cases inspected with
  | entered directory =>
    have lost : Visit.leadsTo? selector ⟨entry, fs⟩ = none := by
      simp [Visit.leadsTo?, Visit.isLookedAt, directory]
    constructor <;> simp [Verdict.items, Visit.isLookedAt, directory, Visit.isAside,
      Visit.isOversize, lost]
  | unresolved looked resolved =>
    have lost : Visit.leadsTo? selector ⟨entry, fs⟩ = none := by
      simp [Visit.leadsTo?, resolved]
    constructor <;> simp [Verdict.items, Item.isCandidate, Item.isRefusal, Visit.isLookedAt, looked,
      Visit.isAside, Visit.isOversize, lost, Nat.add_comm]
  | lost looked resolved status =>
    constructor <;> simp [Verdict.items, Item.isCandidate, Item.isRefusal, Visit.isLookedAt, looked,
      Visit.isAside, Visit.isOversize, Visit.leadsTo looked resolved, status, Except.toOption,
      Nat.add_comm]
  | aside looked resolved status other =>
    constructor <;> simp [Verdict.items, Visit.isLookedAt, looked, Visit.isAside, Visit.isOversize,
      Visit.leadsTo looked resolved, status, Except.toOption, other, Nat.add_comm]
  | oversize looked resolved status file large =>
    constructor <;> simp [Verdict.items, Visit.isLookedAt, looked, Visit.isAside, Visit.isOversize,
      Visit.leadsTo looked resolved, status, Except.toOption, file, large]
  | unread looked resolved status file small read =>
    constructor <;> simp [Verdict.items, Item.isCandidate, Item.isRefusal, Visit.isLookedAt, looked,
      Visit.isAside, Visit.isOversize, Visit.leadsTo looked resolved, status, Except.toOption, file,
      small, Nat.add_comm]
  | unrecognized looked resolved status file small read detected =>
    constructor <;> simp [Verdict.items, Visit.isLookedAt, looked, Visit.isAside, Visit.isOversize,
      Visit.leadsTo looked resolved, status, Except.toOption, file, small, Nat.add_comm]
  | selected looked resolved status file small read detected =>
    constructor <;> simp [Verdict.items, Item.isCandidate, Item.isRefusal, Visit.isLookedAt, looked,
      Visit.isAside, Visit.isOversize, Visit.leadsTo looked resolved, status, Except.toOption, file,
      small]

theorem nextTallied (selector : Selector) (now : Selection) (fs : FileSystem) :
    Tallied selector now.counts (selector.next now fs).2.1.counts [(selector.next now fs).1]
      (selector.visits now.walk fs) := by
  obtain ⟨walk, counts⟩ := now
  induction walk generalizing counts fs with
  | finished => constructor <;> simp [next, nextFrom, visits, Item.isCandidate, Item.isRefusal]
  | failed path fault =>
    constructor <;>
      simp [next, nextFrom, visits, walkFault, Item.isCandidate, Item.isRefusal]
  | found entry resume ih =>
    have inspected := selector.inspected entry counts fs
    obtain ⟨alike, files⟩ := selector.inspectUncounted entry counts {} fs
    simp only [next, nextFrom, visits, ← alike, ← files]
    cases seen : selector.inspect entry counts fs with
    | mk verdict rest =>
      obtain ⟨counts', after⟩ := rest
      rw [seen] at inspected
      have first := inspected.tallied
      cases verdict with
      | candidate c => exact first
      | refused fault => exact first
      | passedOver => exact first.trans (ih after after counts')

theorem nextEnds (selector : Selector) (now : Selection) (fs : FileSystem) :
    (selector.next now fs).1.isCandidate = true ∨ (selector.next now fs).2.1.walk = .finished := by
  obtain ⟨walk, counts⟩ := now
  induction walk generalizing counts fs with
  | finished => exact .inr rfl
  | failed path fault => exact .inr rfl
  | found entry resume ih =>
    simp only [next, nextFrom]
    cases selector.inspect entry counts fs with
    | mk verdict rest =>
      obtain ⟨counts', after⟩ := rest
      cases verdict with
      | candidate c => exact .inl rfl
      | refused fault => exact .inr rfl
      | passedOver => exact ih after after counts'

theorem nextFinished (selector : Selector) {now : Selection} (done : now.walk = .finished)
    (fs : FileSystem) : selector.next now fs = (.done, now, fs) := by
  obtain ⟨walk, counts⟩ := now
  cases done
  rfl

end

namespace Called

variable {selector : Selector} {start now later : Selection} {items more : List Item}
  {visited further : List Visit}

theorem tallied (called : selector.Called start items visited now) :
    Tallied selector start.counts now.counts items visited := by
  induction called with
  | none => exact .refl _
  | @next items visited now before fs ih => exact ih.trans (selector.nextTallied now fs)

theorem ended (called : selector.Called start items visited now) (done : start.walk = .finished) :
    now = start ∧ visited = [] ∧ ∀ item ∈ items, item = .done := by
  induction called with
  | none => simp
  | @next items visited now before fs ih =>
    obtain ⟨rfl, rfl, quiet⟩ := ih
    rw [selector.nextFinished done fs, done]
    exact ⟨rfl, rfl, by simpa [or_imp, forall_and] using quiet⟩

theorem candidatesUnrefused {items : List Item} (all : ∀ item ∈ items, item.isCandidate = true) :
    items.countP Item.isRefusal = 0 := by
  rw [List.countP_eq_zero]
  intro item inside refusal
  have candidate := all item inside
  cases item <;> simp_all [Item.isCandidate, Item.isRefusal]

theorem candidatesOrEnd (called : selector.Called start items visited now) :
    (∀ item ∈ items, item.isCandidate = true) ∨
      now.walk = .finished ∧ items.countP Item.isRefusal ≤ 1 := by
  induction called with
  | none => simp
  | @next items visited now before fs ih =>
    rcases ih with all | ⟨done, once⟩
    · rcases selector.nextEnds now fs with candidate | done
      · refine .inl fun item inside => ?_
        rcases List.mem_append.mp inside with before | last
        · exact all item before
        · exact List.mem_singleton.mp last ▸ candidate
      · refine .inr ⟨done, ?_⟩
        rw [List.countP_append, candidatesUnrefused all, Nat.zero_add]
        exact List.countP_le_length
    · rw [selector.nextFinished done fs]
      exact .inr ⟨done, by simpa [Item.isRefusal] using once⟩

theorem refusals (called : selector.Called start items visited now) :
    items.countP Item.isRefusal = if items.any Item.isRefusal then 1 else 0 := by
  have once : items.countP Item.isRefusal ≤ 1 := by
    rcases called.candidatesOrEnd with all | ⟨_, once⟩
    · rw [candidatesUnrefused all]
      exact Nat.zero_le _
    · exact once
  split
  · rename_i refused
    have some := List.countP_pos_iff.mpr (List.any_eq_true.mp refused)
    omega
  · rename_i none
    rw [List.countP_eq_zero]
    simpa using none

end Called

theorem Visit.asideMeans {selector : Selector} (links : selector.resolver = resolve) {visit : Visit}
    (regular : Regular visit.files) {content : Content}
    (met : visit.files.linkStatus visit.entry.path = .ok content)
    (kind : visit.entry.kind = .ofContent content) (aside : visit.isAside selector = true) :
    ((∃ target, content = .link target) ∧
      visit.files.status visit.entry.path = .ok .directory) ∨
      visit.files.status visit.entry.path = .ok .device := by
  obtain ⟨reached, leads, other⟩ := (Option.any_eq_true ..).mp aside
  simp only [leadsTo?, links] at leads
  split at leads
  on_goal 2 => contradiction
  rename_i looked
  split at leads
  on_goal 2 => contradiction
  rename_i target found
  obtain ⟨location, held, located, _, _, there, unlinked, status⟩ := resolved regular found
  rw [status] at leads
  cases leads
  obtain ⟨checked, _, last, led⟩ := locatedParts located
  have same := (walkFound regular (regular.start _) led).1
  rw [there] at same
  cases same
  have found' : ∀ follow, visit.files.find follow visit.entry.path =
      walk visit.files follow maxLinks (visit.files.startOf visit.entry.path)
        (components visit.entry.path) := by
    have short : checkLength visit.entry.path = .ok () := by
      cases short : checkLength visit.entry.path with
      | ok _ => rfl
      | error fault =>
        simp [linkStatus, find, checked, short, existing, Except.map, bind, Except.bind] at met
    intro follow
    simp only [find, checked, short, bind, Except.bind]
  have status' : visit.files.status visit.entry.path = .ok reached := by
    simp [FileSystem.status, found', led, existing, Except.map]
  cases reached with
  | directory =>
    refine .inl ⟨?_, status'⟩
    rcases (walkLeads led).unfollowed with straight | ⟨place, link, crossed⟩
    · rw [linkStatus, found', straight] at met
      cases met
      simp [isLookedAt, kind, EntryKind.ofContent] at looked
    · rw [linkStatus, found', crossed] at met
      cases met
      exact ⟨link, rfl⟩
  | device => exact .inr status'
  | link target => exact absurd rfl (unlinked target)
  | _ => simp [Content.isFile] at other

section
variable {selector : Selector} {fs : FileSystem} {start now : Selection} {items : List Item}
  {visited : List Visit}

theorem countersSound (begun : selector.select fs = .ok start)
    (called : selector.Called start items visited now) :
    now.counts.selected = items.countP Item.isCandidate ∧
    now.counts.seen = now.counts.selected + now.counts.oversize + now.counts.unrecognized +
      visited.countP (Visit.isAside selector) + (if items.any Item.isRefusal then 1 else 0) ∧
    now.counts.seen = visited.countP Visit.isLookedAt ∧
    now.counts.oversize = visited.countP (Visit.isOversize selector) ∧
    (selector.resolver = resolve → ∀ visit ∈ visited, Regular visit.files → ∀ content,
      visit.files.linkStatus visit.entry.path = .ok content →
      visit.entry.kind = .ofContent content → visit.isAside selector = true →
      ((∃ target, content = .link target) ∧
        visit.files.status visit.entry.path = .ok .directory) ∨
        visit.files.status visit.entry.path = .ok .device) ∧
    ∀ more further later, selector.Called now more further later →
      now.counts.AtMost later.counts ∧
      ((∃ item ∈ items, item.isCandidate = false) →
        later.counts = now.counts ∧ ∀ item ∈ more, item = .done) := by
  have fresh : start.counts = {} := by
    simp only [select] at begun
    split at begun
    · contradiction
    split at begun
    · contradiction
    · cases begun
      rfl
  have tallied := called.tallied
  rw [fresh] at tallied
  have refused := called.refusals
  obtain ⟨seen, selected, oversize, unrecognized, sorted⟩ := tallied
  simp only [Nat.zero_add, Nat.add_zero] at seen selected oversize sorted
  refine ⟨selected, by omega, seen, oversize, ?_, ?_⟩
  · intro links visit _ regular content met kind aside
    exact Visit.asideMeans links regular met kind aside
  · intro more further later called'
    have grown := called'.tallied
    refine ⟨⟨by rw [grown.seen]; omega, by rw [grown.selected]; omega,
      by rw [grown.oversize]; omega, grown.unrecognized⟩, ?_⟩
    rintro ⟨item, inside, last⟩
    have done : now.walk = .finished := by
      rcases called.candidatesOrEnd with all | ⟨done, _⟩
      · simp [all item inside] at last
      · exact done
    obtain ⟨rfl, _, quiet⟩ := called'.ended done
    exact ⟨rfl, quiet⟩

end

def linkedRepository : FileSystem where
  entries := [(["l"], .link "/r"), (["r"], .directory), (["a.py", "r"], .file [0x78])]
  current := []

theorem linkedRootCounted : ∃ start visited now,
    (plainSelector "l" "python").select linkedRepository = .ok start ∧
    (plainSelector "l" "python").Called start
      [.candidate ⟨"a.py", "/r/a.py", 1, "python"⟩, .done] visited now ∧
    now.counts = ⟨2, 1, 0, 0⟩ ∧ visited.countP (Visit.isAside (plainSelector "l" "python")) = 1 := by
  have returned : ((plainSelector "l" "python").select linkedRepository).toOption.map (fun start =>
      let first := (plainSelector "l" "python").next start linkedRepository
      let last := (plainSelector "l" "python").next first.2.1 linkedRepository
      (first.1, last.1, last.2.1.counts)) =
        some (.candidate ⟨"a.py", "/r/a.py", 1, "python"⟩, .done, ⟨2, 1, 0, 0⟩) := by
    decide +kernel
  cases begun : (plainSelector "l" "python").select linkedRepository with
  | error fault => simp [begun, Except.toOption] at returned
  | ok start =>
    simp only [begun, Except.toOption, Option.map_some, Option.some.injEq, Prod.mk.injEq] at returned
    obtain ⟨first, last, counts⟩ := returned
    have called := ((@Called.none (plainSelector "l" "python") start).next
      linkedRepository).next linkedRepository
    rw [first, last] at called
    have seen := (countersSound begun called).2.1
    simp only [counts, List.any_append, List.any_cons, List.any_nil, Item.isRefusal, Bool.or_self,
      Bool.false_eq_true, if_false, Nat.add_zero] at seen
    exact ⟨start, _, _, rfl, called, counts, by omega⟩

def siblingResolver (name : String) : Resolver := fun _ path => .ok (Path.withFileName path name)

def siblingSelector : Selector :=
  { plainSelector "r" "python" with resolver := siblingResolver "no such file" }

def siblings : FileSystem where
  entries := [(["r"], .directory), (["a.py", "r"], .file [0x78]), (["no such file", "r"], .directory)]
  current := []

theorem plainFileAside :
    (∀ e ∈ siblings.entries, e.2 = .directory ∨ ∃ data, e.2 = .file data) ∧
    ∃ start visited now, siblingSelector.select siblings = .ok start ∧
      siblingSelector.Called start [.done] visited now ∧ now.counts = { seen := 1 } := by
  have rooted : Rooted siblings "r" ["r"] := ⟨by decide, rootFound rfl rfl true⟩
  have straight : siblings.linkStatus "r" = .ok .directory := by
    have found := @rootFound siblings rfl rfl false
    simp [linkStatus, found, existing, Except.map]
  have sorted : siblings.sortedChildren ["r"] =
      [("a.py", .file [0x78]), ("no such file", .directory)] :=
    List.mergeSort_of_pairwise (by decide)
  have listed := @Rooted.listed _ _ _ rooted [] rfl
  have begins' : Walk.start siblings "r" = .found ⟨"r", [], .directory⟩
      (Walk.enterWithin Walk.maxLevels "r" []
        (.ok [("a.py", .file [0x78]), ("no such file", .directory)]) fun _ => .finished) := by
    have named : Path.fileName? "r" ≠ some Walk.gitDirectory := by decide
    have inside : siblings.list "r" = .ok [("a.py", .file [0x78]), ("no such file", .directory)] :=
      listed.trans (congrArg Except.ok sorted)
    simp only [Walk.start, straight, EntryKind.ofContent, if_neg named, inside]
  have ends : (siblingSelector.next ⟨Walk.start siblings "r", {}⟩ siblings).1 = .done ∧
      (siblingSelector.next ⟨Walk.start siblings "r", {}⟩ siblings).2.1.counts = { seen := 1 } := by
    rw [begins']
    decide +kernel
  have called := (@Called.none siblingSelector ⟨Walk.start siblings "r", {}⟩).next siblings
  rw [ends.1] at called
  exact ⟨by simp [siblings], _, _, _, @begins siblingSelector _ _ rooted, called, ends.2⟩

end Selector

end SourceModels

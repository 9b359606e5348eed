import Mathlib.Data.List.Infix
import SourceModels.Walk
import SourceModels.Proofs.Identifier.Containment
import SourceModels.Proofs.Selection.Order

/-! The entries below a directory in the order of a walk, once as what is open to a walk level by
level and once as those of all entries that are not hidden, sorted. -/
namespace SourceModels
open FileSystem

def pathBelow (root : String) (names : List String) : String := names.foldl Path.join root

def isLongPath (path : String) : Bool := maxPathBytes < byteLength path

theorem bytesJoined {base name : String} (entry : EntryName name) :
    byteLength base + 1 ≤ byteLength (Path.join base name) := by
  have filled : 1 ≤ (Bytes.ofChars name.toList).length :=
    Nat.le_trans (List.length_pos_iff.mpr entry.filled) (Utf8.lengthOfChars _)
  simp only [byteLength, Utf8.ofTextChars, Path.join, String.toList_ofList]
  unfold Path.joinChars
  split
  · rename_i slash
    exact absurd (slash ▸ List.mem_cons_self) entry.noSlash
  · split
    · rename_i none
      rw [List.getLast?_eq_none_iff.mp none]
      simpa [Bytes.ofChars] using filled
    · rw [Bytes.ofCharsAppend, List.length_append]
      omega
    · rw [← List.singleton_append, Bytes.ofCharsAppend, Bytes.ofCharsAppend, List.length_append,
        List.length_append]
      omega

section
variable {root : String} {names : List String}

theorem pathGrows (plain : ∀ name ∈ names, EntryName name) :
    byteLength root + names.length ≤ byteLength (pathBelow root names) := by
  induction names generalizing root with
  | nil => exact Nat.le_refl _
  | cons name rest ih =>
    have first := @bytesJoined root name (plain name List.mem_cons_self)
    have later := @ih (Path.join root name) fun other inside =>
      plain other (List.mem_cons_of_mem _ inside)
    rw [List.length_cons]
    exact Nat.le_trans (by omega) later

theorem pathEnds (plain : ∀ name ∈ names, EntryName name) (below : names ≠ []) :
    hasTrailingSlash (pathBelow root names) = false := by
  obtain ⟨front, name, rfl⟩ := List.eq_nil_or_concat' names |>.resolve_left below
  have entry := plain name (by simp)
  rw [pathBelow, List.foldl_append, List.foldl_cons, List.foldl_nil, hasTrailingSlash, Path.join,
    String.toList_ofList, Path.joinedLast entry.filled, List.getLast?_eq_some_getLast entry.filled]
  simp only [beq_eq_false_iff_ne, ne_eq, Option.some.injEq]
  intro slash
  exact entry.noSlash (slash ▸ List.getLast_mem entry.filled)

theorem pathChecked (checked : checkPath root = .ok ()) (plain : ∀ name ∈ names, EntryName name) :
    checkPath (pathBelow root names) = .ok () := by
  induction names generalizing root with
  | nil => exact checked
  | cons name rest ih =>
    have entry := plain name List.mem_cons_self
    refine @ih (Path.join root name) ?_ fun other inside =>
      plain other (List.mem_cons_of_mem _ inside)
    have filled : Path.join root name ≠ "" := by
      intro empty
      have longer := @bytesJoined root name entry
      rw [empty] at longer
      simp [byteLength, Bytes.ofText] at longer
    have noNul : '\x00' ∉ root.toList := by
      intro inside
      simp [checkPath, inside] at checked
    have clean : '\x00' ∉ (Path.join root name).toList := by
      rw [Path.join, String.toList_ofList]
      unfold Path.joinChars
      split
      · exact entry.noNul
      · split <;> simp [noNul, entry.noNul]
    simp [checkPath, clean, filled]

end

structure Rooted (fs : FileSystem) (root : String) (top : Location) : Prop where
  regular : Regular fs
  reached : fs.find true root = .ok (.at top .directory)

namespace Rooted

variable {fs : FileSystem} {root : String} {top : Location}

theorem parts (rooted : Rooted fs root top) : checkPath root = .ok () ∧
    isLongPath root = false ∧
    walk fs true maxLinks (fs.startOf root) (components root) = .ok (.at top .directory) := by
  have reached := rooted.reached
  simp only [find, bind, Except.bind] at reached
  split at reached
  · contradiction
  rename_i checked
  split at reached
  · contradiction
  rename_i short
  refine ⟨checked, ?_, reached⟩
  simp only [checkLength] at short
  split at short
  · contradiction
  · rename_i within
    simpa [isLongPath] using within

theorem status (rooted : Rooted fs root top) : fs.status root = .ok .directory := by
  simp [FileSystem.status, rooted.reached, existing, Except.map]

theorem unfollowed (rooted : Rooted fs root top) :
    fs.linkStatus root = .ok .directory ∨ ∃ target, fs.linkStatus root = .ok (.link target) := by
  obtain ⟨checked, short, led⟩ := rooted.parts
  have found : fs.find false root =
      walk fs false maxLinks (fs.startOf root) (components root) := by
    have within : checkLength root = .ok () := if_neg (of_decide_eq_false short)
    simp only [find, checked, within, bind, Except.bind]
  refine (walkLeads led).unfollowed.imp ?_ ?_
  · intro same
    simp [linkStatus, found, same, existing, Except.map]
  · rintro ⟨place, target, same⟩
    exact ⟨target, by simp [linkStatus, found, same, existing, Except.map]⟩

theorem held (rooted : Rooted fs root top) : fs.content? top = some .directory :=
  (walkFound rooted.regular (rooted.regular.start root) rooted.parts.2.2).1

theorem named (rooted : Rooted fs root top) {names : List String} {content : Content}
    (held : fs.content? (names.reverse ++ top) = some content) :
    ∀ name ∈ names, EntryName name :=
  fun name inside => rooted.regular.named held name
    (List.mem_append_left _ (List.mem_reverse.mpr inside))

theorem leads (rooted : Rooted fs root top) :
    Leads fs maxLinks (fs.startOf root) (FileSystem.names root) top := by
  have whole := walkLeads rooted.parts.2.2
  unfold components at whole
  split at whole
  · exact whole.undotted rfl
  · exact whole

theorem walked (rooted : Rooted fs root top) {names : List String}
    (plain : ∀ name ∈ names, EntryName name) (below : names ≠ []) :
    ∃ fewer, ∀ follow, walk fs follow maxLinks (fs.startOf (pathBelow root names))
      (components (pathBelow root names)) = walk fs follow fewer top names := by
  have split := @Identifier.foldedNames names
    (fun name inside => ⟨(plain name inside).noSlash, (plain name inside).filled⟩) root
  have parts : components (pathBelow root names) = FileSystem.names root ++ names := by
    rw [components, pathEnds plain below]
    simpa [pathBelow] using split.1
  have start : fs.startOf (pathBelow root names) = fs.startOf root := by
    simp only [startOf, pathBelow, split.2]
  obtain ⟨fewer, on⟩ := rooted.leads.onward
  exact ⟨fewer, fun follow => by rw [parts, start, on follow names below]⟩

theorem listed (rooted : Rooted fs root top) {names : List String}
    (held : fs.content? (names.reverse ++ top) = some .directory) :
    fs.list (pathBelow root names) =
      if isLongPath (pathBelow root names) then .error .nameTooLong
      else
        match fs.closed.lookup (names.reverse ++ top) with
        | some fault => .error fault
        | none => .ok (fs.sortedChildren (names.reverse ++ top)) := by
  have plain := rooted.named held
  have led : walk fs true maxLinks (fs.startOf (pathBelow root names))
      (components (pathBelow root names)) = .ok (.at (names.reverse ++ top) .directory) := by
    by_cases here : names = []
    · subst here
      exact rooted.parts.2.2
    · obtain ⟨fewer, on⟩ := rooted.walked plain here
      have down := rooted.regular.walkedDown held true fewer []
      rw [List.append_nil] at down
      rw [on, down, walkHere held]
  have checked := pathChecked rooted.parts.1 plain
  by_cases long : maxPathBytes < byteLength (pathBelow root names)
  · simp [list, find, checked, checkLength, isLongPath, long, existing, bind, Except.bind]
  · simp only [list, find, checked, checkLength, led, isLongPath, long, existing,
      Content.isDirectory, bind, Except.bind, if_false, decide_false]
    cases fs.closed.lookup (names.reverse ++ top) <;> rfl

theorem listedSorted (rooted : Rooted fs root top) {names : List String}
    (held : fs.content? (names.reverse ++ top) = some .directory)
    {entries : List (String × Content)} (done : fs.list (pathBelow root names) = .ok entries) :
    entries = fs.sortedChildren (names.reverse ++ top) := by
  rw [rooted.listed held] at done
  split at done
  · cases done
  · split at done
    · cases done
    · exact (Except.ok.inj done).symm

theorem openShort (rooted : Rooted fs root top) {names : List String}
    (held : fs.content? (names.reverse ++ top) = some .directory)
    {entries : List (String × Content)} (done : fs.list (pathBelow root names) = .ok entries) :
    byteLength (pathBelow root names) ≤ maxPathBytes := by
  rw [rooted.listed held] at done
  split at done
  · cases done
  · rename_i short
    simpa [isLongPath] using short

end Rooted

abbrev Met := List String × Content

def isOpen (fs : FileSystem) (path : String) : Bool := (fs.list path).toOption.isSome

def metAt (fs : FileSystem) (root : String) (inner : List Met) (names : List String) :
    Content → List Met
  | .directory =>
    if names.getLast? = some Walk.gitDirectory then []
    else (names, .directory) :: if isOpen fs (pathBelow root names) then inner else []
  | content => [(names, content)]

def metInside (fs : FileSystem) (root : String) (top : Location) : (levels : Nat) →
    List String → List Met
  | 0, _ => []
  | levels + 1, names => (fs.sortedChildren (names.reverse ++ top)).flatMap fun e =>
    metAt fs root (metInside fs root top levels (names ++ [e.1])) (names ++ [e.1]) e.2

def metWithin (fs : FileSystem) (root : String) (top : Location) (levels : Nat)
    (names : List String) (content : Content) : List Met :=
  metAt fs root (metInside fs root top levels names) names content

def isEntered (fs : FileSystem) (root : String) (names : List String) : Bool :=
  names.getLast? != some Walk.gitDirectory && isOpen fs (pathBelow root names)

/-- An entry is met when every directory above it is entered, unless it is a directory named
`.git`. -/
def isMet (fs : FileSystem) (root : String) (e : Met) : Bool :=
  (e.1.inits.all fun front => front == e.1 || isEntered fs root front) &&
    (!e.2.isDirectory || e.1.getLast? != some Walk.gitDirectory)

def namesBelow? (top location : Location) : Option (List String) :=
  if top <:+ location ∧ location ≠ top then
    some (location.take (location.length - top.length)).reverse
  else none

def metBelow (fs : FileSystem) (root : String) (top : Location) : List Met :=
  ((([], .directory) :: fs.entries.filterMap fun e => (namesBelow? top e.1).map (·, e.2)).filter
    (isMet fs root)).mergeSort fun a b => notBehind a.1 b.1

theorem namesBelowMeans {top location : Location} {names : List String} :
    namesBelow? top location = some names ↔ names ≠ [] ∧ location = names.reverse ++ top := by
  unfold namesBelow?
  constructor
  · intro found
    split at found
    · rename_i below
      obtain ⟨⟨front, rfl⟩, other⟩ := below
      simp only [List.length_append, Nat.add_sub_cancel, List.take_left', Option.some.injEq] at found
      subst found
      refine ⟨?_, by simp⟩
      intro none
      exact other (by simpa using none)
    · contradiction
  · rintro ⟨below, rfl⟩
    simp [below]

section
variable {fs : FileSystem} {root : String} {names : List String} {name : String}
  {content : Content}

theorem isMetMeans : isMet fs root (names, content) = true ↔
    (∀ front, front <+: names → front = names ∨ isEntered fs root front = true) ∧
      (content = .directory → names.getLast? ≠ some Walk.gitDirectory) := by
  cases content <;> simp [isMet, Content.isDirectory, List.mem_inits]

theorem isMetBelow {more : List String}
    (met : isMet fs root (names ++ name :: more, content) = true) :
    isEntered fs root names = true := by
  rcases (isMetMeans.mp met).1 names (List.prefix_append ..) with same | entered
  · simp at same
  · exact entered

theorem enteredFurther
    (above : ∀ front, front <+: names → front = names ∨ isEntered fs root front = true)
    (entered : isEntered fs root names = true) :
    ∀ front, front <+: names ++ [name] →
      front = names ++ [name] ∨ isEntered fs root front = true := by
  intro front within
  rcases List.prefix_concat_iff.mp within with whole | upper
  · exact .inl whole
  · rcases above front upper with rfl | further
    · exact .inr entered
    · exact .inr further

end

namespace Rooted

variable {fs : FileSystem} {root : String} {top : Location}

theorem metBelowMeans (rooted : Rooted fs root top) {names : List String} {content : Content} :
    (names, content) ∈ metBelow fs root top ↔
      fs.content? (names.reverse ++ top) = some content ∧ isMet fs root (names, content) = true := by
  rw [metBelow, (List.mergeSort_perm _ _).mem_iff, List.mem_filter, List.mem_cons,
    List.mem_filterMap]
  refine and_congr_left fun _ => ?_
  rcases List.eq_nil_or_concat' names with rfl | ⟨front, name, rfl⟩
  · have unnamed : ∀ e : Location × Content,
        (namesBelow? top e.1).map (·, e.2) ≠ some (([] : List String), content) := by
      intro e same
      simp only [Option.map_eq_some_iff, Prod.mk.injEq] at same
      obtain ⟨_, below, rfl, _⟩ := same
      exact (namesBelowMeans.mp below).1 rfl
    simp [unnamed, rooted.held, eq_comm]
  · simp only [Prod.mk.injEq, List.append_eq_nil_iff, List.cons_ne_self, and_false, false_and,
      false_or]
    rw [List.reverse_append, List.reverse_singleton, List.singleton_append, List.cons_append]
    constructor
    · rintro ⟨⟨location, held⟩, inside, same⟩
      simp only [Option.map_eq_some_iff, Prod.mk.injEq] at same
      obtain ⟨_, below, rfl, rfl⟩ := same
      obtain ⟨_, rfl⟩ := namesBelowMeans.mp below
      rw [List.reverse_append, List.reverse_singleton, List.singleton_append, List.cons_append]
        at inside
      exact rooted.regular.held.mpr inside
    · intro held
      have below : namesBelow? top (name :: (front.reverse ++ top)) = some (front ++ [name]) :=
        namesBelowMeans.mpr ⟨by simp, by simp⟩
      exact ⟨_, heldEntry held, by rw [below]; rfl⟩

theorem metBelowOrdered (rooted : Rooted fs root top) :
    (metBelow fs root top).Pairwise fun a b => Ahead a.1 b.1 := by
  refine @sortedAhead _ Prod.fst _ ?_
  refine List.Nodup.sublist (List.Sublist.map _ List.filter_sublist) ?_
  have known : ∀ e : Location × Content, ∀ names,
      ((namesBelow? top e.1).map (·, e.2)).map Prod.fst = some names →
        names ≠ [] ∧ e.1 = names.reverse ++ top := by
    intro e names same
    simp only [Option.map_map, Option.map_eq_some_iff, Function.comp_apply] at same
    obtain ⟨_, below, rfl⟩ := same
    exact namesBelowMeans.mp below
  rw [List.map_cons, List.map_filterMap, List.nodup_cons]
  refine ⟨?_, ?_⟩
  · rw [List.mem_filterMap]
    rintro ⟨e, _, same⟩
    exact (known e [] same).1 rfl
  · rw [List.Nodup, List.pairwise_filterMap]
    refine (List.pairwise_map.mp rooted.regular.once).imp ?_
    rintro a b other names first _ second rfl
    exact other ((known a names first).2.trans (known b names second).2.symm)

end Rooted

section
variable {fs : FileSystem} {root : String} {top : Location} {names : List String}

theorem metAtBelow {inner : List Met} {content : Content} {e : Met}
    (within : ∀ e ∈ inner, names <+: e.1) (inside : e ∈ metAt fs root inner names content) :
    names <+: e.1 := by
  unfold metAt at inside
  split at inside
  · split at inside
    · simp at inside
    rcases List.mem_cons.mp inside with rfl | deeper
    · exact List.prefix_rfl
    split at deeper
    · exact within e deeper
    · simp at deeper
  · exact List.mem_singleton.mp inside ▸ List.prefix_rfl

theorem metInsideBelow {levels : Nat} {e : Met} (inside : e ∈ metInside fs root top levels names) :
    ∃ name more, e.1 = names ++ name :: more := by
  induction levels generalizing names e with
  | zero => simp [metInside] at inside
  | succ levels ih =>
    obtain ⟨child, _, met⟩ := List.mem_flatMap.mp inside
    obtain ⟨rest, same⟩ := metAtBelow (fun deeper below => by
      obtain ⟨name, more, same⟩ := ih below
      exact ⟨name :: more, same.symm⟩) met
    exact ⟨child.1, rest, by rw [← same, List.append_assoc]; rfl⟩

theorem metWithinBelow {levels : Nat} {content : Content} {e : Met}
    (inside : e ∈ metWithin fs root top levels names content) : names <+: e.1 := by
  refine metAtBelow (fun deeper below => ?_) inside
  obtain ⟨name, more, same⟩ := metInsideBelow below
  exact ⟨name :: more, same.symm⟩

theorem metAtOrdered {inner : List Met} (content : Content)
    (ordered : inner.Pairwise fun a b => Ahead a.1 b.1)
    (further : ∀ e ∈ inner, ∃ name more, e.1 = names ++ name :: more) :
    (metAt fs root inner names content).Pairwise fun a b => Ahead a.1 b.1 := by
  unfold metAt
  split
  · split
    · exact .nil
    split
    · refine List.pairwise_cons.mpr ⟨fun e inside => ?_, ordered⟩
      obtain ⟨name, more, same⟩ := further e inside
      rw [same]
      exact .deeper names name more
    · exact List.pairwise_singleton ..
  · exact List.pairwise_singleton ..

theorem metHere {inner : List Met} {held content : Content}
    (outside : (names, content) ∉ inner) :
    (names, content) ∈ metAt fs root inner names held ↔
      held = content ∧ (content = .directory → names.getLast? ≠ some Walk.gitDirectory) := by
  cases held with
  | directory =>
    simp only [metAt]
    split
    · rename_i git
      simp +contextual [git, eq_comm]
    · rename_i other
      split <;> simp +contextual [outside, other, eq_comm]
  | _ =>
    simp only [metAt, List.mem_singleton, Prod.mk.injEq, true_and]
    constructor
    · rintro rfl
      exact ⟨rfl, by simp⟩
    · rintro ⟨same, _⟩
      exact same.symm

theorem metFurther {inner : List Met} {held content : Content} {name : String}
    {more : List String} :
    (names ++ name :: more, content) ∈ metAt fs root inner names held ↔
      held = .directory ∧ isEntered fs root names = true ∧
        (names ++ name :: more, content) ∈ inner := by
  cases held with
  | directory =>
    simp only [metAt]
    split
    · rename_i git
      simp [isEntered, git]
    · rename_i other
      split <;> simp [isEntered, *]
  | _ => simp [metAt]

end

namespace Rooted

variable {fs : FileSystem} {root : String} {top : Location}

theorem metWithinOrdered (rooted : Rooted fs root top) (levels : Nat) (names : List String)
    (content : Content) :
    (metWithin fs root top levels names content).Pairwise fun a b => Ahead a.1 b.1 := by
  induction levels generalizing names content with
  | zero => exact metAtOrdered content .nil (by simp [metInside])
  | succ levels ih =>
    refine metAtOrdered content (List.pairwise_flatMap.mpr ⟨fun e _ => ih _ _, ?_⟩)
      fun e => metInsideBelow
    refine (rooted.regular.listedInOrder _).imp ?_
    intro a b ahead x first y second
    obtain ⟨rest, same⟩ := @metWithinBelow _ _ _ _ levels _ _ first
    obtain ⟨more, same'⟩ := @metWithinBelow _ _ _ _ levels _ _ second
    rw [← same, ← same', List.append_assoc, List.append_assoc]
    exact .below ahead names rest more

theorem metWithinHere {levels : Nat} {names : List String} {held content : Content}
    (there : fs.content? (names.reverse ++ top) = some held)
    (above : ∀ front, front <+: names → front = names ∨ isEntered fs root front = true) :
    (names, content) ∈ metWithin fs root top levels names held ↔
      fs.content? (names.reverse ++ top) = some content ∧
        isMet fs root (names, content) = true := by
  have outside : (names, content) ∉ metInside fs root top levels names := by
    intro inside
    obtain ⟨name, more, same⟩ := metInsideBelow inside
    simp at same
  rw [metWithin, metHere outside, isMetMeans, there, Option.some.injEq]
  exact and_congr_right fun _ => (and_iff_right above).symm

theorem metWithinMeans (rooted : Rooted fs root top) {levels : Nat} {names rest : List String}
    {held content : Content} (there : fs.content? (names.reverse ++ top) = some held)
    (above : ∀ front, front <+: names → front = names ∨ isEntered fs root front = true) :
    (names ++ rest, content) ∈ metWithin fs root top levels names held ↔
      rest.length ≤ levels ∧ fs.content? ((names ++ rest).reverse ++ top) = some content ∧
        isMet fs root (names ++ rest, content) = true := by
  -- on the levels left: what is met a level below has one directory more above it that is entered
  induction levels generalizing names rest held with
  | zero =>
    cases rest with
    | nil => simpa using metWithinHere there above
    | cons name more => simp [metWithin, metInside, metFurther]
  | succ levels ih =>
    cases rest with
    | nil => simpa using metWithinHere there above
    | cons name more =>
      rw [metWithin, metFurther, List.length_cons, Nat.succ_le_succ_iff]
      constructor
      · rintro ⟨rfl, entered, inside⟩
        obtain ⟨⟨child, found⟩, listed, met⟩ := List.mem_flatMap.mp inside
        obtain ⟨back, same⟩ := @metWithinBelow _ _ _ _ levels _ _ met
        simp only [List.append_assoc, List.append_cancel_left_eq, List.cons_append,
          List.cons.injEq] at same
        obtain ⟨rfl, _⟩ := same
        have deeper := @ih (names ++ [child]) more found
          (by simpa using rooted.regular.listed.mp listed) (enteredFurther above entered)
        rw [List.append_assoc, List.singleton_append] at deeper
        exact deeper.mp met
      · rintro ⟨few, below, met⟩
        have entered := isMetBelow met
        have upper : ∃ found, fs.content? ((names ++ [name]).reverse ++ top) = some found := by
          rw [List.append_cons, List.reverse_append, List.append_assoc] at below
          rcases rooted.regular.along below with none | directory
          · exact ⟨content, by simpa [none] using below⟩
          · exact ⟨.directory, directory⟩
        obtain ⟨found, next⟩ := upper
        have deeper := @ih (names ++ [name]) more found next (enteredFurther above entered)
        rw [List.append_assoc, List.singleton_append] at deeper
        rw [List.reverse_append, List.reverse_singleton, List.singleton_append, List.cons_append]
          at next
        have directory := rooted.regular.above next
        rw [there] at directory
        exact ⟨Option.some.inj directory, entered,
          List.mem_flatMap.mpr ⟨(name, found), rooted.regular.listed.mpr next,
            deeper.mpr ⟨few, below, met⟩⟩⟩

theorem metDepth (rooted : Rooted fs root top) {names : List String} {content : Content}
    (held : fs.content? (names.reverse ++ top) = some content)
    (met : isMet fs root (names, content) = true) : names.length ≤ Walk.maxLevels := by
  rcases List.eq_nil_or_concat' names with rfl | ⟨front, last, rfl⟩
  · exact Nat.zero_le _
  rw [List.reverse_append, List.reverse_singleton, List.singleton_append, List.cons_append] at held
  have entered := isMetBelow met
  simp only [isEntered, isOpen, Bool.and_eq_true] at entered
  have directory := rooted.regular.above held
  have short : byteLength (pathBelow root front) ≤ maxPathBytes := by
    cases done : fs.list (pathBelow root front) with
    | error fault => simp [done, Except.toOption] at entered
    | ok entries => exact rooted.openShort directory done
  have grows := @pathGrows root front (rooted.named directory)
  rw [List.length_append, List.length_singleton, Walk.maxLevels]
  rw [maxPathBytes] at short
  omega

theorem metWithinAll (rooted : Rooted fs root top) :
    metWithin fs root top Walk.maxLevels [] .directory = metBelow fs root top := by
  refine orderedOnce (rooted.metWithinOrdered _ _ _) rooted.metBelowOrdered ?_
  rintro ⟨names, content⟩
  have within := @metWithinMeans _ _ _ rooted Walk.maxLevels [] names _ content rooted.held
    (by simp)
  rw [List.nil_append] at within
  rw [within, rooted.metBelowMeans]
  exact and_iff_right_of_imp fun ⟨held, met⟩ => rooted.metDepth held met

end Rooted

end SourceModels

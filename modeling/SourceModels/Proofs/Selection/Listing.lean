import SourceModels.Proofs.Extraction.Items
import SourceModels.Proofs.Selection.Tree

/-! A selection and the listing it goes through: each entry that a walk meets is judged on its own,
and the first that cannot be judged ends it. -/
namespace SourceModels
open FileSystem

namespace Selector

def judge (selector : Selector) (fs : FileSystem) (spelled : List String → String) (e : Met) :
    Except SelectionFault (Option Candidate) :=
  let path := pathBelow selector.root e.1
  if e.2 = .directory then
    match fs.list path with
    | .error fault => .error (walkFault path fault)
    | .ok _ => .ok none
  else
    match resolve fs path with
    | .error fault => .error (.resolve fault)
    | .ok target =>
      match fs.content? (names target).reverse with
      | some (.file data) =>
        if selector.maxFileSize < data.length then .ok none
        else
          .ok ((selector.detector (spelled e.1) (data.take headLength) fs).1.map
            fun language => ⟨spelled e.1, target, data.length, language⟩)
      | some (.unreadable size fault) =>
        if selector.maxFileSize < size then .ok none
        else .error (.unreadable (spelled e.1) fault.message)
      | _ => .ok none

def judgeThen (selector : Selector) (fs : FileSystem) (spelled : List String → String) (e : Met)
    (later : List Handed) : List Handed :=
  match selector.judge fs spelled e with
  | .error fault => [.error fault]
  | .ok none => later
  | .ok (some c) => .ok c :: later

def judged (selector : Selector) (fs : FileSystem) (spelled : List String → String)
    (listing : List Met) : List Handed :=
  listing.foldr (selector.judgeThen fs spelled) []

/-- A root that is a link is met like an entry, and entered all the same. -/
def metFrom (fs : FileSystem) (root : String) (top : Location) : List Met :=
  match fs.linkStatus root with
  | .ok (.link target) => ([], .link target) :: metBelow fs root top
  | _ => metBelow fs root top

def Item.of : Handed → Item
  | .ok c => .candidate c
  | .error fault => .failed fault

def calls (selector : Selector) : (count : Nat) → Selection → FileSystem → List Item
  | 0, _, _ => []
  | count + 1, selection, fs =>
    let stepped := selector.next selection fs
    stepped.1 :: calls selector count stepped.2.1 stepped.2.2

theorem callsDone (selector : Selector) (count : Nat) {selection : Selection} (fs : FileSystem)
    (done : selection.walk = .finished) :
    selector.calls count selection fs = List.replicate count .done := by
  obtain ⟨walk, counts⟩ := selection
  simp only at done
  subst done
  induction count with
  | zero => rfl
  | succ count ih => exact congrArg (Item.done :: ·) ih

theorem callsItems {selector : Selector} (quiet : selector.detector.Quiet) {count spare : Nat}
    (enough : count ≤ spare) (selection : Selection) (fs : FileSystem) :
    selector.calls count selection fs =
      ((selector.items fs selection.walk selection.counts).map Item.of ++
        List.replicate spare Item.done).take count := by
  induction count generalizing selection with
  | zero => rfl
  | succ count ih =>
    have done : count ≤ spare := Nat.le_of_succ_le enough
    cases selector.nextHeads quiet fs selection.walk selection.counts with
    | done ends left none =>
      simp [calls, ends, none, callsDone selector count fs left, Nat.min_eq_left enough,
        ← List.replicate_succ]
    | failed ends left one =>
      simp [calls, ends, one, callsDone selector count fs left, Nat.min_eq_left done, Item.of]
    | @candidate later c first more _ =>
      simp [calls, first, more, ih done later, Item.of]

theorem itemsUncounted (selector : Selector) (fs : FileSystem) (walk : Walk)
    (counts other : SelectionCounts) :
    selector.items fs walk counts = selector.items fs walk other := by
  induction walk generalizing counts other with
  | finished => rfl
  | failed path fault => rfl
  | found entry resume ih =>
    simp only [items, (selector.inspectUncounted entry counts other fs).1]
    split
    · exact congrArg _ (ih ..)
    · rfl
    · exact ih ..

def spell (names : List String) : String :=
  String.ofList (Text.replaceChar '\\' '/' ("/".intercalate names).toList)

theorem spelledPlainly {names : List String} (plain : ∀ name ∈ names, '\\' ∉ name.toList) :
    spell names = "/".intercalate names := by
  have absent : '\\' ∉ ("/".intercalate names).toList := by
    induction names with
    | nil => simp
    | cons name rest ih =>
      have first := plain name List.mem_cons_self
      have later := ih fun other inside => plain other (List.mem_cons_of_mem _ inside)
      cases rest with
      | nil => simpa using first
      | cons next more =>
        simp [String.intercalate_cons_cons, first, later, -String.toList_intercalate]
  have kept : Text.replaceChar '\\' '/' ("/".intercalate names).toList =
      ("/".intercalate names).toList := by
    refine (List.map_congr_left fun c inside => if_neg ?_).trans (List.map_id _)
    rintro rfl
    exact absent inside
  rw [spell, kept, String.ofList_toList]

theorem resolved {fs : FileSystem} (regular : Regular fs) {path target : String}
    (found : resolve fs path = .ok target) : ∃ location content,
      fs.locate path = .ok location ∧ target = location.text ∧
      (FileSystem.names target).reverse = location ∧ fs.content? location = some content ∧
      (∀ link, content ≠ .link link) ∧ fs.status target = .ok content := by
  unfold resolve at found
  split at found
  · rename_i location located
    cases found
    obtain ⟨content, held, unlinked, status⟩ := regular.located located
    refine ⟨location, content, located, rfl, ?_, held, unlinked, status⟩
    rw [textNames (regular.named held), List.reverse_reverse]
  · split at found <;> contradiction

def Verdict.of : Except SelectionFault (Option Candidate) → Verdict
  | .error fault => .refused fault
  | .ok none => .passedOver
  | .ok (some c) => .candidate c

theorem inspectJudged {selector : Selector} (links : selector.resolver = resolve)
    {fs : FileSystem} (regular : Regular fs) {e : Met} (other : e.2 ≠ .directory)
    (counts : SelectionCounts) :
    (selector.inspect ⟨pathBelow selector.root e.1, e.1, EntryKind.ofContent e.2⟩ counts fs).1 =
      .of (selector.judge fs spell e) := by
  have kind : EntryKind.ofContent e.2 ≠ .directory := by
    intro same
    unfold EntryKind.ofContent at same
    split at same <;> simp_all
  simp only [inspect, if_neg kind, judge, if_neg other, links]
  cases found : resolve fs (pathBelow selector.root e.1) with
  | error fault => rfl
  | ok target =>
    obtain ⟨location, content, _, _, spelt, held, unlinked, status⟩ := resolved regular found
    simp only [status, spelt, held]
    cases content with
    | directory => simp [Content.isFile, Verdict.of]
    | device => simp [Content.isFile, Verdict.of]
    | link link => exact absurd rfl (unlinked link)
    | unreadable size fault =>
      simp only [Content.isFile, Content.size, readHead, status, bind, Except.bind]
      split
      · contradiction
      split <;> rfl
    | file data =>
      simp only [Content.isFile, Content.size, readHead, status, bind, Except.bind]
      split
      · contradiction
      split
      · rfl
      · have same : relativePath ⟨pathBelow selector.root e.1, e.1, EntryKind.ofContent e.2⟩ =
            spell e.1 := rfl
        rw [same]
        cases selector.detector (spell e.1) (data.take headLength) fs with
        | mk language after => cases language <;> rfl

def handed (selector : Selector) (fs : FileSystem) (walk : Walk) : List Handed :=
  selector.items fs walk {}

section
variable {selector : Selector} {fs : FileSystem} {top : Location}

theorem handedEntry (links : selector.resolver = resolve) (regular : Regular fs) {e : Met}
    (other : e.2 ≠ .directory) (resume : FileSystem → Walk) :
    selector.handed fs (.found ⟨pathBelow selector.root e.1, e.1, EntryKind.ofContent e.2⟩ resume) =
      selector.judgeThen fs spell e (selector.handed fs (resume fs)) := by
  have seen := inspectJudged links regular other {}
  simp only [handed, items, seen, judgeThen]
  cases selector.judge fs spell e with
  | error fault => rfl
  | ok found =>
    cases found with
    | none => exact selector.itemsUncounted ..
    | some c => exact congrArg _ (selector.itemsUncounted ..)

theorem handedDirectory (path : String) (names : List String) (resume : FileSystem → Walk) :
    selector.handed fs (.found ⟨path, names, .directory⟩ resume) =
      selector.handed fs (resume fs) := rfl

theorem handedListed {levels : Nat} {names : List String} {goOn : FileSystem → Walk}
    (unnamed : names.getLast? ≠ some Walk.gitDirectory) {inner : List Met}
    (opened : ∀ entries, fs.list (pathBelow selector.root names) = .ok entries →
      selector.handed fs
          (Walk.enterWithin levels (pathBelow selector.root names) names (.ok entries) goOn fs) =
        inner.foldr (selector.judgeThen fs spell) (selector.handed fs (goOn fs))) :
    selector.handed fs (Walk.enterWithin levels (pathBelow selector.root names) names
        (fs.list (pathBelow selector.root names)) goOn fs) =
      (metAt fs selector.root inner names .directory).foldr (selector.judgeThen fs spell)
        (selector.handed fs (goOn fs)) := by
  cases listed : fs.list (pathBelow selector.root names) with
  | error fault =>
    rw [Walk.enterWithin.eq_def]
    simp [metAt, unnamed, isOpen, listed, Except.toOption, judgeThen, judge, handed, items]
  | ok entries =>
    rw [opened entries listed]
    simp [metAt, unnamed, isOpen, listed, Except.toOption, judgeThen, judge]

theorem handedWithin (links : selector.resolver = resolve) (rooted : Rooted fs selector.root top)
    (levels : Nat) {names : List String} (unnamed : names.getLast? ≠ some Walk.gitDirectory)
    {path : String} (below : path = pathBelow selector.root names)
    (held : fs.content? (names.reverse ++ top) = some .directory) (goOn : FileSystem → Walk) :
    selector.handed fs (Walk.enterWithin levels path names (fs.list path) goOn fs) =
      (metWithin fs selector.root top levels names .directory).foldr (selector.judgeThen fs spell)
        (selector.handed fs (goOn fs)) := by
  subst below
  induction levels generalizing names goOn with
  | zero => exact handedListed unnamed fun _ _ => rfl
  | succ levels ih =>
    refine handedListed unnamed fun entries listed => ?_
    rw [metInside, ← rooted.listedSorted held listed, Walk.enterWithin.eq_def]
    have there : ∀ e ∈ entries, fs.content? (e.1 :: (names.reverse ++ top)) = some e.2 := by
      rw [rooted.listedSorted held listed]
      exact fun e inside => rooted.regular.listed.mp inside
    clear listed
    dsimp only
    -- what is listed behind an entry is where the walk goes on after all that lies in the entry
    induction entries with
    | nil => rfl
    | cons e rest later =>
      obtain ⟨name, content⟩ := e
      have inside := there _ List.mem_cons_self
      have onward := later fun e below => there e (List.mem_cons_of_mem _ below)
      have path : Path.join (pathBelow selector.root names) name =
          pathBelow selector.root (names ++ [name]) := by simp [pathBelow]
      rw [List.flatMap_cons, List.foldr_append, ← onward, Walk.visit, path]
      cases content with
      | directory =>
        by_cases git : name = Walk.gitDirectory
        · simp [EntryKind.ofContent, metAt, git]
        · have entered := @ih (names ++ [name]) (by simpa using git) (by simpa using inside)
          simp only [EntryKind.ofContent, if_neg git]
          rw [handedDirectory, entered, metWithin]
      | _ => exact handedEntry links rooted.regular (e := (names ++ [name], _)) (by simp) _

theorem handedFrom (links : selector.resolver = resolve) (rooted : Rooted fs selector.root top)
    (named : fs.linkStatus selector.root = .ok .directory →
      Path.fileName? selector.root ≠ some Walk.gitDirectory) :
    selector.handed fs (Walk.start fs selector.root) =
      selector.judged fs spell (metFrom fs selector.root top) := by
  have entered := @handedWithin _ _ _ links rooted Walk.maxLevels [] (by simp) selector.root rfl
    rooted.held fun _ => .finished
  rw [rooted.metWithinAll] at entered
  rcases rooted.unfollowed with straight | ⟨target, link⟩
  · have unnamed := named straight
    simp only [Walk.start, straight, EntryKind.ofContent, if_neg unnamed, metFrom]
    exact entered
  · have status := rooted.status
    simp only [Walk.start, link, EntryKind.ofContent, status, Content.isDirectory, if_true, metFrom]
    have first := handedEntry links rooted.regular (e := ([], .link target)) (by simp)
      fun fs => Walk.enterWithin Walk.maxLevels selector.root [] (fs.list selector.root)
        (fun _ => .finished) fs
    exact first.trans (congrArg _ entered)

theorem begins (rooted : Rooted fs selector.root top) :
    selector.select fs = .ok ⟨Walk.start fs selector.root, {}⟩ := by
  simp [select, pathExists, isDirectory, rooted.status, Except.toOption, Content.isDirectory]

theorem selectionListed (links : selector.resolver = resolve) (quiet : selector.detector.Quiet)
    (rooted : Rooted fs selector.root top)
    (named : fs.linkStatus selector.root = .ok .directory →
      Path.fileName? selector.root ≠ some Walk.gitDirectory) :
    ∃ spelled : List String → String,
      (∀ names, (∀ name ∈ names, '\\' ∉ name.toList) → spelled names = "/".intercalate names) ∧
      ∃ selection, selector.select fs = .ok selection ∧
        ∀ count, selector.calls count selection fs =
          ((selector.judged fs spelled (metFrom fs selector.root top)).map Item.of ++
            List.replicate count Item.done).take count := by
  refine ⟨spell, fun _ => spelledPlainly, _, begins rooted, fun count => ?_⟩
  rw [callsItems quiet (Nat.le_refl count), ← handedFrom links rooted named]
  rfl

end

def dotted (dots : Nat) : String :=
  String.ofList ((List.replicate dots ['.', '/']).flatten ++ ['r'])

theorem dottedMore (dots : Nat) : (dotted (dots + 1)).toList = '.' :: '/' :: (dotted dots).toList := by
  simp [dotted, List.replicate_succ]

theorem dottedNames (dots : Nat) : names (dotted dots) = List.replicate dots "." ++ ["r"] := by
  induction dots with
  | zero => decide
  | succ dots ih =>
    have dot : Path.parts ['.'] = [['.']] := by decide
    rw [names, dottedMore, ← List.singleton_append, Path.partsSlash, dot, List.map_append, ← names,
      ih, List.replicate_succ]
    rfl

theorem dottedLength (dots : Nat) : byteLength (dotted dots) = 2 * dots + 1 := by
  induction dots with
  | zero => decide
  | succ dots ih =>
    have more : Bytes.ofText (dotted (dots + 1)) = 0x2E :: 0x2F :: Bytes.ofText (dotted dots) := by
      rw [Utf8.ofTextChars, Utf8.ofTextChars, dottedMore]
      rfl
    rw [byteLength, more, List.length_cons, List.length_cons, ← byteLength, ih]
    omega

theorem dottedLong {dots : Nat} (many : maxPathBytes ≤ 2 * dots + 1) :
    isLongPath (pathBelow (dotted dots) ["abc"]) = true := by
  have grows := @pathGrows (dotted dots) ["abc"] (by decide)
  rw [dottedLength] at grows
  exact decide_eq_true (Nat.lt_of_lt_of_le (Nat.lt_succ_of_le many) grows)

theorem dottedFileName (dots : Nat) : Path.fileName? (dotted (dots + 1)) = some "r" := by
  have chars : (dotted (dots + 1)).toList =
      (List.replicate dots ['.', '/']).flatten ++ ['.', '/', 'r'] := by
    simp [dotted, List.replicate_succ']
  simp [Path.fileName?, Path.splitLast, Path.splitLast.strip, chars]

theorem dottedFound {fs : FileSystem} (start : fs.current = [])
    (held : fs.content? ["r"] = some .directory) (follow : Bool) {dots : Nat}
    (within : dots ≤ 2047) : fs.find follow (dotted dots) = .ok (.at ["r"] .directory) := by
  have clean : '\x00' ∉ (dotted dots).toList := by
    simp [dotted, List.mem_flatten, List.mem_replicate]
  have filled : dotted dots ≠ "" := by
    intro empty
    have chars := congrArg String.toList empty
    simp [dotted] at chars
  have checked : checkPath (dotted dots) = .ok () := by simp [checkPath, clean, filled]
  have short : checkLength (dotted dots) = .ok () := by
    rw [checkLength, dottedLength]
    exact if_neg (by simp only [maxPathBytes]; omega)
  have top : fs.startOf (dotted dots) = [] := by
    unfold startOf
    split
    · rfl
    · exact start
  have ends : hasTrailingSlash (dotted dots) = false := by simp [hasTrailingSlash, dotted]
  have led : ∀ dots, walk fs follow maxLinks [] (List.replicate dots "." ++ ["r"]) =
      .ok (.at ["r"] .directory) := by
    intro dots
    induction dots with
    | zero => exact (walkDown rfl (by decide) (by decide) held (by simp) _).trans (walkHere held)
    | succ dots ih => exact (walkDot rfl _).trans ih
  simp [find, checked, short, top, components, ends, dottedNames, led, bind, Except.bind]

theorem rootFound {fs : FileSystem} (start : fs.current = [])
    (held : fs.content? ["r"] = some .directory) (follow : Bool) :
    fs.find follow "r" = .ok (.at ["r"] .directory) := by
  have plain : dotted 0 = "r" := by decide
  exact plain ▸ dottedFound start held follow (Nat.zero_le _)

def plainSelector (root : String) (language : Option String) : Selector where
  root := root
  maxFileSize := 1
  resolver := resolve
  detector := fun _ _ fs => (language, fs)

def nestedLink : FileSystem where
  entries := [(["r"], .directory), (["pkg", "r"], .directory),
    (["l.py", "pkg", "r"], .link "/k.py"), (["k.py"], .file [0x78])]
  current := []

theorem nestedLinkListed :
    (∃ spelled : List String → String,
      (∀ names, (∀ name ∈ names, '\\' ∉ name.toList) → spelled names = "/".intercalate names) ∧
      ∃ selection, (plainSelector "r" "python").select nestedLink = .ok selection ∧
        ∀ count, (plainSelector "r" "python").calls count selection nestedLink =
          (((plainSelector "r" "python").judged nestedLink spelled
              (metFrom nestedLink "r" ["r"])).map Item.of ++
            List.replicate count Item.done).take count) ∧
    ((plainSelector "r" "python").select nestedLink).toOption.map
        (fun selection => (plainSelector "r" "python").calls 2 selection nestedLink) =
      some [.candidate ⟨"pkg/l.py", "/k.py", 1, "python"⟩, .done] :=
  ⟨@selectionListed (plainSelector "r" "python") _ _ rfl (fun _ _ _ => rfl)
    ⟨by decide, rootFound rfl rfl true⟩ (fun _ => by decide), by decide +kernel⟩

def unreadableTarget : FileSystem where
  entries := [(["r"], .directory), (["m.txt", "r"], .link "/mem"),
    (["mem"], .unreadable 0 .inputOutput)]
  current := []

def deepFile : FileSystem where
  entries := [(["r"], .directory), (["abc", "r"], .directory),
    (["x.py", "abc", "r"], .file [0x78])]
  current := []

theorem dottedStraight {dots : Nat} (within : dots ≤ 2047) :
    deepFile.linkStatus (dotted dots) = .ok .directory := by
  have found := @dottedFound deepFile rfl rfl false dots within
  simp [linkStatus, found, existing, Except.map]

theorem deepFileChildren : deepFile.sortedChildren ["r"] = [("abc", .directory)] := by
  simp [sortedChildren, FileSystem.children, deepFile]

theorem deepFileLists {root : String} (rooted : Rooted deepFile root ["r"])
    (long : isLongPath (pathBelow root ["abc"]) = true) :
    deepFile.list (pathBelow root []) = .ok [("abc", .directory)] ∧
      deepFile.list (pathBelow root ["abc"]) = .error .nameTooLong := by
  have upper := @Rooted.listed _ _ _ rooted [] rooted.held
  have lower := @Rooted.listed _ _ _ rooted ["abc"] rfl
  rw [if_neg (by simpa [pathBelow] using rooted.parts.2.1)] at upper
  rw [if_pos long] at lower
  exact ⟨upper.trans (congrArg _ deepFileChildren), lower⟩

theorem deepFileMet {root : String} (rooted : Rooted deepFile root ["r"])
    (long : isLongPath (pathBelow root ["abc"]) = true) :
    metBelow deepFile root ["r"] = [([], .directory), (["abc"], .directory)] := by
  obtain ⟨upper, lower⟩ := deepFileLists rooted long
  have within : ∀ levels, metWithin deepFile root ["r"] (levels + 1) [] .directory =
      [([], .directory), (["abc"], .directory)] := by
    intro levels
    simp [metWithin, metInside, deepFileChildren, metAt, isOpen, upper, lower, Except.toOption,
      Walk.gitDirectory]
  exact rooted.metWithinAll.symm.trans (within 4095)

theorem deepFileStopped {root : String} (rooted : Rooted deepFile root ["r"])
    (straight : deepFile.linkStatus root = .ok .directory)
    (named : Path.fileName? root ≠ some Walk.gitDirectory)
    (long : isLongPath (pathBelow root ["abc"]) = true) :
    ∃ selection, (plainSelector root "python").select deepFile = .ok selection ∧
      (plainSelector root "python").calls 2 selection deepFile =
        [.failed (walkFault (Path.join root "abc") .nameTooLong), .done] := by
  refine ⟨_, @begins (plainSelector root "python") _ _ rooted, ?_⟩
  obtain ⟨upper, lower⟩ := deepFileLists rooted long
  have items : (plainSelector root "python").items deepFile (Walk.start deepFile root) {} =
      [.error (walkFault (Path.join root "abc") .nameTooLong)] := by
    refine (@handedFrom (plainSelector root "python") _ _ rfl rooted fun _ => named).trans ?_
    simp only [plainSelector, metFrom, straight, deepFileMet rooted long, judged, List.foldr_cons,
      judgeThen, judge, if_true, upper, lower]
    rfl
  have walk : (plainSelector root "python").root = root := rfl
  rw [callsItems (fun _ _ _ => rfl) (Nat.le_refl 2), walk, items]
  rfl

def shutFile : FileSystem := { deepFile with closed := [(["abc", "r"], .system 13)] }

theorem selectionStopped :
    ((plainSelector "r" none).select unreadableTarget).toOption.map
        (fun selection => (plainSelector "r" none).calls 2 selection unreadableTarget) =
      some [.failed (.unreadable "m.txt" Fault.inputOutput.message), .done] ∧
    ((plainSelector "r" "python").select shutFile).toOption.map
        (fun selection => (plainSelector "r" "python").calls 2 selection shutFile) =
      some [.failed (walkFault "r/abc" (.system 13)), .done] ∧
    deepFile.entries.filter (fun e => e.2 ≠ .directory) =
      [(["x.py", "abc", "r"], .file [0x78])] ∧
    ∃ selection, (plainSelector (dotted 2047) "python").select deepFile = .ok selection ∧
      (plainSelector (dotted 2047) "python").calls 2 selection deepFile =
        [.failed (walkFault (Path.join (dotted 2047) "abc") .nameTooLong), .done] := by
  have rooted : Rooted deepFile (dotted 2047) ["r"] :=
    ⟨by decide, dottedFound rfl rfl true (Nat.le_refl _)⟩
  have named : Path.fileName? (dotted 2047) ≠ some Walk.gitDirectory := by
    rw [dottedFileName]
    decide
  exact ⟨by decide +kernel, by decide +kernel, by decide,
    deepFileStopped rooted (dottedStraight (Nat.le_refl _)) named (dottedLong (by decide))⟩

end Selector

end SourceModels
